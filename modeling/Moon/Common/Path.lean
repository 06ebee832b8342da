import Moon.Lib.Path

/-!
# `clean_components`

`clean_components` (`crates/common/src/path.rs`) normalises a path lexically, without looking at
the file system.  It walks the components once, keeping the path built so far, the number of
components in it and how many of those are leading `..`:

* `.` is dropped;
* a name is pushed;
* `..` pops the last name, is pushed when there is nothing but `..` to pop (a relative path
  climbing out of itself), and is dropped right after the root, above which nothing lies;
* a path left with no component at all becomes `.`.

`cleanComponents_cleaned` says what comes out of any path: `.`, or a run of `..` followed by names,
or the root followed by names (`Cleaned`).  `cleanComponents_of_cleaned` says such a path comes out
unchanged, so the function is idempotent (`cleanComponents_idem`).  Both rest on the invariant of
the loop: the state is `relState k names` or `absState names`, and each kind of component moves it
from one such state to another.
-/

set_option autoImplicit false

namespace Moon

open StdPath

/-- What the loop of `clean_components` keeps: the path so far, the number of `..` in its front,
and the number of its components. -/
structure CleanState where
  cleaned : List Component
  leadingParentDots : ℕ
  componentCount : ℕ
  deriving DecidableEq, Repr

/-- One component of `clean_components`' loop. -/
def cleanStep (st : CleanState) : Component → CleanState
  | .curDir => st
  | .rootDir => ⟨push st.cleaned [.rootDir], st.leadingParentDots, st.componentCount + 1⟩
  | .parentDir =>
    if st.componentCount = 1 ∧ isAbsolute st.cleaned then
      -- nothing lies above the root
      st
    else if st.componentCount = st.leadingParentDots then
      ⟨push st.cleaned [.parentDir], st.leadingParentDots + 1, st.componentCount + 1⟩
    else ⟨pop st.cleaned, st.leadingParentDots, st.componentCount - 1⟩
  | .normal name => ⟨push st.cleaned [.normal name], st.leadingParentDots, st.componentCount + 1⟩

/-- `clean_components` (on Unix, where a path has no prefix). -/
def cleanComponents (path : List Component) : List Component :=
  let st := path.foldl cleanStep ⟨[], 0, 0⟩
  if st.componentCount = 0 then push st.cleaned [.curDir] else st.cleaned

/-- The components `Path::components` yields: a root, if there is one, comes first. -/
def RootFirst (path : List Component) : Prop := ∀ c ∈ path.tail, c ≠ .rootDir

/-- What `clean_components` returns: `.`; or `..` some times, then names, and not nothing; or the
root, then names. -/
inductive Cleaned : List Component → Prop
  | cur : Cleaned [.curDir]
  | rel (k : ℕ) (names : List Component) (hnames : ∀ c ∈ names, c.IsNormal)
      (hne : k + names.length ≠ 0) : Cleaned (List.replicate k .parentDir ++ names)
  | abs (names : List Component) (hnames : ∀ c ∈ names, c.IsNormal) :
      Cleaned (.rootDir :: names)

/-! ## The states of the loop -/

/-- A relative path so far: `k` leading `..`, then names. -/
def relState (k : ℕ) (names : List Component) : CleanState :=
  ⟨List.replicate k .parentDir ++ names, k, k + names.length⟩

/-- An absolute path so far: the root, then names. -/
def absState (names : List Component) : CleanState := ⟨.rootDir :: names, 0, names.length + 1⟩

section States

variable {names : List Component}

theorem isAbsolute_rel (k : ℕ) (hnames : ∀ c ∈ names, c.IsNormal) :
    isAbsolute (List.replicate k .parentDir ++ names) = false := by
  cases k with
  | succ k => rfl
  | zero =>
    cases names with
    | nil => rfl
    | cons c rest =>
      have hc := hnames c List.mem_cons_self
      cases c <;> first | rfl | exact absurd hc id

theorem cleanStep_rel_normal (k : ℕ) (name : String) :
    cleanStep (relState k names) (.normal name) = relState k (names ++ [.normal name]) := by
  unfold cleanStep relState
  simp [Nat.add_assoc]

theorem cleanStep_abs_normal (name : String) :
    cleanStep (absState names) (.normal name) = absState (names ++ [.normal name]) := by
  unfold cleanStep absState
  simp

/-- A `..` with no name before it to pop is pushed. -/
theorem cleanStep_rel_nil_parentDir (k : ℕ) :
    cleanStep (relState k []) .parentDir = relState (k + 1) [] := by
  have habs : isAbsolute (List.replicate k .parentDir) = false := by
    simpa using isAbsolute_rel k (fun c (hc : c ∈ ([] : List Component)) ↦ absurd hc (by simp))
  have hpush : push (List.replicate k .parentDir) [.parentDir]
      = List.replicate (k + 1) .parentDir := by
    cases k with
    | zero => rfl
    | succ k => simp [push, isAbsolute, List.replicate_succ']
  unfold cleanStep relState
  simp [habs, hpush]

/-- A `..` after a name pops it. -/
theorem cleanStep_rel_parentDir (k : ℕ) (hnames : ∀ c ∈ names, c.IsNormal)
    (hne : names ≠ []) :
    cleanStep (relState k names) .parentDir = relState k names.dropLast := by
  obtain ⟨init, name, rfl⟩ : ∃ init name, names = init ++ [.normal name] := by
    obtain ⟨init, last, rfl⟩ := List.eq_nil_or_concat names |>.resolve_left hne
    rw [List.concat_eq_append] at hnames ⊢
    have hlast := hnames last (by simp)
    cases last <;> first | exact ⟨init, _, rfl⟩ | exact absurd hlast id
  -- neither right after the root nor among leading `..`: the name before it is popped
  have hnotabs : ¬ ((relState k (init ++ [.normal name])).componentCount = 1 ∧
      isAbsolute (relState k (init ++ [.normal name])).cleaned) := by
    unfold relState
    simp [isAbsolute_rel k hnames]
  have hcount : (relState k (init ++ [.normal name])).componentCount ≠
      (relState k (init ++ [.normal name])).leadingParentDots := by
    unfold relState
    simp
  have hpop : pop (List.replicate k .parentDir ++ (init ++ [.normal name]))
      = List.replicate k .parentDir ++ init := by
    rw [← List.append_assoc, pop_append_normal]
  unfold cleanStep
  dsimp only
  rw [if_neg hnotabs, if_neg hcount]
  unfold relState
  simp only [hpop, List.dropLast_concat, List.length_append, List.length_singleton]
  congr 1

/-- A `..` right after the root is dropped; after a name, it pops the name. -/
theorem cleanStep_abs_parentDir (hnames : ∀ c ∈ names, c.IsNormal) :
    cleanStep (absState names) .parentDir = absState names.dropLast := by
  rcases List.eq_nil_or_concat names with rfl | ⟨init, last, rfl⟩
  · unfold cleanStep absState
    simp [isAbsolute]
  · rw [List.concat_eq_append] at hnames ⊢
    obtain ⟨name, rfl⟩ : ∃ name, last = .normal name := by
      have hlast := hnames last (by simp)
      cases last <;> first | exact ⟨_, rfl⟩ | exact absurd hlast id
    have hpop : pop (.rootDir :: (init ++ [.normal name])) = .rootDir :: init := by
      rw [← List.cons_append, pop_append_normal]
    unfold cleanStep absState
    simp [hpop]

theorem cleanStep_init_rootDir : cleanStep (relState 0 []) .rootDir = absState [] := rfl

end States

/-! ## The invariant -/

/-- The loop is in a relative or an absolute state. -/
def CleanInv (st : CleanState) : Prop :=
  (∃ k names, (∀ c ∈ names, c.IsNormal) ∧ st = relState k names) ∨
    ∃ names, (∀ c ∈ names, c.IsNormal) ∧ st = absState names

/-- Every component but the root keeps the invariant. -/
theorem CleanInv.step {st : CleanState} (h : CleanInv st) {c : Component} (hc : c ≠ .rootDir) :
    CleanInv (cleanStep st c) := by
  have happend : ∀ {names : List Component} (name : String), (∀ c ∈ names, c.IsNormal) →
      ∀ c ∈ names ++ [.normal name], c.IsNormal := fun name hnames c hc' ↦ by
    rcases List.mem_append.1 hc' with hc' | hc'
    · exact hnames c hc'
    · simp [List.mem_singleton.1 hc']
  have hdrop : ∀ {names : List Component}, (∀ c ∈ names, c.IsNormal) →
      ∀ c ∈ names.dropLast, c.IsNormal := fun hnames c hc' ↦ hnames c (List.dropLast_subset _ hc')
  rcases h with ⟨k, names, hnames, rfl⟩ | ⟨names, hnames, rfl⟩
  · cases c with
    | rootDir => exact absurd rfl hc
    | curDir => exact .inl ⟨k, names, hnames, rfl⟩
    | normal name => exact .inl ⟨k, _, happend name hnames, cleanStep_rel_normal k name⟩
    | parentDir =>
      by_cases hne : names = []
      · subst hne
        exact .inl ⟨k + 1, [], by simp, cleanStep_rel_nil_parentDir k⟩
      · exact .inl ⟨k, _, hdrop hnames, cleanStep_rel_parentDir k hnames hne⟩
  · cases c with
    | rootDir => exact absurd rfl hc
    | curDir => exact .inr ⟨names, hnames, rfl⟩
    | normal name => exact .inr ⟨_, happend name hnames, cleanStep_abs_normal name⟩
    | parentDir => exact .inr ⟨_, hdrop hnames, cleanStep_abs_parentDir hnames⟩

theorem CleanInv.foldl {st : CleanState} (h : CleanInv st) (cs : List Component)
    (hcs : ∀ c ∈ cs, c ≠ .rootDir) : CleanInv (cs.foldl cleanStep st) := by
  induction cs generalizing st with
  | nil => exact h
  | cons c cs ih =>
    rw [List.foldl_cons]
    exact ih (h.step (hcs c List.mem_cons_self)) fun c' hc' ↦ hcs c' (List.mem_cons_of_mem c hc')

/-- The loop over a path whose root comes first keeps the invariant. -/
theorem cleanInv_foldl {path : List Component} (hpath : RootFirst path) :
    CleanInv (path.foldl cleanStep ⟨[], 0, 0⟩) := by
  have hinit : CleanInv (relState 0 []) := .inl ⟨0, [], by simp, rfl⟩
  cases path with
  | nil => exact hinit
  | cons c cs =>
    rw [List.foldl_cons]
    -- the first component may be the root; the others are not
    have hfirst : CleanInv (cleanStep (relState 0 []) c) := by
      by_cases hc : c = .rootDir
      · subst hc
        exact .inr ⟨[], by simp, cleanStep_init_rootDir⟩
      · exact hinit.step hc
    exact hfirst.foldl cs hpath

/-- **What `clean_components` returns**: `.`, or `..` some times then names, or the root then
names.  So a `..` stands only in front of a relative path and never after the root. -/
theorem cleanComponents_cleaned {path : List Component} (hpath : RootFirst path) :
    Cleaned (cleanComponents path) := by
  rw [cleanComponents]
  rcases cleanInv_foldl hpath with ⟨k, names, hnames, hst⟩ | ⟨names, hnames, hst⟩
  · rw [hst]
    by_cases hzero : k + names.length = 0
    · -- nothing is left: the path is `.`
      obtain ⟨rfl, hnil⟩ : k = 0 ∧ names.length = 0 := by omega
      rw [List.length_eq_zero_iff.1 hnil]
      exact .cur
    · rw [if_neg (show ¬ (relState k names).componentCount = 0 from hzero)]
      exact .rel k names hnames hzero
  · rw [hst]
    simp only [absState, Nat.add_one_ne_zero, if_false]
    exact .abs names hnames

/-! ## A cleaned path is a fixed point -/

theorem foldl_cleanStep_rel_names (k : ℕ) {names : List Component} :
    ∀ (more : List Component), (∀ c ∈ more, c.IsNormal) →
      more.foldl cleanStep (relState k names) = relState k (names ++ more) := by
  intro more hmore
  induction more generalizing names with
  | nil => simp
  | cons c more ih =>
    obtain ⟨name, rfl⟩ : ∃ name, c = .normal name := by
      have hc := hmore c List.mem_cons_self
      cases c <;> first | exact ⟨_, rfl⟩ | exact absurd hc id
    rw [List.foldl_cons, cleanStep_rel_normal, ih fun c hc ↦ hmore c (List.mem_cons_of_mem _ hc)]
    simp

theorem foldl_cleanStep_abs_names {names : List Component} :
    ∀ (more : List Component), (∀ c ∈ more, c.IsNormal) →
      more.foldl cleanStep (absState names) = absState (names ++ more) := by
  intro more hmore
  induction more generalizing names with
  | nil => simp
  | cons c more ih =>
    obtain ⟨name, rfl⟩ : ∃ name, c = .normal name := by
      have hc := hmore c List.mem_cons_self
      cases c <;> first | exact ⟨_, rfl⟩ | exact absurd hc id
    rw [List.foldl_cons, cleanStep_abs_normal, ih fun c hc ↦ hmore c (List.mem_cons_of_mem _ hc)]
    simp

theorem foldl_cleanStep_parentDirs (k j : ℕ) :
    (List.replicate j Component.parentDir).foldl cleanStep (relState k []) = relState (k + j) [] := by
  induction j generalizing k with
  | zero => rfl
  | succ j ih =>
    rw [List.replicate_succ, List.foldl_cons, cleanStep_rel_nil_parentDir, ih, Nat.add_right_comm,
      Nat.add_assoc]

/-- **A cleaned path comes back unchanged.** -/
theorem cleanComponents_of_cleaned {path : List Component} (h : Cleaned path) :
    cleanComponents path = path := by
  cases h with
  | cur => rfl
  | rel k names hnames hne =>
    have hfold : (List.replicate k Component.parentDir ++ names).foldl cleanStep ⟨[], 0, 0⟩
        = relState k names := by
      rw [List.foldl_append, show (⟨[], 0, 0⟩ : CleanState) = relState 0 [] from rfl,
        foldl_cleanStep_parentDirs, foldl_cleanStep_rel_names _ names hnames, Nat.zero_add,
        List.nil_append]
    rw [cleanComponents, hfold, if_neg (show ¬ (relState k names).componentCount = 0 from hne)]
    rfl
  | abs names hnames =>
    have hfold : (Component.rootDir :: names).foldl cleanStep ⟨[], 0, 0⟩ = absState names := by
      rw [List.foldl_cons, show (⟨[], 0, 0⟩ : CleanState) = relState 0 [] from rfl,
        cleanStep_init_rootDir, foldl_cleanStep_abs_names names hnames, List.nil_append]
    rw [cleanComponents, hfold]
    simp [absState]

/-- **`clean_components` is idempotent.** -/
theorem cleanComponents_idem {path : List Component} (hpath : RootFirst path) :
    cleanComponents (cleanComponents path) = cleanComponents path :=
  cleanComponents_of_cleaned (cleanComponents_cleaned hpath)

/-- A clean absolute path is cleaned already. -/
theorem cleanComponents_of_cleanAbs {path : List Component} (h : CleanAbs path) :
    cleanComponents path = path := by
  obtain ⟨names, rfl, hnames⟩ := h
  exact cleanComponents_of_cleaned (.abs names hnames)

end Moon
