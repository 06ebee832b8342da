import Mathlib.Data.List.Infix

/-!
# Paths as lists of components

Rust's `std::path` stores a path as a string, but every operation the repository relies on reads
it through `Path::components`.  On Unix that is: a root `/` when the string starts with one, a `.`
when a relative path starts with the segment `.`, and then the names and `..` of the path, with
empty segments and every other `.` dropped.  Here a path *is* that list of components, and the
`PathBuf` operations are stated on it:

* `StdPath.parse` is `Path::components` of a string;
* `StdPath.push` (and `join`) appends a relative path and replaces the path by an absolute one;
* `StdPath.pop` drops the last component, but never the root;
* `StdPath.startsWith` compares whole components, as `Path::starts_with` does.

The `relative_path` crate reads its strings differently: it only knows `/` as a separator and has
no root, so a leading `/` is just an empty segment.  `RelativePath.toLogicalPath` resolves such a
path against a base, popping on `..` (`RelativePathBuf::to_logical_path`), while
`RelativePath.toPath` writes every component after the base as it stands, `..` included
(`RelativePathBuf::to_path`).

A path is *clean and absolute* (`CleanAbs`) when it is the root followed by names only.  Popping
and pushing names keep that shape, so resolving a relative path logically against such a base
stays one (`toLogicalPath_cleanAbs`), however many `..` it has.
-/

set_option autoImplicit false

/-- A component of a path, as `Path::components` yields it on Unix. -/
inductive Component where
  | rootDir
  | curDir
  | parentDir
  | normal (name : String)
  deriving DecidableEq, Repr

namespace Component

/-- A name: neither the root, nor `.`, nor `..`. -/
def IsNormal : Component → Prop
  | .normal _ => True
  | _ => False

instance : DecidablePred IsNormal := fun c ↦ by
  cases c <;> first | exact isTrue trivial | exact isFalse id

@[simp] theorem isNormal_normal (name : String) : IsNormal (.normal name) := trivial
@[simp] theorem not_isNormal_rootDir : ¬ IsNormal .rootDir := id
@[simp] theorem not_isNormal_curDir : ¬ IsNormal .curDir := id
@[simp] theorem not_isNormal_parentDir : ¬ IsNormal .parentDir := id

end Component

namespace StdPath

/-- A segment between two separators, after the front of the path: empty segments and `.` are
dropped, `..` is a parent directory. -/
def segment (seg : List Char) : Option Component :=
  if seg = [] ∨ seg = ['.'] then none
  else if seg = ['.', '.'] then some .parentDir
  else some (.normal (String.ofList seg))

/-- `Path::components` on Unix. -/
def parse (s : String) : List Component :=
  match s.toList with
  | '/' :: rest => .rootDir :: (rest.splitOn '/').filterMap segment
  | cs =>
    match cs.splitOn '/' with
    | ['.'] :: segs => .curDir :: segs.filterMap segment
    | segs => segs.filterMap segment

/-- `Path::is_absolute` on Unix: the path starts at the root.  (`Path::has_root` is the same test
on Unix.) -/
def isAbsolute (p : List Component) : Bool := p.head? == some .rootDir

/-- `PathBuf::push`: an absolute path replaces the path; a relative one is appended, a `.` in its
front dropped unless the path was empty. -/
def push (p q : List Component) : List Component :=
  if isAbsolute q then q else if p = [] then q else p ++ q.filter (· != .curDir)

/-- `Path::join`: `push` on a copy. -/
def join (p q : List Component) : List Component := push p q

/-- `PathBuf::pop`: drop the last component; the root alone has no parent and stays. -/
def pop (p : List Component) : List Component := if p = [.rootDir] then p else p.dropLast

/-- `Path::starts_with`: the components of `base` are the first components of `p`. -/
def startsWith (p base : List Component) : Bool := base.isPrefixOf p

/-- Root followed by names only: an absolute path with no `.` or `..` in it. -/
def CleanAbs (p : List Component) : Prop :=
  ∃ names : List Component, p = .rootDir :: names ∧ ∀ c ∈ names, c.IsNormal

/-- `q` lies inside `root` lexically: it starts with `root`, and has no `.` or `..` that could
lead out of it again. -/
def LexicallyInside (root q : List Component) : Prop :=
  startsWith q root = true ∧ ∀ c ∈ q, c ≠ .curDir ∧ c ≠ .parentDir

instance (root q : List Component) : Decidable (LexicallyInside root q) :=
  inferInstanceAs (Decidable (_ ∧ _))

@[simp] theorem push_normal (p : List Component) (name : String) :
    push p [.normal name] = p ++ [.normal name] := by
  by_cases hp : p = []
  · simp [push, isAbsolute, hp]
  · simp [push, isAbsolute, hp]

theorem pop_append_normal (p : List Component) (name : String) :
    pop (p ++ [.normal name]) = p := by
  have hne : p ++ [Component.normal name] ≠ [.rootDir] := by
    intro h
    have hlast := congrArg List.getLast? h
    simp at hlast
  rw [pop, if_neg hne, List.dropLast_concat]

theorem CleanAbs.isAbsolute {p : List Component} (h : CleanAbs p) : isAbsolute p = true := by
  obtain ⟨names, rfl, -⟩ := h
  rfl

/-- A clean absolute path has no `.` or `..`. -/
theorem CleanAbs.not_dot {p : List Component} (h : CleanAbs p) :
    ∀ c ∈ p, c ≠ .curDir ∧ c ≠ .parentDir := by
  obtain ⟨names, rfl, hnames⟩ := h
  intro c hc
  rcases List.mem_cons.1 hc with rfl | hc
  · exact ⟨nofun, nofun⟩
  · have hnormal := hnames c hc
    constructor <;> rintro rfl <;> exact hnormal

/-- Pushing a name onto a clean absolute path keeps it one. -/
theorem CleanAbs.push_normal {p : List Component} (h : CleanAbs p) (name : String) :
    CleanAbs (push p [.normal name]) := by
  obtain ⟨names, rfl, hnames⟩ := h
  refine ⟨names ++ [.normal name], by simp, fun c hc ↦ ?_⟩
  rcases List.mem_append.1 hc with hc | hc
  · exact hnames c hc
  · rw [List.mem_singleton.1 hc]
    trivial

/-- Popping a clean absolute path keeps it one: the root stays. -/
theorem CleanAbs.pop {p : List Component} (h : CleanAbs p) : CleanAbs (pop p) := by
  obtain ⟨names, rfl, hnames⟩ := h
  rcases List.eq_nil_or_concat names with rfl | ⟨init, last, rfl⟩
  · exact ⟨[], by simp [StdPath.pop], by simp⟩
  · -- the last component is a name, and the root with the names before it remains
    rw [List.concat_eq_append] at hnames ⊢
    obtain ⟨name, rfl⟩ : ∃ name, last = .normal name := by
      have := hnames last (by simp)
      cases last <;> first | exact ⟨_, rfl⟩ | exact absurd this id
    refine ⟨init, ?_, fun c hc ↦ hnames c (by simp [hc])⟩
    rw [← List.cons_append, pop_append_normal]

end StdPath

namespace RelativePath

open StdPath

/-- A component of a `relative_path` string: a segment between two `/`.  Empty segments are
dropped; there is no root. -/
def component (seg : List Char) : Option Component :=
  if seg = [] then none
  else if seg = ['.'] then some .curDir
  else if seg = ['.', '.'] then some .parentDir
  else some (.normal (String.ofList seg))

/-- `RelativePath::components`. -/
def components (s : String) : List Component := (s.toList.splitOn '/').filterMap component

/-- One component of `RelativePathBuf::to_logical_path`: skip `.`, pop on `..`, push a name. -/
def logicalStep (p : List Component) : Component → List Component
  | .curDir => p
  | .parentDir => pop p
  | c => push p [c]

/-- `RelativePathBuf::to_logical_path`: the path resolved against `base`, `..` popping. -/
def toLogicalPath (rel : String) (base : List Component) : List Component :=
  (components rel).foldl logicalStep base

/-- `RelativePathBuf::to_path`: every component written after `base` as it stands, so a `..`
stays in the path. -/
def toPath (rel : String) (base : List Component) : List Component :=
  (components rel).foldl (fun p c ↦ push p [c]) base

theorem component_ne_rootDir {seg : List Char} : component seg ≠ some .rootDir := by
  rw [component]
  split_ifs <;> simp

theorem rootDir_not_mem_components (s : String) : Component.rootDir ∉ components s := by
  rw [components, List.mem_filterMap]
  rintro ⟨seg, -, hseg⟩
  exact component_ne_rootDir hseg

/-- One step of `to_logical_path` keeps a base clean and absolute. -/
theorem cleanAbs_logicalStep {p : List Component} (h : CleanAbs p) {c : Component}
    (hc : c ≠ .rootDir) : CleanAbs (logicalStep p c) := by
  cases c with
  | rootDir => exact absurd rfl hc
  | curDir => exact h
  | parentDir => exact h.pop
  | normal name => exact h.push_normal name

theorem foldl_logicalStep_cleanAbs (cs : List Component) (hroot : Component.rootDir ∉ cs) :
    ∀ {base : List Component}, CleanAbs base → CleanAbs (cs.foldl logicalStep base) := by
  induction cs with
  | nil => exact fun h ↦ h
  | cons c cs ih =>
    intro base h
    rw [List.foldl_cons]
    exact ih (fun hmem ↦ hroot (List.mem_cons_of_mem c hmem))
      (cleanAbs_logicalStep h fun hc ↦ hroot (hc ▸ List.mem_cons_self))

/-- **Logical resolution against a clean absolute base stays clean and absolute**, whatever `..`
the relative path holds: it may climb to the root, never past it or into a `..`. -/
theorem toLogicalPath_cleanAbs {base : List Component} (h : CleanAbs base) (rel : String) :
    CleanAbs (toLogicalPath rel base) :=
  foldl_logicalStep_cleanAbs _ (rootDir_not_mem_components rel) h

end RelativePath
