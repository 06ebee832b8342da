import Mathlib.Data.List.Infix

/-!
# Replacing the matches of a pattern from left to right

`Regex::replace_all` looks for the leftmost match of its pattern, replaces it by what a closure
computes from the captures, and looks for the next match where that one ended: the matches do
not overlap, and the text a replacement inserts is never searched again.  The closure may also
update some state of its own, as a set of the names it has seen.

A `Scan.Pattern` is what the search needs to know of a pattern: whether it matches at the front
of a text, with which captures and over how many characters.  A match takes at least one
character.  `Scan.replaceAll` tries the pattern at every position in turn; after a match it
skips the characters the match took (`replaceAllFrom` counts them down), so the recursion is
structural and the model can be evaluated.

The lemmas say what a replacement does at the front of the text (`replaceAll_of_run_none`,
`replaceAll_of_run_some`) and that a text the pattern matches nowhere in comes back unchanged
(`replaceAll_of_noMatch`).
-/

set_option autoImplicit false

namespace Scan

/-- A pattern at the front of a text: its captures and the length of its match, which takes at
least one character and no more than there are. -/
structure Pattern (χ α : Type) where
  run : List χ → Option (α × ℕ)
  consumes : ∀ cs a n, run cs = some (a, n) → 0 < n ∧ n ≤ cs.length

variable {χ α σ : Type} (p : Pattern χ α) (rep : α → σ → List χ × σ)

/-- `replace_all` from a position `skip` characters inside the last match. -/
def replaceAllFrom : ℕ → List χ → σ → List χ × σ
  | _, [], s => ([], s)
  | skip + 1, _ :: cs, s => replaceAllFrom skip cs s
  | 0, c :: cs, s =>
    match p.run (c :: cs) with
    | some (a, n) =>
      let r := rep a s
      let tail := replaceAllFrom (n - 1) cs r.2
      (r.1 ++ tail.1, tail.2)
    | none =>
      let tail := replaceAllFrom 0 cs s
      (c :: tail.1, tail.2)

/-- `Regex::replace_all`, with the state the replacement closure updates. -/
def replaceAll (text : List χ) (s : σ) : List χ × σ := replaceAllFrom p rep 0 text s

/-- The pattern matches at no position of the text. -/
def NoMatch (text : List χ) : Prop := ∀ t, t <:+ text → t ≠ [] → p.run t = none

variable {p rep}

@[simp] theorem replaceAll_nil (s : σ) : replaceAll p rep [] s = ([], s) := rfl

/-- The step of `replace_all` at a character: the pattern is tried there first. -/
theorem replaceAll_cons (c : χ) (cs : List χ) (s : σ) :
    replaceAll p rep (c :: cs) s =
      match p.run (c :: cs) with
      | some (a, n) =>
        ((rep a s).1 ++ (replaceAllFrom p rep (n - 1) cs (rep a s).2).1,
          (replaceAllFrom p rep (n - 1) cs (rep a s).2).2)
      | none => (c :: (replaceAll p rep cs s).1, (replaceAll p rep cs s).2) :=
  rfl

/-- Skipping the rest of a match is dropping it. -/
theorem replaceAllFrom_eq_replaceAll : ∀ (k : ℕ) (cs : List χ) (s : σ),
    replaceAllFrom p rep k cs s = replaceAll p rep (cs.drop k) s
  | 0, _, _ => rfl
  | _ + 1, [], _ => by
    rw [List.drop_nil, replaceAll_nil]
    rfl
  | k + 1, _ :: cs, s => by
    show replaceAllFrom p rep k cs s = _
    rw [List.drop_succ_cons, replaceAllFrom_eq_replaceAll k cs s]

theorem replaceAll_of_run_none {c : χ} {cs : List χ} (h : p.run (c :: cs) = none) (s : σ) :
    replaceAll p rep (c :: cs) s
      = (c :: (replaceAll p rep cs s).1, (replaceAll p rep cs s).2) := by
  rw [replaceAll_cons, h]

/-- A match at the front is replaced, and the search goes on after it. -/
theorem replaceAll_of_run_some {text : List χ} {a : α} {n : ℕ} (h : p.run text = some (a, n))
    (s : σ) :
    replaceAll p rep text s
      = ((rep a s).1 ++ (replaceAll p rep (text.drop n) (rep a s).2).1,
          (replaceAll p rep (text.drop n) (rep a s).2).2) := by
  obtain ⟨hn, hlen⟩ := p.consumes text a n h
  cases text with
  | nil =>
    rw [List.length_nil] at hlen
    omega
  | cons c cs =>
    obtain ⟨m, rfl⟩ : ∃ m, n = m + 1 := ⟨n - 1, by omega⟩
    rw [replaceAll_cons, h]
    dsimp only
    rw [Nat.add_sub_cancel, replaceAllFrom_eq_replaceAll, List.drop_succ_cons]

theorem noMatch_cons {c : χ} {cs : List χ} (h : p.run (c :: cs) = none) (hcs : NoMatch p cs) :
    NoMatch p (c :: cs) := by
  intro t ht hne
  rcases List.suffix_cons_iff.1 ht with rfl | ht
  · exact h
  · exact hcs t ht hne

/-- A text the pattern matches nowhere in comes back unchanged, and the state with it. -/
theorem replaceAll_of_noMatch : ∀ {text : List χ}, NoMatch p text → ∀ s : σ,
    replaceAll p rep text s = (text, s)
  | [], _, s => replaceAll_nil s
  | c :: cs, h, s => by
    have hcs : NoMatch p cs := fun t ht hne ↦ h t (ht.trans (List.suffix_cons c cs)) hne
    rw [replaceAll_of_run_none (h _ List.suffix_rfl (List.cons_ne_nil c cs)),
      replaceAll_of_noMatch hcs s]

/-! ## The leftmost match

`Regex::captures` and `Regex::is_match` look for the leftmost match only. -/

variable (p) in
/-- `Regex::captures`: the leftmost match, with the text before it and the text after it. -/
def firstMatch : List χ → Option (List χ × α × List χ)
  | [] => none
  | c :: cs =>
    match p.run (c :: cs) with
    | some (a, n) => some ([], a, (c :: cs).drop n)
    | none => (firstMatch cs).map fun m ↦ (c :: m.1, m.2)

theorem firstMatch_cons (c : χ) (cs : List χ) :
    firstMatch p (c :: cs) =
      match p.run (c :: cs) with
      | some (a, n) => some ([], a, (c :: cs).drop n)
      | none => (firstMatch p cs).map fun m ↦ (c :: m.1, m.2) :=
  rfl

/-- The leftmost match splits the text into what comes before it, the match, and the rest. -/
theorem firstMatch_eq_some : ∀ {text pre post : List χ} {a : α},
    firstMatch p text = some (pre, a, post) →
      ∃ rest n, text = pre ++ rest ∧ p.run rest = some (a, n) ∧ post = rest.drop n
  | [], _, _, _, h => by cases h
  | c :: cs, pre, post, a, h => by
    rw [firstMatch_cons] at h
    cases hrun : p.run (c :: cs) with
    | some r =>
      obtain ⟨a', n⟩ := r
      rw [hrun] at h
      cases h
      exact ⟨c :: cs, n, rfl, hrun, rfl⟩
    | none =>
      rw [hrun] at h
      obtain ⟨⟨pre', a', post'⟩, hcs, heq⟩ := Option.map_eq_some_iff.1 h
      cases heq
      obtain ⟨rest, n, rfl, hrun, rfl⟩ := firstMatch_eq_some hcs
      exact ⟨rest, n, rfl, hrun, rfl⟩

/-- There is no leftmost match exactly when there is no match. -/
theorem firstMatch_eq_none_iff : ∀ {text : List χ}, firstMatch p text = none ↔ NoMatch p text
  | [] => by
    refine ⟨fun _ t ht hne ↦ ?_, fun _ ↦ rfl⟩
    exact absurd (List.suffix_nil.1 ht) hne
  | c :: cs => by
    rw [firstMatch_cons]
    cases hrun : p.run (c :: cs) with
    | some r =>
      constructor
      · intro h
        cases h
      · intro h
        rw [h _ List.suffix_rfl (List.cons_ne_nil c cs)] at hrun
        cases hrun
    | none =>
      rw [Option.map_eq_none_iff, firstMatch_eq_none_iff]
      refine ⟨noMatch_cons hrun, fun h t ht hne ↦ h t (ht.trans (List.suffix_cons c cs)) hne⟩

/-! ## Runs of a class

`[c…]+x`, a class repeated and then a character the class does not contain, matches the longest
run of the class only: a shorter run would be followed by a character of the class, not by `x`. -/

section Runs

variable [DecidableEq χ] (inClass : χ → Bool) (close : χ)

/-- `[c…]+x` at the front of a text, `close` not in the class: the run, and how many characters
the run and `close` take. -/
def closedRun (cs : List χ) : Option (List χ × ℕ) :=
  let run := cs.takeWhile inClass
  match cs.drop run.length with
  | d :: _ => if d = close ∧ run ≠ [] then some (run, run.length + 1) else none
  | [] => none

variable {inClass close}

theorem closedRun_eq_some {cs run : List χ} {n : ℕ} (h : closedRun inClass close cs = some (run, n)) :
    n = run.length + 1 ∧ run ≠ [] ∧ cs = run ++ close :: cs.drop n := by
  dsimp only [closedRun] at h
  split at h
  · next d rest hdrop =>
    split_ifs at h with hd
    cases h
    obtain ⟨hclose, hne⟩ := hd
    rw [hclose] at hdrop
    refine ⟨rfl, hne, ?_⟩
    -- what follows the run is what `dropWhile` leaves, and it starts with `close`
    have hrest : cs.dropWhile inClass = close :: rest := by
      have : (cs.takeWhile inClass ++ cs.dropWhile inClass).drop (cs.takeWhile inClass).length =
          cs.dropWhile inClass := List.drop_left
      rw [List.takeWhile_append_dropWhile] at this
      rw [← this, hdrop]
    have hcs : cs = cs.takeWhile inClass ++ close :: rest := by
      rw [← hrest, List.takeWhile_append_dropWhile]
    generalize cs.takeWhile inClass = run at hcs ⊢
    subst hcs
    simp
  · cases h

end Runs

/-! ## Fixed texts -/

/-- A fixed, non-empty text as a pattern: it matches where the text starts. -/
def literal [DecidableEq χ] (pat : List χ) : Pattern χ Unit where
  run cs := if pat ≠ [] ∧ pat.isPrefixOf cs = true then some ((), pat.length) else none
  consumes cs a n h := by
    split_ifs at h with hpat
    cases h
    exact ⟨List.length_pos_iff.2 hpat.1, (List.isPrefixOf_iff_prefix.1 hpat.2).length_le⟩

/-- `str::replace` with a non-empty pattern: every occurrence, from left to right, replaced by
`rep`. -/
def replaceLiteral [DecidableEq χ] (pat rep text : List χ) : List χ :=
  (replaceAll (literal pat) (fun _ s ↦ (rep, s)) text ()).1

end Scan
