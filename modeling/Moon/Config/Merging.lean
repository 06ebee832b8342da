import Moon.Lib.Merge

/-!
# Merge strategies

`crates/config/src/merging.rs`.  A task inherits list and map settings from a chain of
configurations, and `MergeStrategy` says how two successive values combine: `merge_vec` for
lists and `merge_index_map` for ordered maps.  `index` is the position of `next` in the chain;
`Preserve` keeps `next` only at index 0.

Each strategy is read here in terms of the list library: deduplicating `Append` adds the items of
`next` not already present (`mergeVec_append_dedupe`), `Prepend` does the same the other way
round, and without deduplication both are plain concatenation.  On maps, `Append` reads as the
two maps appended, so a later value wins (`get?_mergeIndexMap_append`), and `Prepend` as the
two the other way round, so an earlier value wins.
-/

set_option autoImplicit false

namespace Moon

/-- `MergeStrategy`. -/
inductive MergeStrategy where
  | append
  | prepend
  | preserve
  | replace
deriving DecidableEq, Repr

/-- The derived `Default`: `Append`. -/
instance : Inhabited MergeStrategy := ⟨.append⟩

section Vec

variable {α : Type} [DecidableEq α]

/-- The `append` closure of `merge_vec`: push each item, unless deduplication is on, the item is
not forced, and the list already holds it. -/
def pushItems (dedupe force : Bool) (list items : List α) : List α :=
  items.foldl (fun list item ↦
    if force || !dedupe || (dedupe && !list.contains item) then list ++ [item] else list) list

/-- `merge_vec`. -/
def mergeVec (base next : List α) (strategy : MergeStrategy) (index : ℕ) (dedupe : Bool) :
    List α :=
  match strategy with
  | .append => if next.isEmpty then base else pushItems dedupe false (pushItems dedupe true [] base) next
  | .prepend => if next.isEmpty then base else pushItems dedupe false (pushItems dedupe true [] next) base
  | .preserve => if index = 0 then next else base
  | .replace => next

/-- Pushing every item: forced, or with no deduplication. -/
theorem pushItems_of_all (dedupe force : Bool) (h : force = true ∨ dedupe = false) :
    ∀ list items : List α, pushItems dedupe force list items = list ++ items
  | list, [] => by simp [pushItems]
  | list, item :: items => by
    have hpush : (force || !dedupe || (dedupe && !list.contains item)) = true := by
      rcases h with rfl | rfl <;> simp
    rw [pushItems, List.foldl_cons, if_pos hpush, ← pushItems, pushItems_of_all dedupe force h,
      List.append_assoc, List.singleton_append]

/-- Deduplicated and not forced, pushing is `appendNew`. -/
theorem pushItems_dedupe (list items : List α) :
    pushItems true false list items = list.appendNew items := by
  unfold pushItems List.appendNew
  congr 1
  funext l x
  cases l.contains x <;> rfl

theorem mergeVec_append_dedupe (base next : List α) (index : ℕ) :
    mergeVec base next .append index true = base ++ (next.removeAll base).eraseDups := by
  unfold mergeVec
  dsimp only
  split
  · rename_i hnext
    rw [List.isEmpty_iff.1 hnext]
    simp [List.removeAll]
  · rw [pushItems_of_all true true (.inl rfl), List.nil_append, pushItems_dedupe,
      List.appendNew_eq]

theorem mergeVec_append (base next : List α) (index : ℕ) :
    mergeVec base next .append index false = base ++ next := by
  unfold mergeVec
  dsimp only
  split
  · rename_i hnext
    rw [List.isEmpty_iff.1 hnext, List.append_nil]
  · rw [pushItems_of_all false true (.inl rfl), List.nil_append,
      pushItems_of_all false false (.inr rfl)]

theorem mergeVec_prepend_dedupe {next : List α} (hnext : next ≠ []) (base : List α)
    (index : ℕ) : mergeVec base next .prepend index true = next ++ (base.removeAll next).eraseDups := by
  unfold mergeVec
  dsimp only
  rw [if_neg (by simpa using hnext), pushItems_of_all true true (.inl rfl), List.nil_append,
    pushItems_dedupe, List.appendNew_eq]

theorem mergeVec_prepend (base next : List α) (index : ℕ) :
    mergeVec base next .prepend index false = next ++ base := by
  unfold mergeVec
  dsimp only
  split
  · rename_i hnext
    rw [List.isEmpty_iff.1 hnext, List.nil_append]
  · rw [pushItems_of_all false true (.inl rfl), List.nil_append,
      pushItems_of_all false false (.inr rfl)]

end Vec

section Map

variable {K V : Type} [DecidableEq K]

/-- `merge_index_map`. -/
def mergeIndexMap (base next : List (K × V)) (strategy : MergeStrategy) (index : ℕ) :
    List (K × V) :=
  match strategy with
  | .append => if next.isEmpty then base else IndexMap.extend (IndexMap.extend [] base) next
  | .prepend => if next.isEmpty then base else IndexMap.extend (IndexMap.extend [] next) base
  | .preserve => if index = 0 then next else base
  | .replace => next

/-- `Append` on maps: the later map's value wins. -/
theorem get?_mergeIndexMap_append (base next : List (K × V)) (index : ℕ) (k : K) :
    IndexMap.get? (mergeIndexMap base next .append index) k = IndexMap.get? (base ++ next) k := by
  unfold mergeIndexMap
  dsimp only
  split
  · rename_i hnext
    rw [List.isEmpty_iff.1 hnext, List.append_nil]
  · rw [IndexMap.get?_extend, IndexMap.get?_append, IndexMap.get?_extend, List.nil_append,
      IndexMap.get?_append]

/-- `Prepend` on maps: the earlier map's value wins. -/
theorem get?_mergeIndexMap_prepend (base next : List (K × V)) (index : ℕ) (k : K) :
    IndexMap.get? (mergeIndexMap base next .prepend index) k = IndexMap.get? (next ++ base) k := by
  unfold mergeIndexMap
  dsimp only
  split
  · rename_i hnext
    rw [List.isEmpty_iff.1 hnext, List.nil_append]
  · rw [IndexMap.get?_extend, IndexMap.get?_append, IndexMap.get?_extend, List.nil_append,
      IndexMap.get?_append]

end Map

end Moon
