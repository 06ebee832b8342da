import Mathlib.Order.Basic
import Mathlib.Data.List.Pairwise
import Mathlib.Tactic.Tauto
import Mathlib.Order.Lattice

/-!
# Maps kept sorted by key

An ordered map is an association list whose keys strictly increase, so that walking its entries
visits the keys in ascending order, as the iterator of a B-tree map does.  The order is a field
of `SortedMap`: every operation here returns a map that is still sorted, and so no value of the
type lists its keys out of order or twice.

Two operations are what a map of lists needs:

* `SortedMap.push k v`: append `v` to the list under `k`, creating it when `k` is new
  (`entry(k).or_insert_with(Vec::new).push(v)`);
* `SortedMap.retain p`: keep in every list the values `p` accepts, and drop the keys whose list is
  then empty.

The lemmas say where a value stands after each: `SortedMap.mem_values_push` and
`SortedMap.mem_values_retain`.
-/

set_option autoImplicit false

/-- An association list whose keys strictly increase. -/
structure SortedMap (κ ν : Type) [LinearOrder κ] where
  entries : List (κ × ν)
  sorted : (entries.map Prod.fst).Pairwise (· < ·)

namespace SortedMap

variable {κ ν α : Type} [LinearOrder κ]

/-- The empty map. -/
def empty : SortedMap κ ν := ⟨[], List.Pairwise.nil⟩

/-! ## Updating one key -/

/-- Apply `f` to the value under `k`, or insert `f none` at the place of `k` when it is new. -/
def upsertList (k : κ) (f : Option ν → ν) : List (κ × ν) → List (κ × ν)
  | [] => [(k, f none)]
  | (k', v) :: rest =>
    if k < k' then (k, f none) :: (k', v) :: rest
    else if k = k' then (k', f (some v)) :: rest
    else (k', v) :: upsertList k f rest

theorem upsertList_nil (k : κ) (f : Option ν → ν) : upsertList k f [] = [(k, f none)] := rfl

theorem upsertList_cons (k : κ) (f : Option ν → ν) (k' : κ) (v : ν) (rest : List (κ × ν)) :
    upsertList k f ((k', v) :: rest) =
      if k < k' then (k, f none) :: (k', v) :: rest
      else if k = k' then (k', f (some v)) :: rest
      else (k', v) :: upsertList k f rest :=
  rfl

theorem mem_keys_upsertList {k k' : κ} {f : Option ν → ν} :
    ∀ {l : List (κ × ν)}, k' ∈ (upsertList k f l).map Prod.fst → k' = k ∨ k' ∈ l.map Prod.fst
  | [], h => by simpa [upsertList_nil] using h
  | (k₀, v) :: rest, h => by
    rw [upsertList_cons] at h
    split_ifs at h with hlt heq
    · simpa using h
    · simp only [List.map_cons, List.mem_cons] at h ⊢
      tauto
    · simp only [List.map_cons, List.mem_cons] at h ⊢
      rcases h with h | h
      · exact .inr (.inl h)
      · rcases mem_keys_upsertList h with h' | h'
        · exact .inl h'
        · exact .inr (.inr h')

theorem sorted_upsertList (k : κ) (f : Option ν → ν) :
    ∀ {l : List (κ × ν)}, (l.map Prod.fst).Pairwise (· < ·) →
      ((upsertList k f l).map Prod.fst).Pairwise (· < ·)
  | [], _ => by simp [upsertList_nil]
  | (k', v) :: rest, h => by
    rw [List.map_cons, List.pairwise_cons] at h
    obtain ⟨hlt, hrest⟩ := h
    rw [upsertList_cons]
    split_ifs with hk heq
    · -- `k` goes first: it is below `k'`, hence below every key after it
      simp only [List.map_cons, List.pairwise_cons, List.mem_cons]
      refine ⟨?_, hlt, hrest⟩
      rintro x (rfl | hx)
      · exact hk
      · exact hk.trans (hlt x hx)
    · simp only [List.map_cons, List.pairwise_cons]
      exact ⟨hlt, hrest⟩
    · -- `k` goes after `k'`, and every key of the updated rest is `k` or an old key
      have hk' : k' < k := lt_of_le_of_ne (not_lt.mp hk) (Ne.symm heq)
      simp only [List.map_cons, List.pairwise_cons]
      refine ⟨fun x hx ↦ ?_, sorted_upsertList k f hrest⟩
      rcases mem_keys_upsertList hx with rfl | hx
      · exact hk'
      · exact hlt x hx

/-- Apply `f` to the value under `k`, or insert `f none` when `k` is new. -/
def upsert (k : κ) (f : Option ν → ν) (m : SortedMap κ ν) : SortedMap κ ν :=
  ⟨upsertList k f m.entries, sorted_upsertList k f m.sorted⟩

/-- `BTreeMap::insert`: the value under `k` is `v` from now on. -/
def insert (k : κ) (v : ν) (m : SortedMap κ ν) : SortedMap κ ν := m.upsert k fun _ ↦ v

theorem mem_upsertList_const {k : κ} {v : ν} :
    ∀ {l : List (κ × ν)} {e : κ × ν}, e ∈ upsertList k (fun _ ↦ v) l → e = (k, v) ∨ e ∈ l
  | [], e, h => by simpa [upsertList_nil] using h
  | (k', v') :: rest, e, h => by
    rw [upsertList_cons] at h
    split_ifs at h with hlt heq
    · simpa using h
    · subst heq
      simp only [List.mem_cons] at h ⊢
      tauto
    · rcases List.mem_cons.1 h with rfl | h
      · exact .inr List.mem_cons_self
      · rcases mem_upsertList_const h with h | h
        · exact .inl h
        · exact .inr (List.mem_cons_of_mem _ h)

/-- An entry after `insert k v` is `(k, v)` or was there before. -/
theorem mem_entries_insert {k : κ} {v : ν} {m : SortedMap κ ν} {e : κ × ν}
    (h : e ∈ (m.insert k v).entries) : e = (k, v) ∨ e ∈ m.entries :=
  mem_upsertList_const h

/-- A property of every entry survives `insert k v` when `(k, v)` has it. -/
theorem forall_mem_entries_insert {P : κ × ν → Prop} {k : κ} {v : ν} {m : SortedMap κ ν}
    (hkv : P (k, v)) (hm : ∀ e ∈ m.entries, P e) : ∀ e ∈ (m.insert k v).entries, P e := by
  intro e he
  rcases mem_entries_insert he with rfl | he
  · exact hkv
  · exact hm e he

/-! ## Maps of lists -/

/-- Whether `a` is in the list under some key. -/
def MemValues (a : α) (m : SortedMap κ (List α)) : Prop := ∃ e ∈ m.entries, a ∈ e.2

/-- `entry(k).or_insert_with(Vec::new).push(v)`. -/
def push (k : κ) (v : α) (m : SortedMap κ (List α)) : SortedMap κ (List α) :=
  m.upsert k fun o ↦ o.getD [] ++ [v]

theorem memValues_upsertList {k : κ} {v a : α} :
    ∀ {l : List (κ × List α)},
      (∃ e ∈ upsertList k (fun o ↦ o.getD [] ++ [v]) l, a ∈ e.2) ↔ a = v ∨ ∃ e ∈ l, a ∈ e.2
  | [] => by simp [upsertList_nil]
  | (k', vs) :: rest => by
    rw [upsertList_cons]
    split_ifs
    · simp only [List.mem_cons, exists_eq_or_imp, Option.getD_none, List.nil_append,
        List.not_mem_nil, or_false]
    · simp only [List.mem_cons, exists_eq_or_imp, Option.getD_some, List.mem_append]
      tauto
    · simp only [List.mem_cons, exists_eq_or_imp]
      rw [memValues_upsertList]
      tauto

/-- After `push k v`, the values are `v` and the values before. -/
theorem mem_values_push (k : κ) (v a : α) (m : SortedMap κ (List α)) :
    MemValues a (m.push k v) ↔ a = v ∨ MemValues a m :=
  memValues_upsertList

/-- Keep the values `p` accepts and drop the keys left with none: `retain` with a closure that
first retains in the list, then asks whether it is still non-empty. -/
def retainList (p : α → Bool) (l : List (κ × List α)) : List (κ × List α) :=
  l.filterMap fun e ↦
    let kept := e.2.filter p
    if kept.isEmpty then none else some (e.1, kept)

omit [LinearOrder κ] in
theorem keys_retainList_sublist (p : α → Bool) :
    ∀ (l : List (κ × List α)), ((retainList p l).map Prod.fst).Sublist (l.map Prod.fst)
  | [] => List.Sublist.slnil
  | (k, vs) :: rest => by
    unfold retainList
    rw [List.filterMap_cons]
    dsimp only
    split_ifs
    · exact (keys_retainList_sublist p rest).cons k
    · exact (keys_retainList_sublist p rest).cons_cons k

/-- `retain` on a map of lists. -/
def retain (p : α → Bool) (m : SortedMap κ (List α)) : SortedMap κ (List α) :=
  ⟨retainList p m.entries, m.sorted.sublist (keys_retainList_sublist p m.entries)⟩

/-- After `retain p`, the values are those before that `p` accepts. -/
theorem mem_values_retain (p : α → Bool) (a : α) (m : SortedMap κ (List α)) :
    MemValues a (m.retain p) ↔ MemValues a m ∧ p a := by
  unfold MemValues retain retainList
  simp only [List.mem_filterMap]
  constructor
  · rintro ⟨e, ⟨e₀, he₀, hsome⟩, ha⟩
    split_ifs at hsome
    cases hsome
    rw [List.mem_filter] at ha
    exact ⟨⟨e₀, he₀, ha.1⟩, ha.2⟩
  · rintro ⟨⟨e₀, he₀, ha⟩, hp⟩
    have hkept : a ∈ e₀.2.filter p := List.mem_filter.mpr ⟨ha, hp⟩
    have hne : (e₀.2.filter p).isEmpty = false := by
      cases h : e₀.2.filter p with
      | nil => rw [h] at hkept; cases hkept
      | cons _ _ => rfl
    exact ⟨(e₀.1, e₀.2.filter p), ⟨e₀, he₀, by simp [hne]⟩, hkept⟩

end SortedMap
