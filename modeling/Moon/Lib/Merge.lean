import Mathlib.Data.List.Basic
import Mathlib.Data.List.Sigma

/-!
# Merging lists without repeats, and insertion-ordered maps

Two pieces of general list mathematics that merging configuration values rests on.

* `List.appendNew acc items` adds to `acc` each item of `items` that is not in the list yet, one at
  a time, so that an item repeated within `items` is added once.  It is `acc` followed by the new
  items with their repeats removed (`List.appendNew_eq`), where "removing repeats" is core's
  `List.eraseDups`, which keeps every item's first occurrence.  `eraseDups` commutes with
  `filter` and leaves a list without repeats alone.
* `List.joinNew` joins lists keeping the first whole and, from the others, only what it lacks,
  each once; without its repeats it is the joined lists' items without repeats
  (`List.eraseDups_joinNew`).
* `List.foldl_zipIdx_of_indep`: a fold over positioned items that ignores the positions, and
  `List.foldl_zipIdx_succ_of_id` one that does nothing after the first.
* `IndexMap` is an insertion-ordered map kept as its list of entries: `insert` keeps a present
  key in its place and gives it the new value, and appends a new key.  `IndexMap.get?` reads the
  value of a key off its last entry, so that no invariant is needed; inserting the entries of a
  list one by one reads as appending the list (`IndexMap.get?_extend`), and a map read after
  appending another is read in the later one first (`IndexMap.get?_append`).
-/

set_option autoImplicit false

namespace List

variable {α : Type} [BEq α] [LawfulBEq α]

/-- `eraseDups` of a filtered list is the filtered `eraseDups`. -/
theorem eraseDups_filter (p : α → Bool) : ∀ l : List α, (l.filter p).eraseDups = l.eraseDups.filter p
  | [] => rfl
  | a :: as => by
    have hlt : (as.filter fun b ↦ !b == a).length < as.length + 1 :=
      Nat.lt_succ_of_le (length_filter_le _ _)
    have ih := eraseDups_filter p (as.filter fun b ↦ !b == a)
    rw [eraseDups_cons, filter_cons]
    by_cases hp : p a = true
    · rw [if_pos hp, eraseDups_cons, filter_cons_of_pos hp, ← ih, filter_filter, filter_filter]
      simp only [Bool.and_comm]
    · rw [if_neg hp, filter_cons_of_neg hp, ← ih, filter_filter]
      -- an item equal to `a` fails `p` anyway
      congr 1
      refine filter_congr fun b _ ↦ ?_
      by_cases hb : b = a
      · subst hb
        simp [hp]
      · simp [hb]
termination_by l => l.length

theorem nodup_eraseDups : ∀ l : List α, l.eraseDups.Nodup
  | [] => nodup_nil
  | a :: as => by
    have hlt : (as.filter fun b ↦ !b == a).length < as.length + 1 :=
      Nat.lt_succ_of_le (length_filter_le _ _)
    rw [eraseDups_cons, nodup_cons]
    refine ⟨fun ha ↦ ?_, nodup_eraseDups _⟩
    rw [mem_eraseDups, mem_filter] at ha
    simp at ha
termination_by l => l.length

/-- A list without repeats has none to remove. -/
theorem eraseDups_eq_self_of_nodup : ∀ {l : List α}, l.Nodup → l.eraseDups = l
  | [], _ => rfl
  | a :: as, h => by
    rw [nodup_cons] at h
    have hfilter : (as.filter fun b ↦ !b == a) = as :=
      filter_eq_self.2 fun b hb ↦ by
        have hne : b ≠ a := fun hba ↦ h.1 (hba ▸ hb)
        simp [hne]
    rw [eraseDups_cons, hfilter, eraseDups_eq_self_of_nodup h.2]

/-- Removing repeats after adding the items of `B` that `A` lacks is removing them from
`A ++ B`. -/
theorem eraseDups_append_removeAll (A B : List α) :
    (A ++ (B.removeAll A).eraseDups).eraseDups = (A ++ B).eraseDups := by
  rw [eraseDups_append, eraseDups_append, removeAll, removeAll, ← eraseDups_filter,
    eraseDups_eq_self_of_nodup (nodup_eraseDups _), filter_filter]
  simp only [Bool.and_self]

/-- Lists joined with the first kept whole: then each item of the others that it lacks, once,
where it first comes. -/
def joinNew : List (List α) → List α
  | [] => []
  | first :: rest => first ++ (rest.flatten.removeAll first).eraseDups

/-- Without its repeats, a join is the lists' items without repeats. -/
theorem eraseDups_joinNew : ∀ ls : List (List α), (joinNew ls).eraseDups = ls.flatten.eraseDups
  | [] => rfl
  | first :: rest => by rw [joinNew, eraseDups_append_removeAll, flatten_cons]

/-- Removing the items of a list depends only on which items it holds. -/
theorem removeAll_congr {l s s' : List α} (h : ∀ x, x ∈ s ↔ x ∈ s') :
    l.removeAll s = l.removeAll s' := by
  unfold removeAll
  refine filter_congr fun x _ ↦ ?_
  rw [Bool.eq_iff_iff]
  simp [h x]

/-- Add each item of `items` not in the list yet, one at a time. -/
def appendNew (acc items : List α) : List α :=
  items.foldl (fun l x ↦ if l.contains x then l else l ++ [x]) acc

/-- **What `appendNew` adds**: the items not in `acc`, each once, in the order they first come. -/
theorem appendNew_eq : ∀ (acc items : List α),
    appendNew acc items = acc ++ (items.removeAll acc).eraseDups
  | acc, [] => by simp [appendNew, removeAll]
  | acc, x :: xs => by
    rw [appendNew, foldl_cons, ← appendNew]
    by_cases hx : acc.contains x = true
    · have hx' : x ∈ acc := by simpa using hx
      rw [if_pos hx, appendNew_eq acc xs]
      simp [removeAll, hx']
    · have hx' : x ∉ acc := by simpa using hx
      have hrem : (x :: xs).removeAll acc = x :: xs.removeAll acc := by
        simp [removeAll, hx']
      -- what `acc ++ [x]` leaves of `xs` is what `acc` leaves, without `x`
      have hrem' : xs.removeAll (acc ++ [x]) = (xs.removeAll acc).filter fun b ↦ !b == x := by
        simp only [removeAll, filter_filter]
        congr 1
        funext b
        by_cases hb : b = x <;> simp [hb]
      rw [if_neg hx, appendNew_eq (acc ++ [x]) xs, hrem, eraseDups_cons, hrem', append_assoc,
        singleton_append]

theorem mem_appendNew {acc items : List α} {x : α} :
    x ∈ appendNew acc items ↔ x ∈ acc ∨ x ∈ items := by
  rw [appendNew_eq, mem_append, mem_eraseDups]
  by_cases hx : x ∈ acc <;> simp [removeAll, hx]

theorem nodup_appendNew {acc : List α} (h : acc.Nodup) (items : List α) :
    (appendNew acc items).Nodup := by
  rw [appendNew_eq, nodup_append]
  refine ⟨h, nodup_eraseDups _, fun a ha b hb hab ↦ ?_⟩
  -- what is added was not in `acc`
  rw [mem_eraseDups] at hb
  simp [removeAll, ← hab, ha] at hb

/-- A fold over positioned items whose step ignores the position is the fold over the items. -/
theorem foldl_zipIdx_of_indep {β δ : Type} (f : β → δ × ℕ → β)
    (hf : ∀ b x i j, f b (x, i) = f b (x, j)) :
    ∀ (l : List δ) (n : ℕ) (init : β), (l.zipIdx n).foldl f init = l.foldl (fun b x ↦ f b (x, 0)) init
  | [], _, _ => rfl
  | x :: xs, n, init => by
    rw [zipIdx_cons, foldl_cons, foldl_cons, hf init x n 0, foldl_zipIdx_of_indep f hf xs]

/-- A fold over positioned items whose step does nothing after the first position. -/
theorem foldl_zipIdx_succ_of_id {β δ : Type} (f : β → δ × ℕ → β)
    (hf : ∀ b x i, f b (x, i + 1) = b) :
    ∀ (l : List δ) (n : ℕ) (init : β), (l.zipIdx (n + 1)).foldl f init = init
  | [], _, _ => rfl
  | x :: xs, n, init => by
    rw [zipIdx_cons, foldl_cons, hf, foldl_zipIdx_succ_of_id f hf xs (n + 1)]

end List

namespace IndexMap

variable {K V : Type} [DecidableEq K]

/-- `IndexMap::insert`: a present key keeps its place and takes the new value, a new key goes
last. -/
def insert (m : List (K × V)) (k : K) (v : V) : List (K × V) :=
  if m.any (·.1 == k) then m.map fun e ↦ if e.1 = k then (k, v) else e else m ++ [(k, v)]

/-- `IndexMap::extend`: insert the entries one by one. -/
def extend (m items : List (K × V)) : List (K × V) :=
  items.foldl (fun m e ↦ insert m e.1 e.2) m

/-- The value of a key: that of its last entry. -/
def get? (m : List (K × V)) (k : K) : Option V :=
  (m.reverse.find? (·.1 = k)).map (·.2)

@[simp] theorem get?_nil (k : K) : get? ([] : List (K × V)) k = none := rfl

/-- Appending a map: its entries are read first. -/
theorem get?_append (m₁ m₂ : List (K × V)) (k : K) :
    get? (m₁ ++ m₂) k = (get? m₂ k).or (get? m₁ k) := by
  unfold get?
  simp only [List.reverse_append, List.find?_append, Option.map_or]

theorem get?_singleton (k k' : K) (v : V) :
    get? [(k, v)] k' = if k = k' then some v else none := by
  unfold get?
  by_cases h : k = k' <;> simp [h]

/-- A key with no entry has no value. -/
theorem get?_eq_none {m : List (K × V)} {k : K} (h : m.any (·.1 == k) = false) : get? m k = none := by
  unfold get?
  rw [Option.map_eq_none_iff, List.find?_eq_none]
  intro e he hek
  have hmem : e ∈ m := List.mem_reverse.1 he
  have : m.any (·.1 == k) = true := List.any_eq_true.2 ⟨e, hmem, by simpa using hek⟩
  rw [h] at this
  cases this

theorem get?_cons (e : K × V) (m : List (K × V)) (k : K) :
    get? (e :: m) k = (get? m k).or (if e.1 = k then some e.2 else none) := by
  rw [← List.singleton_append, get?_append, get?_singleton]

/-- Giving every entry of `k` the value `v` sets the key's value, if it has entries, and no
other. -/
theorem get?_map_set (k k' : K) (v : V) (m : List (K × V)) :
    get? (m.map fun e ↦ if e.1 = k then (k, v) else e) k'
      = if k = k' ∧ m.any (·.1 == k) then some v else get? m k' := by
  induction m with
  | nil => simp
  | cons a m ih =>
    obtain ⟨ka, va⟩ := a
    rw [List.map_cons, get?_cons, ih, get?_cons, List.any_cons]
    by_cases ha : ka = k
    · -- the head is an entry of `k`: it now holds `v`, and is read last
      subst ha
      by_cases hk : ka = k'
      · subst hk
        cases hm : m.any (·.1 == ka) with
        | true => simp
        | false => simp [get?_eq_none hm]
      · simp [hk]
    · -- the head is another key's entry, untouched
      have hb : (ka == k) = false := by simpa using ha
      have hcond : (k = k' ∧ (ka == k || m.any (·.1 == k)) = true)
          ↔ (k = k' ∧ m.any (·.1 == k) = true) := by
        rw [hb, Bool.false_or]
      by_cases hc : k = k' ∧ m.any (·.1 == k) = true
      · rw [if_pos hc, if_pos (hcond.2 hc)]
        rfl
      · rw [if_neg hc, if_neg (fun h ↦ hc (hcond.1 h))]
        simp only [if_neg ha]

/-- **Inserting sets the key's value and no other.** -/
theorem get?_insert (m : List (K × V)) (k k' : K) (v : V) :
    get? (insert m k v) k' = if k = k' then some v else get? m k' := by
  unfold insert
  split
  · rename_i hany
    rw [get?_map_set]
    simp [hany]
  · rw [get?_append, get?_singleton]
    split <;> simp

/-- A key has a value exactly when it has an entry. -/
theorem get?_isSome_iff (m : List (K × V)) (k : K) : (get? m k).isSome ↔ k ∈ m.map Prod.fst := by
  unfold get?
  rw [Option.isSome_map, List.find?_isSome]
  simp

/-- **Extending reads as appending.** -/
theorem get?_extend (m items : List (K × V)) (k : K) :
    get? (extend m items) k = get? (m ++ items) k := by
  induction items generalizing m with
  | nil => simp [extend]
  | cons e es ih =>
    have hcons : m ++ e :: es = (m ++ [e]) ++ es := by simp
    rw [extend, List.foldl_cons, ← extend, ih, hcons, get?_append, get?_append (m ++ [e]),
      get?_insert, get?_append, get?_singleton]
    split <;> simp

/-- **A map whose keys do not repeat** holds exactly its entries. -/
theorem get?_eq_some_iff {m : List (K × V)} (hm : (m.map Prod.fst).Nodup) {k : K} {v : V} :
    get? m k = some v ↔ (k, v) ∈ m := by
  induction m generalizing v with
  | nil => simp
  | cons e m ih =>
    rw [List.map_cons, List.nodup_cons] at hm
    rw [get?_cons, List.mem_cons, ← ih hm.2]
    by_cases he : e.1 = k
    · -- the head is the only entry of `k`
      have hnone : get? m k = none := by
        cases hget : get? m k with
        | none => rfl
        | some v' =>
          rw [ih hm.2] at hget
          exact absurd (he ▸ List.mem_map_of_mem hget) hm.1
      obtain ⟨k', v'⟩ := e
      simp only at he
      subst he
      simp [hnone, eq_comm]
    · have hne : (k, v) ≠ e := fun h ↦ he (h ▸ rfl)
      cases get? m k <;> simp [he, hne]

/-- A map built from the positions of a list's items, filed under a key of each item that tells
the items apart, holds each key's entry made from its item. -/
theorem get?_extend_zipIdx_eq_some_iff {α : Type} {l : List α} (key : α → K) (val : α → ℕ → V)
    (hkey : (l.map key).Nodup) {k : K} {v : V} :
    get? (extend [] (l.zipIdx.map fun p ↦ (key p.1, val p.1 p.2))) k = some v ↔
      ∃ i a, l[i]? = some a ∧ key a = k ∧ val a i = v := by
  have hnodup : ((l.zipIdx.map fun p ↦ (key p.1, val p.1 p.2)).map Prod.fst).Nodup := by
    rw [List.map_map]
    have : (Prod.fst ∘ fun p : α × ℕ ↦ (key p.1, val p.1 p.2)) = key ∘ Prod.fst := rfl
    rwa [this, ← List.map_map, List.zipIdx_map_fst]
  rw [get?_extend, List.nil_append, get?_eq_some_iff hnodup, List.mem_map]
  constructor
  · rintro ⟨⟨a, i⟩, hp, heq⟩
    simp only [Prod.mk.injEq] at heq
    exact ⟨i, a, List.mem_zipIdx_iff_getElem?.1 hp, heq.1, heq.2⟩
  · rintro ⟨i, a, ha, rfl, rfl⟩
    exact ⟨(a, i), List.mem_zipIdx_iff_getElem?.2 ha, rfl⟩

/-- A map from the positions of a list's items holds, at each position, the entry made from the
item there. -/
theorem get?_extend_zipIdx_index {α : Type} (l : List α) (val : α → V) (i : ℕ) :
    get? (extend [] (l.zipIdx.map fun p ↦ (p.2, val p.1))) i = l[i]?.map val := by
  have hnodup : ((l.zipIdx.map fun p ↦ (p.2, val p.1)).map Prod.fst).Nodup := by
    rw [List.map_map]
    exact List.nodup_zipIdx_map_snd l
  refine Option.ext fun v ↦ ?_
  rw [get?_extend, List.nil_append, get?_eq_some_iff hnodup, List.mem_map, Option.map_eq_some_iff]
  constructor
  · rintro ⟨⟨a, j⟩, hp, heq⟩
    simp only [Prod.mk.injEq] at heq
    obtain ⟨rfl, rfl⟩ := heq
    exact ⟨a, List.mem_zipIdx_iff_getElem?.1 hp, rfl⟩
  · rintro ⟨a, ha, rfl⟩
    exact ⟨(a, i), List.mem_zipIdx_iff_getElem?.2 ha, rfl⟩

end IndexMap
