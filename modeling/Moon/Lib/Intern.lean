import Moon.Lib.Merge

/-!
# Interning tables

A table that gives each distinct value one index keeps the values in a list, in index order, and
a map that files each value under its index.  When the map inverts the list (`IndexMap.Inverts`)
the table is sound: a value is found exactly at an index that holds it (`Inverts.getElem?`), the
map knows exactly the values of the list (`Inverts.get?_eq_none_iff`), and so no value is stored
twice (`Inverts.nodup`).  Appending a value the map does not know, filed under the next index,
keeps the map inverting the longer list (`Inverts.push`); that is the only way such a table grows.
-/

set_option autoImplicit false

namespace IndexMap

variable {K : Type} [DecidableEq K]

/-- `m` inverts `ws`: it files each item of `ws` under its position, and nothing else. -/
def Inverts (m : List (K × ℕ)) (ws : List K) : Prop :=
  ∀ k i, get? m k = some i ↔ ws[i]? = some k

theorem inverts_nil : Inverts ([] : List (K × ℕ)) [] := fun k i ↦ by simp

variable {m : List (K × ℕ)} {ws : List K}

/-- A value found in the table is at the index it is filed under. -/
theorem Inverts.getElem? (h : Inverts m ws) {k : K} {i : ℕ} (hk : get? m k = some i) :
    ws[i]? = some k :=
  (h k i).1 hk

/-- The map knows exactly the values of the list. -/
theorem Inverts.get?_eq_none_iff (h : Inverts m ws) {k : K} : get? m k = none ↔ k ∉ ws := by
  constructor
  · intro hk hmem
    obtain ⟨i, hi, hik⟩ := List.getElem_of_mem hmem
    have := (h k i).2 (List.getElem?_eq_some_iff.2 ⟨hi, hik⟩)
    rw [hk] at this
    cases this
  · intro hk
    cases hget : get? m k with
    | none => rfl
    | some i => exact absurd (List.mem_of_getElem? (h.getElem? hget)) hk

/-- **An inverted list holds no value twice**: two indices holding one value are both the index
it is filed under. -/
theorem Inverts.nodup (h : Inverts m ws) : ws.Nodup := by
  rw [List.nodup_iff_getElem?_ne_getElem?]
  intro i j hij hj heq
  obtain ⟨k, hk⟩ : ∃ k, ws[j]? = some k := ⟨ws[j], List.getElem?_eq_getElem hj⟩
  have hi : get? m k = some i := (h k i).2 (heq.trans hk)
  have hj' : get? m k = some j := (h k j).2 hk
  rw [hi, Option.some.injEq] at hj'
  omega

/-- **Interning a new value**: filed under the next index, it keeps the map inverting the list
with the value appended. -/
theorem Inverts.push (h : Inverts m ws) {k : K} (hk : get? m k = none) :
    Inverts (insert m k ws.length) (ws ++ [k]) := by
  have hnot : k ∉ ws := h.get?_eq_none_iff.1 hk
  intro k' i
  rw [get?_insert, List.getElem?_append]
  by_cases hkk : k = k'
  · -- the new value: found at the new index, and held at no old one
    subst hkk
    rw [if_pos rfl, Option.some.injEq]
    by_cases hi : i < ws.length
    · rw [if_pos hi]
      constructor
      · intro hi'
        omega
      · intro hws
        exact absurd (List.mem_of_getElem? hws) hnot
    · rw [if_neg hi, List.getElem?_singleton]
      constructor
      · intro hi'
        simp [hi']
      · intro hws
        by_contra hne
        rw [if_neg (by omega)] at hws
        cases hws
  · -- an old value: found where it was, and the new index holds another
    rw [if_neg hkk, h k' i]
    by_cases hi : i < ws.length
    · rw [if_pos hi]
    · rw [if_neg hi, List.getElem?_singleton, List.getElem?_eq_none (by omega)]
      constructor
      · intro hnone
        cases hnone
      · intro hws
        by_cases hz : i - ws.length = 0
        · rw [if_pos hz, Option.some.injEq] at hws
          exact absurd hws hkk
        · rw [if_neg hz] at hws
          cases hws

end IndexMap
