import Moon.Lib.Reach
import Mathlib.Order.WellFoundedSet
import Mathlib.Data.List.Perm.Basic

/-!
# Topological sorting

`toposort nodes edges` orders the nodes so that every edge between two of them goes forward: its
source comes before its target.  It is Kahn's algorithm: take the first remaining node that no
remaining node has an edge into, until none remain.  When every remaining node has an edge into it
from a remaining one there is a cycle, and there is no order.

* `toposort_spec`: an order it returns holds each node once and sends every edge forward, as the
  invariant `KahnInv` of the loop says of the nodes taken so far.
* `toposort_isSome`: on acyclic edges it returns an order, since a finite set of nodes with no
  cycle among them has a node none of them has an edge into (`exists_isSource`).
-/

set_option autoImplicit false

namespace EdgeList

variable {α : Type} [DecidableEq α]

/-- No node of `remaining` has an edge into `x`. -/
def isSource (edges : List (α × α)) (remaining : List α) (x : α) : Bool :=
  !edges.any fun e ↦ decide (e.2 = x ∧ e.1 ∈ remaining)

/-- Kahn's loop, for `fuel` rounds: the nodes still to place and the order so far. -/
def kahn (edges : List (α × α)) : ℕ → List α → List α → Option (List α)
  | _, [], sorted => some sorted
  | 0, _ :: _, _ => none
  | fuel + 1, x :: remaining, sorted =>
    match (x :: remaining).find? (isSource edges (x :: remaining)) with
    | none => none
    | some y => kahn edges fuel ((x :: remaining).erase y) (sorted ++ [y])

/-- The nodes in an order that sends every edge forward, or `none` on a cycle. -/
def toposort (nodes : List α) (edges : List (α × α)) : Option (List α) :=
  kahn edges nodes.length nodes []

variable {edges : List (α × α)}

theorem kahn_nil (fuel : ℕ) (sorted : List α) : kahn edges fuel [] sorted = some sorted := by
  cases fuel <;> rfl

theorem kahn_succ_cons (fuel : ℕ) (x : α) (remaining sorted : List α) :
    kahn edges (fuel + 1) (x :: remaining) sorted =
      match (x :: remaining).find? (isSource edges (x :: remaining)) with
      | none => none
      | some y => kahn edges fuel ((x :: remaining).erase y) (sorted ++ [y]) :=
  rfl

/-- **A finite set of nodes with no cycle among them has a source**: a node minimal for the
transitive closure of the edges, which is a strict order when there is no cycle. -/
theorem exists_isSource (hac : Acyclic edges) {remaining : List α} (hne : remaining ≠ []) :
    ∃ x ∈ remaining, isSource edges remaining x = true := by
  let r := Relation.TransGen fun x y ↦ (x, y) ∈ edges
  have : IsStrictOrder α r := { irrefl := hac, trans := fun _ _ _ ↦ Relation.TransGen.trans }
  obtain ⟨y, hy⟩ := List.exists_mem_of_ne_nil remaining hne
  obtain ⟨⟨x, hx⟩, -, hmin⟩ :=
    ((List.finite_toSet remaining).wellFoundedOn (r := r)).has_min Set.univ ⟨⟨y, hy⟩, trivial⟩
  refine ⟨x, hx, ?_⟩
  unfold isSource
  simp only [Bool.not_eq_eq_eq_not, Bool.not_true, List.any_eq_false, decide_eq_true_eq, not_and]
  rintro ⟨z, x'⟩ hzx rfl hz
  exact hmin ⟨z, hz⟩ trivial (.single hzx)

/-- With enough rounds, Kahn's loop on acyclic edges places every node. -/
theorem kahn_isSome (hac : Acyclic edges) :
    ∀ (fuel : ℕ) (remaining sorted : List α), remaining.length ≤ fuel →
      (kahn edges fuel remaining sorted).isSome
  | _, [], _, _ => by simp [kahn_nil]
  | 0, _ :: _, _, h => by simp at h
  | fuel + 1, x :: remaining, sorted, h => by
    obtain ⟨y, hy, hsource⟩ := exists_isSource hac (List.cons_ne_nil x remaining)
    cases hfind : (x :: remaining).find? (isSource edges (x :: remaining)) with
    | none => exact absurd hsource (List.find?_eq_none.1 hfind y hy)
    | some z =>
      -- the node taken leaves the remaining ones, one fewer
      have hlen := List.length_erase_of_mem (List.mem_of_find?_eq_some hfind)
      rw [kahn_succ_cons, hfind]
      exact kahn_isSome hac fuel _ _ (by simp only [List.length_cons] at h hlen; omega)

/-- What holds between the rounds of Kahn's loop on `nodes`: the nodes placed and those remaining
are the nodes, each once, and every edge into a placed node comes from a node placed before it. -/
structure KahnInv (edges : List (α × α)) (nodes sorted remaining : List α) : Prop where
  nodup : (sorted ++ remaining).Nodup
  mem : ∀ x, x ∈ nodes ↔ x ∈ sorted ∨ x ∈ remaining
  forward : ∀ a b, (a, b) ∈ edges → a ∈ nodes → b ∈ sorted → List.Sublist [a, b] sorted

omit [DecidableEq α] in
theorem KahnInv.init {nodes : List α} (h : nodes.Nodup) : KahnInv edges nodes [] nodes where
  nodup := h
  mem _ := by simp
  forward _ _ _ _ hb := absurd hb List.not_mem_nil

/-- **Placing a source keeps the invariant**: every edge into it comes from a node already
placed. -/
theorem KahnInv.place {nodes sorted remaining : List α} (hinv : KahnInv edges nodes sorted remaining)
    {y : α} (hy : y ∈ remaining) (hsource : isSource edges remaining y = true) :
    KahnInv edges nodes (sorted ++ [y]) (remaining.erase y) := by
  have hperm : List.Perm (sorted ++ remaining) (sorted ++ [y] ++ remaining.erase y) := by
    rw [List.append_assoc, List.singleton_append]
    exact (List.perm_cons_erase hy).append_left sorted
  refine ⟨hperm.nodup_iff.1 hinv.nodup, fun x ↦ ?_, fun a b hab ha hb ↦ ?_⟩
  · rw [hinv.mem x, ← List.mem_append, hperm.mem_iff, List.mem_append]
  · rcases List.mem_append.1 hb with hb | hb
    · exact (hinv.forward a b hab ha hb).trans (List.sublist_append_left _ _)
    · -- an edge into the source comes from no remaining node, so from a placed one
      rw [List.mem_singleton.1 hb] at hab ⊢
      have hnot : a ∉ remaining := by
        unfold isSource at hsource
        simp only [Bool.not_eq_eq_eq_not, Bool.not_true, List.any_eq_false, decide_eq_true_eq,
          not_and] at hsource
        exact hsource (a, y) hab rfl
      have ha' : a ∈ sorted := ((hinv.mem a).1 ha).resolve_right hnot
      exact (List.singleton_sublist.2 ha').append (List.Sublist.refl [y])

/-- Kahn's loop keeps the invariant to its end. -/
theorem KahnInv.kahn {nodes : List α} :
    ∀ {fuel : ℕ} {remaining sorted out : List α}, KahnInv edges nodes sorted remaining →
      kahn edges fuel remaining sorted = some out → KahnInv edges nodes out []
  | _, [], sorted, out, hinv, h => by
    rw [kahn_nil, Option.some.injEq] at h
    exact h ▸ hinv
  | 0, _ :: _, _, _, _, h => by cases h
  | fuel + 1, x :: remaining, sorted, out, hinv, h => by
    rw [kahn_succ_cons] at h
    cases hfind : (x :: remaining).find? (isSource edges (x :: remaining)) with
    | none => rw [hfind] at h; cases h
    | some y =>
      rw [hfind] at h
      exact (hinv.place (List.mem_of_find?_eq_some hfind) (List.find?_some hfind)).kahn h

/-- **What `toposort` returns** is each node once, every edge between two of them going
forward. -/
theorem toposort_spec {nodes out : List α} (hnodup : nodes.Nodup)
    (h : toposort nodes edges = some out) :
    out.Nodup ∧ (∀ x, x ∈ out ↔ x ∈ nodes) ∧
      ∀ a b, (a, b) ∈ edges → a ∈ nodes → b ∈ nodes → List.Sublist [a, b] out := by
  have hinv := (KahnInv.init hnodup : KahnInv edges nodes [] nodes).kahn h
  refine ⟨by simpa using hinv.nodup, fun x ↦ by simpa using (hinv.mem x).symm, ?_⟩
  intro a b hab ha hb
  exact hinv.forward a b hab ha (by simpa using (hinv.mem b).1 hb)

/-- **`toposort` orders the nodes of acyclic edges.** -/
theorem toposort_isSome (hac : Acyclic edges) (nodes : List α) :
    (toposort nodes edges).isSome :=
  kahn_isSome hac _ _ _ le_rfl

end EdgeList
