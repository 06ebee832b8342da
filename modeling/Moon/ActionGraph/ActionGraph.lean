import Moon.Action.ActionNode
import Moon.Lib.SortedMap
import Mathlib.Data.Finset.Card
import Mathlib.Data.Fintype.Card

/-!
# The action graph, as the pipeline reads it

`ActionGraph` (`crates/action-graph/src/action_graph.rs`) is a `daggy::Dag` of node indices and a
map from each index to its `ActionNode`.  The pipeline reads three things of it: the node count,
the outgoing neighbours of a node — its dependencies, in the order petgraph yields them — and the
node at an index.  The builder inserts a node into the map for every index of the graph, so the
map is total here: a graph of `n` nodes has the indices `Fin n`, and no index can name a node
that is not there.

`ActionGraph::sort_topological` is petgraph's `toposort`, reversed, behind a cycle check with
`graph_cycles`; both are third-party.  What the pipeline relies on is what `toposort` documents:
every node once, and each node after its dependencies once the order is reversed.
`IsTopologicalOrder` says so, and the dispatcher's progress theorem takes it as a hypothesis on the
list that `sort_topological` returns.

`ActionGraph::group_priorities` splits such a list by node priority into a `BTreeMap`, keeping the
topological order inside each group.  A `u8` key is its value here, so the groups are a
`SortedMap ℕ (List (Fin n))`, walked from the most critical priority, `0`, upwards.
-/

set_option autoImplicit false

namespace Moon

/-- An action graph of `n` nodes: the dependencies of each node (its outgoing neighbours) and the
node stored at each index. -/
structure ActionGraph (n : ℕ) where
  deps : Fin n → List (Fin n)
  nodes : Fin n → ActionNode

namespace ActionGraph

variable {n : ℕ} (G : ActionGraph n)

/-- What `sort_topological` returns when there is no cycle: a list holding every node, in which
each dependency of a node stands before it. -/
structure IsTopologicalOrder (order : List (Fin n)) : Prop where
  complete : ∀ i, i ∈ order
  deps_before : ∀ i, ∀ d ∈ G.deps i, order.idxOf d < order.idxOf i

instance (order : List (Fin n)) : Decidable (G.IsTopologicalOrder order) :=
  decidable_of_iff ((∀ i, i ∈ order) ∧ ∀ i, ∀ d ∈ G.deps i, order.idxOf d < order.idxOf i)
    ⟨fun ⟨h₁, h₂⟩ ↦ ⟨h₁, h₂⟩, fun ⟨h₁, h₂⟩ ↦ ⟨h₁, h₂⟩⟩

/-- `ActionGraph::group_priorities`: the indices of the order, grouped by the priority of their
node, each group in the order's own order. -/
def groupPriorities (topoIndices : List (Fin n)) : SortedMap ℕ (List (Fin n)) :=
  topoIndices.foldl (fun groups index ↦ groups.push (G.nodes index).getPriority.toNat index)
    SortedMap.empty

theorem memValues_foldl_push (i : Fin n) :
    ∀ (indices : List (Fin n)) (groups : SortedMap ℕ (List (Fin n))),
      SortedMap.MemValues i
          (indices.foldl (fun groups index ↦ groups.push (G.nodes index).getPriority.toNat index)
            groups) ↔ i ∈ indices ∨ SortedMap.MemValues i groups
  | [], groups => by simp
  | index :: rest, groups => by
    rw [List.foldl_cons, memValues_foldl_push i rest, SortedMap.mem_values_push, List.mem_cons]
    constructor
    · rintro (h | h | h)
      · exact .inl (.inr h)
      · exact .inl (.inl h)
      · exact .inr h
    · rintro ((h | h) | h)
      · exact .inr (.inl h)
      · exact .inl h
      · exact .inr (.inr h)

/-- **Every index of the order is in some group.** -/
theorem memValues_groupPriorities {topoIndices : List (Fin n)} {i : Fin n} :
    SortedMap.MemValues i (G.groupPriorities topoIndices) ↔ i ∈ topoIndices := by
  rw [groupPriorities, memValues_foldl_push]
  constructor
  · rintro (h | ⟨e, he, _⟩)
    · exact h
    · cases he
  · exact .inl

/-- A graph with a topological order has, outside any set of nodes short of all of them, a node
whose dependencies are all in the set: follow unfinished dependencies down the order until there
are none. -/
theorem exists_ready_of_card_lt {order : List (Fin n)} (horder : G.IsTopologicalOrder order)
    {done : Finset (Fin n)} (hcard : done.card < n) :
    ∃ r, r ∉ done ∧ ∀ d ∈ G.deps r, d ∈ done := by
  obtain ⟨i, hi⟩ : ∃ i, i ∉ done := by
    by_contra hall
    simp only [not_exists, not_not] at hall
    have : Finset.univ ⊆ done := fun i _ ↦ hall i
    have := Finset.card_le_card this
    rw [Finset.card_univ, Fintype.card_fin] at this
    omega
  -- strong induction on the position in the order of an unfinished node
  induction hk : order.idxOf i using Nat.strong_induction_on generalizing i with
  | _ k ih =>
    by_cases hready : ∀ d ∈ G.deps i, d ∈ done
    · exact ⟨i, hi, hready⟩
    · obtain ⟨d, hd, hdnot⟩ : ∃ d ∈ G.deps i, d ∉ done := by simpa using hready
      exact ih _ (hk ▸ horder.deps_before i d hd) d hdnot rfl

end ActionGraph

end Moon
