import Moon.Lib.Reach
import Moon.Lib.Toposort
import Moon.Lib.Outcome
import Mathlib.Data.List.Range
import Mathlib.Data.List.Sigma

/-!
# `petgraph` graphs and `daggy` DAGs

A `petgraph::Graph` keeps its node weights in a vector, so that a node is its index in it, and its
edges in a second vector, each edge joining two node indices.  `DiGraph` is that pair of lists,
with the one invariant `Graph` keeps: every edge joins nodes that exist.

* `neighborsDirected` is `neighbors_directed`: the other ends of the edges at a node in one
  direction, the edge added last first, as `petgraph` walks its adjacency lists.
* `filterMap` is `filter_map`: it keeps the nodes its node function maps, numbered `0, 1, …` in
  their old order (a kept node's new index is its position among the kept ones,
  `keptIndices`), and the edges between kept nodes that its edge function maps, with their ends
  renumbered (`mem_pairs_filterMap`).
* `updateEdge` is `update_edge`: it gives the edge between the two nodes that `find_edge` finds
  the new weight, and otherwise adds one (`updateEdge_spec`).
* `toposort` is `petgraph::algo::toposort`, by its defining properties (`toposort_spec`): each node
  once, every edge forward, and an order whenever there is no cycle.
* `Dag` is a `daggy::Dag`: a graph whose edges form no cycle.  `Dag.addEdge` is `add_edge`, which
  refuses an edge exactly when it would close a cycle (`Dag.addEdge_spec`); `Dag.updateEdge` is
  `update_edge`, which does the same for an edge not there yet.  The edges of an acyclic list,
  updated in one at a time, are all accepted (`foldlM_updateEdge_of_acyclic`).

Acyclicity and reachability are those of `EdgeList`, over the ends of the edges (`pairs`).
-/

set_option autoImplicit false

namespace Petgraph

/-- `petgraph::Direction`. -/
inductive Direction where
  | outgoing
  | incoming
  deriving DecidableEq, Repr

/-- An edge: the index of its source node, of its target node, and its weight. -/
structure Edge (E : Type) where
  source : ℕ
  target : ℕ
  weight : E
  deriving DecidableEq, Repr

/-- The two ends of an edge. -/
def Edge.pair {E : Type} (e : Edge E) : ℕ × ℕ := (e.source, e.target)

theorem Edge.pair_def {E : Type} (e : Edge E) : e.pair = (e.source, e.target) := rfl

/-- `petgraph::Graph<W, E>`, directed: the node weights in index order and the edges in the order
they were added, every edge between nodes of the graph. -/
structure DiGraph (W E : Type) where
  nodes : List W
  edges : List (Edge E)
  valid : ∀ e ∈ edges, e.source < nodes.length ∧ e.target < nodes.length

namespace DiGraph

variable {W E W' E' : Type}

/-- The ends of the edges, in order. -/
def pairs (g : DiGraph W E) : List (ℕ × ℕ) := g.edges.map Edge.pair

theorem pairs_def (g : DiGraph W E) : g.pairs = g.edges.map Edge.pair := rfl

/-- `Graph::with_capacity`: no nodes, no edges. -/
def empty : DiGraph W E := ⟨[], [], fun _ h ↦ absurd h List.not_mem_nil⟩

/-- `Graph::add_node`: the new node takes the next index. -/
def addNode (g : DiGraph W E) (w : W) : DiGraph W E :=
  ⟨g.nodes ++ [w], g.edges, fun e he ↦ by
    have := g.valid e he
    simp only [List.length_append, List.length_singleton]
    omega⟩

@[simp] theorem nodes_addNode (g : DiGraph W E) (w : W) : (g.addNode w).nodes = g.nodes ++ [w] :=
  rfl

@[simp] theorem pairs_addNode (g : DiGraph W E) (w : W) : (g.addNode w).pairs = g.pairs := rfl

@[simp] theorem nodes_foldl_addNode (ws : List W) (g : DiGraph W E) :
    (ws.foldl addNode g).nodes = g.nodes ++ ws := by
  induction ws generalizing g with
  | nil => simp
  | cons w ws ih => simp [ih]

@[simp] theorem edges_foldl_addNode (ws : List W) (g : DiGraph W E) :
    (ws.foldl addNode g).edges = g.edges := by
  induction ws generalizing g with
  | nil => rfl
  | cons w ws ih => rw [List.foldl_cons, ih]; rfl

/-- `neighbors_directed`: the other ends of the edges at `a` in the direction, the edge added last
first. -/
def neighborsDirected (g : DiGraph W E) (a : ℕ) : Direction → List ℕ
  | .outgoing => (g.edges.filter (·.source == a)).reverse.map (·.target)
  | .incoming => (g.edges.filter (·.target == a)).reverse.map (·.source)

/-- One step along an edge in the direction. -/
def Step (g : DiGraph W E) (dir : Direction) (a b : ℕ) : Prop :=
  b ∈ g.neighborsDirected a dir

variable {g : DiGraph W E}

theorem step_outgoing_iff {a b : ℕ} : g.Step .outgoing a b ↔ (a, b) ∈ g.pairs := by
  simp only [Step, neighborsDirected, pairs_def, List.mem_map, List.mem_reverse, List.mem_filter,
    beq_iff_eq, Edge.pair_def, Prod.mk.injEq]
  constructor
  · rintro ⟨e, ⟨he, rfl⟩, rfl⟩
    exact ⟨e, he, rfl, rfl⟩
  · rintro ⟨e, he, rfl, rfl⟩
    exact ⟨e, ⟨he, rfl⟩, rfl⟩

theorem step_incoming_iff {a b : ℕ} : g.Step .incoming a b ↔ (b, a) ∈ g.pairs := by
  simp only [Step, neighborsDirected, pairs_def, List.mem_map, List.mem_reverse, List.mem_filter,
    beq_iff_eq, Edge.pair_def, Prod.mk.injEq]
  constructor
  · rintro ⟨e, ⟨he, rfl⟩, rfl⟩
    exact ⟨e, he, rfl, rfl⟩
  · rintro ⟨e, he, rfl, rfl⟩
    exact ⟨e, ⟨he, rfl⟩, rfl⟩

/-- A neighbour is a node of the graph. -/
theorem lt_of_step {dir : Direction} {a b : ℕ} (h : g.Step dir a b) : b < g.nodes.length := by
  cases dir with
  | outgoing =>
    obtain ⟨e, he, hpair⟩ := List.mem_map.1 (step_outgoing_iff.1 h)
    simp only [Edge.pair_def, Prod.mk.injEq] at hpair
    exact hpair.2 ▸ (g.valid e he).2
  | incoming =>
    obtain ⟨e, he, hpair⟩ := List.mem_map.1 (step_incoming_iff.1 h)
    simp only [Edge.pair_def, Prod.mk.injEq] at hpair
    exact hpair.1 ▸ (g.valid e he).1

/-! ## `filter_map` -/

/-- The indices of the nodes `nodeMap` keeps, in order. -/
def keptIndices (g : DiGraph W E) (nodeMap : ℕ → W → Option W') : List ℕ :=
  (g.nodes.zipIdx.filter fun p ↦ (nodeMap p.2 p.1).isSome).map (·.2)

theorem length_keptIndices (g : DiGraph W E) (nodeMap : ℕ → W → Option W') :
    (g.keptIndices nodeMap).length = (g.nodes.zipIdx.filterMap fun p ↦ nodeMap p.2 p.1).length := by
  unfold keptIndices
  rw [List.length_map, List.length_filterMap_eq_countP, List.countP_eq_length_filter]

/-- `Graph::filter_map`. -/
def filterMap (g : DiGraph W E) (nodeMap : ℕ → W → Option W') (edgeMap : ℕ → E → Option E') :
    DiGraph W' E' where
  nodes := g.nodes.zipIdx.filterMap fun p ↦ nodeMap p.2 p.1
  edges := g.edges.zipIdx.filterMap fun p ↦
    if p.1.source ∈ g.keptIndices nodeMap ∧ p.1.target ∈ g.keptIndices nodeMap then
      (edgeMap p.2 p.1.weight).map fun w ↦
        ⟨(g.keptIndices nodeMap).idxOf p.1.source, (g.keptIndices nodeMap).idxOf p.1.target, w⟩
    else none
  valid := by
    intro e he
    obtain ⟨p, -, hp⟩ := List.mem_filterMap.1 he
    split at hp
    · rename_i hkept
      obtain ⟨w, -, rfl⟩ := Option.map_eq_some_iff.1 hp
      rw [← length_keptIndices]
      exact ⟨List.idxOf_lt_length_of_mem hkept.1, List.idxOf_lt_length_of_mem hkept.2⟩
    · cases hp

variable {nodeMap : ℕ → W → Option W'} {edgeMap : ℕ → E → Option E'}

theorem mem_keptIndices {i : ℕ} :
    i ∈ g.keptIndices nodeMap ↔ ∃ w, g.nodes[i]? = some w ∧ (nodeMap i w).isSome := by
  unfold keptIndices
  simp only [List.mem_map, List.mem_filter, List.mem_zipIdx_iff_getElem?]
  constructor
  · rintro ⟨⟨w, j⟩, ⟨hw, hsome⟩, rfl⟩
    exact ⟨w, hw, hsome⟩
  · rintro ⟨w, hw, hsome⟩
    exact ⟨(w, i), ⟨hw, hsome⟩, rfl⟩

/-- The kept indices increase, so none repeats. -/
theorem nodup_keptIndices : (g.keptIndices nodeMap).Nodup := by
  unfold keptIndices
  exact (List.nodup_zipIdx_map_snd g.nodes).sublist (List.filter_sublist.map _)

/-- **The edges `filter_map` keeps**: those between kept nodes, with their ends renumbered, when
`edgeMap` keeps every weight. -/
theorem mem_pairs_filterMap (hedge : ∀ i w, (edgeMap i w).isSome) {a b : ℕ} :
    (a, b) ∈ (g.filterMap nodeMap edgeMap).pairs ↔
      ∃ s t, (s, t) ∈ g.pairs ∧ s ∈ g.keptIndices nodeMap ∧ t ∈ g.keptIndices nodeMap ∧
        a = (g.keptIndices nodeMap).idxOf s ∧ b = (g.keptIndices nodeMap).idxOf t := by
  simp only [pairs_def, filterMap, List.mem_map, List.mem_filterMap, List.mem_zipIdx_iff_getElem?,
    Edge.pair_def, Prod.mk.injEq]
  constructor
  · rintro ⟨e', ⟨⟨e, i⟩, hi, he'⟩, rfl, rfl⟩
    split at he'
    · rename_i hkept
      obtain ⟨w, -, rfl⟩ := Option.map_eq_some_iff.1 he'
      exact ⟨e.source, e.target, ⟨e, List.mem_of_getElem? hi, rfl, rfl⟩, hkept.1, hkept.2, rfl, rfl⟩
    · cases he'
  · rintro ⟨s, t, ⟨e, he, rfl, rfl⟩, hs, ht, rfl, rfl⟩
    obtain ⟨i, hi⟩ := List.mem_iff_getElem?.1 he
    obtain ⟨w, hw⟩ := Option.isSome_iff_exists.1 (hedge i e.weight)
    refine ⟨⟨(g.keptIndices nodeMap).idxOf e.source, (g.keptIndices nodeMap).idxOf e.target, w⟩,
      ⟨(e, i), hi, ?_⟩, rfl, rfl⟩
    rw [if_pos ⟨hs, ht⟩, hw, Option.map_some]

/-- An edge `filter_map` keeps is an edge of the graph between kept nodes, renumbered, with the
weight `edgeMap` gives it. -/
theorem mem_edges_filterMap {e : Edge E'} (he : e ∈ (g.filterMap nodeMap edgeMap).edges) :
    ∃ i e₀, g.edges[i]? = some e₀ ∧ e₀.source ∈ g.keptIndices nodeMap ∧
      e₀.target ∈ g.keptIndices nodeMap ∧ edgeMap i e₀.weight = some e.weight ∧
      e.source = (g.keptIndices nodeMap).idxOf e₀.source ∧
      e.target = (g.keptIndices nodeMap).idxOf e₀.target := by
  obtain ⟨⟨e₀, i⟩, hi, he'⟩ := List.mem_filterMap.1 he
  split at he'
  · rename_i hkept
    obtain ⟨w, hw, rfl⟩ := Option.map_eq_some_iff.1 he'
    exact ⟨i, e₀, List.mem_zipIdx_iff_getElem?.1 hi, hkept.1, hkept.2, hw, rfl, rfl⟩
  · cases he'

/-- **`filter_map` closes no cycle**: the renumbering sends its edges back to edges of the
graph. -/
theorem acyclic_filterMap (hedge : ∀ i w, (edgeMap i w).isSome) (hac : EdgeList.Acyclic g.pairs) :
    EdgeList.Acyclic (g.filterMap nodeMap edgeMap).pairs := by
  refine EdgeList.Acyclic.of_hom (fun a ↦ (g.keptIndices nodeMap).getD a 0) (fun a b hab ↦ ?_) hac
  obtain ⟨s, t, hst, hs, ht, rfl, rfl⟩ := (mem_pairs_filterMap hedge).1 hab
  simpa [List.getD_eq_getElem?_getD, List.getElem?_idxOf hs, List.getElem?_idxOf ht] using hst

/-- When `nodeMap` weights every node it keeps by its index, the weights of the nodes `filter_map`
keeps are the kept indices. -/
theorem filterMap_nodes_of_index {nodeMap : ℕ → W → Option ℕ}
    (hmap : ∀ i w, nodeMap i w = if (nodeMap i w).isSome then some i else none)
    (edgeMap : ℕ → E → Option E') :
    (g.filterMap nodeMap edgeMap).nodes = g.keptIndices nodeMap := by
  have key : ∀ l : List (W × ℕ), l.filterMap (fun p ↦ nodeMap p.2 p.1) =
      (l.filter fun p ↦ (nodeMap p.2 p.1).isSome).map (·.2) := by
    intro l
    induction l with
    | nil => rfl
    | cons p l ih =>
      rw [List.filterMap_cons, List.filter_cons, hmap p.2 p.1]
      cases hp : (nodeMap p.2 p.1).isSome <;> simp [ih]
  exact key g.nodes.zipIdx

theorem zipIdx_range (n : ℕ) : (List.range n).zipIdx = (List.range n).map fun i ↦ (i, i) := by
  refine List.ext_getElem (by simp) fun k h₁ h₂ ↦ ?_
  simp [List.getElem_zipIdx]

section Range

variable {g : DiGraph ℕ E} (hw : g.nodes = List.range g.nodes.length) {p : ℕ → Bool}
  {nodeMap : ℕ → ℕ → Option ℕ} (hmap : ∀ i w, nodeMap i w = if p w then some w else none)
include hw hmap

/-- When every node's weight is its index and `nodeMap` keeps the weights `p` holds of, the kept
nodes are the indices `p` holds of. -/
theorem keptIndices_of_range : g.keptIndices nodeMap = (List.range g.nodes.length).filter p := by
  unfold keptIndices
  rw [hw, zipIdx_range, List.length_range, List.filter_map, List.map_map]
  have hp : ((fun q : ℕ × ℕ ↦ (nodeMap q.2 q.1).isSome) ∘ fun i ↦ (i, i)) = p := by
    funext i
    simp only [Function.comp, hmap]
    cases p i <;> rfl
  rw [hp]
  exact List.map_id _

/-- … and so are the weights of the nodes `filter_map` keeps. -/
theorem filterMap_nodes_of_range (edgeMap : ℕ → E → Option E') :
    (g.filterMap nodeMap edgeMap).nodes = (List.range g.nodes.length).filter p := by
  rw [filterMap]
  dsimp only
  rw [hw, zipIdx_range, List.length_range, List.filterMap_map, ← List.filterMap_eq_filter]
  congr 1
  funext i
  simp only [Function.comp, hmap, Option.guard]

end Range

/-- Give the edge from `a` to `b` added last the weight `w`: the edge `find_edge` finds. -/
def setLastWeight (a b : ℕ) (w : E) : List (Edge E) → List (Edge E)
  | [] => []
  | e :: es =>
    if es.any (·.pair == (a, b)) then e :: setLastWeight a b w es
    else if e.pair = (a, b) then ⟨a, b, w⟩ :: es else e :: es

/-- Setting a weight moves no edge. -/
theorem map_pair_setLastWeight (a b : ℕ) (w : E) :
    ∀ es : List (Edge E), (setLastWeight a b w es).map Edge.pair = es.map Edge.pair
  | [] => rfl
  | e :: es => by
    unfold setLastWeight
    split_ifs with hlater hthis
    · rw [List.map_cons, List.map_cons, map_pair_setLastWeight a b w es]
    · rw [List.map_cons, List.map_cons, hthis]
      rfl
    · rfl

/-- An edge after `setLastWeight` is an edge before it, or the edge it sets. -/
theorem mem_setLastWeight {a b : ℕ} {w : E} :
    ∀ {es : List (Edge E)} {e : Edge E}, e ∈ setLastWeight a b w es → e ∈ es ∨ e = ⟨a, b, w⟩
  | [], _, h => absurd h List.not_mem_nil
  | e' :: es, e, h => by
    unfold setLastWeight at h
    split_ifs at h
    · rcases List.mem_cons.1 h with rfl | h
      · exact .inl List.mem_cons_self
      · exact (mem_setLastWeight h).imp_left (List.mem_cons_of_mem e')
    · rcases List.mem_cons.1 h with rfl | h
      · exact .inr rfl
      · exact .inl (List.mem_cons_of_mem e' h)
    · exact .inl h

/-! ## Adding and updating edges -/

/-- `Graph::add_edge` between two nodes of the graph (out of range it panics). -/
def addEdge (g : DiGraph W E) (a b : ℕ) (w : E) (hv : a < g.nodes.length ∧ b < g.nodes.length) :
    DiGraph W E :=
  ⟨g.nodes, g.edges ++ [Edge.mk a b w], fun e he ↦ by
    rcases List.mem_append.1 he with he | he
    · exact g.valid e he
    · rw [List.mem_singleton.1 he]
      exact hv⟩

/-- The graph with the weight `w` on the edge from `a` to `b` that `find_edge` finds. -/
def setWeight (g : DiGraph W E) (a b : ℕ) (w : E) : DiGraph W E :=
  ⟨g.nodes, setLastWeight a b w g.edges, fun e he ↦ by
    -- setting a weight moves no edge, so `e`'s ends are those of an edge of the graph
    have hpair : e.pair ∈ g.pairs := by
      rw [pairs_def, ← map_pair_setLastWeight a b w]
      exact List.mem_map_of_mem he
    obtain ⟨e', he', hpair'⟩ := List.mem_map.1 hpair
    simp only [Edge.pair_def, Prod.mk.injEq] at hpair'
    rw [← hpair'.1, ← hpair'.2]
    exact g.valid e' he'⟩

/-- `Graph::update_edge`: the edge from `a` to `b` that `find_edge` finds takes the weight `w`;
without one, an edge is added.  An end out of range panics (`none`). -/
def updateEdge (g : DiGraph W E) (a b : ℕ) (w : E) : Option (DiGraph W E) :=
  if hv : a < g.nodes.length ∧ b < g.nodes.length then
    some (if (a, b) ∈ g.pairs then g.setWeight a b w else g.addEdge a b w hv)
  else none

/-- **What `update_edge` does** between two nodes of the graph: it keeps the nodes, the ends of its
edges are the old ones and the new edge's, and each of its edges is an old one or the new one. -/
theorem updateEdge_spec {a b : ℕ} {w : E} (hv : a < g.nodes.length ∧ b < g.nodes.length) :
    ∃ g', g.updateEdge a b w = some g' ∧ g'.nodes = g.nodes ∧
      (∀ x, x ∈ g'.pairs ↔ x ∈ g.pairs ∨ x = (a, b)) ∧
      ∀ e ∈ g'.edges, e ∈ g.edges ∨ e = ⟨a, b, w⟩ := by
  unfold updateEdge
  rw [dif_pos hv]
  split_ifs with hmem
  · -- the edge is there: only its weight changes
    refine ⟨_, rfl, rfl, fun x ↦ ?_, fun e he ↦ mem_setLastWeight he⟩
    change x ∈ (setLastWeight a b w g.edges).map Edge.pair ↔ _
    rw [map_pair_setLastWeight]
    constructor
    · exact .inl
    · rintro (hx | rfl)
      · exact hx
      · exact hmem
  · refine ⟨_, rfl, rfl, fun x ↦ ?_, fun e he ↦ ?_⟩
    · change x ∈ (g.edges ++ [Edge.mk a b w]).map Edge.pair ↔ _
      rw [List.map_append, List.mem_append, List.map_singleton, List.mem_singleton]
      rfl
    · rcases List.mem_append.1 he with he | he
      · exact .inl he
      · exact .inr (List.mem_singleton.1 he)

/-- **Updating in edges between nodes of the graph**, one at a time, never panics; the graph keeps
its nodes, the ends of its edges are the old ones and the new ones', and each of its edges is an
old one or one of the new. -/
theorem foldlM_updateEdge :
    ∀ (es : List (Edge E)) (g : DiGraph W E),
      (∀ e ∈ es, e.source < g.nodes.length ∧ e.target < g.nodes.length) →
      ∃ g', es.foldlM (fun g e ↦ g.updateEdge e.source e.target e.weight) g = some g' ∧
        g'.nodes = g.nodes ∧ (∀ x, x ∈ g'.pairs ↔ x ∈ g.pairs ∨ x ∈ es.map Edge.pair) ∧
        ∀ e ∈ g'.edges, e ∈ g.edges ∨ e ∈ es
  | [], g, _ => ⟨g, rfl, rfl, fun x ↦ by simp, fun e he ↦ .inl he⟩
  | e :: es, g, hv => by
    obtain ⟨g₁, h₁, hnodes₁, hpairs₁, hedges₁⟩ := updateEdge_spec (g := g) (hv e List.mem_cons_self)
    have hv₁ : ∀ e' ∈ es, e'.source < g₁.nodes.length ∧ e'.target < g₁.nodes.length :=
      fun e' he' ↦ hnodes₁ ▸ hv e' (List.mem_cons_of_mem e he')
    obtain ⟨g', h', hnodes', hpairs', hedges'⟩ := foldlM_updateEdge es g₁ hv₁
    refine ⟨g', ?_, hnodes'.trans hnodes₁, fun x ↦ ?_, fun e' he' ↦ ?_⟩
    · rw [List.foldlM_cons, h₁, Option.bind_eq_bind, Option.bind_some]
      exact h'
    · rw [hpairs', hpairs₁, List.map_cons, List.mem_cons]
      simp only [Edge.pair_def]
      tauto
    · rcases hedges' e' he' with he' | he'
      · rcases hedges₁ e' he' with he' | rfl
        · exact .inl he'
        · exact .inr List.mem_cons_self
      · exact .inr (List.mem_cons_of_mem e he')

/-! ## `toposort` -/

/-- `petgraph::algo::toposort`: the node indices in an order that sends every edge forward, or
`none` (`Err(Cycle)`) when the edges close a cycle.  `petgraph` finds its order by a depth-first
search; here it is Kahn's, and only the order's defining properties are used. -/
def toposort (g : DiGraph W E) : Option (List ℕ) :=
  EdgeList.toposort (List.range g.nodes.length) g.pairs

/-- A node at an end of an edge is a node of the graph. -/
theorem lt_of_mem_pairs {a b : ℕ} (h : (a, b) ∈ g.pairs) :
    a < g.nodes.length ∧ b < g.nodes.length := by
  obtain ⟨e, he, hpair⟩ := List.mem_map.1 h
  simp only [Edge.pair_def, Prod.mk.injEq] at hpair
  rw [← hpair.1, ← hpair.2]
  exact g.valid e he

/-- **What `toposort` returns**: every node index once, and the source of every edge before its
target. -/
theorem toposort_spec {out : List ℕ} (h : g.toposort = some out) :
    out.Nodup ∧ (∀ i, i ∈ out ↔ i < g.nodes.length) ∧
      ∀ a b, (a, b) ∈ g.pairs → List.Sublist [a, b] out := by
  obtain ⟨hnodup, hmem, hfwd⟩ := EdgeList.toposort_spec List.nodup_range h
  refine ⟨hnodup, fun i ↦ by rw [hmem, List.mem_range], fun a b hab ↦ ?_⟩
  have hlt := lt_of_mem_pairs hab
  exact hfwd a b hab (List.mem_range.2 hlt.1) (List.mem_range.2 hlt.2)

/-- `toposort` sorts a graph whose edges close no cycle. -/
theorem toposort_isSome (hac : EdgeList.Acyclic g.pairs) : g.toposort.isSome :=
  EdgeList.toposort_isSome hac _

end DiGraph

/-! ## `daggy` DAGs -/

/-- `daggy::Dag`: a graph whose edges close no cycle. -/
structure Dag (W E : Type) where
  graph : DiGraph W E
  acyclic : EdgeList.Acyclic graph.pairs

namespace Dag

variable {W E : Type}

/-- `Dag::with_capacity`: no nodes, no edges. -/
def empty : Dag W E :=
  ⟨.empty, fun _ h ↦ by
    obtain ⟨_, hxy, -⟩ := Relation.TransGen.head'_iff.1 h
    exact absurd hxy List.not_mem_nil⟩

/-- `Dag::add_node`. -/
def addNode (d : Dag W E) (w : W) : Dag W E := ⟨d.graph.addNode w, d.acyclic⟩

@[simp] theorem nodes_foldl_addNode (ws : List W) (d : Dag W E) :
    (ws.foldl addNode d).graph.nodes = d.graph.nodes ++ ws := by
  induction ws generalizing d with
  | nil => simp
  | cons w ws ih => simp [ih, addNode]

@[simp] theorem edges_foldl_addNode (ws : List W) (d : Dag W E) :
    (ws.foldl addNode d).graph.edges = d.graph.edges := by
  induction ws generalizing d with
  | nil => rfl
  | cons w ws ih => rw [List.foldl_cons, ih]; rfl

@[simp] theorem pairs_foldl_addNode (ws : List W) (d : Dag W E) :
    (ws.foldl addNode d).graph.pairs = d.graph.pairs := by
  induction ws generalizing d with
  | nil => rfl
  | cons w ws ih => rw [List.foldl_cons, ih]; rfl

/-- `Dag::update_edge`.  An end out of range panics.  An edge from `a` to `b` takes the weight
`w`; without one, an edge is added, unless `a` can be reached from `b`: the edge would close a
cycle, and `update_edge` returns `WouldCycle` (`err`). -/
def updateEdge (d : Dag W E) (a b : ℕ) (w : E) : Outcome Unit (Dag W E) :=
  if hv : a < d.graph.nodes.length ∧ b < d.graph.nodes.length then
    if (a, b) ∈ d.graph.pairs then
      .ok ⟨⟨d.graph.nodes, DiGraph.setLastWeight a b w d.graph.edges, fun e he ↦ by
          have hpair : e.pair ∈ d.graph.pairs := by
            rw [DiGraph.pairs_def, ← DiGraph.map_pair_setLastWeight a b w]
            exact List.mem_map_of_mem he
          obtain ⟨e', he', hpair'⟩ := List.mem_map.1 hpair
          have := d.graph.valid e' he'
          simp only [Edge.pair_def, Prod.mk.injEq] at hpair'
          rw [← hpair'.1, ← hpair'.2]
          exact this⟩,
        by
          show EdgeList.Acyclic ((DiGraph.setLastWeight a b w d.graph.edges).map Edge.pair)
          rw [DiGraph.map_pair_setLastWeight]
          exact d.acyclic⟩
    else if hr : EdgeList.hasPath d.graph.pairs b a then .err ()
    else
      .ok ⟨⟨d.graph.nodes, d.graph.edges ++ [Edge.mk a b w], fun e he ↦ by
          rcases List.mem_append.1 he with he | he
          · exact d.graph.valid e he
          · rw [List.mem_singleton.1 he]
            exact hv⟩,
        by
          show EdgeList.Acyclic ((d.graph.edges ++ [Edge.mk a b w]).map Edge.pair)
          rw [List.map_append]
          exact EdgeList.acyclic_append_singleton d.acyclic
            fun h ↦ hr ((EdgeList.hasPath_iff _ _ _).2 h)⟩
  else .panic

/-- An edge of an acyclic list, after the edges of the DAG, is accepted: it keeps the nodes, adds
its ends to the edges if they are not there yet, and the rest of the list stays acyclic after it. -/
theorem updateEdge_of_acyclic {d : Dag W E} {e : Edge E} {rest : List (ℕ × ℕ)}
    (hv : e.source < d.graph.nodes.length ∧ e.target < d.graph.nodes.length)
    (hac : EdgeList.Acyclic (d.graph.pairs ++ e.pair :: rest)) :
    ∃ d₁, d.updateEdge e.source e.target e.weight = .ok d₁ ∧ d₁.graph.nodes = d.graph.nodes ∧
      (∀ x, x ∈ d₁.graph.pairs ↔ x ∈ d.graph.pairs ∨ x = e.pair) ∧
      EdgeList.Acyclic (d₁.graph.pairs ++ rest) := by
  unfold updateEdge
  rw [dif_pos hv]
  split_ifs with hmem hr
  · -- the edge is there: only its weight changes
    refine ⟨_, rfl, rfl, fun x ↦ ?_, ?_⟩
    · change x ∈ (DiGraph.setLastWeight _ _ _ d.graph.edges).map Edge.pair ↔ _
      rw [DiGraph.map_pair_setLastWeight]
      constructor
      · exact .inl
      · rintro (hx | rfl)
        · exact hx
        · exact hmem
    · change EdgeList.Acyclic ((DiGraph.setLastWeight _ _ _ d.graph.edges).map Edge.pair ++ rest)
      rw [DiGraph.map_pair_setLastWeight]
      refine EdgeList.Acyclic.mono (fun x hx ↦ ?_) hac
      rcases List.mem_append.1 hx with hx | hx
      · exact List.mem_append_left _ hx
      · exact List.mem_append_right _ (List.mem_cons_of_mem _ hx)
  · -- a path back from the target would close a cycle of the whole list
    exfalso
    refine EdgeList.acyclic_iff.1 hac e.source e.target (by simp [Edge.pair_def]) ?_
    exact EdgeList.Reach.mono (fun x hx ↦ List.mem_append_left _ hx)
      ((EdgeList.hasPath_iff _ _ _).1 hr)
  · refine ⟨_, rfl, rfl, fun x ↦ ?_, ?_⟩
    · change x ∈ (d.graph.edges ++ [Edge.mk _ _ _]).map Edge.pair ↔ _
      rw [List.map_append, List.mem_append, List.map_singleton, List.mem_singleton]
      rfl
    · change EdgeList.Acyclic ((d.graph.edges ++ [Edge.mk _ _ _]).map Edge.pair ++ rest)
      rw [List.map_append, List.append_assoc, List.map_singleton, List.singleton_append]
      exact hac

/-- **Updating in the edges of an acyclic list** accepts each of them, and the DAG keeps its nodes
and ends with the edges of both. -/
theorem foldlM_updateEdge_of_acyclic {ε : Type} :
    ∀ (es : List (Edge E)) (d : Dag W E),
      (∀ e ∈ es, e.source < d.graph.nodes.length ∧ e.target < d.graph.nodes.length) →
      EdgeList.Acyclic (d.graph.pairs ++ es.map Edge.pair) →
      ∃ d', (es.foldlM (fun d e ↦ (d.updateEdge e.source e.target e.weight).unwrap) d :
          Outcome ε (Dag W E)) = .ok d' ∧
        d'.graph.nodes = d.graph.nodes ∧
        ∀ x, x ∈ d'.graph.pairs ↔ x ∈ d.graph.pairs ∨ x ∈ es.map Edge.pair
  | [], d, _, _ => ⟨d, rfl, rfl, fun x ↦ by simp⟩
  | e :: es, d, hv, hac => by
    obtain ⟨d₁, h₁, hnodes₁, hpairs₁, hac₁⟩ :=
      updateEdge_of_acyclic (hv e List.mem_cons_self) (by simpa using hac)
    have hv₁ : ∀ e' ∈ es, e'.source < d₁.graph.nodes.length ∧ e'.target < d₁.graph.nodes.length :=
      fun e' he' ↦ hnodes₁ ▸ hv e' (List.mem_cons_of_mem e he')
    obtain ⟨d', h', hnodes', hpairs'⟩ := foldlM_updateEdge_of_acyclic es d₁ hv₁ hac₁
    refine ⟨d', ?_, hnodes'.trans hnodes₁, fun x ↦ ?_⟩
    · rw [List.foldlM_cons, h₁, Outcome.unwrap_ok]
      exact h'
    · rw [hpairs', hpairs₁, List.map_cons, List.mem_cons]
      tauto

/-- A DAG's steps, either way, close no cycle. -/
theorem not_transGen_step_self (d : Dag W E) (dir : Direction) (x : ℕ) :
    ¬ Relation.TransGen (d.graph.Step dir) x x := by
  intro hx
  cases dir with
  | outgoing =>
    exact d.acyclic x (Relation.TransGen.mono (fun a b h ↦ DiGraph.step_outgoing_iff.1 h) x x hx)
  | incoming =>
    -- an incoming path is an outgoing one read backwards
    have hswap : Relation.TransGen (fun a b ↦ (b, a) ∈ d.graph.pairs) x x :=
      Relation.TransGen.mono (fun a b h ↦ DiGraph.step_incoming_iff.1 h) x x hx
    exact d.acyclic x (Relation.TransGen.swap x x hswap)

/-- `Dag::add_edge` (`daggy` 0.9).  An end out of range panics.  The edge is refused
(`WouldCycle`, `err`) when `a` can be reached from `b`, `b` itself included; otherwise it is added
after the edges there.  `daggy` adds the edge and then searches the graph for a path from `b` back
to `a`, skipping the search when `a` has no edge into it, `b` none out of it, or an edge from `a`
to `b` is there already; on a DAG each of those leaves no such path, so the test is the same. -/
def addEdge (d : Dag W E) (a b : ℕ) (w : E) : Outcome Unit (Dag W E) :=
  if hv : a < d.graph.nodes.length ∧ b < d.graph.nodes.length then
    if hr : EdgeList.hasPath d.graph.pairs b a then .err ()
    else
      .ok ⟨d.graph.addEdge a b w hv, by
        show EdgeList.Acyclic ((d.graph.edges ++ [Edge.mk a b w]).map Edge.pair)
        rw [List.map_append]
        exact EdgeList.acyclic_append_singleton d.acyclic
          fun h ↦ hr ((EdgeList.hasPath_iff _ _ _).2 h)⟩
  else .panic

/-- **What `add_edge` does** between two nodes of the DAG: it refuses the edge exactly when `a`
can be reached from `b`, and otherwise adds it. -/
theorem addEdge_spec {d : Dag W E} {a b : ℕ} {w : E}
    (hv : a < d.graph.nodes.length ∧ b < d.graph.nodes.length) :
    (EdgeList.Reach d.graph.pairs b a ∧ d.addEdge a b w = .err ()) ∨
      (¬ EdgeList.Reach d.graph.pairs b a ∧
        ∃ d', d.addEdge a b w = .ok d' ∧ d'.graph = d.graph.addEdge a b w hv) := by
  unfold addEdge
  rw [dif_pos hv]
  split_ifs with hr
  · exact .inl ⟨(EdgeList.hasPath_iff _ _ _).1 hr, rfl⟩
  · exact .inr ⟨fun h ↦ hr ((EdgeList.hasPath_iff _ _ _).2 h), _, rfl, rfl⟩

end Dag

end Petgraph
