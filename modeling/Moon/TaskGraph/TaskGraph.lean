import Moon.GraphUtils.GraphTraits
import Moon.Task.Task
import Mathlib.Data.Nat.SuccPred
import Mathlib.Algebra.Order.Ring.Nat

/-!
# The task graph, and focusing it on a task

`crates/task-graph/src/task_graph.rs`.  A `TaskGraph` keeps a `daggy` DAG whose node weights are
node indices, a map from node indices to task targets (`indexes`) and a map from targets to task
nodes, each a task with its index (`nodes`).  It implements `GraphConnections` by reading a node
through the two maps, and keys a task by its target.

The graph is `Consistent` when the two maps agree with the DAG: every weight is its own index,
`indexes` has a target for exactly the node indices, the node of that target has that index back,
and every node's task has the target it is filed under.  A consistent task graph is a coherent
`GraphConnections` (`Consistent.coherent`), so `traverse_deep` on it returns what is reachable.

`focus_for` keeps the focus task, the tasks it depends on, deeply, and, when asked, those that
depend on it.  `to_focused_graph` filters the DAG, and `focus_for` renumbers what is left: the
kept nodes, in their old order, become `0, 1, …`, the two maps are rebuilt for the new numbers one
node at a time (`foldlM_focusNodeStep`), and the edges between kept nodes are updated into a fresh
DAG.  On a consistent graph none of this panics or meets a cycle (`focusFor_eq`), and the result
is the subgraph the kept tasks induce, with consistent maps (`focusFor_spec`).

`TaskGraph::get` expands a task with the project graph and a `TaskExpander`, which are not
modelled here: `focus_for` takes it as a parameter.
-/

set_option autoImplicit false

namespace Moon

open Petgraph

/-- `TaskNode`. -/
structure TaskNode where
  index : ℕ
  task : Task
  deriving DecidableEq, Repr

/-- `TaskGraph`, with the fields `focus_for` reads and rebuilds: the DAG of node indices, the
targets of the node indices, and the task nodes of the targets.  The expansion context, the
project graph and the cache of expanded tasks are carried over unchanged, and are left out. -/
structure TaskGraph where
  graph : Dag ℕ TaskDependencyType
  indexes : List (ℕ × Target)
  nodes : List (Target × TaskNode)

namespace TaskGraph

variable (tg : TaskGraph)

/-- `GraphData::get_node_by_index`: `&self.nodes[&self.indexes[index]].task`, where a missing key
panics. -/
def getNodeByIndex (index : ℕ) : Option Task := do
  let target ← IndexMap.get? tg.indexes index
  let node ← IndexMap.get? tg.nodes target
  pure node.task

/-- `GraphConnections::get_node_index`: `self.nodes[&node.target].index`. -/
def getNodeIndex (node : Task) : Option ℕ := (IndexMap.get? tg.nodes node.target).map (·.index)

/-- The task graph's `GraphData` and `GraphConnections`; `get_node_key` is the task's target. -/
def connections : GraphConnections Task TaskDependencyType Target where
  graph := tg.graph.graph
  nodeByIndex := tg.getNodeByIndex
  nodeKey node := node.target
  nodeIndex := tg.getNodeIndex

/-- One round of the loop of `focus_for` over the focused graph's nodes: the node now at
`new_index` was at `old_index`. -/
def focusNodeStep {ε : Type}
    (acc : List (ℕ × Target) × List (Target × TaskNode) × Dag ℕ TaskDependencyType)
    (node : ℕ × ℕ) :
    Outcome ε (List (ℕ × Target) × List (Target × TaskNode) × Dag ℕ TaskDependencyType) := do
  let (indexes, tasks, dag) := acc
  let (oldIndex, newIndex) := node
  let target ← Outcome.ofOption (IndexMap.get? tg.indexes oldIndex)
  let task ← Outcome.ofOption (tg.getNodeByIndex oldIndex)
  pure (IndexMap.insert indexes newIndex target, IndexMap.insert tasks target ⟨newIndex, task⟩,
    dag.addNode newIndex)

/-- `TaskGraph::focus_for`, with `TaskGraph::get` as `get`. -/
def focusFor {ε : Type} (get : Target → Outcome ε Task) (target : Target) (withDependents : Bool) :
    Outcome ε TaskGraph := do
  let task ← get target
  let graph ← Outcome.ofOption (tg.connections.toFocusedGraph task withDependents)
  -- `graph.into_nodes_edges()`; the nodes are renumbered in order
  let (indexes, tasks, dag) ← graph.nodes.zipIdx.foldlM tg.focusNodeStep ([], [], Dag.empty)
  let dag ← graph.edges.foldlM
    (fun dag edge ↦ (dag.updateEdge edge.source edge.target edge.weight).unwrap) dag
  pure { graph := dag, indexes, nodes := tasks }

/-- The maps agree with the DAG: every node's weight is its index, `indexes` has a target for
exactly the node indices, the node of that target has that index back, and every node's task has
the target it is filed under. -/
structure Consistent : Prop where
  weights : tg.graph.graph.nodes = List.range tg.graph.graph.nodes.length
  indexes_isSome : ∀ i, (IndexMap.get? tg.indexes i).isSome ↔ i < tg.graph.graph.nodes.length
  node_of_index : ∀ i t, IndexMap.get? tg.indexes i = some t →
    ∃ node, IndexMap.get? tg.nodes t = some node ∧ node.index = i
  index_of_node : ∀ t node, IndexMap.get? tg.nodes t = some node →
    IndexMap.get? tg.indexes node.index = some t ∧ node.task.target = t

/-- The old indices `focus_for` keeps, in order: those whose task `to_focused_graph` keeps. -/
def focusKept (focusKey : Target) (upstream downstream : List Target) : List ℕ :=
  (List.range tg.graph.graph.nodes.length).filter fun i ↦
    (tg.connections.keepFocused focusKey upstream downstream i).isSome

variable {tg}

/-- **The loop over the focused nodes**: when every old index it meets has a target and a task,
it files each new index under its target and the target under its new node, and adds the new
indices to the DAG. -/
theorem foldlM_focusNodeStep {ε : Type} (T : ℕ → Target) (task : ℕ → Task) :
    ∀ (l : List (ℕ × ℕ)) (indexes : List (ℕ × Target)) (tasks : List (Target × TaskNode))
      (dag : Dag ℕ TaskDependencyType),
      (∀ p ∈ l, IndexMap.get? tg.indexes p.1 = some (T p.1) ∧
        tg.getNodeByIndex p.1 = some (task p.1)) →
      (l.foldlM tg.focusNodeStep (indexes, tasks, dag) : Outcome ε _) =
        .ok (IndexMap.extend indexes (l.map fun p ↦ (p.2, T p.1)),
          IndexMap.extend tasks (l.map fun p ↦ (T p.1, ⟨p.2, task p.1⟩)),
          (l.map Prod.snd).foldl Dag.addNode dag)
  | [], _, _, _, _ => rfl
  | p :: l, indexes, tasks, dag, h => by
    obtain ⟨hT, htask⟩ := h p List.mem_cons_self
    rw [List.foldlM_cons]
    simp only [focusNodeStep, hT, htask, Outcome.ofOption_some, Outcome.ok_bind,
      Outcome.pure_eq_ok]
    exact foldlM_focusNodeStep T task l _ _ _ fun q hq ↦ h q (List.mem_cons_of_mem p hq)

section Consistent

variable (hc : tg.Consistent)
include hc

/-- The target an index is filed under is that of the node at the index. -/
theorem Consistent.getNodeByIndex_of_index {i : ℕ} {t : Target}
    (ht : IndexMap.get? tg.indexes i = some t) :
    ∃ node, IndexMap.get? tg.nodes t = some node ∧ node.index = i ∧ node.task.target = t ∧
      tg.getNodeByIndex i = some node.task := by
  obtain ⟨node, hnode, hidx⟩ := hc.node_of_index i t ht
  exact ⟨node, hnode, hidx, (hc.index_of_node t node hnode).2, by simp [getNodeByIndex, ht, hnode]⟩

/-- Two indices filed under one target are one index. -/
theorem Consistent.index_eq_of_target {i j : ℕ} {t : Target}
    (hi : IndexMap.get? tg.indexes i = some t) (hj : IndexMap.get? tg.indexes j = some t) :
    i = j := by
  obtain ⟨node, hnode, rfl⟩ := hc.node_of_index i t hi
  obtain ⟨node', hnode', rfl⟩ := hc.node_of_index j t hj
  rw [hnode, Option.some.injEq] at hnode'
  rw [hnode']

/-- The key of the node at an index is the target the index is filed under. -/
theorem Consistent.keyAt_iff {i : ℕ} {t : Target} :
    tg.connections.KeyAt i t ↔ IndexMap.get? tg.indexes i = some t := by
  constructor
  · rintro ⟨task, htask, rfl⟩
    change tg.getNodeByIndex i = some task at htask
    simp only [getNodeByIndex, Option.bind_eq_bind, Option.bind_eq_some_iff, Option.pure_def,
      Option.some.injEq] at htask
    obtain ⟨t', ht', node, hnode, rfl⟩ := htask
    change _ = some node.task.target
    rwa [(hc.index_of_node t' node hnode).2]
  · intro ht
    obtain ⟨node, -, -, htarget, hget⟩ := hc.getNodeByIndex_of_index ht
    exact ⟨node.task, hget, htarget⟩

/-- **A consistent task graph is a coherent `GraphConnections`.** -/
theorem Consistent.coherent : tg.connections.Coherent where
  weights := hc.weights
  node i hi := by
    obtain ⟨t, ht⟩ := Option.isSome_iff_exists.1 ((hc.indexes_isSome i).2 hi)
    obtain ⟨node, hnode, hidx, htarget, hget⟩ := hc.getNodeByIndex_of_index ht
    exact ⟨node.task, hget, by simp [connections, getNodeIndex, htarget, hnode, hidx]⟩
  index task i h := by
    simp only [connections, getNodeIndex, Option.map_eq_some_iff] at h
    obtain ⟨node, hnode, rfl⟩ := h
    have hidx := (hc.index_of_node _ node hnode).1
    exact ⟨(hc.indexes_isSome _).1 (by simp [hidx]), hc.keyAt_iff.2 hidx⟩
  key_inj i j t _ _ hi hj := hc.index_eq_of_target (hc.keyAt_iff.1 hi) (hc.keyAt_iff.1 hj)

/-- The old indices `focus_for` keeps are those filed under the focus's target or a related
one. -/
theorem Consistent.mem_focusKept {focusKey : Target} {upstream downstream : List Target} {o : ℕ} :
    o ∈ tg.focusKept focusKey upstream downstream ↔ ∃ t, IndexMap.get? tg.indexes o = some t ∧
      (t = focusKey ∨ t ∈ upstream ∨ t ∈ downstream) := by
  simp only [focusKept, List.mem_filter, List.mem_range, GraphConnections.isSome_keepFocused,
    hc.keyAt_iff]
  constructor
  · exact fun h ↦ h.2
  · rintro ⟨t, ht, hkeep⟩
    exact ⟨(hc.indexes_isSome o).1 (by simp [ht]), t, ht, hkeep⟩

/-- **`focus_for` on a consistent graph**: none of its lookups panics and no edge it updates in
closes a cycle.  The new index `i` is filed under the target of the `i`-th kept old index, and
its node holds that index's task; the edges are those between kept nodes, renumbered. -/
theorem focusFor_eq {ε : Type} {get : Target → Outcome ε Task} {target : Target} {task : Task}
    {node : TaskNode} (hnode : IndexMap.get? tg.nodes target = some node)
    (hget : get target = .ok task) (htask : task.target = target) (withDependents : Bool) :
    ∃ up down tg', tg.connections.deepDependenciesOf task = some up ∧
      (if withDependents then tg.connections.deepDependentsOf task else some []) = some down ∧
      tg.focusFor get target withDependents = .ok tg' ∧
      tg'.graph.graph.nodes = List.range (tg.focusKept target up down).length ∧
      (∀ i t, IndexMap.get? tg'.indexes i = some t ↔
        ∃ o, (tg.focusKept target up down)[i]? = some o ∧ IndexMap.get? tg.indexes o = some t) ∧
      (∀ t node', IndexMap.get? tg'.nodes t = some node' ↔
        ∃ o, (tg.focusKept target up down)[node'.index]? = some o ∧
          IndexMap.get? tg.indexes o = some t ∧ tg.getNodeByIndex o = some node'.task) ∧
      (∀ a b, (a, b) ∈ tg'.graph.graph.pairs ↔
        ∃ s t, (s, t) ∈ tg.graph.graph.pairs ∧ s ∈ tg.focusKept target up down ∧
          t ∈ tg.focusKept target up down ∧ a = (tg.focusKept target up down).idxOf s ∧
          b = (tg.focusKept target up down).idxOf t) := by
  have hs : tg.connections.nodeIndex task = some node.index := by
    simp [connections, getNodeIndex, htask, hnode]
  obtain ⟨up, down, hup, hdown, hfocused⟩ :=
    GraphConnections.toFocusedGraph_spec hc.coherent hs withDependents
  have hkey : tg.connections.nodeKey task = target := htask
  rw [hkey] at hfocused
  -- the focused graph keeps the kept indices, with their weights
  have hmap := fun (_ : ℕ) w ↦ tg.connections.keepFocused_eq_ite target up down w
  have hkept : tg.graph.graph.keptIndices (fun _ w ↦ tg.connections.keepFocused target up down w) =
      tg.focusKept target up down :=
    DiGraph.keptIndices_of_range hc.weights hmap
  set kept := tg.focusKept target up down with hkept_def
  set G := tg.graph.graph.filterMap (fun _ w ↦ tg.connections.keepFocused target up down w)
    fun _ edge ↦ some edge with hG
  have hfocusedG : tg.connections.toFocusedGraph task withDependents = some G := hfocused
  have hGnodes : G.nodes = kept := DiGraph.filterMap_nodes_of_range hc.weights hmap _
  -- every kept old index has a target and a task
  have hlt : ∀ o ∈ kept, o < tg.graph.graph.nodes.length := fun o ho ↦
    List.mem_range.1 (List.mem_filter.1 ho).1
  let T o := (IndexMap.get? tg.indexes o).getD target
  let taskOf o := (tg.getNodeByIndex o).getD task
  have hlookup : ∀ o ∈ kept, IndexMap.get? tg.indexes o = some (T o) ∧
      tg.getNodeByIndex o = some (taskOf o) := by
    intro o ho
    obtain ⟨t, ht⟩ := Option.isSome_iff_exists.1 ((hc.indexes_isSome o).2 (hlt o ho))
    obtain ⟨_, -, -, -, hnodeOf⟩ := hc.getNodeByIndex_of_index ht
    simp [T, taskOf, ht, hnodeOf]
  have hloop := foldlM_focusNodeStep (ε := ε) T taskOf G.nodes.zipIdx [] [] Dag.empty
    fun p hp ↦ hlookup p.1 (hGnodes ▸ List.fst_mem_of_mem_zipIdx hp)
  -- the edges between kept nodes are all accepted
  have hdag₀ : ((G.nodes.zipIdx.map Prod.snd).foldl Dag.addNode (Dag.empty : Dag ℕ TaskDependencyType)).graph.nodes =
      List.range kept.length := by
    rw [Dag.nodes_foldl_addNode, List.zipIdx_map_snd, hGnodes, List.range_eq_range']
    rfl
  have hvalid : ∀ e ∈ G.edges,
      e.source < ((G.nodes.zipIdx.map Prod.snd).foldl Dag.addNode (Dag.empty : Dag ℕ TaskDependencyType)).graph.nodes.length ∧
      e.target < ((G.nodes.zipIdx.map Prod.snd).foldl Dag.addNode (Dag.empty : Dag ℕ TaskDependencyType)).graph.nodes.length := by
    intro e he
    rw [hdag₀, List.length_range, ← hGnodes]
    exact G.valid e he
  have hacyclic : EdgeList.Acyclic
      (((G.nodes.zipIdx.map Prod.snd).foldl Dag.addNode (Dag.empty : Dag ℕ TaskDependencyType)).graph.pairs ++
        G.edges.map Edge.pair) := by
    rw [Dag.pairs_foldl_addNode]
    exact DiGraph.acyclic_filterMap (fun _ _ ↦ rfl) tg.graph.acyclic
  obtain ⟨dag, hdag, hdnodes, hdpairs⟩ :=
    Dag.foldlM_updateEdge_of_acyclic (ε := ε) G.edges _ hvalid hacyclic
  -- the kept old indices are filed under different targets
  have hTinj : (kept.map T).Nodup := by
    refine List.Nodup.map_on (fun o ho o' ho' hT ↦ ?_) (List.nodup_range.filter _)
    exact hc.index_eq_of_target (hlookup o ho).1 (hT ▸ (hlookup o' ho').1)
  refine ⟨up, down, ⟨dag, IndexMap.extend [] (G.nodes.zipIdx.map fun p ↦ (p.2, T p.1)),
    IndexMap.extend [] (G.nodes.zipIdx.map fun p ↦ (T p.1, ⟨p.2, taskOf p.1⟩))⟩,
    hup, hdown, ?_, ?_, fun i t ↦ ?_, fun t node' ↦ ?_, fun a b ↦ ?_⟩
  · simp only [focusFor, hget, Outcome.ok_bind, hfocusedG, Outcome.ofOption_some, hloop, hdag,
      Outcome.pure_eq_ok]
  · rw [hdnodes, hdag₀]
  · -- the new index `i` is filed under the target of the `i`-th kept index
    simp only
    rw [IndexMap.get?_extend_zipIdx_index, hGnodes, Option.map_eq_some_iff]
    constructor
    · rintro ⟨o, ho, rfl⟩
      exact ⟨o, ho, (hlookup o (List.mem_of_getElem? ho)).1⟩
    · rintro ⟨o, ho, ht⟩
      refine ⟨o, ho, ?_⟩
      rw [(hlookup o (List.mem_of_getElem? ho)).1, Option.some.injEq] at ht
      exact ht
  · -- the target of the `i`-th kept index is filed under the new node `i`
    have hget? := IndexMap.get?_extend_zipIdx_eq_some_iff T (fun o i ↦ (⟨i, taskOf o⟩ : TaskNode))
      (hGnodes ▸ hTinj) (k := t) (v := node')
    beta_reduce at hget?
    rw [hget?, hGnodes]
    constructor
    · rintro ⟨i, o, ho, rfl, rfl⟩
      exact ⟨o, ho, (hlookup o (List.mem_of_getElem? ho)).1,
        (hlookup o (List.mem_of_getElem? ho)).2⟩
    · rintro ⟨o, ho, ht, htask'⟩
      obtain ⟨hT, hnodeOf⟩ := hlookup o (List.mem_of_getElem? ho)
      refine ⟨node'.index, o, ho, ?_, ?_⟩
      · rw [hT, Option.some.injEq] at ht
        exact ht
      · rw [hnodeOf, Option.some.injEq] at htask'
        rw [htask']
  · -- the edges between kept nodes, renumbered
    rw [hdpairs, Dag.pairs_foldl_addNode]
    change _ ∨ (a, b) ∈ G.pairs ↔ _
    rw [hG, DiGraph.mem_pairs_filterMap (fun _ _ ↦ rfl), hkept, hkept_def]
    simp [Dag.empty, DiGraph.empty, DiGraph.pairs]

/-- **`focus_for` focuses.**  On a consistent graph, for a task of it that `get` returns with its
own target, `focus_for` returns a consistent graph.  Its tasks are those of the graph filed under
the focus's target, under a target `deep_dependencies_of` returns, or, when asked, under one
`deep_dependents_of` returns; each keeps its task, and two of them are joined by an edge exactly
when they were. -/
theorem focusFor_spec {ε : Type} {get : Target → Outcome ε Task} {target : Target} {task : Task}
    {node : TaskNode} (hnode : IndexMap.get? tg.nodes target = some node)
    (hget : get target = .ok task) (htask : task.target = target) (withDependents : Bool) :
    ∃ up down tg', tg.connections.deepDependenciesOf task = some up ∧
      (if withDependents then tg.connections.deepDependentsOf task else some []) = some down ∧
      tg.focusFor get target withDependents = .ok tg' ∧ tg'.Consistent ∧
      (∀ t, (IndexMap.get? tg'.nodes t).isSome ↔
        (IndexMap.get? tg.nodes t).isSome ∧ (t = target ∨ t ∈ up ∨ t ∈ down)) ∧
      (∀ t node', IndexMap.get? tg'.nodes t = some node' →
        ∃ node, IndexMap.get? tg.nodes t = some node ∧ node'.task = node.task) ∧
      (∀ t₁ t₂ node₁ node₂ node₁' node₂', IndexMap.get? tg.nodes t₁ = some node₁ →
        IndexMap.get? tg.nodes t₂ = some node₂ → IndexMap.get? tg'.nodes t₁ = some node₁' →
        IndexMap.get? tg'.nodes t₂ = some node₂' →
        ((node₁'.index, node₂'.index) ∈ tg'.graph.graph.pairs ↔
          (node₁.index, node₂.index) ∈ tg.graph.graph.pairs)) := by
  obtain ⟨up, down, tg', hup, hdown, hfocus, hnodes', hindexes', htasks', hpairs'⟩ :=
    focusFor_eq hc hnode hget htask withDependents
  have hnodup : (tg.focusKept target up down).Nodup := List.nodup_range.filter _
  -- a node of the new graph stands at the position of its old index among the kept ones
  have hold : ∀ t node', IndexMap.get? tg'.nodes t = some node' → ∃ node,
      IndexMap.get? tg.nodes t = some node ∧ node'.task = node.task ∧
        (tg.focusKept target up down)[node'.index]? = some node.index := by
    intro t node' h
    obtain ⟨o, ho, ht, htask'⟩ := (htasks' t node').1 h
    obtain ⟨node, hnode', rfl, -, hnodeOf⟩ := hc.getNodeByIndex_of_index ht
    rw [hnodeOf, Option.some.injEq] at htask'
    exact ⟨node, hnode', htask'.symm, ho⟩
  refine ⟨up, down, tg', hup, hdown, hfocus, ⟨?_, fun i ↦ ?_, fun i t h ↦ ?_, fun t node' h ↦ ?_⟩,
    fun t ↦ ?_, fun t node' h ↦ ?_, ?_⟩
  · rw [hnodes', List.length_range]
  · -- `indexes` has the new indices and no other
    rw [hnodes', List.length_range, Option.isSome_iff_exists]
    constructor
    · rintro ⟨t, ht⟩
      obtain ⟨o, ho, -⟩ := (hindexes' i t).1 ht
      exact (List.getElem?_eq_some_iff.1 ho).1
    · intro hi
      have ho := List.getElem?_eq_getElem hi
      obtain ⟨t, ht⟩ := (hc.mem_focusKept.1 (List.getElem_mem hi)).imp fun _ h ↦ h.1
      exact ⟨t, (hindexes' i t).2 ⟨_, ho, ht⟩⟩
  · -- the node of a new index's target has that index
    obtain ⟨o, ho, ht⟩ := (hindexes' i t).1 h
    obtain ⟨node, -, -, -, hnodeOf⟩ := hc.getNodeByIndex_of_index ht
    exact ⟨⟨i, node.task⟩, (htasks' t _).2 ⟨o, ho, ht, hnodeOf⟩, rfl⟩
  · -- a new node's index is filed under its target, which is its task's
    obtain ⟨o, ho, ht, htask'⟩ := (htasks' t node').1 h
    obtain ⟨node, -, -, htarget, hnodeOf⟩ := hc.getNodeByIndex_of_index ht
    rw [hnodeOf, Option.some.injEq] at htask'
    exact ⟨(hindexes' _ t).2 ⟨o, ho, ht⟩, htask' ▸ htarget⟩
  · -- the tasks kept are those of the focus and the related targets
    constructor
    · intro h
      obtain ⟨node', hnode'⟩ := Option.isSome_iff_exists.1 h
      obtain ⟨o, ho, ht, -⟩ := (htasks' t node').1 hnode'
      obtain ⟨t', ht', hkeep⟩ := hc.mem_focusKept.1 (List.mem_of_getElem? ho)
      obtain rfl : t' = t := Option.some.inj (ht'.symm.trans ht)
      obtain ⟨node, hnodeOld, -⟩ := hc.getNodeByIndex_of_index ht
      exact ⟨by simp [hnodeOld], hkeep⟩
    · rintro ⟨h, hkeep⟩
      obtain ⟨node, hnodeOld⟩ := Option.isSome_iff_exists.1 h
      have hidx := (hc.index_of_node t node hnodeOld).1
      have hmem : node.index ∈ tg.focusKept target up down := hc.mem_focusKept.2 ⟨t, hidx, hkeep⟩
      obtain ⟨node₀, hnode₀, -, -, hnodeOf⟩ := hc.getNodeByIndex_of_index hidx
      refine Option.isSome_iff_exists.2
        ⟨⟨(tg.focusKept target up down).idxOf node.index, node₀.task⟩, (htasks' t _).2 ?_⟩
      exact ⟨node.index, List.getElem?_idxOf hmem, hidx, hnodeOf⟩
  · obtain ⟨node, hnodeOld, htask', -⟩ := hold t node' h
    exact ⟨node, hnodeOld, htask'⟩
  · -- the edges between kept tasks are the old ones
    intro t₁ t₂ node₁ node₂ node₁' node₂' h₁ h₂ h₁' h₂'
    obtain ⟨n₁, hn₁, -, hpos₁⟩ := hold t₁ node₁' h₁'
    obtain ⟨n₂, hn₂, -, hpos₂⟩ := hold t₂ node₂' h₂'
    rw [h₁, Option.some.injEq] at hn₁
    rw [h₂, Option.some.injEq] at hn₂
    subst hn₁ hn₂
    have hmem₁ := List.mem_of_getElem? hpos₁
    have hmem₂ := List.mem_of_getElem? hpos₂
    have hidx₁ : (tg.focusKept target up down).idxOf node₁.index = node₁'.index := by
      obtain ⟨hi, heq⟩ := List.getElem?_eq_some_iff.1 hpos₁
      rw [← heq, hnodup.idxOf_getElem]
    have hidx₂ : (tg.focusKept target up down).idxOf node₂.index = node₂'.index := by
      obtain ⟨hi, heq⟩ := List.getElem?_eq_some_iff.1 hpos₂
      rw [← heq, hnodup.idxOf_getElem]
    rw [hpairs', ← hidx₁, ← hidx₂]
    constructor
    · rintro ⟨s, t, hst, hs, ht, hs', ht'⟩
      rw [List.idxOf_inj hmem₁] at hs'
      rw [List.idxOf_inj hmem₂] at ht'
      rwa [hs', ht']
    · intro h
      exact ⟨_, _, h, hmem₁, hmem₂, rfl, rfl⟩

end Consistent

end TaskGraph

theorem deep_traversal_reaches_and_focus_induces {N E K : Type} [DecidableEq K]
    {g : GraphConnections N E K} (hg : g.Coherent) {node : N} {s : ℕ}
    (hs : g.nodeIndex node = some s) {tg : TaskGraph} (htg : tg.Consistent) {ε : Type}
    {get : Target → Outcome ε Task} {target : Target} {task : Task} {tnode : TaskNode}
    (htnode : IndexMap.get? tg.nodes target = some tnode) (hget : get target = .ok task)
    (htask : task.target = target) (withDependents : Bool) :
    (∃ r, g.deepDependenciesOf node = some r ∧ r.Nodup ∧
      ∀ k, k ∈ r ↔ ∃ j, Relation.TransGen (g.graph.Step .outgoing) s j ∧ g.KeyAt j k) ∧
    (∃ r, g.deepDependentsOf node = some r ∧ r.Nodup ∧
      ∀ k, k ∈ r ↔ ∃ j, Relation.TransGen (g.graph.Step .incoming) s j ∧ g.KeyAt j k) ∧
    ∃ up down tg', tg.connections.deepDependenciesOf task = some up ∧
      (if withDependents then tg.connections.deepDependentsOf task else some []) = some down ∧
      tg.focusFor get target withDependents = .ok tg' ∧ tg'.Consistent ∧
      (∀ t, (IndexMap.get? tg'.nodes t).isSome ↔
        (IndexMap.get? tg.nodes t).isSome ∧ (t = target ∨ t ∈ up ∨ t ∈ down)) ∧
      (∀ t node', IndexMap.get? tg'.nodes t = some node' →
        ∃ node, IndexMap.get? tg.nodes t = some node ∧ node'.task = node.task) ∧
      (∀ t₁ t₂ node₁ node₂ node₁' node₂', IndexMap.get? tg.nodes t₁ = some node₁ →
        IndexMap.get? tg.nodes t₂ = some node₂ → IndexMap.get? tg'.nodes t₁ = some node₁' →
        IndexMap.get? tg'.nodes t₂ = some node₂' →
        ((node₁'.index, node₂'.index) ∈ tg'.graph.graph.pairs ↔
          (node₁.index, node₂.index) ∈ tg.graph.graph.pairs)) :=
  ⟨GraphConnections.traverseDeep_spec hg hs false, GraphConnections.traverseDeep_spec hg hs true,
    TaskGraph.focusFor_spec htg htnode hget htask withDependents⟩

/-- The DAG of `a:build` depending on `a:lint`: the traversal from `a:build` reaches `a:lint`, and
the graph focused on `a:build` keeps it. -/
theorem deep_traversal_reaches_on_build_lint :
    let build : Task := { id := "build", target := ⟨"a:build", .id, .id, 1⟩ }
    let lint : Task := { id := "lint", target := ⟨"a:lint", .id, .id, 1⟩ }
    let dag : Dag ℕ TaskDependencyType :=
      ⟨⟨[0, 1], [Edge.mk 0 1 .required], by simp⟩,
        EdgeList.acyclic_append_singleton (Dag.empty : Dag ℕ Unit).acyclic fun h ↦ by
          rcases Relation.ReflTransGen.cases_tail h with h | ⟨_, -, h⟩
          · exact absurd h (by decide)
          · exact List.not_mem_nil h⟩
    let tg : TaskGraph :=
      { graph := dag, indexes := [(0, build.target), (1, lint.target)],
        nodes := [(build.target, ⟨0, build⟩), (lint.target, ⟨1, lint⟩)] }
    tg.Consistent ∧
      (∃ r, tg.connections.deepDependenciesOf build = some r ∧ r.Nodup ∧
        ∀ k, k ∈ r ↔ ∃ j, Relation.TransGen (tg.graph.graph.Step .outgoing) 0 j ∧
          tg.connections.KeyAt j k) ∧
      ∃ tg', tg.focusFor (fun _ ↦ (.ok build : Outcome Unit Task)) build.target false = .ok tg' ∧
        tg'.Consistent ∧ (IndexMap.get? tg'.nodes lint.target).isSome := by
  intro build lint dag tg
  have hindexes : ((tg.indexes).map Prod.fst).Nodup := by decide
  have hnodes : ((tg.nodes).map Prod.fst).Nodup := by decide
  have htg : tg.Consistent :=
    { weights := rfl
      indexes_isSome := by
        intro i
        rcases i with _ | _ | i <;> simp [tg, dag, IndexMap.get?]
      node_of_index := by
        intro i t h
        rcases List.mem_cons.1 ((IndexMap.get?_eq_some_iff hindexes).1 h) with h | h
        · cases h
          exact ⟨⟨0, build⟩, (IndexMap.get?_eq_some_iff hnodes).2 (by simp [tg]), rfl⟩
        · rcases List.mem_singleton.1 h with h
          cases h
          exact ⟨⟨1, lint⟩, (IndexMap.get?_eq_some_iff hnodes).2 (by simp [tg]), rfl⟩
      index_of_node := by
        intro t node h
        rcases List.mem_cons.1 ((IndexMap.get?_eq_some_iff hnodes).1 h) with h | h
        · cases h
          exact ⟨(IndexMap.get?_eq_some_iff hindexes).2 (by simp [tg]), rfl⟩
        · rcases List.mem_singleton.1 h with h
          cases h
          exact ⟨(IndexMap.get?_eq_some_iff hindexes).2 (by simp [tg]), rfl⟩ }
  have hs : tg.connections.nodeIndex build = some 0 := by decide
  obtain ⟨hdeep, -, up, down, tg', hup, -, hfocus, hc', hkept, -⟩ :=
    @deep_traversal_reaches_and_focus_induces _ _ _ _ _ htg.coherent _ _ hs _ htg Unit
      (fun _ ↦ .ok build) build.target build ⟨0, build⟩ (by decide) rfl rfl false
  -- `a:lint` is kept: it is a deep dependency of the focus
  have hlint : tg.connections.deepDependenciesOf build = some [lint.target] := by decide
  rw [hlint, Option.some.injEq] at hup
  subst hup
  exact ⟨htg, hdeep, tg', hfocus, hc', (hkept lint.target).2 ⟨by decide, .inr (.inl (by simp))⟩⟩

end Moon
