import Moon.ProjectGraph.Partitions

/-!
# Rebuilding the project graph over kept nodes: `focus_for` and `finalize`

Two functions build a project graph from the nodes a `filter_map` keeps, renumbered `0, 1, …` in
their old order, and then call `set_graph`.

* `ProjectGraph::focus_for` keeps the focus project and the projects it depends on, deeply, and,
  when asked, those that depend on it; it rebuilds `indexes` and `nodes` for the new numbers one
  node at a time (`foldlM_focusNodeStep`), updates the kept edges into a fresh union graph, and
  derives the partitions again.  Its comment says that this cannot fail, as the focused edges are
  a subset of partitions already checked: on a partitioned, labelled graph the edges kept map
  back to edges of the same partition (`acyclic_partitionPairs_of_filterMap`), so `set_graph`
  takes them, and the result is partitioned and labelled again (`focusFor_spec`).
* `WorkspaceProjectsBuilder::finalize` keeps the loaded projects, fills `indexes` and `nodes`
  for the new numbers, and calls `set_graph` (`finalize_spec`).

Either way the maps are rebuilt from the kept nodes by the same two inserts, which leave them
`Labelled` when the ids tell the kept nodes apart (`labelled_of_extend`).

`ProjectGraph::get` expands a project with a `ProjectExpander`, which is not modelled here:
`focus_for` takes it as a parameter, and the `miette` report it returns as the error type `ε`,
into which `report` turns a `ProjectGraphError`.  A builder node is `Loading`, `none`, or
`Loaded` with its project.
-/

set_option autoImplicit false

namespace Moon

open Petgraph

namespace IndexedProjectGraph

variable (pg : IndexedProjectGraph)

/-- `GraphData::get_node_by_index`: `&self.nodes[&self.indexes[index]].project`, where a missing
key panics. -/
def getNodeByIndex (index : ℕ) : Option Project := do
  let id ← IndexMap.get? pg.indexes index
  let node ← IndexMap.get? pg.nodes id
  pure node.project

/-- The project graph's `GraphData` and `GraphConnections`; `get_node_key` is the project's id. -/
def connections : GraphConnections Project DependencyScope String where
  graph := pg.graph
  nodeByIndex := pg.getNodeByIndex
  nodeKey project := project.id
  nodeIndex := pg.nodeIndexOf

/-- One round of the node loop of `focus_for`: the node now at `new_index` was at `old_index`. -/
def focusNodeStep {ε : Type}
    (acc : List (ℕ × String) × List (String × ProjectNode) × DiGraph ℕ DependencyScope)
    (node : ℕ × ℕ) :
    Outcome ε (List (ℕ × String) × List (String × ProjectNode) × DiGraph ℕ DependencyScope) := do
  let (indexes, projects, graph) := acc
  let (oldIndex, newIndex) := node
  let id ← Outcome.ofOption (IndexMap.get? pg.indexes oldIndex)
  let project ← Outcome.ofOption (pg.getNodeByIndex oldIndex)
  pure (IndexMap.insert indexes newIndex id, IndexMap.insert projects id ⟨newIndex, project⟩,
    graph.addNode newIndex)

/-- `ProjectGraph::focus_for`, with `ProjectGraph::get` as `get`. -/
def focusFor {ε : Type} (report : ProjectGraphError → ε) (get : String → Outcome ε Project)
    (idOrAlias : String) (withDependents : Bool) : Outcome ε IndexedProjectGraph := do
  let project ← get idOrAlias
  let focusedGraph ← Outcome.ofOption (pg.connections.toFocusedGraph project withDependents)
  -- `focused_graph.into_nodes_edges()`; the nodes are renumbered in order
  let (indexes, projects, graph) ←
    focusedGraph.nodes.zipIdx.foldlM pg.focusNodeStep ([], [], DiGraph.empty)
  let graph ← Outcome.ofOption (focusedGraph.edges.foldlM
    (fun graph edge ↦ graph.updateEdge edge.source edge.target edge.weight) graph)
  let aliases := pg.aliases.filter fun entry ↦ (IndexMap.get? projects entry.2).isSome
  let focused : IndexedProjectGraph := { default with aliases, indexes, nodes := projects }
  (focused.setGraph graph).mapErr report

/-- The old indices `focus_for` keeps, in order: those whose project `to_focused_graph` keeps. -/
def focusKept (focusKey : String) (upstream downstream : List String) : List ℕ :=
  (List.range pg.graph.nodes.length).filter fun i ↦
    (pg.connections.keepFocused focusKey upstream downstream i).isSome

variable {pg}

/-- **The node loop of `focus_for`**: when every old index it meets has an id and a project, it
files each new index under its id and the id under its new node, and adds the new indices to the
graph. -/
theorem foldlM_focusNodeStep {ε : Type} (idOf : ℕ → String) (projectOf : ℕ → Project) :
    ∀ (l : List (ℕ × ℕ)) (indexes : List (ℕ × String)) (projects : List (String × ProjectNode))
      (graph : DiGraph ℕ DependencyScope),
      (∀ p ∈ l, IndexMap.get? pg.indexes p.1 = some (idOf p.1) ∧
        pg.getNodeByIndex p.1 = some (projectOf p.1)) →
      (l.foldlM pg.focusNodeStep (indexes, projects, graph) : Outcome ε _) =
        .ok (IndexMap.extend indexes (l.map fun p ↦ (p.2, idOf p.1)),
          IndexMap.extend projects (l.map fun p ↦ (idOf p.1, ⟨p.2, projectOf p.1⟩)),
          (l.map Prod.snd).foldl DiGraph.addNode graph)
  | [], _, _, _, _ => rfl
  | p :: l, indexes, projects, graph, h => by
    obtain ⟨hid, hproject⟩ := h p List.mem_cons_self
    rw [List.foldlM_cons]
    simp only [focusNodeStep, hid, hproject, Outcome.ofOption_some, Outcome.ok_bind,
      Outcome.pure_eq_ok]
    exact foldlM_focusNodeStep idOf projectOf l _ _ _ fun q hq ↦ h q (List.mem_cons_of_mem p hq)

/-- **Maps rebuilt over kept nodes are labelled**: when the `i`-th kept node is filed under the
new index `i` with an id that tells the kept nodes apart, and its project has that id. -/
theorem labelled_of_extend {kept : List ℕ} (idOf : ℕ → String) (projectOf : ℕ → Project)
    (hinj : (kept.map idOf).Nodup) (hid : ∀ o ∈ kept, (projectOf o).id = idOf o)
    (hlen : pg.graph.nodes.length = kept.length)
    (hindexes : pg.indexes = IndexMap.extend [] (kept.zipIdx.map fun p ↦ (p.2, idOf p.1)))
    (hnodes : pg.nodes =
      IndexMap.extend [] (kept.zipIdx.map fun p ↦ (idOf p.1, ⟨p.2, projectOf p.1⟩))) :
    pg.Labelled := by
  have hget? := fun (id : String) (node : ProjectNode) ↦
    IndexMap.get?_extend_zipIdx_eq_some_iff idOf (fun o i ↦ (⟨i, projectOf o⟩ : ProjectNode)) hinj
      (k := id) (v := node)
  beta_reduce at hget?
  refine ⟨fun i ↦ ?_, fun i id h ↦ ?_, fun id node h ↦ ?_⟩
  · rw [hindexes, IndexMap.get?_extend_zipIdx_index, hlen]
    simp
  · rw [hindexes, IndexMap.get?_extend_zipIdx_index, Option.map_eq_some_iff] at h
    obtain ⟨o, ho, rfl⟩ := h
    exact ⟨⟨i, projectOf o⟩, by rw [hnodes, hget?]; exact ⟨i, o, ho, rfl, rfl⟩, rfl⟩
  · rw [hnodes, hget?] at h
    obtain ⟨i, o, ho, rfl, rfl⟩ := h
    refine ⟨?_, hid o (List.mem_of_getElem? ho)⟩
    rw [hindexes, IndexMap.get?_extend_zipIdx_index, ho, Option.map_some]

/-- **Edges `filter_map` keeps from a partitioned graph, with their weights, close no cycle in
either partition**: the renumbering sends them back to edges of the same partition. -/
theorem acyclic_partitionPairs_of_filterMap (hp : pg.Partitioned) {nodeMap : ℕ → ℕ → Option ℕ}
    {es : List (Edge DependencyScope)}
    (hes : ∀ e ∈ es, e ∈ (pg.graph.filterMap nodeMap fun _ e ↦ some e).edges)
    (p : ScopePartition) : EdgeList.Acyclic (partitionPairs es p) := by
  refine EdgeList.Acyclic.of_hom (fun a ↦ (pg.graph.keptIndices nodeMap).getD a 0)
    (fun a b hab ↦ ?_) (pg.partitionedGraph p).acyclic
  obtain ⟨e, he, hpair⟩ := List.mem_map.1 hab
  obtain ⟨he, hp'⟩ := List.mem_filter.1 he
  obtain ⟨i, e₀, hi, hs, ht, hw, hsource, htarget⟩ := DiGraph.mem_edges_filterMap (hes e he)
  simp only [Edge.pair, Prod.mk.injEq] at hpair
  rw [← hpair.1, ← hpair.2, hsource, htarget]
  simp only [List.getD_eq_getElem?_getD, List.getElem?_idxOf hs, List.getElem?_idxOf ht,
    Option.getD_some]
  change e₀.pair ∈ _
  -- the old edge has the same weight, so it is in the same partition's DAG
  rw [Option.some.injEq] at hw
  rw [DiGraph.pairs, hp.partition_edges p]
  refine List.mem_map.2 ⟨e₀, List.mem_filter.2 ⟨List.mem_of_getElem? hi, ?_⟩, rfl⟩
  rwa [hw]

section Labelled

variable (hl : pg.Labelled)
include hl

/-- The project at an index is that of the node of the index's id. -/
theorem Labelled.getNodeByIndex_of_index {i : ℕ} {id : String}
    (hid : IndexMap.get? pg.indexes i = some id) :
    ∃ node, IndexMap.get? pg.nodes id = some node ∧ node.index = i ∧ node.project.id = id ∧
      pg.getNodeByIndex i = some node.project := by
  obtain ⟨node, hnode, hidx⟩ := hl.node_of_index i id hid
  exact ⟨node, hnode, hidx, (hl.index_of_node id node hnode).2,
    by simp [getNodeByIndex, hid, hnode]⟩

/-- The key of the project at an index is the id the index is filed under. -/
theorem Labelled.keyAt_iff {i : ℕ} {id : String} :
    pg.connections.KeyAt i id ↔ IndexMap.get? pg.indexes i = some id := by
  constructor
  · rintro ⟨project, hproject, rfl⟩
    change pg.getNodeByIndex i = some project at hproject
    simp only [getNodeByIndex, Option.bind_eq_bind, Option.bind_eq_some_iff, Option.pure_def,
      Option.some.injEq] at hproject
    obtain ⟨id', hid', node, hnode, rfl⟩ := hproject
    change _ = some node.project.id
    rwa [(hl.index_of_node id' node hnode).2]
  · intro hid
    obtain ⟨node, -, -, hproject, hget⟩ := hl.getNodeByIndex_of_index hid
    exact ⟨node.project, hget, hproject⟩

variable (hp : pg.Partitioned)
include hp

/-- **A labelled partitioned project graph is a coherent `GraphConnections`**, so that
`traverse_deep` on it returns what is reachable. -/
theorem Labelled.coherent : pg.connections.Coherent where
  weights := hp.weights
  node i hi := by
    obtain ⟨id, hid⟩ := hl.exists_id hi
    obtain ⟨node, hnode, hidx, hproject, hget⟩ := hl.getNodeByIndex_of_index hid
    exact ⟨node.project, hget, by simp [connections, nodeIndexOf, hproject, hnode, hidx]⟩
  index project i h := by
    simp only [connections, nodeIndexOf, Option.map_eq_some_iff] at h
    obtain ⟨node, hnode, rfl⟩ := h
    have hidx := (hl.index_of_node _ node hnode).1
    exact ⟨(hl.indexes_isSome _).1 (by simp [hidx]), hl.keyAt_iff.2 hidx⟩
  key_inj i j id _ _ hi hj := hl.index_eq_of_id (hl.keyAt_iff.1 hi) (hl.keyAt_iff.1 hj)

omit hp in
/-- The old indices `focus_for` keeps are those filed under the focus's id or a related one. -/
theorem Labelled.mem_focusKept {focusKey : String} {upstream downstream : List String} {o : ℕ} :
    o ∈ pg.focusKept focusKey upstream downstream ↔ ∃ id, IndexMap.get? pg.indexes o = some id ∧
      (id = focusKey ∨ id ∈ upstream ∨ id ∈ downstream) := by
  simp only [focusKept, List.mem_filter, List.mem_range, GraphConnections.isSome_keepFocused,
    hl.keyAt_iff]
  constructor
  · exact fun h ↦ h.2
  · rintro ⟨id, hid, hkeep⟩
    exact ⟨(hl.indexes_isSome o).1 (by simp [hid]), id, hid, hkeep⟩

/-- **`focus_for` focuses, and cannot fail at `set_graph`.**  On a partitioned, labelled graph, for
a project of it that `get` returns, `focus_for` returns a partitioned, labelled graph, whose
projects are those of the graph with the focus's id, an id `deep_dependencies_of` returns, or,
when asked, one `deep_dependents_of` returns. -/
theorem focusFor_spec {ε : Type} {report : ProjectGraphError → ε}
    {get : String → Outcome ε Project} {idOrAlias : String} {project : Project}
    {node : ProjectNode} (hget : get idOrAlias = .ok project)
    (hnode : IndexMap.get? pg.nodes project.id = some node) (withDependents : Bool) :
    ∃ up down pg', pg.connections.deepDependenciesOf project = some up ∧
      (if withDependents then pg.connections.deepDependentsOf project else some []) = some down ∧
      pg.focusFor report get idOrAlias withDependents = .ok pg' ∧ pg'.Partitioned ∧
      pg'.Labelled ∧ ∀ id, (IndexMap.get? pg'.nodes id).isSome ↔
        (IndexMap.get? pg.nodes id).isSome ∧ (id = project.id ∨ id ∈ up ∨ id ∈ down) := by
  have hs : pg.connections.nodeIndex project = some node.index := by
    simp [connections, nodeIndexOf, hnode]
  obtain ⟨up, down, hup, hdown, hfocused⟩ :=
    GraphConnections.toFocusedGraph_spec (hl.coherent hp) hs withDependents
  -- the focused graph keeps the kept indices, with their weights
  have hmap := fun (_ : ℕ) w ↦ pg.connections.keepFocused_eq_ite project.id up down w
  have hkept : pg.graph.keptIndices (fun _ w ↦ pg.connections.keepFocused project.id up down w) =
      pg.focusKept project.id up down :=
    DiGraph.keptIndices_of_range hp.weights hmap
  set kept := pg.focusKept project.id up down with hkept_def
  set G := pg.graph.filterMap (fun _ w ↦ pg.connections.keepFocused project.id up down w)
    fun _ edge ↦ some edge with hG
  have hfocusedG : pg.connections.toFocusedGraph project withDependents = some G := hfocused
  have hGnodes : G.nodes = kept := DiGraph.filterMap_nodes_of_range hp.weights hmap _
  -- every kept old index has an id and a project
  have hlt : ∀ o ∈ kept, o < pg.graph.nodes.length := fun o ho ↦
    List.mem_range.1 (List.mem_filter.1 ho).1
  let idOf o := (IndexMap.get? pg.indexes o).getD project.id
  let projectOf o := (pg.getNodeByIndex o).getD project
  have hlookup : ∀ o ∈ kept, IndexMap.get? pg.indexes o = some (idOf o) ∧
      pg.getNodeByIndex o = some (projectOf o) := by
    intro o ho
    obtain ⟨id, hid⟩ := hl.exists_id (hlt o ho)
    obtain ⟨_, -, -, -, hget'⟩ := hl.getNodeByIndex_of_index hid
    simp [idOf, projectOf, hid, hget']
  have hloop := @foldlM_focusNodeStep pg ε idOf projectOf G.nodes.zipIdx [] []
    DiGraph.empty fun p hp' ↦ hlookup p.1 (hGnodes ▸ List.fst_mem_of_mem_zipIdx hp')
  -- the new union graph has the kept nodes and, updated in, the kept edges
  let graph₀ := (G.nodes.zipIdx.map Prod.snd).foldl DiGraph.addNode
    (DiGraph.empty : DiGraph ℕ DependencyScope)
  have hgraph₀ : graph₀.nodes = List.range kept.length := by
    rw [DiGraph.nodes_foldl_addNode, List.zipIdx_map_snd, hGnodes, List.range_eq_range']
    rfl
  have hvalid : ∀ e ∈ G.edges, e.source < graph₀.nodes.length ∧ e.target < graph₀.nodes.length := by
    intro e he
    rw [hgraph₀, List.length_range, ← hGnodes]
    exact G.valid e he
  obtain ⟨graph, hedges, hnodes', -, hsub⟩ := DiGraph.foldlM_updateEdge G.edges graph₀ hvalid
  have hsub' : ∀ e ∈ graph.edges, e ∈ G.edges := fun e he ↦ by
    rcases hsub e he with he | he
    · rw [DiGraph.edges_foldl_addNode] at he
      exact absurd he List.not_mem_nil
    · exact he
  -- the kept edges close no cycle in either partition, so `set_graph` takes them
  have hac : ∀ p, EdgeList.Acyclic (partitionPairs graph.edges p) :=
    acyclic_partitionPairs_of_filterMap hp hsub'
  let indexes := IndexMap.extend [] (G.nodes.zipIdx.map fun p ↦ (p.2, idOf p.1))
  let projects := IndexMap.extend [] (G.nodes.zipIdx.map fun p ↦
    (idOf p.1, (⟨p.2, projectOf p.1⟩ : ProjectNode)))
  let focused : IndexedProjectGraph :=
    { default with aliases := pg.aliases.filter fun entry ↦
        (IndexMap.get? projects entry.2).isSome, indexes, nodes := projects }
  obtain ⟨pg', hset, hpart, hgraph', hindexes', hnodes'', -⟩ :
      ∃ pg', focused.setGraph graph = .ok pg' ∧ pg'.Partitioned ∧
        pg'.graph = reindexWeights graph ∧ pg'.indexes = focused.indexes ∧
        pg'.nodes = focused.nodes ∧ pg'.aliases = focused.aliases := by
    rcases @setGraph_spec focused graph with ⟨-, h⟩ | ⟨⟨p, hcyc⟩, -⟩
    · exact h
    · exact absurd (hac p) hcyc
  -- the kept old indices are filed under different ids
  have hinj : (kept.map idOf).Nodup := by
    refine List.Nodup.map_on (fun o ho o' ho' hid ↦ ?_) (List.nodup_range.filter _)
    exact hl.index_eq_of_id (hlookup o ho).1 (hid ▸ (hlookup o' ho').1)
  have hlabelled : pg'.Labelled := by
    refine labelled_of_extend idOf projectOf hinj (fun o ho ↦ ?_) ?_ ?_ ?_
    · obtain ⟨hid, hproject⟩ := hlookup o ho
      obtain ⟨node', -, -, hid', hget'⟩ := hl.getNodeByIndex_of_index hid
      rw [hproject, Option.some.injEq] at hget'
      rw [hget', hid']
    · rw [hgraph', reindexWeights, List.length_range, hnodes', hgraph₀, List.length_range]
    · rw [hindexes', ← hGnodes]
    · rw [hnodes'', ← hGnodes]
  have hedges' : G.edges.foldlM (fun graph edge ↦ graph.updateEdge edge.source edge.target
      edge.weight) ((G.nodes.zipIdx.map Prod.snd).foldl DiGraph.addNode DiGraph.empty) =
      some graph := hedges
  refine ⟨up, down, pg', hup, hdown, ?_, hpart, hlabelled, fun id ↦ ?_⟩
  · simp only [focusFor, hget, Outcome.ok_bind, hfocusedG, Outcome.ofOption_some, hloop, hedges']
    show Outcome.mapErr report (focused.setGraph graph) = _
    rw [hset]
    rfl
  · -- the projects kept are those of the focus and of the related ids
    have hget? := fun v ↦ IndexMap.get?_extend_zipIdx_eq_some_iff idOf
      (fun o i ↦ (⟨i, projectOf o⟩ : ProjectNode)) (hGnodes ▸ hinj) (k := id) (v := v)
    beta_reduce at hget?
    rw [hnodes'']
    change (IndexMap.get? projects id).isSome ↔ _
    constructor
    · intro h
      obtain ⟨v, hv⟩ := Option.isSome_iff_exists.1 h
      obtain ⟨i, o, ho, rfl, -⟩ := (hget? v).1 hv
      rw [hGnodes] at ho
      have hmem := List.mem_of_getElem? ho
      obtain ⟨id', hid', hkeep⟩ := hl.mem_focusKept.1 hmem
      have hidOf : idOf o = id' := by
        rw [(hlookup o hmem).1] at hid'
        exact Option.some.inj hid'
      obtain ⟨n, hn, -⟩ := hl.node_of_index o id' hid'
      rw [hidOf]
      exact ⟨by simp [hn], hkeep⟩
    · rintro ⟨h, hkeep⟩
      obtain ⟨n, hn⟩ := Option.isSome_iff_exists.1 h
      have hidx := (hl.index_of_node id n hn).1
      have hmem : n.index ∈ kept := hl.mem_focusKept.2 ⟨id, hidx, hkeep⟩
      refine Option.isSome_iff_exists.2
        ⟨⟨kept.idxOf n.index, projectOf n.index⟩, (hget? _).2 ⟨_, n.index, ?_, ?_, rfl⟩⟩
      · rw [hGnodes]
        exact List.getElem?_idxOf hmem
      · rw [(hlookup _ hmem).1] at hidx
        exact Option.some.inj hidx

end Labelled

/-! ## `finalize` -/

/-- The builder's graph with the `Loading` nodes dropped, each loaded node weighted by its old
index: the `filter_map` of `finalize`. -/
def loadedGraph (graph : DiGraph (Option Project) DependencyScope) : DiGraph ℕ DependencyScope :=
  graph.filterMap (fun ni node ↦ node.map fun _ ↦ ni) fun _ edge ↦ some edge

/-- The loaded projects by old index, which the `filter_map` of `finalize` collects. -/
def loadedProjects (graph : DiGraph (Option Project) DependencyScope) : List (ℕ × Project) :=
  graph.nodes.zipIdx.filterMap fun p ↦ p.1.map (p.2, ·)

/-- One round of the node loop of `finalize`: the project of the node now at `index`, which was
at `old_index`, is taken out of the loaded projects (`remove(..).unwrap()`; each old index is met
once) and filed under its id. -/
def finalizeStep (loaded : List (ℕ × Project))
    (acc : List (ℕ × String) × List (String × ProjectNode)) (node : ℕ × ℕ) :
    Option (List (ℕ × String) × List (String × ProjectNode)) := do
  let (indexes, nodes) := acc
  let (oldIndex, index) := node
  let project ← IndexMap.get? loaded oldIndex
  pure (IndexMap.insert indexes index project.id, IndexMap.insert nodes project.id ⟨index, project⟩)

/-- `WorkspaceProjectsBuilder::finalize`, with the builder's graph and its aliases.  The default
project id is carried over unchanged, and is left out. -/
def finalize (graph : DiGraph (Option Project) DependencyScope)
    (aliasesToIds : List (String × String)) : Outcome ProjectGraphError IndexedProjectGraph := do
  let loaded := loadedProjects graph
  let graph := loadedGraph graph
  let (indexes, nodes) ←
    Outcome.ofOption (graph.nodes.zipIdx.foldlM (finalizeStep loaded) ([], []))
  let projectGraph : IndexedProjectGraph := { default with aliases := aliasesToIds, indexes, nodes }
  projectGraph.setGraph graph

/-- The node loop of `finalize`, when every old index it meets has a loaded project. -/
theorem foldlM_finalizeStep {loaded : List (ℕ × Project)} (projectOf : ℕ → Project) :
    ∀ (l : List (ℕ × ℕ)) (indexes : List (ℕ × String)) (nodes : List (String × ProjectNode)),
      (∀ p ∈ l, IndexMap.get? loaded p.1 = some (projectOf p.1)) →
      l.foldlM (finalizeStep loaded) (indexes, nodes) =
        some (IndexMap.extend indexes (l.map fun p ↦ (p.2, (projectOf p.1).id)),
          IndexMap.extend nodes (l.map fun p ↦ ((projectOf p.1).id, ⟨p.2, projectOf p.1⟩)))
  | [], _, _, _ => rfl
  | p :: l, indexes, nodes, h => by
    rw [List.foldlM_cons]
    simp only [finalizeStep, h p List.mem_cons_self, Option.bind_eq_bind, Option.bind_some,
      Option.pure_def]
    exact foldlM_finalizeStep projectOf l _ _ fun q hq ↦ h q (List.mem_cons_of_mem p hq)

/-- `finalize`'s `filter_map` weights each node it keeps by its old index. -/
theorem loadedNodeMap_eq_ite (i : ℕ) (node : Option Project) :
    node.map (fun _ ↦ i) = if (node.map fun _ ↦ i).isSome then some i else none := by
  cases node <;> rfl

/-- The nodes `finalize` keeps are the old indices of the loaded nodes. -/
theorem loadedGraph_nodes (graph : DiGraph (Option Project) DependencyScope) :
    (loadedGraph graph).nodes = graph.keptIndices fun ni node ↦ node.map fun _ ↦ ni :=
  DiGraph.filterMap_nodes_of_index loadedNodeMap_eq_ite _

/-- The loaded project of an old index is the project of its `Loaded` node. -/
theorem get?_loadedProjects {graph : DiGraph (Option Project) DependencyScope} {o : ℕ}
    {project : Project} :
    IndexMap.get? (loadedProjects graph) o = some project ↔ graph.nodes[o]? = some (some project) := by
  -- the old indices are the keys, each once
  have hkeys : (loadedProjects graph).map Prod.fst = (loadedGraph graph).nodes := by
    rw [loadedProjects, List.map_filterMap]
    simp [loadedGraph, DiGraph.filterMap, Option.map_map, Function.comp_def]
  have hnodup : ((loadedProjects graph).map Prod.fst).Nodup := by
    rw [hkeys, loadedGraph_nodes]
    exact DiGraph.nodup_keptIndices
  rw [IndexMap.get?_eq_some_iff hnodup, loadedProjects, List.mem_filterMap]
  constructor
  · rintro ⟨⟨node, i⟩, hi, hnode⟩
    obtain ⟨project', rfl, hpair⟩ := Option.map_eq_some_iff.1 hnode
    simp only [Prod.mk.injEq] at hpair
    obtain ⟨rfl, rfl⟩ := hpair
    exact List.mem_zipIdx_iff_getElem?.1 hi
  · intro h
    exact ⟨(some project, o), List.mem_zipIdx_iff_getElem?.2 h, rfl⟩

/-- **What `finalize` builds**, when no two loaded nodes hold projects with one id: if the loaded
edges of each partition close no cycle, a partitioned, labelled project graph; otherwise an
error.  It never panics. -/
theorem finalize_spec (graph : DiGraph (Option Project) DependencyScope)
    (aliasesToIds : List (String × String))
    (hids : ∀ (i j : ℕ) (p q : Project), graph.nodes[i]? = some (some p) →
      graph.nodes[j]? = some (some q) →
      p.id = q.id → i = j) :
    ((∀ p, EdgeList.Acyclic (partitionPairs (loadedGraph graph).edges p)) ∧
        ∃ pg', finalize graph aliasesToIds = .ok pg' ∧ pg'.Partitioned ∧ pg'.Labelled) ∨
      ((∃ p, ¬ EdgeList.Acyclic (partitionPairs (loadedGraph graph).edges p)) ∧
        ∃ err, finalize graph aliasesToIds = .err err) := by
  have hnodes : (loadedGraph graph).nodes = graph.keptIndices fun ni node ↦ node.map fun _ ↦ ni :=
    loadedGraph_nodes graph
  -- every kept old index has a loaded project
  let projectOf o := (IndexMap.get? (loadedProjects graph) o).getD { id := "" }
  have hlookup : ∀ o ∈ (loadedGraph graph).nodes,
      IndexMap.get? (loadedProjects graph) o = some (projectOf o) ∧
        graph.nodes[o]? = some (some (projectOf o)) := by
    intro o ho
    rw [hnodes] at ho
    obtain ⟨w, hw, hsome⟩ := DiGraph.mem_keptIndices.1 ho
    cases w with
    | none => simp at hsome
    | some project =>
      have h := get?_loadedProjects.2 hw
      simp [projectOf, h, hw]
  have hloop := foldlM_finalizeStep projectOf (loadedGraph graph).nodes.zipIdx [] []
    fun p hp ↦ (hlookup p.1 (List.fst_mem_of_mem_zipIdx hp)).1
  -- the kept old indices hold projects with different ids
  have hinj : ((loadedGraph graph).nodes.map fun o ↦ (projectOf o).id).Nodup := by
    refine List.Nodup.map_on (fun o ho o' ho' h ↦ ?_) (hnodes ▸ DiGraph.nodup_keptIndices)
    exact hids o o' _ _ (hlookup o ho).2 (hlookup o' ho').2 h
  let indexes := IndexMap.extend []
    ((loadedGraph graph).nodes.zipIdx.map fun p ↦ (p.2, (projectOf p.1).id))
  let nodes := IndexMap.extend [] ((loadedGraph graph).nodes.zipIdx.map fun p ↦
    ((projectOf p.1).id, (⟨p.2, projectOf p.1⟩ : ProjectNode)))
  let projectGraph : IndexedProjectGraph := { default with aliases := aliasesToIds, indexes, nodes }
  have hfinalize : finalize graph aliasesToIds = projectGraph.setGraph (loadedGraph graph) := by
    simp only [finalize, hloop, Outcome.ofOption_some, Outcome.ok_bind]
    rfl
  rw [hfinalize]
  rcases @setGraph_spec projectGraph (loadedGraph graph) with
    ⟨hac, pg', hset, hpart, hgraph', hindexes', hnodes', -⟩ | h
  · refine .inl ⟨hac, pg', hset, hpart, labelled_of_extend (fun o ↦ (projectOf o).id) projectOf
      hinj (fun _ _ ↦ rfl) ?_ hindexes' hnodes'⟩
    rw [hgraph', reindexWeights, List.length_range]
  · exact .inr h

end IndexedProjectGraph

open IndexedProjectGraph in
theorem partition_invariant_holds_on_labelled_graphs :
    (∀ (pg pg' : IndexedProjectGraph) (graph : DiGraph ℕ DependencyScope),
      pg.setGraph graph = .ok pg' →
        pg'.graph.nodes = List.range graph.nodes.length ∧ pg'.graph.edges = graph.edges ∧
        (∀ p, (pg'.partitionedGraph p).graph.nodes = pg'.graph.nodes ∧
          (pg'.partitionedGraph p).graph.edges = IndexedProjectGraph.partitionEdges pg'.graph.edges p) ∧
        List.Perm ((pg'.partitionedGraph .production).graph.edges ++
          (pg'.partitionedGraph .development).graph.edges) pg'.graph.edges ∧
        pg'.indexes = pg.indexes ∧ pg'.nodes = pg.nodes) ∧
    (∀ (pg : IndexedProjectGraph) (graph : DiGraph ℕ DependencyScope),
      pg.setGraph graph ≠ .panic ∧ ((∃ err, pg.setGraph graph = .err err) ↔
        ∃ p, ¬ EdgeList.Acyclic (IndexedProjectGraph.partitionPairs graph.edges p))) ∧
    (∀ (pg : IndexedProjectGraph) (p : ScopePartition),
      (pg.partitionedGraph p).graph.toposort.isSome) ∧
    (∀ pg : IndexedProjectGraph, pg.Partitioned → pg.Labelled → ∀ p : ScopePartition,
      ∃ ids, pg.partitionedToposort p = some ids ∧ ids.Nodup ∧
        (∀ id, id ∈ ids ↔ (IndexMap.get? pg.nodes id).isSome) ∧
        ∀ id id' node node', IndexMap.get? pg.nodes id = some node →
          IndexMap.get? pg.nodes id' = some node' →
          (node.index, node'.index) ∈ (pg.partitionedGraph p).graph.pairs →
          List.Sublist [id', id] ids) ∧
    (∀ pg : IndexedProjectGraph, pg.Partitioned → pg.Labelled → ∀ (project : Project)
      (node : ProjectNode), IndexMap.get? pg.nodes project.id = some node → ∀ p : ScopePartition,
      (∃ ids, pg.partitionedDeepDependenciesOf project p = some ids ∧ ids.Nodup ∧
        ∀ id, id ∈ ids ↔ ∃ node', IndexMap.get? pg.nodes id = some node' ∧
          Relation.TransGen ((pg.partitionedGraph p).graph.Step .outgoing) node.index
            node'.index) ∧
      (∃ ids, pg.partitionedDeepDependentsOf project p = some ids ∧ ids.Nodup ∧
        ∀ id, id ∈ ids ↔ ∃ node', IndexMap.get? pg.nodes id = some node' ∧
          Relation.TransGen ((pg.partitionedGraph p).graph.Step .incoming) node.index
            node'.index)) ∧
    (∀ (graph : DiGraph (Option Project) DependencyScope) (aliasesToIds : List (String × String)),
      (∀ (i j : ℕ) (p q : Project), graph.nodes[i]? = some (some p) →
        graph.nodes[j]? = some (some q) → p.id = q.id → i = j) →
      ∀ pg', finalize graph aliasesToIds = .ok pg' → pg'.Partitioned ∧ pg'.Labelled) ∧
    (∀ (pg : IndexedProjectGraph) (ε : Type) (report : ProjectGraphError → ε)
      (get : String → Outcome ε Project) (idOrAlias : String) (project : Project)
      (node : ProjectNode), pg.Partitioned → pg.Labelled → get idOrAlias = .ok project →
      IndexMap.get? pg.nodes project.id = some node → ∀ withDependents : Bool,
      ∃ pg', pg.focusFor report get idOrAlias withDependents = .ok pg' ∧ pg'.Partitioned ∧
        pg'.Labelled) := by
  refine ⟨fun pg pg' graph h ↦ ?_, fun pg graph ↦ ⟨setGraph_ne_panic graph, setGraph_eq_err_iff graph⟩,
    fun pg p ↦ toposort_partitionedGraph_isSome p, fun pg hp hl p ↦ partitionedToposort_spec hl hp p,
    fun pg hp hl project node hnode p ↦
      ⟨partitionedTraverse_spec hl hp hnode p .outgoing, partitionedTraverse_spec hl hp hnode p .incoming⟩,
    fun graph aliasesToIds hids pg' h ↦ ?_,
    fun pg ε report get idOrAlias project node hp hl hget hnode withDependents ↦ ?_⟩
  · obtain ⟨hpart, hgraph, hindexes, hnodes, -⟩ := setGraph_eq_ok h
    refine ⟨by rw [hgraph]; rfl, by rw [hgraph]; rfl,
      fun p ↦ ⟨hpart.partition_nodes p, hpart.partition_edges p⟩, hpart.perm_edges, hindexes, hnodes⟩
  · rcases finalize_spec graph aliasesToIds hids with ⟨-, pg'', h', hpart, hl⟩ | ⟨-, err, h'⟩
    · rw [h, Outcome.ok.injEq] at h'
      exact h' ▸ ⟨hpart, hl⟩
    · rw [h] at h'
      cases h'
  · obtain ⟨-, -, pg', -, -, hfocus, hpart, hl', -⟩ : ∃ up down pg', _ ∧ _ ∧
        pg.focusFor report get idOrAlias withDependents = .ok pg' ∧ pg'.Partitioned ∧
        pg'.Labelled ∧ _ := focusFor_spec hl hp hget hnode withDependents
    exact ⟨pg', hfocus, hpart, hl'⟩

/-- Two loaded projects, `app` depending on `lib` for production. -/
def appLibGraph : DiGraph (Option Project) DependencyScope :=
  ⟨[some { id := "lib" }, some { id := "app" }], [⟨1, 0, .production⟩], by simp⟩

open IndexedProjectGraph in
/-- Finalizing the two projects gives a partitioned, labelled graph whose production sort puts
`lib` before `app`. -/
theorem finalize_sorts_lib_before_app :
    ∃ pg, finalize appLibGraph [] = .ok pg ∧ pg.Partitioned ∧ pg.Labelled ∧
      ∃ ids, pg.partitionedToposort .production = some ids ∧ ["lib", "app"].Sublist ids := by
  have hids : ∀ (i j : ℕ) (p q : Project), appLibGraph.nodes[i]? = some (some p) →
      appLibGraph.nodes[j]? = some (some q) → p.id = q.id → i = j := by
    intro i j p q hi hj hpq
    rcases i with _ | _ | i <;> rcases j with _ | _ | j <;> simp [appLibGraph] at hi hj ⊢ <;>
      · subst hi hj
        simp at hpq
  refine ⟨_, rfl, ?_⟩
  obtain ⟨hp, hl⟩ :=
    partition_invariant_holds_on_labelled_graphs.2.2.2.2.2.1 appLibGraph [] hids _ rfl
  obtain ⟨ids, hsort, -, -, hdeps⟩ :=
    partition_invariant_holds_on_labelled_graphs.2.2.2.1 _ hp hl .production
  exact ⟨hp, hl, ids, hsort, hdeps "app" "lib" _ _ rfl rfl (by decide)⟩

end Moon
