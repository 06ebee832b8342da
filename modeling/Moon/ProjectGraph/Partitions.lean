import Moon.ProjectGraph.ProjectGraph
import Moon.GraphUtils.GraphTraits
import Moon.Lib.Bfs

/-!
# The project graph by node indices: `set_graph` and the partitions

`crates/project-graph/src/project_graph.rs`, as the source keeps a `ProjectGraph`: a `petgraph`
union graph whose node weights are node indices and whose edges carry a `DependencyScope`, a
`daggy` DAG of each partition, a map from node indices to project ids (`indexes`) and a map from
ids to project nodes (`nodes`).  `ProjectGraph` in `Moon.ProjectGraph.ProjectGraph` is its view by
ids; here it is `IndexedProjectGraph`.

* `set_graph` rewrites every node's weight to its index, mirrors the nodes into both DAGs and
  routes each edge into the DAG of its scope's partition, whose `add_edge` refuses an edge that
  would close a cycle.  It assigns the three graphs only once every edge is routed, so a call that
  fails leaves the graph as it was.  A call that succeeds leaves it `Partitioned`
  (`setGraph_eq_ok`): the weights are the indices, and each DAG has the nodes of the union and the
  union's edges of its partition, in order.  It fails exactly when the edges of one partition close
  a cycle (`setGraph_eq_err_iff`), and never panics.
* `partitioned_toposort` sorts a partition and looks the indices up in `indexes`, and
  `partitioned_traverse` walks a partition breadth first from a project's node, looking up each
  node it reaches.  `set_graph` does not fill `indexes` or `nodes`: the caller does, before or after
  it, and both read the maps.  On a partitioned graph whose maps are `Labelled` (every node index
  has an id, ids tell indices apart, and the node of an id has its index back, as `finalize` and
  `focus_for` leave them) the sort returns every project id once, each after its dependencies in
  the partition (`partitionedToposort_spec`), and the traversal returns the ids reachable in the
  partition, each once (`partitionedTraverse_spec`).  Without the maps the sort panics
  (`toposort_without_indexes_panics`).
-/

set_option autoImplicit false

namespace Moon

open Petgraph

/-- `ScopePartition`: the partition a dependency scope belongs to. -/
inductive ScopePartition where
  /-- Production and peer scoped dependencies. -/
  | production
  /-- Development, build, and root scoped dependencies. -/
  | development
  deriving DecidableEq, Repr

/-- `ScopePartition::of`. -/
def ScopePartition.of (scope : DependencyScope) : ScopePartition :=
  if scope.isProductionGroup then .production else .development

/-- `ProjectNode`. -/
structure ProjectNode where
  index : ℕ
  project : Project
  deriving DecidableEq, Repr

/-- `ProjectGraph`, with the fields `set_graph`, the partition readers and `focus_for` read and
write.  The expansion context, the default id and the caches of path lookups and expanded projects
are carried over unchanged, and are left out. -/
structure IndexedProjectGraph where
  graph : DiGraph ℕ DependencyScope
  productionGraph : Dag ℕ DependencyScope
  developmentGraph : Dag ℕ DependencyScope
  indexes : List (ℕ × String)
  nodes : List (String × ProjectNode)
  aliases : List (String × String)

namespace IndexedProjectGraph

/-- `ProjectGraph::default()`: empty graphs and maps. -/
def default : IndexedProjectGraph := ⟨.empty, .empty, .empty, [], [], []⟩

variable (pg : IndexedProjectGraph)

/-- `ProjectGraph::label_index`: the id of a node index, or the index itself as text. -/
def labelIndex (index : ℕ) : String := (IndexMap.get? pg.indexes index).getD (toString index)

/-- The graph with every node's weight rewritten to its index: the first loop of `set_graph`. -/
def reindexWeights (graph : DiGraph ℕ DependencyScope) : DiGraph ℕ DependencyScope :=
  ⟨List.range graph.nodes.length, graph.edges, by simpa using graph.valid⟩

/-- One round of the edge loop of `set_graph`: route the edge into the DAG of its scope's
partition, whose `add_edge` refuses an edge that would close a cycle. -/
def routeEdge (graphs : Dag ℕ DependencyScope × Dag ℕ DependencyScope)
    (edge : Edge DependencyScope) :
    Outcome ProjectGraphError (Dag ℕ DependencyScope × Dag ℕ DependencyScope) := do
  let scope := edge.weight
  let partitioned := if scope.isProductionGroup then graphs.1 else graphs.2
  let partitioned ← (partitioned.addEdge edge.source edge.target scope).mapErr
    fun _ ↦ .wouldCycle (pg.labelIndex edge.source) (pg.labelIndex edge.target)
  pure (if scope.isProductionGroup then (partitioned, graphs.2) else (graphs.1, partitioned))

/-- `ProjectGraph::set_graph`: the graph with the new union graph and the DAGs of its partitions,
assigned after every edge was routed. -/
def setGraph (graph : DiGraph ℕ DependencyScope) : Outcome ProjectGraphError IndexedProjectGraph := do
  -- weight-based lookups require each node's weight to be its own index
  let graph := reindexWeights graph
  -- mirror the nodes into both graphs, in the same order
  let productionGraph := graph.nodes.foldl Dag.addNode Dag.empty
  let developmentGraph := graph.nodes.foldl Dag.addNode Dag.empty
  let (productionGraph, developmentGraph) ←
    graph.edges.foldlM pg.routeEdge (productionGraph, developmentGraph)
  pure { pg with graph, productionGraph, developmentGraph }

/-- `ProjectGraph::partitioned_graph`, as its DAG. -/
def partitionedGraph : ScopePartition → Dag ℕ DependencyScope
  | .production => pg.productionGraph
  | .development => pg.developmentGraph

/-- The edges of a list in a partition, in order. -/
def partitionEdges (edges : List (Edge DependencyScope)) (partition : ScopePartition) :
    List (Edge DependencyScope) :=
  edges.filter fun e ↦ ScopePartition.of e.weight = partition

/-- What a successful `set_graph` leaves: every node's weight is its index, and the DAG of each
partition has the nodes of the union graph and, in order, the union's edges of the partition. -/
structure Partitioned : Prop where
  weights : pg.graph.nodes = List.range pg.graph.nodes.length
  partition_nodes : ∀ p, (pg.partitionedGraph p).graph.nodes = pg.graph.nodes
  partition_edges : ∀ p, (pg.partitionedGraph p).graph.edges = partitionEdges pg.graph.edges p

/-! ## `set_graph` -/

@[simp] theorem of_production {scope : DependencyScope} (h : scope.isProductionGroup = true) :
    ScopePartition.of scope = .production := by
  simp [ScopePartition.of, h]

@[simp] theorem of_development {scope : DependencyScope} (h : scope.isProductionGroup = false) :
    ScopePartition.of scope = .development := by
  simp [ScopePartition.of, h]

/-- The pair of DAGs, read by partition. -/
def pick (graphs : Dag ℕ DependencyScope × Dag ℕ DependencyScope) : ScopePartition →
    Dag ℕ DependencyScope
  | .production => graphs.1
  | .development => graphs.2

variable {pg}

/-- **One routed edge**: between two nodes of both DAGs, the DAG of the edge's partition refuses
it exactly when its target reaches its source there; otherwise it takes it, and the other DAG is
left as it was. -/
theorem routeEdge_spec {graphs : Dag ℕ DependencyScope × Dag ℕ DependencyScope}
    {e : Edge DependencyScope} (hv : ∀ p, e.source < (pick graphs p).graph.nodes.length ∧
      e.target < (pick graphs p).graph.nodes.length) :
    (EdgeList.Reach (pick graphs (.of e.weight)).graph.pairs e.target e.source ∧
        ∃ err, pg.routeEdge graphs e = .err err) ∨
      (¬ EdgeList.Reach (pick graphs (.of e.weight)).graph.pairs e.target e.source ∧
        ∃ graphs', pg.routeEdge graphs e = .ok graphs' ∧ ∀ p, (pick graphs' p).graph.nodes =
          (pick graphs p).graph.nodes ∧ (pick graphs' p).graph.edges =
            (pick graphs p).graph.edges ++ partitionEdges [e] p) := by
  cases hscope : e.weight.isProductionGroup with
  | true =>
    have hp : ScopePartition.of e.weight = .production := of_production hscope
    rcases Dag.addEdge_spec (w := e.weight) (hv .production) with ⟨hr, hadd⟩ | ⟨hr, d', hadd, hd'⟩
    · refine .inl ⟨hp ▸ hr, .wouldCycle (pg.labelIndex e.source) (pg.labelIndex e.target), ?_⟩
      simp only [pick] at hadd
      simp only [routeEdge, hscope, if_true, hadd, Outcome.mapErr_err, Outcome.err_bind]
    · refine .inr ⟨hp ▸ hr, (d', graphs.2), ?_, fun p ↦ ?_⟩
      · simp only [pick] at hadd
        simp only [routeEdge, hscope, if_true, hadd, Outcome.mapErr_ok, Outcome.ok_bind,
          Outcome.pure_eq_ok]
      · cases p <;> simp [pick, hd', partitionEdges, hp, DiGraph.addEdge]
  | false =>
    have hp : ScopePartition.of e.weight = .development := of_development hscope
    rcases Dag.addEdge_spec (w := e.weight) (hv .development) with ⟨hr, hadd⟩ | ⟨hr, d', hadd, hd'⟩
    · refine .inl ⟨hp ▸ hr, .wouldCycle (pg.labelIndex e.source) (pg.labelIndex e.target), ?_⟩
      simp only [pick] at hadd
      simp only [routeEdge, hscope, Bool.false_eq_true, if_false, hadd, Outcome.mapErr_err,
        Outcome.err_bind]
    · refine .inr ⟨hp ▸ hr, (graphs.1, d'), ?_, fun p ↦ ?_⟩
      · simp only [pick] at hadd
        simp only [routeEdge, hscope, Bool.false_eq_true, if_false, hadd, Outcome.mapErr_ok,
          Outcome.ok_bind, Outcome.pure_eq_ok]
      · cases p <;> simp [pick, hd', partitionEdges, hp, DiGraph.addEdge]

theorem partitionEdges_cons (e : Edge DependencyScope) (es : List (Edge DependencyScope))
    (p : ScopePartition) : partitionEdges (e :: es) p = partitionEdges [e] p ++ partitionEdges es p := by
  unfold partitionEdges
  simp only [← List.filter_append, List.singleton_append]

/-- The ends of the edges of a partition, as a cycle check reads them. -/
def partitionPairs (edges : List (Edge DependencyScope)) (p : ScopePartition) : List (ℕ × ℕ) :=
  (partitionEdges edges p).map Edge.pair

/-- **The edge loop of `set_graph`**, over edges between nodes of both DAGs: it succeeds exactly
when no DAG's edges, followed by the loop's edges of its partition, close a cycle, and then each
DAG ends with those edges; otherwise it fails with an error, and never panics. -/
theorem foldlM_routeEdge_spec :
    ∀ (es : List (Edge DependencyScope)) (graphs : Dag ℕ DependencyScope × Dag ℕ DependencyScope),
      (∀ e ∈ es, ∀ p, e.source < (pick graphs p).graph.nodes.length ∧
        e.target < (pick graphs p).graph.nodes.length) →
      ((∀ p, EdgeList.Acyclic ((pick graphs p).graph.pairs ++ partitionPairs es p)) ∧
          ∃ graphs', es.foldlM pg.routeEdge graphs = .ok graphs' ∧
            ∀ p, (pick graphs' p).graph.nodes = (pick graphs p).graph.nodes ∧
              (pick graphs' p).graph.edges = (pick graphs p).graph.edges ++ partitionEdges es p) ∨
        ((∃ p, ¬ EdgeList.Acyclic ((pick graphs p).graph.pairs ++ partitionPairs es p)) ∧
          ∃ err, es.foldlM pg.routeEdge graphs = .err err)
  | [], graphs, _ => .inl ⟨fun p ↦ by simpa [partitionPairs, partitionEdges] using (pick graphs p).acyclic,
      graphs, rfl, fun p ↦ by simp [partitionEdges]⟩
  | e :: es, graphs, hv => by
    rcases @routeEdge_spec pg _ _ (hv e List.mem_cons_self) with ⟨hr, err, hroute⟩ |
      ⟨-, graphs', hroute, hgraphs'⟩
    · -- the edge closes a cycle of its partition with the edges before it
      refine .inr ⟨⟨.of e.weight, fun hac ↦ ?_⟩, err, by rw [List.foldlM_cons, hroute]; rfl⟩
      refine EdgeList.acyclic_iff.1 hac e.source e.target ?_ (hr.mono fun x hx ↦ ?_)
      · simp [partitionPairs, partitionEdges, Edge.pair]
      · exact List.mem_append_left _ hx
    · have hv' : ∀ e' ∈ es, ∀ p, e'.source < (pick graphs' p).graph.nodes.length ∧
          e'.target < (pick graphs' p).graph.nodes.length := fun e' he' p ↦ by
        rw [(hgraphs' p).1]
        exact hv e' (List.mem_cons_of_mem e he') p
      -- the DAGs after the edge, followed by the rest, are the DAGs followed by all the edges
      have hpairs : ∀ p, (pick graphs' p).graph.pairs ++ partitionPairs es p =
          (pick graphs p).graph.pairs ++ partitionPairs (e :: es) p := fun p ↦ by
        simp only [DiGraph.pairs, (hgraphs' p).2, partitionPairs, partitionEdges_cons e es p,
          List.map_append, List.append_assoc]
      rw [List.foldlM_cons, hroute, Outcome.ok_bind]
      rcases foldlM_routeEdge_spec es graphs' hv' with ⟨hac, graphs'', hfold, hgraphs''⟩ |
        ⟨⟨p, hcyc⟩, err, hfold⟩
      · refine .inl ⟨fun p ↦ hpairs p ▸ hac p, graphs'', hfold, fun p ↦ ?_⟩
        rw [(hgraphs'' p).1, (hgraphs'' p).2, (hgraphs' p).1, (hgraphs' p).2,
          partitionEdges_cons e es p, List.append_assoc]
        exact ⟨rfl, rfl⟩
      · exact .inr ⟨⟨p, hpairs p ▸ hcyc⟩, err, hfold⟩

/-- The nodes of `set_graph`'s graph, mirrored into a DAG. -/
theorem mirror_nodes (graph : DiGraph ℕ DependencyScope) :
    ((reindexWeights graph).nodes.foldl Dag.addNode (Dag.empty : Dag ℕ DependencyScope)).graph.nodes =
      List.range graph.nodes.length := by
  rw [Dag.nodes_foldl_addNode]
  rfl

theorem mirror_edges (graph : DiGraph ℕ DependencyScope) :
    ((reindexWeights graph).nodes.foldl Dag.addNode (Dag.empty : Dag ℕ DependencyScope)).graph.edges =
      [] := by
  rw [Dag.edges_foldl_addNode]
  rfl

/-- **What `set_graph` does.**  When the edges of each partition close no cycle, it returns the
graph with the union graph reweighted and the DAGs of the partitions, partitioned, and the rest
of the graph as it was; otherwise it fails with an error.  It never panics. -/
theorem setGraph_spec (graph : DiGraph ℕ DependencyScope) :
    ((∀ p, EdgeList.Acyclic (partitionPairs graph.edges p)) ∧ ∃ pg', pg.setGraph graph = .ok pg' ∧
        pg'.Partitioned ∧ pg'.graph = reindexWeights graph ∧ pg'.indexes = pg.indexes ∧
        pg'.nodes = pg.nodes ∧ pg'.aliases = pg.aliases) ∨
      ((∃ p, ¬ EdgeList.Acyclic (partitionPairs graph.edges p)) ∧
        ∃ err, pg.setGraph graph = .err err) := by
  let mirror := (reindexWeights graph).nodes.foldl Dag.addNode (Dag.empty : Dag ℕ DependencyScope)
  have hpick : ∀ p, (pick (mirror, mirror) p).graph = mirror.graph := fun p ↦ by cases p <;> rfl
  have hv : ∀ e ∈ (reindexWeights graph).edges, ∀ p,
      e.source < (pick (mirror, mirror) p).graph.nodes.length ∧
        e.target < (pick (mirror, mirror) p).graph.nodes.length := fun e he p ↦ by
    rw [hpick p, mirror_nodes, List.length_range]
    exact graph.valid e he
  -- the DAGs start with no edges, so each ends with the edges of its partition
  have hpairs : ∀ p, (pick (mirror, mirror) p).graph.pairs ++ partitionPairs graph.edges p =
      partitionPairs graph.edges p := fun p ↦ by
    rw [DiGraph.pairs, hpick p, mirror_edges, List.map_nil, List.nil_append]
  rcases @foldlM_routeEdge_spec pg (reindexWeights graph).edges (mirror, mirror) hv with
    ⟨hac, graphs', hfold, hgraphs'⟩ | ⟨⟨p, hcyc⟩, err, hfold⟩
  · let pg' : IndexedProjectGraph :=
      ⟨reindexWeights graph, graphs'.1, graphs'.2, pg.indexes, pg.nodes, pg.aliases⟩
    have hsame : ∀ p, pg'.partitionedGraph p = pick graphs' p := fun p ↦ by cases p <;> rfl
    refine .inl ⟨fun p ↦ hpairs p ▸ hac p, pg', ?_, ⟨?_, fun p ↦ ?_, fun p ↦ ?_⟩,
      rfl, rfl, rfl, rfl⟩
    · show (List.foldlM pg.routeEdge (mirror, mirror) (reindexWeights graph).edges >>= fun x ↦
        Outcome.ok (⟨reindexWeights graph, x.1, x.2, pg.indexes, pg.nodes, pg.aliases⟩ :
          IndexedProjectGraph)) = _
      rw [hfold]
      rfl
    · change List.range graph.nodes.length = List.range (List.range graph.nodes.length).length
      rw [List.length_range]
    · rw [hsame, (hgraphs' p).1, hpick p, mirror_nodes]
      rfl
    · rw [hsame, (hgraphs' p).2, hpick p, mirror_edges, List.nil_append]
  · refine .inr ⟨⟨p, hpairs p ▸ hcyc⟩, err, ?_⟩
    show (List.foldlM pg.routeEdge (mirror, mirror) (reindexWeights graph).edges >>= fun x ↦
      Outcome.ok (⟨reindexWeights graph, x.1, x.2, pg.indexes, pg.nodes, pg.aliases⟩ :
        IndexedProjectGraph)) = _
    rw [hfold]
    rfl

/-- **A successful `set_graph` leaves the graph partitioned**, with the given graph reweighted and
the maps as they were. -/
theorem setGraph_eq_ok {graph : DiGraph ℕ DependencyScope} {pg' : IndexedProjectGraph}
    (h : pg.setGraph graph = .ok pg') :
    pg'.Partitioned ∧ pg'.graph = reindexWeights graph ∧ pg'.indexes = pg.indexes ∧
      pg'.nodes = pg.nodes ∧ pg'.aliases = pg.aliases := by
  rcases @setGraph_spec pg graph with ⟨-, pg'', h', hpg''⟩ | ⟨-, err, h'⟩
  · rw [h, Outcome.ok.injEq] at h'
    exact h' ▸ hpg''
  · rw [h] at h'
    cases h'

/-- **`set_graph` fails exactly when the edges of a partition close a cycle.** -/
theorem setGraph_eq_err_iff (graph : DiGraph ℕ DependencyScope) :
    (∃ err, pg.setGraph graph = .err err) ↔
      ∃ p, ¬ EdgeList.Acyclic (partitionPairs graph.edges p) := by
  rcases @setGraph_spec pg graph with ⟨hac, pg', h, -⟩ | ⟨hcyc, err, h⟩
  · rw [h]
    simp only [reduceCtorEq, exists_false, false_iff, not_exists, not_not]
    exact hac
  · exact ⟨fun _ ↦ hcyc, fun _ ↦ ⟨err, h⟩⟩

theorem setGraph_ne_panic (graph : DiGraph ℕ DependencyScope) : pg.setGraph graph ≠ .panic := by
  rcases @setGraph_spec pg graph with ⟨-, pg', h, -⟩ | ⟨-, err, h⟩ <;> rw [h] <;> simp

/-- **The two DAGs split the union's edges**: together they hold each of its edges once. -/
theorem Partitioned.perm_edges (hp : pg.Partitioned) :
    List.Perm ((pg.partitionedGraph .production).graph.edges ++
      (pg.partitionedGraph .development).graph.edges) pg.graph.edges := by
  rw [hp.partition_edges, hp.partition_edges]
  have hdev : partitionEdges pg.graph.edges .development =
      pg.graph.edges.filter fun e ↦ !decide (ScopePartition.of e.weight = .production) := by
    refine List.filter_congr fun e _ ↦ ?_
    cases ScopePartition.of e.weight <;> rfl
  rw [hdev]
  exact List.filter_append_perm _ _

/-- A partition is a DAG, so it always sorts: the `expect` of `partitioned_toposort` never
fires. -/
theorem toposort_partitionedGraph_isSome (partition : ScopePartition) :
    (pg.partitionedGraph partition).graph.toposort.isSome :=
  DiGraph.toposort_isSome (pg.partitionedGraph partition).acyclic

/-! ## Reading the partitions -/

variable (pg)

/-- `ProjectGraph::partitioned_toposort`: the ids of a partition's nodes, dependencies first.  The
sort's `expect` and each lookup in `indexes` panic (`none`). -/
def partitionedToposort (partition : ScopePartition) : Option (List String) := do
  let indices ← (pg.partitionedGraph partition).graph.toposort
  -- edges point from a project to its dependency, so reverse the order to get dependencies first
  indices.reverse.mapM fun index ↦ IndexMap.get? pg.indexes index

/-- `self.nodes[&project.id].index`, which panics on a project not in the graph. -/
def nodeIndexOf (project : Project) : Option ℕ := (IndexMap.get? pg.nodes project.id).map (·.index)

/-- `ProjectGraph::partitioned_neighbors_of`: the ids of a project's direct relations in a
partition. -/
def partitionedNeighborsOf (project : Project) (partition : ScopePartition)
    (direction : Direction) : Option (List String) := do
  let index ← pg.nodeIndexOf project
  ((pg.partitionedGraph partition).graph.neighborsDirected index direction).mapM
    fun index ↦ IndexMap.get? pg.indexes index

/-- `ProjectGraph::partitioned_dependencies_of`. -/
def partitionedDependenciesOf (project : Project) (partition : ScopePartition) :
    Option (List String) :=
  pg.partitionedNeighborsOf project partition .outgoing

/-- `ProjectGraph::partitioned_dependents_of`. -/
def partitionedDependentsOf (project : Project) (partition : ScopePartition) :
    Option (List String) :=
  pg.partitionedNeighborsOf project partition .incoming

/-- `ProjectGraph::partitioned_traverse`: breadth first from the project's node through a
partition, the ids of the nodes it reaches, in the order it reaches them.  The loop runs until the
queue is empty; `n + 1` rounds are enough on a graph of `n` nodes (`partitionedTraverse_spec`). -/
def partitionedTraverse (project : Project) (partition : ScopePartition) (direction : Direction) :
    Option (List String) := do
  let start ← pg.nodeIndexOf project
  let graph := (pg.partitionedGraph partition).graph
  Bfs.traverse (graph.neighborsDirected · direction) (IndexMap.get? pg.indexes) start
    (graph.nodes.length + 1)

/-- `ProjectGraph::partitioned_deep_dependencies_of`. -/
def partitionedDeepDependenciesOf (project : Project) (partition : ScopePartition) :
    Option (List String) :=
  pg.partitionedTraverse project partition .outgoing

/-- `ProjectGraph::partitioned_deep_dependents_of`. -/
def partitionedDeepDependentsOf (project : Project) (partition : ScopePartition) :
    Option (List String) :=
  pg.partitionedTraverse project partition .incoming

/-- The maps agree with the union graph: `indexes` has an id for exactly the node indices, the
node of that id has that index back, and every node's project has the id it is filed under. -/
structure Labelled : Prop where
  indexes_isSome : ∀ i, (IndexMap.get? pg.indexes i).isSome ↔ i < pg.graph.nodes.length
  node_of_index : ∀ i id, IndexMap.get? pg.indexes i = some id →
    ∃ node, IndexMap.get? pg.nodes id = some node ∧ node.index = i
  index_of_node : ∀ id node, IndexMap.get? pg.nodes id = some node →
    IndexMap.get? pg.indexes node.index = some id ∧ node.project.id = id

variable {pg}

/-- A lookup that succeeds on every item maps the list. -/
theorem mapM_option_eq_map {α β : Type} {f : α → Option β} {g : α → β} :
    ∀ {l : List α}, (∀ a ∈ l, f a = some (g a)) → l.mapM f = some (l.map g)
  | [], _ => rfl
  | a :: l, h => by
    rw [List.mapM_cons, h a List.mem_cons_self,
      mapM_option_eq_map fun a' ha' ↦ h a' (List.mem_cons_of_mem a ha')]
    rfl

section Labelled

variable (hl : pg.Labelled)
include hl

/-- Two indices filed under one id are one index. -/
theorem Labelled.index_eq_of_id {i j : ℕ} {id : String}
    (hi : IndexMap.get? pg.indexes i = some id) (hj : IndexMap.get? pg.indexes j = some id) :
    i = j := by
  obtain ⟨node, hnode, rfl⟩ := hl.node_of_index i id hi
  obtain ⟨node', hnode', rfl⟩ := hl.node_of_index j id hj
  rw [hnode, Option.some.injEq] at hnode'
  rw [hnode']

/-- The id of a node index of the union graph. -/
theorem Labelled.exists_id {i : ℕ} (hi : i < pg.graph.nodes.length) :
    ∃ id, IndexMap.get? pg.indexes i = some id :=
  Option.isSome_iff_exists.1 ((hl.indexes_isSome i).2 hi)

variable (hp : pg.Partitioned)
include hp

/-- **`partitioned_toposort` on a labelled partitioned graph** returns every project id once, and
the id of a project's dependency in the partition before the project's. -/
theorem partitionedToposort_spec (partition : ScopePartition) :
    ∃ ids, pg.partitionedToposort partition = some ids ∧ ids.Nodup ∧
      (∀ id, id ∈ ids ↔ (IndexMap.get? pg.nodes id).isSome) ∧
      ∀ id id' node node', IndexMap.get? pg.nodes id = some node →
        IndexMap.get? pg.nodes id' = some node' →
        (node.index, node'.index) ∈ (pg.partitionedGraph partition).graph.pairs →
        List.Sublist [id', id] ids := by
  let G := (pg.partitionedGraph partition).graph
  have hlen : G.nodes.length = pg.graph.nodes.length := by rw [hp.partition_nodes partition]
  -- the partition is a DAG, so it sorts
  obtain ⟨indices, hsort⟩ := Option.isSome_iff_exists.1 (toposort_partitionedGraph_isSome partition)
  obtain ⟨hnodup, hmem, hfwd⟩ := DiGraph.toposort_spec hsort
  let label i := (IndexMap.get? pg.indexes i).getD ""
  have hlabel : ∀ i, i < G.nodes.length → IndexMap.get? pg.indexes i = some (label i) := by
    intro i hi
    obtain ⟨id, hid⟩ := hl.exists_id (hlen ▸ hi)
    simp [label, hid]
  have hids : pg.partitionedToposort partition = some (indices.reverse.map label) := by
    rw [partitionedToposort, hsort, Option.bind_eq_bind, Option.bind_some]
    exact mapM_option_eq_map fun i hi ↦ hlabel i ((hmem i).1 (List.mem_reverse.1 hi))
  refine ⟨_, hids, ?_, fun id ↦ ?_, fun id id' node node' hnode hnode' hedge ↦ ?_⟩
  · -- ids tell node indices apart
    refine (List.nodup_reverse.2 hnodup).map_on fun i hi j hj hij ↦ ?_
    have hi' := hlabel i ((hmem i).1 (List.mem_reverse.1 hi))
    have hj' := hlabel j ((hmem j).1 (List.mem_reverse.1 hj))
    exact hl.index_eq_of_id hi' (hij ▸ hj')
  · simp only [List.mem_map, List.mem_reverse, hmem]
    constructor
    · rintro ⟨i, hi, rfl⟩
      obtain ⟨node, hnode, -⟩ := hl.node_of_index i _ (hlabel i hi)
      simp [hnode]
    · intro h
      obtain ⟨node, hnode⟩ := Option.isSome_iff_exists.1 h
      have hidx := (hl.index_of_node id node hnode).1
      have hlt : node.index < G.nodes.length := hlen ▸ (hl.indexes_isSome _).1 (by simp [hidx])
      refine ⟨node.index, hlt, ?_⟩
      rw [hlabel _ hlt, Option.some.injEq] at hidx
      exact hidx
  · -- the sort sends the edge forward, so the reversed ids put the dependency first
    have hsub := (hfwd _ _ hedge).reverse.map label
    have hl₁ := (hl.index_of_node id node hnode).1
    have hl₂ := (hl.index_of_node id' node' hnode').1
    rw [hlabel _ (DiGraph.lt_of_mem_pairs hedge).1, Option.some.injEq] at hl₁
    rw [hlabel _ (DiGraph.lt_of_mem_pairs hedge).2, Option.some.injEq] at hl₂
    simpa [hl₁, hl₂] using hsub

/-- **`partitioned_traverse` on a labelled partitioned graph**, from a project of the graph,
returns the ids of the projects reachable from it in the partition by one edge or more, each
once. -/
theorem partitionedTraverse_spec {project : Project} {node : ProjectNode}
    (hnode : IndexMap.get? pg.nodes project.id = some node) (partition : ScopePartition)
    (direction : Direction) :
    ∃ ids, pg.partitionedTraverse project partition direction = some ids ∧ ids.Nodup ∧
      ∀ id, id ∈ ids ↔ ∃ node', IndexMap.get? pg.nodes id = some node' ∧
        Relation.TransGen ((pg.partitionedGraph partition).graph.Step direction) node.index
          node'.index := by
  let G := (pg.partitionedGraph partition).graph
  have hlen : G.nodes.length = pg.graph.nodes.length := by rw [hp.partition_nodes partition]
  have hU : ∀ a, ∀ b ∈ G.neighborsDirected a direction, b ∈ Finset.range G.nodes.length :=
    fun a b hb ↦ Finset.mem_range.2 (DiGraph.lt_of_step hb)
  -- every node reached is a node of the graph, so it has an id
  have hlabel : ∀ x, Relation.TransGen (Bfs.Step (G.neighborsDirected · direction)) node.index x →
      (IndexMap.get? pg.indexes x).isSome := by
    intro x hx
    obtain ⟨y, -, hyx⟩ := Relation.TransGen.tail'_iff.1 hx
    exact (hl.indexes_isSome x).2 (hlen ▸ DiGraph.lt_of_step hyx)
  obtain ⟨order, htraverse, hnodup, hmem, -⟩ :=
    Bfs.traverse_spec hU hlabel (by rw [Finset.card_range])
  have hstart : pg.nodeIndexOf project = some node.index := by simp [nodeIndexOf, hnode]
  refine ⟨_, by rw [partitionedTraverse, hstart, Option.bind_eq_bind, Option.bind_some]; exact htraverse,
    hnodup.filterMap fun a a' b hb hb' ↦ hl.index_eq_of_id hb hb', fun id ↦ ?_⟩
  rw [List.mem_filterMap]
  constructor
  · rintro ⟨x, hx, hid⟩
    obtain ⟨node', hnode', rfl⟩ := hl.node_of_index x id hid
    exact ⟨node', hnode', ((hmem _).1 hx).1⟩
  · rintro ⟨node', hnode', hreach⟩
    -- the start is on no cycle of the DAG, so what is reached is not the start
    have hne : node'.index ≠ node.index := fun h ↦
      Dag.not_transGen_step_self _ direction node.index (h ▸ hreach)
    exact ⟨node'.index, (hmem _).2 ⟨hreach, hne⟩, (hl.index_of_node id node' hnode').1⟩

end Labelled

/-- Two projects, the first depending on the second in production. -/
def twoProjectsGraph : DiGraph ℕ DependencyScope :=
  ⟨[0, 1], [⟨0, 1, .production⟩], by decide⟩

/-- `set_graph` accepts the graph on a project graph whose maps are empty, and the production sort
of the result then panics at its first lookup in `indexes`. -/
theorem toposort_without_indexes_panics :
    ∃ pg', default.setGraph twoProjectsGraph = .ok pg' ∧
      pg'.partitionedToposort .production = none :=
  ⟨_, rfl, rfl⟩

end IndexedProjectGraph

end Moon
