import Moon.Project.Project
import Moon.Lib.Reach

/-!
# The project graph and its two partitions

`crates/project-graph/src/project_graph.rs`.  The project graph is a petgraph `DiGraph` whose
edges carry the `DependencyScope` of the dependency.  Its scopes fall into two partitions,
production (`Production`, `Peer`) and development (the rest), and only each partition is required
to be acyclic: a cycle that crosses from one to the other is allowed.

* `would_cycle_in_scope` asks whether a path leads back from the target to the source along the
  edges of the new edge's partition (`wouldCycleInScope`).  An edge added when it says no keeps
  both partitions acyclic (`acyclic_partitionEdges_addEdge`).
* `ProjectGraph::set_graph` routes every edge into a DAG of its partition, and each DAG refuses an
  edge that would close a cycle.  When both partitions are acyclic, no edge is refused
  (`setGraph_of_acyclic`).

Node indices stand for the ids of their projects here: the builder gives each id one node.
-/

set_option autoImplicit false

namespace Moon

/-- An edge of the project graph: the project that depends, the project it depends on, and the
scope of the dependency. -/
structure ProjectEdge where
  source : String
  target : String
  scope : DependencyScope
  deriving DecidableEq, Repr

/-- `ProjectGraphError`, with the variants the modelled functions return. -/
inductive ProjectGraphError where
  | unconfiguredId (id : String)
  | wouldCycle (sourceId targetId : String)
  deriving DecidableEq, Repr

/-- The message each variant displays. -/
def ProjectGraphError.message : ProjectGraphError → String
  | .unconfiguredId id => "No project has been configured with the identifier or alias " ++ id ++ "."
  | .wouldCycle sourceId targetId =>
    "Unable to create project graph, adding a relationship from " ++ sourceId ++ " to " ++
      targetId ++ " would introduce a cycle."

/-- The edges of one partition (production when `production` holds), as pairs: the
`EdgeFiltered` view on `is_production_group() == partition`. -/
def partitionEdges (edges : List ProjectEdge) (production : Bool) : List (String × String) :=
  (edges.filter fun e ↦ e.scope.isProductionGroup == production).map fun e ↦ (e.source, e.target)

/-- `would_cycle_in_scope`: is there a path from `target` back to `source` in the partition of
`scope`? -/
def wouldCycleInScope (edges : List ProjectEdge) (source target : String)
    (scope : DependencyScope) : Bool :=
  EdgeList.hasPath (partitionEdges edges scope.isProductionGroup) target source

@[simp] theorem partitionEdges_nil (production : Bool) : partitionEdges [] production = [] := rfl

theorem partitionEdges_cons (e : ProjectEdge) (edges : List ProjectEdge) (production : Bool) :
    partitionEdges (e :: edges) production
      = (if e.scope.isProductionGroup = production then [(e.source, e.target)] else [])
        ++ partitionEdges edges production := by
  by_cases h : e.scope.isProductionGroup = production <;> simp [partitionEdges, h]

theorem partitionEdges_append (edges edges' : List ProjectEdge) (production : Bool) :
    partitionEdges (edges ++ edges') production
      = partitionEdges edges production ++ partitionEdges edges' production := by
  simp [partitionEdges]

theorem partitionEdges_mono {edges edges' : List ProjectEdge} (h : edges <+: edges')
    (production : Bool) : ∀ e ∈ partitionEdges edges production, e ∈ partitionEdges edges' production := by
  obtain ⟨rest, rfl⟩ := h
  intro e he
  rw [partitionEdges_append]
  exact List.mem_append_left _ he

theorem wouldCycleInScope_eq_false {edges : List ProjectEdge} {source target : String}
    {scope : DependencyScope} :
    wouldCycleInScope edges source target scope = false
      ↔ ¬ EdgeList.Reach (partitionEdges edges scope.isProductionGroup) target source := by
  rw [wouldCycleInScope, ← EdgeList.hasPath_iff, Bool.not_eq_true]

/-- **An edge that `would_cycle_in_scope` lets through keeps both partitions acyclic**: its own,
by the rule for adding an edge, and the other, which it does not enter. -/
theorem acyclic_partitionEdges_addEdge {edges : List ProjectEdge}
    (hac : ∀ production, EdgeList.Acyclic (partitionEdges edges production)) {e : ProjectEdge}
    (he : wouldCycleInScope edges e.source e.target e.scope = false) (production : Bool) :
    EdgeList.Acyclic (partitionEdges (edges ++ [e]) production) := by
  rw [partitionEdges_append, partitionEdges_cons, partitionEdges_nil, List.append_nil]
  by_cases hp : e.scope.isProductionGroup = production
  · subst hp
    rw [if_pos rfl]
    exact EdgeList.acyclic_append_singleton (hac _) (wouldCycleInScope_eq_false.1 he)
  · rw [if_neg hp, List.append_nil]
    exact hac production

/-! ## `set_graph` -/

/-- What `set_graph` stores: the whole graph, and a DAG of each partition. -/
structure ProjectGraph where
  graph : List ProjectEdge
  productionGraph : List (String × String)
  developmentGraph : List (String × String)
  deriving DecidableEq, Repr

/-- Route one edge into the DAG of its partition; the DAG refuses an edge that would close a
cycle. -/
def routeEdge (graphs : List (String × String) × List (String × String)) (edge : ProjectEdge) :
    Except ProjectGraphError (List (String × String) × List (String × String)) :=
  let partitioned := if edge.scope.isProductionGroup then graphs.1 else graphs.2
  match EdgeList.addEdge partitioned edge.source edge.target with
  | some partitioned =>
    .ok (if edge.scope.isProductionGroup then (partitioned, graphs.2) else (graphs.1, partitioned))
  | none => .error (.wouldCycle edge.source edge.target)

/-- `ProjectGraph::set_graph`: mirror the nodes into both DAGs, then route every edge. -/
def setGraph (graph : List ProjectEdge) : Except ProjectGraphError ProjectGraph :=
  (graph.foldlM routeEdge ([], [])).map fun graphs ↦ ⟨graph, graphs.1, graphs.2⟩

/-- Routing edges into DAGs that, with the edges of each partition, stay acyclic refuses none. -/
theorem foldlM_routeEdge_of_acyclic :
    ∀ (edges : List ProjectEdge) (production development : List (String × String)),
      EdgeList.Acyclic (production ++ partitionEdges edges true) →
      EdgeList.Acyclic (development ++ partitionEdges edges false) →
      edges.foldlM routeEdge (production, development)
        = .ok (production ++ partitionEdges edges true, development ++ partitionEdges edges false)
  | [], production, development, _, _ => by
    rw [List.foldlM_nil, partitionEdges_nil, partitionEdges_nil, List.append_nil, List.append_nil]
    rfl
  | e :: edges, production, development, hprod, hdev => by
    rw [partitionEdges_cons] at hprod hdev
    rw [List.foldlM_cons, partitionEdges_cons, partitionEdges_cons]
    cases hp : e.scope.isProductionGroup with
    | true =>
      -- a production edge: the production DAG takes it
      simp only [hp, if_true, Bool.true_eq_false, if_false, List.nil_append,
        List.singleton_append] at hprod hdev ⊢
      have hassoc : production ++ (e.source, e.target) :: partitionEdges edges true
          = (production ++ [(e.source, e.target)]) ++ partitionEdges edges true := by simp
      simp only [routeEdge, hp, if_true, EdgeList.addEdge_of_acyclic hprod]
      rw [hassoc] at hprod ⊢
      exact foldlM_routeEdge_of_acyclic edges _ _ hprod hdev
    | false =>
      simp only [hp, if_true, Bool.false_eq_true, if_false, List.nil_append,
        List.singleton_append] at hprod hdev ⊢
      have hassoc : development ++ (e.source, e.target) :: partitionEdges edges false
          = (development ++ [(e.source, e.target)]) ++ partitionEdges edges false := by simp
      simp only [routeEdge, hp, Bool.false_eq_true, if_false, EdgeList.addEdge_of_acyclic hdev]
      rw [hassoc] at hdev ⊢
      exact foldlM_routeEdge_of_acyclic edges _ _ hprod hdev

/-- **`set_graph` accepts a graph whose partitions are acyclic**, and stores each partition as
its DAG. -/
theorem setGraph_of_acyclic {graph : List ProjectEdge}
    (hac : ∀ production, EdgeList.Acyclic (partitionEdges graph production)) :
    setGraph graph = .ok ⟨graph, partitionEdges graph true, partitionEdges graph false⟩ := by
  rw [setGraph, foldlM_routeEdge_of_acyclic graph [] [] (hac true) (hac false)]
  rfl

end Moon
