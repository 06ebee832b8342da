import Moon.ProjectGraph.ProjectGraph
import Moon.Lib.Outcome
import Mathlib.Data.Finset.Card

/-!
# Loading projects into the workspace graph

`crates/workspace/src/workspace_builder.rs`, the lazy builder.  `load_projects` calls
`load_project` on every key of `project_data`; `load_project` loads one project and, depth first,
the projects it depends on (`internal_load_project`), then connects the edges it deferred
(`connect_deferred_project_edges`).

`internal_load_project` is given an id or an alias, and resolves it first (`resolve_id`).  It
gives a project its node, in the `Loading` state, and keeps a set `cycle` of the ids being loaded,
shared by the whole recursion.  A dependency whose configured id is in that set is being loaded
further up the stack: its edge is deferred until the graph is whole.  Any other dependency is
loaded, and its edge added, unless `would_cycle_in_scope` finds that it would close a cycle within
its partition: then the load fails with `WouldCycle`.  When a project is done, its node becomes
`Loaded` and the set is cleared.  A deferred edge is added at the end unless it would close a
cycle in its partition, and is dropped otherwise.

The set is searched for a dependency's text, but holds resolved ids: a dependency named by an
alias of a project further up the stack is not found there, is loaded, resolves to a project in
the set, and comes back empty, so its edge is dropped without being deferred.

What loading guarantees, whatever the configuration (`loadProjects_complete`):

* both partitions of the graph are acyclic, so that `set_graph` in `build` takes every edge
  (`buildProjectGraph_of_complete`);
* every edge is a dependency that a project declares, to the project it resolves to, not on the
  root project;
* every declared dependency that names a configured id and is not on the root project is an
  edge, or would close a cycle within its partition.

Which edge of a cycle is dropped depends on the order of loading.  And since the set `cycle` is
cleared as soon as any project is done, not only the outermost one, a project loaded after a
sibling no longer sees its ancestors in it: it links an edge to an ancestor directly, and the
ancestor's own edge may then fail with `WouldCycle`.

Node indices are the ids of their projects here (`project_data` gives each id at most one), and
the recursion is bounded by fuel, which `load_project` passes enough of (`loadProject_ne_none`).
-/

set_option autoImplicit false

namespace Moon

/-- `NodeState`: a project's node is `Loading` from the moment it has an index until its
dependencies are linked. -/
inductive NodeState where
  | loading
  | loaded
  deriving DecidableEq, Repr

/-- The nodes of a graph the builder loads, by key, in the order they were added, with their
state. -/
abbrev NodeList (κ : Type) := List (κ × NodeState)

namespace NodeList

variable {κ : Type} [DecidableEq κ] (nodes : NodeList κ)

/-- The keys that have a node. -/
def ids : List κ := nodes.map Prod.fst

/-- `add_node(NodeState::Loading)`. -/
def add (id : κ) : NodeList κ := nodes ++ [(id, .loading)]

/-- The node of `id` takes the state `NodeState::Loaded`. -/
def setLoaded (id : κ) : NodeList κ :=
  nodes.map fun node ↦ if node.1 = id then (id, .loaded) else node

omit [DecidableEq κ] in
@[simp] theorem ids_add (id : κ) : (nodes.add id).ids = nodes.ids ++ [id] := by
  simp [add, ids]

@[simp] theorem ids_setLoaded (id : κ) : (nodes.setLoaded id).ids = nodes.ids := by
  simp only [setLoaded, ids, List.map_map]
  congr 1
  funext node
  by_cases h : node.1 = id <;> simp [h]

omit [DecidableEq κ] in
theorem mem_add {node : κ × NodeState} (h : node ∈ nodes) (id : κ) : node ∈ nodes.add id :=
  List.mem_append_left _ h

/-- Setting a node loaded keeps every loaded node loaded, and loads the node of `id`. -/
theorem mem_setLoaded {id y : κ} (h : (y, NodeState.loaded) ∈ nodes ∨ y = id)
    (hy : y ∈ nodes.ids) : (y, NodeState.loaded) ∈ nodes.setLoaded id := by
  rw [setLoaded, List.mem_map]
  rcases h with h | rfl
  · refine ⟨(y, .loaded), h, ?_⟩
    by_cases hyid : y = id <;> simp [hyid]
  · obtain ⟨node, hnode, rfl⟩ := List.mem_map.1 hy
    exact ⟨node, hnode, by simp⟩

/-- The keys without a node: what a depth-first load can still visit. -/
def unvisited (keys : List κ) : ℕ := (keys.toFinset.filter (· ∉ nodes.ids)).card

variable {nodes} {nodes' : NodeList κ} {keys : List κ}

/-- More nodes, fewer keys without one. -/
theorem unvisited_le (h : ∀ y ∈ nodes.ids, y ∈ nodes'.ids) :
    nodes'.unvisited keys ≤ nodes.unvisited keys := by
  refine Finset.card_le_card fun y hy ↦ ?_
  rw [Finset.mem_filter] at hy ⊢
  exact ⟨hy.1, fun hy' ↦ hy.2 (h y hy')⟩

/-- A key given a node is one fewer without. -/
theorem unvisited_add_lt {x : κ} (hx : x ∈ keys) (hn : x ∉ nodes.ids) :
    (nodes.add x).unvisited keys < nodes.unvisited keys := by
  refine Finset.card_lt_card ((Finset.ssubset_iff_of_subset fun y hy ↦ ?_).2 ⟨x, ?_, ?_⟩)
  · rw [Finset.mem_filter] at hy ⊢
    exact ⟨hy.1, fun hy' ↦ hy.2 (by simp [hy'])⟩
  · simp [hx, hn]
  · simp

theorem unvisited_le_length : nodes.unvisited keys ≤ keys.length :=
  (Finset.card_filter_le _ _).trans (List.toFinset_card_le _)

end NodeList

/-- The part of `WorkspaceBuilder` that loading projects reads and writes: the nodes of the
project graph by project id (the ids whose `project_data` entry has a `node_index`), the edges of
the graph, and the deferred edges. -/
structure WorkspaceBuilder where
  nodes : NodeList String := []
  edges : List ProjectEdge := []
  deferredProjectEdges : List ProjectEdge := []
  deriving DecidableEq, Repr

/-- What loading reads of a configured project: the aliases of its `ProjectBuildData` (the keys of
its map of aliases), and the dependencies `build_project` gives the project. -/
structure ProjectBuildData where
  aliases : List String := []
  dependencies : List ProjectDependencyConfig := []
  deriving DecidableEq, Repr

/-- What loading reads of `project_data`: each key, in its iteration order, with its build data. -/
abbrev ProjectData := List (String × ProjectBuildData)

/-- `ProjectBuildData::resolve_id`: a key of `project_data` is itself; other text names the first
project, in the iteration order, that has it as an alias, or else stands as it is. -/
def resolveId (data : ProjectData) (idOrAlias : String) : String :=
  if data.any (·.1 == idOrAlias) then idOrAlias
  else ((data.find? fun entry ↦ entry.2.aliases.contains idOrAlias).map Prod.fst).getD idOrAlias

/-- A key of `project_data` resolves to itself. -/
theorem resolveId_of_mem {data : ProjectData} {id : String} (h : id ∈ data.map Prod.fst) :
    resolveId data id = id := by
  have hany : data.any (·.1 == id) = true := by
    obtain ⟨entry, hentry, rfl⟩ := List.mem_map.1 h
    exact List.any_eq_true.2 ⟨entry, hentry, beq_self_eq_true _⟩
  rw [resolveId, if_pos hany]

namespace WorkspaceBuilder

variable (b : WorkspaceBuilder)

/-- The ids that have a node. -/
def nodeIds : List String := b.nodes.ids

/-- `project_graph.add_node(NodeState::Loading)`, with the index stored in `project_data`. -/
def addNode (id : String) : WorkspaceBuilder := { b with nodes := b.nodes.add id }

/-- The node of `id` takes the state `NodeState::Loaded`. -/
def setLoaded (id : String) : WorkspaceBuilder := { b with nodes := b.nodes.setLoaded id }

/-- `project_graph.add_edge`. -/
def addEdge (edge : ProjectEdge) : WorkspaceBuilder := { b with edges := b.edges ++ [edge] }

/-- `deferred_project_edges.push`. -/
def deferEdge (edge : ProjectEdge) : WorkspaceBuilder :=
  { b with deferredProjectEdges := b.deferredProjectEdges ++ [edge] }

/-- One turn of the loop of `connect_deferred_project_edges`: add the edge unless it would close
a cycle within its partition. -/
def connectEdge (edge : ProjectEdge) : WorkspaceBuilder :=
  if wouldCycleInScope b.edges edge.source edge.target edge.scope then b else b.addEdge edge

/-- `connect_deferred_project_edges`: take the deferred edges, and connect each. -/
def connectDeferredProjectEdges : WorkspaceBuilder :=
  b.deferredProjectEdges.foldl connectEdge { b with deferredProjectEdges := [] }

/-- Is the node of `id` loaded? -/
def isLoaded (id : String) : Bool := (id, NodeState.loaded) ∈ b.nodes

/-- The project graph of `build`: the nodes still `Loading` are dropped with their edges
(`filter_map`), and `set_graph` takes the rest. -/
def buildProjectGraph : Except ProjectGraphError ProjectGraph :=
  setGraph (b.edges.filter fun e ↦ b.isLoaded e.source && b.isLoaded e.target)

@[simp] theorem addNode_edges (id : String) : (b.addNode id).edges = b.edges := rfl
@[simp] theorem addNode_deferred (id : String) :
    (b.addNode id).deferredProjectEdges = b.deferredProjectEdges := rfl
@[simp] theorem nodeIds_addNode (id : String) : (b.addNode id).nodeIds = b.nodeIds ++ [id] :=
  NodeList.ids_add _ id
@[simp] theorem setLoaded_edges (id : String) : (b.setLoaded id).edges = b.edges := rfl
@[simp] theorem setLoaded_deferred (id : String) :
    (b.setLoaded id).deferredProjectEdges = b.deferredProjectEdges := rfl
@[simp] theorem nodeIds_setLoaded (id : String) : (b.setLoaded id).nodeIds = b.nodeIds :=
  NodeList.ids_setLoaded _ id
@[simp] theorem addEdge_edges (e : ProjectEdge) : (b.addEdge e).edges = b.edges ++ [e] := rfl
@[simp] theorem addEdge_deferred (e : ProjectEdge) :
    (b.addEdge e).deferredProjectEdges = b.deferredProjectEdges := rfl
@[simp] theorem addEdge_nodes (e : ProjectEdge) : (b.addEdge e).nodes = b.nodes := rfl
@[simp] theorem deferEdge_edges (e : ProjectEdge) : (b.deferEdge e).edges = b.edges := rfl
@[simp] theorem deferEdge_deferred (e : ProjectEdge) :
    (b.deferEdge e).deferredProjectEdges = b.deferredProjectEdges ++ [e] := rfl
@[simp] theorem deferEdge_nodes (e : ProjectEdge) : (b.deferEdge e).nodes = b.nodes := rfl

end WorkspaceBuilder

/-! ## Loading -/

/-- What `internal_load_project` returns: the project's id (its node), unless it is in the cycle
set; with the cycle set and the builder after the call. -/
abbrev LoadResult := Option String × List String × WorkspaceBuilder

/-- One turn of the loop of `internal_load_project` over the dependencies of project `id`, with
`load` for the recursive call.  The cycle set is searched for the dependency's id as configured,
not as `resolve_id` resolves it. -/
def loadDependency (data : ProjectData)
    (load : String → List String → WorkspaceBuilder → Option (Except ProjectGraphError LoadResult))
    (id : String) (dep : ProjectDependencyConfig) :
    List String × WorkspaceBuilder → Option (Except ProjectGraphError (List String × WorkspaceBuilder))
  | (cycle, b) =>
    if dep.id ∈ cycle then
      -- loaded further up the stack: defer the edge until the graph is whole
      let depId := resolveId data dep.id
      if !dep.isRootScope && depId ∈ b.nodeIds then
        some (.ok (cycle, b.deferEdge ⟨id, depId, dep.scope⟩))
      else some (.ok (cycle, b))
    else
      match load dep.id cycle b with
      | none => none
      | some (.error e) => some (.error e)
      | some (.ok (none, cycle, b)) => some (.ok (cycle, b))
      | some (.ok (some depId, cycle, b)) =>
        -- the root project is loaded but not linked
        if !dep.isRootScope then
          if wouldCycleInScope b.edges id depId dep.scope then
            some (.error (.wouldCycle id depId))
          else some (.ok (cycle, b.addEdge ⟨id, depId, dep.scope⟩))
        else some (.ok (cycle, b))

/-- `internal_load_project`, with fuel for its recursion.  It is given an id or an alias, and
resolves it first. -/
def internalLoadProject (data : ProjectData) :
    ℕ → String → List String → WorkspaceBuilder → Option (Except ProjectGraphError LoadResult)
  | 0, _, _, _ => none
  | fuel + 1, idOrAlias, cycle, b =>
    let id := resolveId data idOrAlias
    if id ∈ cycle then some (.ok (none, cycle, b))
    else
      match data.lookup id with
      | none => some (.error (.unconfiguredId id))
      | some build =>
        -- already loaded, or being loaded: exit early with the existing node
        if id ∈ b.nodeIds then some (.ok (some id, cycle, b))
        else
          match Fueled.forSteps (loadDependency data (internalLoadProject data fuel) id)
              build.dependencies (id :: cycle, b.addNode id) with
          | some (.ok (_, b)) => some (.ok (some id, [], b.setLoaded id))
          | some (.error e) => some (.error e)
          | none => none

/-- `load_project`: load from an empty cycle set, then connect the deferred edges.  A load visits
each configured project once, so the fuel is enough (`loadProject_ne_none`). -/
def loadProject (data : ProjectData) (id : String) (b : WorkspaceBuilder) :
    Option (Except ProjectGraphError WorkspaceBuilder) :=
  match internalLoadProject data (data.length + 1) id [] b with
  | some (.ok (_, _, b)) => some (.ok b.connectDeferredProjectEdges)
  | some (.error e) => some (.error e)
  | none => none

/-- `load_projects`: `load_project` on every key of `project_data`. -/
def loadProjects (data : ProjectData) (b : WorkspaceBuilder) :
    Option (Except ProjectGraphError WorkspaceBuilder) :=
  Fueled.forSteps (loadProject data) (data.map Prod.fst) b

/-! ## What loading keeps -/

section Invariant

variable (data : ProjectData)

/-- An edge that a configuration declares: a dependency of its source that resolves to the edge's
target, with the edge's scope, not on the root project. -/
def Declared (e : ProjectEdge) : Prop :=
  ∃ build, data.lookup e.source = some build ∧
    (∃ dep ∈ build.dependencies, resolveId data dep.id = e.target ∧ dep.scope = e.scope) ∧
      e.scope ≠ .root

/-- An edge of the builder: declared, between two nodes. -/
def Placed (b : WorkspaceBuilder) (e : ProjectEdge) : Prop :=
  Declared data e ∧ e.source ∈ b.nodeIds ∧ e.target ∈ b.nodeIds

/-- What holds of the builder between the steps of loading: both partitions are acyclic, and
every edge, in the graph or deferred, is declared and between nodes. -/
structure Inv (b : WorkspaceBuilder) : Prop where
  acyclic : ∀ production, EdgeList.Acyclic (partitionEdges b.edges production)
  edges : ∀ e ∈ b.edges, Placed data b e
  deferred : ∀ e ∈ b.deferredProjectEdges, Placed data b e

/-- A dependency of `source` is linked: its edge is in the graph or deferred, or it would close a
cycle within its partition. -/
def Linked (b : WorkspaceBuilder) (source : String) (dep : ProjectDependencyConfig) : Prop :=
  ⟨source, dep.id, dep.scope⟩ ∈ b.edges ∨ ⟨source, dep.id, dep.scope⟩ ∈ b.deferredProjectEdges ∨
    EdgeList.Reach (partitionEdges b.edges dep.scope.isProductionGroup) dep.id source

/-- Every dependency of project `y` that names a configured id, not an alias, and is not on the root
project is linked. -/
def Settled (b : WorkspaceBuilder) (y : String) : Prop :=
  ∀ build, data.lookup y = some build → ∀ dep ∈ build.dependencies, dep.isRootScope = false →
    dep.id ∈ data.map Prod.fst → Linked b y dep

/-- `b'` comes from `b` by adding: edges and deferred edges are appended, every node stays, and a
loaded node stays loaded. -/
structure Extends (b b' : WorkspaceBuilder) : Prop where
  edges : b.edges <+: b'.edges
  deferred : b.deferredProjectEdges <+: b'.deferredProjectEdges
  nodes : ∀ y ∈ b.nodeIds, y ∈ b'.nodeIds
  loaded : ∀ y, (y, NodeState.loaded) ∈ b.nodes → (y, NodeState.loaded) ∈ b'.nodes

/-- What a load does, from `b` to `b'`: it adds, and each node it creates ends loaded, with its
dependencies linked. -/
def Grows (b b' : WorkspaceBuilder) : Prop :=
  Extends b b' ∧ ∀ y ∈ b'.nodeIds, y ∉ b.nodeIds → (y, NodeState.loaded) ∈ b'.nodes ∧ Settled data b' y

/-- The configured projects without a node: what a load can still visit. -/
def unloaded (b : WorkspaceBuilder) : ℕ := b.nodes.unvisited (data.map Prod.fst)

/-- What a successful call of `internal_load_project` on `x`, an id or an alias, gives from the
cycle set `cycle` and the builder `b`: the invariant, the builder grown, a cycle set of nodes, and
the id `x` resolves to, with its node, unless that id was in the cycle set. -/
structure LoadPost (x : String) (cycle : List String) (b : WorkspaceBuilder) (r : LoadResult) :
    Prop where
  inv : Inv data r.2.2
  grows : Grows data b r.2.2
  cycleNodes : ∀ y ∈ r.2.1, y ∈ r.2.2.nodeIds
  result : resolveId data x ∈ cycle ∧ r.1 = none ∨
    resolveId data x ∉ cycle ∧ r.1 = some (resolveId data x) ∧ resolveId data x ∈ r.2.2.nodeIds

/-- A loader meets `LoadPost` whenever it succeeds from a builder with the invariant and a cycle
set of nodes. -/
def LoaderSpec
    (load : String → List String → WorkspaceBuilder → Option (Except ProjectGraphError LoadResult)) :
    Prop :=
  ∀ x cycle b r, load x cycle b = some (.ok r) → Inv data b → (∀ y ∈ cycle, y ∈ b.nodeIds) →
    LoadPost data x cycle b r

/-- The state of the loop over the dependencies of project `x`: the invariant, a cycle set of
nodes, and `x` a node. -/
def LoopInv (x : String) (s : List String × WorkspaceBuilder) : Prop :=
  Inv data s.2 ∧ (∀ y ∈ s.1, y ∈ s.2.nodeIds) ∧ x ∈ s.2.nodeIds

/-- What loading leaves whenever no load is running: the invariant, and every node loaded with
its dependencies linked, some of them by a deferred edge. -/
structure Loaded (b : WorkspaceBuilder) : Prop where
  inv : Inv data b
  loaded : ∀ y ∈ b.nodeIds, (y, NodeState.loaded) ∈ b.nodes
  settled : ∀ y ∈ b.nodeIds, Settled data b y

/-- Between two calls of `load_project`: loaded, with nothing deferred. -/
structure Complete (b : WorkspaceBuilder) : Prop extends Loaded data b where
  deferred : b.deferredProjectEdges = []

end Invariant

section Lemmas

variable {data : ProjectData} {b b' b₁ b₂ b₃ : WorkspaceBuilder}

/-! ### Adding -/

theorem Extends.refl (b : WorkspaceBuilder) : Extends b b :=
  ⟨List.prefix_refl _, List.prefix_refl _, fun _ h ↦ h, fun _ h ↦ h⟩

theorem Extends.trans (h₁ : Extends b₁ b₂) (h₂ : Extends b₂ b₃) : Extends b₁ b₃ :=
  ⟨h₁.edges.trans h₂.edges, h₁.deferred.trans h₂.deferred, fun y hy ↦ h₂.nodes y (h₁.nodes y hy),
    fun y hy ↦ h₂.loaded y (h₁.loaded y hy)⟩

theorem extends_addNode (id : String) : Extends b (b.addNode id) :=
  ⟨List.prefix_refl _, List.prefix_refl _, fun y hy ↦ by simp [hy], fun _ hy ↦ b.nodes.mem_add hy id⟩

theorem extends_addEdge (e : ProjectEdge) : Extends b (b.addEdge e) :=
  ⟨List.prefix_append _ _, List.prefix_refl _, fun _ h ↦ h, fun _ h ↦ h⟩

theorem extends_deferEdge (e : ProjectEdge) : Extends b (b.deferEdge e) :=
  ⟨List.prefix_refl _, List.prefix_append _ _, fun _ h ↦ h, fun _ h ↦ h⟩

theorem extends_setLoaded (id : String) : Extends b (b.setLoaded id) :=
  ⟨List.prefix_refl _, List.prefix_refl _, fun y hy ↦ by simpa using hy,
    fun y hy ↦ NodeList.mem_setLoaded b.nodes (.inl hy) (List.mem_map.2 ⟨_, hy, rfl⟩)⟩

theorem Placed.mono {e : ProjectEdge} (h : Extends b b') (hp : Placed data b e) : Placed data b' e :=
  ⟨hp.1, h.nodes _ hp.2.1, h.nodes _ hp.2.2⟩

theorem Linked.mono (h : Extends b b') {source : String} {dep : ProjectDependencyConfig}
    (hl : Linked b source dep) : Linked b' source dep := by
  rcases hl with he | hd | hr
  · exact .inl (h.edges.subset he)
  · exact .inr (.inl (h.deferred.subset hd))
  · exact .inr (.inr (EdgeList.Reach.mono (partitionEdges_mono h.edges _) hr))

theorem Settled.mono (h : Extends b b') {y : String} (hs : Settled data b y) : Settled data b' y :=
  fun build hd dep hdep hroot hid ↦ (hs build hd dep hdep hroot hid).mono h

theorem Grows.refl (b : WorkspaceBuilder) : Grows data b b :=
  ⟨Extends.refl b, fun _ hy hy' ↦ absurd hy hy'⟩

theorem Grows.trans (h₁ : Grows data b₁ b₂) (h₂ : Grows data b₂ b₃) : Grows data b₁ b₃ := by
  refine ⟨h₁.1.trans h₂.1, fun y hy₃ hy₁ ↦ ?_⟩
  by_cases hy₂ : y ∈ b₂.nodeIds
  · obtain ⟨hl, hs⟩ := h₁.2 y hy₂ hy₁
    exact ⟨h₂.1.loaded y hl, hs.mono h₂.1⟩
  · exact h₂.2 y hy₃ hy₂

/-- A step that creates no node grows the builder when it extends it. -/
theorem Grows.of_extends (h : Extends b b') (hnodes : b'.nodeIds = b.nodeIds) : Grows data b b' :=
  ⟨h, fun _ hy hy' ↦ absurd (hnodes ▸ hy) hy'⟩

/-! ### The invariant, step by step -/

theorem Inv.addNode (hinv : Inv data b) (id : String) : Inv data (b.addNode id) :=
  ⟨hinv.acyclic, fun e he ↦ (hinv.edges e he).mono (extends_addNode id),
    fun e he ↦ (hinv.deferred e he).mono (extends_addNode id)⟩

theorem Inv.setLoaded (hinv : Inv data b) (id : String) : Inv data (b.setLoaded id) :=
  ⟨hinv.acyclic, fun e he ↦ (hinv.edges e he).mono (extends_setLoaded id),
    fun e he ↦ (hinv.deferred e he).mono (extends_setLoaded id)⟩

theorem Inv.deferEdge (hinv : Inv data b) {e : ProjectEdge} (he : Placed data b e) :
    Inv data (b.deferEdge e) := by
  refine ⟨hinv.acyclic, hinv.edges, fun e' he' ↦ ?_⟩
  rcases List.mem_append.1 he' with he' | he'
  · exact hinv.deferred e' he'
  · rw [List.mem_singleton.1 he']
    exact he

/-- An edge that `would_cycle_in_scope` lets through keeps the invariant. -/
theorem Inv.addEdge (hinv : Inv data b) {e : ProjectEdge} (he : Placed data b e)
    (hw : wouldCycleInScope b.edges e.source e.target e.scope = false) : Inv data (b.addEdge e) := by
  refine ⟨acyclic_partitionEdges_addEdge hinv.acyclic hw, fun e' he' ↦ ?_, hinv.deferred⟩
  rcases List.mem_append.1 he' with he' | he'
  · exact hinv.edges e' he'
  · rw [List.mem_singleton.1 he']
    exact he

/-- The edge of a dependency of `x` to the project it resolves to, declared when its scope is not
root. -/
theorem declared_of_mem {x : String} {build : ProjectBuildData}
    (hx : data.lookup x = some build) {dep : ProjectDependencyConfig}
    (hdep : dep ∈ build.dependencies) (hroot : dep.isRootScope = false) :
    Declared data ⟨x, resolveId data dep.id, dep.scope⟩ := by
  refine ⟨build, hx, ⟨dep, hdep, rfl, rfl⟩, fun h ↦ ?_⟩
  have hscope : dep.scope = .root := h
  simp [ProjectDependencyConfig.isRootScope, hscope] at hroot

/-! ### Loading one project -/

variable {load : String → List String → WorkspaceBuilder → Option (Except ProjectGraphError LoadResult)}
  {x : String} {build : ProjectBuildData}

/-- **One dependency.**  Deferring an edge, adding one that `would_cycle_in_scope` lets through,
dropping one whose project is in the cycle set, and the recursive load all keep the loop's
invariant and grow the builder, and each leaves the dependency linked, unless it is on the root
project or named by an alias. -/
theorem loadDependency_spec (hload : LoaderSpec data load) (hx : data.lookup x = some build)
    {dep : ProjectDependencyConfig} (hdep : dep ∈ build.dependencies)
    {s s' : List String × WorkspaceBuilder} (h : loadDependency data load x dep s = some (.ok s'))
    (hs : LoopInv data x s) :
    LoopInv data x s' ∧ Grows data s.2 s'.2 ∧
      (dep.isRootScope = false → dep.id ∈ data.map Prod.fst → Linked s'.2 x dep) := by
  obtain ⟨cycle, b⟩ := s
  obtain ⟨hinv, hcycle, hxb⟩ := hs
  by_cases hc : dep.id ∈ cycle
  · simp only [loadDependency, if_pos hc] at h
    by_cases hd : (!dep.isRootScope && decide (resolveId data dep.id ∈ b.nodeIds)) = true
    · -- the edge is deferred
      rw [if_pos hd] at h
      cases h
      simp only [Bool.and_eq_true, Bool.not_eq_true', decide_eq_true_eq] at hd
      have hplaced : Placed data b ⟨x, resolveId data dep.id, dep.scope⟩ :=
        ⟨declared_of_mem hx hdep hd.1, hxb, hd.2⟩
      exact ⟨⟨hinv.deferEdge hplaced, hcycle, hxb⟩, Grows.of_extends (extends_deferEdge _) rfl,
        fun _ hid ↦ .inr (.inl (by simp [resolveId_of_mem hid]))⟩
    · -- skipped: an id in the cycle set has a node, so the dependency is on the root project
      rw [if_neg hd] at h
      cases h
      refine ⟨⟨hinv, hcycle, hxb⟩, Grows.refl b, fun hroot hid ↦ absurd ?_ hd⟩
      simp [hroot, resolveId_of_mem hid, hcycle _ hc]
  · simp only [loadDependency, if_neg hc] at h
    cases hl : load dep.id cycle b with
    | none => simp [hl] at h
    | some r =>
      cases r with
      | error e => simp [hl] at h
      | ok r =>
        obtain ⟨ro, cycle', b'⟩ := r
        have post := hload _ _ _ _ hl hinv hcycle
        have hxb' : x ∈ b'.nodeIds := post.grows.1.nodes x hxb
        simp only [hl] at h
        rcases post.result with ⟨hin, rfl⟩ | ⟨-, rfl, hdepb'⟩
        · -- its project is in the cycle set though its text is not: an alias, and the edge is
          -- dropped
          cases h
          refine ⟨⟨post.inv, post.cycleNodes, hxb'⟩, post.grows, fun _ hid ↦ absurd ?_ hc⟩
          rwa [resolveId_of_mem hid] at hin
        cases hroot : dep.isRootScope with
        | true =>
          simp only [hroot, Bool.not_true, Bool.false_eq_true, if_false] at h
          cases h
          exact ⟨⟨post.inv, post.cycleNodes, hxb'⟩, post.grows, fun h' ↦ nomatch h'⟩
        | false =>
          cases hw : wouldCycleInScope b'.edges x (resolveId data dep.id) dep.scope with
          | true => simp [hroot, hw] at h
          | false =>
            simp only [hroot, hw, Bool.not_false, Bool.false_eq_true, if_true, if_false] at h
            cases h
            have hplaced : Placed data b' ⟨x, resolveId data dep.id, dep.scope⟩ :=
              ⟨declared_of_mem hx hdep hroot, hxb', hdepb'⟩
            exact ⟨⟨post.inv.addEdge hplaced hw, post.cycleNodes, hxb'⟩,
              post.grows.trans (Grows.of_extends (extends_addEdge _) rfl),
              fun _ hid ↦ .inl (by simp [resolveId_of_mem hid])⟩

/-- **The loop over the dependencies**, by the loop rule: it keeps the invariant, grows the
builder, and leaves every dependency that names an id and is not on the root project linked. -/
theorem forSteps_loadDependency (hload : LoaderSpec data load) (hx : data.lookup x = some build)
    {s s' : List String × WorkspaceBuilder}
    (h : Fueled.forSteps (loadDependency data load x) build.dependencies s = some (.ok s'))
    (hs : LoopInv data x s) :
    LoopInv data x s' ∧ Grows data s.2 s'.2 ∧
      ∀ dep ∈ build.dependencies, dep.isRootScope = false → dep.id ∈ data.map Prod.fst →
        Linked s'.2 x dep :=
  Fueled.forSteps_rule (LoopInv data x) (fun s s' ↦ Grows data s.2 s'.2)
    (fun dep s ↦ dep.isRootScope = false → dep.id ∈ data.map Prod.fst → Linked s.2 x dep)
    (fun s ↦ Grows.refl s.2) (fun _ _ _ h₁ h₂ ↦ h₁.trans h₂)
    (fun (dep : ProjectDependencyConfig) (s s' : List String × WorkspaceBuilder)
      (hq : dep.isRootScope = false → dep.id ∈ data.map Prod.fst → Linked s.2 x dep)
      (hR : Grows data s.2 s'.2) hroot hid ↦ (hq hroot hid).mono hR.1) build.dependencies
    (fun _ hdep _ _ h hs ↦ loadDependency_spec hload hx hdep h hs) s s' h hs

/-- The end of a load of `x`: once its loop has linked its dependencies, its node is set loaded,
and the load as a whole grows the builder it started from. -/
theorem grows_setLoaded (hx : data.lookup x = some build) (hxb : x ∉ b.nodeIds)
    (hgrow : Grows data (b.addNode x) b₁)
    (hlinked : ∀ dep ∈ build.dependencies, dep.isRootScope = false → dep.id ∈ data.map Prod.fst →
      Linked b₁ x dep) :
    Grows data b (b₁.setLoaded x) := by
  have hext : Extends b (b₁.setLoaded x) :=
    ((extends_addNode x).trans hgrow.1).trans (extends_setLoaded x)
  refine ⟨hext, fun y hy hyb ↦ ?_⟩
  rw [WorkspaceBuilder.nodeIds_setLoaded] at hy
  by_cases hyx : y = x
  · -- the project itself: its loop linked its dependencies
    subst hyx
    refine ⟨NodeList.mem_setLoaded b₁.nodes (.inr rfl) hy, fun build' hd dep hdep hroot hid ↦ ?_⟩
    rw [hx, Option.some.injEq] at hd
    subst hd
    exact (hlinked dep hdep hroot hid).mono (extends_setLoaded y)
  · -- a project its loop loaded
    have hy' : y ∉ (b.addNode x).nodeIds := by simp [hyb, hyx]
    obtain ⟨hl, hs⟩ := hgrow.2 y hy hy'
    exact ⟨NodeList.mem_setLoaded b₁.nodes (.inl hl) hy, hs.mono (extends_setLoaded x)⟩

/-- **`internal_load_project` meets its specification**, with any fuel, by induction on the fuel:
the loop's recursive calls are loads with one unit less. -/
theorem internalLoadProject_spec : ∀ fuel, LoaderSpec data (internalLoadProject data fuel)
  | 0 => fun _ _ _ _ h ↦ nomatch h
  | fuel + 1 => by
    intro x cycle b r h hinv hcycle
    rw [internalLoadProject] at h
    by_cases hx : resolveId data x ∈ cycle
    · rw [if_pos hx] at h
      cases h
      exact ⟨hinv, Grows.refl b, hcycle, .inl ⟨hx, rfl⟩⟩
    rw [if_neg hx] at h
    cases hl : data.lookup (resolveId data x) with
    | none => simp [hl] at h
    | some build =>
      simp only [hl] at h
      by_cases hn : resolveId data x ∈ b.nodeIds
      · -- loaded already, or being loaded
        rw [if_pos hn] at h
        cases h
        exact ⟨hinv, Grows.refl b, hcycle, .inr ⟨hx, rfl, hn⟩⟩
      rw [if_neg hn] at h
      cases hloop : Fueled.forSteps (loadDependency data (internalLoadProject data fuel)
          (resolveId data x)) build.dependencies (resolveId data x :: cycle,
            b.addNode (resolveId data x)) with
      | none => simp [hloop] at h
      | some r' =>
        cases r' with
        | error e => simp [hloop] at h
        | ok s₁ =>
          simp only [hloop, Option.some.injEq, Except.ok.injEq] at h
          subst h
          have hs : LoopInv data (resolveId data x)
              (resolveId data x :: cycle, b.addNode (resolveId data x)) := by
            refine ⟨hinv.addNode _, fun y hy ↦ ?_, by simp⟩
            rcases List.mem_cons.1 hy with rfl | hy
            · simp
            · simp [hcycle y hy]
          obtain ⟨⟨hinv₁, -, hx₁⟩, hgrow, hlinked⟩ :=
            forSteps_loadDependency (internalLoadProject_spec fuel) hl hloop hs
          exact ⟨hinv₁.setLoaded _, grows_setLoaded hl hn hgrow hlinked, (fun _ h ↦ nomatch h),
            .inr ⟨hx, rfl, by simpa using hx₁⟩⟩

/-! ### Connecting the deferred edges -/

/-- One deferred edge: added when it does not close a cycle in its partition, and otherwise
already closed by a path back. -/
theorem connectEdge_spec (hinv : Inv data b) {e : ProjectEdge} (he : Placed data b e) :
    Inv data (b.connectEdge e) ∧ Extends b (b.connectEdge e) ∧ (b.connectEdge e).nodes = b.nodes ∧
      (b.connectEdge e).deferredProjectEdges = b.deferredProjectEdges ∧
      (e ∈ (b.connectEdge e).edges ∨
        EdgeList.Reach (partitionEdges (b.connectEdge e).edges e.scope.isProductionGroup)
          e.target e.source) := by
  unfold WorkspaceBuilder.connectEdge
  cases hw : wouldCycleInScope b.edges e.source e.target e.scope with
  | true =>
    rw [if_pos rfl]
    exact ⟨hinv, Extends.refl b, rfl, rfl, .inr ((EdgeList.hasPath_iff _ _ _).1 hw)⟩
  | false =>
    rw [if_neg Bool.false_ne_true]
    exact ⟨hinv.addEdge he hw, extends_addEdge e, rfl, rfl, .inl (by simp)⟩

theorem foldl_connectEdge : ∀ (l : List ProjectEdge) (b : WorkspaceBuilder), Inv data b →
    (∀ e ∈ l, Placed data b e) →
    Inv data (l.foldl WorkspaceBuilder.connectEdge b) ∧
      Extends b (l.foldl WorkspaceBuilder.connectEdge b) ∧
      (l.foldl WorkspaceBuilder.connectEdge b).nodes = b.nodes ∧
      (l.foldl WorkspaceBuilder.connectEdge b).deferredProjectEdges = b.deferredProjectEdges ∧
      ∀ e ∈ l, e ∈ (l.foldl WorkspaceBuilder.connectEdge b).edges ∨
        EdgeList.Reach (partitionEdges (l.foldl WorkspaceBuilder.connectEdge b).edges
          e.scope.isProductionGroup) e.target e.source
  | [], b, hinv, _ => ⟨hinv, Extends.refl b, rfl, rfl, fun _ he ↦ nomatch he⟩
  | e :: l, b, hinv, hl => by
    obtain ⟨hinv₁, hext₁, hnodes₁, hdef₁, he₁⟩ := connectEdge_spec hinv (hl e List.mem_cons_self)
    obtain ⟨hinv', hext', hnodes', hdef', hl'⟩ := foldl_connectEdge l (b.connectEdge e) hinv₁
      fun e' he' ↦ (hl e' (List.mem_cons_of_mem e he')).mono hext₁
    rw [List.foldl_cons]
    refine ⟨hinv', hext₁.trans hext', hnodes'.trans hnodes₁, hdef'.trans hdef₁, fun e' he' ↦ ?_⟩
    rcases List.mem_cons.1 he' with rfl | he'
    · -- the first edge: what it left stays, as edges are only appended
      rcases he₁ with hmem | hreach
      · exact .inl (hext'.edges.subset hmem)
      · exact .inr (EdgeList.Reach.mono (partitionEdges_mono hext'.edges _) hreach)
    · exact hl' e' he'

/-- **`connect_deferred_project_edges`** keeps the invariant and the nodes, leaves nothing
deferred, and each deferred edge is then an edge, or closed by a path back in its partition. -/
theorem connectDeferredProjectEdges_spec (hinv : Inv data b) :
    Inv data b.connectDeferredProjectEdges ∧ b.connectDeferredProjectEdges.nodes = b.nodes ∧
      b.connectDeferredProjectEdges.deferredProjectEdges = [] ∧
      b.edges <+: b.connectDeferredProjectEdges.edges ∧
      ∀ e ∈ b.deferredProjectEdges, e ∈ b.connectDeferredProjectEdges.edges ∨
        EdgeList.Reach (partitionEdges b.connectDeferredProjectEdges.edges e.scope.isProductionGroup)
          e.target e.source := by
  have hinv₀ : Inv data { b with deferredProjectEdges := [] } :=
    ⟨hinv.acyclic, hinv.edges, fun _ he ↦ nomatch he⟩
  obtain ⟨hinv', hext, hnodes, hdef, hl⟩ :=
    foldl_connectEdge b.deferredProjectEdges _ hinv₀ hinv.deferred
  exact ⟨hinv', hnodes, hdef, hext.edges, hl⟩

/-- A linked dependency stays linked when the deferred edges are connected, and is then an edge
or closed by a path back. -/
theorem Linked.connect (hinv : Inv data b) {y : String} {dep : ProjectDependencyConfig}
    (hl : Linked b y dep) : Linked b.connectDeferredProjectEdges y dep := by
  obtain ⟨-, -, -, hedges, hdeferred⟩ := connectDeferredProjectEdges_spec hinv
  rcases hl with he | hd | hr
  · exact .inl (hedges.subset he)
  · exact (hdeferred _ hd).elim .inl fun h ↦ .inr (.inr h)
  · exact .inr (.inr (EdgeList.Reach.mono (partitionEdges_mono hedges _) hr))

/-! ### Loading every project -/

/-- **A load from an empty cycle set keeps the builder loaded**: the nodes it creates end loaded
with their dependencies linked, and the others were already.  The project the id or alias
resolves to then has a node. -/
theorem internalLoadProject_loaded (hb : Loaded data b) {fuel : ℕ} {id : String} {r : LoadResult}
    (h : internalLoadProject data fuel id [] b = some (.ok r)) :
    Loaded data r.2.2 ∧ Extends b r.2.2 ∧ resolveId data id ∈ r.2.2.nodeIds := by
  have post := internalLoadProject_spec fuel id [] b r h hb.inv (fun _ h ↦ nomatch h)
  -- each node is loaded and settled: an old one was, a new one by the load
  have hnode : ∀ y ∈ r.2.2.nodeIds, (y, NodeState.loaded) ∈ r.2.2.nodes ∧ Settled data r.2.2 y := by
    intro y hy
    by_cases hyb : y ∈ b.nodeIds
    · exact ⟨post.grows.1.loaded y (hb.loaded y hyb), (hb.settled y hyb).mono post.grows.1⟩
    · exact post.grows.2 y hy hyb
  obtain ⟨-, -, hid⟩ := post.result.resolve_left fun h' ↦ nomatch h'.1
  exact ⟨⟨post.inv, fun y hy ↦ (hnode y hy).1, fun y hy ↦ (hnode y hy).2⟩, post.grows.1, hid⟩

/-- **Connecting the deferred edges completes a loaded builder.** -/
theorem connectDeferredProjectEdges_complete (hb : Loaded data b) :
    Complete data b.connectDeferredProjectEdges ∧ b.connectDeferredProjectEdges.nodes = b.nodes := by
  obtain ⟨hinv', hnodes', hdef', -, -⟩ := connectDeferredProjectEdges_spec hb.inv
  have hmem : ∀ y, y ∈ b.connectDeferredProjectEdges.nodeIds ↔ y ∈ b.nodeIds := by
    simp [WorkspaceBuilder.nodeIds, hnodes']
  refine ⟨⟨⟨hinv', fun y hy ↦ ?_, fun y hy build hd dep hdep hroot hid ↦ ?_⟩, hdef'⟩, hnodes'⟩
  · rw [hnodes']
    exact hb.loaded y ((hmem y).1 hy)
  · exact (hb.settled y ((hmem y).1 hy) build hd dep hdep hroot hid).connect hb.inv

/-- **`load_project` keeps the builder complete**, and gives the project a node. -/
theorem loadProject_complete (hb : Complete data b) {id : String}
    (h : loadProject data id b = some (.ok b')) :
    Complete data b' ∧ (∀ y ∈ b.nodeIds, y ∈ b'.nodeIds) ∧ resolveId data id ∈ b'.nodeIds := by
  unfold loadProject at h
  cases hl : internalLoadProject data (data.length + 1) id [] b with
  | none => simp [hl] at h
  | some r =>
    cases r with
    | error e => simp [hl] at h
    | ok r =>
      obtain ⟨ro, cycle, b₁⟩ := r
      simp only [hl, Option.some.injEq, Except.ok.injEq] at h
      subst h
      obtain ⟨hb₁, hext, hid⟩ := internalLoadProject_loaded hb.toLoaded hl
      obtain ⟨hb', hnodes⟩ := connectDeferredProjectEdges_complete hb₁
      have hmem : ∀ y ∈ b₁.nodeIds, y ∈ b₁.connectDeferredProjectEdges.nodeIds := by
        simp [WorkspaceBuilder.nodeIds, hnodes]
      exact ⟨hb', fun y hy ↦ hmem y (hext.nodes y hy), hmem _ hid⟩

/-- **`load_projects` keeps the builder complete**, by the loop rule over the keys of
`project_data`, and gives every configured project a node. -/
theorem loadProjects_complete (hb : Complete data b) (h : loadProjects data b = some (.ok b')) :
    Complete data b' ∧ ∀ id ∈ data.map Prod.fst, id ∈ b'.nodeIds := by
  obtain ⟨hb', -, hids⟩ := Fueled.forSteps_rule (Complete data)
    (fun b b' ↦ ∀ y ∈ b.nodeIds, y ∈ b'.nodeIds) (fun id b ↦ resolveId data id ∈ b.nodeIds)
    (fun _ _ h ↦ h) (fun _ _ _ h₁ h₂ y hy ↦ h₂ y (h₁ y hy)) (fun _ _ _ hq hR ↦ hR _ hq)
    (data.map Prod.fst) (fun _ _ _ _ h hs ↦ loadProject_complete hs h) b b' h hb
  -- every key resolves to itself
  refine ⟨hb', fun id hid ↦ ?_⟩
  have h' := hids id hid
  rwa [resolveId_of_mem hid] at h'

/-- The builder `WorkspaceBuilder::new` starts from is complete. -/
theorem complete_empty : Complete data {} :=
  ⟨⟨⟨fun _ ↦ EdgeList.acyclic_iff.2 fun _ _ he ↦ by simp at he,
    (fun _ he ↦ nomatch he), (fun _ he ↦ nomatch he)⟩, (fun _ hy ↦ nomatch hy),
    (fun _ hy ↦ nomatch hy)⟩, rfl⟩

/-- **`build` keeps the whole graph of a complete builder**: every node is loaded, so
`filter_map` drops nothing, and both partitions are acyclic, so `set_graph` refuses no edge. -/
theorem buildProjectGraph_of_complete (hb : Complete data b) :
    b.buildProjectGraph = .ok ⟨b.edges, partitionEdges b.edges true, partitionEdges b.edges false⟩ := by
  have hfilter : (b.edges.filter fun e ↦ b.isLoaded e.source && b.isLoaded e.target) = b.edges := by
    refine List.filter_eq_self.2 fun e he ↦ ?_
    obtain ⟨-, hs, ht⟩ := hb.inv.edges e he
    simp [WorkspaceBuilder.isLoaded, hb.loaded _ hs, hb.loaded _ ht]
  rw [WorkspaceBuilder.buildProjectGraph, hfilter, setGraph_of_acyclic hb.inv.acyclic]

/-! ### Enough fuel -/

theorem mem_keys_of_lookup {κ ν : Type} [DecidableEq κ] {x : κ} {v : ν} :
    ∀ {l : List (κ × ν)}, l.lookup x = some v → x ∈ l.map Prod.fst
  | [], h => nomatch h
  | (k, w) :: l, h => by
    by_cases hk : x = k
    · simp [hk]
    · have hbeq : (x == k) = false := beq_false_of_ne hk
      rw [List.lookup_cons, hbeq] at h
      exact List.mem_cons_of_mem k (mem_keys_of_lookup h)

/-- A turn of the loop runs out of fuel only where the recursive load does. -/
theorem loadDependency_ne_none {dep : ProjectDependencyConfig} {s : List String × WorkspaceBuilder}
    (h : dep.id ∉ s.1 → load dep.id s.1 s.2 ≠ none) : loadDependency data load x dep s ≠ none := by
  obtain ⟨cycle, b⟩ := s
  by_cases hc : dep.id ∈ cycle
  · simp only [loadDependency, if_pos hc]
    split <;> simp
  · simp only [loadDependency, if_neg hc]
    cases hl : load dep.id cycle b with
    | none => exact absurd hl (h hc)
    | some r =>
      rcases r with e | ⟨_ | depId, cycle', b'⟩
      · simp
      · simp
      · simp only
        split
        · split <;> simp
        · simp

/-- **Enough fuel.**  A load with more fuel than there are configured projects without a node
does not run out: each recursive call comes after the project got its node, with one unit less. -/
theorem internalLoadProject_ne_none : ∀ (fuel : ℕ) (x : String) (cycle : List String)
    (b : WorkspaceBuilder), Inv data b → (∀ y ∈ cycle, y ∈ b.nodeIds) → unloaded data b < fuel →
    internalLoadProject data fuel x cycle b ≠ none
  | 0, _, _, _, _, _, hfuel => absurd hfuel (Nat.not_lt_zero _)
  | fuel + 1, x, cycle, b, hinv, hcycle, hfuel => by
    rw [internalLoadProject]
    by_cases hx : resolveId data x ∈ cycle
    · rw [if_pos hx]
      simp
    rw [if_neg hx]
    cases hl : data.lookup (resolveId data x) with
    | none => simp
    | some build =>
      simp only
      by_cases hn : resolveId data x ∈ b.nodeIds
      · rw [if_pos hn]
        simp
      rw [if_neg hn]
      have hlt : unloaded data (b.addNode (resolveId data x)) < fuel :=
        Nat.lt_of_lt_of_le (NodeList.unvisited_add_lt (mem_keys_of_lookup hl) hn)
          (Nat.lt_succ_iff.1 hfuel)
      -- the loop's states extend `b.addNode x`, so the recursive calls have fuel enough
      have hloop : Fueled.forSteps (loadDependency data (internalLoadProject data fuel)
          (resolveId data x)) build.dependencies
          (resolveId data x :: cycle, b.addNode (resolveId data x)) ≠ none := by
        refine Fueled.forSteps_ne_none
          (fun s ↦ LoopInv data (resolveId data x) s ∧ Extends (b.addNode (resolveId data x)) s.2)
          build.dependencies
          (fun dep hdep s hs ↦ ⟨loadDependency_ne_none fun _ ↦ ?_, fun s' h ↦ ?_⟩) _
          ⟨?_, Extends.refl _⟩
        · exact internalLoadProject_ne_none fuel dep.id s.1 s.2 hs.1.1 hs.1.2.1
            (Nat.lt_of_le_of_lt (NodeList.unvisited_le hs.2.nodes) hlt)
        · obtain ⟨hs', hgrow, -⟩ :=
            loadDependency_spec (internalLoadProject_spec fuel) hl hdep h hs.1
          exact ⟨hs', hs.2.trans hgrow.1⟩
        · refine ⟨hinv.addNode _, fun y hy ↦ ?_, by simp⟩
          rcases List.mem_cons.1 hy with rfl | hy
          · simp
          · simp [hcycle y hy]
      cases hr : Fueled.forSteps (loadDependency data (internalLoadProject data fuel)
          (resolveId data x)) build.dependencies
          (resolveId data x :: cycle, b.addNode (resolveId data x)) with
      | none => exact absurd hr hloop
      | some r => cases r <;> simp

/-- `load_project` always returns: its fuel exceeds the number of configured projects. -/
theorem loadProject_ne_none (hb : Complete data b) (id : String) : loadProject data id b ≠ none := by
  unfold loadProject
  have h := internalLoadProject_ne_none (data.length + 1) id [] b hb.inv (fun _ h ↦ nomatch h)
    (Nat.lt_succ_of_le (NodeList.unvisited_le_length.trans (by simp)))
  cases hr : internalLoadProject data (data.length + 1) id [] b with
  | none => exact absurd hr h
  | some r => rcases r with e | ⟨_, _, _⟩ <;> simp

/-- `load_projects` always returns. -/
theorem loadProjects_ne_none (hb : Complete data b) : loadProjects data b ≠ none :=
  Fueled.forSteps_ne_none (Complete data) (data.map Prod.fst)
    (fun _ _ _ hs ↦ ⟨loadProject_ne_none hs _, fun _ h ↦ (loadProject_complete hs h).1⟩) b hb

end Lemmas

end Moon
