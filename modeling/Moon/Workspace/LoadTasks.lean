import Moon.Workspace.WorkspaceBuilder
import Moon.Task.Task

/-!
# Loading tasks into the workspace graph

`WorkspaceBuilder::load_tasks` (`crates/workspace/src/workspace_builder.rs`) runs after
`load_projects`: it collects the targets of the tasks of every loaded project and calls
`load_task` on each.  `internal_load_task` has the shape of `internal_load_project`: the task gets
a node in the `Loading` state first, a set `cycle` is shared by the recursion and cleared when a
task is done, and the dependencies are loaded depth first.  It differs in two ways.  The task graph
is a `daggy::Dag`, a single partition, whose `add_edge` refuses an edge that would close a cycle:
the load then fails with `WouldCycle`.  And a dependency found in the cycle set is dropped at
once, not deferred.  A task also loads its owning project first, with a fresh cycle set, and
`load_task` then connects the project edges that load deferred.

What loading tasks keeps, whatever the configuration (`loadTasks_complete`): the task graph is
acyclic; each edge is a dependency its task declares; each dependency of a loaded task is an edge,
or would close a cycle; and the project graph stays complete.  As for projects, which edge of a
cycle is dropped depends on the order, and the cleared cycle set can make a load fail with
`WouldCycle`.

A resolved target is the pair of its project's id and its task's id, and the dependencies of a
task are those `TaskDepsBuilder` resolves, which the model takes as given.
-/

set_option autoImplicit false

namespace Moon

/-- A target `project:task` whose scopes are both ids, as `TaskBuildData::resolve_target` returns
it. -/
structure TaskTarget where
  projectId : String
  taskId : String
  deriving DecidableEq, Repr

/-- `Target::id`, the text of the target. -/
def TaskTarget.id (target : TaskTarget) : String := target.projectId ++ ":" ++ target.taskId

/-- A dependency of a task as `TaskDepsBuilder` resolves it: its target, and whether it is
optional. -/
structure TaskDependency where
  target : TaskTarget
  optional : Option Bool := none
  deriving DecidableEq, Repr

/-- The type of a dependency's edge: `Optional` when it is marked optional, `Required` otherwise. -/
def TaskDependency.dependencyType (dep : TaskDependency) : TaskDependencyType :=
  if dep.optional = some true then .optional else .required

/-- An edge of the task graph: the task that depends, the task it depends on, and the type. -/
structure TaskEdge where
  source : TaskTarget
  target : TaskTarget
  type : TaskDependencyType
  deriving DecidableEq, Repr

/-- The part of `WorkspaceBuilder` that loading tasks writes: the nodes of the task DAG by target
(the targets whose `task_data` entry has a `node_index`), and its edges. -/
structure TaskGraphBuilder where
  nodes : NodeList TaskTarget := []
  edges : List TaskEdge := []
  deriving DecidableEq, Repr

/-- What loading reads of the tasks: each key of `task_data`, with the dependencies of its task. -/
abbrev TaskData := List (TaskTarget × List TaskDependency)

/-- The errors a task load ends in. -/
inductive TaskLoadError where
  /-- From loading the owning project. -/
  | project (e : ProjectGraphError)
  /-- `ProjectError::UnknownTask`: the target is not a key of `task_data`. -/
  | unknownTask (taskId projectId : String)
  /-- `TaskGraphError::WouldCycle`. -/
  | wouldCycle (sourceTarget targetTarget : String)
  /-- A panic, which unwinds through the loader as an error does. -/
  | panic (message : String)
  deriving DecidableEq, Repr

/-- The message each error displays. -/
def TaskLoadError.message : TaskLoadError → String
  | .project e => e.message
  | .unknownTask taskId projectId => "Unknown task " ++ taskId ++ " for project " ++ projectId ++ "."
  | .wouldCycle sourceTarget targetTarget =>
    "Unable to create task graph, adding a relationship from " ++ sourceTarget ++ " to " ++
      targetTarget ++ " would introduce a cycle."
  | .panic message => message

namespace TaskGraphBuilder

variable (t : TaskGraphBuilder)

/-- The targets that have a node. -/
def nodeIds : List TaskTarget := t.nodes.ids

/-- `task_graph.add_node(NodeState::Loading)`, with the index stored in `task_data`. -/
def addNode (target : TaskTarget) : TaskGraphBuilder := { t with nodes := t.nodes.add target }

/-- The node of `target` takes the state `NodeState::Loaded`. -/
def setLoaded (target : TaskTarget) : TaskGraphBuilder :=
  { t with nodes := t.nodes.setLoaded target }

/-- The edge, once the DAG has accepted it. -/
def addEdge (edge : TaskEdge) : TaskGraphBuilder := { t with edges := t.edges ++ [edge] }

/-- The edges as pairs: what the DAG's cycle check reads. -/
def pairs : List (TaskTarget × TaskTarget) := t.edges.map fun e ↦ (e.source, e.target)

@[simp] theorem nodeIds_addNode (target : TaskTarget) :
    (t.addNode target).nodeIds = t.nodeIds ++ [target] :=
  NodeList.ids_add _ target
@[simp] theorem nodeIds_setLoaded (target : TaskTarget) : (t.setLoaded target).nodeIds = t.nodeIds :=
  NodeList.ids_setLoaded _ target
@[simp] theorem addNode_edges (target : TaskTarget) : (t.addNode target).edges = t.edges := rfl
@[simp] theorem setLoaded_edges (target : TaskTarget) : (t.setLoaded target).edges = t.edges := rfl
@[simp] theorem addEdge_edges (e : TaskEdge) : (t.addEdge e).edges = t.edges ++ [e] := rfl
@[simp] theorem addEdge_nodes (e : TaskEdge) : (t.addEdge e).nodes = t.nodes := rfl
@[simp] theorem pairs_addEdge (e : TaskEdge) :
    (t.addEdge e).pairs = t.pairs ++ [(e.source, e.target)] := by
  simp [pairs]

end TaskGraphBuilder

/-! ## Loading -/

/-- The state the task loader reads and writes: the project part of the builder, which loading
a task's owning project writes, and the task part. -/
abbrev TaskLoadState := WorkspaceBuilder × TaskGraphBuilder

/-- What `internal_load_task` returns: the task's target (its node), unless it is in the cycle
set; with the cycle set and the state after the call. -/
abbrev TaskLoadResult := Option TaskTarget × List TaskTarget × TaskLoadState

/-- One turn of the loop of `internal_load_task` over the dependencies of task `target`, with
`load` for the recursive call. -/
def loadTaskDependency
    (load : TaskTarget → List TaskTarget → TaskLoadState → Option (Except TaskLoadError TaskLoadResult))
    (target : TaskTarget) (dep : TaskDependency) :
    List TaskTarget × TaskLoadState → Option (Except TaskLoadError (List TaskTarget × TaskLoadState))
  | (cycle, st) =>
    -- a cycle: disconnect the dependency
    if dep.target ∈ cycle then some (.ok (cycle, st))
    else
      match load dep.target cycle st with
      | none => none
      | some (.error e) => some (.error e)
      | some (.ok (none, cycle, st)) => some (.ok (cycle, st))
      | some (.ok (some depIndex, cycle, (b, t))) =>
        match EdgeList.addEdge t.pairs target depIndex with
        | some _ => some (.ok (cycle, (b, t.addEdge ⟨target, depIndex, dep.dependencyType⟩)))
        | none => some (.error (.wouldCycle target.id dep.target.id))

/-- `internal_load_task`, with fuel for its recursion; the load of the owning project has its own
(`load_project`'s). -/
def internalLoadTask (data : ProjectData) (tasks : TaskData) :
    ℕ → TaskTarget → List TaskTarget → TaskLoadState → Option (Except TaskLoadError TaskLoadResult)
  | 0, _, _, _ => none
  | fuel + 1, target, cycle, (b, t) =>
    if target ∈ cycle then some (.ok (none, cycle, (b, t)))
    else
      match tasks.lookup target with
      | none => some (.error (.unknownTask target.taskId target.projectId))
      | some deps =>
        -- already loaded, or being loaded: exit early with the existing node
        if target ∈ t.nodeIds then some (.ok (some target, cycle, (b, t)))
        else
          match internalLoadProject data (data.length + 1) target.projectId [] b with
          | none => none
          | some (.error e) => some (.error (.project e))
          | some (.ok (none, _, _)) =>
            some (.error (.panic "Unable to load task, owning project does not exist!"))
          | some (.ok (some projectIndex, _, b)) =>
            if b.isLoaded projectIndex then
              match Fueled.forSteps (loadTaskDependency (internalLoadTask data tasks fuel) target)
                  deps (target :: cycle, (b, t.addNode target)) with
              | some (.ok (_, (b, t))) => some (.ok (some target, [], (b, t.setLoaded target)))
              | some (.error e) => some (.error e)
              | none => none
            else
              some (.error (.panic "Unable to load task, owning project is in a non-loaded state!"))

/-- `load_task`: load from an empty cycle set, then connect the deferred project edges. -/
def loadTask (data : ProjectData) (tasks : TaskData) (target : TaskTarget) (st : TaskLoadState) :
    Option (Except TaskLoadError TaskLoadState) :=
  match internalLoadTask data tasks (tasks.length + 1) target [] st with
  | some (.ok (_, _, (b, t))) => some (.ok (b.connectDeferredProjectEdges, t))
  | some (.error e) => some (.error e)
  | none => none

/-- The targets `load_tasks` collects: the tasks of each loaded project, in the order of the
project graph's nodes. -/
def taskTargets (tasks : TaskData) (b : WorkspaceBuilder) : List TaskTarget :=
  b.nodes.flatMap fun node ↦
    if node.2 = .loaded then (tasks.map Prod.fst).filter (·.projectId = node.1) else []

/-- `load_tasks`: `load_task` on every collected target. -/
def loadTasks (data : ProjectData) (tasks : TaskData) (st : TaskLoadState) :
    Option (Except TaskLoadError TaskLoadState) :=
  Fueled.forSteps (loadTask data tasks) (taskTargets tasks st.1) st

/-! ## What loading tasks keeps

A dependency found in the cycle set is dropped at once, and what justifies dropping it comes
later: it is an ancestor in the load, and once the loads below it return, the edges they add lead
from it back to the task that dropped it.  So the postcondition of a load of `x` from the cycle set
`cycle` says of each dependency of a task it loaded: an edge, or a path back, or *pending*: the
dependency is in `cycle`, and the task can be reached from `x`.  The parent adds its edge to `x`
and turns each pending dependency into a path back, or keeps it pending for its own parent; at the
top, from an empty cycle set, nothing is pending. -/

section Invariant

variable (tasks : TaskData) (data : ProjectData)

/-- An edge that a task declares: a dependency of its source, with the edge's target and type. -/
def TaskDeclared (e : TaskEdge) : Prop :=
  ∃ deps, tasks.lookup e.source = some deps ∧
    ∃ dep ∈ deps, dep.target = e.target ∧ dep.dependencyType = e.type

/-- An edge of the task graph: declared, between two nodes. -/
def TaskPlaced (t : TaskGraphBuilder) (e : TaskEdge) : Prop :=
  TaskDeclared tasks e ∧ e.source ∈ t.nodeIds ∧ e.target ∈ t.nodeIds

/-- What holds of the task graph between the steps of loading: it is acyclic, and every edge is
declared and between nodes. -/
structure TaskInv (t : TaskGraphBuilder) : Prop where
  acyclic : EdgeList.Acyclic t.pairs
  edges : ∀ e ∈ t.edges, TaskPlaced tasks t e

/-- A dependency of `source` is linked: its edge is in the graph, or it would close a cycle. -/
def TaskLinked (t : TaskGraphBuilder) (source : TaskTarget) (dep : TaskDependency) : Prop :=
  ⟨source, dep.target, dep.dependencyType⟩ ∈ t.edges ∨ EdgeList.Reach t.pairs dep.target source

/-- A dependency of `source`, in a load of `root` from the cycle set `pending`: linked, or pending,
that is in `pending` with `source` reached from `root`. -/
def TaskLinkedIn (t : TaskGraphBuilder) (pending : List TaskTarget) (root source : TaskTarget)
    (dep : TaskDependency) : Prop :=
  TaskLinked t source dep ∨ dep.target ∈ pending ∧ EdgeList.Reach t.pairs root source

/-- Every dependency of task `y` is linked, or pending in a load of `root` from `pending`. -/
def TaskSettledIn (t : TaskGraphBuilder) (pending : List TaskTarget) (root y : TaskTarget) : Prop :=
  ∀ deps, tasks.lookup y = some deps → ∀ dep ∈ deps, TaskLinkedIn t pending root y dep

/-- `t'` comes from `t` by adding: edges are appended, every node stays, and a loaded node stays
loaded. -/
structure TaskExtends (t t' : TaskGraphBuilder) : Prop where
  edges : t.edges <+: t'.edges
  nodes : ∀ y ∈ t.nodeIds, y ∈ t'.nodeIds
  loaded : ∀ y, (y, NodeState.loaded) ∈ t.nodes → (y, NodeState.loaded) ∈ t'.nodes

/-- What a load of `root` from the cycle set `pending` does to the task graph: it adds, and each
node it creates ends loaded, reached from `root`, with its dependencies linked or pending. -/
def TaskGrows (pending : List TaskTarget) (root : TaskTarget) (t t' : TaskGraphBuilder) : Prop :=
  TaskExtends t t' ∧ ∀ y ∈ t'.nodeIds, y ∉ t.nodeIds →
    (y, NodeState.loaded) ∈ t'.nodes ∧ EdgeList.Reach t'.pairs root y ∧
      TaskSettledIn tasks t' pending root y

/-- Between two calls of `load_task`: the invariant, and every node loaded with its dependencies
linked. -/
structure TaskLoaded (t : TaskGraphBuilder) : Prop where
  inv : TaskInv tasks t
  loaded : ∀ y ∈ t.nodeIds, (y, NodeState.loaded) ∈ t.nodes
  settled : ∀ y ∈ t.nodeIds, ∀ deps, tasks.lookup y = some deps → ∀ dep ∈ deps, TaskLinked t y dep

/-- The tasks without a node: what a load can still visit. -/
def unloadedTasks (t : TaskGraphBuilder) : ℕ := t.nodes.unvisited (tasks.map Prod.fst)

/-- The state of the loop over the dependencies of task `x`, loaded from the cycle set `cycle`:
the project part loaded, the task invariant, and a cycle set of nodes, within `x :: cycle` (it is
cleared when a dependency is done), with `x` a node. -/
def TaskLoopInv (cycle : List TaskTarget) (x : TaskTarget) (s : List TaskTarget × TaskLoadState) :
    Prop :=
  Loaded data s.2.1 ∧ TaskInv tasks s.2.2 ∧ (∀ y ∈ s.1, y ∈ s.2.2.nodeIds ∧ y ∈ x :: cycle) ∧
    x ∈ s.2.2.nodeIds

/-- What a successful call of `internal_load_task` gives: the project part still loaded, the task
invariant, the task graph grown, a cycle set of nodes within the one it started from, and the
task's own target, with its node, unless the task was in the cycle set. -/
structure TaskLoadPost (x : TaskTarget) (cycle : List TaskTarget) (st : TaskLoadState)
    (r : TaskLoadResult) : Prop where
  projects : Loaded data r.2.2.1
  inv : TaskInv tasks r.2.2.2
  grows : TaskGrows tasks cycle x st.2 r.2.2.2
  cycleNodes : ∀ y ∈ r.2.1, y ∈ r.2.2.2.nodeIds ∧ y ∈ cycle
  result : x ∈ cycle ∧ r.1 = none ∨ x ∉ cycle ∧ r.1 = some x ∧ x ∈ r.2.2.2.nodeIds

/-- A task loader meets `TaskLoadPost` whenever it succeeds from a loaded project part, the task
invariant and a cycle set of nodes. -/
def TaskLoaderSpec
    (load : TaskTarget → List TaskTarget → TaskLoadState → Option (Except TaskLoadError TaskLoadResult)) :
    Prop :=
  ∀ x cycle st r, load x cycle st = some (.ok r) → Loaded data st.1 → TaskInv tasks st.2 →
    (∀ y ∈ cycle, y ∈ st.2.nodeIds) → TaskLoadPost tasks data x cycle st r

end Invariant

section Lemmas

variable {tasks : TaskData} {data : ProjectData} {t t' t₁ t₂ t₃ : TaskGraphBuilder}

/-! ### Adding -/

theorem TaskExtends.refl (t : TaskGraphBuilder) : TaskExtends t t :=
  ⟨List.prefix_refl _, fun _ h ↦ h, fun _ h ↦ h⟩

theorem TaskExtends.trans (h₁ : TaskExtends t₁ t₂) (h₂ : TaskExtends t₂ t₃) : TaskExtends t₁ t₃ :=
  ⟨h₁.edges.trans h₂.edges, fun y hy ↦ h₂.nodes y (h₁.nodes y hy),
    fun y hy ↦ h₂.loaded y (h₁.loaded y hy)⟩

theorem taskExtends_addNode (target : TaskTarget) : TaskExtends t (t.addNode target) :=
  ⟨List.prefix_refl _, fun y hy ↦ by simp [hy], fun _ hy ↦ t.nodes.mem_add hy target⟩

theorem taskExtends_addEdge (e : TaskEdge) : TaskExtends t (t.addEdge e) :=
  ⟨List.prefix_append _ _, fun _ h ↦ h, fun _ h ↦ h⟩

theorem taskExtends_setLoaded (target : TaskTarget) : TaskExtends t (t.setLoaded target) :=
  ⟨List.prefix_refl _, fun y hy ↦ by simpa using hy,
    fun y hy ↦ NodeList.mem_setLoaded t.nodes (.inl hy) (List.mem_map.2 ⟨_, hy, rfl⟩)⟩

/-- The edges of the DAG only grow, so a path stays. -/
theorem TaskExtends.reach (h : TaskExtends t t') {y z : TaskTarget}
    (hr : EdgeList.Reach t.pairs y z) : EdgeList.Reach t'.pairs y z := by
  obtain ⟨rest, hrest⟩ := h.edges
  refine EdgeList.Reach.mono (fun e he ↦ ?_) hr
  rw [TaskGraphBuilder.pairs, ← hrest, List.map_append]
  exact List.mem_append_left _ he

theorem TaskPlaced.mono {e : TaskEdge} (h : TaskExtends t t') (hp : TaskPlaced tasks t e) :
    TaskPlaced tasks t' e :=
  ⟨hp.1, h.nodes _ hp.2.1, h.nodes _ hp.2.2⟩

theorem TaskLinked.mono (h : TaskExtends t t') {source : TaskTarget} {dep : TaskDependency}
    (hl : TaskLinked t source dep) : TaskLinked t' source dep :=
  hl.imp (fun he ↦ h.edges.subset he) h.reach

theorem TaskLinkedIn.mono (h : TaskExtends t t') {pending : List TaskTarget}
    {root source : TaskTarget} {dep : TaskDependency} (hl : TaskLinkedIn t pending root source dep) :
    TaskLinkedIn t' pending root source dep :=
  hl.imp (·.mono h) fun ⟨hp, hr⟩ ↦ ⟨hp, h.reach hr⟩

theorem TaskSettledIn.mono (h : TaskExtends t t') {pending : List TaskTarget} {root y : TaskTarget}
    (hs : TaskSettledIn tasks t pending root y) : TaskSettledIn tasks t' pending root y :=
  fun deps hd dep hdep ↦ (hs deps hd dep hdep).mono h

section Grows

variable {pending : List TaskTarget} {root : TaskTarget}

theorem TaskGrows.refl (t : TaskGraphBuilder) : TaskGrows tasks pending root t t :=
  ⟨TaskExtends.refl t, fun _ hy hy' ↦ absurd hy hy'⟩

theorem TaskGrows.trans (h₁ : TaskGrows tasks pending root t₁ t₂)
    (h₂ : TaskGrows tasks pending root t₂ t₃) : TaskGrows tasks pending root t₁ t₃ := by
  refine ⟨h₁.1.trans h₂.1, fun y hy₃ hy₁ ↦ ?_⟩
  by_cases hy₂ : y ∈ t₂.nodeIds
  · obtain ⟨hl, hr, hs⟩ := h₁.2 y hy₂ hy₁
    exact ⟨h₂.1.loaded y hl, h₂.1.reach hr, hs.mono h₂.1⟩
  · exact h₂.2 y hy₃ hy₂

/-- A step that creates no node grows the task graph when it extends it. -/
theorem TaskGrows.of_extends (h : TaskExtends t t') (hnodes : t'.nodeIds = t.nodeIds) :
    TaskGrows tasks pending root t t' :=
  ⟨h, fun _ hy hy' ↦ absurd (hnodes ▸ hy) hy'⟩

/-- **A child's load, seen from its parent.**  Once the parent `p` reaches the child `w`, what the
load of `w` from a cycle set within `p :: pending` created is settled for the load of `p` from
`pending`: a dependency pending on `p` itself now has its path back. -/
theorem TaskGrows.lift {cycle : List TaskTarget} {p w : TaskTarget}
    (h : TaskGrows tasks cycle w t₁ t₂) (hcycle : ∀ y ∈ cycle, y ∈ p :: pending)
    (hext : TaskExtends t₂ t₃) (hnodes : t₃.nodeIds = t₂.nodeIds)
    (hpw : EdgeList.Reach t₃.pairs p w) : TaskGrows tasks pending p t₁ t₃ := by
  refine ⟨h.1.trans hext, fun y hy₃ hy₁ ↦ ?_⟩
  obtain ⟨hl, hr, hs⟩ := h.2 y (hnodes ▸ hy₃) hy₁
  have hpy : EdgeList.Reach t₃.pairs p y := Relation.ReflTransGen.trans hpw (hext.reach hr)
  refine ⟨hext.loaded y hl, hpy, fun deps hd dep hdep ↦ ?_⟩
  rcases hs deps hd dep hdep with hlink | ⟨hpend, -⟩
  · exact .inl (hlink.mono hext)
  · rcases List.mem_cons.1 (hcycle _ hpend) with heq | hpend'
    · -- pending on `p` itself, which reaches `y`
      rw [TaskLinkedIn, TaskLinked, heq]
      exact .inl (.inr hpy)
    · exact .inr ⟨hpend', hpy⟩

end Grows

/-! ### The invariant, step by step -/

theorem TaskInv.addNode (hinv : TaskInv tasks t) (target : TaskTarget) :
    TaskInv tasks (t.addNode target) :=
  ⟨hinv.acyclic, fun e he ↦ (hinv.edges e he).mono (taskExtends_addNode target)⟩

theorem TaskInv.setLoaded (hinv : TaskInv tasks t) (target : TaskTarget) :
    TaskInv tasks (t.setLoaded target) :=
  ⟨hinv.acyclic, fun e he ↦ (hinv.edges e he).mono (taskExtends_setLoaded target)⟩

/-- An edge the DAG accepts keeps the invariant. -/
theorem TaskInv.addEdge (hinv : TaskInv tasks t) {e : TaskEdge} (he : TaskPlaced tasks t e)
    (hr : ¬ EdgeList.Reach t.pairs e.target e.source) : TaskInv tasks (t.addEdge e) := by
  refine ⟨?_, fun e' he' ↦ ?_⟩
  · rw [TaskGraphBuilder.pairs_addEdge]
    exact EdgeList.acyclic_append_singleton hinv.acyclic hr
  · rcases List.mem_append.1 he' with he' | he'
    · exact (hinv.edges e' he').mono (taskExtends_addEdge e)
    · rw [List.mem_singleton.1 he']
      exact he.mono (taskExtends_addEdge e)

/-! ### Loading one task -/

variable {load : TaskTarget → List TaskTarget → TaskLoadState →
    Option (Except TaskLoadError TaskLoadResult)} {x : TaskTarget} {deps : List TaskDependency}
  {cycle : List TaskTarget}

/-- **One dependency.**  Dropping one in the cycle set leaves it pending, or linked when it is the
task itself; after the recursive load, an edge the DAG accepts links it.  Both keep the loop's
invariant and grow the task graph. -/
theorem loadTaskDependency_spec (hload : TaskLoaderSpec tasks data load)
    (hx : tasks.lookup x = some deps) {dep : TaskDependency} (hdep : dep ∈ deps)
    {s s' : List TaskTarget × TaskLoadState} (h : loadTaskDependency load x dep s = some (.ok s'))
    (hs : TaskLoopInv tasks data cycle x s) :
    TaskLoopInv tasks data cycle x s' ∧ TaskGrows tasks cycle x s.2.2 s'.2.2 ∧
      TaskLinkedIn s'.2.2 cycle x x dep := by
  obtain ⟨c, b, t⟩ := s
  obtain ⟨hb, hinv, hc, hxt⟩ := hs
  by_cases hin : dep.target ∈ c
  · -- dropped: it is `x` itself, or pending further up
    simp only [loadTaskDependency, if_pos hin] at h
    cases h
    refine ⟨⟨hb, hinv, hc, hxt⟩, TaskGrows.refl t, ?_⟩
    rcases List.mem_cons.1 (hc _ hin).2 with heq | hpend
    · rw [TaskLinkedIn, TaskLinked, heq]
      exact .inl (.inr .refl)
    · exact .inr ⟨hpend, .refl⟩
  · simp only [loadTaskDependency, if_neg hin] at h
    cases hl : load dep.target c (b, t) with
    | none => simp [hl] at h
    | some r =>
      cases r with
      | error e => simp [hl] at h
      | ok r =>
        obtain ⟨ro, c', b', t'⟩ := r
        have post := hload _ _ _ _ hl hb hinv fun y hy ↦ (hc y hy).1
        -- the dependency was not in the cycle set, so the call returns its node
        obtain ⟨-, rfl, hdept'⟩ := post.result.resolve_left fun h' ↦ hin h'.1
        have hxt' : x ∈ t'.nodeIds := post.grows.1.nodes x hxt
        simp only [hl] at h
        cases hadd : EdgeList.addEdge t'.pairs x dep.target with
        | none => simp [hadd] at h
        | some es =>
          simp only [hadd, Option.some.injEq, Except.ok.injEq] at h
          subst h
          have hplaced : TaskPlaced tasks t' ⟨x, dep.target, dep.dependencyType⟩ :=
            ⟨⟨deps, hx, dep, hdep, rfl, rfl⟩, hxt', hdept'⟩
          have hedge : EdgeList.Reach (t'.addEdge ⟨x, dep.target, dep.dependencyType⟩).pairs x
              dep.target := .single (by simp)
          refine ⟨⟨post.projects, post.inv.addEdge hplaced (EdgeList.not_reach_of_addEdge_eq_some hadd).1,
            fun y hy ↦ ⟨(post.cycleNodes y hy).1, (hc y (post.cycleNodes y hy).2).2⟩, hxt'⟩,
            post.grows.lift (fun y hy ↦ (hc y hy).2) (taskExtends_addEdge _) rfl hedge,
            .inl (.inl (by simp))⟩

/-- **The loop over the dependencies**, by the loop rule: it keeps the invariant, grows the task
graph, and leaves every dependency linked or pending. -/
theorem forSteps_loadTaskDependency (hload : TaskLoaderSpec tasks data load)
    (hx : tasks.lookup x = some deps) {s s' : List TaskTarget × TaskLoadState}
    (h : Fueled.forSteps (loadTaskDependency load x) deps s = some (.ok s'))
    (hs : TaskLoopInv tasks data cycle x s) :
    TaskLoopInv tasks data cycle x s' ∧ TaskGrows tasks cycle x s.2.2 s'.2.2 ∧
      ∀ dep ∈ deps, TaskLinkedIn s'.2.2 cycle x x dep :=
  Fueled.forSteps_rule (TaskLoopInv tasks data cycle x)
    (fun s s' ↦ TaskGrows tasks cycle x s.2.2 s'.2.2) (fun dep s ↦ TaskLinkedIn s.2.2 cycle x x dep)
    (fun s ↦ TaskGrows.refl s.2.2) (fun _ _ _ h₁ h₂ ↦ h₁.trans h₂)
    (fun (dep : TaskDependency) (s s' : List TaskTarget × TaskLoadState)
      (hq : TaskLinkedIn s.2.2 cycle x x dep) (hR : TaskGrows tasks cycle x s.2.2 s'.2.2) ↦
        hq.mono hR.1) deps
    (fun _ hdep _ _ h hs ↦ loadTaskDependency_spec hload hx hdep h hs) s s' h hs

/-- The end of a load of `x`: once its loop has linked its dependencies or left them pending, its
node is set loaded, and the load as a whole grows the task graph it started from. -/
theorem taskGrows_setLoaded (hx : tasks.lookup x = some deps) (hxt : x ∉ t.nodeIds)
    (hgrow : TaskGrows tasks cycle x (t.addNode x) t₁)
    (hlinked : ∀ dep ∈ deps, TaskLinkedIn t₁ cycle x x dep) :
    TaskGrows tasks cycle x t (t₁.setLoaded x) := by
  have hext : TaskExtends t (t₁.setLoaded x) :=
    ((taskExtends_addNode x).trans hgrow.1).trans (taskExtends_setLoaded x)
  refine ⟨hext, fun y hy hyt ↦ ?_⟩
  rw [TaskGraphBuilder.nodeIds_setLoaded] at hy
  by_cases hyx : y = x
  · -- the task itself: its loop linked its dependencies
    subst hyx
    refine ⟨NodeList.mem_setLoaded t₁.nodes (.inr rfl) hy, .refl, fun deps' hd dep hdep ↦ ?_⟩
    rw [hx, Option.some.injEq] at hd
    subst hd
    exact (hlinked dep hdep).mono (taskExtends_setLoaded y)
  · -- a task its loop loaded
    have hy' : y ∉ (t.addNode x).nodeIds := by simp [hyt, hyx]
    obtain ⟨hl, hr, hs⟩ := hgrow.2 y hy hy'
    exact ⟨NodeList.mem_setLoaded t₁.nodes (.inl hl) hy, (taskExtends_setLoaded x).reach hr,
      hs.mono (taskExtends_setLoaded x)⟩

/-- **`internal_load_task` meets its specification**, with any fuel, by induction on the fuel.
The load of the owning project keeps the project part loaded (`internalLoadProject_loaded`). -/
theorem internalLoadTask_spec : ∀ fuel, TaskLoaderSpec tasks data (internalLoadTask data tasks fuel)
  | 0 => fun _ _ _ _ h ↦ nomatch h
  | fuel + 1 => by
    intro x cycle st r h hb hinv hcycle
    obtain ⟨b, t⟩ := st
    by_cases hx : x ∈ cycle
    · rw [internalLoadTask, if_pos hx] at h
      cases h
      exact ⟨hb, hinv, TaskGrows.refl t, fun y hy ↦ ⟨hcycle y hy, hy⟩, .inl ⟨hx, rfl⟩⟩
    rw [internalLoadTask, if_neg hx] at h
    cases hl : tasks.lookup x with
    | none => simp [hl] at h
    | some deps =>
      simp only [hl] at h
      by_cases hn : x ∈ t.nodeIds
      · -- loaded already, or being loaded
        rw [if_pos hn] at h
        cases h
        exact ⟨hb, hinv, TaskGrows.refl t, fun y hy ↦ ⟨hcycle y hy, hy⟩, .inr ⟨hx, rfl, hn⟩⟩
      rw [if_neg hn] at h
      cases hp : internalLoadProject data (data.length + 1) x.projectId [] b with
      | none => simp [hp] at h
      | some rp =>
        rcases rp with e | ⟨_ | projectIndex, cp, b₁⟩
        · simp [hp] at h
        · simp [hp] at h
        · obtain ⟨hb₁, -, -⟩ := internalLoadProject_loaded hb hp
          simp only [hp] at h
          split at h
          · cases hloop : Fueled.forSteps (loadTaskDependency (internalLoadTask data tasks fuel) x)
                deps (x :: cycle, (b₁, t.addNode x)) with
            | none => simp [hloop] at h
            | some r' =>
              cases r' with
              | error e => simp [hloop] at h
              | ok s₁ =>
                obtain ⟨c₂, b₂, t₂⟩ := s₁
                simp only [hloop, Option.some.injEq, Except.ok.injEq] at h
                subst h
                have hs : TaskLoopInv tasks data cycle x (x :: cycle, (b₁, t.addNode x)) := by
                  refine ⟨hb₁, hinv.addNode x, fun y hy ↦ ⟨?_, hy⟩, by simp⟩
                  rcases List.mem_cons.1 hy with rfl | hy
                  · simp
                  · simp [hcycle y hy]
                obtain ⟨⟨hb₂, hinv₂, -, hx₂⟩, hgrow, hlinked⟩ :=
                  forSteps_loadTaskDependency (internalLoadTask_spec fuel) hl hloop hs
                exact ⟨hb₂, hinv₂.setLoaded x, taskGrows_setLoaded hl hn hgrow hlinked,
                  (fun _ h ↦ nomatch h), .inr ⟨hx, rfl, by simpa using hx₂⟩⟩
          · simp at h

/-! ### Loading every task -/

/-- **`load_task` keeps the project graph complete and the task graph loaded**: from an empty
cycle set nothing stays pending, and the load's own project edges are connected.  The task then
has a node, and every node stays. -/
theorem loadTask_complete {b b' : WorkspaceBuilder} (hb : Complete data b) (ht : TaskLoaded tasks t)
    {target : TaskTarget} (h : loadTask data tasks target (b, t) = some (.ok (b', t'))) :
    Complete data b' ∧ TaskLoaded tasks t' ∧ (∀ y ∈ t.nodeIds, y ∈ t'.nodeIds) ∧
      target ∈ t'.nodeIds := by
  unfold loadTask at h
  cases hl : internalLoadTask data tasks (tasks.length + 1) target [] (b, t) with
  | none => simp [hl] at h
  | some r =>
    cases r with
    | error e => simp [hl] at h
    | ok r =>
      obtain ⟨ro, cycle, b₁, t₁⟩ := r
      simp only [hl, Option.some.injEq, Except.ok.injEq, Prod.mk.injEq] at h
      obtain ⟨rfl, rfl⟩ := h
      have post := internalLoadTask_spec (tasks.length + 1) target [] (b, t) _ hl hb.toLoaded
        ht.inv (fun _ h ↦ nomatch h)
      -- each node is loaded and linked: an old one was, a new one has nothing pending
      have hnode : ∀ y ∈ t₁.nodeIds, (y, NodeState.loaded) ∈ t₁.nodes ∧
          ∀ deps, tasks.lookup y = some deps → ∀ dep ∈ deps, TaskLinked t₁ y dep := by
        intro y hy
        by_cases hyt : y ∈ t.nodeIds
        · exact ⟨post.grows.1.loaded y (ht.loaded y hyt),
            fun deps hd dep hdep ↦ (ht.settled y hyt deps hd dep hdep).mono post.grows.1⟩
        · obtain ⟨hl', -, hs⟩ := post.grows.2 y hy hyt
          exact ⟨hl', fun deps hd dep hdep ↦
            (hs deps hd dep hdep).resolve_right fun h' ↦ nomatch h'.1⟩
      obtain ⟨-, -, hid⟩ := post.result.resolve_left fun h' ↦ nomatch h'.1
      exact ⟨(connectDeferredProjectEdges_complete post.projects).1,
        ⟨post.inv, fun y hy ↦ (hnode y hy).1, fun y hy ↦ (hnode y hy).2⟩,
        post.grows.1.nodes, hid⟩

/-- **`load_tasks` keeps the project graph complete and the task graph loaded**, by the loop rule
over the targets it collects, and gives each of them a node. -/
theorem loadTasks_complete {b b' : WorkspaceBuilder} (hb : Complete data b)
    (ht : TaskLoaded tasks t) (h : loadTasks data tasks (b, t) = some (.ok (b', t'))) :
    Complete data b' ∧ TaskLoaded tasks t' ∧ ∀ target ∈ taskTargets tasks b, target ∈ t'.nodeIds := by
  obtain ⟨⟨hb', ht'⟩, -, htargets⟩ := Fueled.forSteps_rule
    (fun st : TaskLoadState ↦ Complete data st.1 ∧ TaskLoaded tasks st.2)
    (fun st st' ↦ ∀ y ∈ st.2.nodeIds, y ∈ st'.2.nodeIds) (fun target st ↦ target ∈ st.2.nodeIds)
    (fun _ _ h ↦ h) (fun _ _ _ h₁ h₂ y hy ↦ h₂ y (h₁ y hy)) (fun _ _ _ hq hR ↦ hR _ hq)
    (taskTargets tasks b)
    (fun _ _ st st' h hs ↦ by
      obtain ⟨hb', ht', hnodes, htarget⟩ := loadTask_complete hs.1 hs.2 h
      exact ⟨⟨hb', ht'⟩, hnodes, htarget⟩)
    (b, t) (b', t') h ⟨hb, ht⟩
  exact ⟨hb', ht', htargets⟩

/-! ### Enough fuel -/

/-- A turn of the loop runs out of fuel only where the recursive load does. -/
theorem loadTaskDependency_ne_none {dep : TaskDependency} {s : List TaskTarget × TaskLoadState}
    (h : dep.target ∉ s.1 → load dep.target s.1 s.2 ≠ none) :
    loadTaskDependency load x dep s ≠ none := by
  obtain ⟨c, b, t⟩ := s
  by_cases hin : dep.target ∈ c
  · simp [loadTaskDependency, hin]
  · simp only [loadTaskDependency, if_neg hin]
    cases hl : load dep.target c (b, t) with
    | none => exact absurd hl (h hin)
    | some r =>
      rcases r with e | ⟨_ | depIndex, c', b', t'⟩
      · simp
      · simp
      · simp only
        split <;> simp

/-- **Enough fuel.**  A task load with more fuel than there are tasks without a node does not run
out: each recursive call comes after the task got its node, with one unit less, and the load of
the owning project has fuel enough of its own. -/
theorem internalLoadTask_ne_none : ∀ (fuel : ℕ) (x : TaskTarget) (cycle : List TaskTarget)
    (b : WorkspaceBuilder) (t : TaskGraphBuilder), Loaded data b → TaskInv tasks t →
    (∀ y ∈ cycle, y ∈ t.nodeIds) → unloadedTasks tasks t < fuel →
    internalLoadTask data tasks fuel x cycle (b, t) ≠ none
  | 0, _, _, _, _, _, _, _, hfuel => absurd hfuel (Nat.not_lt_zero _)
  | fuel + 1, x, cycle, b, t, hb, hinv, hcycle, hfuel => by
    rw [internalLoadTask]
    by_cases hx : x ∈ cycle
    · rw [if_pos hx]
      simp
    rw [if_neg hx]
    cases hl : tasks.lookup x with
    | none => simp
    | some deps =>
      simp only
      by_cases hn : x ∈ t.nodeIds
      · rw [if_pos hn]
        simp
      rw [if_neg hn]
      have hproject := internalLoadProject_ne_none (data.length + 1) x.projectId [] b hb.inv
        (fun _ h ↦ nomatch h) (Nat.lt_succ_of_le (NodeList.unvisited_le_length.trans (by simp)))
      cases hp : internalLoadProject data (data.length + 1) x.projectId [] b with
      | none => exact absurd hp hproject
      | some rp =>
        rcases rp with e | ⟨_ | projectIndex, cp, b₁⟩
        · simp
        · simp
        · obtain ⟨hb₁, -, -⟩ := internalLoadProject_loaded hb hp
          simp only
          split
          · have hlt : unloadedTasks tasks (t.addNode x) < fuel :=
              Nat.lt_of_lt_of_le (NodeList.unvisited_add_lt (mem_keys_of_lookup hl) hn)
                (Nat.lt_succ_iff.1 hfuel)
            -- the loop's states extend `t.addNode x`, so the recursive calls have fuel enough
            have hloop : Fueled.forSteps (loadTaskDependency (internalLoadTask data tasks fuel) x)
                deps (x :: cycle, (b₁, t.addNode x)) ≠ none := by
              refine Fueled.forSteps_ne_none
                (fun s ↦ TaskLoopInv tasks data cycle x s ∧ TaskExtends (t.addNode x) s.2.2) deps
                (fun dep hdep s hs ↦ ⟨loadTaskDependency_ne_none fun _ ↦ ?_, fun s' h ↦ ?_⟩) _
                ⟨?_, TaskExtends.refl _⟩
              · exact internalLoadTask_ne_none fuel dep.target s.1 s.2.1 s.2.2 hs.1.1 hs.1.2.1
                  (fun y hy ↦ (hs.1.2.2.1 y hy).1)
                  (Nat.lt_of_le_of_lt (NodeList.unvisited_le hs.2.nodes) hlt)
              · obtain ⟨hs', hgrow, -⟩ :=
                  loadTaskDependency_spec (internalLoadTask_spec fuel) hl hdep h hs.1
                exact ⟨hs', hs.2.trans hgrow.1⟩
              · refine ⟨hb₁, hinv.addNode x, fun y hy ↦ ⟨?_, hy⟩, by simp⟩
                rcases List.mem_cons.1 hy with rfl | hy
                · simp
                · simp [hcycle y hy]
            cases hr : Fueled.forSteps (loadTaskDependency (internalLoadTask data tasks fuel) x)
                deps (x :: cycle, (b₁, t.addNode x)) with
            | none => exact absurd hr hloop
            | some r => cases r <;> simp
          · simp

/-- `load_task` always returns: its fuel exceeds the number of tasks. -/
theorem loadTask_ne_none {b : WorkspaceBuilder} (hb : Complete data b) (ht : TaskLoaded tasks t)
    (target : TaskTarget) : loadTask data tasks target (b, t) ≠ none := by
  unfold loadTask
  have h := internalLoadTask_ne_none (tasks.length + 1) target [] b t hb.toLoaded ht.inv
    (fun _ h ↦ nomatch h) (Nat.lt_succ_of_le (NodeList.unvisited_le_length.trans (by simp)))
  cases hr : internalLoadTask data tasks (tasks.length + 1) target [] (b, t) with
  | none => exact absurd hr h
  | some r => rcases r with e | ⟨_, _, _, _⟩ <;> simp

/-- `load_tasks` always returns. -/
theorem loadTasks_ne_none {b : WorkspaceBuilder} (hb : Complete data b) (ht : TaskLoaded tasks t) :
    loadTasks data tasks (b, t) ≠ none :=
  Fueled.forSteps_ne_none (fun st : TaskLoadState ↦ Complete data st.1 ∧ TaskLoaded tasks st.2)
    (taskTargets tasks b)
    (fun _ _ _ hs ↦ ⟨loadTask_ne_none hs.1 hs.2 _, fun _ h ↦
      let ⟨hb', ht', _⟩ := loadTask_complete hs.1 hs.2 h
      ⟨hb', ht'⟩⟩) (b, t) ⟨hb, ht⟩

/-- The task graph `WorkspaceBuilder::new` starts from is loaded. -/
theorem taskLoaded_empty : TaskLoaded tasks {} :=
  ⟨⟨EdgeList.acyclic_iff.2 fun _ _ he ↦ by simp [TaskGraphBuilder.pairs] at he,
    (fun _ he ↦ nomatch he)⟩, (fun _ hy ↦ nomatch hy), (fun _ hy ↦ nomatch hy)⟩

end Lemmas

/-! ## Loading the workspace -/

/-- **Loading the workspace keeps each partition acyclic.**  `load_projects` from a new builder
returns, and when it succeeds: both partitions of the project graph are acyclic and `build` keeps
every edge; every configured project has a node; every edge is declared; and every declared
dependency that names a configured id and is not on the root project is an edge or would close a
cycle within its partition.  `load_tasks` then returns, and when it succeeds: the project graph
still builds whole, the task graph is acyclic, its edges are declared, every collected target has
a node, and every dependency of a loaded task is an edge or would close a cycle. -/
theorem workspace_loading_keeps_partitions_acyclic (data : ProjectData) (tasks : TaskData) :
    loadProjects data {} ≠ none ∧
    ∀ b, loadProjects data {} = some (.ok b) →
      (∀ production, EdgeList.Acyclic (partitionEdges b.edges production)) ∧
      b.buildProjectGraph = .ok ⟨b.edges, partitionEdges b.edges true, partitionEdges b.edges false⟩ ∧
      (∀ id ∈ data.map Prod.fst, id ∈ b.nodeIds) ∧
      (∀ e ∈ b.edges, Declared data e) ∧
      (∀ id build, data.lookup id = some build → ∀ dep ∈ build.dependencies,
        dep.isRootScope = false → dep.id ∈ data.map Prod.fst →
        ⟨id, dep.id, dep.scope⟩ ∈ b.edges ∨
          EdgeList.Reach (partitionEdges b.edges dep.scope.isProductionGroup) dep.id id) ∧
      loadTasks data tasks (b, {}) ≠ none ∧
      ∀ b' t, loadTasks data tasks (b, {}) = some (.ok (b', t)) →
        b'.buildProjectGraph
          = .ok ⟨b'.edges, partitionEdges b'.edges true, partitionEdges b'.edges false⟩ ∧
        EdgeList.Acyclic t.pairs ∧
        (∀ e ∈ t.edges, TaskDeclared tasks e) ∧
        (∀ target ∈ taskTargets tasks b, target ∈ t.nodeIds) ∧
        (∀ target ∈ t.nodeIds, ∀ deps, tasks.lookup target = some deps → ∀ dep ∈ deps,
          ⟨target, dep.target, dep.dependencyType⟩ ∈ t.edges ∨
            EdgeList.Reach t.pairs dep.target target) := by
  refine ⟨loadProjects_ne_none complete_empty, fun b hb ↦ ?_⟩
  obtain ⟨hc, hids⟩ := loadProjects_complete complete_empty hb
  refine ⟨hc.inv.acyclic, buildProjectGraph_of_complete hc, hids, fun e he ↦ (hc.inv.edges e he).1,
    fun id build hd dep hdep hroot hid ↦ ?_, loadTasks_ne_none hc taskLoaded_empty,
    fun b' t ht ↦ ?_⟩
  · -- every configured project has a node, and nothing is left deferred
    rcases hc.settled id (hids id (mem_keys_of_lookup hd)) build hd dep hdep hroot hid with
      he | hdef | hr
    · exact .inl he
    · rw [hc.deferred] at hdef
      cases hdef
    · exact .inr hr
  · obtain ⟨hc', ht', htargets⟩ := loadTasks_complete hc taskLoaded_empty ht
    exact ⟨buildProjectGraph_of_complete hc', ht'.inv.acyclic, fun e he ↦ (ht'.inv.edges e he).1,
      htargets, ht'.settled⟩

/-- A production dependency one way, named by an alias, and a development dependency back: the
alias resolves, the cycle crosses the partitions, so both edges stay, and a task graph over the
two projects loads. -/
theorem cross_partition_cycle_is_kept :
    ∃ b t, loadProjects [("a", { dependencies := [⟨"B", .production⟩] }),
          ("b", { aliases := ["B"], dependencies := [⟨"a", .development⟩] })] {}
        = some (.ok b) ∧
      b.edges = [⟨"a", "b", .production⟩, ⟨"b", "a", .development⟩] ∧
      (∀ production, EdgeList.Acyclic (partitionEdges b.edges production)) ∧
      loadTasks [("a", { dependencies := [⟨"B", .production⟩] }),
          ("b", { aliases := ["B"], dependencies := [⟨"a", .development⟩] })]
          [(⟨"a", "build"⟩, [{ target := ⟨"b", "build"⟩ }]), (⟨"b", "build"⟩, [])] (b, {})
        = some (.ok (b, t)) ∧
      t.edges = [⟨⟨"a", "build"⟩, ⟨"b", "build"⟩, .required⟩] ∧ EdgeList.Acyclic t.pairs := by
  let b : WorkspaceBuilder :=
    { nodes := [("a", .loaded), ("b", .loaded)]
      edges := [⟨"a", "b", .production⟩, ⟨"b", "a", .development⟩] }
  let t : TaskGraphBuilder :=
    { nodes := [(⟨"a", "build"⟩, .loaded), (⟨"b", "build"⟩, .loaded)]
      edges := [⟨⟨"a", "build"⟩, ⟨"b", "build"⟩, .required⟩] }
  have hp : loadProjects [("a", { dependencies := [⟨"B", .production⟩] }),
      ("b", { aliases := ["B"], dependencies := [⟨"a", .development⟩] })] {} = some (.ok b) := rfl
  have ht : loadTasks [("a", { dependencies := [⟨"B", .production⟩] }),
        ("b", { aliases := ["B"], dependencies := [⟨"a", .development⟩] })]
      [(⟨"a", "build"⟩, [{ target := ⟨"b", "build"⟩ }]), (⟨"b", "build"⟩, [])] (b, {})
      = some (.ok (b, t)) := rfl
  obtain ⟨hac, -, -, -, -, -, htasks⟩ := (workspace_loading_keeps_partitions_acyclic
    [("a", { dependencies := [⟨"B", .production⟩] }),
      ("b", { aliases := ["B"], dependencies := [⟨"a", .development⟩] })]
    [(⟨"a", "build"⟩, [{ target := ⟨"b", "build"⟩ }]), (⟨"b", "build"⟩, [])]).2 b hp
  exact ⟨b, t, hp, rfl, hac, ht, rfl, (htasks b t ht).2.1⟩

/-- Cycles within a partition are handled by order.  With `a` depending on `c` and then `b`, and
`b` on `a`, loading fails with `WouldCycle`: `c` clears the cycle set, so `b` links straight back
to `a`, and `a`'s own edge to `b` then closes the cycle; with `b` before `c` it loads.  The order
of loading decides which edge of `a ↔ b` stays.  Tasks behave the same way.  And a dependency
named by an alias of a project being loaded further up is dropped, not deferred: the cycle set
holds ids, so the alias is loaded, resolves to a project in the set, and comes back empty.  With
`x` depending on `y` for development and `y` on `x` for production, the production edge stays
when `y` names `x` by its id, and is lost when it names it by its alias `X`, though it closes no
cycle in its partition. -/
theorem cycle_handling_depends_on_order :
    loadProjects [("a", { dependencies := [⟨"c", .production⟩, ⟨"b", .production⟩] }),
        ("b", { dependencies := [⟨"a", .production⟩] }), ("c", {})] {}
      = some (.error (.wouldCycle "a" "b")) ∧
    loadProjects [("a", { dependencies := [⟨"b", .production⟩, ⟨"c", .production⟩] }),
        ("b", { dependencies := [⟨"a", .production⟩] }), ("c", {})] {}
      = some (.ok
          { nodes := [("a", .loaded), ("b", .loaded), ("c", .loaded)],
            edges := [⟨"a", "b", .production⟩, ⟨"a", "c", .production⟩] }) ∧
    loadProjects [("a", { dependencies := [⟨"b", .production⟩] }),
        ("b", { dependencies := [⟨"a", .production⟩] })] {}
      = some (.ok { nodes := [("a", .loaded), ("b", .loaded)], edges := [⟨"a", "b", .production⟩] }) ∧
    loadProjects [("b", { dependencies := [⟨"a", .production⟩] }),
        ("a", { dependencies := [⟨"b", .production⟩] })] {}
      = some (.ok { nodes := [("b", .loaded), ("a", .loaded)], edges := [⟨"b", "a", .production⟩] }) ∧
    loadProjects [("p", {})] {} = some (.ok { nodes := [("p", .loaded)] }) ∧
    loadTasks [("p", {})] [(⟨"p", "a"⟩, [{ target := ⟨"p", "c"⟩ }, { target := ⟨"p", "b"⟩ }]),
        (⟨"p", "b"⟩, [{ target := ⟨"p", "a"⟩ }]), (⟨"p", "c"⟩, [])] ({ nodes := [("p", .loaded)] }, {})
      = some (.error (.wouldCycle "p:a" "p:b")) ∧
    loadProjects [("x", { aliases := ["X"], dependencies := [⟨"y", .development⟩] }),
        ("y", { dependencies := [⟨"x", .production⟩] })] {}
      = some (.ok
          { nodes := [("x", .loaded), ("y", .loaded)],
            edges := [⟨"x", "y", .development⟩, ⟨"y", "x", .production⟩] }) ∧
    loadProjects [("x", { aliases := ["X"], dependencies := [⟨"y", .development⟩] }),
        ("y", { dependencies := [⟨"X", .production⟩] })] {}
      = some (.ok
          { nodes := [("x", .loaded), ("y", .loaded)], edges := [⟨"x", "y", .development⟩] }) :=
  ⟨rfl, rfl, rfl, rfl, rfl, rfl, rfl, rfl⟩

end Moon
