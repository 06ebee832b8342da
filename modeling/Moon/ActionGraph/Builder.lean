import Moon.Action.ActionNode
import Moon.ActionGraph.Jobs
import Moon.Affected.AffectedTracker
import Moon.Query.Builder
import Moon.Lib.DiGraph
import Moon.Lib.Intern
import Moon.Lib.Triple
import Mathlib.Data.List.ReduceOption

/-!
# The action graph builder: its state, and the graph operations every action is made of

`ActionGraphBuilder` (`crates/action-graph/src/action_graph_builder.rs`) builds the pipeline's
graph of actions in a `daggy::Dag`, and keeps beside it the map `nodes` from each action to its
index, so that an action is added once: `insert_node_if_missing!` and `insert_node_or_exit!`
look the action up before `insert_node` adds it.  Every public method is made of a few graph
operations, all of them here:

* `getIndexFromNode` and `insertNode`, the lookup and the insertion;
* `linkRequirements` (and `linkOptionalRequirements`, `linkFirstRequirement`), which add an edge
  from an action to each action it requires, unless `find_edge` finds one, and fail with
  `WouldCycle` when daggy refuses it;
* `tryLinkRequirements`, which adds a serial ordering edge, skips it when it would close a cycle,
  and records it in `serial_edges`; `linkSerialRequirements` adds one from each task of a
  dependency's subtree, found by `serialWalk` before any edge is added.

The builder keeps `Inv`: the map inverts the list of node weights (an action is found exactly at
its index, and no action is in the graph twice), no two edges join the same two nodes, every
recorded serial edge is an edge, and the workspace sync and proto's setup never require anything.
It only ever appends nodes and edges (`Extends`), and the methods that prepare a task add no
task's action (`Grows`).  `Spec` is the triple of `EStateM.Triple` with `Inv`, `Grows` and the
guard that daggy never panics: no edge is added from or to an index that is not a node.  Each
operation here has its spec (`insertNode_spec`, `linkRequirements_spec`,
`linkSerialRequirements_spec`, …); the actions are built on them in
`Moon.ActionGraph.BuilderActions` and `Moon.ActionGraph.BuilderRunTask`.

The sets and maps of `rustc_hash` are lists: a set holds each item once (`List.insert`), and a map
is an `IndexMap`.  `nodes` is keyed by the derived equality of `ActionNode`.  What the builder
reads of the workspace graph, of the toolchain plugins and of the configuration is `BuilderEnv`.
-/

set_option autoImplicit false

namespace Moon

open Petgraph

/-! ## Requirements, options and errors -/

/-- `UpstreamScope::is_in_scope`: whether the dependencies of a task at a depth are run. -/
def UpstreamScope.isInScope : UpstreamScope → UInt8 → Bool
  | .none, _ => false
  | .direct, depth => depth == 0
  | .deep, _ => true

/-- `DownstreamScope::is_in_scope`: whether the dependents of a task at a depth are run. -/
def DownstreamScope.isInScope : DownstreamScope → UInt8 → Bool
  | .none, _ => false
  | .direct, depth => depth == 0
  | .deep, _ => true

/-- `RunRequirements`, with the defaults of its `Default`; `ci` is `is_ci()` there. -/
structure RunRequirements where
  ci : Bool
  ciCheck : Bool := false
  dependencies : UpstreamScope := .deep
  dependents : DownstreamScope := .none
  includeRelations : Bool := false
  interactive : Bool := false
  job : Option ℕ := none
  jobTotal : Option ℕ := none
  skipAffected : Bool := false

/-- `RunTaskState`: how deep in the run a task is, and whether it was reached through a
dependency. -/
structure RunTaskState where
  depth : UInt8 := 0
  viaDependency : Bool := false

/-- `PipelineActionSwitch`. -/
inductive PipelineActionSwitch where
  | default
  | enabled (value : Bool)
  | only (list : List String)

/-- `PipelineActionSwitch::is_enabled`. -/
def PipelineActionSwitch.isEnabled : PipelineActionSwitch → String → Bool
  | .default, _ => true
  | .enabled value, _ => value
  | .only list, id => list.contains id

/-- `ActionGraphBuilderOptions`. -/
structure ActionGraphBuilderOptions where
  installDependencies : PipelineActionSwitch
  setupEnvironment : PipelineActionSwitch
  setupToolchains : PipelineActionSwitch
  syncProjects : PipelineActionSwitch
  syncProjectDependencies : Bool
  syncWorkspace : Bool

/-- `ActionGraphBuilderOptions::new`: every action on, or every action off. -/
def ActionGraphBuilderOptions.new (state : Bool) : ActionGraphBuilderOptions where
  installDependencies := .enabled state
  setupEnvironment := .enabled state
  setupToolchains := .enabled state
  syncProjects := .enabled state
  syncProjectDependencies := state
  syncWorkspace := state

/-- What a method of the builder fails with.  The builder's own errors, a target's, a project's
unknown task, a missing default project and an id `Id::new` refuses are the source's; the reports
of the workspace graph and of a plugin pass through `?` as `external`.  Three are panics of the
source: `targetPanic`, when `Target::get_project_id` slices a target at a bad index,
`affectedPanic`, when `set_affected` finds no changed files to `expect`, and `graphPanic`, when
daggy is asked for an edge whose end is not a node.  `outOfFuel` is the model's bound on the
recursion. -/
inductive BuilderError where
  | actionGraph (e : ActionGraphError)
  | target (e : TargetError)
  | unknownTask (taskId projectId : String)
  | noDefaultProjectForTask (taskId : String)
  | invalidId (id : String)
  | external (report : String)
  | targetPanic
  | affectedPanic
  | graphPanic
  | outOfFuel
  deriving DecidableEq, Repr

/-! ## What the builder reads -/

/-- `ToolchainPluginConfig` of the workspace's toolchains, by the fields the builder reads. -/
structure ToolchainPluginConfig where
  version : Option String
  installDependencies : Bool

/-- `ProjectToolchainEntry`: a project's setting for a toolchain. -/
inductive ProjectToolchainEntry where
  | disabled
  | enabled (state : Bool)
  | object (config : ToolchainPluginConfig)

/-- `ProjectToolchainEntry::is_enabled`. -/
def ProjectToolchainEntry.isEnabled : ProjectToolchainEntry → Bool
  | .disabled => false
  | .enabled state => state
  | .object _ => true

/-- `ProjectToolchainEntry::get_version`. -/
def ProjectToolchainEntry.getVersion : ProjectToolchainEntry → Option String
  | .object config => config.version
  | _ => none

/-- `DefineRequirementsOutput`: the toolchains a toolchain requires, and for which actions. -/
structure DefineRequirementsOutput where
  requires : List String
  forSetupEnvironment : Bool
  forSetupToolchain : Bool

/-- `DependenciesWorkspace`: a located dependencies root, and its members when it is a
multi-package workspace. -/
structure DependenciesWorkspace where
  root : String
  members : Option (List String)

/-- `DependenciesWorkspaceRole`. -/
inductive DependenciesWorkspaceRole where
  | workspaceRoot
  | workspaceMember
  | packageRoot
  deriving DecidableEq

/-- A loaded toolchain plugin, by the calls the builder makes to it.  A call that takes a
project's merged configuration takes the project, and the workspace's without one. -/
structure ToolchainPlugin where
  defineRequirements : Option Project → Except String DefineRequirementsOutput
  supportsTier2 : Bool
  supportsTier3 : Bool
  hasFunc : String → Bool
  locateDependenciesRoot : Option Project → Except String (Option DependenciesWorkspace)
  inDependenciesWorkspace :
    DependenciesWorkspace → String → Except String (Option DependenciesWorkspaceRole)

/-- What the builder reads of the workspace graph. -/
structure BuilderWorkspace where
  getProject : String → Except String Project
  getProjects : Except String (List Project)
  queryProjects : Query.Criteria → Except String (List Project)
  getDefaultProject : Except String Project
  getProjectFromPath : Except String Project
  getTaskFromProject : String → String → Except String Task
  getTasksFromProject : String → Except String (List Task)
  getTasksWithInternal : Except String (List Task)
  queryTasks : Query.Criteria → Except String (List Task)
  /-- `projects.dependencies_of`: the ids of a project's dependencies. -/
  projectDependencies : Project → List String
  /-- `tasks.dependents_of`: the targets of the tasks that depend on a task. -/
  taskDependents : Task → List Target

/-- Everything else the builder reads: its options, the workspace graph, the toolchain registry
and configuration, and the parts of other crates it calls. -/
structure BuilderEnv where
  options : ActionGraphBuilderOptions
  workspace : BuilderWorkspace
  /-- `toolchain_registry.load`. -/
  loadToolchain : String → Except String ToolchainPlugin
  /-- `toolchains_config.get_plugin_config`. -/
  workspacePluginConfig : String → Option ToolchainPluginConfig
  /-- `project.config.toolchains.get_plugin_config`. -/
  projectPluginConfig : Project → String → Option ProjectToolchainEntry
  /-- `toolchains_config.requires_proto()`. -/
  requiresProto : Bool
  /-- `toolchains_config.proto.version`. -/
  protoVersion : String
  workspaceRoot : String
  /-- A project's absolute root. -/
  projectRoot : Project → String
  /-- `root.relative_to(workspace_root)`. -/
  relativeTo : String → Except String String
  /-- `Id::new`. -/
  idRules : IdRules
  /-- `build_query`, over the query parser. -/
  buildQuery : String → Except String Query.Criteria
  /-- `Task::is_internal`, the task option `internal`. -/
  isInternal : Task → Bool
  /-- The hasher `ActionNode::run_task` finishes a task's id with. -/
  finish : List HashWrite → UInt64
  /-- `is_test_env()`, read by `ActionNode::label`. -/
  testEnv : Bool
  /-- The workspace graph and the checks the affected tracker reads. -/
  affectedGraph : AffectedGraph
  affectedEnv : AffectedEnv
  /-- `experiments.async_affected_tracking`. -/
  asyncAffectedTracking : Bool

/-- A workspace of one project `app` with one task `app:build`, no toolchain and no query
language, every action on: the environment the concrete runs below are evaluated in. -/
def BuilderEnv.appBuild : BuilderEnv :=
  let app : Project := { id := "app" }
  let build : Task := { id := "build", target := ⟨"app:build", .id, .id, 3⟩ }
  { options := ActionGraphBuilderOptions.new true
    workspace :=
      { getProject := fun id ↦ if id = "app" then .ok app else .error "unknown project"
        getProjects := .ok [app]
        queryProjects := fun _ ↦ .ok [app]
        getDefaultProject := .ok app
        getProjectFromPath := .ok app
        getTaskFromProject := fun projectId taskId ↦
          if projectId = "app" ∧ taskId = "build" then .ok build else .error "unknown task"
        getTasksFromProject := fun projectId ↦ .ok (if projectId = "app" then [build] else [])
        getTasksWithInternal := .ok [build]
        queryTasks := fun _ ↦ .ok [build]
        projectDependencies := fun _ ↦ []
        taskDependents := fun _ ↦ [] }
    loadToolchain := fun _ ↦ .error "unknown toolchain"
    workspacePluginConfig := fun _ ↦ none
    projectPluginConfig := fun _ _ ↦ none
    requiresProto := false
    protoVersion := ""
    workspaceRoot := "/workspace"
    projectRoot := fun project ↦ "/workspace/" ++ project.source
    relativeTo := .ok
    idRules := ⟨Char.isAlphanum, fun _ h ↦ h, rfl⟩
    buildQuery := fun _ ↦ .error "no query language"
    isInternal := fun _ ↦ false
    finish := fun _ ↦ 0
    testEnv := false
    affectedGraph :=
      { getProject := fun id ↦ if id = "app" then .ok app else .error "unknown project"
        getProjects := .ok [app]
        getTask := fun target ↦ if target = build.target then .ok build else .error "unknown task"
        projectDependents := fun _ ↦ []
        taskDependents := fun _ ↦ []
        size := 1 }
    affectedEnv :=
      { envVar := fun _ ↦ none
        createGlobset := fun _ ↦ .ok fun _ ↦ false
        readFile := fun _ ↦ none
        isMatch := fun _ _ ↦ false
        pathStartsWith := fun _ _ ↦ false }
    asyncAffectedTracking := false }

/-! ## The builder -/

/-- `ActionGraphBuilder`, with the defaults of `ActionGraphBuilder::new`: the graph of actions,
the map from each action to its index, and the tracking beside them. -/
structure ActionGraphBuilder where
  allQuery : Option Query.Criteria := none
  graph : Dag ActionNode TaskDependencyType := Dag.empty
  nodes : List (ActionNode × ℕ) := []
  affected : Option AffectedTracker := none
  changedFiles : Option (List String) := none
  ignoredDependencies : List (Target × List Target) := []
  ignoredDependents : List Target := []
  passthroughTargets : List Target := []
  primaryTargets : List Target := []
  serialEdges : List ℕ := []

/-- A method of the builder: it takes `&mut self` and returns a `miette::Result`. -/
abbrev BuilderM := EStateM BuilderError ActionGraphBuilder

namespace ActionNode

/-- The actions that never require another: the workspace sync and proto's setup. -/
def isSink : ActionNode → Bool
  | .syncWorkspace | .setupProto _ => true
  | _ => false

/-- A task's action. -/
def isRunTask : ActionNode → Bool
  | .runTask _ => true
  | _ => false

theorem isSink_eq_false_of_isRunTask {n : ActionNode} (h : n.isRunTask = true) :
    n.isSink = false := by
  cases n <;> first | rfl | cases h

end ActionNode

namespace ActionGraphBuilder

variable {α : Type}

/-- The action at an index of the graph. -/
def nodeAt (b : ActionGraphBuilder) (i : ℕ) : Option ActionNode := b.graph.graph.nodes[i]?

/-- `b'` extends `b`: the builder only ever appends nodes and edges. -/
def Extends (b b' : ActionGraphBuilder) : Prop :=
  b.graph.graph.nodes <+: b'.graph.graph.nodes ∧ b.graph.graph.edges <+: b'.graph.graph.edges

instance : Std.Refl Extends := ⟨fun _ ↦ ⟨List.prefix_refl _, List.prefix_refl _⟩⟩

instance : IsTrans ActionGraphBuilder Extends :=
  ⟨fun _ _ _ h₁ h₂ ↦ ⟨h₁.1.trans h₂.1, h₁.2.trans h₂.2⟩⟩

variable {b b' b'' : ActionGraphBuilder} {i : ℕ} {n : ActionNode}

/-- An action at an index stays there. -/
theorem Extends.nodeAt (h : Extends b b') (hi : b.nodeAt i = some n) : b'.nodeAt i = some n := by
  obtain ⟨t, ht⟩ := h.1
  unfold ActionGraphBuilder.nodeAt at hi ⊢
  rw [← ht, List.getElem?_append_left (List.getElem?_eq_some_iff.1 hi).1]
  exact hi

/-- `b'` has grown from `b` by actions that are not tasks: what the methods that prepare a task
leave. -/
def Grows (b b' : ActionGraphBuilder) : Prop :=
  Extends b b' ∧ ∀ i n, b'.nodeAt i = some n → b.nodeAt i = none → n.isRunTask = false

theorem Grows.trans (h₁ : Grows b b') (h₂ : Grows b' b'') : Grows b b'' := by
  refine ⟨trans_of Extends h₁.1 h₂.1, fun i n hn hnone ↦ ?_⟩
  cases hmid : b'.nodeAt i with
  | none => exact h₂.2 i n hn hmid
  | some m =>
    -- the action was added in the first part, and stays
    rw [h₂.1.nodeAt hmid, Option.some.injEq] at hn
    exact hn ▸ h₁.2 i m hmid hnone

instance : Std.Refl Grows :=
  ⟨fun b ↦ ⟨refl_of Extends b, fun _ _ hn hnone ↦ by rw [hnone] at hn; cases hn⟩⟩

instance : IsTrans ActionGraphBuilder Grows := ⟨fun _ _ _ ↦ Grows.trans⟩

/-- A graph with the same nodes and more edges has grown. -/
theorem grows_of_nodes_eq (hn : b'.graph.graph.nodes = b.graph.graph.nodes)
    (he : b.graph.graph.edges <+: b'.graph.graph.edges) : Grows b b' := by
  have hat : ∀ i, b'.nodeAt i = b.nodeAt i := fun i ↦ by
    unfold ActionGraphBuilder.nodeAt
    rw [hn]
  refine ⟨⟨hn ▸ List.prefix_refl _, he⟩, fun i m hm hnone ↦ ?_⟩
  rw [hat, hnone] at hm
  cases hm

/-- What the builder keeps true of its graph. -/
structure Inv (b : ActionGraphBuilder) : Prop where
  /-- `nodes` files each action of the graph under its index, and nothing else. -/
  inverts : IndexMap.Inverts b.nodes b.graph.graph.nodes
  /-- No two edges join the same two nodes: a link looks for the edge first. -/
  pairs_nodup : b.graph.graph.pairs.Nodup
  serial_lt : ∀ e ∈ b.serialEdges, e < b.graph.graph.edges.length
  /-- The workspace sync and proto's setup require nothing. -/
  source_not_sink : ∀ e ∈ b.graph.graph.edges, ∀ n, b.nodeAt e.source = some n → n.isSink = false

/-- `ActionGraphBuilder::new`: an empty graph, nothing tracked. -/
def new : ActionGraphBuilder := {}

theorem inv_new : new.Inv :=
  ⟨IndexMap.inverts_nil, List.nodup_nil, fun _ h ↦ absurd h List.not_mem_nil,
    fun _ h ↦ absurd h List.not_mem_nil⟩

/-- The triples of the methods that prepare a task: they keep `Inv`, grow the graph by actions
that are not tasks, and never make daggy panic. -/
abbrev Spec (P : ActionGraphBuilder → Prop) (x : BuilderM α)
    (Q : α → ActionGraphBuilder → Prop) : Prop :=
  EStateM.Triple Inv Grows (· ≠ BuilderError.graphPanic) P x Q

/-- `i` names an action of the graph that may require others. -/
def Requiring (b : ActionGraphBuilder) (i : ℕ) : Prop :=
  ∃ n, b.nodeAt i = some n ∧ n.isSink = false

/-- Every index of the list names an action. -/
def AllNodes (b : ActionGraphBuilder) (edges : List ℕ) : Prop :=
  ∀ e ∈ edges, ∃ n, b.nodeAt e = some n

/-- Every index a list of optional indexes holds names an action. -/
def OptNodes (b : ActionGraphBuilder) (edges : List (Option ℕ)) : Prop :=
  ∀ e ∈ edges, ∀ i ∈ e, ∃ n, b.nodeAt i = some n

theorem optNodes_nil : b.OptNodes [] := fun _ he ↦ absurd he List.not_mem_nil

theorem optNodes_cons {o : Option ℕ} {edges : List (Option ℕ)} :
    b.OptNodes (o :: edges) ↔ (∀ i ∈ o, ∃ n, b.nodeAt i = some n) ∧ b.OptNodes edges :=
  List.forall_mem_cons

theorem optNodes_append {l₁ l₂ : List (Option ℕ)} :
    b.OptNodes (l₁ ++ l₂) ↔ b.OptNodes l₁ ∧ b.OptNodes l₂ :=
  List.forall_mem_append

/-- An optional index that names an action, appended. -/
theorem OptNodes.concat {edges : List (Option ℕ)} {o : Option ℕ} (h : b.OptNodes edges)
    (ho : ∀ i ∈ o, b.nodeAt i = some n) : b.OptNodes (edges ++ [o]) :=
  optNodes_append.2 ⟨h, optNodes_cons.2 ⟨fun i hi ↦ ⟨n, ho i hi⟩, optNodes_nil⟩⟩

theorem Extends.requiring (h : Extends b b') (hi : b.Requiring i) : b'.Requiring i := by
  obtain ⟨n, hn, hsink⟩ := hi
  exact ⟨n, h.nodeAt hn, hsink⟩

theorem Extends.allNodes {edges : List ℕ} (h : Extends b b') (he : b.AllNodes edges) :
    b'.AllNodes edges := fun e he' ↦ (he e he').imp fun _ hn ↦ h.nodeAt hn

theorem Extends.optNodes {edges : List (Option ℕ)} (h : Extends b b') (he : b.OptNodes edges) :
    b'.OptNodes edges := fun e he' i hi ↦ (he e he' i hi).imp fun _ hn ↦ h.nodeAt hn

theorem lt_length_of_nodeAt (hi : b.nodeAt i = some n) : i < b.graph.graph.nodes.length :=
  (List.getElem?_eq_some_iff.1 hi).1

/-- A fact about the builder that growth keeps. -/
def Stable (F : ActionGraphBuilder → Prop) : Prop := ∀ b b', Grows b b' → F b → F b'

theorem Stable.and {F G : ActionGraphBuilder → Prop} (hF : Stable F) (hG : Stable G) :
    Stable fun b ↦ F b ∧ G b :=
  fun b b' h hb ↦ ⟨hF b b' h hb.1, hG b b' h hb.2⟩

theorem stable_const (p : Prop) : Stable fun _ ↦ p := fun _ _ _ h ↦ h

theorem stable_nodeAt (i : ℕ) (n : ActionNode) : Stable fun b ↦ b.nodeAt i = some n :=
  fun _ _ h hb ↦ h.1.nodeAt hb

theorem stable_requiring (i : ℕ) : Stable fun b ↦ b.Requiring i := fun _ _ h hb ↦ h.1.requiring hb

theorem stable_allNodes (edges : List ℕ) : Stable fun b ↦ b.AllNodes edges :=
  fun _ _ h hb ↦ h.1.allNodes hb

theorem stable_optNodeAt (o : Option ℕ) (n : ActionNode) :
    Stable fun b ↦ ∀ i ∈ o, b.nodeAt i = some n :=
  fun _ _ h hb i hi ↦ h.1.nodeAt (hb i hi)

theorem stable_optNodes (edges : List (Option ℕ)) : Stable fun b ↦ b.OptNodes edges :=
  fun _ _ h hb ↦ h.1.optNodes hb

/-! ## Looking an action up, and adding it -/

/-- `get_index_from_node`. -/
def getIndexFromNode (node : ActionNode) : BuilderM (Option ℕ) := fun b ↦
  .ok (IndexMap.get? b.nodes node) b

/-- The builder with one more action, at the next index of the graph and filed under it. -/
def withNode (b : ActionGraphBuilder) (node : ActionNode) : ActionGraphBuilder :=
  { b with
    graph := b.graph.addNode node
    nodes := IndexMap.insert b.nodes node b.graph.graph.nodes.length }

/-- `insert_node`. -/
def insertNode (node : ActionNode) : BuilderM ℕ := fun b ↦
  .ok b.graph.graph.nodes.length (b.withNode node)

/-- `insert_node_if_missing!`: the index of the action, added when it is missing. -/
def insertNodeIfMissing (node : ActionNode) : BuilderM ℕ := do
  match ← getIndexFromNode node with
  | some index => pure index
  | none => insertNode node

variable {P : ActionGraphBuilder → Prop}

theorem getIndexFromNode_spec (node : ActionNode) :
    Spec P (getIndexFromNode node) fun o b ↦ P b ∧ IndexMap.get? b.nodes node = o :=
  EStateM.Triple.of_ok _ id (fun _ ↦ rfl) fun b hI hP ↦ ⟨hI, refl_of Grows b, hP, rfl⟩

/-- An index the map files an action under holds that action. -/
theorem Inv.nodeAt_of_get? (hI : b.Inv) {node : ActionNode} (h : IndexMap.get? b.nodes node = some i) :
    b.nodeAt i = some node :=
  hI.inverts.getElem? h

/-- The actions of the builder with one more: the new one at the next index. -/
theorem nodeAt_withNode (node : ActionNode) (i : ℕ) :
    (b.withNode node).nodeAt i =
      if i = b.graph.graph.nodes.length then some node else b.nodeAt i := by
  show (b.graph.graph.nodes ++ [node])[i]? = _
  rw [List.getElem?_append]
  split_ifs with hlt heq heq
  · omega
  · rfl
  · rw [heq, Nat.sub_self, List.getElem?_singleton, if_pos rfl]
  · rw [List.getElem?_singleton, if_neg (by omega)]
    exact (List.getElem?_eq_none (by omega)).symm

theorem extends_withNode (node : ActionNode) : Extends b (b.withNode node) :=
  ⟨List.prefix_append _ _, List.prefix_refl _⟩

/-- The action the builder gains is the only one it had not. -/
theorem eq_of_nodeAt_withNode {node : ActionNode} (hm : (b.withNode node).nodeAt i = some n)
    (hnone : b.nodeAt i = none) : n = node := by
  rw [nodeAt_withNode] at hm
  split_ifs at hm
  · exact (Option.some.inj hm).symm
  · rw [hnone] at hm
    cases hm

/-- **Adding an action the map does not know** keeps the invariant: the map files it under its
new index, and nothing requires it yet. -/
theorem Inv.withNode (hI : b.Inv) {node : ActionNode} (hnew : IndexMap.get? b.nodes node = none) :
    (b.withNode node).Inv := by
  refine ⟨hI.inverts.push hnew, hI.pairs_nodup, hI.serial_lt, fun e he n' hn' ↦ ?_⟩
  -- an edge is an old one, from an old node
  have hlt : e.source < b.graph.graph.nodes.length := (b.graph.graph.valid e he).1
  rw [nodeAt_withNode, if_neg (by omega)] at hn'
  exact hI.source_not_sink e he n' hn'

/-- `insert_node` of an action that is not a task's. -/
theorem insertNode_spec {F : ActionGraphBuilder → Prop} (hF : Stable F) {node : ActionNode}
    (hn : node.isRunTask = false) :
    Spec (fun b ↦ F b ∧ IndexMap.get? b.nodes node = none) (insertNode node) fun i b ↦
      F b ∧ b.nodeAt i = some node := by
  refine EStateM.Triple.of_ok _ _ (fun _ ↦ rfl) fun b hI ⟨hb, hnew⟩ ↦ ?_
  have hgrows : Grows b (b.withNode node) :=
    ⟨extends_withNode node, fun _ _ hm hnone ↦ eq_of_nodeAt_withNode hm hnone ▸ hn⟩
  refine ⟨hI.withNode hnew, hgrows, hF _ _ hgrows hb, ?_⟩
  rw [nodeAt_withNode, if_pos rfl]

theorem insertNodeIfMissing_spec {F : ActionGraphBuilder → Prop} (hF : Stable F)
    {node : ActionNode} (hn : node.isRunTask = false) :
    Spec F (insertNodeIfMissing node) fun i b ↦ F b ∧ b.nodeAt i = some node := by
  refine (getIndexFromNode_spec node).bind fun o ↦ ?_
  cases o with
  | some index =>
    exact EStateM.Triple.pure index fun b hI h ↦ ⟨h.1, hI.nodeAt_of_get? h.2⟩
  | none =>
    exact insertNode_spec hF hn

/-! ## Linking requirements -/

section Link

variable (env : BuilderEnv)

/-- One round of `link_requirements`: an edge `find_edge` finds is kept; otherwise daggy adds it,
or refuses it when it would close a cycle, and the error names the two actions by their labels
(`node_weight(..).unwrap()`). -/
def linkEdge (index edge : ℕ) : BuilderM Unit := fun b ↦
  if b.graph.graph.pairs.contains (index, edge) then .ok () b
  else
    match b.graph.addEdge index edge .required with
    | .ok graph => .ok () { b with graph }
    | .err () =>
      match b.nodeAt index, b.nodeAt edge with
      | some source, some target =>
        .error (.actionGraph (.wouldCycle (source.label env.testEnv) (target.label env.testEnv))) b
      | _, _ => .error .graphPanic b
    | .panic => .error .graphPanic b

/-- `link_requirements`: link the action at `index` to each of `edges`, in order. -/
def linkRequirements (index : ℕ) (edges : List ℕ) : BuilderM Unit :=
  if edges.isEmpty then pure () else edges.forM (linkEdge env index)

/-- `link_optional_requirements`: the edges that are there. -/
def linkOptionalRequirements (index : ℕ) (edges : List (Option ℕ)) : BuilderM Unit :=
  linkRequirements env index edges.reduceOption

/-- `link_first_requirement`: only the first edge that is there. -/
def linkFirstRequirement (index : ℕ) (edges : List (Option ℕ)) : BuilderM Unit :=
  match edges.reduceOption.head? with
  | some edge => linkRequirements env index [edge]
  | none => pure ()

/-- `try_link_requirements`: a serial ordering edge, recorded by its index in `serial_edges`, and
skipped when it would close a cycle. -/
def tryLinkRequirements (index edge : ℕ) : BuilderM Unit := fun b ↦
  if b.graph.graph.pairs.contains (index, edge) then .ok () b
  else
    match b.graph.addEdge index edge .required with
    | .ok graph =>
      .ok () { b with graph, serialEdges := b.serialEdges.insert b.graph.graph.edges.length }
    | .err () => .ok () b
    | .panic => .error .graphPanic b

end Link

/-- The graph with one more edge, from `index` to `edge`, keeps the invariant when the edge is not
there yet and `index` may require others. -/
theorem Inv.addEdge (hI : b.Inv) {index edge : ℕ}
    (hv : index < b.graph.graph.nodes.length ∧ edge < b.graph.graph.nodes.length)
    (hnew : (index, edge) ∉ b.graph.graph.pairs) (hreq : b.Requiring index)
    {d : Dag ActionNode TaskDependencyType} (hd : d.graph = b.graph.graph.addEdge index edge .required hv)
    (serial : List ℕ) (hserial : ∀ e ∈ serial, e < d.graph.edges.length) :
    Inv { b with graph := d, serialEdges := serial } ∧ Grows b { b with graph := d, serialEdges := serial } := by
  have hnodes : d.graph.nodes = b.graph.graph.nodes := by rw [hd]; rfl
  have hedges : d.graph.edges = b.graph.graph.edges ++ [Edge.mk index edge .required] := by
    rw [hd]; rfl
  have hnodeAt : ∀ j, ({ b with graph := d, serialEdges := serial } : ActionGraphBuilder).nodeAt j
      = b.nodeAt j := fun j ↦ by
    show d.graph.nodes[j]? = _
    rw [hnodes]
    rfl
  refine ⟨⟨?_, ?_, hserial, fun e he n hn ↦ ?_⟩, ?_⟩
  · show IndexMap.Inverts b.nodes d.graph.nodes
    rw [hnodes]
    exact hI.inverts
  · show (d.graph.edges.map Edge.pair).Nodup
    rw [hedges, List.map_append, List.nodup_append]
    refine ⟨hI.pairs_nodup, List.nodup_singleton _, fun x hx y hy hxy ↦ ?_⟩
    rw [List.map_singleton, List.mem_singleton] at hy
    rw [hxy, hy] at hx
    exact hnew hx
  · -- the new edge leaves `index`; an old one, an old source
    rw [hnodeAt] at hn
    rw [hedges, List.mem_append, List.mem_singleton] at he
    rcases he with he | rfl
    · exact hI.source_not_sink e he n hn
    · obtain ⟨n', hn', hsink⟩ := hreq
      rw [hn'] at hn
      cases hn
      exact hsink
  · refine (grows_of_nodes_eq hnodes ?_ :
      Grows b { b with graph := d, serialEdges := serial })
    show b.graph.graph.edges <+: d.graph.edges
    rw [hedges]
    exact List.prefix_append _ _

section LinkSpecs

variable {env : BuilderEnv}

/-- **One link**, between an action that may require others and an action of the graph. -/
theorem linkEdge_spec {index edge : ℕ} :
    Spec (fun b ↦ b.Requiring index ∧ ∃ n, b.nodeAt edge = some n) (linkEdge env index edge)
      fun _ _ ↦ True := by
  rintro b hI ⟨hreq, n, hn⟩
  have hv : index < b.graph.graph.nodes.length ∧ edge < b.graph.graph.nodes.length :=
    ⟨lt_length_of_nodeAt hreq.choose_spec.1, lt_length_of_nodeAt hn⟩
  unfold linkEdge
  by_cases hmem : (index, edge) ∈ b.graph.graph.pairs
  · rw [if_pos (List.contains_iff_mem.2 hmem)]
    exact ⟨hI, refl_of Grows b, trivial⟩
  · rw [if_neg (mt List.contains_iff_mem.1 hmem)]
    rcases Dag.addEdge_spec (w := TaskDependencyType.required) hv with ⟨-, herr⟩ | ⟨-, d, hok, hd⟩
    · -- refused: the error names both actions
      obtain ⟨src, hsrc, -⟩ := hreq
      rw [herr]
      dsimp only
      rw [hsrc, hn]
      exact ⟨hI, refl_of Grows b, BuilderError.noConfusion⟩
    · rw [hok]
      obtain ⟨hI', hG⟩ := hI.addEdge hv hmem hreq hd b.serialEdges fun e he ↦ by
        have := hI.serial_lt e he
        rw [hd]
        show e < (b.graph.graph.edges ++ _).length
        rw [List.length_append]
        omega
      exact ⟨hI', hG, trivial⟩

variable {F : ActionGraphBuilder → Prop}

theorem linkRequirements_spec (hF : Stable F) {index : ℕ} {edges : List ℕ} :
    Spec (fun b ↦ F b ∧ b.Requiring index ∧ b.AllNodes edges) (linkRequirements env index edges)
      fun _ b ↦ F b := by
  unfold linkRequirements
  refine EStateM.Triple.ite (fun _ ↦ EStateM.Triple.pure () fun _ _ h ↦ h.1) fun _ ↦ ?_
  have hstable : Stable fun b ↦ F b ∧ b.Requiring index ∧ b.AllNodes edges :=
    hF.and ((stable_requiring index).and (stable_allNodes edges))
  have hloop := EStateM.Triple.forM (I := Inv) (R := Grows)
    (E := (· ≠ BuilderError.graphPanic)) (fun b ↦ F b ∧ b.Requiring index ∧ b.AllNodes edges)
    edges fun e he ↦ ((linkEdge_spec : Spec _ (linkEdge env index e) _).frame hstable).mono
      (fun _ _ h ↦ ⟨⟨h.2.1, h.2.2 e he⟩, h⟩) fun _ _ _ h ↦ h.2
  exact hloop.mono (fun _ _ h ↦ h) fun _ _ _ h ↦ h.1

theorem linkOptionalRequirements_spec (hF : Stable F) {index : ℕ} {edges : List (Option ℕ)} :
    Spec (fun b ↦ F b ∧ b.Requiring index ∧ b.OptNodes edges)
      (linkOptionalRequirements env index edges) fun _ b ↦ F b :=
  (linkRequirements_spec hF).mono
    (fun _ _ h ↦ ⟨h.1, h.2.1, fun i hi ↦ h.2.2 (some i) (List.reduceOption_mem_iff.1 hi) i rfl⟩)
    fun _ _ _ h ↦ h

theorem linkFirstRequirement_spec (hF : Stable F) {index : ℕ} {edges : List (Option ℕ)} :
    Spec (fun b ↦ F b ∧ b.Requiring index ∧ b.OptNodes edges)
      (linkFirstRequirement env index edges) fun _ b ↦ F b := by
  unfold linkFirstRequirement
  cases hfirst : edges.reduceOption.head? with
  | none => exact EStateM.Triple.pure () fun _ _ h ↦ h.1
  | some edge =>
    have hmem : some edge ∈ edges :=
      List.reduceOption_mem_iff.1 (List.mem_of_mem_head? hfirst)
    refine (linkRequirements_spec hF).mono (fun _ _ h ↦ ⟨h.1, h.2.1, fun i hi ↦ ?_⟩)
      fun _ _ _ h ↦ h
    rw [List.mem_singleton] at hi
    subst hi
    exact h.2.2 (some i) hmem i rfl

/-- **One serial link**: afterwards the edge is there, or `edge` already reaches `index`, so that
the edge would have closed a cycle. -/
theorem tryLinkRequirements_spec {index edge : ℕ} :
    Spec (fun b ↦ b.Requiring index ∧ ∃ n, b.nodeAt edge = some n)
      (tryLinkRequirements index edge) fun _ b ↦
        (index, edge) ∈ b.graph.graph.pairs ∨ EdgeList.Reach b.graph.graph.pairs edge index := by
  rintro b hI ⟨hreq, n, hn⟩
  have hv : index < b.graph.graph.nodes.length ∧ edge < b.graph.graph.nodes.length :=
    ⟨lt_length_of_nodeAt hreq.choose_spec.1, lt_length_of_nodeAt hn⟩
  unfold tryLinkRequirements
  by_cases hmem : (index, edge) ∈ b.graph.graph.pairs
  · rw [if_pos (List.contains_iff_mem.2 hmem)]
    exact ⟨hI, refl_of Grows b, .inl hmem⟩
  · rw [if_neg (mt List.contains_iff_mem.1 hmem)]
    rcases Dag.addEdge_spec (w := TaskDependencyType.required) hv with
      ⟨hreach, herr⟩ | ⟨-, d, hok, hd⟩
    · -- skipped: the edge would close a cycle
      rw [herr]
      exact ⟨hI, refl_of Grows b, .inr hreach⟩
    · rw [hok]
      have hserial : ∀ e ∈ b.serialEdges.insert b.graph.graph.edges.length,
          e < d.graph.edges.length := by
        intro e he
        have hlen : d.graph.edges.length = b.graph.graph.edges.length + 1 := by
          rw [hd]
          exact List.length_append
        rw [hlen]
        rcases List.mem_insert_iff.1 he with rfl | he
        · omega
        · have := hI.serial_lt e he
          omega
      obtain ⟨hI', hG⟩ := hI.addEdge hv hmem hreq hd _ hserial
      refine ⟨hI', hG, .inl ?_⟩
      show (index, edge) ∈ d.graph.edges.map Edge.pair
      rw [hd]
      exact List.mem_map.2 ⟨_, List.mem_append_right _ (List.mem_singleton_self _), rfl⟩

end LinkSpecs

/-! ## The subtree of a serial dependency -/

/-- `graph.children(node)` as `walk_next` yields it: each edge out of `node`, the last added first,
with its index and the node it leads to. -/
def children (b : ActionGraphBuilder) (node : ℕ) : List (ℕ × ℕ) :=
  ((b.graph.graph.edges.zipIdx.filter fun p ↦ p.1.source = node).map fun p ↦
    (p.2, p.1.target)).reverse

/-- The children the walk of `link_serial_requirements` pushes: those it reaches along an edge that
is not a serial one, and that are tasks. -/
def walkChildren (b : ActionGraphBuilder) (node : ℕ) : List ℕ :=
  (b.children node).filterMap fun p ↦
    if !b.serialEdges.contains p.1 && (b.nodeAt p.2).any ActionNode.isRunTask then some p.2
    else none

theorem length_walkChildren_le (b : ActionGraphBuilder) (node : ℕ) :
    (b.walkChildren node).length ≤ (b.graph.graph.edges.filter fun e ↦ e.source = node).length := by
  have hchildren : (b.children node).length
      = (b.graph.graph.edges.filter fun e ↦ e.source = node).length := by
    have hfst := congrArg List.length (List.filter_map (f := Prod.fst)
      (p := fun e : Edge TaskDependencyType ↦ decide (e.source = node))
      (l := b.graph.graph.edges.zipIdx))
    rw [List.zipIdx_map_fst, List.length_map] at hfst
    rw [children, List.length_reverse, List.length_map, hfst]
    rfl
  exact hchildren ▸ List.length_filterMap_le _ _

/-- Marking a node visited takes its edges out of those still to expand. -/
theorem length_filter_source_not_mem (edges : List (Edge TaskDependencyType)) {node : ℕ}
    {visited : List ℕ} (hnode : node ∉ visited) :
    (edges.filter fun e ↦ e.source ∉ visited).length =
      (edges.filter fun e ↦ e.source ∉ node :: visited).length +
        (edges.filter fun e ↦ e.source = node).length := by
  rw [List.length_eq_length_filter_add (fun e : Edge TaskDependencyType ↦ decide (e.source = node)),
    List.filter_filter, List.filter_filter, Nat.add_comm]
  congr 2
  · refine List.filter_congr fun e _ ↦ ?_
    by_cases he : e.source = node <;> simp [he]
  · -- an edge out of `node` is one out of a node not visited
    refine List.filter_congr fun e _ ↦ ?_
    by_cases he : e.source = node
    · subst he
      simp [hnode]
    · simp [he]

/-- The walk of `link_serial_requirements`: pop the node pushed last; one not visited yet is
visited, put in `ordered`, and its children pushed in the order the walker yields them.  Each
round either pops a visited node or expands the edges of a new one, so the walk ends. -/
def serialWalk (b : ActionGraphBuilder) : List ℕ → List ℕ → List ℕ → List ℕ
  | [], _, ordered => ordered
  | node :: stack, visited, ordered =>
    if node ∈ visited then serialWalk b stack visited ordered
    else serialWalk b ((b.walkChildren node).reverse ++ stack) (node :: visited) (ordered ++ [node])
termination_by stack visited =>
  (b.graph.graph.edges.filter fun e ↦ e.source ∉ visited).length + stack.length
decreasing_by
  · simp only [List.length_cons]
    omega
  · rename_i hnode
    have hsplit := length_filter_source_not_mem b.graph.graph.edges hnode
    have hle := length_walkChildren_le b node
    simp only [List.length_append, List.length_reverse, List.length_cons]
    omega

/-- `link_serial_requirements`: the subtree of `index` is walked first, on the graph as it is, and
each of its nodes is then linked to `previous`, in the order the walk reached it. -/
def linkSerialRequirements (index previous : ℕ) : BuilderM Unit := fun b ↦
  (b.serialWalk [index] [] []).forM (fun node ↦ tryLinkRequirements node previous) b

/-- A step of the walk: to a child it pushes. -/
def WalkStep (b : ActionGraphBuilder) (x y : ℕ) : Prop := y ∈ b.walkChildren x

/-- A child the walk pushes is a task. -/
theorem isRunTask_of_mem_walkChildren {node c : ℕ} (h : c ∈ b.walkChildren node) :
    ∃ n, b.nodeAt c = some n ∧ n.isRunTask = true := by
  obtain ⟨p, -, hp⟩ := List.mem_filterMap.1 h
  by_cases hc : (!b.serialEdges.contains p.1 && (b.nodeAt p.2).any ActionNode.isRunTask) = true
  · rw [if_pos hc, Option.some.injEq] at hp
    subst hp
    rw [Bool.and_eq_true] at hc
    obtain ⟨n, hn, hrun⟩ := (Option.any_eq_true _ _).1 hc.2
    exact ⟨n, hn, hrun⟩
  · rw [if_neg hc] at hp
    cases hp

/-- **The walk is sound**: what it returns was pushed at the start, put in `ordered` before, or
reached from a node pushed at the start along steps of the walk. -/
theorem mem_serialWalk {stack visited ordered : List ℕ} {x : ℕ}
    (hx : x ∈ b.serialWalk stack visited ordered) :
    x ∈ ordered ∨ ∃ s ∈ stack, Relation.ReflTransGen b.WalkStep s x := by
  induction stack, visited, ordered using serialWalk.induct b with
  | case1 visited ordered =>
    rw [serialWalk] at hx
    exact .inl hx
  | case2 node stack visited ordered hnode ih =>
    rw [serialWalk, if_pos hnode] at hx
    exact (ih hx).imp_right fun ⟨s, hs, hr⟩ ↦ ⟨s, List.mem_cons_of_mem _ hs, hr⟩
  | case3 node stack visited ordered hnode ih =>
    rw [serialWalk, if_neg hnode] at hx
    rcases ih hx with hx | ⟨s, hs, hr⟩
    · rcases List.mem_append.1 hx with hx | hx
      · exact .inl hx
      · rw [List.mem_singleton.1 hx]
        exact .inr ⟨node, List.mem_cons_self, .refl⟩
    · rcases List.mem_append.1 hs with hs | hs
      · -- a child of `node`
        exact .inr ⟨node, List.mem_cons_self, .head (List.mem_reverse.1 hs) hr⟩
      · exact .inr ⟨s, List.mem_cons_of_mem _ hs, hr⟩

/-- What the walk keeps: `ordered` lists the visited nodes, and every child of a visited node is
visited or still on the stack. -/
def WalkInv (b : ActionGraphBuilder) (stack visited ordered : List ℕ) : Prop :=
  (∀ x, x ∈ ordered ↔ x ∈ visited) ∧ ∀ v ∈ visited, ∀ c ∈ b.walkChildren v, c ∈ visited ∨ c ∈ stack

/-- **The walk is complete**: from a state that keeps `WalkInv`, it returns every node on the stack
or visited, and what it returns is closed under the steps of the walk. -/
theorem serialWalk_closed {stack visited ordered : List ℕ} (hinv : b.WalkInv stack visited ordered) :
    (∀ x, x ∈ stack ∨ x ∈ visited → x ∈ b.serialWalk stack visited ordered) ∧
      ∀ x ∈ b.serialWalk stack visited ordered, ∀ c ∈ b.walkChildren x,
        c ∈ b.serialWalk stack visited ordered := by
  induction stack, visited, ordered using serialWalk.induct b with
  | case1 visited ordered =>
    rw [serialWalk]
    obtain ⟨hord, hclosed⟩ := hinv
    refine ⟨fun x hx ↦ (hord x).2 (hx.resolve_left List.not_mem_nil), fun x hx c hc ↦ ?_⟩
    rcases hclosed x ((hord x).1 hx) c hc with hc | hc
    · exact (hord c).2 hc
    · exact absurd hc List.not_mem_nil
  | case2 node stack visited ordered hnode ih =>
    rw [serialWalk, if_pos hnode]
    obtain ⟨hord, hclosed⟩ := hinv
    -- popping a visited node: a child that waited on the stack for it is visited
    have hinv' : b.WalkInv stack visited ordered := ⟨hord, fun v hv c hc ↦ by
      rcases hclosed v hv c hc with h | h
      · exact .inl h
      · rcases List.mem_cons.1 h with rfl | h
        · exact .inl hnode
        · exact .inr h⟩
    obtain ⟨hmem, hcl⟩ := ih hinv'
    refine ⟨fun x hx ↦ hmem x ?_, hcl⟩
    rcases hx with hx | hx
    · rcases List.mem_cons.1 hx with rfl | hx
      · exact .inr hnode
      · exact .inl hx
    · exact .inr hx
  | case3 node stack visited ordered hnode ih =>
    rw [serialWalk, if_neg hnode]
    obtain ⟨hord, hclosed⟩ := hinv
    -- visiting `node` pushes its children; a child that waited for `node` finds it visited
    have hinv' : b.WalkInv ((b.walkChildren node).reverse ++ stack) (node :: visited)
        (ordered ++ [node]) := by
      refine ⟨fun x ↦ ?_, fun v hv c hc ↦ ?_⟩
      · rw [List.mem_append, List.mem_singleton, List.mem_cons, hord x]
        tauto
      · rcases List.mem_cons.1 hv with rfl | hv
        · exact .inr (List.mem_append_left _ (List.mem_reverse.2 hc))
        · rcases hclosed v hv c hc with h | h
          · exact .inl (List.mem_cons_of_mem _ h)
          · rcases List.mem_cons.1 h with rfl | h
            · exact .inl List.mem_cons_self
            · exact .inr (List.mem_append_right _ h)
    obtain ⟨hmem, hcl⟩ := ih hinv'
    refine ⟨fun x hx ↦ hmem x ?_, hcl⟩
    rcases hx with hx | hx
    · rcases List.mem_cons.1 hx with rfl | hx
      · exact .inr List.mem_cons_self
      · exact .inl (List.mem_append_right _ hx)
    · exact .inr (List.mem_cons_of_mem _ hx)

/-- **The walk finds exactly the subtree of `index`**: the nodes reached from it along edges that
are not serial ones, to tasks. -/
theorem mem_serialWalk_iff {index x : ℕ} :
    x ∈ b.serialWalk [index] [] [] ↔ Relation.ReflTransGen b.WalkStep index x := by
  constructor
  · intro hx
    rcases mem_serialWalk hx with hx | ⟨s, hs, hr⟩
    · exact absurd hx List.not_mem_nil
    · rw [List.mem_singleton.1 hs] at hr
      exact hr
  · intro hr
    have hinv : b.WalkInv [index] [] [] :=
      ⟨fun x ↦ by simp, fun v hv ↦ absurd hv List.not_mem_nil⟩
    obtain ⟨hstart, hcl⟩ := serialWalk_closed hinv
    induction hr with
    | refl => exact hstart index (.inl List.mem_cons_self)
    | tail _ hstep ih => exact hcl _ ih _ hstep

theorem Extends.pairs_subset (h : Extends b b') {x : ℕ × ℕ} (hx : x ∈ b.graph.graph.pairs) :
    x ∈ b'.graph.graph.pairs := by
  obtain ⟨t, ht⟩ := h.2
  show x ∈ b'.graph.graph.edges.map Edge.pair
  rw [← ht, List.map_append]
  exact List.mem_append_left _ hx

/-- **Serial links**: afterwards each node of the subtree of `index`, as it was before, requires
`previous`, unless `previous` already reaches it. -/
theorem linkSerialRequirements_spec {F : ActionGraphBuilder → Prop} (hF : Stable F)
    {index previous : ℕ} (b₀ : ActionGraphBuilder) :
    Spec (fun b ↦ F b ∧ b = b₀ ∧ b.Requiring index ∧ ∃ n, b.nodeAt previous = some n)
      (linkSerialRequirements index previous) fun _ b ↦ F b ∧
        ∀ x, Relation.ReflTransGen b₀.WalkStep index x →
          (x, previous) ∈ b.graph.graph.pairs ∨ EdgeList.Reach b.graph.graph.pairs previous x := by
  rintro b hI ⟨hb, rfl, hreq, n, hprev⟩
  -- every node of the walk may require others: `index`, and the tasks below it
  have hreqs : ∀ x ∈ b.serialWalk [index] [] [], b.Requiring x := fun x hx ↦ by
    rcases Relation.ReflTransGen.cases_tail (mem_serialWalk_iff.1 hx) with rfl | ⟨y, -, hy⟩
    · exact hreq
    · obtain ⟨m, hm, hrun⟩ := isRunTask_of_mem_walkChildren hy
      exact ⟨m, hm, ActionNode.isSink_eq_false_of_isRunTask hrun⟩
  have hstable : Stable fun b' ↦ F b' ∧ (∃ n, b'.nodeAt previous = some n) ∧
      ∀ x ∈ b.serialWalk [index] [] [], b'.Requiring x :=
    hF.and fun _ _ hG h ↦ ⟨h.1.imp fun _ hm ↦ hG.1.nodeAt hm, fun x hx ↦ hG.1.requiring (h.2 x hx)⟩
  have hloop := EStateM.Triple.forM_all (I := Inv) (R := Grows)
    (E := (· ≠ BuilderError.graphPanic)) (f := fun node ↦ tryLinkRequirements node previous)
    (fun b' ↦ F b' ∧ (∃ n, b'.nodeAt previous = some n) ∧
      ∀ x ∈ b.serialWalk [index] [] [], b'.Requiring x)
    (fun x b' ↦ (x, previous) ∈ b'.graph.graph.pairs ∨ EdgeList.Reach b'.graph.graph.pairs previous x)
    (fun _ _ _ hG h ↦ h.imp hG.1.pairs_subset (EdgeList.Reach.mono fun _ h ↦ hG.1.pairs_subset h))
    (b.serialWalk [index] [] []) fun c hc ↦
      (tryLinkRequirements_spec.frame hstable).mono
        (fun _ _ h ↦ ⟨⟨h.2.2 c hc, h.2.1⟩, h⟩) fun _ _ _ h ↦ ⟨h.2, h.1⟩
  exact (hloop.mono (fun _ _ h ↦ h) fun _ _ _ h ↦
      ⟨h.1.1, fun x hx ↦ h.2 x (mem_serialWalk_iff.2 hx)⟩)
    b hI ⟨hb, ⟨n, hprev⟩, hreqs⟩

/-- Serial links keep the invariant and every fact that growth keeps. -/
theorem linkSerialRequirements_frame {F : ActionGraphBuilder → Prop} (hF : Stable F)
    {index previous : ℕ} :
    Spec (fun b ↦ F b ∧ b.Requiring index ∧ ∃ n, b.nodeAt previous = some n)
      (linkSerialRequirements index previous) fun _ b ↦ F b :=
  fun b hI h ↦ ((linkSerialRequirements_spec hF b).mono (fun _ _ h ↦ h) fun _ _ _ h ↦ h.1)
    b hI ⟨h.1, rfl, h.2⟩

/-- `x` leaves the graph, the map and the serial edges as they are, and never makes daggy
panic: it only changes what the builder tracks beside the graph. -/
def KeepsGraph (x : BuilderM α) : Prop :=
  ∀ b, (x b).state.graph = b.graph ∧ (x b).state.nodes = b.nodes ∧
    (x b).state.serialEdges = b.serialEdges ∧ (x b).Holds (· ≠ .graphPanic) fun _ _ ↦ True

/-- **A method that only tracks** keeps the invariant and every fact that growth keeps. -/
theorem KeepsGraph.spec {x : BuilderM α} (hx : KeepsGraph x) {F : ActionGraphBuilder → Prop}
    (hF : Stable F) : Spec F x fun _ b ↦ F b := by
  intro b hI hb
  obtain ⟨hg, hn, hs, hE⟩ := hx b
  have hat : ∀ i, (x b).state.nodeAt i = b.nodeAt i := fun i ↦ by
    unfold ActionGraphBuilder.nodeAt
    rw [hg]
  have hgrows : Grows b (x b).state :=
    grows_of_nodes_eq (by rw [hg]) (hg ▸ List.prefix_refl _)
  have hI' : (x b).state.Inv := by
    refine ⟨?_, ?_, ?_, fun e he n hn' ↦ ?_⟩
    · rw [hn, hg]
      exact hI.inverts
    · rw [hg]
      exact hI.pairs_nodup
    · rw [hs, hg]
      exact hI.serial_lt
    · rw [hg] at he
      rw [hat] at hn'
      exact hI.source_not_sink e he n hn'
  refine ⟨hI', hgrows, ?_⟩
  cases hxb : x b with
  | ok a b' =>
    rw [hxb] at hgrows
    exact hF b b' hgrows hb
  | error e b' =>
    rw [hxb] at hE
    exact hE

/-- A method that succeeds and only changes what the builder tracks. -/
theorem keepsGraph_of_ok {x : BuilderM α} (g : ActionGraphBuilder → α)
    (f : ActionGraphBuilder → ActionGraphBuilder) (hx : ∀ b, x b = .ok (g b) (f b))
    (hf : ∀ b, (f b).graph = b.graph ∧ (f b).nodes = b.nodes ∧ (f b).serialEdges = b.serialEdges) :
    KeepsGraph x := fun b ↦ by
  rw [hx b]
  exact ⟨(hf b).1, (hf b).2.1, (hf b).2.2, trivial⟩

/-- A method of the affected tracker, run on the builder's tracker `tracker`: its failure is passed
on with `?`, and what it wrote stays written. -/
def onAffected (tracker : AffectedTracker) (x : EStateM String AffectedTracker α) : BuilderM α :=
  fun b ↦
    match x tracker with
    | .ok a t => .ok a { b with affected := some t }
    | .error e t => .error (.external e) { b with affected := some t }

theorem keepsGraph_onAffected (tracker : AffectedTracker) (x : EStateM String AffectedTracker α) :
    KeepsGraph (onAffected tracker x) := fun b ↦ by
  unfold onAffected
  cases x tracker with
  | ok a t => exact ⟨rfl, rfl, rfl, trivial⟩
  | error e t => exact ⟨rfl, rfl, rfl, BuilderError.noConfusion⟩

end ActionGraphBuilder

end Moon
