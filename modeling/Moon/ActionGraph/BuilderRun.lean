import Moon.ActionGraph.BuilderRunTask
import Moon.Lib.Machine

/-!
# The builder over a whole run of its public methods

The pipeline makes an `ActionGraphBuilder` with `ActionGraphBuilder::new` and calls its public
methods one after the other: the settings (`set_changed_files`, `set_query`, `set_affected`,
`track_affected`), the actions that prepare tasks, and the runs of tasks.  `BuilderOp` is one such
call, `exec` runs it, and `Step` is the machine of `Moon.Lib.Machine` whose steps are these calls,
whatever each returns: a failed call leaves what it wrote.

Every method keeps `Inv` and only extends the graph (`exec_spec`), so:

* `inv_of_reachable`: every builder a run reaches keeps the invariant — the map files each action
  of the graph under its index and nothing else, no two edges join the same two nodes, every
  serial edge is an edge, and the workspace sync and proto's setup require nothing;
* `exec_ne_graphPanic`: no call of a run asks daggy for an edge whose end is not a node;
* `extends_of_reachable`: the graph only grows along a run, so an index a call returns names the
  same action for the rest of the run.
-/

set_option autoImplicit false

namespace Moon

namespace ActionGraphBuilder

variable (env : BuilderEnv)

/-! ## The settings -/

/-- `set_changed_files`. -/
def setChangedFiles (files : List String) : BuilderM Unit := fun b ↦
  .ok () { b with changedFiles := some files }

/-- `set_query`: the query a target of every project is resolved with. -/
def setQuery (input : String) : BuilderM Unit := fun b ↦
  match env.buildQuery input with
  | .ok query => .ok () { b with allQuery := some query }
  | .error e => .error (.external e) b

/-- `set_affected`: a tracker over the changed files, which `expect` asks to have been set. -/
def setAffected : BuilderM Unit := fun b ↦
  match b.affected, b.changedFiles with
  | some _, _ => .ok () b
  | none, some files => .ok () { b with affected := some (AffectedTracker.new files) }
  | none, none => .error .affectedPanic b

/-- `get_projects()?` and `get_tasks_with_internal()?` of `track_affected`, which load every
project and task so that their relations exist. -/
def loadAll : BuilderM Unit := do
  let _ ← liftExternal env.workspace.getProjects
  let _ ← liftExternal env.workspace.getTasksWithInternal
  pure ()

/-- The tracker's part of `track_affected`: its settings, then every project, tracked up front. -/
def trackAffectedProjects (upstream : UpstreamScope) (downstream : DownstreamScope)
    (ciCheck : Bool) (completion : List ℕ) : BuilderM Unit := fun b ↦
  match b.affected with
  | some affected =>
    onAffected (AffectedTracker.setScopes upstream downstream
        (AffectedTracker.setCiCheck ciCheck affected))
      (if env.asyncAffectedTracking then
        AffectedTracker.trackProjectsAsync env.affectedGraph env.affectedEnv completion
      else AffectedTracker.trackProjects env.affectedGraph env.affectedEnv) b
  | none => .ok () b

/-- `track_affected`. -/
def trackAffected (upstream : UpstreamScope) (downstream : DownstreamScope) (ciCheck : Bool)
    (completion : List ℕ) : BuilderM Unit := do
  (if downstream ≠ .none then loadAll env else pure ())
  setAffected
  trackAffectedProjects env upstream downstream ciCheck completion

/-! ## A run of public methods -/

/-- A call of a public method of the builder, with its arguments.  `completion` is the order in
which the futures of a pooled tracking complete. -/
inductive BuilderOp where
  | setChangedFiles (files : List String)
  | setQuery (input : String)
  | setAffected
  | trackAffected (upstream : UpstreamScope) (downstream : DownstreamScope) (ciCheck : Bool)
      (completion : List ℕ)
  | syncWorkspace
  | setupProto
  | syncProject (project : Project) (reqs : RunRequirements)
  | setupToolchain (spec : ToolchainSpec) (project : Option Project)
  | setupEnvironment (spec : ToolchainSpec) (root : String) (project : Project)
  | setupEnvironmentRoot (spec : ToolchainSpec)
  | installDependencies (spec : ToolchainSpec) (project : Project)
  | installDependenciesByProject (project : Project)
  | installDependenciesRoot (spec : ToolchainSpec)
  | runTask (task : Task) (reqs : RunRequirements)
  | runTaskByTarget (target : Target) (reqs : RunRequirements)
  | runTaskByTargetLocator (locator : TargetLocator) (reqs : RunRequirements)
  | runTasks (locators : List TargetLocator) (reqs : RunRequirements) (completion : List ℕ)
  | runTasksWithPlan (targets : TargetsBlock) (reqs : RunRequirements) (completion : List ℕ)

/-- A call, with what it returns dropped. -/
def exec (fuel : ℕ) : BuilderOp → BuilderM Unit
  | .setChangedFiles files => setChangedFiles files
  | .setQuery input => setQuery env input
  | .setAffected => setAffected
  | .trackAffected upstream downstream ciCheck completion =>
    trackAffected env upstream downstream ciCheck completion
  | .syncWorkspace => do let _ ← syncWorkspace env; pure ()
  | .setupProto => do let _ ← setupProto env; pure ()
  | .syncProject project reqs => do let _ ← syncProject env fuel project reqs; pure ()
  | .setupToolchain spec project => do let _ ← setupToolchain env fuel spec project; pure ()
  | .setupEnvironment spec root project => do
    let _ ← setupEnvironment env fuel spec root project
    pure ()
  | .setupEnvironmentRoot spec => do let _ ← setupEnvironmentRoot env fuel spec; pure ()
  | .installDependencies spec project => do
    let _ ← installDependencies env fuel spec project
    pure ()
  | .installDependenciesByProject project => do
    let _ ← installDependenciesByProject env fuel project
    pure ()
  | .installDependenciesRoot spec => do let _ ← installDependenciesRoot env fuel spec; pure ()
  | .runTask task reqs => do let _ ← runTask env fuel task reqs; pure ()
  | .runTaskByTarget target reqs => do let _ ← runTaskByTarget env fuel target reqs; pure ()
  | .runTaskByTargetLocator locator reqs => do
    let _ ← runTaskByTargetLocator env fuel locator reqs
    pure ()
  | .runTasks locators reqs completion => do
    let _ ← runTasks env fuel locators reqs completion
    pure ()
  | .runTasksWithPlan targets reqs completion => do
    let _ ← runTasksWithPlan env fuel targets reqs completion
    pure ()

/-- One call of a run, whether it succeeds or fails: what it leaves is where the next starts. -/
def Step (b b' : ActionGraphBuilder) : Prop := ∃ fuel op, (exec env fuel op b).state = b'

/-- A run of calls, each with its fuel, each from where the last one left the builder. -/
def runOps : List (ℕ × BuilderOp) → ActionGraphBuilder → ActionGraphBuilder
  | [], b => b
  | (fuel, op) :: calls, b => runOps calls (exec env fuel op b).state

theorem reachable_runOps : ∀ (calls : List (ℕ × BuilderOp)) (b : ActionGraphBuilder),
    Machine.Reachable (Step env) b (runOps env calls b)
  | [], _ => Relation.ReflTransGen.refl
  | (fuel, op) :: calls, _ => Relation.ReflTransGen.head ⟨fuel, op, rfl⟩ (reachable_runOps calls _)

/-! ## Every call keeps the invariant -/

section Run

variable {env} {F : ActionGraphBuilder → Prop}

theorem keepsGraph_setChangedFiles (files : List String) : KeepsGraph (setChangedFiles files) :=
  keepsGraph_of_ok _ _ (fun _ ↦ rfl) fun _ ↦ ⟨rfl, rfl, rfl⟩

theorem keepsGraph_setQuery (input : String) : KeepsGraph (setQuery env input) := fun b ↦ by
  unfold setQuery
  cases env.buildQuery input with
  | ok query => exact ⟨rfl, rfl, rfl, trivial⟩
  | error e => exact ⟨rfl, rfl, rfl, BuilderError.noConfusion⟩

theorem keepsGraph_setAffected : KeepsGraph setAffected := fun b ↦ by
  unfold setAffected
  split
  · exact ⟨rfl, rfl, rfl, trivial⟩
  · exact ⟨rfl, rfl, rfl, trivial⟩
  · exact ⟨rfl, rfl, rfl, BuilderError.noConfusion⟩

theorem keepsGraph_trackAffectedProjects (upstream : UpstreamScope) (downstream : DownstreamScope)
    (ciCheck : Bool) (completion : List ℕ) :
    KeepsGraph (trackAffectedProjects env upstream downstream ciCheck completion) := fun b ↦ by
  unfold trackAffectedProjects
  split
  · exact keepsGraph_onAffected _ _ b
  · exact ⟨rfl, rfl, rfl, trivial⟩

theorem trackAffected_spec (hF : TaskStable F) {upstream : UpstreamScope}
    {downstream : DownstreamScope} {ciCheck : Bool} {completion : List ℕ} :
    TaskSpec F (trackAffected env upstream downstream ciCheck completion) fun _ b ↦ F b := by
  have hload : Spec F (loadAll env) fun _ b ↦ F b :=
    (liftExternal_frame _).bind fun _ ↦ (liftExternal_frame _).bind fun _ ↦
      EStateM.Triple.pure _ fun _ _ h ↦ h
  exact (EStateM.Triple.ite (fun _ ↦ taskSpec_of_spec hload)
    fun _ ↦ EStateM.Triple.pure _ fun _ _ h ↦ h).bind fun _ ↦
      (keepsGraph_setAffected.taskSpec hF).bind fun _ ↦
        (keepsGraph_trackAffectedProjects _ _ _ _).taskSpec hF

/-- A call whose value is dropped keeps what the method keeps. -/
theorem taskSpec_discard {α : Type} {x : BuilderM α} {Q : α → ActionGraphBuilder → Prop}
    (h : TaskSpec F x fun a b ↦ F b ∧ Q a b) :
    TaskSpec F (do let _ ← x; pure ()) fun _ b ↦ F b :=
  h.bind fun _ ↦ EStateM.Triple.pure _ fun _ _ h ↦ h.1

/-- **Every public method** keeps the invariant, only extends the graph, keeps every fact that
extending keeps, and never makes daggy panic. -/
theorem exec_spec (hF : TaskStable F) (fuel : ℕ) :
    ∀ op, TaskSpec F (exec env fuel op) fun _ b ↦ F b
  | .setChangedFiles _ => (keepsGraph_setChangedFiles _).taskSpec hF
  | .setQuery _ => (keepsGraph_setQuery _).taskSpec hF
  | .setAffected => keepsGraph_setAffected.taskSpec hF
  | .trackAffected .. => trackAffected_spec hF
  | .syncWorkspace => taskSpec_discard (taskSpec_of_spec (syncWorkspace_spec hF.stable))
  | .setupProto => taskSpec_discard (taskSpec_of_spec (setupProto_spec hF.stable))
  | .syncProject project reqs =>
    taskSpec_discard (taskSpec_of_spec (internalSyncProject_spec fuel hF.stable project reqs []))
  | .setupToolchain spec project =>
    taskSpec_discard (taskSpec_of_spec (internalSetupToolchain_spec fuel hF.stable spec project []))
  | .setupEnvironment .. =>
    taskSpec_discard (taskSpec_of_spec (internalSetupEnvironment_spec hF.stable))
  | .setupEnvironmentRoot _ =>
    taskSpec_discard (taskSpec_of_spec (setupEnvironmentRoot_spec hF.stable))
  | .installDependencies .. =>
    taskSpec_discard (taskSpec_of_spec (internalInstallDependencies_spec hF.stable))
  | .installDependenciesByProject _ =>
    taskSpec_discard (taskSpec_of_spec (installDependenciesByToolchains_spec hF.stable))
  | .installDependenciesRoot _ =>
    taskSpec_discard (taskSpec_of_spec (installDependenciesRoot_spec hF.stable))
  | .runTask .. => taskSpec_discard (runTask_spec hF)
  | .runTaskByTarget .. => taskSpec_discard ((runTaskByTarget_spec hF).mono
      (fun _ _ h ↦ h) fun _ _ _ h ↦ ⟨h, trivial⟩)
  | .runTaskByTargetLocator .. => taskSpec_discard ((runTaskByTargetLocator_spec hF).mono
      (fun _ _ h ↦ h) fun _ _ _ h ↦ ⟨h, trivial⟩)
  | .runTasks .. => taskSpec_discard ((runTasks_spec hF).mono
      (fun _ _ h ↦ h) fun _ _ _ h ↦ ⟨h, trivial⟩)
  | .runTasksWithPlan .. => taskSpec_discard ((runTasksWithPlan_spec hF).mono
      (fun _ _ h ↦ h) fun _ _ _ h ↦ ⟨h, trivial⟩)

/-- One call keeps the invariant and extends the graph. -/
theorem Step.inv_extends {b b' : ActionGraphBuilder} (h : Step env b b') (hb : b.Inv) :
    b'.Inv ∧ Extends b b' := by
  obtain ⟨fuel, op, rfl⟩ := h
  obtain ⟨hI, hE, -⟩ :=
    exec_spec (F := fun _ ↦ True) (fun _ _ _ _ ↦ trivial) fuel op b hb trivial
  exact ⟨hI, hE⟩

/-- **The builder's invariant over every run**: from `ActionGraphBuilder::new`, whatever public
methods are called and however each ends, the map files each action of the graph under its index
and nothing else, no two edges join the same two nodes, every serial edge is an edge, and the
workspace sync and proto's setup require nothing. -/
theorem inv_of_reachable {b : ActionGraphBuilder} (h : Machine.Reachable (Step env) new b) :
    b.Inv :=
  Machine.Reachable.inv Inv (fun _ _ hc hstep ↦ (hstep.inv_extends hc).1) inv_new h

/-- **Every builder a run reaches is sound**: no action is in the graph twice, no two edges join
the same two nodes, the workspace sync and proto's setup require nothing, and no call made next
asks daggy for an edge whose end is not a node. -/
theorem reachable_builder_is_sound {b : ActionGraphBuilder}
    (h : Machine.Reachable (Step env) new b) :
    b.graph.graph.nodes.Nodup ∧ b.graph.graph.pairs.Nodup ∧
      (∀ e ∈ b.graph.graph.edges, ∀ n, b.nodeAt e.source = some n → n.isSink = false) ∧
      ∀ fuel op s, exec env fuel op b ≠ .error .graphPanic s := by
  have hI := inv_of_reachable h
  refine ⟨hI.inverts.nodup, hI.pairs_nodup, hI.source_not_sink, fun fuel op s hexec ↦ ?_⟩
  have hholds : (exec env fuel op b).Holds (· ≠ BuilderError.graphPanic) fun _ _ ↦ True :=
    (exec_spec (F := fun _ ↦ True) (fun _ _ _ _ ↦ trivial) fuel op b hI trivial).2.2
  rw [hexec] at hholds
  exact hholds rfl

/-- After `run_task` on `app:build` in `BuilderEnv.appBuild`, the builder is sound. -/
theorem builder_is_sound_after_running_app_build :
    let b := runOps .appBuild
      [(4, .runTask { id := "build", target := ⟨"app:build", .id, .id, 3⟩ } { ci := false })] new
    b.graph.graph.nodes.Nodup ∧ b.graph.graph.pairs.Nodup ∧
      (∀ e ∈ b.graph.graph.edges, ∀ n, b.nodeAt e.source = some n → n.isSink = false) ∧
      ∀ fuel op s, exec .appBuild fuel op b ≠ .error .graphPanic s :=
  reachable_builder_is_sound (reachable_runOps _ _ _)

/-- **The graph only grows along a run**: the nodes and the edges of a builder a run reaches are
the first ones of every builder the run reaches later. -/
theorem extends_of_reachable {b b' : ActionGraphBuilder} (hb : Machine.Reachable (Step env) new b)
    (h : Machine.Reachable (Step env) b b') : Extends b b' :=
  (Machine.Reachable.inv (fun c ↦ c.Inv ∧ Extends b c)
    (fun _ _ hc hstep ↦ (hstep.inv_extends hc.1).imp_right (trans_of Extends hc.2))
    ⟨inv_of_reachable hb, refl_of Extends b⟩ h).2

/-- **An index `run_task` returns names the task's action for the rest of the run**, and the call
makes the task's target a primary target. -/
theorem runTask_index_stays {b b₁ b₂ : ActionGraphBuilder} {fuel i : ℕ} {task : Task}
    {reqs : RunRequirements} (hb : Machine.Reachable (Step env) new b)
    (hrun : runTask env fuel task reqs b = .ok (some i) b₁)
    (hlater : Machine.Reachable (Step env) b₁ b₂) :
    b₂.nodeAt i = some (.runTaskOf env.finish (runTaskNode task reqs none)) ∧
      task.target ∈ b₁.primaryTargets := by
  have hspec := (runTask_spec (F := fun _ ↦ True) (fun _ _ _ _ ↦ trivial) :
    TaskSpec _ (runTask env fuel task reqs) _) b (inv_of_reachable hb) trivial
  rw [hrun] at hspec
  obtain ⟨hat, hprimary⟩ := hspec.2.2.2 i rfl
  have hstep : Step env b b₁ := ⟨fuel, .runTask task reqs, by
    show (EStateM.map _ (runTask env fuel task reqs) b).state = b₁
    simp only [EStateM.map, hrun]
    rfl⟩
  exact ⟨(extends_of_reachable (hb.tail hstep) hlater).nodeAt hat, hprimary⟩

/-- `run_task` on `app:build` gives the index 2, after the workspace sync and the sync of `app`. -/
theorem app_build_index_stays :
    let build : Task := { id := "build", target := ⟨"app:build", .id, .id, 3⟩ }
    let b := (runTask .appBuild 4 build { ci := false } new).state
    b.nodeAt 2 = some (.runTaskOf BuilderEnv.appBuild.finish (runTaskNode build { ci := false } none)) ∧
      build.target ∈ b.primaryTargets :=
  have hrun : runTask .appBuild 4 { id := "build", target := ⟨"app:build", .id, .id, 3⟩ }
      { ci := false } new = .ok (some 2) (runTask .appBuild 4
        { id := "build", target := ⟨"app:build", .id, .id, 3⟩ } { ci := false } new).state := by
    rfl
  runTask_index_stays Relation.ReflTransGen.refl hrun Relation.ReflTransGen.refl

end Run

end ActionGraphBuilder

end Moon
