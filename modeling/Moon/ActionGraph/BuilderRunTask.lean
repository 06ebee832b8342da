import Moon.ActionGraph.BuilderActions
import Moon.Lib.StrSearch

/-!
# Running tasks, and the builder over a whole run

The methods of `ActionGraphBuilder` that the pipeline calls with targets:

* `resolveTasksFromTarget` and `resolveTasksFromTargetLocator`, what
  `internal_resolve_tasks_from_target` and `internal_resolve_tasks_from_target_locator` find for a
  target: the projects its project scope names, then each project's tasks its task scope names;
* `internalRunTask`, the task's action, which requires its project's sync, the install of its
  toolchains' dependencies and the actions of its dependencies (`runTaskDependencies`, ordered
  one after the other when they are not run in parallel), then runs its dependents
  (`runTaskDependents`); both loops take the recursive call as their argument `run`;
* `runTask`, `runTaskByTarget`, `runTaskByTargetLocator`, `runTasks` with a CI job's slice, and
  `runTasksWithPlan`.

Each method has its triple: `TaskSpec`, with the growth `Extends` since a run adds task
actions.
-/

set_option autoImplicit false

namespace Moon

namespace ActionGraphBuilder

variable (env : BuilderEnv)

/-! ## Resolving a target to tasks -/

/-- `?` on a target's `Result`; its panic is a slice at a bad index. -/
def liftTarget {α : Type} : Outcome TargetError α → Except BuilderError α
  | .ok a => .ok a
  | .err e => .error (.target e)
  | .panic => .error .targetPanic

/-- `?` on a report of the workspace graph. -/
def liftReport {α : Type} (x : Except String α) : Except BuilderError α :=
  x.mapError .external

/-- The first half of `internal_resolve_tasks_from_target`: the projects a project scope names,
and whether a task a project lacks is an error, which it is for a project named by its id. -/
def resolveProjects (allQuery : Option Query.Criteria) (scope : TargetProjectScope)
    (scopeValue : String) : Except BuilderError (List Project × Bool) :=
  match scope with
  | .all => do
    let projects ← match allQuery with
      | some allQuery => liftReport (env.workspace.queryProjects allQuery)
      | none => liftReport env.workspace.getProjects
    pure (projects, false)
  | .id => do
    let project ← liftReport (env.workspace.getProject scopeValue)
    pure ([project], true)
  | .tag => do
    let query ← liftReport (env.buildQuery ("projectTag=" ++ scopeValue))
    let projects ← liftReport (env.workspace.queryProjects query)
    pure (projects, false)
  | .deps | .depsOf _ => .error (.target .noDepsInRunContext)
  | .ownSelf => .error (.target .noSelfInRunContext)

/-- The tasks of a project that a task scope names: the task of an id, whose absence is an error
when the project was named by its id and skipped otherwise, or the tasks with a tag. -/
def scopedTasks (bubbleError : Bool) (scope : TargetTaskScope) (scopeValue : String)
    (project : Project) : Except BuilderError (List Task) :=
  match scope with
  | .id =>
    match env.workspace.getTaskFromProject project.id scopeValue with
    | .ok task => pure [task]
    | .error e => if bubbleError then .error (.external e) else pure []
  | .tag => do
    let all ← liftReport (env.workspace.getTasksFromProject project.id)
    pure (all.filter fun task ↦ task.tags.any (· == scopeValue))

/-- One project of the loop of `internal_resolve_tasks_from_target`: its scoped tasks, without the
internal ones unless they are allowed; an internal task is an error when the project was named by
its id, and skipped otherwise. -/
def resolveProjectTasks (allowInternal bubbleError : Bool) (scope : TargetTaskScope)
    (scopeValue : String) (tasks : List Task) (project : Project) :
    Except BuilderError (List Task) := do
  let projectTasks ← scopedTasks env bubbleError scope scopeValue project
  projectTasks.foldlM (fun tasks projectTask ↦
    if !allowInternal && env.isInternal projectTask then
      if bubbleError then .error (.unknownTask projectTask.id project.id) else pure tasks
    else pure (tasks ++ [projectTask])) tasks

/-- `internal_resolve_tasks_from_target`, over the builder's `all_query`. -/
def resolveTasksFromTarget (allQuery : Option Query.Criteria) (target : Target)
    (allowInternal : Bool) : Except BuilderError (List Task) :=
  match target.getProjectScope with
  | none => .error .targetPanic
  | some (scope, scopeValue) => do
    let (projects, bubbleError) ← resolveProjects env allQuery scope scopeValue
    match target.getTaskScope with
    | none => .error .targetPanic
    | some (taskScope, taskScopeValue) =>
      projects.foldlM (resolveProjectTasks env allowInternal bubbleError taskScope taskScopeValue) []

/-- A qualified target of a locator, with `~` read as the project of the working directory. -/
def qualifiedTarget (target : Target) : Except BuilderError Target :=
  if target.project = .ownSelf then do
    let project ← liftReport env.workspace.getProjectFromPath
    let taskId ← liftTarget target.getTaskId
    (Target.new env.idRules project.id taskId).mapError .target
  else pure target

/-- The query a glob locator builds from one of its globs: on the field of tags, without the `#`,
for a glob that starts with `#`, and on the field of ids otherwise. -/
def globQuery (tagField field glob : String) : String :=
  match Str.stripPrefix ['#'] glob.toList with
  | some tagGlob => tagField ++ "~" ++ String.ofList tagGlob
  | none => field ++ "~" ++ glob

/-- The first half of the glob branch of `internal_resolve_tasks_from_target_locator`: whether the
locator means all projects, whether its tasks are to be queried, and the projects its project glob
finds, queried first since projects and tasks cannot be queried at once.  Tasks are queried only
when the glob finds a project; a project scope other than `All` is not valid from the run
context, and queries nothing. -/
def globProjects (project : Option TargetProjectScope) (projectGlob : Option String) :
    Except BuilderError (Bool × Bool × List Project) :=
  match projectGlob with
  | some glob => do
    let query ← liftReport (env.buildQuery (globQuery "projectTag" "project" glob))
    let projects ← liftReport (env.workspace.queryProjects query)
    pure (false, !projects.isEmpty, projects)
  | none =>
    match project with
    | some .all => pure (true, true, [])
    | _ => pure (false, false, [])

/-- The query of a glob locator's tasks: its task glob, within the projects found unless the
locator means all of them. -/
def globTaskQuery (isAll : Bool) (projects : List Project) (taskGlob : String) : String :=
  let query := globQuery "taskTag" "task" taskGlob
  if isAll then query
  else "project=[" ++ ",".intercalate (projects.map (·.id)) ++ "] && " ++ query

/-- `internal_resolve_tasks_from_target_locator`: a glob's tasks, found by a query, without the
internal ones unless they are allowed; a qualified target, with `~` read as the project of the
working directory; a bare task id, in the default project. -/
def resolveTasksFromTargetLocator (allQuery : Option Query.Criteria) (locator : TargetLocator)
    (allowInternal : Bool) : Except BuilderError (List Task) :=
  match locator with
  | .globMatch _ project projectGlob taskGlob => do
    let (isAll, doQuery, projects) ← globProjects env project projectGlob
    if doQuery then
      let query ← liftReport (env.buildQuery (globTaskQuery isAll projects taskGlob))
      let tasks ← liftReport (env.workspace.queryTasks query)
      pure (tasks.filter fun task ↦ allowInternal || !env.isInternal task)
    else pure []
  | .qualified target => do
    let target ← qualifiedTarget env target
    resolveTasksFromTarget env allQuery target allowInternal
  | .defaultProject taskId => do
    let project ← env.workspace.getDefaultProject.mapError fun _ ↦ .noDefaultProjectForTask taskId
    let target ← (Target.new env.idRules project.id taskId).mapError .target
    resolveTasksFromTarget env allQuery target allowInternal

/-- `internal_resolve_tasks_from_target`, as a method. -/
def internalResolveTasksFromTarget (target : Target) (allowInternal : Bool) :
    BuilderM (List Task) := fun b ↦
  EStateM.ofExcept (resolveTasksFromTarget env b.allQuery target allowInternal) b

/-- `internal_resolve_tasks_from_target_locator`, as a method. -/
def internalResolveTasksFromTargetLocator (locator : TargetLocator) (allowInternal : Bool) :
    BuilderM (List Task) := fun b ↦
  EStateM.ofExcept (resolveTasksFromTargetLocator env b.allQuery locator allowInternal) b

/-! ## What a run of a task tracks -/

/-- Whether a task's target is a passthrough. -/
def isPassthrough (target : Target) : BuilderM Bool := fun b ↦
  .ok (b.passthroughTargets.contains target) b

/-- `passthrough_targets.insert`. -/
def markPassthrough (target : Target) : BuilderM Unit := fun b ↦
  .ok () { b with passthroughTargets := b.passthroughTargets.insert target }

/-- `ignored_dependencies.remove(..).is_some()`. -/
def removeIgnoredDependencies (target : Target) : BuilderM Bool := fun b ↦
  .ok (b.ignoredDependencies.any (·.1 == target))
    { b with ignoredDependencies := b.ignoredDependencies.filter (·.1 != target) }

/-- `ignored_dependents.remove(..)`. -/
def removeIgnoredDependents (target : Target) : BuilderM Bool := fun b ↦
  .ok (b.ignoredDependents.contains target)
    { b with ignoredDependents := b.ignoredDependents.erase target }

/-- `ignored_dependencies.insert`: the targets of the task's dependencies, as a set. -/
def ignoreDependencies (task : Task) : BuilderM Unit := fun b ↦
  .ok () { b with
    ignoredDependencies :=
      IndexMap.insert b.ignoredDependencies task.target (task.deps.map (·.target)).eraseDups }

/-- `ignored_dependents.insert`. -/
def ignoreDependents (target : Target) : BuilderM Unit := fun b ↦
  .ok () { b with ignoredDependents := b.ignoredDependents.insert target }

/-- `primary_targets.insert`. -/
def addPrimaryTarget (target : Target) : BuilderM Unit := fun b ↦
  .ok () { b with primaryTargets := b.primaryTargets.insert target }

/-! ## A task's action -/

/-- The node `internal_run_task` creates for a task, with the arguments and variables of the
dependency it is run through. -/
def runTaskNode (task : Task) (reqs : RunRequirements) (config : Option TaskDependencyConfig) :
    RunTaskNode where
  args := match config with
    | some config => config.args
    | none => []
  env := match config with
    | some config => IndexMap.extend [] config.env
    | none => []
  interactive := task.isInteractive || reqs.interactive
  persistent := task.isPersistent
  priority := task.options.priority.getLevel
  target := task.target
  id := none

/-- The recursive call the loops over dependencies and dependents make. -/
abbrev RunFn := Task → RunRequirements → Option TaskDependencyConfig → RunTaskState →
  BuilderM (Option ℕ)

/-- The serial link of `run_task_dependencies`: when a task's dependencies do not run in
parallel, a dependency's whole subtree runs after the previous dependency. -/
def linkSerialAfter (parallel : Bool) (depIndex : ℕ) (previous : Option ℕ) : BuilderM Unit :=
  match !parallel, previous with
  | true, some previous => linkSerialRequirements depIndex previous
  | _, _ => pure ()

/-- One task of a dependency in `run_task_dependencies`: a run that gives an index is required by
the parent, and becomes the previous one. -/
def runDependencyTask (run : RunFn) (parallel : Bool) (dep : TaskDependencyConfig)
    (reqs : RunRequirements) (state : RunTaskState) (acc : List (Option ℕ) × Option ℕ)
    (depTask : Task) : BuilderM (List (Option ℕ) × Option ℕ) := do
  let depIndex ← run depTask reqs (some dep) { state with viaDependency := true }
  match depIndex with
  | some depIndex => do
    linkSerialAfter parallel depIndex acc.2
    pure (acc.1 ++ [some depIndex], some depIndex)
  | none => pure acc

/-- `run_task_dependencies`: the tasks of each dependency's target, internal ones included. -/
def runTaskDependencies (run : RunFn) (task : Task) (reqs : RunRequirements)
    (state : RunTaskState) : BuilderM (List (Option ℕ)) := do
  let parallel := task.options.runDepsInParallel
  let acc ← task.deps.foldlM (fun acc dep ↦ do
      let depTasks ← internalResolveTasksFromTarget env dep.target true
      depTasks.foldlM (runDependencyTask run parallel dep reqs state) acc) ([], none)
  pure acc.1

/-- One task of a dependent in `run_task_dependents`, run as if not through a dependency. -/
def runDependentTask (run : RunFn) (reqs : RunRequirements) (state : RunTaskState)
    (indexes : List (Option ℕ)) (depTask : Task) : BuilderM (List (Option ℕ)) := do
  let index ← run depTask reqs none { state with viaDependency := false }
  pure (indexes ++ [index])

/-- `run_task_dependents`: the tasks of each dependent's target. -/
def runTaskDependents (run : RunFn) (task : Task) (reqs : RunRequirements)
    (state : RunTaskState) : BuilderM (List (Option ℕ)) :=
  (env.workspace.taskDependents task).foldlM (fun indexes depTarget ↦ do
    let depTasks ← internalResolveTasksFromTarget env depTarget true
    depTasks.foldlM (runDependentTask run reqs state) indexes) []

/-- The end of `internal_run_task` for a task whose action is in the graph already: what an
earlier run of it left out is run now. -/
def runIgnored (run : RunFn) (task : Task) (reqs : RunRequirements) (state : RunTaskState)
    (index : ℕ) (hadIgnoredDependencies hadIgnoredDependents : Bool) : BuilderM (Option ℕ) := do
  if hadIgnoredDependencies && !task.deps.isEmpty then
    let edges ← runTaskDependencies env run task { reqs with skipAffected := true } state
    linkOptionalRequirements env index edges
  if hadIgnoredDependents then
    let _ ← runTaskDependents env run task { reqs with skipAffected := false } state
  pure (some index)

/-- The edges a new task action starts with: its project's sync and the installs of its
toolchains' dependencies, and the workspace sync when none of them is an action. -/
def initialEdges (fuel : ℕ) (task : Task) (project : Project) (reqs : RunRequirements) :
    BuilderM (List (Option ℕ)) := do
  let syncIndex ← syncProject env fuel project reqs
  let installIndexes ← installDependenciesByToolchains env fuel project task.toolchains
  let edges := syncIndex :: installIndexes
  if edges.isEmpty || edges.all Option.isNone then do
    let workspaceIndex ← syncWorkspace env
    pure (edges ++ [workspaceIndex])
  else pure edges

/-- The rest of `internal_run_task` for a new task action: it is added, requires its initial edges
and, in scope, its dependencies, whose run is otherwise left for later; then its dependents run, or
are left for later. -/
def runNew (fuel : ℕ) (run : RunFn) (task : Task) (project : Project) (reqs : RunRequirements)
    (state : RunTaskState) (node : ActionNode) (shouldRunDependencies shouldRunDependents : Bool) :
    BuilderM (Option ℕ) := do
  let edges ← initialEdges env fuel task project reqs
  let index ← insertNode node
  let edges ← if !task.deps.isEmpty then
      if shouldRunDependencies then do
        let depEdges ← runTaskDependencies env run task { reqs with skipAffected := true } state
        pure (edges ++ depEdges)
      else do
        ignoreDependencies task
        pure edges
    else pure edges
  linkOptionalRequirements env index edges
  if shouldRunDependents then
    let _ ← runTaskDependents env run task { reqs with skipAffected := false } state
  else ignoreDependents task.target
  pure (some index)

/-- `internal_run_task`: nothing for a task that is not affected or a passthrough; for one that
should not run in CI, a passthrough whose dependents may still run; otherwise its action. -/
def internalRunTask :
    ℕ → Task → RunRequirements → Option TaskDependencyConfig → RunTaskState → BuilderM (Option ℕ)
  | 0, _, _, _, _ => throw .outOfFuel
  | fuel + 1, task, reqs, config, state => do
    let projectId ← EStateM.ofExcept (liftTarget task.target.getProjectId)
    let project ← liftExternal (env.workspace.getProject projectId)
    let affected ← isTaskAffected env task reqs
    if !affected then pure none
    else do
      let passthrough ← isPassthrough task.target
      if passthrough then pure none
      else do
        let shouldRunDependencies := reqs.dependencies.isInScope state.depth
        let shouldRunDependents := !state.viaDependency && reqs.dependents.isInScope state.depth
        let state := { state with depth := state.depth + 1 }
        let run := internalRunTask fuel
        if reqs.ciCheck && !task.shouldRun reqs.ci then do
          markPassthrough task.target
          if shouldRunDependents then
            let _ ← runTaskDependents env run task { reqs with skipAffected := false } state
          pure none
        else do
          let node := ActionNode.runTaskOf env.finish (runTaskNode task reqs config)
          let hadIgnoredDependencies ←
            if shouldRunDependencies then removeIgnoredDependencies task.target else pure false
          let hadIgnoredDependents ←
            if shouldRunDependents then removeIgnoredDependents task.target else pure false
          let found ← getIndexFromNode node
          match found with
          | some index =>
            runIgnored env run task reqs state index hadIgnoredDependencies hadIgnoredDependents
          | none =>
            runNew env fuel run task project reqs state node shouldRunDependencies
              shouldRunDependents

/-! ## The public runs -/

/-- `run_task`: a task run from the top, whose target becomes a primary target. -/
def runTask (fuel : ℕ) (task : Task) (reqs : RunRequirements) : BuilderM (Option ℕ) := do
  let index ← internalRunTask env fuel task reqs none {}
  match index with
  | some index => do
    addPrimaryTarget task.target
    pure (some index)
  | none => pure none

/-- The loop of `run_task_by_target` and `run_task_by_target_locator`: the set of the indexes the
tasks' runs give. -/
def runResolvedTasks (fuel : ℕ) (tasks : List Task) (reqs : RunRequirements) :
    BuilderM (List ℕ) :=
  tasks.foldlM (fun indexes task ↦ do
    let index ← runTask env fuel task reqs
    pure (match index with
      | some index => indexes.insert index
      | none => indexes)) []

/-- `run_task_by_target`. -/
def runTaskByTarget (fuel : ℕ) (target : Target) (reqs : RunRequirements) : BuilderM (List ℕ) := do
  let tasks ← internalResolveTasksFromTarget env target false
  runResolvedTasks env fuel tasks reqs

/-- `run_task_by_target_locator`. -/
def runTaskByTargetLocator (fuel : ℕ) (locator : TargetLocator) (reqs : RunRequirements) :
    BuilderM (List ℕ) := do
  let tasks ← internalResolveTasksFromTargetLocator env locator false
  runResolvedTasks env fuel tasks reqs

/-- `RunPartition`: the size of a job's slice, and the target of each task action. -/
structure RunPartition where
  size : Option ℕ := none
  targets : List (ℕ × Target) := []

/-- `track_tasks`, and its pooled form `track_tasks_async` with the futures completing in the
order `completion`: every task, internal ones included. -/
def trackTasks (completion : List ℕ) : EStateM String AffectedTracker Unit := do
  let tasks ← EStateM.ofExcept env.workspace.getTasksWithInternal
  if env.asyncAffectedTracking then
    AffectedTracker.trackTasksByInstanceAsync env.affectedGraph env.affectedEnv tasks completion
  else AffectedTracker.trackTasksByInstance env.affectedGraph env.affectedEnv tasks

/-- What `run_tasks` tracks up front: every task when relations count, since a task is marked
through a relation only when the task on its other side is marked, and the requested ones
otherwise. -/
def trackRequested (reqs : RunRequirements) (tasks : List Task) (completion : List ℕ) :
    EStateM String AffectedTracker Unit :=
  if reqs.includeRelations then trackTasks env completion
  else if env.asyncAffectedTracking then
    AffectedTracker.trackTasksByInstanceAsync env.affectedGraph env.affectedEnv tasks completion
  else AffectedTracker.trackTasksByInstance env.affectedGraph env.affectedEnv tasks

/-- The tracking up front of `run_tasks`, with a tracker and the affected checks on. -/
def trackTasksUpFront (reqs : RunRequirements) (tasks : List Task) (completion : List ℕ) :
    BuilderM Unit := fun b ↦
  match b.affected with
  | some affected =>
    if !reqs.skipAffected then onAffected affected (trackRequested env reqs tasks completion) b
    else .ok () b
  | none => .ok () b

/-- The affected filter of `run_tasks` before it slices the tasks of a job. -/
def filterAffected (tasks : List Task) (reqs : RunRequirements) : BuilderM (List Task) :=
  tasks.foldlM (fun kept task ↦ do
    let affected ← isTaskAffected env task reqs
    pure (if affected then kept ++ [task] else kept)) []

/-- The job part of `run_tasks`: with a job of a positive total, an index past the last job is an
error; otherwise the affected tasks, when the checks are on, are sliced for the job. -/
def jobTasks (tasks : List Task) (reqs : RunRequirements) :
    BuilderM (List Task × Option ℕ) :=
  match reqs.job, reqs.jobTotal with
  | some jobIndex, some jobTotal =>
    if jobTotal > 0 then
      if jobIndex > jobTotal - 1 then throw (.actionGraph (.invalidJobIndex jobIndex jobTotal))
      else do
        let tasks ← if !reqs.skipAffected then filterAffected env tasks reqs else pure tasks
        pure (jobSlice tasks jobIndex jobTotal, some (jobSize tasks.length jobTotal))
    else pure (tasks, none)
  | _, _ => pure (tasks, none)

/-- `run_tasks`: the tasks of every locator, tracked up front, sliced for a job, and run; the
partition maps each action to its task's target. -/
def runTasks (fuel : ℕ) (locators : List TargetLocator) (reqs : RunRequirements)
    (completion : List ℕ) : BuilderM RunPartition := do
  let tasks ← locators.foldlM (fun tasks locator ↦ do
    let more ← internalResolveTasksFromTargetLocator env locator false
    pure (tasks ++ more)) []
  trackTasksUpFront env reqs tasks completion
  let (tasks, size) ← jobTasks env tasks reqs
  tasks.foldlM (fun partition task ↦ do
    let index ← runTask env fuel task reqs
    pure (match index with
      | some index => { partition with targets := IndexMap.insert partition.targets index task.target }
      | none => partition)) { size }

/-- `TargetsBlock` of an execution plan. -/
inductive TargetsBlock where
  | partitioned (jobs : List (List TargetLocator))
  | filtered (includes : List TargetLocator)
  | included (targets : List TargetLocator)

/-- `run_tasks_with_plan`: a partitioned plan runs the job's own targets, and needs a job whose
total is the plan's number of jobs. -/
def runTasksWithPlan (fuel : ℕ) (targets : TargetsBlock) (reqs : RunRequirements)
    (completion : List ℕ) : BuilderM RunPartition :=
  match targets with
  | .partitioned jobs =>
    match reqs.job, reqs.jobTotal with
    | some jobIndex, some jobTotal =>
      if jobTotal > 0 then
        if jobIndex > jobTotal - 1 then throw (.actionGraph (.invalidJobIndex jobIndex jobTotal))
        else if jobs.length ≠ jobTotal then
          throw (.actionGraph (.mismatchedPlanJobTotals jobs.length jobTotal))
        else do
          let targets := jobs.getD jobIndex []
          let partition ← runTasks env fuel targets { reqs with job := none, jobTotal := none }
            completion
          pure { size := some targets.length, targets := partition.targets }
      else throw (.actionGraph .invalidPlanJobs)
    | _, _ => throw (.actionGraph .invalidPlanJobs)
  | .filtered includes => runTasks env fuel includes reqs completion
  | .included targets => runTasks env fuel targets reqs completion

/-! ## What resolving a target finds -/

/-- What resolving keeps of a task: it is internal only where internal tasks are allowed. -/
def Allowed (allowInternal : Bool) (task : Task) : Prop :=
  (allowInternal || !env.isInternal task) = true

section Resolve

variable {env}

theorem liftReport_failsWith {α : Type} (x : Except String α) :
    (liftReport x).FailsWith (· ≠ BuilderError.graphPanic) :=
  Except.failsWith_mapError (fun _ ↦ BuilderError.noConfusion) x

theorem resolveProjects_failsWith (allQuery : Option Query.Criteria) (scope : TargetProjectScope)
    (scopeValue : String) :
    (resolveProjects env allQuery scope scopeValue).FailsWith (· ≠ BuilderError.graphPanic) := by
  cases scope with
  | all =>
    cases allQuery <;> exact (liftReport_failsWith _).bind fun _ _ ↦ Except.failsWith_ok _
  | id => exact (liftReport_failsWith _).bind fun _ _ ↦ Except.failsWith_ok _
  | tag =>
    exact (liftReport_failsWith _).bind fun _ _ ↦
      (liftReport_failsWith _).bind fun _ _ ↦ Except.failsWith_ok _
  | deps | depsOf _ | ownSelf => exact Except.failsWith_error BuilderError.noConfusion

theorem scopedTasks_failsWith (bubbleError : Bool) (scope : TargetTaskScope) (scopeValue : String)
    (project : Project) :
    (scopedTasks env bubbleError scope scopeValue project).FailsWith
      (· ≠ BuilderError.graphPanic) := by
  cases scope with
  | id =>
    rw [scopedTasks]
    cases env.workspace.getTaskFromProject project.id scopeValue with
    | ok task => exact Except.failsWith_ok _
    | error e =>
      cases bubbleError
      · exact Except.failsWith_ok _
      · exact Except.failsWith_error (by simp)
  | tag => exact (liftReport_failsWith _).bind fun _ _ ↦ Except.failsWith_ok _

theorem resolveProjectTasks_failsWith {allowInternal bubbleError : Bool} {scope : TargetTaskScope}
    {scopeValue : String} (tasks : List Task) (project : Project) :
    (resolveProjectTasks env allowInternal bubbleError scope scopeValue tasks project).FailsWith
      (· ≠ BuilderError.graphPanic) := by
  refine (scopedTasks_failsWith _ _ _ _).bind fun _ _ ↦
    Except.FailsWith.foldlM (fun _ _ _ ↦ ?_) _
  split_ifs
  · exact Except.failsWith_error BuilderError.noConfusion
  · exact Except.failsWith_ok _
  · exact Except.failsWith_ok _

theorem resolveTasksFromTarget_failsWith (allQuery : Option Query.Criteria) (target : Target)
    (allowInternal : Bool) :
    (resolveTasksFromTarget env allQuery target allowInternal).FailsWith
      (· ≠ BuilderError.graphPanic) := by
  unfold resolveTasksFromTarget
  rcases target.getProjectScope with _ | ⟨scope, scopeValue⟩
  · exact Except.failsWith_error (by simp)
  refine (resolveProjects_failsWith _ _ _).bind fun _ _ ↦ ?_
  rcases target.getTaskScope with _ | ⟨taskScope, taskScopeValue⟩
  · exact Except.failsWith_error (by simp)
  exact Except.FailsWith.foldlM (fun _ _ _ ↦ resolveProjectTasks_failsWith _ _) _

theorem globProjects_failsWith (project : Option TargetProjectScope)
    (projectGlob : Option String) :
    (globProjects env project projectGlob).FailsWith (· ≠ BuilderError.graphPanic) := by
  unfold globProjects
  split
  · exact (liftReport_failsWith _).bind fun _ _ ↦ (liftReport_failsWith _).bind fun _ _ ↦
      Except.failsWith_ok _
  · split <;> exact Except.failsWith_ok _

theorem resolveTasksFromTargetLocator_failsWith (allQuery : Option Query.Criteria)
    (locator : TargetLocator) (allowInternal : Bool) :
    (resolveTasksFromTargetLocator env allQuery locator allowInternal).FailsWith
      (· ≠ BuilderError.graphPanic) := by
  cases locator with
  | globMatch _ project projectGlob taskGlob =>
    refine (globProjects_failsWith _ _).bind fun ⟨isAll, doQuery, projects⟩ _ ↦ ?_
    dsimp only
    split
    · exact (liftReport_failsWith _).bind fun _ _ ↦ (liftReport_failsWith _).bind fun _ _ ↦
        Except.failsWith_ok _
    · exact Except.failsWith_ok _
  | qualified target =>
    refine Except.FailsWith.bind ?_ fun _ _ ↦ resolveTasksFromTarget_failsWith _ _ _
    unfold qualifiedTarget
    split
    · refine (liftReport_failsWith _).bind fun _ _ ↦ Except.FailsWith.bind ?_ fun _ _ ↦
        Except.failsWith_mapError (fun _ ↦ BuilderError.noConfusion) _
      unfold liftTarget
      split
      · exact Except.failsWith_ok _
      · exact Except.failsWith_error BuilderError.noConfusion
      · exact Except.failsWith_error BuilderError.noConfusion
    · exact Except.failsWith_ok _
  | defaultProject taskId =>
    exact (Except.failsWith_mapError (fun _ ↦ BuilderError.noConfusion) _).bind fun _ _ ↦
      (Except.failsWith_mapError (fun _ ↦ BuilderError.noConfusion) _).bind fun _ _ ↦
        resolveTasksFromTarget_failsWith _ _ _

theorem scopedTasks_tag {bubbleError : Bool} {scopeValue : String} {project : Project}
    {tasks : List Task} (h : scopedTasks env bubbleError .tag scopeValue project = .ok tasks) :
    ∀ task ∈ tasks, scopeValue ∈ task.tags := by
  rw [scopedTasks] at h
  obtain ⟨all, -, hall⟩ := Except.bind_eq_ok h
  cases hall
  intro task htask
  simpa using (List.mem_filter.1 htask).2

/-- The round of a project keeps every task resolved so far allowed, and named by a tag scope
only when it has the tag. -/
theorem resolveProjectTasks_resolves {allowInternal bubbleError : Bool} {scope : TargetTaskScope}
    {scopeValue : String} {tasks tasks' : List Task} {project : Project}
    (h : resolveProjectTasks env allowInternal bubbleError scope scopeValue tasks project = .ok tasks')
    (htasks : ∀ t ∈ tasks, Allowed env allowInternal t ∧ (scope = .tag → scopeValue ∈ t.tags)) :
    ∀ t ∈ tasks', Allowed env allowInternal t ∧ (scope = .tag → scopeValue ∈ t.tags) := by
  obtain ⟨projectTasks, hscoped, hfold⟩ := Except.bind_eq_ok h
  refine Except.foldlM_inv (fun acc ↦ ∀ t ∈ acc, Allowed env allowInternal t ∧
    (scope = .tag → scopeValue ∈ t.tags)) projectTasks (fun acc task htask acc' hacc hstep ↦ ?_)
    htasks hfold
  by_cases hinternal : (!allowInternal && env.isInternal task) = true
  · -- an internal task that is not allowed: an error, or skipped
    rw [if_pos hinternal] at hstep
    by_cases hbubble : bubbleError = true
    · rw [if_pos hbubble] at hstep
      cases hstep
    · rw [if_neg hbubble] at hstep
      cases hstep
      exact hacc
  · rw [if_neg hinternal] at hstep
    cases hstep
    intro t ht
    rcases List.mem_append.1 ht with ht | ht
    · exact hacc t ht
    · rw [List.mem_singleton.1 ht]
      refine ⟨?_, fun hscope ↦ ?_⟩
      · revert hinternal
        unfold Allowed
        cases allowInternal <;> cases env.isInternal task <;> simp
      · subst hscope
        exact scopedTasks_tag hscoped task htask

/-- **Resolving a target** gives tasks that are internal only where internal tasks are allowed, and
a target with a tag scope gives only tasks with the tag. -/
theorem resolveTasksFromTarget_resolves {allQuery : Option Query.Criteria} {target : Target}
    {allowInternal : Bool} {tasks : List Task}
    (h : resolveTasksFromTarget env allQuery target allowInternal = .ok tasks) :
    ∀ task ∈ tasks, Allowed env allowInternal task ∧
      ∀ tag, target.getTaskScope = some (.tag, tag) → tag ∈ task.tags := by
  unfold resolveTasksFromTarget at h
  cases hps : target.getProjectScope with
  | none =>
    rw [hps] at h
    cases h
  | some p =>
    rw [hps] at h
    obtain ⟨⟨projects, bubbleError⟩, -, hrest⟩ := Except.bind_eq_ok h
    cases hts : target.getTaskScope with
    | none =>
      rw [hts] at hrest
      cases hrest
    | some q =>
      rw [hts] at hrest
      obtain ⟨taskScope, taskScopeValue⟩ := q
      intro task htask
      have hres := Except.foldlM_inv (fun acc ↦ ∀ t ∈ acc, Allowed env allowInternal t ∧
        (taskScope = .tag → taskScopeValue ∈ t.tags)) projects
        (fun _ _ _ _ hacc hstep ↦ resolveProjectTasks_resolves hstep hacc)
        (fun _ ht ↦ absurd ht List.not_mem_nil) hrest task htask
      refine ⟨hres.1, fun tag htag ↦ ?_⟩
      cases htag
      exact hres.2 rfl

/-- **Resolving a locator** gives tasks that are internal only where internal tasks are allowed,
and a target of a named project with a tag scope gives only tasks with the tag. -/
theorem resolveTasksFromTargetLocator_resolves {allQuery : Option Query.Criteria}
    {locator : TargetLocator} {allowInternal : Bool} {tasks : List Task}
    (h : resolveTasksFromTargetLocator env allQuery locator allowInternal = .ok tasks) :
    ∀ task ∈ tasks, Allowed env allowInternal task ∧
      ∀ target tag, locator = .qualified target → target.project ≠ .ownSelf →
        target.getTaskScope = some (.tag, tag) → tag ∈ task.tags := by
  cases locator with
  | globMatch _ project projectGlob taskGlob =>
    obtain ⟨⟨isAll, doQuery, projects⟩, -, hrest⟩ := Except.bind_eq_ok h
    dsimp only at hrest
    split at hrest
    · -- the tasks the query finds, filtered
      obtain ⟨query, -, hquery⟩ := Except.bind_eq_ok hrest
      obtain ⟨all, -, hall⟩ := Except.bind_eq_ok hquery
      cases hall
      exact fun task htask ↦ ⟨(List.mem_filter.1 htask).2, fun _ _ hloc ↦ by cases hloc⟩
    · cases hrest
      exact fun _ htask ↦ absurd htask List.not_mem_nil
  | qualified target =>
    obtain ⟨target', hqualified, hres⟩ := Except.bind_eq_ok h
    intro task htask
    refine ⟨(resolveTasksFromTarget_resolves hres task htask).1, ?_⟩
    rintro _ tag ⟨⟩ hself htag
    -- a target of a named project is resolved as it is
    rw [qualifiedTarget, if_neg hself] at hqualified
    cases hqualified
    exact (resolveTasksFromTarget_resolves hres task htask).2 tag htag
  | defaultProject taskId =>
    obtain ⟨project, -, h'⟩ := Except.bind_eq_ok h
    obtain ⟨target, -, hres⟩ := Except.bind_eq_ok h'
    exact fun task htask ↦
      ⟨(resolveTasksFromTarget_resolves hres task htask).1, fun _ _ hloc ↦ by cases hloc⟩

end Resolve

/-! ## The triples of the methods that run tasks

A run of a task adds the task's action, which the methods that prepare it never add (`Grows`); so
these methods only extend the graph (`Extends`), and the facts they keep are those that extending
keeps (`TaskStable`).  A spec of a preparing method is one of these (`taskSpec_of_spec`). -/

/-- The triples of the methods that run tasks: they keep `Inv`, extend the graph, and never make
daggy panic. -/
abbrev TaskSpec {α : Type} (P : ActionGraphBuilder → Prop) (x : BuilderM α)
    (Q : α → ActionGraphBuilder → Prop) : Prop :=
  EStateM.Triple Inv Extends (· ≠ BuilderError.graphPanic) P x Q

/-- A fact about the builder that extending it keeps. -/
def TaskStable (F : ActionGraphBuilder → Prop) : Prop := ∀ b b', Extends b b' → F b → F b'

/-- The action is nowhere in the graph. -/
def Absent (node : ActionNode) (b : ActionGraphBuilder) : Prop := ∀ i, b.nodeAt i ≠ some node

/-- What the recursive call of a run promises: it keeps what extending keeps, and gives an action
that may require others. -/
def RunSpec (run : RunFn) : Prop :=
  ∀ {F : ActionGraphBuilder → Prop}, TaskStable F → ∀ task reqs config state,
    TaskSpec F (run task reqs config state) fun o b ↦ F b ∧ ∀ i ∈ o, b.Requiring i

section TaskSpecs

variable {env} {α : Type} {F G : ActionGraphBuilder → Prop} {P : ActionGraphBuilder → Prop}
  {Q : α → ActionGraphBuilder → Prop} {x : BuilderM α}

theorem taskSpec_of_spec (h : Spec P x Q) : TaskSpec P x Q :=
  h.weaken fun _ _ h ↦ h.1

theorem TaskStable.stable (hF : TaskStable F) : Stable F := fun b b' h ↦ hF b b' h.1

theorem TaskStable.and (hF : TaskStable F) (hG : TaskStable G) : TaskStable fun b ↦ F b ∧ G b :=
  fun b b' h hb ↦ ⟨hF b b' h hb.1, hG b b' h hb.2⟩

theorem taskStable_nodeAt (i : ℕ) (n : ActionNode) : TaskStable fun b ↦ b.nodeAt i = some n :=
  fun _ _ h hb ↦ h.nodeAt hb

theorem taskStable_optNodes (edges : List (Option ℕ)) : TaskStable fun b ↦ b.OptNodes edges :=
  fun _ _ h hb ↦ h.optNodes hb

theorem taskStable_requiring (o : Option ℕ) : TaskStable fun b ↦ ∀ i ∈ o, b.Requiring i :=
  fun _ _ h hb i hi ↦ h.requiring (hb i hi)

theorem KeepsGraph.taskSpec (hx : KeepsGraph x) (hF : TaskStable F) :
    TaskSpec F x fun _ b ↦ F b :=
  taskSpec_of_spec (hx.spec hF.stable)

/-- **A task's action stays absent** while only the methods that prepare a task run. -/
theorem stable_absent {node : ActionNode} (hn : node.isRunTask = true) : Stable (Absent node) := by
  intro b b' h hb i hi
  cases hbi : b.nodeAt i with
  | none =>
    have := h.2 i node hi hbi
    rw [hn] at this
    cases this
  | some m =>
    rw [h.1.nodeAt hbi] at hi
    exact hb i (hbi.trans hi)

theorem Inv.absent_iff {b : ActionGraphBuilder} (hI : b.Inv) {node : ActionNode} :
    Absent node b ↔ IndexMap.get? b.nodes node = none := by
  rw [hI.inverts.get?_eq_none_iff, List.mem_iff_getElem?]
  exact ⟨fun h ⟨i, hi⟩ ↦ h i hi, fun h i hi ↦ h ⟨i, hi⟩⟩

/-- `insert_node` of a task's action. -/
theorem insertNode_taskSpec (hF : TaskStable F) {node : ActionNode} :
    TaskSpec (fun b ↦ F b ∧ IndexMap.get? b.nodes node = none) (insertNode node) fun i b ↦
      F b ∧ b.nodeAt i = some node := by
  refine EStateM.Triple.of_ok _ _ (fun _ ↦ rfl) fun b hI ⟨hb, hnew⟩ ↦ ?_
  refine ⟨hI.withNode hnew, extends_withNode node, hF _ _ (extends_withNode node) hb, ?_⟩
  rw [nodeAt_withNode, if_pos rfl]

/-- A `?` on a `Result` computed from the builder leaves it as it is. -/
theorem spec_ofExcept {g : ActionGraphBuilder → Except BuilderError α}
    (hg : ∀ b, (g b).FailsWith (· ≠ BuilderError.graphPanic)) :
    Spec F (fun b ↦ EStateM.ofExcept (g b) b) fun a b ↦ F b ∧ g b = .ok a := by
  intro b hI hb
  dsimp only
  cases h : g b with
  | ok a => exact ⟨hI, refl_of Grows b, hb, h⟩
  | error e => exact ⟨hI, refl_of Grows b, hg b e h⟩

theorem internalResolveTasksFromTarget_spec {target : Target} {allowInternal : Bool} :
    Spec F (internalResolveTasksFromTarget env target allowInternal) fun tasks b ↦
      F b ∧ resolveTasksFromTarget env b.allQuery target allowInternal = .ok tasks :=
  spec_ofExcept fun _ ↦ resolveTasksFromTarget_failsWith _ _ _

theorem internalResolveTasksFromTargetLocator_spec {locator : TargetLocator}
    {allowInternal : Bool} :
    Spec F (internalResolveTasksFromTargetLocator env locator allowInternal) fun tasks b ↦
      F b ∧ resolveTasksFromTargetLocator env b.allQuery locator allowInternal = .ok tasks :=
  spec_ofExcept fun _ ↦ resolveTasksFromTargetLocator_failsWith _ _ _

theorem liftTarget_failsWith (x : Outcome TargetError α) :
    (liftTarget x).FailsWith (· ≠ BuilderError.graphPanic) := by
  cases x with
  | ok a => exact Except.failsWith_ok a
  | err e => exact Except.failsWith_error (by simp)
  | panic => exact Except.failsWith_error (by simp)

theorem keepsGraph_isPassthrough (target : Target) : KeepsGraph (isPassthrough target) :=
  keepsGraph_of_ok _ _ (fun _ ↦ rfl) fun _ ↦ ⟨rfl, rfl, rfl⟩

theorem keepsGraph_markPassthrough (target : Target) : KeepsGraph (markPassthrough target) :=
  keepsGraph_of_ok _ _ (fun _ ↦ rfl) fun _ ↦ ⟨rfl, rfl, rfl⟩

theorem keepsGraph_removeIgnoredDependencies (target : Target) :
    KeepsGraph (removeIgnoredDependencies target) :=
  keepsGraph_of_ok _ _ (fun _ ↦ rfl) fun _ ↦ ⟨rfl, rfl, rfl⟩

theorem keepsGraph_removeIgnoredDependents (target : Target) :
    KeepsGraph (removeIgnoredDependents target) :=
  keepsGraph_of_ok _ _ (fun _ ↦ rfl) fun _ ↦ ⟨rfl, rfl, rfl⟩

theorem keepsGraph_ignoreDependencies (task : Task) : KeepsGraph (ignoreDependencies task) :=
  keepsGraph_of_ok _ _ (fun _ ↦ rfl) fun _ ↦ ⟨rfl, rfl, rfl⟩

theorem keepsGraph_ignoreDependents (target : Target) : KeepsGraph (ignoreDependents target) :=
  keepsGraph_of_ok _ _ (fun _ ↦ rfl) fun _ ↦ ⟨rfl, rfl, rfl⟩

theorem keepsGraph_addPrimaryTarget (target : Target) : KeepsGraph (addPrimaryTarget target) :=
  keepsGraph_of_ok _ _ (fun _ ↦ rfl) fun _ ↦ ⟨rfl, rfl, rfl⟩

/-! ### The loops over dependencies and dependents -/

theorem linkSerialAfter_spec (hF : TaskStable F) {parallel : Bool} {depIndex : ℕ}
    {previous : Option ℕ} :
    TaskSpec (fun b ↦ F b ∧ b.Requiring depIndex ∧ ∀ i ∈ previous, b.Requiring i)
      (linkSerialAfter parallel depIndex previous) fun _ b ↦ F b := by
  unfold linkSerialAfter
  split
  · exact taskSpec_of_spec ((linkSerialRequirements_frame hF.stable).mono
      (fun _ _ h ↦ ⟨h.1, h.2.1, (h.2.2 _ rfl).imp fun _ hn ↦ hn.1⟩) fun _ _ _ h ↦ h)
  · exact EStateM.Triple.pure _ fun _ _ h ↦ h.1

/-- The loop invariant of `run_task_dependencies`: the edges gathered name actions, and the previous
dependency's action may require others. -/
def DepsInv (F : ActionGraphBuilder → Prop) (acc : List (Option ℕ) × Option ℕ)
    (b : ActionGraphBuilder) : Prop :=
  F b ∧ b.OptNodes acc.1 ∧ ∀ i ∈ acc.2, b.Requiring i

theorem taskStable_depsInv (hF : TaskStable F) (acc : List (Option ℕ) × Option ℕ) :
    TaskStable (DepsInv F acc) :=
  hF.and ((taskStable_optNodes acc.1).and (taskStable_requiring acc.2))

variable {run : RunFn}

theorem runDependencyTask_spec (hrun : RunSpec run) (hF : TaskStable F) {parallel : Bool}
    {dep : TaskDependencyConfig} {reqs : RunRequirements} {state : RunTaskState}
    {acc : List (Option ℕ) × Option ℕ} {depTask : Task} :
    TaskSpec (DepsInv F acc) (runDependencyTask run parallel dep reqs state acc depTask)
      fun acc' b ↦ DepsInv F acc' b := by
  unfold runDependencyTask
  refine (hrun (taskStable_depsInv hF acc) _ _ _ _).bind fun o ↦ ?_
  cases o with
  | none => exact EStateM.Triple.pure _ fun _ _ h ↦ h.1
  | some depIndex =>
    refine ((linkSerialAfter_spec ((taskStable_depsInv hF acc).and
      (taskStable_requiring (some depIndex)))).mono
        (fun _ _ h ↦ ⟨h, h.2 _ rfl, h.1.2.2⟩) fun _ _ _ h ↦ h).bind fun _ ↦ ?_
    refine EStateM.Triple.pure _ fun _ _ h ↦ ⟨h.1.1, optNodes_append.2 ⟨h.1.2.1, ?_⟩, h.2⟩
    exact optNodes_cons.2 ⟨fun i hi ↦ (h.2 i hi).imp fun _ hn ↦ hn.1, optNodes_nil⟩

theorem runTaskDependencies_spec (hrun : RunSpec run) (hF : TaskStable F) {task : Task}
    {reqs : RunRequirements} {state : RunTaskState} :
    TaskSpec F (runTaskDependencies env run task reqs state) fun edges b ↦
      F b ∧ b.OptNodes edges := by
  unfold runTaskDependencies
  refine ((EStateM.Triple.foldlM (DepsInv F) _ _ fun acc dep _ ↦ ?_).mono
    (fun _ _ h ↦ ⟨h, optNodes_nil, fun _ hi ↦ by cases hi⟩) fun _ _ _ h ↦ h).bind fun acc ↦
      EStateM.Triple.pure _ fun _ _ h ↦ ⟨h.1, h.2.1⟩
  exact (taskSpec_of_spec internalResolveTasksFromTarget_spec).bind fun depTasks ↦
    (EStateM.Triple.foldlM (DepsInv F) _ _ fun _ _ _ ↦ runDependencyTask_spec hrun hF).mono
      (fun _ _ h ↦ h.1) fun _ _ _ h ↦ h

theorem runDependentTask_spec (hrun : RunSpec run) (hF : TaskStable F) {reqs : RunRequirements}
    {state : RunTaskState} {indexes : List (Option ℕ)} {depTask : Task} :
    TaskSpec (fun b ↦ F b ∧ b.OptNodes indexes) (runDependentTask run reqs state indexes depTask)
      fun indexes' b ↦ F b ∧ b.OptNodes indexes' := by
  unfold runDependentTask
  refine (hrun (hF.and (taskStable_optNodes indexes)) _ _ _ _).bind fun index ↦
    EStateM.Triple.pure _ fun _ _ h ↦ ⟨h.1.1, optNodes_append.2 ⟨h.1.2, ?_⟩⟩
  exact optNodes_cons.2 ⟨fun i hi ↦ (h.2 i hi).imp fun _ hn ↦ hn.1, optNodes_nil⟩

theorem runTaskDependents_spec (hrun : RunSpec run) (hF : TaskStable F) {task : Task}
    {reqs : RunRequirements} {state : RunTaskState} :
    TaskSpec F (runTaskDependents env run task reqs state) fun indexes b ↦
      F b ∧ b.OptNodes indexes := by
  unfold runTaskDependents
  refine (EStateM.Triple.foldlM (fun indexes b ↦ F b ∧ b.OptNodes indexes) _ _
    fun indexes _ _ ↦ ?_).mono (fun _ _ h ↦ ⟨h, optNodes_nil⟩) fun _ _ _ h ↦ h
  exact (taskSpec_of_spec internalResolveTasksFromTarget_spec).bind fun depTasks ↦
    (EStateM.Triple.foldlM _ _ _ fun _ _ _ ↦ runDependentTask_spec hrun hF).mono
      (fun _ _ h ↦ h.1) fun _ _ _ h ↦ h

/-! ### A task's action -/

/-- The edges a new task action starts with name actions. -/
theorem initialEdges_spec (hF : Stable F) {fuel : ℕ} {task : Task} {project : Project}
    {reqs : RunRequirements} :
    Spec F (initialEdges env fuel task project reqs) fun edges b ↦ F b ∧ b.OptNodes edges := by
  unfold initialEdges
  refine (internalSyncProject_spec fuel hF project reqs []).bind fun syncIndex ↦ ?_
  refine ((installDependenciesByToolchains_spec (hF.and (stable_optNodes [syncIndex]))).mono
    (fun _ _ h ↦ ⟨h.1, optNodes_nil.concat h.2⟩) fun _ _ _ h ↦ h).bind fun installIndexes ↦ ?_
  have hedges : ∀ b, (F b ∧ b.OptNodes [syncIndex]) ∧ b.OptNodes installIndexes →
      F b ∧ b.OptNodes (syncIndex :: installIndexes) :=
    fun _ h ↦ ⟨h.1.1, optNodes_cons.2 ⟨(optNodes_cons.1 h.1.2).1, h.2⟩⟩
  refine EStateM.Triple.ite (fun _ ↦ ?_) fun _ ↦ EStateM.Triple.pure _ fun b _ h ↦ hedges b h
  -- no action among them: the workspace sync is added
  exact ((syncWorkspace_spec (hF.and (stable_optNodes (syncIndex :: installIndexes)))).mono
    (fun b _ h ↦ hedges b h) fun _ _ _ h ↦ h).bind fun _ ↦
      EStateM.Triple.pure _ fun _ _ h ↦ ⟨h.1.1, h.1.2.concat h.2⟩

theorem runIgnored_spec (hrun : RunSpec run) (hF : TaskStable F) {task : Task}
    {reqs : RunRequirements} {state : RunTaskState} {index : ℕ} {node : ActionNode}
    (hn : node.isSink = false) {hadIgnoredDependencies hadIgnoredDependents : Bool} :
    TaskSpec (fun b ↦ F b ∧ b.nodeAt index = some node)
      (runIgnored env run task reqs state index hadIgnoredDependencies hadIgnoredDependents)
      fun o b ↦ F b ∧ ∀ i ∈ o, b.nodeAt i = some node := by
  unfold runIgnored
  extract_lets ret rest
  have hF' : TaskStable fun b ↦ F b ∧ b.nodeAt index = some node :=
    hF.and (taskStable_nodeAt index node)
  have hret : TaskSpec (fun b ↦ F b ∧ b.nodeAt index = some node) (ret ())
      fun o b ↦ F b ∧ ∀ i ∈ o, b.nodeAt i = some node :=
    taskSpec_of_spec spec_pure_some
  -- the dependents left out, then the index
  have hrest : TaskSpec (fun b ↦ F b ∧ b.nodeAt index = some node) (rest ())
      fun o b ↦ F b ∧ ∀ i ∈ o, b.nodeAt i = some node :=
    EStateM.Triple.ite (fun _ ↦ (runTaskDependents_spec hrun hF').bind fun _ ↦
      hret.mono (fun _ _ h ↦ h.1) fun _ _ _ h ↦ h) fun _ ↦ hret
  -- the dependencies left out, which the action now requires
  refine EStateM.Triple.ite (fun _ ↦ ?_) fun _ ↦ hrest
  exact (runTaskDependencies_spec hrun hF').bind fun edges ↦
    (taskSpec_of_spec ((linkOptionalRequirements_spec hF'.stable).mono
      (fun _ _ h ↦ ⟨h.1, ⟨node, h.1.2, hn⟩, h.2⟩) fun _ _ _ h ↦ h)).bind fun _ ↦ hrest

theorem runNew_spec (hrun : RunSpec run) (hF : TaskStable F) {fuel : ℕ} {task : Task}
    {project : Project} {reqs : RunRequirements} {state : RunTaskState} {node : ActionNode}
    (hn : node.isRunTask = true) {shouldRunDependencies shouldRunDependents : Bool} :
    TaskSpec (fun b ↦ F b ∧ Absent node b)
      (runNew env fuel run task project reqs state node shouldRunDependencies shouldRunDependents)
      fun o b ↦ F b ∧ ∀ i ∈ o, b.nodeAt i = some node := by
  unfold runNew
  -- the preparing methods add no task's action, so the task's is still absent
  refine (taskSpec_of_spec (initialEdges_spec (hF.stable.and (stable_absent hn)))).bind
    fun edges ↦ ?_
  refine ((insertNode_taskSpec (hF.and (taskStable_optNodes edges))).mono
    (fun _ hI h ↦ ⟨⟨h.1.1, h.2⟩, hI.absent_iff.1 h.1.2⟩) fun _ _ _ h ↦ h).bind fun index ↦ ?_
  extract_lets ret rest
  have hF' : TaskStable fun b ↦ F b ∧ b.nodeAt index = some node :=
    hF.and (taskStable_nodeAt index node)
  have hret : TaskSpec (fun b ↦ F b ∧ b.nodeAt index = some node) (ret ())
      fun o b ↦ F b ∧ ∀ i ∈ o, b.nodeAt i = some node :=
    taskSpec_of_spec spec_pure_some
  -- the action requires the edges, then its dependents run or are left for later
  have hrest : ∀ edges, TaskSpec (fun b ↦ (F b ∧ b.OptNodes edges) ∧ b.nodeAt index = some node)
      (rest edges) fun o b ↦ F b ∧ ∀ i ∈ o, b.nodeAt i = some node := by
    intro edges
    refine (taskSpec_of_spec ((linkOptionalRequirements_spec hF'.stable).mono
      (fun _ _ h ↦ ⟨⟨h.1.1, h.2⟩, ⟨node, h.2, ActionNode.isSink_eq_false_of_isRunTask hn⟩, h.1.2⟩)
        fun _ _ _ h ↦ h)).bind fun _ ↦ ?_
    exact EStateM.Triple.ite (fun _ ↦ (runTaskDependents_spec hrun hF').bind fun _ ↦
      hret.mono (fun _ _ h ↦ h.1) fun _ _ _ h ↦ h) fun _ ↦
        ((keepsGraph_ignoreDependents _).taskSpec hF').bind fun _ ↦ hret
  have hG := (hF.and (taskStable_optNodes edges)).and (taskStable_nodeAt index node)
  refine EStateM.Triple.ite (fun _ ↦ EStateM.Triple.ite (fun _ ↦ ?_) fun _ ↦ ?_)
    fun _ ↦ EStateM.Triple.bind (EStateM.Triple.pure _ fun _ _ h ↦ h) hrest
  · -- the dependencies in scope: their actions are required too
    exact (runTaskDependencies_spec hrun hG).bind fun depEdges ↦
      EStateM.Triple.bind (EStateM.Triple.pure _ fun _ _ h ↦
        ⟨⟨h.1.1.1, optNodes_append.2 ⟨h.1.1.2, h.2⟩⟩, h.1.2⟩) hrest
  · exact ((keepsGraph_ignoreDependencies task).taskSpec hG).bind fun _ ↦
      EStateM.Triple.bind (EStateM.Triple.pure _ fun _ _ h ↦ h) hrest

/-- **A run of a task** keeps the invariant, only extends the graph, never makes daggy panic, and
returns the index of the task's own action. -/
theorem internalRunTask_spec : ∀ (fuel : ℕ) {F : ActionGraphBuilder → Prop}, TaskStable F →
    ∀ (task : Task) (reqs : RunRequirements) (config : Option TaskDependencyConfig)
      (state : RunTaskState),
      TaskSpec F (internalRunTask env fuel task reqs config state) fun o b ↦
        F b ∧ ∀ i ∈ o, b.nodeAt i = some (.runTaskOf env.finish (runTaskNode task reqs config))
  | 0, _, _, _, _, _, _ => EStateM.Triple.throw _ BuilderError.noConfusion
  | fuel + 1, F, hF, task, reqs, config, state => by
    -- the runs of dependencies and dependents, by the induction hypothesis
    have hrun : RunSpec (internalRunTask env fuel) := fun hG t r c s ↦
      (internalRunTask_spec fuel hG t r c s).mono (fun _ _ h ↦ h) fun _ _ _ h ↦
        ⟨h.1, fun i hi ↦ ⟨_, h.2 i hi, rfl⟩⟩
    rw [internalRunTask]
    refine ((EStateM.Triple.ofExcept _ fun e he ↦ liftTarget_failsWith _ e he).mono
      (fun _ _ h ↦ h) fun _ _ _ h ↦ h.1).bind fun projectId ↦ ?_
    refine (taskSpec_of_spec (liftExternal_frame _)).bind fun project ↦ ?_
    refine ((keepsGraph_isTaskAffected task reqs).taskSpec hF).bind fun affected ↦ ?_
    refine EStateM.Triple.ite (fun _ ↦ taskSpec_of_spec spec_pure_none) fun _ ↦ ?_
    refine ((keepsGraph_isPassthrough _).taskSpec hF).bind fun passthrough ↦ ?_
    refine EStateM.Triple.ite (fun _ ↦ taskSpec_of_spec spec_pure_none) fun _ ↦ ?_
    refine EStateM.Triple.ite (fun _ ↦ ?_) fun _ ↦ ?_
    · -- a task that should not run in CI is a passthrough, whose dependents may still run
      refine ((keepsGraph_markPassthrough _).taskSpec hF).bind fun _ ↦ ?_
      extract_lets ret
      have hret : TaskSpec F (ret ()) fun o b ↦
          F b ∧ ∀ i ∈ o, b.nodeAt i = some (.runTaskOf env.finish (runTaskNode task reqs config)) :=
        taskSpec_of_spec spec_pure_none
      exact EStateM.Triple.ite (fun _ ↦ (runTaskDependents_spec hrun hF).bind fun _ ↦
        hret.mono (fun _ _ h ↦ h.1) fun _ _ _ h ↦ h) fun _ ↦ hret
    · extract_lets node withDependencies
      have hcont : ∀ hadIgnoredDependencies, TaskSpec F (withDependencies hadIgnoredDependencies)
          fun o b ↦ F b ∧ ∀ i ∈ o, b.nodeAt i = some node := by
        intro hadIgnoredDependencies
        refine EStateM.Triple.ite_bind (fun _ ↦ (keepsGraph_removeIgnoredDependents _).taskSpec hF)
          (fun _ ↦ EStateM.Triple.pure _ fun _ _ h ↦ h) fun hadIgnoredDependents ↦ ?_
        refine (taskSpec_of_spec (getIndexFromNode_spec node)).bind fun found ↦ ?_
        cases found with
        | some index =>
          exact (runIgnored_spec hrun hF rfl).mono (fun _ hI h ↦ ⟨h.1, hI.nodeAt_of_get? h.2⟩)
            fun _ _ _ h ↦ h
        | none =>
          exact (runNew_spec hrun hF rfl).mono (fun _ hI h ↦ ⟨h.1, hI.absent_iff.2 h.2⟩)
            fun _ _ _ h ↦ h
      exact EStateM.Triple.ite_bind (fun _ ↦ (keepsGraph_removeIgnoredDependencies _).taskSpec hF)
        (fun _ ↦ EStateM.Triple.pure _ fun _ _ h ↦ h) hcont

/-! ### The public runs -/

theorem addPrimaryTarget_spec (hF : TaskStable F) {target : Target} :
    TaskSpec F (addPrimaryTarget target) fun _ b ↦ F b ∧ target ∈ b.primaryTargets := by
  intro b hI hb
  obtain ⟨hI', hE, hb'⟩ := (keepsGraph_addPrimaryTarget target).taskSpec hF b hI hb
  exact ⟨hI', hE, hb', List.mem_insert_self⟩

/-- **`run_task`** returns the index of the task's own action, and makes its target a primary
target. -/
theorem runTask_spec (hF : TaskStable F) {fuel : ℕ} {task : Task} {reqs : RunRequirements} :
    TaskSpec F (runTask env fuel task reqs) fun o b ↦ F b ∧ ∀ i ∈ o,
      b.nodeAt i = some (.runTaskOf env.finish (runTaskNode task reqs none)) ∧
        task.target ∈ b.primaryTargets := by
  unfold runTask
  refine (internalRunTask_spec fuel hF task reqs none {}).bind fun o ↦ ?_
  cases o with
  | none => exact EStateM.Triple.pure _ fun _ _ h ↦ ⟨h.1, fun _ hi ↦ by cases hi⟩
  | some index =>
    refine ((addPrimaryTarget_spec (hF.and (taskStable_nodeAt index _))).mono
      (fun _ _ h ↦ ⟨h.1, h.2 index rfl⟩) fun _ _ _ h ↦ h).bind fun _ ↦ ?_
    exact EStateM.Triple.pure _ fun _ _ h ↦ ⟨h.1.1, fun i hi ↦ by cases hi; exact ⟨h.1.2, h.2⟩⟩

theorem runResolvedTasks_spec (hF : TaskStable F) {fuel : ℕ} {tasks : List Task}
    {reqs : RunRequirements} :
    TaskSpec F (runResolvedTasks env fuel tasks reqs) fun _ b ↦ F b :=
  EStateM.Triple.foldlM (fun _ b ↦ F b) _ _ fun _ _ _ ↦
    (runTask_spec hF).bind fun _ ↦ EStateM.Triple.pure _ fun _ _ h ↦ h.1

theorem runTaskByTarget_spec (hF : TaskStable F) {fuel : ℕ} {target : Target}
    {reqs : RunRequirements} :
    TaskSpec F (runTaskByTarget env fuel target reqs) fun _ b ↦ F b :=
  (taskSpec_of_spec internalResolveTasksFromTarget_spec).bind fun _ ↦
    (runResolvedTasks_spec hF).mono (fun _ _ h ↦ h.1) fun _ _ _ h ↦ h

theorem runTaskByTargetLocator_spec (hF : TaskStable F) {fuel : ℕ} {locator : TargetLocator}
    {reqs : RunRequirements} :
    TaskSpec F (runTaskByTargetLocator env fuel locator reqs) fun _ b ↦ F b :=
  (taskSpec_of_spec internalResolveTasksFromTargetLocator_spec).bind fun _ ↦
    (runResolvedTasks_spec hF).mono (fun _ _ h ↦ h.1) fun _ _ _ h ↦ h

theorem keepsGraph_trackTasksUpFront (reqs : RunRequirements) (tasks : List Task)
    (completion : List ℕ) : KeepsGraph (trackTasksUpFront env reqs tasks completion) := fun b ↦ by
  unfold trackTasksUpFront
  split
  · split
    · exact keepsGraph_onAffected _ _ b
    · exact ⟨rfl, rfl, rfl, trivial⟩
  · exact ⟨rfl, rfl, rfl, trivial⟩

theorem filterAffected_spec (hF : TaskStable F) {tasks : List Task} {reqs : RunRequirements} :
    TaskSpec F (filterAffected env tasks reqs) fun _ b ↦ F b :=
  EStateM.Triple.foldlM (fun _ b ↦ F b) _ _ fun _ task _ ↦
    ((keepsGraph_isTaskAffected task reqs).taskSpec hF).bind fun _ ↦
      EStateM.Triple.pure _ fun _ _ h ↦ h

theorem jobTasks_spec (hF : TaskStable F) {tasks : List Task} {reqs : RunRequirements} :
    TaskSpec F (jobTasks env tasks reqs) fun _ b ↦ F b := by
  unfold jobTasks
  split
  · refine EStateM.Triple.ite (fun _ ↦ ?_) fun _ ↦ EStateM.Triple.pure _ fun _ _ h ↦ h
    refine EStateM.Triple.ite (fun _ ↦ EStateM.Triple.throw _ BuilderError.noConfusion)
      fun _ ↦ ?_
    exact EStateM.Triple.ite_bind (M := fun _ b ↦ F b) (fun _ ↦ filterAffected_spec hF)
      (fun _ ↦ EStateM.Triple.pure _ fun _ _ h ↦ h) fun _ ↦ EStateM.Triple.pure _ fun _ _ h ↦ h
  · exact EStateM.Triple.pure _ fun _ _ h ↦ h

theorem runTasks_spec (hF : TaskStable F) {fuel : ℕ} {locators : List TargetLocator}
    {reqs : RunRequirements} {completion : List ℕ} :
    TaskSpec F (runTasks env fuel locators reqs completion) fun _ b ↦ F b := by
  unfold runTasks
  refine (EStateM.Triple.foldlM (fun _ b ↦ F b) _ _ fun _ _ _ ↦ ?_).bind fun tasks ↦ ?_
  · exact (taskSpec_of_spec internalResolveTasksFromTargetLocator_spec).bind fun _ ↦
      EStateM.Triple.pure _ fun _ _ h ↦ h.1
  refine ((keepsGraph_trackTasksUpFront _ _ _).taskSpec hF).bind fun _ ↦ ?_
  refine (jobTasks_spec hF).bind fun r ↦ ?_
  obtain ⟨tasks, size⟩ := r
  exact EStateM.Triple.foldlM (fun _ b ↦ F b) _ _ fun _ _ _ ↦
    (runTask_spec hF).bind fun _ ↦ EStateM.Triple.pure _ fun _ _ h ↦ h.1

theorem runTasksWithPlan_spec (hF : TaskStable F) {fuel : ℕ} {targets : TargetsBlock}
    {reqs : RunRequirements} {completion : List ℕ} :
    TaskSpec F (runTasksWithPlan env fuel targets reqs completion) fun _ b ↦ F b := by
  unfold runTasksWithPlan
  split
  · split
    · refine EStateM.Triple.ite (fun _ ↦ ?_) fun _ ↦
        EStateM.Triple.throw _ BuilderError.noConfusion
      refine EStateM.Triple.ite (fun _ ↦ EStateM.Triple.throw _ BuilderError.noConfusion)
        fun _ ↦ ?_
      refine EStateM.Triple.ite (fun _ ↦ EStateM.Triple.throw _ BuilderError.noConfusion)
        fun _ ↦ ?_
      exact (runTasks_spec hF).bind fun _ ↦ EStateM.Triple.pure _ fun _ _ h ↦ h
    · exact EStateM.Triple.throw _ BuilderError.noConfusion
  · exact runTasks_spec hF
  · exact runTasks_spec hF

end TaskSpecs

end ActionGraphBuilder

end Moon
