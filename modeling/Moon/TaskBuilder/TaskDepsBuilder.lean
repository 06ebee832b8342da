import Mathlib.Data.List.Nodup
import Moon.Project.Project
import Moon.Task.Task

/-!
# Resolving the dependencies of a task

`crates/task-builder/src/task_deps_builder.rs`.  `TaskDepsBuilder::build` replaces a task's
configured dependencies by the tasks they resolve to.  Each configured dependency's target names
the projects it ranges over (`^:` the project's dependencies, `^build:` those of one scope, `~:`
the project itself, `id:` one project, `#tag:` the projects with a tag) and the task id or tag to
look for in them; the querent answers with the matching tasks, and each one that is not the task
itself is checked, recorded once, and, for `id:` and `#tag:` targets, its project is linked as an
implicit `build` dependency of the project.

That link is pushed onto `project.dependencies` in the middle of the loop, and a later `^:` or
`^build:` dependency ranges over `project.dependencies` as it is then.  So the tasks a `^:`
dependency resolves to depend on whether an `#tag:` dependency came before it, in the task's own
list or in a task of the same project resolved earlier (`deps_order_changes_resolved_targets`).
Apart from that, what a successful run leaves is well formed (`build_spec`): the resolved
dependencies repeat none and none is the task itself, and the project only gains dependencies on
other projects it did not have, one for each.

`ProjectDependencyConfig`'s `source` (`Implicit`) and `via` of a linked dependency are not
modelled; nothing here reads them.
-/

set_option autoImplicit false

namespace Moon

/-- `TasksBuilderError`, with the variants `TaskDepsBuilder::build` returns; each names the
dependency and the task. -/
inductive TasksBuilderError where
  | allowFailureDepRequirement (dep task : Target)
  | runInCiDepRequirement (dep task : Target)
  | persistentDepRequirement (dep task : Target)
  | unknownDepTarget (dep task : Target)
  | unknownDepTargetParentScope (dep task : Target)
  | unknownDepTargetTagScope (dep task : Target)
  | unsupportedTargetScopeInDeps (dep task : Target)
  deriving DecidableEq, Repr

/-- The message each variant displays, without its styling. -/
def TasksBuilderError.message : TasksBuilderError → String
  | .allowFailureDepRequirement dep task =>
    "Task " ++ task.id ++ " cannot depend on task " ++ dep.id ++
      ", as it is allowed to fail, which may cause unwanted side-effects.\nA task is marked to " ++
      "allow failure with the options.allowFailure setting."
  | .runInCiDepRequirement dep task =>
    "Task " ++ task.id ++ " cannot depend on task " ++ dep.id ++
      ", as the dependency cannot run in CI because options.runInCI is disabled. Because of " ++
      "this, the pipeline will not run tasks correctly."
  | .persistentDepRequirement dep task =>
    "Non-persistent task " ++ task.id ++ " cannot depend on persistent task " ++ dep.id ++
      ".\nA task is marked persistent with the options.persistent setting.\n\nIf you're " ++
      "looking to avoid the cache, disable options.cache instead."
  | .unknownDepTarget dep task =>
    "Invalid dependency " ++ dep.id ++ " for task " ++ task.id ++ ", target does not exist."
  | .unknownDepTargetParentScope dep task =>
    "Invalid dependency " ++ dep.id ++ " for task " ++ task.id ++
      ", no matching targets in project dependencies. Mark the dependency as optional to " ++
      "allow no results."
  | .unknownDepTargetTagScope dep task =>
    "Invalid dependency " ++ dep.id ++ " for task " ++ task.id ++
      ", no matching targets within this tag. Mark the dependency as optional to allow no " ++
      "results."
  | .unsupportedTargetScopeInDeps dep task =>
    "Invalid dependency " ++ dep.id ++ " for task " ++ task.id ++
      ". All (:) scope is not supported."

/-- What `TaskDepsBuilder::build` can fail with: a `TasksBuilderError`, a `TargetError` from
reading a target's task id, or an error of the querent (a `miette` report, by its message). -/
inductive TaskDepsError where
  | tasksBuilder (e : TasksBuilderError)
  | target (e : TargetError)
  | querent (message : String)
  deriving DecidableEq, Repr

/-- `TasksQuerent`: what the workspace answers about projects and their tasks. -/
structure TasksQuerent where
  queryProjectsByTag : String → Except String (List String)
  queryTasks : List String → TargetTaskScope × String → Except String (List (Target × TaskOptions))
  queryTaskHasOutputs : Target → Bool

/-- The `DependencyScope` a `^scope:task` target ranges over. -/
def TargetDependencyScope.toDependencyScope : TargetDependencyScope → DependencyScope
  | .build => .build
  | .development => .development
  | .peer => .peer
  | .production => .production

/-- `create_project_dep_from_task_dep`: the implicit dependency that a task dependency on a task
of another project makes of that project, unless it is one already.  Reading the project id may
panic (`none`); a target without one makes no dependency. -/
def createProjectDepFromTaskDep (taskDep : TaskDependencyConfig) (projectId : String)
    (rootProjectId : Option String) (alreadyExists : String → Bool) :
    Option (Option ProjectDependencyConfig) :=
  match taskDep.target.getProjectId with
  | .panic => none
  | .err _ => some none
  | .ok depProjectId =>
    -- already a dependency, or references self
    if projectId = depProjectId ∨ alreadyExists depProjectId = true then some none
    else
      some (some
        { id := depProjectId
          scope := if rootProjectId = some depProjectId then .root else .build })

/-- The `already_exists` of `build`: an alias of the project, or one of its dependencies. -/
def hasAliasOrDependency (project : Project) (depProjectId : String) : Bool :=
  project.aliases.any (·.name == depProjectId) || project.dependencies.any (·.id == depProjectId)

/-- The error for a dependency that matched no task and may not be skipped. -/
def unknownDepError (depConfig : TaskDependencyConfig) (task : Task) : TasksBuilderError :=
  match depConfig.target.project with
  | .deps | .depsOf _ => .unknownDepTargetParentScope depConfig.target task.target
  | .tag => .unknownDepTargetTagScope depConfig.target task.target
  | _ => .unknownDepTarget depConfig.target task.target

/-- Avoid circular references: a task of the project itself with the task's own id.  Reading the
dependency's project id may panic; reading either task id may fail. -/
def isCircular (project : Project) (task : Task) (depTaskTarget : Target) :
    Outcome TaskDepsError Bool :=
  match depTaskTarget.getProjectId with
  | .panic => .panic
  | .err _ => .ok false
  | .ok id =>
    if id = project.id then do
      let depTaskId ← depTaskTarget.getTaskId.mapErr .target
      let taskId ← task.target.getTaskId.mapErr .target
      pure (depTaskId = taskId)
    else .ok false

/-- `TaskDepsBuilder`: the querent and the id of the root-level project. -/
structure TaskDepsBuilder where
  querent : TasksQuerent
  rootProjectId : Option String

namespace TaskDepsBuilder

variable (b : TaskDepsBuilder)

/-- The projects a dependency's target ranges over, whether it may match no task, and whether
the projects of the tasks it matches are linked as implicit dependencies. -/
def depProjects (project : Project) (task : Task) (depConfig : TaskDependencyConfig) :
    Outcome TaskDepsError (List String × Bool × Bool) :=
  match depConfig.target.getProjectScope with
  | none => .panic
  | some (scope, scopeValue) =>
    match scope with
    -- `:task`
    | .all => .err (.tasksBuilder (.unsupportedTargetScopeInDeps depConfig.target task.target))
    -- `^:task`
    | .deps => .ok (project.dependencies.map (·.id), depConfig.optional.getD true, false)
    -- `^build:task`, `^development:task`, …
    | .depsOf scope =>
      .ok ((project.dependencies.filter (·.scope = scope.toDependencyScope)).map (·.id),
        depConfig.optional.getD true, false)
    -- `~:task`
    | .ownSelf => .ok ([project.id], depConfig.optional.getD false, false)
    -- `id:task`
    | .id => .ok ([scopeValue], depConfig.optional.getD false, true)
    -- `#tag:task`
    | .tag => do
      let ids ← (Outcome.ofExcept (b.querent.queryProjectsByTag scopeValue)).mapErr .querent
      pure (ids.filter (· ≠ project.id), depConfig.optional.getD true, true)

/-- `TaskDepsBuilder::check_and_create_dep`. -/
def checkAndCreateDep (task : Task) (depTaskTarget : Target) (depTaskOptions : TaskOptions)
    (depConfig : TaskDependencyConfig) : Except TasksBuilderError TaskDependencyConfig :=
  -- do not depend on tasks that can fail
  if depTaskOptions.allowFailure then .error (.allowFailureDepRequirement depTaskTarget task.target)
  -- do not depend on tasks that can't run in CI
  else if depTaskOptions.runInCI.isEnabled = false ∧ task.options.runInCI.isEnabled ∧
      depTaskOptions.runInCI ≠ .skip ∧ task.options.runInCI ≠ .skip then
    .error (.runInCiDepRequirement depTaskTarget task.target)
  -- enforce persistent constraints
  else if depTaskOptions.persistent ∧ ¬ task.options.persistent then
    .error (.persistentDepRequirement depTaskTarget task.target)
  else
    let depHasOutputs := b.querent.queryTaskHasOutputs depTaskTarget
    .ok { depConfig with
      target := depTaskTarget
      cacheStrategy := depConfig.cacheStrategy.or (some (if depHasOutputs then .hash else .ignored)) }

/-- One task a dependency matched: skipped if it is the task itself, otherwise checked, its
project linked as an implicit dependency when the target asks for it, and recorded unless it is
already. -/
def resolveMatch (task : Task) (depConfig : TaskDependencyConfig) (linkImplicitProjectDeps : Bool)
    (acc : Project × List TaskDependencyConfig) (result : Target × TaskOptions) :
    Outcome TaskDepsError (Project × List TaskDependencyConfig) := do
  let (project, deps) := acc
  let (depTaskTarget, depTaskOptions) := result
  if ← isCircular project task depTaskTarget then pure (project, deps)
  else
    let taskDep ← (Outcome.ofExcept (b.checkAndCreateDep task depTaskTarget depTaskOptions
      depConfig)).mapErr .tasksBuilder
    let project ← if linkImplicitProjectDeps then do
        let projectDep ← Outcome.ofOption (createProjectDepFromTaskDep taskDep project.id
          b.rootProjectId (hasAliasOrDependency project))
        pure (match projectDep with
          | some projectDep => { project with dependencies := project.dependencies ++ [projectDep] }
          | none => project)
      else pure project
    pure (project, if taskDep ∈ deps then deps else deps ++ [taskDep])

/-- One configured dependency: the tasks it matches in the projects it ranges over, read off the
project as the dependencies before it left it. -/
def resolveDep (task : Task) (acc : Project × List TaskDependencyConfig)
    (depConfig : TaskDependencyConfig) :
    Outcome TaskDepsError (Project × List TaskDependencyConfig) := do
  let (projectIds, skipIfMissing, linkImplicitProjectDeps) ← b.depProjects acc.1 task depConfig
  let taskScope ← Outcome.ofOption depConfig.target.getTaskScope
  let results ← (Outcome.ofExcept (b.querent.queryTasks projectIds taskScope)).mapErr .querent
  if results.isEmpty ∧ ¬ skipIfMissing then .err (.tasksBuilder (unknownDepError depConfig task))
  else results.foldlM (b.resolveMatch task depConfig linkImplicitProjectDeps) acc

/-- `TaskDepsBuilder::build`: the project, with the dependencies it was linked to, and the task,
whose `deps` are the resolved ones. -/
def build (project : Project) (task : Task) : Outcome TaskDepsError (Project × Task) := do
  let (project, deps) ← task.deps.foldlM (b.resolveDep task) (project, [])
  pure (project, { task with deps })

/-! ## What a run of `build` keeps -/

/-- What holds between the steps of `build` of the project and the dependencies resolved so far,
from the project `project₀` and for the task `task`.  Only the project's dependencies change, by
dependencies on other projects it did not have, one for each, of scope `build` or `root`; the
resolved dependencies repeat none, and none is the task itself. -/
structure Resolved (project₀ : Project) (task : Task) (acc : Project × List TaskDependencyConfig) :
    Prop where
  project : acc.1 = { project₀ with dependencies := acc.1.dependencies }
  linked : ∃ added, acc.1.dependencies = project₀.dependencies ++ added ∧
    (added.map (·.id)).Nodup ∧ ∀ dep ∈ added, dep.id ≠ project₀.id ∧
      dep.id ∉ project₀.dependencies.map (·.id) ∧ (dep.scope = .build ∨ dep.scope = .root)
  nodup : acc.2.Nodup
  notSelf : ∀ dep ∈ acc.2,
    ¬ (dep.target.getProjectId = .ok project₀.id ∧ dep.target.getTaskId = task.target.getTaskId)

/-- A match that is not circular is not a task of the project with the task's own id. -/
theorem not_self_of_isCircular {project : Project} {task : Task} {t : Target}
    (h : isCircular project task t = .ok false) :
    ¬ (t.getProjectId = .ok project.id ∧ t.getTaskId = task.target.getTaskId) := by
  rintro ⟨hid, htask⟩
  unfold isCircular at h
  rw [hid] at h
  dsimp only at h
  rw [if_pos rfl, ← htask] at h
  cases hdep : t.getTaskId with
  | ok x => simp [hdep] at h
  | err e => simp [hdep] at h
  | panic => simp [hdep] at h

/-- A checked dependency is on the matched task. -/
theorem target_of_checkAndCreateDep {task : Task} {t : Target} {o : TaskOptions}
    {depConfig taskDep : TaskDependencyConfig}
    (h : b.checkAndCreateDep task t o depConfig = .ok taskDep) : taskDep.target = t := by
  unfold checkAndCreateDep at h
  split_ifs at h
  cases h
  rfl

/-- A linked project is another project, not a dependency or alias yet, linked as `build` or,
for the root-level project, as `root`. -/
theorem createProjectDepFromTaskDep_eq_some {taskDep : TaskDependencyConfig} {projectId : String}
    {rootProjectId : Option String} {alreadyExists : String → Bool} {dep : ProjectDependencyConfig}
    (h : createProjectDepFromTaskDep taskDep projectId rootProjectId alreadyExists =
      some (some dep)) :
    dep.id ≠ projectId ∧ alreadyExists dep.id = false ∧ (dep.scope = .build ∨ dep.scope = .root) := by
  unfold createProjectDepFromTaskDep at h
  cases hid : taskDep.target.getProjectId with
  | ok depProjectId =>
    rw [hid] at h
    dsimp only at h
    split_ifs at h with hskip hroot <;> cases h <;> simp only [not_or, Bool.not_eq_true] at hskip
    · exact ⟨Ne.symm hskip.1, hskip.2, .inr rfl⟩
    · exact ⟨Ne.symm hskip.1, hskip.2, .inl rfl⟩
  | err e => simp [hid] at h
  | panic => simp [hid] at h

/-- **What one match can do**: nothing, when it is circular; otherwise record the checked
dependency unless it is recorded, and perhaps link one project. -/
theorem resolveMatch_eq_ok {task : Task} {depConfig : TaskDependencyConfig} {link : Bool}
    {project : Project} {deps : List TaskDependencyConfig} {t : Target} {o : TaskOptions}
    {acc' : Project × List TaskDependencyConfig}
    (h : b.resolveMatch task depConfig link (project, deps) (t, o) = .ok acc') :
    acc' = (project, deps) ∨ ∃ taskDep, isCircular project task t = .ok false ∧
      b.checkAndCreateDep task t o depConfig = .ok taskDep ∧
      acc'.2 = (if taskDep ∈ deps then deps else deps ++ [taskDep]) ∧
      (acc'.1 = project ∨ ∃ dep, createProjectDepFromTaskDep taskDep project.id b.rootProjectId
        (hasAliasOrDependency project) = some (some dep) ∧
        acc'.1 = { project with dependencies := project.dependencies ++ [dep] }) := by
  simp only [resolveMatch] at h
  cases hc : isCircular project task t with
  | err e => simp [hc] at h
  | panic => simp [hc] at h
  | ok circular =>
    rw [hc, Outcome.ok_bind] at h
    cases circular with
    | true =>
      -- the task itself is skipped
      left
      simpa using h.symm
    | false =>
      right
      simp only [Bool.false_eq_true, if_false, Outcome.bind_eq_ok, Outcome.mapErr_eq_ok,
        Outcome.ofExcept_eq_ok] at h
      obtain ⟨taskDep, hdep, h⟩ := h
      refine ⟨taskDep, rfl, hdep, ?_⟩
      cases link with
      | false =>
        simp only [Bool.false_eq_true, if_false, Outcome.ok_bind, Outcome.pure_eq_ok] at h
        cases h
        exact ⟨rfl, .inl rfl⟩
      | true =>
        simp only [if_true, Outcome.bind_eq_ok, Outcome.ofOption_eq_ok, Outcome.pure_eq_ok] at h
        obtain ⟨projectDep, hcreate, project₁, hproject, h⟩ := h
        cases h
        cases hproject
        refine ⟨rfl, ?_⟩
        cases projectDep with
        | none => exact .inl rfl
        | some dep => exact .inr ⟨dep, hcreate, rfl⟩

/-- One configured dependency that resolved: a loop of matches did. -/
theorem resolveDep_eq_ok {task : Task} {acc acc' : Project × List TaskDependencyConfig}
    {depConfig : TaskDependencyConfig} (h : b.resolveDep task acc depConfig = .ok acc') :
    ∃ (results : List (Target × TaskOptions)) (link : Bool),
      results.foldlM (b.resolveMatch task depConfig link) acc = .ok acc' := by
  simp only [resolveDep, Outcome.bind_eq_ok] at h
  obtain ⟨⟨_, skipIfMissing, link⟩, -, _, -, results, -, h⟩ := h
  split_ifs at h
  exact ⟨results, link, h⟩

theorem Resolved.init (project : Project) (task : Task) : Resolved project task (project, []) where
  project := rfl
  linked := ⟨[], by simp, List.nodup_nil, by simp⟩
  nodup := List.nodup_nil
  notSelf := by simp

/-- **A match keeps `Resolved`.** -/
theorem Resolved.resolveMatch {project₀ : Project} {task : Task} {depConfig : TaskDependencyConfig}
    {link : Bool} {acc acc' : Project × List TaskDependencyConfig} {r : Target × TaskOptions}
    (hinv : Resolved project₀ task acc) (h : b.resolveMatch task depConfig link acc r = .ok acc') :
    Resolved project₀ task acc' := by
  obtain ⟨project, deps⟩ := acc
  obtain ⟨t, o⟩ := r
  rcases b.resolveMatch_eq_ok h with rfl | ⟨taskDep, hcirc, hcheck, hdeps, hproject⟩
  · exact hinv
  have hid : project.id = project₀.id := by
    have h := congrArg Project.id hinv.project
    exact h
  obtain ⟨added, hadded, hnodup, hfresh⟩ := hinv.linked
  dsimp only at hadded
  refine ⟨?_, ?_, ?_, ?_⟩
  · -- only the dependencies change
    rcases hproject with hp | ⟨dep, -, hp⟩ <;> rw [hp]
    · exact hinv.project
    · exact congrArg (fun p : Project ↦ { p with dependencies := project.dependencies ++ [dep] })
        hinv.project
  · rcases hproject with hp | ⟨dep, hcreate, hp⟩
    · rw [hp]
      exact ⟨added, hadded, hnodup, hfresh⟩
    · -- the linked project is neither the project nor one of its dependencies
      obtain ⟨hne, hnew, hscope⟩ := createProjectDepFromTaskDep_eq_some hcreate
      have hnot : dep.id ∉ (project₀.dependencies ++ added).map (·.id) := by
        rw [← hadded]
        simp only [hasAliasOrDependency, Bool.or_eq_false_iff] at hnew
        simpa using hnew.2
      rw [List.map_append, List.mem_append, not_or] at hnot
      refine ⟨added ++ [dep], by simp [hp, hadded], ?_, fun d hd ↦ ?_⟩
      · rw [List.map_append, List.nodup_append]
        refine ⟨hnodup, List.nodup_singleton _, fun a ha c hc hac ↦ hnot.2 ?_⟩
        rw [List.mem_singleton.1 hc] at hac
        rwa [hac] at ha
      · rcases List.mem_append.1 hd with hd | hd
        · exact hfresh d hd
        · rw [List.mem_singleton.1 hd]
          exact ⟨hid ▸ hne, hnot.1, hscope⟩
  · rw [hdeps]
    split_ifs with hmem
    · exact hinv.nodup
    · exact List.Nodup.append hinv.nodup (List.nodup_singleton _) (List.disjoint_singleton.2 hmem)
  · rw [hdeps]
    intro d hd
    split_ifs at hd with hmem
    · exact hinv.notSelf d hd
    · rcases List.mem_append.1 hd with hd | hd
      · exact hinv.notSelf d hd
      · rw [List.mem_singleton.1 hd, b.target_of_checkAndCreateDep hcheck, ← hid]
        exact not_self_of_isCircular hcirc

/-- **What a successful `build` leaves**: the task with the resolved dependencies, and the two
`Resolved` says of the project and of them. -/
theorem build_spec {project project' : Project} {task task' : Task}
    (h : b.build project task = .ok (project', task')) :
    task' = { task with deps := task'.deps } ∧ Resolved project task (project', task'.deps) := by
  simp only [build, Outcome.bind_eq_ok] at h
  obtain ⟨⟨project₁, deps⟩, hloop, h⟩ := h
  cases h
  refine ⟨rfl, Outcome.foldlM_inv (Resolved project task) (fun acc depConfig acc' hinv hdep ↦ ?_)
    task.deps (Resolved.init project task) hloop⟩
  obtain ⟨results, link, hmatches⟩ := b.resolveDep_eq_ok hdep
  exact Outcome.foldlM_inv (Resolved project task) (fun _ _ _ hinv' hmatch ↦
    hinv'.resolveMatch b hmatch) results hinv hmatches

end TaskDepsBuilder

/-! ## The order of the dependencies matters

A project `p` with no dependencies, and a project `q`, tagged `pkg`, with the tasks `lint` and
`build`.  A task of `p` that depends on `#pkg:lint` links `q` to `p`, and from then on `^:build`
ranges over `q`. -/

def qLint : Target := ⟨"q:lint", .id, .id, 1⟩

def qBuild : Target := ⟨"q:build", .id, .id, 1⟩

/-- The workspace of the example: `q` is the one project tagged `pkg`. -/
def pkgQuerent : TasksQuerent where
  queryProjectsByTag tag := .ok (if tag = "pkg" then ["q"] else [])
  queryTasks ids scope :=
    .ok ((if "q" ∈ ids ∧ scope = (.id, "lint") then [(qLint, {})] else []) ++
      (if "q" ∈ ids ∧ scope = (.id, "build") then [(qBuild, {})] else []))
  queryTaskHasOutputs _ := false

def pkgTaskDepsBuilder : TaskDepsBuilder := ⟨pkgQuerent, none⟩

def tagLintDep : TaskDependencyConfig := { target := ⟨"#pkg:lint", .tag, .id, 4⟩ }

def depsBuildDep : TaskDependencyConfig := { target := ⟨"^:build", .deps, .id, 1⟩ }

def pProject : Project := { id := "p" }

def pTestTask : Task := { id := "test", target := ⟨"p:test", .id, .id, 1⟩ }

/-- A sibling task of `p:test` that depends on `#pkg:lint`. -/
def pPrepTask : Task :=
  { id := "prep", target := ⟨"p:prep", .id, .id, 1⟩, deps := [tagLintDep] }

/-- `p:test` with `deps: ['#pkg:lint', '^:build']` resolves to `q:lint` and `q:build`, with the two
swapped only to `q:lint`; and `^:build` alone resolves to `q:build` once `p:prep` has been
resolved against the same project, and to nothing before. -/
theorem deps_order_changes_resolved_targets :
    (∃ r r', pkgTaskDepsBuilder.build pProject { pTestTask with deps := [tagLintDep, depsBuildDep] } =
        .ok r ∧
      pkgTaskDepsBuilder.build pProject { pTestTask with deps := [depsBuildDep, tagLintDep] } =
        .ok r' ∧
      r.2.deps.map (·.target.id) = ["q:lint", "q:build"] ∧
      r'.2.deps.map (·.target.id) = ["q:lint"]) ∧
    (∃ r r' r'', pkgTaskDepsBuilder.build pProject pPrepTask = .ok r ∧
      pkgTaskDepsBuilder.build r.1 { pTestTask with deps := [depsBuildDep] } = .ok r' ∧
      pkgTaskDepsBuilder.build pProject { pTestTask with deps := [depsBuildDep] } = .ok r'' ∧
      r'.2.deps.map (·.target.id) = ["q:build"] ∧ r''.2.deps = []) :=
  ⟨⟨_, _, rfl, rfl, rfl, rfl⟩, ⟨_, _, _, rfl, rfl, rfl, rfl, rfl⟩⟩

end Moon
