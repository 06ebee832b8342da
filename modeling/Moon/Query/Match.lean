import Moon.Query.Builder

/-!
# Matching projects and tasks against criteria

`WorkspaceGraph::does_project_match_criteria` and `does_task_match_criteria`
(`crates/workspace-graph/src/query_projects.rs`, `query_tasks.rs`) decide whether one project, or
one task, satisfies a `Criteria`.  Both walk the conditions of the group the same way: under `&&`
the first condition that fails ends the walk with `false`, under `||` the first that holds ends it
with `true`, and a group in which nothing held is `false` — so an empty group is `false` under
either operator.  That walk is `matchesCriteria`, written once and given the evaluation of a single
field as a parameter; the project and the task matcher differ only in that parameter,
`projectFieldMatches` and `taskFieldMatches`.

The field evaluations are where the interesting differences are.

* A field with one value per project — `language`, `projectLayer`, `projectStack`, `projectId`,
  `projectSource` — compares that value directly.
* `projectTag` and `projectAlias` compare each of the project's tags (aliases) with
  `matches_list`, so the comparison holds when it holds for *some* tag.
* `project` compares the id, and then, if that fails and the project has aliases, each alias.
* `task`, `taskTag`, `taskToolchain` and `taskType` on a project ask whether *some* task of the
  project matches, through `Iterator::any`.  `task` reads each task id off the project's targets,
  and a target without one counts as a miss; the other three look the tasks up in the task graph
  first, and a lookup failure is an error of the whole evaluation.

Errors are of two kinds here: a glob that does not build (`MatchError.glob`) and a failed lookup in
the graph (`MatchError.graph`).  Some paths swallow them with `unwrap_or_default`, which the model
keeps.  Panics can only come from the target accessors of `Moon.Target.Target`.

The graph itself is `Moon.Query.WorkspaceGraph`: the two lookups the matchers make, by project id
and by target.
-/

set_option autoImplicit false

namespace Moon.Query

/-- The errors `does_project_match_criteria` and `does_task_match_criteria` can return. -/
inductive MatchError where
  /-- `GlobSet::new` rejected a pattern. -/
  | glob (message : String)
  /-- A project or task lookup in the workspace graph failed. -/
  | graph (message : String)
  /-- A target has no project or task id; every path that asks swallows it. -/
  | target (e : TargetError)
  deriving DecidableEq, Repr

/-- The two lookups the matchers make in the workspace graph: `projects.get_unexpanded(id)` and
the per-target lookup that `tasks.get_many(targets)` repeats. -/
structure WorkspaceGraph where
  getProjectUnexpanded : String → Except String Project
  getTask : Target → Except String Task

/-- `TaskGraph::get_many`: every target looked up in turn; the first failure is the result. -/
def WorkspaceGraph.getMany (g : WorkspaceGraph) (targets : List Target) :
    Except String (List Task) :=
  targets.mapM g.getTask

/-- A needle comparison, as an outcome of the matcher. -/
def liftGlob (r : Except String Bool) : Outcome MatchError Bool :=
  Outcome.ofExcept (r.mapError .glob)

/-- A graph lookup, as an outcome of the matcher. -/
def liftGraph {α : Type} (r : Except String α) : Outcome MatchError α :=
  Outcome.ofExcept (r.mapError .graph)

/-! ## The walk over a group -/

section Walk

variable {ε : Type} (fieldMatches : Condition → Field → Outcome ε Bool)

mutual

/-- The loop of `does_*_match_criteria`: `matchAll` is `&&`, `matchedAny` whether some condition
has held so far. -/
def matchesConditions (matchAll : Bool) : List Condition → Bool → Outcome ε Bool
  | [], matchedAny => pure matchedAny
  | c :: cs, matchedAny => do
    let matched ← matchesCondition c
    if matched then
      if matchAll then matchesConditions matchAll cs true else pure true
    else if matchAll then pure false
    else matchesConditions matchAll cs matchedAny

/-- One condition: a field comparison, or a nested group. -/
def matchesCondition : Condition → Outcome ε Bool
  | .field field op => fieldMatches (.field field op) field
  | .criteria criteria => matchesCriteria criteria

/-- `does_*_match_criteria`, for a given evaluation of a single field. -/
def matchesCriteria : Criteria → Outcome ε Bool
  | .mk op conditions => matchesConditions (op = .and) conditions false

end

/-! ### The walk in closed form

Under `&&` the walk is `List.allM` over the conditions, except that an empty group is `false`;
under `||` it is `List.anyM`.  A group of one condition is therefore that condition, under either
operator, which is all a one-comparison query needs. -/

/-- Under `&&`, the walk is `allM`; an empty rest returns what has been seen so far. -/
theorem matchesConditions_and (cs : List Condition) (matchedAny : Bool) :
    matchesConditions fieldMatches true cs matchedAny
      = if cs = [] then pure matchedAny else cs.allM (matchesCondition fieldMatches) := by
  induction cs generalizing matchedAny with
  | nil => rfl
  | cons c cs ih =>
    rw [matchesConditions, List.allM_cons, if_neg (List.cons_ne_nil c cs)]
    apply bind_congr
    intro matched
    cases matched with
    | false => rfl
    | true =>
      rw [if_pos rfl, if_pos rfl, ih]
      by_cases hcs : cs = []
      · subst hcs; rfl
      · rw [if_neg hcs, if_pos rfl]

/-- Under `||`, the walk is `anyM`. -/
theorem matchesConditions_or (cs : List Condition) :
    matchesConditions fieldMatches false cs false = cs.anyM (matchesCondition fieldMatches) := by
  induction cs with
  | nil => rfl
  | cons c cs ih =>
    rw [matchesConditions, List.anyM_cons]
    apply bind_congr
    intro matched
    cases matched with
    | false => exact ih
    | true => rfl

theorem matchesCriteria_and (cs : List Condition) :
    matchesCriteria fieldMatches (.mk .and cs)
      = if cs = [] then pure false else cs.allM (matchesCondition fieldMatches) := by
  rw [matchesCriteria]
  exact matchesConditions_and fieldMatches cs false

theorem matchesCriteria_or (cs : List Condition) :
    matchesCriteria fieldMatches (.mk .or cs) = cs.anyM (matchesCondition fieldMatches) := by
  rw [matchesCriteria]
  exact matchesConditions_or fieldMatches cs

/-- A group of one condition is that condition, whatever its operator. -/
theorem matchesCriteria_single (op : LogicalOperator) (c : Condition) :
    matchesCriteria fieldMatches (.mk op [c]) = matchesCondition fieldMatches c := by
  have hid : ∀ x : Outcome ε Bool, (x >>= fun b ↦ if b then pure true else pure false) = x := by
    intro x
    cases x with
    | ok b => cases b <;> rfl
    | err e => rfl
    | panic => rfl
  cases op with
  | and =>
    rw [matchesCriteria_and, if_neg (List.cons_ne_nil c []), List.allM_cons]
    exact hid _
  | or =>
    rw [matchesCriteria_or, List.anyM_cons]
    exact hid _

end Walk

/-! ## Fields of a project -/

/-- `Id::stable`: drop an `unstable_` prefix. -/
def stableId (id : String) : String :=
  match id.toList with
  | 'u' :: 'n' :: 's' :: 't' :: 'a' :: 'b' :: 'l' :: 'e' :: '_' :: rest => String.ofList rest
  | _ => id

/-- `Id::unstable`: add an `unstable_` prefix unless there is one. -/
def unstableId (id : String) : String :=
  match id.toList with
  | 'u' :: 'n' :: 's' :: 't' :: 'a' :: 'b' :: 'l' :: 'e' :: '_' :: _ => id
  | _ => "unstable_" ++ id

/-- The toolchain ids `does_project_match_criteria` compares for a task: the stable and the
unstable form of each. -/
def toolchainIds (task : Task) : List String :=
  task.toolchains.flatMap fun id ↦ [stableId id, unstableId id]

/-- The field arm of `does_project_match_criteria`. -/
def projectFieldMatches (G : GlobApi) (g : WorkspaceGraph) (project : Project)
    (condition : Condition) : Field → Outcome MatchError Bool
  | .language langs => pure (condition.matchesEnum langs project.language)
  | .project ids => do
    if ← liftGlob (condition.matchesNeedle G ids project.id) then pure true
    else if !project.aliases.isEmpty then
      liftGlob (condition.matchesList G ids (project.aliases.map ProjectAlias.name))
    else pure false
  | .projectAlias aliases =>
    if !project.aliases.isEmpty then
      liftGlob (condition.matchesList G aliases (project.aliases.map ProjectAlias.name))
    else pure false
  | .projectLayer types => pure (condition.matchesEnum types project.layer)
  | .projectId ids => liftGlob (condition.matchesNeedle G ids project.id)
  | .projectSource sources => liftGlob (condition.matchesNeedle G sources project.source)
  | .projectStack types => pure (condition.matchesEnum types project.stack)
  | .projectTag tags => liftGlob (condition.matchesList G tags project.config.tags)
  | .task ids => project.taskTargets.anyM fun target ↦ Outcome.unwrapOrDefault do
      let taskId ← target.getTaskId.mapErr .target
      liftGlob (condition.matchesNeedle G ids taskId)
  | .taskTag tags => do
    let tasks ← liftGraph (g.getMany project.taskTargets)
    pure (tasks.any fun task ↦ (condition.matchesList G tags task.tags).unwrapOrDefault)
  | .taskToolchain ids => do
    let tasks ← liftGraph (g.getMany project.taskTargets)
    pure (tasks.any fun task ↦ (condition.matchesList G ids (toolchainIds task)).unwrapOrDefault)
  | .taskType types => do
    let tasks ← liftGraph (g.getMany project.taskTargets)
    pure (tasks.any fun task ↦ condition.matchesEnum types task.typeOf)

/-- `WorkspaceGraph::does_project_match_criteria`. -/
def doesProjectMatchCriteria (G : GlobApi) (g : WorkspaceGraph) (project : Project)
    (query : Criteria) : Outcome MatchError Bool :=
  matchesCriteria (projectFieldMatches G g project) query

/-! ### Field by field

With `=` or `!=`, every string field of a project is an existential over the values the project
holds for it: the comparison holds when *some* value is (for `=`) or is not (for `!=`) among the
values the query lists.  The lemmas below say so field by field; `projectId` and `projectSource`
hold one value, `projectTag` and `projectAlias` a list, and `project` the id followed by the
aliases. -/

@[simp] theorem liftGlob_ok (b : Bool) : liftGlob (.ok b) = .ok b := rfl

/-- A needle comparison and its negation, lifted. -/
theorem liftGlob_not (r : Except String Bool) : liftGlob ((!·) <$> r) = (!·) <$> liftGlob r := by
  cases r <;> rfl

section EqOrNe

variable (G : GlobApi) (g : WorkspaceGraph) (project : Project) {op : ComparisonOperator}
  (hop : op = .equal ∨ op = .notEqual)
include hop

theorem projectFieldMatches_projectId (ids : List String) :
    projectFieldMatches G g project (.field (.projectId ids) op) (.projectId ids)
      = .ok (decide (∃ x ∈ [project.id], (x ∈ ids ↔ op = .equal))) := by
  unfold projectFieldMatches
  dsimp only
  rw [Condition.matchesNeedle_of_eq_or_ne G _ hop, liftGlob_ok]
  simp

theorem projectFieldMatches_projectSource (sources : List String) :
    projectFieldMatches G g project (.field (.projectSource sources) op) (.projectSource sources)
      = .ok (decide (∃ x ∈ [project.source], (x ∈ sources ↔ op = .equal))) := by
  unfold projectFieldMatches
  dsimp only
  rw [Condition.matchesNeedle_of_eq_or_ne G _ hop, liftGlob_ok]
  simp

theorem projectFieldMatches_projectTag (tags : List String) :
    projectFieldMatches G g project (.field (.projectTag tags) op) (.projectTag tags)
      = .ok (decide (∃ x ∈ project.config.tags, (x ∈ tags ↔ op = .equal))) := by
  unfold projectFieldMatches
  dsimp only
  rw [Condition.matchesList_of_eq_or_ne G _ hop, liftGlob_ok]

theorem projectFieldMatches_projectAlias (aliases : List String) :
    projectFieldMatches G g project (.field (.projectAlias aliases) op) (.projectAlias aliases)
      = .ok (decide (∃ x ∈ project.aliases.map ProjectAlias.name, (x ∈ aliases ↔ op = .equal))) := by
  unfold projectFieldMatches
  dsimp only
  cases hnil : project.aliases with
  | nil => rfl
  | cons a rest =>
    rw [← hnil, if_pos (by simp [hnil]), Condition.matchesList_of_eq_or_ne G _ hop, liftGlob_ok]

/-- `project` compares the id first and the aliases after it, so it is the existential over both. -/
theorem projectFieldMatches_project (ids : List String) :
    projectFieldMatches G g project (.field (.project ids) op) (.project ids)
      = .ok (decide (∃ x ∈ project.id :: project.aliases.map ProjectAlias.name,
          (x ∈ ids ↔ op = .equal))) := by
  unfold projectFieldMatches
  dsimp only
  rw [Condition.matchesNeedle_of_eq_or_ne G _ hop, liftGlob_ok, Outcome.ok_bind]
  by_cases hid : project.id ∈ ids ↔ op = .equal
  · rw [if_pos (by simpa using hid)]
    simp [hid]
  · rw [if_neg (by simpa using hid)]
    cases hnil : project.aliases with
    | nil => simp [hid]
    | cons a rest =>
      rw [← hnil, if_pos (by simp [hnil]), Condition.matchesList_of_eq_or_ne G _ hop, liftGlob_ok]
      simp [hid]

end EqOrNe

/-- A one-comparison group matches a project as its field does. -/
theorem doesProjectMatchCriteria_single (G : GlobApi) (g : WorkspaceGraph) (project : Project)
    (op : LogicalOperator) (field : Field) (cmp : ComparisonOperator) :
    doesProjectMatchCriteria G g project (.mk op [.field field cmp])
      = projectFieldMatches G g project (.field field cmp) field := by
  rw [doesProjectMatchCriteria, matchesCriteria_single, matchesCondition]

/-! ## Fields of a task -/

/-- `WorkspaceGraph::get_task_parent_project`: the unexpanded project of a task's target, when the
target names one. -/
def getTaskParentProject (g : WorkspaceGraph) (task : Task) :
    Outcome MatchError (Option Project) :=
  match task.target.getProjectId with
  | .ok projectId => some <$> liftGraph (g.getProjectUnexpanded projectId)
  | .err _ => pure none
  | .panic => .panic

/-- The field arm of `does_task_match_criteria`; the fields of a project other than `project`
never match a task. -/
def taskFieldMatches (G : GlobApi) (g : WorkspaceGraph) (task : Task) (condition : Condition) :
    Field → Outcome MatchError Bool
  | .project ids =>
    match task.target.getProjectId with
    | .ok projectId => do
      if ← liftGlob (condition.matchesNeedle G ids projectId) then pure true
      else
        match ← getTaskParentProject g task with
        | some project =>
          if !project.aliases.isEmpty then
            liftGlob (condition.matchesList G ids (project.aliases.map ProjectAlias.name))
          else pure false
        | none => pure false
    | .err _ => pure false
    | .panic => .panic
  | .task ids => liftGlob (condition.matchesNeedle G ids task.id)
  | .taskTag tags => liftGlob (condition.matchesList G tags task.tags)
  | .taskToolchain ids => liftGlob (condition.matchesList G ids task.toolchains)
  | .taskType types => pure (condition.matchesEnum types task.typeOf)
  | _ => pure false

/-- `WorkspaceGraph::does_task_match_criteria`. -/
def doesTaskMatchCriteria (G : GlobApi) (g : WorkspaceGraph) (task : Task) (query : Criteria) :
    Outcome MatchError Bool :=
  matchesCriteria (taskFieldMatches G g task) query

/-- A one-comparison group matches a task as its field does. -/
theorem doesTaskMatchCriteria_single (G : GlobApi) (g : WorkspaceGraph) (task : Task)
    (op : LogicalOperator) (field : Field) (cmp : ComparisonOperator) :
    doesTaskMatchCriteria G g task (.mk op [.field field cmp])
      = taskFieldMatches G g task (.field field cmp) field := by
  rw [doesTaskMatchCriteria, matchesCriteria_single, matchesCondition]

section TaskEqOrNe

variable (G : GlobApi) (g : WorkspaceGraph) (task : Task) {op : ComparisonOperator}
  (hop : op = .equal ∨ op = .notEqual)
include hop

theorem taskFieldMatches_task (ids : List String) :
    taskFieldMatches G g task (.field (.task ids) op) (.task ids)
      = .ok (decide (∃ x ∈ [task.id], (x ∈ ids ↔ op = .equal))) := by
  unfold taskFieldMatches
  dsimp only
  rw [Condition.matchesNeedle_of_eq_or_ne G _ hop, liftGlob_ok]
  simp

theorem taskFieldMatches_taskTag (tags : List String) :
    taskFieldMatches G g task (.field (.taskTag tags) op) (.taskTag tags)
      = .ok (decide (∃ x ∈ task.tags, (x ∈ tags ↔ op = .equal))) := by
  unfold taskFieldMatches
  dsimp only
  rw [Condition.matchesList_of_eq_or_ne G _ hop, liftGlob_ok]

/-- Unlike the project arm, the task arm compares the toolchain ids as they are, without their
stable and unstable forms. -/
theorem taskFieldMatches_taskToolchain (ids : List String) :
    taskFieldMatches G g task (.field (.taskToolchain ids) op) (.taskToolchain ids)
      = .ok (decide (∃ x ∈ task.toolchains, (x ∈ ids ↔ op = .equal))) := by
  unfold taskFieldMatches
  dsimp only
  rw [Condition.matchesList_of_eq_or_ne G _ hop, liftGlob_ok]

end TaskEqOrNe

end Moon.Query
