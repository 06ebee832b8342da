import Moon.Affected.TaskTracker
import Moon.AsyncUtils.RunPooledTasks

/-!
# The affected tracker

`AffectedTracker` (`crates/affected/src/affected_tracker.rs`) holds the changed files, the CI
switch, the relation scopes, and the two maps it fills.  Projects and tasks are tracked in one of
two ways:

* sequentially, `track_projects` and `track_tasks_by_instance`: a loop over the items in which each
  item is checked against the maps filled so far — an item that already has an own mark is
  `AlreadyMarked`, and only its relations are walked again;
* in parallel, `track_projects_async` and `track_tasks_by_instance_async`: every item gets a fresh
  per-item tracker (`TaskTracker`, `ProjectTracker`) run by `run_pooled_tasks`, and each tracker's
  maps are unioned into the tracker's, in input order, as `on_output`.

Both loops read the tracker's settings, which they never change; the loop bodies here read them
from the tracker they are given.  The project list is the one `WorkspaceGraph::get_projects`
returns, `AffectedGraph.getProjects`; the order in which the futures complete is the parameter
`completion` of `runPooledTasks`.

The loop bodies are `memoStep`s over the maps (`trackTask_eq`, `trackProject_eq`), so the whole
sequential loop is a lifted loop of them (`trackTasksByInstance_eq`, `forM_trackProject_eq`); what the
parallel path does is a loop joining every item's own output (`Moon.Affected.Equivalence`).
-/

set_option autoImplicit false

namespace Moon

/-- `AffectedTracker`, with the defaults of `AffectedTracker::new`. -/
structure AffectedTracker where
  ci : Bool := false
  changedFiles : List String
  projects : Finset (String × AffectedBy) := ∅
  projectDownstream : DownstreamScope := .none
  projectUpstream : UpstreamScope := .deep
  tasks : Finset (Target × AffectedBy) := ∅
  taskDownstream : DownstreamScope := .none
  taskUpstream : UpstreamScope := .deep

namespace AffectedTracker

variable (G : AffectedGraph) (E : AffectedEnv)

/-- `AffectedTracker::new`. -/
def new (changedFiles : List String) : AffectedTracker := { changedFiles }

/-- `AffectedTracker::set_ci_check`. -/
def setCiCheck (ci : Bool) (tracker : AffectedTracker) : AffectedTracker := { tracker with ci }

/-- `AffectedTracker::set_project_scopes`. -/
def setProjectScopes (upstreamScope : UpstreamScope) (downstreamScope : DownstreamScope)
    (tracker : AffectedTracker) : AffectedTracker :=
  { tracker with projectUpstream := upstreamScope, projectDownstream := downstreamScope }

/-- `AffectedTracker::set_task_scopes`. -/
def setTaskScopes (upstreamScope : UpstreamScope) (downstreamScope : DownstreamScope)
    (tracker : AffectedTracker) : AffectedTracker :=
  { tracker with taskUpstream := upstreamScope, taskDownstream := downstreamScope }

/-- `AffectedTracker::set_scopes`. -/
def setScopes (upstreamScope : UpstreamScope) (downstreamScope : DownstreamScope)
    (tracker : AffectedTracker) : AffectedTracker :=
  (tracker.setProjectScopes upstreamScope downstreamScope).setTaskScopes upstreamScope
    downstreamScope

/-- The two maps of the tracker. -/
def marks (tracker : AffectedTracker) : Marks := (tracker.tasks, tracker.projects)

/-- The tracker with its two maps replaced. -/
def withMarks (tracker : AffectedTracker) (m : Marks) : AffectedTracker :=
  { tracker with tasks := m.1, projects := m.2 }

/-- The tracker with its project map replaced. -/
def withProjects (tracker : AffectedTracker) (projects : ProjectMarks) : AffectedTracker :=
  { tracker with projects }

/-! ## Projects -/

/-- `AffectedTracker::is_project_marked`: the project has a mark, of its own or through a
relation. -/
def isProjectMarked (tracker : AffectedTracker) (project : Project) : Prop :=
  ∃ x ∈ tracker.projects, x.1 = project.id

instance (tracker : AffectedTracker) (project : Project) :
    Decidable (tracker.isProjectMarked project) := by
  unfold isProjectMarked
  infer_instance

/-- `AffectedTracker::is_project_marked_ignoring_relations`. -/
def isProjectMarkedIgnoringRelations (tracker : AffectedTracker) (project : Project) : Prop :=
  projectMarkedIn tracker.projects project

instance (tracker : AffectedTracker) (project : Project) :
    Decidable (tracker.isProjectMarkedIgnoringRelations project) := by
  unfold isProjectMarkedIgnoringRelations
  infer_instance

/-- `AffectedTracker::is_project_affected`: `AlreadyMarked` for a project with an own mark,
else its own check. -/
def isProjectAffected (tracker : AffectedTracker) (project : Project) : Option AffectedBy :=
  if tracker.isProjectMarkedIgnoringRelations project then some .alreadyMarked
  else checkProjectAffected E tracker.changedFiles project

/-- `AffectedTracker::mark_project_affected`: the shared marking, over the project map. -/
def markProjectAffected (project : Project) (affected : AffectedBy) :
    EStateM String AffectedTracker Unit := fun tracker ↦
  (Moon.markProjectAffected G tracker.projectUpstream tracker.projectDownstream project affected
    tracker.projects).mapState tracker.withProjects

/-- The body of the loop of `track_projects`. -/
def trackProject (project : Project) : EStateM String AffectedTracker Unit := fun tracker ↦
  match tracker.isProjectAffected E project with
  | some affected => markProjectAffected G project affected tracker
  | none => .ok () tracker

/-- `AffectedTracker::track_projects`. -/
def trackProjects : EStateM String AffectedTracker Unit := fun tracker ↦
  match G.getProjects with
  | .error e => .error e tracker
  | .ok projects => forM projects (trackProject G E) tracker

/-- The fresh tracker `track_projects_async` builds for a project. -/
def projectTrackerFor (tracker : AffectedTracker) (project : Project) : ProjectTracker :=
  { changedFiles := tracker.changedFiles, downstream := tracker.projectDownstream, project,
    tracked := ∅, upstream := tracker.projectUpstream }

/-- The `on_output` of `track_projects_async`: extend the tracker's sets with the project
tracker's. -/
def mergeProjectTracker (projectTracker : ProjectTracker) : EStateM String AffectedTracker Unit :=
  fun tracker ↦ .ok () (tracker.withProjects (tracker.projects ∪ projectTracker.tracked))

/-- `AffectedTracker::track_projects_async`, with the futures completing in the order
`completion`. -/
def trackProjectsAsync (completion : List ℕ) : EStateM String AffectedTracker Unit :=
  fun tracker ↦
    match G.getProjects with
    | .error e => .error e tracker
    | .ok projects =>
      runPooledTasks mergeProjectTracker
        (projects.map fun project ↦ (tracker.projectTrackerFor project).track G E) completion
        (fun _ ↦ none) 0 tracker

theorem trackProjects_of_getProjects {projects : List Project}
    (h : G.getProjects = .ok projects) : trackProjects G E = forM projects (trackProject G E) := by
  funext tracker
  unfold trackProjects
  rw [h]

theorem trackProjectsAsync_of_getProjects {projects : List Project}
    (h : G.getProjects = .ok projects) (completion : List ℕ) (tracker : AffectedTracker) :
    trackProjectsAsync G E completion tracker
      = runPooledTasks mergeProjectTracker
          (projects.map fun project ↦ (tracker.projectTrackerFor project).track G E) completion
          (fun _ ↦ none) 0 tracker := by
  unfold trackProjectsAsync
  rw [h]

/-! ## Tasks -/

/-- `AffectedTracker::is_task_marked`: the task has a mark, of its own or through a relation. -/
def isTaskMarked (tracker : AffectedTracker) (task : Task) : Prop :=
  ∃ x ∈ tracker.tasks, x.1 = task.target

instance (tracker : AffectedTracker) (task : Task) : Decidable (tracker.isTaskMarked task) := by
  unfold isTaskMarked
  infer_instance

/-- `AffectedTracker::is_task_marked_ignoring_relations`. -/
def isTaskMarkedIgnoringRelations (tracker : AffectedTracker) (task : Task) : Prop :=
  taskMarkedIn tracker.tasks task

instance (tracker : AffectedTracker) (task : Task) :
    Decidable (tracker.isTaskMarkedIgnoringRelations task) := by
  unfold isTaskMarkedIgnoringRelations
  infer_instance

/-- `AffectedTracker::is_task_affected`: `AlreadyMarked` for a task with an own mark, else its
own check. -/
def isTaskAffected (tracker : AffectedTracker) (task : Task) : Except String (Option AffectedBy) :=
  if tracker.isTaskMarkedIgnoringRelations task then .ok (some .alreadyMarked)
  else checkTaskAffected E tracker.ci tracker.changedFiles task

/-- `AffectedTracker::mark_task_affected`: the shared marking, over the two maps. -/
def markTaskAffected (task : Task) (affected : AffectedBy) : EStateM String AffectedTracker Unit :=
  fun tracker ↦
    (Moon.markTaskAffected G tracker.taskUpstream tracker.taskDownstream task affected
      tracker.marks).mapState tracker.withMarks

/-- The body of the loop of `track_tasks_by_instance`. -/
def trackTask (task : Task) : EStateM String AffectedTracker Unit := fun tracker ↦
  match tracker.isTaskAffected E task with
  | .error e => .error e tracker
  | .ok (some affected) => markTaskAffected G task affected tracker
  | .ok none => .ok () tracker

/-- `AffectedTracker::track_tasks_by_instance`. -/
def trackTasksByInstance (tasks : List Task) : EStateM String AffectedTracker Unit :=
  forM tasks (trackTask G E)

/-- The fresh tracker `track_tasks_by_instance_async` builds for a task. -/
def taskTrackerFor (tracker : AffectedTracker) (task : Task) : TaskTracker :=
  { changedFiles := tracker.changedFiles, ci := tracker.ci, downstream := tracker.taskDownstream,
    task, tracked := ∅, trackedProjects := ∅, upstream := tracker.taskUpstream }

/-- The `on_output` of `track_tasks_by_instance_async`: extend the tracker's sets with the task
tracker's. -/
def mergeTaskTracker (taskTracker : TaskTracker) : EStateM String AffectedTracker Unit :=
  fun tracker ↦ .ok () (tracker.withMarks (tracker.marks ⊔ taskTracker.marks))

/-- `AffectedTracker::track_tasks_by_instance_async`, with the futures completing in the order
`completion`. -/
def trackTasksByInstanceAsync (tasks : List Task) (completion : List ℕ) :
    EStateM String AffectedTracker Unit := fun tracker ↦
  runPooledTasks mergeTaskTracker
    (tasks.map fun task ↦ (tracker.taskTrackerFor task).track G E) completion (fun _ ↦ none) 0
    tracker

/-! ## The loops over the maps -/

/-- The sequential loop body for a task, over the maps: a `memoStep` whose own work is
`trackTaskMarks` and whose part redone is the marking as `AlreadyMarked`. -/
def taskMemoStep (tracker : AffectedTracker) : Task → EStateM String Marks Unit :=
  EStateM.memoStep (fun task m ↦ taskMarkedIn m.1 task)
    (trackTaskMarks G E tracker.ci tracker.changedFiles tracker.taskUpstream
      tracker.taskDownstream)
    (fun task ↦ Moon.markTaskAffected G tracker.taskUpstream tracker.taskDownstream task
      .alreadyMarked)

/-- The sequential loop body for a project, over the project map. -/
def projectMemoStep (tracker : AffectedTracker) : Project → EStateM String ProjectMarks Unit :=
  EStateM.memoStep (fun project m ↦ projectMarkedIn m project)
    (trackProjectMarks G E tracker.changedFiles tracker.projectUpstream tracker.projectDownstream)
    (fun project ↦ Moon.markProjectAffected G tracker.projectUpstream tracker.projectDownstream
      project .alreadyMarked)

theorem trackTask_eq (task : Task) (tracker : AffectedTracker) :
    trackTask G E task tracker
      = (taskMemoStep G E tracker task tracker.marks).mapState tracker.withMarks := by
  unfold trackTask isTaskAffected taskMemoStep EStateM.memoStep isTaskMarkedIgnoringRelations
  have hmarks : tracker.marks.1 = tracker.tasks := rfl
  by_cases hm : taskMarkedIn tracker.tasks task
  · simp only [hmarks, hm, ↓reduceIte]
    rfl
  · simp only [hmarks, hm, ↓reduceIte]
    unfold trackTaskMarks
    cases checkTaskAffected E tracker.ci tracker.changedFiles task with
    | error e => rfl
    | ok affected =>
      cases affected with
      | none => rfl
      | some affected => rfl

theorem trackProject_eq (project : Project) (tracker : AffectedTracker) :
    trackProject G E project tracker
      = (projectMemoStep G E tracker project tracker.projects).mapState tracker.withProjects := by
  unfold trackProject isProjectAffected projectMemoStep EStateM.memoStep
    isProjectMarkedIgnoringRelations
  by_cases hm : projectMarkedIn tracker.projects project
  · simp only [hm, ↓reduceIte]
    rfl
  · simp only [hm, ↓reduceIte]
    unfold trackProjectMarks
    cases checkProjectAffected E tracker.changedFiles project with
    | none => rfl
    | some affected => rfl

/-- **The sequential task loop is a loop of `memoStep`s** over the maps. -/
theorem trackTasksByInstance_eq (tasks : List Task) (tracker : AffectedTracker) :
    trackTasksByInstance G E tasks tracker
      = (forM tasks (taskMemoStep G E tracker) tracker.marks).mapState tracker.withMarks :=
  EStateM.forM_lift marks withMarks (fun t ↦ ∃ m, t = tracker.withMarks m)
    (fun _ _ ↦ rfl) (fun _ _ _ ↦ rfl) (fun _ ↦ rfl)
    (fun _ s _ ↦ ⟨s, by obtain ⟨m, rfl⟩ := ‹∃ m, _›; rfl⟩)
    tasks (fun task _ t ht ↦ by
      obtain ⟨m, rfl⟩ := ht
      exact trackTask_eq G E task _)
    tracker ⟨tracker.marks, rfl⟩

/-- **The sequential project loop is a loop of `memoStep`s** over the project map. -/
theorem forM_trackProject_eq (projects : List Project) (tracker : AffectedTracker) :
    forM projects (trackProject G E) tracker
      = (forM projects (projectMemoStep G E tracker) tracker.projects).mapState
          tracker.withProjects :=
  EStateM.forM_lift AffectedTracker.projects withProjects
    (fun t ↦ ∃ m, t = tracker.withProjects m)
    (fun _ _ ↦ rfl) (fun _ _ _ ↦ rfl) (fun _ ↦ rfl)
    (fun _ s _ ↦ ⟨s, by obtain ⟨m, rfl⟩ := ‹∃ m, _›; rfl⟩)
    projects (fun project _ t ht ↦ by
      obtain ⟨m, rfl⟩ := ht
      exact trackProject_eq G E project _)
    tracker ⟨tracker.projects, rfl⟩

end AffectedTracker

end Moon
