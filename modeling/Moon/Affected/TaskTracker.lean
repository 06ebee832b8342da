import Moon.Affected.Mark

/-!
# The per-item trackers of the parallel path

`track_tasks_by_instance_async` and `track_projects_async` give every task or project a tracker
of its own — `TaskTracker` (`crates/affected/src/task_tracker.rs`) and `ProjectTracker`
(`project_tracker.rs`) — which starts from empty maps, checks its item and marks it and its
relations, and is handed back whole once it is done.  Neither looks at what another tracker
marked, so neither has an `AlreadyMarked` case.

`TaskTracker::track` takes the tracker by value and returns it, or the first error; here it is a
function from the tracker to `Except String TaskTracker`.  What it does to the maps is
`trackTaskMarks` (`track_eq`), and the same holds of `ProjectTracker::track` and
`trackProjectMarks`.
-/

set_option autoImplicit false

namespace Moon

/-- `TaskTracker`: one task, tracked from empty maps. -/
structure TaskTracker where
  changedFiles : List String
  ci : Bool
  downstream : DownstreamScope
  task : Task
  tracked : Finset (Target × AffectedBy)
  trackedProjects : Finset (String × AffectedBy)
  upstream : UpstreamScope

namespace TaskTracker

variable (G : AffectedGraph) (E : AffectedEnv)

/-- The two maps of the tracker. -/
def marks (tracker : TaskTracker) : Marks := (tracker.tracked, tracker.trackedProjects)

/-- The tracker with its two maps replaced. -/
def withMarks (tracker : TaskTracker) (m : Marks) : TaskTracker :=
  { tracker with tracked := m.1, trackedProjects := m.2 }

/-- `TaskTracker::is_task_affected`: the check by itself; a fresh tracker has no marks to test. -/
def isTaskAffected (tracker : TaskTracker) (task : Task) : Except String (Option AffectedBy) :=
  checkTaskAffected E tracker.ci tracker.changedFiles task

/-- `TaskTracker::mark_task_affected`: the shared marking, over the tracker's two maps. -/
def markTaskAffected (task : Task) (affected : AffectedBy) : EStateM String TaskTracker Unit :=
  fun tracker ↦
    (Moon.markTaskAffected G tracker.upstream tracker.downstream task affected
      tracker.marks).mapState tracker.withMarks

/-- `TaskTracker::track`. -/
def track (tracker : TaskTracker) : Except String TaskTracker :=
  match tracker.isTaskAffected E tracker.task with
  | .error e => .error e
  | .ok none => .ok tracker
  | .ok (some affected) =>
    match markTaskAffected G tracker.task affected tracker with
    | .ok _ tracker => .ok tracker
    | .error e _ => .error e

/-- **A task tracker does `trackTaskMarks`** to its maps. -/
theorem track_eq (tracker : TaskTracker) :
    tracker.track G E
      = tracker.withMarks <$> (trackTaskMarks G E tracker.ci tracker.changedFiles tracker.upstream
          tracker.downstream tracker.task tracker.marks).toExcept := by
  unfold track trackTaskMarks isTaskAffected
  cases checkTaskAffected E tracker.ci tracker.changedFiles tracker.task with
  | error e => rfl
  | ok affected =>
    cases affected with
    | none => rfl
    | some affected =>
      dsimp only
      unfold markTaskAffected
      cases Moon.markTaskAffected G tracker.upstream tracker.downstream tracker.task affected
        tracker.marks <;> rfl

end TaskTracker

/-- `ProjectTracker`: one project, tracked from an empty map. -/
structure ProjectTracker where
  changedFiles : List String
  downstream : DownstreamScope
  project : Project
  tracked : Finset (String × AffectedBy)
  upstream : UpstreamScope

namespace ProjectTracker

variable (G : AffectedGraph) (E : AffectedEnv)

/-- The tracker with its map replaced. -/
def withTracked (tracker : ProjectTracker) (tracked : ProjectMarks) : ProjectTracker :=
  { tracker with tracked }

/-- `ProjectTracker::is_project_affected`: the check by itself. -/
def isProjectAffected (tracker : ProjectTracker) (project : Project) : Option AffectedBy :=
  checkProjectAffected E tracker.changedFiles project

/-- `ProjectTracker::mark_project_affected`: the shared marking, over the tracker's map. -/
def markProjectAffected (project : Project) (affected : AffectedBy) :
    EStateM String ProjectTracker Unit := fun tracker ↦
  (Moon.markProjectAffected G tracker.upstream tracker.downstream project affected
    tracker.tracked).mapState tracker.withTracked

/-- `ProjectTracker::track`. -/
def track (tracker : ProjectTracker) : Except String ProjectTracker :=
  match tracker.isProjectAffected E tracker.project with
  | none => .ok tracker
  | some affected =>
    match markProjectAffected G tracker.project affected tracker with
    | .ok _ tracker => .ok tracker
    | .error e _ => .error e

/-- **A project tracker does `trackProjectMarks`** to its map. -/
theorem track_eq (tracker : ProjectTracker) :
    tracker.track G E
      = tracker.withTracked <$> (trackProjectMarks G E tracker.changedFiles tracker.upstream
          tracker.downstream tracker.project tracker.tracked).toExcept := by
  unfold track trackProjectMarks isProjectAffected
  cases checkProjectAffected E tracker.changedFiles tracker.project with
  | none => rfl
  | some affected =>
    dsimp only
    unfold markProjectAffected
    cases Moon.markProjectAffected G tracker.upstream tracker.downstream tracker.project affected
      tracker.tracked <;> rfl

end ProjectTracker

end Moon
