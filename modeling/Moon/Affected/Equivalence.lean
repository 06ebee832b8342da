import Moon.Affected.AffectedTracker

/-!
# The parallel tracker and the sequential one

Both ways of tracking end, when they succeed, where joining every item's own output into the
tracker's maps ends:

* the sequential loop is a loop of `memoStep`s (`trackTasksByInstance_eq`), and a memo changes
  nothing (`EStateM.forM_memoStep_ok_iff`) once three facts hold of the tracker: marking commutes
  with joins (`Moon.Affected.Mark`), an item's own output marks no other item of the list — the
  tasks of a graph have distinct targets, the projects distinct ids — and what an `AlreadyMarked`
  item redoes is part of its own output;
* the parallel run is, on success, the sequential loop over the futures' results
  (`runPooledTasks_ok_iff`), and merging a tracker is joining its output.

A join loop depends only on the items of its list (`EStateM.forM_joinOut_congr`), so neither
path depends on the order of the list or on duplicates in it
(`tracking_agrees_on_success`).

On failure the two differ: the sequential loop keeps what it marked before the failing call, the
parallel one drops the failing tracker and keeps only the outputs merged before it
(`failed_tracking_keeps_partial_marks`).
-/

set_option autoImplicit false

namespace Moon

namespace AffectedTracker

variable (G : AffectedGraph) (E : AffectedEnv)

/-- The own output of a task: the maps a fresh `TaskTracker` leaves. -/
def taskOut (tracker : AffectedTracker) : Task → Except String Marks :=
  EStateM.ownOut
    (trackTaskMarks G E tracker.ci tracker.changedFiles tracker.taskUpstream
      tracker.taskDownstream)

/-- The own output of a project: the map a fresh `ProjectTracker` leaves. -/
def projectOut (tracker : AffectedTracker) : Project → Except String ProjectMarks :=
  EStateM.ownOut
    (trackProjectMarks G E tracker.changedFiles tracker.projectUpstream tracker.projectDownstream)

/-! ## The sequential loop joins the own outputs -/

section Sequential

variable {G E}

theorem taskMemo_redo_le {tracker : AffectedTracker} {task : Task} {r : Marks}
    (h : trackTaskMarks G E tracker.ci tracker.changedFiles tracker.taskUpstream
      tracker.taskDownstream task ⊥ = .ok () r) (hmarked : taskMarkedIn r.1 task) :
    ∃ w, Moon.markTaskAffected G tracker.taskUpstream tracker.taskDownstream task
      .alreadyMarked ⊥ = .ok () w ∧ w ≤ r := by
  unfold trackTaskMarks at h
  split at h
  · cases h
  · -- an unaffected task leaves nothing, so nothing marks it
    cases h
    obtain ⟨x, hx, -⟩ := hmarked
    cases hx
  · exact markTaskAffected_alreadyMarked_le G h

theorem projectMemo_redo_le {tracker : AffectedTracker} {project : Project}
    {r : ProjectMarks}
    (h : trackProjectMarks G E tracker.changedFiles tracker.projectUpstream
      tracker.projectDownstream project ⊥ = .ok () r) (hmarked : projectMarkedIn r project) :
    ∃ w, Moon.markProjectAffected G tracker.projectUpstream tracker.projectDownstream project
      .alreadyMarked ⊥ = .ok () w ∧ w ≤ r := by
  unfold trackProjectMarks at h
  split at h
  · cases h
    obtain ⟨x, hx, -⟩ := hmarked
    cases hx
  · exact markProjectAffected_alreadyMarked_le G h

/-- Among tasks with distinct targets, a task's own output marks no other one. -/
theorem taskMemo_marked_own {tasks : List Task}
    (hunique : ∀ t₁ ∈ tasks, ∀ t₂ ∈ tasks, t₁.target = t₂.target → t₁ = t₂)
    {tracker : AffectedTracker} {i j : Task} (hi : i ∈ tasks) (hj : j ∈ tasks) {r : Marks}
    (h : trackTaskMarks G E tracker.ci tracker.changedFiles tracker.taskUpstream
      tracker.taskDownstream j ⊥ = .ok () r)
    (hmarked : taskMarkedIn r.1 i) : i = j := by
  obtain ⟨x, hx, htarget, hown⟩ := hmarked
  have hj_target := (trackTaskMarks_ownMarks G E h x hx hown).1
  exact hunique i hi j hj (htarget.symm.trans hj_target)

/-- Among projects with distinct ids, a project's own output marks no other one. -/
theorem projectMemo_marked_own {projects : List Project}
    (hunique : ∀ p₁ ∈ projects, ∀ p₂ ∈ projects, p₁.id = p₂.id → p₁ = p₂)
    {tracker : AffectedTracker} {i j : Project} (hi : i ∈ projects) (hj : j ∈ projects)
    {r : ProjectMarks}
    (h : trackProjectMarks G E tracker.changedFiles tracker.projectUpstream
      tracker.projectDownstream j ⊥ = .ok () r)
    (hmarked : projectMarkedIn r i) : i = j := by
  obtain ⟨x, hx, hid, hown⟩ := hmarked
  have hj_id := (trackProjectMarks_ownMarks G E h x hx hown).1
  exact hunique i hi j hj (hid.symm.trans hj_id)

/-- **The sequential task loop joins the own outputs**, from a tracker with no own task marks
and over tasks with distinct targets. -/
theorem trackTasksByInstance_ok_iff {tasks : List Task}
    (hunique : ∀ t₁ ∈ tasks, ∀ t₂ ∈ tasks, t₁.target = t₂.target → t₁ = t₂)
    {tracker : AffectedTracker} (hfresh : ∀ x ∈ tracker.tasks, ¬ x.2.IsOwn) (s : AffectedTracker) :
    trackTasksByInstance G E tasks tracker = .ok () s ↔
      (forM tasks (EStateM.joinOut (taskOut G E tracker)) tracker.marks).mapState
        tracker.withMarks = .ok () s := by
  rw [trackTasksByInstance_eq]
  refine EStateM.Result.mapState_ok_iff (fun ⟨⟩ m ↦ ?_) () s
  exact EStateM.forM_memoStep_ok_iff
    (fun task M ↦ trackTaskMarks_commutes G E _ _ _ _ task M)
    (fun task M ↦ markTaskAffected_commutes G _ _ task _ M)
    (fun _ _ h hmarked ↦ taskMemo_redo_le h hmarked)
    (fun _ _ _ ↦ taskMarkedIn_union)
    (fun _ hi _ hj _ h hmarked ↦ taskMemo_marked_own hunique hi hj h hmarked)
    (fun _ _ ⟨x, hx, _, hown⟩ ↦ hfresh x hx hown) m

/-- **The sequential project loop joins the own outputs**, from a tracker with no own project
marks and over projects with distinct ids. -/
theorem forM_trackProject_ok_iff {projects : List Project}
    (hunique : ∀ p₁ ∈ projects, ∀ p₂ ∈ projects, p₁.id = p₂.id → p₁ = p₂)
    {tracker : AffectedTracker} (hfresh : ∀ x ∈ tracker.projects, ¬ x.2.IsOwn)
    (s : AffectedTracker) :
    forM projects (trackProject G E) tracker = .ok () s ↔
      (forM projects (EStateM.joinOut (projectOut G E tracker)) tracker.projects).mapState
        tracker.withProjects = .ok () s := by
  rw [forM_trackProject_eq]
  refine EStateM.Result.mapState_ok_iff (fun ⟨⟩ m ↦ ?_) () s
  exact EStateM.forM_memoStep_ok_iff
    (fun project M ↦ trackProjectMarks_commutes G E _ _ _ project M)
    (fun project M ↦ markProjectAffected_commutes G _ _ project _ M)
    (fun _ _ h hmarked ↦ projectMemo_redo_le h hmarked)
    (fun _ _ _ ↦ projectMarkedIn_union)
    (fun _ hi _ hj _ h hmarked ↦ projectMemo_marked_own hunique hi hj h hmarked)
    (fun _ _ ⟨x, hx, _, hown⟩ ↦ hfresh x hx hown) m

end Sequential

/-! ## The parallel run joins the own outputs -/

section Parallel

theorem taskTrackerFor_track (tracker : AffectedTracker) (task : Task) :
    (tracker.taskTrackerFor task).track G E
      = (tracker.taskTrackerFor task).withMarks <$> taskOut G E tracker task := by
  rw [TaskTracker.track_eq, taskOut, EStateM.ownOut_eq_toExcept]
  rfl

theorem projectTrackerFor_track (tracker : AffectedTracker) (project : Project) :
    (tracker.projectTrackerFor project).track G E
      = (tracker.projectTrackerFor project).withTracked <$> projectOut G E tracker project := by
  rw [ProjectTracker.track_eq, projectOut, EStateM.ownOut_eq_toExcept]
  rfl

/-- Merging a task tracker's result is joining the task's own output. -/
theorem mergeTaskTracker_result (tracker : AffectedTracker) (task : Task) (t : AffectedTracker) :
    applyResult mergeTaskTracker ((tracker.taskTrackerFor task).track G E) t
      = (EStateM.joinOut (taskOut G E tracker) task t.marks).mapState t.withMarks := by
  rw [taskTrackerFor_track]
  unfold EStateM.joinOut applyResult
  cases taskOut G E tracker task <;> rfl

/-- Merging a project tracker's result is joining the project's own output. -/
theorem mergeProjectTracker_result (tracker : AffectedTracker) (project : Project)
    (t : AffectedTracker) :
    applyResult mergeProjectTracker ((tracker.projectTrackerFor project).track G E) t
      = (EStateM.joinOut (projectOut G E tracker) project t.projects).mapState t.withProjects := by
  rw [projectTrackerFor_track]
  unfold EStateM.joinOut applyResult
  cases projectOut G E tracker project <;> rfl

/-- **The parallel task run joins the own outputs**, whatever the order of completion. -/
theorem trackTasksByInstanceAsync_ok_iff (tasks : List Task) {completion : List ℕ}
    (hperm : completion.Perm (List.range tasks.length)) (tracker s : AffectedTracker) :
    trackTasksByInstanceAsync G E tasks completion tracker = .ok () s ↔
      (forM tasks (EStateM.joinOut (taskOut G E tracker)) tracker.marks).mapState
        tracker.withMarks = .ok () s := by
  have hloop := EStateM.forM_lift marks withMarks (fun t ↦ ∃ m, t = tracker.withMarks m)
    (fun _ _ ↦ rfl) (fun _ _ _ ↦ rfl) (fun _ ↦ rfl)
    (fun _ s _ ↦ ⟨s, by obtain ⟨m, rfl⟩ := ‹∃ m, _›; rfl⟩)
    tasks (fun task _ t _ ↦ mergeTaskTracker_result G E tracker task t) tracker ⟨tracker.marks, rfl⟩
  unfold trackTasksByInstanceAsync
  rw [runPooledTasks_ok_iff _ (by rwa [List.length_map]), runSequentially, List.forM_map]
  rw [hloop]

/-- **The parallel project run joins the own outputs**, whatever the order of completion. -/
theorem forM_projects_async_ok_iff (projects : List Project) {completion : List ℕ}
    (hperm : completion.Perm (List.range projects.length)) (tracker s : AffectedTracker) :
    runPooledTasks mergeProjectTracker
        (projects.map fun project ↦ (tracker.projectTrackerFor project).track G E) completion
        (fun _ ↦ none) 0 tracker = .ok () s ↔
      (forM projects (EStateM.joinOut (projectOut G E tracker)) tracker.projects).mapState
        tracker.withProjects = .ok () s := by
  have hloop := EStateM.forM_lift AffectedTracker.projects withProjects
    (fun t ↦ ∃ m, t = tracker.withProjects m)
    (fun _ _ ↦ rfl) (fun _ _ _ ↦ rfl) (fun _ ↦ rfl)
    (fun _ s _ ↦ ⟨s, by obtain ⟨m, rfl⟩ := ‹∃ m, _›; rfl⟩)
    projects (fun project _ t _ ↦ mergeProjectTracker_result G E tracker project t) tracker
    ⟨tracker.projects, rfl⟩
  rw [runPooledTasks_ok_iff _ (by rwa [List.length_map]), runSequentially, List.forM_map]
  rw [hloop]

end Parallel

/-! ## Agreement -/

/-- Two lifted join loops over lists with the same items agree on success. -/
theorem joinLoop_congr {ι M σ : Type} [SemilatticeSup M] [OrderBot M]
    {out : ι → Except String M} {l l' : List ι} (h : ∀ i, i ∈ l ↔ i ∈ l') (m : M)
    (update : M → σ) (s : σ) :
    (forM l (EStateM.joinOut out) m).mapState update = .ok () s ↔
      (forM l' (EStateM.joinOut out) m).mapState update = .ok () s :=
  EStateM.Result.mapState_ok_iff (fun ⟨⟩ _ ↦ EStateM.forM_joinOut_congr h) () s

/-- **Tracking agrees on success.**  Over a list of tasks with distinct targets, from a tracker
with no own task marks, the sequential loop succeeds into exactly the states the parallel run
over any list with the same tasks — any permutation of it, or one with duplicates — does, in any
order of completion; and so does the sequential loop over that list.  The same holds of projects,
over the list `get_projects` returns and any list with the same projects, when the projects have
distinct ids and the tracker has no own project marks. -/
theorem tracking_agrees_on_success {tasks tasks' : List Task} {completion : List ℕ}
    (hmem : ∀ task, task ∈ tasks ↔ task ∈ tasks')
    (hunique : ∀ t₁ ∈ tasks, ∀ t₂ ∈ tasks, t₁.target = t₂.target → t₁ = t₂)
    (hperm : completion.Perm (List.range tasks'.length))
    {projects projects' : List Project} {projectCompletion : List ℕ}
    (hprojects : G.getProjects = .ok projects)
    (hpmem : ∀ project, project ∈ projects ↔ project ∈ projects')
    (hpunique : ∀ p₁ ∈ projects, ∀ p₂ ∈ projects, p₁.id = p₂.id → p₁ = p₂)
    (hpperm : projectCompletion.Perm (List.range projects'.length))
    {tracker : AffectedTracker} (hfresh : ∀ x ∈ tracker.tasks, ¬ x.2.IsOwn)
    (hpfresh : ∀ x ∈ tracker.projects, ¬ x.2.IsOwn) :
    (∀ s, trackTasksByInstance G E tasks tracker = .ok () s ↔
      trackTasksByInstanceAsync G E tasks' completion tracker = .ok () s) ∧
    (∀ s, trackTasksByInstance G E tasks tracker = .ok () s ↔
      trackTasksByInstance G E tasks' tracker = .ok () s) ∧
    (∀ s, trackProjects G E tracker = .ok () s ↔
      trackProjectsAsync { G with getProjects := .ok projects' } E projectCompletion tracker
        = .ok () s) ∧
    (∀ s, trackProjects G E tracker = .ok () s ↔
      trackProjects { G with getProjects := .ok projects' } E tracker = .ok () s) := by
  have hunique' : ∀ t₁ ∈ tasks', ∀ t₂ ∈ tasks', t₁.target = t₂.target → t₁ = t₂ :=
    fun t₁ h₁ t₂ h₂ ↦ hunique t₁ ((hmem t₁).mpr h₁) t₂ ((hmem t₂).mpr h₂)
  have hpunique' : ∀ p₁ ∈ projects', ∀ p₂ ∈ projects', p₁.id = p₂.id → p₁ = p₂ :=
    fun p₁ h₁ p₂ h₂ ↦ hpunique p₁ ((hpmem p₁).mpr h₁) p₂ ((hpmem p₂).mpr h₂)
  -- each side is a join loop, and join loops over the same items agree
  have htasks : ∀ s, trackTasksByInstance G E tasks tracker = .ok () s ↔
      (forM tasks' (EStateM.joinOut (taskOut G E tracker)) tracker.marks).mapState
        tracker.withMarks = .ok () s := fun s ↦
    (trackTasksByInstance_ok_iff hunique hfresh s).trans (joinLoop_congr hmem _ _ s)
  have hprojectsSeq : ∀ s, trackProjects G E tracker = .ok () s ↔
      (forM projects' (EStateM.joinOut (projectOut G E tracker)) tracker.projects).mapState
        tracker.withProjects = .ok () s := fun s ↦ by
    rw [trackProjects_of_getProjects G E hprojects]
    exact (forM_trackProject_ok_iff hpunique hpfresh s).trans (joinLoop_congr hpmem _ _ s)
  refine ⟨fun s ↦ ?_, fun s ↦ ?_, fun s ↦ ?_, fun s ↦ ?_⟩
  · rw [htasks, trackTasksByInstanceAsync_ok_iff G E tasks' hperm]
  · rw [htasks, trackTasksByInstance_ok_iff hunique' hfresh]
  · rw [hprojectsSeq]
    rw [trackProjectsAsync_of_getProjects _ E (rfl : ({ G with getProjects := .ok projects' } :
      AffectedGraph).getProjects = .ok projects')]
    exact (forM_projects_async_ok_iff { G with getProjects := .ok projects' } E projects' hpperm
      tracker s).symm
  · rw [hprojectsSeq]
    rw [trackProjects_of_getProjects _ E (rfl : ({ G with getProjects := .ok projects' } :
      AffectedGraph).getProjects = .ok projects')]
    exact (forM_trackProject_ok_iff (G := { G with getProjects := .ok projects' }) hpunique'
      hpfresh s).symm

/-- One task and one project, each listed twice for the parallel run, tracked by a new
tracker. -/
theorem tracking_agrees_on_one_task :
    let task : Task := { id := "build", target := ⟨"app:build", .id, .id, 3⟩ }
    let project : Project := { id := "app", source := "app" }
    let G : AffectedGraph :=
      { getProject := fun _ ↦ .ok project, getProjects := .ok [project],
        getTask := fun _ ↦ .ok task, projectDependents := fun _ ↦ [],
        taskDependents := fun _ ↦ [], size := 2 }
    let E : AffectedEnv :=
      { envVar := fun _ ↦ none, createGlobset := fun _ ↦ .ok fun _ ↦ true,
        readFile := fun _ ↦ none, isMatch := fun _ _ ↦ false,
        pathStartsWith := fun file source ↦ file.startsWith source }
    let tracker := AffectedTracker.new ["app/src/main.rs"]
    (∀ s, trackTasksByInstance G E [task] tracker = .ok () s ↔
      trackTasksByInstanceAsync G E [task, task] [1, 0] tracker = .ok () s) ∧
    (∀ s, trackTasksByInstance G E [task] tracker = .ok () s ↔
      trackTasksByInstance G E [task, task] tracker = .ok () s) ∧
    (∀ s, trackProjects G E tracker = .ok () s ↔
      trackProjectsAsync { G with getProjects := .ok [project, project] } E [1, 0] tracker
        = .ok () s) ∧
    (∀ s, trackProjects G E tracker = .ok () s ↔
      trackProjects { G with getProjects := .ok [project, project] } E tracker = .ok () s) := by
  intro task project G E tracker
  exact tracking_agrees_on_success G E (fun _ ↦ by simp) (by simp) (by decide) rfl
    (fun _ ↦ by simp) (by simp) (by decide) (fun x hx ↦ absurd hx (Finset.notMem_empty x))
    (fun x hx ↦ absurd hx (Finset.notMem_empty x))

end AffectedTracker

/-- **A failed run keeps different marks on each path.**  The task `app:build` is affected by a
changed file and depends on `app:lint`, which the graph cannot load.  Both paths fail with that
error; the sequential loop keeps the task's own mark and the mark it put on the dependency before
the failing lookup, while the parallel run drops the failing tracker and keeps nothing. -/
theorem failed_tracking_keeps_partial_marks :
    let dep : Target := ⟨"app:lint", .id, .id, 3⟩
    let task : Task :=
      { deps := [{ target := dep }], id := "build", target := ⟨"app:build", .id, .id, 3⟩ }
    let G : AffectedGraph :=
      { getProject := fun _ ↦ .error "unknown project", getProjects := .ok [],
        getTask := fun _ ↦ .error "unknown task", projectDependents := fun _ ↦ [],
        taskDependents := fun _ ↦ [], size := 2 }
    let E : AffectedEnv :=
      { envVar := fun _ ↦ none, createGlobset := fun _ ↦ .ok fun _ ↦ true,
        readFile := fun _ ↦ none, isMatch := fun _ _ ↦ false,
        pathStartsWith := fun _ _ ↦ false }
    let tracker := AffectedTracker.new ["app/src/main.rs"]
    (AffectedTracker.trackTasksByInstance G E [task] tracker).toExcept = .error "unknown task" ∧
    (AffectedTracker.trackTasksByInstanceAsync G E [task] [0] tracker).toExcept
      = .error "unknown task" ∧
    (AffectedTracker.trackTasksByInstance G E [task] tracker).state.tasks
      = {(dep, .downstreamTask task.target), (task.target, .changedFile "app/src/main.rs")} ∧
    (AffectedTracker.trackTasksByInstanceAsync G E [task] [0] tracker).state.tasks = ∅ := by
  intro dep task G E tracker
  exact ⟨rfl, rfl, by decide, by decide⟩

end Moon
