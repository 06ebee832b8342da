import Moon.Affected.Affected
import Mathlib.Order.BoundedOrder.Lattice

/-!
# Marking a task or a project

`mark_task_affected` and `mark_project_affected` are written twice in the source, once in the
sequential `AffectedTracker` and once in the per-item `TaskTracker` and `ProjectTracker`; the two
copies differ only in the maps they write.  Here each is written once, over the maps, and the
trackers apply it to their own (`Moon.Affected.TaskTracker`, `Moon.Affected.AffectedTracker`).

The maps are `Marks`: the task marks and the project marks, a pair of finite sets and so a
semilattice under union.  Three facts about marking carry the equivalence of the two trackers:

* marking reads none of the marks already there: it commutes with joining more marks beforehand
  (`markTaskAffected_commutes`, `trackTaskMarks_commutes`, and the same for projects);
* tracking an item from nothing leaves own marks only on that item (`trackTaskMarks_ownMarks`);
* what an `AlreadyMarked` item redoes — its walks — is a part of what tracking it from nothing
  adds (`markTaskAffected_alreadyMarked_le`).
-/

set_option autoImplicit false

namespace Moon

/-- The two maps of a tracker: task marks by target, and project marks by id. -/
abbrev Marks := Finset (Target × AffectedBy) × Finset (String × AffectedBy)

/-- The project marks, the only map a project tracker has. -/
abbrev ProjectMarks := Finset (String × AffectedBy)

/-- `is_task_marked_ignoring_relations`: the task has a mark of its own. -/
def taskMarkedIn (tasks : Finset (Target × AffectedBy)) (task : Task) : Prop :=
  ∃ x ∈ tasks, x.1 = task.target ∧ x.2.IsOwn

instance (tasks : Finset (Target × AffectedBy)) (task : Task) :
    Decidable (taskMarkedIn tasks task) := by
  unfold taskMarkedIn
  infer_instance

/-- `is_project_marked_ignoring_relations`: the project has a mark of its own. -/
def projectMarkedIn (projects : ProjectMarks) (project : Project) : Prop :=
  ∃ x ∈ projects, x.1 = project.id ∧ x.2.IsOwn

instance (projects : ProjectMarks) (project : Project) :
    Decidable (projectMarkedIn projects project) := by
  unfold projectMarkedIn
  infer_instance

theorem taskMarkedIn_union {s r : Finset (Target × AffectedBy)} {task : Task}
    (h : taskMarkedIn (s ∪ r) task) : taskMarkedIn s task ∨ taskMarkedIn r task := by
  obtain ⟨x, hx, htarget, hown⟩ := h
  rcases Finset.mem_union.mp hx with hx | hx
  · exact .inl ⟨x, hx, htarget, hown⟩
  · exact .inr ⟨x, hx, htarget, hown⟩

theorem projectMarkedIn_union {s r : ProjectMarks} {project : Project}
    (h : projectMarkedIn (s ∪ r) project) :
    projectMarkedIn s project ∨ projectMarkedIn r project := by
  obtain ⟨x, hx, hid, hown⟩ := h
  rcases Finset.mem_union.mp hx with hx | hx
  · exact .inl ⟨x, hx, hid, hown⟩
  · exact .inr ⟨x, hx, hid, hown⟩

/-! ## The walks of each tracker -/

section Walks

variable (G : AffectedGraph)

/-- `track_task_dependencies`: mark the dependencies `DownstreamTask`, and walk on into them. -/
def trackTaskDependencies (upstream : UpstreamScope) (task : Task) : WalkM Target Unit :=
  trackRelations (·.target) (fun task ↦ task.deps.map (·.target)) G.getTask .downstreamTask
    (upstream == .none) (upstream == .direct) (G.size + 1) task 0

/-- `track_task_dependents`: mark the dependents `UpstreamTask`, and walk on into them. -/
def trackTaskDependents (downstream : DownstreamScope) (task : Task) : WalkM Target Unit :=
  trackRelations (·.target) G.taskDependents G.getTask .upstreamTask
    (downstream == .none) (downstream == .direct) (G.size + 1) task 0

/-- `track_project_dependencies`: mark the dependencies `DownstreamProject`, and walk on. -/
def trackProjectDependencies (upstream : UpstreamScope) (project : Project) : WalkM String Unit :=
  trackRelations (·.id) (fun project ↦ project.dependencies.map (·.id)) G.getProject
    .downstreamProject (upstream == .none) (upstream == .direct) (G.size + 1) project 0

/-- `track_project_dependents`: mark the dependents `UpstreamProject`, and walk on. -/
def trackProjectDependents (downstream : DownstreamScope) (project : Project) :
    WalkM String Unit :=
  trackRelations (·.id) G.projectDependents G.getProject .upstreamProject
    (downstream == .none) (downstream == .direct) (G.size + 1) project 0

end Walks

/-- Run a walk over the task marks, from a fresh `cycle` set. -/
def walkTasks (w : WalkM Target Unit) : EStateM String Marks Unit := fun m ↦
  (w (m.1, ∅)).mapState fun s ↦ (s.1, m.2)

/-- Run a walk over the project marks, from a fresh `cycle` set. -/
def walkProjects (w : WalkM String Unit) : EStateM String ProjectMarks Unit := fun m ↦
  (w (m, ∅)).mapState (·.1)

theorem walkTasks_commutes {w : WalkM Target Unit}
    (hw : ∀ marks, EStateM.Commutes (addMarks marks) w) (M : Marks) :
    EStateM.Commutes (M ⊔ ·) (walkTasks w) := by
  rintro ⟨T, P⟩
  have h : w (M.1 ∪ T, ∅) = (w (T, ∅)).mapState (addMarks M.1) := hw M.1 (T, ∅)
  show (w (M.1 ∪ T, ∅)).mapState (fun s ↦ (s.1, M.2 ∪ P))
    = ((w (T, ∅)).mapState fun s ↦ (s.1, P)).mapState (M ⊔ ·)
  rw [h]
  cases w (T, ∅) <;> rfl

theorem walkProjects_commutes {w : WalkM String Unit}
    (hw : ∀ marks, EStateM.Commutes (addMarks marks) w) (M : ProjectMarks) :
    EStateM.Commutes (M ⊔ ·) (walkProjects w) := by
  intro P
  have h : w (M ∪ P, ∅) = (w (P, ∅)).mapState (addMarks M) := hw M (P, ∅)
  show (w (M ∪ P, ∅)).mapState (·.1) = ((w (P, ∅)).mapState (·.1)).mapState (M ⊔ ·)
  rw [h]
  cases w (P, ∅) <;> rfl

theorem walkTasks_preserves {w : WalkM Target Unit} {P : Target × AffectedBy → Prop}
    (hw : EStateM.Preserves (fun s ↦ ∀ x ∈ s.1, P x) w) :
    EStateM.Preserves (fun m : Marks ↦ ∀ x ∈ m.1, P x) (walkTasks w) := by
  rintro ⟨T, Q⟩ hT
  have h := hw (T, ∅) hT
  change ∀ x ∈ ((w (T, ∅)).mapState fun s ↦ (s.1, Q)).state.1, P x
  cases hr : w (T, ∅) <;>
  · rw [hr] at h
    exact h

/-! ## Marking -/

section Marking

variable (G : AffectedGraph) (E : AffectedEnv)

/-- `mark_task_affected`, over the maps it writes.  An `AlreadyMarked` task only has its
relations walked; any other mark is recorded first, and afterwards the task's project is marked
by the task.  A target whose project half cannot be sliced panics in `get_project_id`; the run
stops there. -/
def markTaskAffected (upstream : UpstreamScope) (downstream : DownstreamScope) (task : Task)
    (affected : AffectedBy) : EStateM String Marks Unit :=
  if affected = .alreadyMarked then do
    walkTasks (trackTaskDependencies G upstream task)
    walkTasks (trackTaskDependents G downstream task)
  else do
    modify fun m : Marks ↦ (insert (task.target, affected) m.1, m.2)
    walkTasks (trackTaskDependencies G upstream task)
    walkTasks (trackTaskDependents G downstream task)
    match task.target.getProjectId with
    | .ok projectId => modify fun m : Marks ↦ (m.1, insert (projectId, .task task.target) m.2)
    | .err _ => pure ()
    | .panic => throw "get_project_id panicked"

/-- `mark_project_affected`, over the project marks. -/
def markProjectAffected (upstream : UpstreamScope) (downstream : DownstreamScope)
    (project : Project) (affected : AffectedBy) : EStateM String ProjectMarks Unit :=
  if affected = .alreadyMarked then do
    walkProjects (trackProjectDependencies G upstream project)
    walkProjects (trackProjectDependents G downstream project)
  else do
    modify fun m : ProjectMarks ↦ insert (project.id, affected) m
    walkProjects (trackProjectDependencies G upstream project)
    walkProjects (trackProjectDependents G downstream project)

/-- What tracking a task that is not marked yet does to the maps: its own check, and the marking
that follows.  This is `TaskTracker::track`, and the sequential loop's body for such a task. -/
def trackTaskMarks (ci : Bool) (changedFiles : List String) (upstream : UpstreamScope)
    (downstream : DownstreamScope) (task : Task) : EStateM String Marks Unit := fun m ↦
  match checkTaskAffected E ci changedFiles task with
  | .error e => .error e m
  | .ok none => .ok () m
  | .ok (some affected) => markTaskAffected G upstream downstream task affected m

/-- What tracking a project that is not marked yet does to the project marks. -/
def trackProjectMarks (changedFiles : List String) (upstream : UpstreamScope)
    (downstream : DownstreamScope) (project : Project) : EStateM String ProjectMarks Unit :=
  fun m ↦
    match checkProjectAffected E changedFiles project with
    | none => .ok () m
    | some affected => markProjectAffected G upstream downstream project affected m

/-! ### Marking reads no marks -/

theorem trackTaskDependencies_commutes (upstream : UpstreamScope) (task : Task)
    (marks : Finset (Target × AffectedBy)) :
    EStateM.Commutes (addMarks marks) (trackTaskDependencies G upstream task) :=
  trackRelations_commutes marks _ _ _

theorem trackTaskDependents_commutes (downstream : DownstreamScope) (task : Task)
    (marks : Finset (Target × AffectedBy)) :
    EStateM.Commutes (addMarks marks) (trackTaskDependents G downstream task) :=
  trackRelations_commutes marks _ _ _

theorem markTaskAffected_commutes (upstream : UpstreamScope) (downstream : DownstreamScope)
    (task : Task) (affected : AffectedBy) (M : Marks) :
    EStateM.Commutes (M ⊔ ·) (markTaskAffected G upstream downstream task affected) := by
  have hdeps := walkTasks_commutes
    (trackTaskDependencies_commutes G upstream task) M
  have hdependents := walkTasks_commutes
    (trackTaskDependents_commutes G downstream task) M
  unfold markTaskAffected
  split_ifs
  · exact hdeps.bind fun _ ↦ hdependents
  · refine (EStateM.Commutes.modify fun m ↦ ?_).bind fun _ ↦
      hdeps.bind fun _ ↦ hdependents.bind fun _ ↦ ?_
    · exact Prod.ext (Finset.union_insert _ _ _).symm rfl
    split
    · exact EStateM.Commutes.modify fun m ↦ Prod.ext rfl (Finset.union_insert _ _ _).symm
    · exact EStateM.Commutes.pure _ _
    · exact EStateM.Commutes.throw _ _

theorem markProjectAffected_commutes (upstream : UpstreamScope) (downstream : DownstreamScope)
    (project : Project) (affected : AffectedBy) (M : ProjectMarks) :
    EStateM.Commutes (M ⊔ ·) (markProjectAffected G upstream downstream project affected) := by
  have hdeps := walkProjects_commutes
    (fun marks ↦ trackRelations_commutes marks _ _ _ :
      ∀ marks, EStateM.Commutes (addMarks marks) (trackProjectDependencies G upstream project)) M
  have hdependents := walkProjects_commutes
    (fun marks ↦ trackRelations_commutes marks _ _ _ :
      ∀ marks, EStateM.Commutes (addMarks marks) (trackProjectDependents G downstream project)) M
  unfold markProjectAffected
  split_ifs
  · exact hdeps.bind fun _ ↦ hdependents
  · refine (EStateM.Commutes.modify fun m ↦ ?_).bind fun _ ↦ hdeps.bind fun _ ↦ hdependents
    exact (Finset.union_insert _ _ _).symm

theorem trackTaskMarks_commutes (ci : Bool) (changedFiles : List String)
    (upstream : UpstreamScope) (downstream : DownstreamScope) (task : Task) (M : Marks) :
    EStateM.Commutes (M ⊔ ·) (trackTaskMarks G E ci changedFiles upstream downstream task) := by
  intro m
  unfold trackTaskMarks
  split
  · rfl
  · rfl
  · exact markTaskAffected_commutes G upstream downstream task _ M m

theorem trackProjectMarks_commutes (changedFiles : List String) (upstream : UpstreamScope)
    (downstream : DownstreamScope) (project : Project) (M : ProjectMarks) :
    EStateM.Commutes (M ⊔ ·) (trackProjectMarks G E changedFiles upstream downstream project) := by
  intro m
  unfold trackProjectMarks
  split
  · rfl
  · exact markProjectAffected_commutes G upstream downstream project _ M m

/-! ### Own marks land on the item tracked -/

/-- Marking a task adds own marks only on that task, the ones it is given. -/
theorem markTaskAffected_ownMarks (upstream : UpstreamScope) (downstream : DownstreamScope)
    (task : Task) (affected : AffectedBy) :
    EStateM.Preserves
      (fun m : Marks ↦ ∀ x ∈ m.1, x.2.IsOwn → x = (task.target, affected))
      (markTaskAffected G upstream downstream task affected) := by
  -- the walks mark `DownstreamTask` and `UpstreamTask`, neither of them an own mark
  have hrel : ∀ (mark : Target → AffectedBy), (∀ t, ¬ (mark t).IsOwn) → ∀ k k',
      (fun x : Target × AffectedBy ↦ x.2.IsOwn → x = (task.target, affected)) (k, mark k') :=
    fun _ hmark _ k' hown ↦ absurd hown (hmark k')
  have hdeps := walkTasks_preserves
    (trackRelations_preserves
      (P := fun x ↦ x.2.IsOwn → x = (task.target, affected)) (hrel .downstreamTask fun _ h ↦ h) (G.size + 1) task 0 :
      EStateM.Preserves _ (trackTaskDependencies G upstream task))
  have hdependents := walkTasks_preserves
    (trackRelations_preserves
      (P := fun x ↦ x.2.IsOwn → x = (task.target, affected)) (hrel .upstreamTask fun _ h ↦ h) (G.size + 1) task 0 :
      EStateM.Preserves _ (trackTaskDependents G downstream task))
  unfold markTaskAffected
  split_ifs
  · exact hdeps.bind fun _ ↦ hdependents
  · refine (EStateM.Preserves.modify fun m hm x hx hown ↦ ?_).bind fun _ ↦
      hdeps.bind fun _ ↦ hdependents.bind fun _ ↦ ?_
    · rcases Finset.mem_insert.mp hx with rfl | hx
      · rfl
      · exact hm x hx hown
    split
    · exact EStateM.Preserves.modify fun m hm ↦ hm
    · exact EStateM.Preserves.pure _ _
    · exact EStateM.Preserves.throw _ _

theorem markProjectAffected_ownMarks (upstream : UpstreamScope) (downstream : DownstreamScope)
    (project : Project) (affected : AffectedBy) :
    EStateM.Preserves (fun m : ProjectMarks ↦ ∀ x ∈ m, x.2.IsOwn → x = (project.id, affected))
      (markProjectAffected G upstream downstream project affected) := by
  have hrel : ∀ (mark : String → AffectedBy), (∀ t, ¬ (mark t).IsOwn) → ∀ k k',
      (fun x : String × AffectedBy ↦ x.2.IsOwn → x = (project.id, affected)) (k, mark k') :=
    fun _ hmark _ k' hown ↦ absurd hown (hmark k')
  have hwalk : ∀ w : WalkM String Unit,
      EStateM.Preserves (fun s ↦ ∀ x ∈ s.1, x.2.IsOwn → x = (project.id, affected)) w →
      EStateM.Preserves (fun m : ProjectMarks ↦ ∀ x ∈ m, x.2.IsOwn → x = (project.id, affected))
        (walkProjects w) := by
    intro w hw m hm
    have h := hw (m, ∅) hm
    change ∀ x ∈ ((w (m, ∅)).mapState (·.1)).state, _
    cases hr : w (m, ∅) <;>
    · rw [hr] at h
      exact h
  have hdeps := hwalk _
    (trackRelations_preserves
      (P := fun x ↦ x.2.IsOwn → x = (project.id, affected)) (hrel .downstreamProject fun _ h ↦ h) (G.size + 1)
      project 0 : EStateM.Preserves _ (trackProjectDependencies G upstream project))
  have hdependents := hwalk _
    (trackRelations_preserves
      (P := fun x ↦ x.2.IsOwn → x = (project.id, affected)) (hrel .upstreamProject fun _ h ↦ h) (G.size + 1)
      project 0 : EStateM.Preserves _ (trackProjectDependents G downstream project))
  unfold markProjectAffected
  split_ifs
  · exact hdeps.bind fun _ ↦ hdependents
  · refine (EStateM.Preserves.modify fun m hm x hx hown ↦ ?_).bind fun _ ↦
      hdeps.bind fun _ ↦ hdependents
    rcases Finset.mem_insert.mp hx with rfl | hx
    · rfl
    · exact hm x hx hown

/-! ### What tracking from nothing leaves -/

/-- Tracking a task from nothing leaves own marks only on the task, the one its check gives. -/
theorem trackTaskMarks_ownMarks {ci : Bool} {changedFiles : List String}
    {upstream : UpstreamScope} {downstream : DownstreamScope} {task : Task} {r : Marks}
    (h : trackTaskMarks G E ci changedFiles upstream downstream task ⊥ = .ok () r) :
    ∀ x ∈ r.1, x.2.IsOwn →
      x.1 = task.target ∧ checkTaskAffected E ci changedFiles task = .ok (some x.2) := by
  intro x hx hown
  unfold trackTaskMarks at h
  split at h
  · cases h
  · cases h
    cases hx
  · rename_i affected hcheck
    have hinv := markTaskAffected_ownMarks G upstream downstream task affected ⊥
      (fun y hy ↦ absurd hy (Finset.notMem_empty y))
    rw [h] at hinv
    obtain rfl := hinv x hx hown
    exact ⟨rfl, hcheck⟩

/-- Tracking a project from nothing leaves own marks only on the project, the one its check
gives. -/
theorem trackProjectMarks_ownMarks {changedFiles : List String} {upstream : UpstreamScope}
    {downstream : DownstreamScope} {project : Project} {r : ProjectMarks}
    (h : trackProjectMarks G E changedFiles upstream downstream project ⊥ = .ok () r) :
    ∀ x ∈ r, x.2.IsOwn →
      x.1 = project.id ∧ checkProjectAffected E changedFiles project = some x.2 := by
  intro x hx hown
  unfold trackProjectMarks at h
  split at h
  · cases h
    cases hx
  · rename_i affected hcheck
    have hinv := markProjectAffected_ownMarks G upstream downstream project affected ⊥
      (fun y hy ↦ absurd hy (Finset.notMem_empty y))
    rw [h] at hinv
    obtain rfl := hinv x hx hown
    exact ⟨rfl, hcheck⟩

/-- What an `AlreadyMarked` task redoes, its walks, is a part of what marking it leaves. -/
theorem markTaskAffected_alreadyMarked_le {upstream : UpstreamScope}
    {downstream : DownstreamScope} {task : Task} {affected : AffectedBy} {r : Marks}
    (h : markTaskAffected G upstream downstream task affected ⊥ = .ok () r) :
    ∃ w, markTaskAffected G upstream downstream task .alreadyMarked ⊥ = .ok () w ∧ w ≤ r := by
  by_cases ha : affected = .alreadyMarked
  · subst ha
    exact ⟨r, h, le_rfl⟩
  have hwalks : ∀ M : Marks, EStateM.Commutes (M ⊔ ·)
      (walkTasks (trackTaskDependencies G upstream task) >>= fun _ ↦
        walkTasks (trackTaskDependents G downstream task)) := fun M ↦
    (walkTasks_commutes (trackTaskDependencies_commutes G upstream task) M).bind fun _ ↦
      walkTasks_commutes (trackTaskDependents_commutes G downstream task) M
  rw [markTaskAffected, if_neg ha] at h
  -- take the run apart: the own mark, the two walks, the project mark
  obtain ⟨⟨⟩, m₁, hm₁, h⟩ := EStateM.bind_eq_ok h
  obtain ⟨⟨⟩, m₂, hdeps, h⟩ := EStateM.bind_eq_ok h
  obtain ⟨⟨⟩, m₃, hdependents, hproject⟩ := EStateM.bind_eq_ok h
  have hm₃ : m₃ ≤ r := by
    cases hp : task.target.getProjectId with
    | ok projectId =>
      rw [hp] at hproject
      cases hproject
      exact ⟨le_rfl, Finset.subset_insert _ _⟩
    | err e =>
      rw [hp] at hproject
      cases hproject
      exact le_rfl
    | panic =>
      rw [hp] at hproject
      cases hproject
  have hboth : (walkTasks (trackTaskDependencies G upstream task) >>= fun _ ↦
      walkTasks (trackTaskDependents G downstream task)) m₁ = .ok () m₃ :=
    EStateM.bind_ok_iff.mpr ⟨⟨⟩, m₂, hdeps, hdependents⟩
  obtain ⟨w, hw, rfl⟩ := EStateM.ok_of_commutes hwalks hboth
  refine ⟨w, ?_, le_sup_right.trans hm₃⟩
  rw [markTaskAffected, if_pos rfl]
  exact hw

/-- What an `AlreadyMarked` project redoes, its walks, is a part of what marking it leaves. -/
theorem markProjectAffected_alreadyMarked_le {upstream : UpstreamScope}
    {downstream : DownstreamScope} {project : Project} {affected : AffectedBy} {r : ProjectMarks}
    (h : markProjectAffected G upstream downstream project affected ⊥ = .ok () r) :
    ∃ w, markProjectAffected G upstream downstream project .alreadyMarked ⊥ = .ok () w ∧
      w ≤ r := by
  by_cases ha : affected = .alreadyMarked
  · subst ha
    exact ⟨r, h, le_rfl⟩
  have hwalks : ∀ M : ProjectMarks, EStateM.Commutes (M ⊔ ·)
      (walkProjects (trackProjectDependencies G upstream project) >>= fun _ ↦
        walkProjects (trackProjectDependents G downstream project)) := fun M ↦
    (walkProjects_commutes (fun marks ↦ trackRelations_commutes marks _ _ _) M).bind fun _ ↦
      walkProjects_commutes (fun marks ↦ trackRelations_commutes marks _ _ _) M
  rw [markProjectAffected, if_neg ha] at h
  obtain ⟨⟨⟩, m₁, hm₁, h⟩ := EStateM.bind_eq_ok h
  obtain ⟨w, hw, rfl⟩ := EStateM.ok_of_commutes hwalks h
  refine ⟨w, ?_, le_sup_right⟩
  rw [markProjectAffected, if_pos rfl]
  exact hw

end Marking

end Moon
