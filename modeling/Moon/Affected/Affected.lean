import Moon.Project.Project
import Moon.Task.Task
import Moon.Lib.EState
import Moon.Lib.Outcome
import Mathlib.Data.Finset.Lattice.Lemmas
import Mathlib.Data.Finset.SDiff

/-!
# What makes a task or a project affected

The affected tracker (`crates/affected`) decides which projects and tasks a set of changed files
touches.  A task or project is affected *by itself* — it is always affected in CI, a variable it
reads is set, or a changed file is one of its inputs — or *through a relation*: it is a
dependency or a dependent of one that is.  Marks of the first kind are the ones
`is_*_marked_ignoring_relations` looks for (`AffectedBy.IsOwn`).

The tracker keeps, for each task target and each project id, the set of reasons it is affected.
A map from keys to sets whose entries are only ever created by inserting into them is the set of
its `(key, reason)` pairs, and that is how the maps are modelled.

This file holds what the sequential tracker (`AffectedTracker`) and the per-item trackers of the
parallel path (`TaskTracker`, `ProjectTracker`) share — the code is duplicated in the source:

* `checkTaskAffected` and `checkProjectAffected`, the checks of a task or project by itself;
* `trackRelations`, the walk that marks the dependencies or the dependents of a node, directly or
  deeply, with a `cycle` set so that no node is walked twice.  The four walks of each tracker are
  this one walk over tasks or projects, over dependencies or dependents.

The walk only ever adds marks, and reads nothing of them: running it over more marks leaves the
same marks more (`trackRelations_commutes`).

What the checks read of the world outside the repository is `AffectedEnv`: the environment
variables, the glob sets of `starbase_utils`, the file system and the regular expressions of file
content inputs, and the component-wise prefix test of relative paths.
-/

set_option autoImplicit false

namespace Moon

/-- `AffectedBy`: why a task or project is affected. -/
inductive AffectedBy where
  | alreadyMarked
  | alwaysAffected
  | changedFile (file : String)
  | downstreamProject (id : String)
  | downstreamTask (target : Target)
  | environmentVariable (name : String)
  | task (target : Target)
  | upstreamProject (id : String)
  | upstreamTask (target : Target)
  deriving DecidableEq, Repr

/-- A mark a task or project has by itself, not through a relation. -/
def AffectedBy.IsOwn : AffectedBy → Prop
  | .alwaysAffected | .changedFile _ | .environmentVariable _ => True
  | _ => False

instance (by_ : AffectedBy) : Decidable by_.IsOwn := by
  cases by_ <;> unfold AffectedBy.IsOwn <;> infer_instance

/-- `UpstreamScope`: how far the dependencies of an affected node are marked. -/
inductive UpstreamScope where
  | none
  | direct
  | deep
  deriving DecidableEq, Repr

/-- `DownstreamScope`: how far the dependents of an affected node are marked. -/
inductive DownstreamScope where
  | none
  | direct
  | deep
  deriving DecidableEq, Repr

/-- What the trackers read of the workspace graph.  Getting a task expands it, which may fail. -/
structure AffectedGraph where
  getProject : String → Except String Project
  getProjects : Except String (List Project)
  getTask : Target → Except String Task
  projectDependents : Project → List String
  taskDependents : Task → List Target
  /-- A bound on the number of projects and tasks of the graph: no walk goes deeper. -/
  size : ℕ

/-- What the checks read outside the repository. -/
structure AffectedEnv where
  /-- `GlobalEnvBag::get`. -/
  envVar : String → Option String
  /-- `Task::create_globset`, over the glob sets of `starbase_utils`. -/
  createGlobset : Task → Except String (String → Bool)
  /-- The contents of a workspace file, `none` when it does not exist. -/
  readFile : String → Option (Except String String)
  /-- `RegexSetting::is_match`: a content pattern against file contents. -/
  isMatch : String → String → Bool
  /-- `RelativePath::starts_with`: component-wise prefix. -/
  pathStartsWith : String → String → Bool

/-! ## Checks of a task or project by itself -/

section Checks

variable (E : AffectedEnv)

/-- The test of one changed file against the inputs of a task: a file input matches by its
content when it has a pattern and exists, and otherwise always; any other file by the glob set. -/
def isFileAffected (globset : String → Bool) (task : Task) (file : String) : Except String Bool :=
  match task.inputFiles.lookup file with
  | some params =>
    match params.content with
    | some matcher =>
      match E.readFile file with
      | some contents => (E.isMatch matcher) <$> contents
      | none => .ok false
    | none => .ok true
  | none => .ok (globset file)

/-- `is_task_affected` after its first test, shared by both trackers: the CI switches, the empty
inputs, the first variable that is set, then the first changed file that is an input. -/
def checkTaskAffected (ci : Bool) (changedFiles : List String) (task : Task) :
    Except String (Option AffectedBy) :=
  match ci, task.options.runInCI with
  | true, .always => .ok (some .alwaysAffected)
  | true, .enabled false | true, .skip | false, .only => .ok none
  | _, _ =>
    if task.state.emptyInputs then .ok none
    else
      match task.inputEnv.find? fun name ↦ (E.envVar name).any fun value ↦ !value.isEmpty with
      | some name => .ok (some (.environmentVariable name))
      | none => do
        let globset ← E.createGlobset task
        let file ← changedFiles.findM? (isFileAffected E globset task)
        pure (file.map .changedFile)

/-- `is_project_affected` after its first test, shared by both trackers: at the root any changed
file that is not hidden, elsewhere the first changed file under the project's source. -/
def checkProjectAffected (changedFiles : List String) (project : Project) : Option AffectedBy :=
  if project.isRootLevel then
    (changedFiles.find? fun file ↦ !file.startsWith ".").map .changedFile
  else
    (changedFiles.find? fun file ↦ E.pathStartsWith file project.source).map .changedFile

end Checks

/-! ## The relation walks -/

section Walk

variable {K N : Type} [DecidableEq K] (key : N → K) (related : N → List K)
  (lookup : K → Except String N) (mark : K → AffectedBy) (scopeNone scopeDirect : Bool)

/-- The state of a walk: the marks of one map, and the keys walked so far. -/
abbrev WalkM (K : Type) := EStateM String (Finset (K × AffectedBy) × Finset K)

/-- One round of the loop over the related keys of `node`: mark the key, and go on from it unless
the walk is direct and at the start. -/
def relatedStep (walk : N → ℕ → WalkM K Unit) (node : N) (depth : ℕ) (k : K) : WalkM K Unit :=
  fun s ↦
    let s := (insert (k, mark (key node)) s.1, s.2)
    if depth = 0 ∧ scopeDirect then .ok () s
    else
      match lookup k with
      | .error e => .error e s
      | .ok next => walk next (depth + 1) s

/-- `track_*_dependencies` and `track_*_dependents`: a node already walked, or any node when the
scope is none, stops the walk; otherwise every related key is marked and walked on. -/
def trackRelations : ℕ → N → ℕ → WalkM K Unit
  | 0, _, _ => pure ()
  | fuel + 1, node, depth => fun s ↦
    if key node ∈ s.2 then .ok () s
    else if scopeNone then .ok () (s.1, insert (key node) s.2)
    else
      forM (related node)
        (relatedStep key lookup mark scopeDirect (trackRelations fuel) node depth)
        (s.1, insert (key node) s.2)

variable {key related lookup mark scopeNone scopeDirect}

theorem trackRelations_succ_of_mem {fuel : ℕ} {node : N} {depth : ℕ}
    {s : Finset (K × AffectedBy) × Finset K} (h : key node ∈ s.2) :
    trackRelations key related lookup mark scopeNone scopeDirect (fuel + 1) node depth s
      = .ok () s := by
  show ite (key node ∈ s.2) _ _ = _
  rw [if_pos h]

theorem trackRelations_succ_of_none {fuel : ℕ} {node : N} {depth : ℕ}
    {s : Finset (K × AffectedBy) × Finset K} (h : key node ∉ s.2) (hnone : scopeNone = true) :
    trackRelations key related lookup mark scopeNone scopeDirect (fuel + 1) node depth s
      = .ok () (s.1, insert (key node) s.2) := by
  show ite (key node ∈ s.2) _ _ = _
  rw [if_neg h, if_pos hnone]

theorem trackRelations_succ_of_walk {fuel : ℕ} {node : N} {depth : ℕ}
    {s : Finset (K × AffectedBy) × Finset K} (h : key node ∉ s.2) (hnone : scopeNone = false) :
    trackRelations key related lookup mark scopeNone scopeDirect (fuel + 1) node depth s
      = forM (related node)
          (relatedStep key lookup mark scopeDirect
            (trackRelations key related lookup mark scopeNone scopeDirect fuel) node depth)
          (s.1, insert (key node) s.2) := by
  show ite (key node ∈ s.2) _ _ = _
  rw [if_neg h, if_neg (by simp [hnone])]

/-- Adding marks beforehand. -/
def addMarks (marks : Finset (K × AffectedBy)) (s : Finset (K × AffectedBy) × Finset K) :
    Finset (K × AffectedBy) × Finset K :=
  (marks ∪ s.1, s.2)

theorem relatedStep_commutes (marks : Finset (K × AffectedBy)) {walk : N → ℕ → WalkM K Unit}
    (hwalk : ∀ next depth, EStateM.Commutes (addMarks marks) (walk next depth)) (node : N)
    (depth : ℕ) (k : K) :
    EStateM.Commutes (addMarks marks) (relatedStep key lookup mark scopeDirect walk node depth k) := by
  rintro ⟨W, c⟩
  have hins : (insert (k, mark (key node)) (addMarks marks (W, c)).1, (addMarks marks (W, c)).2)
      = addMarks marks (insert (k, mark (key node)) W, c) := by
    simp [addMarks, Finset.union_insert]
  simp only [relatedStep]
  rw [hins]
  split_ifs
  · rfl
  · split
    · rfl
    · exact hwalk _ _ _

/-- **The walk reads no marks**: run over more marks, it leaves the same marks more. -/
theorem trackRelations_commutes (marks : Finset (K × AffectedBy)) :
    ∀ (fuel : ℕ) (node : N) (depth : ℕ),
      EStateM.Commutes (addMarks marks)
        (trackRelations key related lookup mark scopeNone scopeDirect fuel node depth)
  | 0, _, _ => EStateM.Commutes.pure _ ()
  | fuel + 1, node, depth => by
    rintro ⟨W, c⟩
    by_cases hc : key node ∈ c
    · rw [trackRelations_succ_of_mem (s := addMarks marks (W, c)) hc,
        trackRelations_succ_of_mem hc]
      rfl
    rcases Bool.eq_false_or_eq_true scopeNone with hnone | hnone
    · rw [trackRelations_succ_of_none (s := addMarks marks (W, c)) hc hnone,
        trackRelations_succ_of_none hc hnone]
      rfl
    · rw [trackRelations_succ_of_walk (s := addMarks marks (W, c)) hc hnone,
        trackRelations_succ_of_walk hc hnone]
      exact EStateM.Commutes.forM
        (fun k _ ↦ relatedStep_commutes marks (trackRelations_commutes marks fuel) node depth k)
        (W, insert (key node) c)

/-- **The walk adds only relation marks**: a property that every mark `mark k` has, and every mark
of the state has, every mark has after the walk, also when it fails. -/
theorem trackRelations_preserves {P : K × AffectedBy → Prop} (hP : ∀ k k', P (k, mark k')) :
    ∀ (fuel : ℕ) (node : N) (depth : ℕ),
      EStateM.Preserves (fun s ↦ ∀ x ∈ s.1, P x)
        (trackRelations key related lookup mark scopeNone scopeDirect fuel node depth)
  | 0, _, _ => EStateM.Preserves.pure _ ()
  | fuel + 1, node, depth => by
    rintro ⟨W, c⟩ hW
    by_cases hc : key node ∈ c
    · rw [trackRelations_succ_of_mem hc]
      exact hW
    rcases Bool.eq_false_or_eq_true scopeNone with hnone | hnone
    · rw [trackRelations_succ_of_none hc hnone]
      exact hW
    rw [trackRelations_succ_of_walk hc hnone]
    refine EStateM.Preserves.forM (I := fun s ↦ ∀ x ∈ s.1, P x) (fun k _ ↦ ?_)
      (W, insert (key node) c) hW
    -- one round marks `k` and walks on, or stops on the lookup's error
    rintro ⟨W', c'⟩ hW'
    have hins : ∀ x ∈ insert (k, mark (key node)) W', P x := by
      intro x hx
      rcases Finset.mem_insert.mp hx with rfl | hx
      · exact hP k (key node)
      · exact hW' x hx
    simp only [relatedStep]
    split_ifs
    · exact hins
    · split
      · exact hins
      · exact trackRelations_preserves hP fuel _ _ _ hins

end Walk

end Moon
