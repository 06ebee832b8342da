import Mathlib.Data.List.Basic
import Mathlib.Tactic.Ring

/-!
# Splitting the requested tasks across CI jobs

`ActionGraphBuilder::run_tasks` (`crates/action-graph/src/action_graph_builder.rs`) can run one job
of several: given `job` and `job_total`, it keeps a slice of the task list and builds the graph of
that slice only.  Every job computes the same `size = ⌈n / job_total⌉` for a list of `n` tasks,
and job `i` starts at `size * i`: the first job stops at `size`, a middle job at `size * (i + 1)`,
and the last one runs to the end of the list (`jobBounds`).  The slice is then guarded by two
lookups: `tasks.get(stop)` turns a stop past the end into "to the end", and `tasks.get(start)`
decides whether anything is sliced at all (`sliceTasks`).

When `size * (job_total - 1) < n`, or the list is empty, every job starts inside the list, each
takes the `size` tasks from its start (`sliceTasks_jobBounds`), and the jobs in order give back
the list (`flatMap_jobSlice`).  Otherwise the last job starts past the end, the second guard keeps
the list unsliced, and that job runs every task (`jobSlice_last_of_le`): four tasks over three jobs
are run as `[t₁, t₂]`, `[t₃, t₄]` and `[t₁, t₂, t₃, t₄]`.  So the jobs split the list exactly when
that condition holds (`flatMap_jobSlice_eq_iff`).

`ActionGraphError` is the builder's error type, with the texts it displays.
-/

set_option autoImplicit false

namespace Moon

/-- `ActionGraphError`. -/
inductive ActionGraphError where
  | cycleDetected (label : String)
  | invalidJobIndex (index total : ℕ)
  | invalidPlanJobs
  | missingToolchainRequirement (id depId : String)
  | mismatchedPlanJobTotals (planTotal total : ℕ)
  | wouldCycle (sourceAction targetAction : String)
  deriving DecidableEq, Repr

/-- The message each variant displays, without its styling. -/
def ActionGraphError.message : ActionGraphError → String
  | .cycleDetected label => "A dependency cycle has been detected for " ++ label ++ "."
  | .invalidJobIndex index total =>
    "An invalid job index was provided. Received " ++ toString index ++
      " but the total number of jobs is " ++ toString total ++ "."
  | .invalidPlanJobs =>
    "An execution plan was provided with task targets partitioned across jobs, but the " ++
      "pipeline has not been configured for parallelism. Please pass the --job and " ++
      "--job-total options, or define them in the plan."
  | .missingToolchainRequirement id depId =>
    "Toolchain " ++ id ++ " requires the toolchain " ++ depId ++ ", but it has not been configured!"
  | .mismatchedPlanJobTotals planTotal total =>
    "An execution plan was provided with task targets partitioned across " ++ toString planTotal ++
      " jobs, but the pipeline has been configured for " ++ toString total ++ " jobs."
  | .wouldCycle sourceAction targetAction =>
    "Unable to create action graph, adding a relationship from action " ++ sourceAction ++ " to " ++
      targetAction ++ " would introduce a cycle."

/-! ## The slice of one job -/

/-- `usize::div_ceil`: the number of tasks per job. -/
def jobSize (len jobTotal : ℕ) : ℕ :=
  if len % jobTotal > 0 then len / jobTotal + 1 else len / jobTotal

/-- The `(start, stop)` that `run_tasks` computes for job `jobIndex` of `jobTotal` over `len`
tasks: the first job from `0`, the last one to `len`, a middle one over `size` tasks. -/
def jobBounds (len jobIndex jobTotal : ℕ) : ℕ × ℕ :=
  let size := jobSize len jobTotal
  if jobIndex = 0 then (0, size)
  else if jobIndex = jobTotal - 1 then (size * jobIndex, len)
  else (size * jobIndex, size * (jobIndex + 1))

/-- The guarded slice: `tasks[start..stop]` when both bounds are in range, `tasks[start..]` when
only `start` is, and the whole list when `start` is not.  Where `start` and `stop` are both in
range, `start ≤ stop` for every bound `jobBounds` gives, so the slice does not panic. -/
def sliceTasks {α : Type} (tasks : List α) (bounds : ℕ × ℕ) : List α :=
  if bounds.1 < tasks.length then
    if bounds.2 < tasks.length then (tasks.drop bounds.1).take (bounds.2 - bounds.1)
    else tasks.drop bounds.1
  else tasks

/-- The tasks job `jobIndex` of `jobTotal` keeps. -/
def jobSlice {α : Type} (tasks : List α) (jobIndex jobTotal : ℕ) : List α :=
  sliceTasks tasks (jobBounds tasks.length jobIndex jobTotal)

/-- The job part of `run_tasks` after the affected filter: an index past the last job is an
error; otherwise the kept slice, with the size the partition reports. -/
def partitionTasks {α : Type} (tasks : List α) (jobIndex jobTotal : ℕ) :
    Except ActionGraphError (List α × ℕ) :=
  if jobIndex > jobTotal - 1 then .error (.invalidJobIndex jobIndex jobTotal)
  else .ok (jobSlice tasks jobIndex jobTotal, jobSize tasks.length jobTotal)

/-! ## Arithmetic of the job size -/

section Size

variable {len jobTotal : ℕ}

/-- `div_ceil` is the least multiple count that covers the list. -/
theorem jobSize_mul_ge (hT : 0 < jobTotal) : len ≤ jobSize len jobTotal * jobTotal := by
  have hdiv := Nat.div_add_mod len jobTotal
  have hlt := Nat.mod_lt len hT
  unfold jobSize
  split_ifs with hmod
  · rw [Nat.succ_mul, Nat.mul_comm]
    omega
  · rw [Nat.mul_comm]
    omega

theorem jobSize_pos (hlen : 0 < len) (hT : 0 < jobTotal) : 0 < jobSize len jobTotal := by
  have hcover : len ≤ jobSize len jobTotal * jobTotal := jobSize_mul_ge hT
  rcases Nat.eq_zero_or_pos (jobSize len jobTotal) with hzero | hpos
  · rw [hzero, Nat.zero_mul] at hcover
    omega
  · exact hpos

end Size

/-! ## When every job starts inside the list -/

section Split

variable {α : Type}

/-- Consecutive chunks of `size` give back the first `size * count` elements. -/
theorem flatMap_range_chunks (l : List α) (size : ℕ) :
    ∀ count, (List.range count).flatMap (fun j ↦ (l.drop (size * j)).take size)
      = l.take (size * count)
  | 0 => by simp
  | count + 1 => by
    rw [List.range_succ, List.flatMap_append, flatMap_range_chunks l size count,
      List.flatMap_singleton, Nat.mul_succ, List.take_add]

/-- A slice that starts inside the list is `tasks[start..stop]`, clipped at the end. -/
theorem sliceTasks_of_lt {tasks : List α} {start stop : ℕ} (hstart : start < tasks.length) :
    sliceTasks tasks (start, stop) = (tasks.drop start).take (stop - start) := by
  unfold sliceTasks
  rw [if_pos hstart]
  split_ifs with hstop
  · rfl
  · exact (List.take_of_length_le (by rw [List.length_drop]; omega)).symm

/-- Every job starts at `size * jobIndex`; it stops `size` later, or at the end if it is the last
one. -/
theorem jobBounds_cases (len jobIndex jobTotal : ℕ) :
    jobBounds len jobIndex jobTotal
        = (jobSize len jobTotal * jobIndex, jobSize len jobTotal * jobIndex + jobSize len jobTotal)
      ∨ jobIndex = jobTotal - 1
        ∧ jobBounds len jobIndex jobTotal = (jobSize len jobTotal * jobIndex, len) := by
  unfold jobBounds
  dsimp only
  split_ifs with h0 hlast
  · subst h0
    simp
  · exact .inr ⟨hlast, rfl⟩
  · left
    rw [Nat.mul_succ]

theorem jobBounds_zero (len jobTotal : ℕ) :
    jobBounds len 0 jobTotal = (0, jobSize len jobTotal) := by
  unfold jobBounds
  simp

theorem jobBounds_last {len jobTotal : ℕ} (hT : 2 ≤ jobTotal) :
    jobBounds len (jobTotal - 1) jobTotal = (jobSize len jobTotal * (jobTotal - 1), len) := by
  unfold jobBounds
  dsimp only
  rw [if_neg (by omega), if_pos rfl]

/-- **Each job takes the `size` tasks from its start** when the last job starts inside the list
(or there is nothing to split). -/
theorem sliceTasks_jobBounds {tasks : List α} {jobIndex jobTotal : ℕ}
    (hj : jobIndex < jobTotal)
    (hcond : tasks.length = 0 ∨ jobSize tasks.length jobTotal * (jobTotal - 1) < tasks.length) :
    jobSlice tasks jobIndex jobTotal
      = (tasks.drop (jobSize tasks.length jobTotal * jobIndex)).take
          (jobSize tasks.length jobTotal) := by
  set size := jobSize tasks.length jobTotal with hsize
  rcases hcond with hnil | hlast
  · -- an empty list is kept whole, and every chunk of it is empty
    rw [List.length_eq_zero_iff] at hnil
    subst hnil
    unfold jobSlice sliceTasks
    simp
  -- every job starts inside the list, and the list ends within `size` of the last start
  have hstart : size * jobIndex < tasks.length :=
    lt_of_le_of_lt (Nat.mul_le_mul_left size (by omega)) hlast
  have hcover : tasks.length ≤ size * jobTotal := jobSize_mul_ge (by omega)
  unfold jobSlice
  rcases jobBounds_cases tasks.length jobIndex jobTotal with hmid | ⟨hidx, hend⟩
  · rw [hmid, sliceTasks_of_lt hstart, Nat.add_sub_cancel_left]
  · -- the last job runs to the end, which is at most `size` away
    have hrest : (tasks.drop (size * jobIndex)).length ≤ size := by
      rw [List.length_drop]
      have hsucc : jobIndex + 1 = jobTotal := by omega
      rw [← hsucc, Nat.mul_succ] at hcover
      omega
    rw [hend, sliceTasks_of_lt hstart, List.take_of_length_le (by rw [List.length_drop]),
      List.take_of_length_le hrest]

/-- **The jobs in order give back the list** when the last job starts inside it. -/
theorem flatMap_jobSlice {tasks : List α} {jobTotal : ℕ} (hT : 0 < jobTotal)
    (hcond : tasks.length = 0 ∨ jobSize tasks.length jobTotal * (jobTotal - 1) < tasks.length) :
    (List.range jobTotal).flatMap (jobSlice tasks · jobTotal) = tasks := by
  have hslices : ∀ j ∈ List.range jobTotal, jobSlice tasks j jobTotal
      = (tasks.drop (jobSize tasks.length jobTotal * j)).take (jobSize tasks.length jobTotal) :=
    fun j hj ↦ sliceTasks_jobBounds (List.mem_range.1 hj) hcond
  rw [List.flatMap_congr hslices, flatMap_range_chunks]
  exact List.take_of_length_le (jobSize_mul_ge hT)

end Split

/-! ## When the last job starts past the end -/

section Overlap

variable {α : Type}

/-- **The last job runs every task** when its start is past the end of a nonempty list. -/
theorem jobSlice_last_of_le {tasks : List α} {jobTotal : ℕ} (hT : 2 ≤ jobTotal)
    (hlast : tasks.length ≤ jobSize tasks.length jobTotal * (jobTotal - 1)) :
    jobSlice tasks (jobTotal - 1) jobTotal = tasks := by
  unfold jobSlice
  rw [jobBounds_last hT]
  unfold sliceTasks
  rw [if_neg (not_lt.2 hlast)]

/-- The first job of a nonempty list runs at least one task. -/
theorem jobSlice_first_ne_nil {tasks : List α} {jobTotal : ℕ} (hT : 0 < jobTotal)
    (hne : tasks ≠ []) : jobSlice tasks 0 jobTotal ≠ [] := by
  have hlen : 0 < tasks.length := List.length_pos_iff.2 hne
  have hsize := jobSize_pos hlen hT
  unfold jobSlice
  rw [jobBounds_zero, sliceTasks_of_lt hlen, List.drop_zero, Nat.sub_zero]
  intro hnil
  rcases List.take_eq_nil_iff.1 hnil with hzero | hempty
  · omega
  · exact hne hempty

/-- **The jobs split the list exactly when the last one starts inside it**, or the list is
empty. -/
theorem flatMap_jobSlice_eq_iff (tasks : List α) {jobTotal : ℕ} (hT : 0 < jobTotal) :
    (List.range jobTotal).flatMap (jobSlice tasks · jobTotal) = tasks
      ↔ tasks.length = 0 ∨ jobSize tasks.length jobTotal * (jobTotal - 1) < tasks.length := by
  refine ⟨fun hsplit ↦ ?_, flatMap_jobSlice hT⟩
  by_contra hnot
  obtain ⟨hne, hlast⟩ := not_or.1 hnot
  replace hlast := not_lt.1 hlast
  have hT2 : 2 ≤ jobTotal := by
    by_contra h
    have hone : jobTotal = 1 := by omega
    rw [hone, Nat.sub_self, Nat.mul_zero] at hlast
    omega
  -- the last job alone holds the whole list, and the first one holds more
  obtain ⟨m, rfl⟩ : ∃ m, jobTotal = m + 1 := ⟨jobTotal - 1, by omega⟩
  have hlastEq : jobSlice tasks m (m + 1) = tasks := by
    simpa using jobSlice_last_of_le hT2 hlast
  have hfirst : 0 < (jobSlice tasks 0 (m + 1)).length :=
    List.length_pos_iff.2 (jobSlice_first_ne_nil hT (List.ne_nil_of_length_pos (by omega)))
  have hrest : (jobSlice tasks 0 (m + 1)).length
      ≤ ((List.range m).flatMap (jobSlice tasks · (m + 1))).length := by
    obtain ⟨k, rfl⟩ : ∃ k, m = k + 1 := ⟨m - 1, by omega⟩
    rw [List.range_succ_eq_map, List.flatMap_cons, List.length_append]
    exact Nat.le_add_right _ _
  have hlen := congrArg List.length hsplit
  rw [List.range_succ, List.flatMap_append, List.flatMap_singleton, List.length_append,
    hlastEq] at hlen
  omega

/-- Four tasks over three jobs: the slices are two tasks each, the last job starts at the end,
and it runs all four again. -/
theorem four_tasks_over_three_jobs_overlap :
    (List.range 3).map (partitionTasks [1, 2, 3, 4] · 3)
      = [.ok ([1, 2], 2), .ok ([3, 4], 2), .ok ([1, 2, 3, 4], 2)] := rfl

end Overlap

end Moon
