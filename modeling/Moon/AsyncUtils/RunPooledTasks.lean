import Moon.Lib.EState
import Mathlib.Data.Finset.Basic
import Mathlib.Order.Basic

/-!
# Running futures in a pool

`run_pooled_tasks` (`crates/async-utils/src/lib.rs`) turns every input of a queue into a future,
runs at most as many at a time as there are CPUs, and hands each output to `on_output`.  The
futures complete in any order, but the outputs are applied in input order: an output that
completes early waits in the `completed` buffer, keyed by its index, until every output before it
has been applied, and each completion flushes the run of consecutive outputs that is then ready.
The first error — of a future or of `on_output` — ends the run.

The runtime decides in which order the futures complete.  Here that order is a parameter: a list
of input indices, `completion`, which is a permutation of the indices of the inputs.  The
concurrency limit only restricts which permutations can happen, so a result proved for every
permutation holds for every schedule.  The results of the futures are given in input order; both
callers in the affected tracker build their futures with an `on_input` that always succeeds, so
`on_input` itself is not modelled.  `on_output` mutates its caller and may fail, which is what
`EStateM` says: on an error the state is kept as it stood.

**The order promise** (`runPooledTasks_eq_forM`).  When every future succeeds, the run applies the
outputs exactly as a loop over them in input order would, whatever the order of completion.
-/

set_option autoImplicit false

namespace Moon

variable {O S : Type} (onOutput : O → EStateM String S Unit)

/-- The `while let Some(output) = completed.remove(&flush_index)` loop: apply the buffered outputs
from `flushIndex` on while they are there, and return the buffer and the next index to flush.  A
buffer holds outputs of inputs only, so as many rounds as there are inputs are always enough. -/
def flushCompleted : ℕ → (ℕ → Option O) → ℕ → EStateM String S ((ℕ → Option O) × ℕ)
  | 0, completed, flushIndex => pure (completed, flushIndex)
  | fuel + 1, completed, flushIndex =>
    match completed flushIndex with
    | none => pure (completed, flushIndex)
    | some output => do
      onOutput output
      flushCompleted fuel (Function.update completed flushIndex none) (flushIndex + 1)

/-- `run_pooled_tasks`, once the futures are spawned: take the completions in the order given,
buffer each output and flush what is ready; stop at the first error. -/
def runPooledTasks (results : List (Except String O)) :
    List ℕ → (ℕ → Option O) → ℕ → EStateM String S Unit
  | [], _, _ => pure ()
  | index :: completion, completed, flushIndex =>
    match results[index]? with
    | some (.ok output) => do
      let (completed, flushIndex) ←
        flushCompleted onOutput results.length (Function.update completed index (some output))
          flushIndex
      runPooledTasks results completion completed flushIndex
    | some (.error e) => throw e
    | none => runPooledTasks results completion completed flushIndex

/-! ## The order promise -/

section Order

variable {outputs : List O}

/-- The buffer when the indices of `done` have completed and those below `flushIndex` have been
applied. -/
def bufferOf (outputs : List O) (done : Finset ℕ) (flushIndex : ℕ) : ℕ → Option O :=
  fun i ↦ if i ∈ done ∧ flushIndex ≤ i then outputs[i]? else none

theorem bufferOf_apply (outputs : List O) (done : Finset ℕ) (flushIndex i : ℕ) :
    bufferOf outputs done flushIndex i = if i ∈ done ∧ flushIndex ≤ i then outputs[i]? else none :=
  rfl

theorem bufferOf_insert {done : Finset ℕ} {flushIndex index : ℕ} (output : O)
    (houtput : outputs[index]? = some output) (hflush : flushIndex ≤ index) :
    Function.update (bufferOf outputs done flushIndex) index (some output)
      = bufferOf outputs (insert index done) flushIndex := by
  funext i
  by_cases hi : i = index
  · subst hi
    simp [bufferOf_apply, hflush, houtput]
  · simp [bufferOf_apply, Finset.mem_insert, hi]

theorem bufferOf_flush {done : Finset ℕ} {flushIndex : ℕ} :
    Function.update (bufferOf outputs done flushIndex) flushIndex none
      = bufferOf outputs done (flushIndex + 1) := by
  funext i
  by_cases hi : i = flushIndex
  · subst hi
    simp [bufferOf_apply]
  · simp only [bufferOf_apply, Function.update_of_ne hi]
    have : flushIndex ≤ i ↔ flushIndex + 1 ≤ i := by omega
    simp only [this]

/-- **Flushing** a run of `m` ready outputs applies them in order and stops after them. -/
theorem flushCompleted_bufferOf {done : Finset ℕ}
    (hdone : ∀ i ∈ done, i < outputs.length) :
    ∀ (m fuel flushIndex : ℕ), m ≤ fuel →
      (∀ i, flushIndex ≤ i → i < flushIndex + m → i ∈ done) → flushIndex + m ∉ done →
      flushCompleted onOutput fuel (bufferOf outputs done flushIndex) flushIndex
        = (forM ((outputs.drop flushIndex).take m) onOutput >>= fun _ ↦
            pure (bufferOf outputs done (flushIndex + m), flushIndex + m))
  | 0, fuel, flushIndex, _, _, hstop => by
    -- nothing is ready at `flushIndex`
    have hstop' : flushIndex ∉ done := by simpa using hstop
    have hnone : bufferOf outputs done flushIndex flushIndex = none := by
      simp [bufferOf_apply, hstop']
    cases fuel with
    | zero => simp [flushCompleted]
    | succ fuel => simp [flushCompleted, hnone]
  | m + 1, 0, _, hm, _, _ => absurd hm (by omega)
  | m + 1, fuel + 1, flushIndex, hm, hready, hstop => by
    have hmem : flushIndex ∈ done := hready flushIndex le_rfl (by omega)
    have hlt := hdone flushIndex hmem
    have hsome : bufferOf outputs done flushIndex flushIndex = some outputs[flushIndex] := by
      simp [bufferOf_apply, hmem]
    have htake : (outputs.drop flushIndex).take (m + 1)
        = outputs[flushIndex] :: (outputs.drop (flushIndex + 1)).take m := by
      rw [List.drop_eq_getElem_cons hlt, List.take_succ_cons]
    rw [flushCompleted, hsome]
    dsimp only
    rw [bufferOf_flush,
      flushCompleted_bufferOf hdone m fuel (flushIndex + 1) (by omega)
        (fun i h₁ h₂ ↦ hready i (by omega) (by omega)) (by rwa [Nat.add_right_comm]),
      htake, List.forM_cons, bind_assoc, Nat.add_right_comm]
    rfl

/-- The first index from `flushIndex` on that has not completed. -/
theorem exists_flush_end {done : Finset ℕ} {bound : ℕ} (hdone : ∀ i ∈ done, i < bound)
    (flushIndex : ℕ) :
    ∃ m, (∀ i, flushIndex ≤ i → i < flushIndex + m → i ∈ done) ∧ flushIndex + m ∉ done := by
  induction hgap : bound - flushIndex generalizing flushIndex with
  | zero =>
    refine ⟨0, fun i h₁ h₂ ↦ absurd h₂ (by omega), fun h ↦ ?_⟩
    have := hdone _ h
    omega
  | succ k ih =>
    by_cases hin : flushIndex ∈ done
    · obtain ⟨m, hready, hend⟩ := ih (flushIndex + 1) (by omega)
      refine ⟨m + 1, fun i h₁ h₂ ↦ ?_, by rwa [← Nat.add_assoc, Nat.add_right_comm]⟩
      by_cases hi : i = flushIndex
      · exact hi ▸ hin
      · exact hready i (by omega) (by omega)
    · exact ⟨0, fun i h₁ h₂ ↦ absurd h₂ (by omega), hin⟩

/-- The run from any point where the completed indices and the flushed ones are as `bufferOf`
says: it applies the outputs from `flushIndex` on, in order. -/
theorem runPooledTasks_bufferOf (houtputs : ∀ i < outputs.length, ∃ o, outputs[i]? = some o) :
    ∀ (completion : List ℕ) (done : Finset ℕ) (flushIndex : ℕ),
      completion.Nodup → (∀ i ∈ completion, i ∉ done) →
      (∀ i, i ∈ completion ∨ i ∈ done ↔ i < outputs.length) →
      (∀ i < flushIndex, i ∈ done) → flushIndex ∉ done →
      runPooledTasks onOutput (outputs.map .ok) completion (bufferOf outputs done flushIndex)
          flushIndex
        = forM (outputs.drop flushIndex) onOutput
  | [], done, flushIndex, _, _, hall, _, hstop => by
    -- everything has completed, so everything up to the end has been flushed
    have hend : outputs.length ≤ flushIndex := by
      by_contra hlt
      exact hstop (((hall flushIndex).mpr (by omega)).resolve_left (by simp))
    rw [List.drop_eq_nil_of_le hend]
    rfl
  | index :: completion, done, flushIndex, hnodup, hdisj, hall, hbelow, hstop => by
    obtain ⟨hindex, hnodup'⟩ := List.nodup_cons.mp hnodup
    have hlt : index < outputs.length := (hall index).mp (.inl List.mem_cons_self)
    have hnot : index ∉ done := hdisj index List.mem_cons_self
    have hflush : flushIndex ≤ index := by
      by_contra h
      exact hnot (hbelow index (by omega))
    have hget : (outputs.map Except.ok : List (Except String O))[index]?
        = some (.ok outputs[index]) := by simp [hlt]
    set done' := insert index done with hdone'
    have hdone : ∀ i ∈ done', i < outputs.length := fun i hi ↦
      (hall i).mp (by
        rcases Finset.mem_insert.mp hi with rfl | hi
        · exact .inl List.mem_cons_self
        · exact .inr hi)
    obtain ⟨m, hready, hend⟩ := exists_flush_end hdone flushIndex
    have hm : m ≤ (outputs.map Except.ok : List (Except String O)).length := by
      rw [List.length_map]
      rcases Nat.eq_zero_or_pos m with rfl | hpos
      · omega
      · have := hdone _ (hready (flushIndex + m - 1) (by omega) (by omega))
        omega
    rw [runPooledTasks, hget]
    simp only
    rw [bufferOf_insert _ (by simp [hlt]) hflush,
      flushCompleted_bufferOf onOutput hdone m _ flushIndex hm hready hend, bind_assoc]
    simp only [pure_bind]
    rw [runPooledTasks_bufferOf houtputs completion done' (flushIndex + m) hnodup'
      (fun i hi ↦ by
        rw [hdone', Finset.mem_insert, not_or]
        exact ⟨fun h ↦ hindex (h ▸ hi), hdisj i (List.mem_cons_of_mem _ hi)⟩)
      (fun i ↦ by
        rw [← hall i, hdone', Finset.mem_insert, List.mem_cons]
        tauto)
      (fun i hi ↦ by
        by_cases h : i < flushIndex
        · exact Finset.mem_insert_of_mem (hbelow i h)
        · exact hready i (by omega) hi)
      hend, ← List.forM_append, ← List.drop_drop, List.take_append_drop]

/-- **Outputs are applied in input order**, whatever the order in which the futures complete:
when every future succeeds, the pool is a loop over the outputs. -/
theorem runPooledTasks_eq_forM (outputs : List O) {completion : List ℕ}
    (hperm : completion.Perm (List.range outputs.length)) :
    runPooledTasks onOutput (outputs.map .ok) completion (fun _ ↦ none) 0
      = forM outputs onOutput := by
  have hempty : (fun _ ↦ none : ℕ → Option O) = bufferOf outputs ∅ 0 := by
    funext i
    simp [bufferOf_apply]
  rw [hempty, runPooledTasks_bufferOf onOutput (fun i hi ↦ ⟨_, List.getElem?_eq_getElem hi⟩)
    completion ∅ 0 (hperm.nodup_iff.mpr List.nodup_range) (by simp)
    (fun i ↦ by simp [hperm.mem_iff]) (by simp) (by simp), List.drop_zero]

end Order

/-! ## Success -/

/-- A run that succeeds met no failed future among the completions it took. -/
theorem runPooledTasks_ok_not_error {results : List (Except String O)} :
    ∀ {completion : List ℕ} {completed : ℕ → Option O} {flushIndex : ℕ} {s s' : S} {a : Unit},
      runPooledTasks onOutput results completion completed flushIndex s = .ok a s' →
      ∀ k ∈ completion, ∀ e, results[k]? ≠ some (.error e)
  | [], _, _, _, _, _, _, k, hk => by cases hk
  | index :: completion, completed, flushIndex, s, s', a, h, k, hk => by
    have hhead : ∀ e, results[index]? ≠ some (.error e) := by
      intro e he
      rw [runPooledTasks, he] at h
      cases h
    -- the rest of the run succeeded too, after the flush when there was one
    have hrest : ∃ completed' flushIndex' s₁,
        runPooledTasks onOutput results completion completed' flushIndex' s₁ = .ok a s' := by
      rcases hresult : results[index]? with _ | (e | output)
      · rw [runPooledTasks, hresult] at h
        exact ⟨_, _, _, h⟩
      · exact absurd hresult (hhead e)
      · rw [runPooledTasks, hresult] at h
        obtain ⟨⟨completed', flushIndex'⟩, s₁, -, hrest⟩ := EStateM.bind_eq_ok h
        exact ⟨completed', flushIndex', s₁, hrest⟩
    obtain ⟨completed', flushIndex', s₁, hrest⟩ := hrest
    rcases List.mem_cons.mp hk with rfl | hk
    · exact hhead
    · exact runPooledTasks_ok_not_error hrest k hk

/-- A list of results none of which failed is a list of outputs. -/
theorem exists_map_ok {results : List (Except String O)} (h : ∀ r ∈ results, ∀ e, r ≠ .error e) :
    ∃ outputs : List O, results = outputs.map .ok := by
  induction results with
  | nil => exact ⟨[], rfl⟩
  | cons r rest ih =>
    obtain ⟨outputs, houtputs⟩ := ih fun r' hr' ↦ h r' (List.mem_cons_of_mem r hr')
    cases r with
    | error e => exact absurd rfl (h _ List.mem_cons_self e)
    | ok output => exact ⟨output :: outputs, by rw [houtputs, List.map_cons]⟩

/-- **A run over every completion succeeds only if every future did.** -/
theorem exists_outputs_of_runPooledTasks_ok {results : List (Except String O)}
    {completion : List ℕ} (hperm : completion.Perm (List.range results.length)) {s s' : S}
    {a : Unit} (h : runPooledTasks onOutput results completion (fun _ ↦ none) 0 s = .ok a s') :
    ∃ outputs : List O, results = outputs.map .ok := by
  refine exists_map_ok fun r hr e he ↦ ?_
  obtain ⟨k, hk, hkr⟩ := List.getElem_of_mem hr
  have hmem : k ∈ completion := hperm.mem_iff.mpr (List.mem_range.mpr hk)
  exact runPooledTasks_ok_not_error onOutput h k hmem e (by rw [List.getElem?_eq_getElem hk, hkr, he])

/-- Apply the output of a future, or end the run with its error. -/
def applyResult (result : Except String O) : EStateM String S Unit :=
  match result with
  | .ok output => onOutput output
  | .error e => throw e

/-- The loop the pool stands for: every input in turn, its output applied, the first error ending
the run. -/
def runSequentially (results : List (Except String O)) : EStateM String S Unit :=
  forM results (applyResult onOutput)

theorem runSequentially_map_ok (outputs : List O) :
    runSequentially onOutput (outputs.map .ok) = forM outputs onOutput := by
  rw [runSequentially, List.forM_map]
  rfl

theorem runSequentially_ok_not_error :
    ∀ {results : List (Except String O)} {s s' : S},
      runSequentially onOutput results s = .ok () s' → ∀ r ∈ results, ∀ e, r ≠ .error e
  | [], _, _, _, r, hr => by cases hr
  | result :: results, s, s', h, r, hr => by
    rw [runSequentially, List.forM_cons] at h
    obtain ⟨⟨⟩, s₁, hfirst, hrest⟩ := EStateM.bind_eq_ok h
    intro e he
    rcases List.mem_cons.mp hr with rfl | hr
    · rw [he] at hfirst
      cases hfirst
    · exact runSequentially_ok_not_error hrest r hr e he

/-- **On success the pool is the sequential loop**: a run over every completion succeeds exactly
when the loop over the results in input order does, and into the same state. -/
theorem runPooledTasks_ok_iff {results : List (Except String O)} {completion : List ℕ}
    (hperm : completion.Perm (List.range results.length)) (s s' : S) :
    runPooledTasks onOutput results completion (fun _ ↦ none) 0 s = .ok () s' ↔
      runSequentially onOutput results s = .ok () s' := by
  by_cases hall : ∀ r ∈ results, ∀ e, r ≠ .error e
  · obtain ⟨outputs, rfl⟩ := exists_map_ok hall
    rw [List.length_map] at hperm
    rw [runPooledTasks_eq_forM onOutput outputs hperm, runSequentially_map_ok]
  constructor
  · intro h
    obtain ⟨outputs, houtputs⟩ := exists_outputs_of_runPooledTasks_ok onOutput hperm h
    refine absurd (fun r hr e he ↦ ?_) hall
    rw [houtputs] at hr
    obtain ⟨o, -, rfl⟩ := List.mem_map.mp hr
    cases he
  · intro h
    exact absurd (runSequentially_ok_not_error onOutput h) hall

end Moon
