import Moon.AsyncUtils.RunPooledTasks
import Moon.Lib.Machine

/-!
# The loop of `run_pooled_tasks`, round by round

`Moon.AsyncUtils.RunPooledTasks` takes the futures as spawned all at once and lets them complete in
any order.  This file follows the loop of `crates/async-utils/src/lib.rs` itself.  Each round

1. pops the next input, if there is one, and turns it into a future with `on_input` (an error ends
   the run), spawning it into the `JoinSet` under the next index;
2. goes back to 1 while the set holds fewer than `concurrency` futures and inputs are left;
3. otherwise waits for *some* future of the set to complete — `join_next`, whose choice is the
   runtime's — and breaks out of the loop when the set is empty;
4. buffers a successful output under its index, and flushes to `on_output` the run of buffered
   outputs that starts at `flush_index`; a failed future, or a failed `on_output`, ends the run.

The runtime's choice makes a round a relation, `Step` when the loop goes on and `Stop` when it
returns.  A future is taken as the result it will complete with: `on_input` gives it, and it is
the same whatever happens meanwhile.  `on_output` changes the state of its caller and may fail, in
`EStateM`.

* `runPooledTasks_returns_forM`: when every future succeeds, every run returns what the loop
  `for output in outputs { on_output(output)? }` over the outputs in input order returns.
  `runPooledTasks_refines` says the same against the completion-order model.
* `runPooledTasks_error`: a run that fails has applied the outputs of a prefix of the inputs, in
  order, and at most tried the next.
* `set_length_of_reachable`: no more than `concurrency` futures are ever in flight.
* `acc_init`, `progress` and `exists_runPooledTasks`: no run goes on forever, none is stuck, and
  some run returns.

All of it rests on one invariant, `Tracked`, kept by spawning (`Tracked.spawn`) and by joining
(`Tracked.join`), whose flush is `flushCompleted_ok`.
-/

set_option autoImplicit false

namespace Moon

namespace PooledTasks

/-- The loop's variables: the inputs not yet taken, the `JoinSet` of spawned futures with their
indices, `next_index`, `flush_index`, and the `completed` buffer. -/
structure Pool (I O : Type) where
  queue : List I
  set : List (ℕ × Except String O)
  nextIndex : ℕ
  flushIndex : ℕ
  completed : ℕ → Option O

/-- The variables before the first round. -/
def Pool.init {I O : Type} (inputs : List I) : Pool I O := ⟨inputs, [], 0, 0, fun _ ↦ none⟩

section Loop

variable {I O S : Type} (concurrency : ℕ) (onInput : I → Except String (Except String O))
  (onOutput : O → EStateM String S Unit)

/-- Step 1: pop an input and spawn its future, or leave everything as it is when none is left. -/
def spawn (p : Pool I O) : Except String (Pool I O) :=
  match p.queue with
  | [] => .ok p
  | input :: queue =>
    match onInput input with
    | .ok future =>
      .ok { p with queue, set := p.set ++ [(p.nextIndex, future)], nextIndex := p.nextIndex + 1 }
    | .error e => .error e

/-- Step 2: `set.len() < concurrency && !queue.is_empty()`. -/
def keepSpawning (p : Pool I O) : Bool := decide (p.set.length < concurrency) && !p.queue.isEmpty

/-- Step 4, for the future of `index` that completed with `result`, already out of the set.  The
flush loop runs until the buffer has no output at `flush_index`; every buffered index is below
`next_index`, so that many rounds are enough (`flushCompleted_ok`). -/
def join (p : Pool I O) (index : ℕ) (result : Except String O) : EStateM String S (Pool I O) :=
  match result with
  | .ok output => do
    let (completed, flushIndex) ←
      flushCompleted onOutput p.nextIndex (Function.update p.completed index (some output))
        p.flushIndex
    pure { p with completed, flushIndex }
  | .error e => throw e

/-- A round after which the loop goes on: it spawned and continues, or it joined a future that the
runtime chose, and applied what was ready. -/
inductive Step : Pool I O × S → Pool I O × S → Prop
  | spawnMore {p p' : Pool I O} {s : S} :
      spawn onInput p = .ok p' → keepSpawning concurrency p' = true → Step (p, s) (p', s)
  | join {p p' p'' : Pool I O} {s s' : S} {pre post : List (ℕ × Except String O)} {index : ℕ}
      {result : Except String O} :
      spawn onInput p = .ok p' → keepSpawning concurrency p' = false →
      p'.set = pre ++ (index, result) :: post →
      join onOutput { p' with set := pre ++ post } index result s = .ok p'' s' → Step (p, s) (p'', s')

/-- A round that returns: an input refused, an empty set, or an error met when joining. -/
inductive Stop : Pool I O × S → EStateM.Result String S Unit → Prop
  | inputError {p : Pool I O} {s : S} {e : String} :
      spawn onInput p = .error e → Stop (p, s) (.error e s)
  | empty {p p' : Pool I O} {s : S} :
      spawn onInput p = .ok p' → keepSpawning concurrency p' = false → p'.set = [] →
      Stop (p, s) (.ok () s)
  | joinError {p p' : Pool I O} {s s' : S} {pre post : List (ℕ × Except String O)} {index : ℕ}
      {result : Except String O} {e : String} :
      spawn onInput p = .ok p' → keepSpawning concurrency p' = false →
      p'.set = pre ++ (index, result) :: post →
      join onOutput { p' with set := pre ++ post } index result s = .error e s' →
      Stop (p, s) (.error e s')

/-- What `run_pooled_tasks(inputs, on_input, on_output)` can return, from the state `s`. -/
def RunPooledTasks (inputs : List I) (s : S) (x : EStateM.Result String S Unit) : Prop :=
  Machine.Returns (Step concurrency onInput onOutput) (Stop concurrency onInput onOutput)
    (Pool.init inputs, s) x

end Loop

/-! ## One round -/

section Round

variable {I O S : Type} {concurrency : ℕ} {onInput : I → Except String (Except String O)}
  {onOutput : O → EStateM String S Unit}

/-- **What spawning does**: nothing when no input is left, and otherwise the future of the first
input under the next index. -/
theorem spawn_eq_ok {p p' : Pool I O} (h : spawn onInput p = .ok p') :
    (p.queue = [] ∧ p' = p) ∨
      ∃ input queue future, p.queue = input :: queue ∧ onInput input = .ok future ∧
        p' = { p with queue, set := p.set ++ [(p.nextIndex, future)], nextIndex := p.nextIndex + 1 } := by
  unfold spawn at h
  split at h
  · next hq =>
    cases h
    exact .inl ⟨hq, rfl⟩
  · next input queue hq =>
    split at h
    · next future hfuture =>
      cases h
      exact .inr ⟨input, queue, future, hq, hfuture, rfl⟩
    · cases h

theorem spawn_eq_error {p : Pool I O} {e : String} (h : spawn onInput p = .error e) :
    ∃ input queue, p.queue = input :: queue ∧ onInput input = .error e := by
  unfold spawn at h
  split at h
  · cases h
  · next input queue hq =>
    split at h
    · cases h
    · next e' he =>
      cases h
      exact ⟨input, queue, hq, he⟩

/-- An empty set after spawning means that nothing was left to spawn. -/
theorem queue_eq_nil_of_spawn {p p' : Pool I O} (h : spawn onInput p = .ok p') (hset : p'.set = []) :
    p'.queue = [] := by
  rcases spawn_eq_ok h with ⟨hq, rfl⟩ | ⟨input, queue, future, -, -, rfl⟩
  · exact hq
  · simp at hset

/-- Joining applies outputs and touches neither the inputs nor the set. -/
theorem join_eq_ok {p p' : Pool I O} {index : ℕ} {result : Except String O} {s s' : S}
    (h : join onOutput p index result s = .ok p' s') :
    ∃ output completed flushIndex, result = .ok output ∧
      flushCompleted onOutput p.nextIndex (Function.update p.completed index (some output))
        p.flushIndex s = .ok (completed, flushIndex) s' ∧
      p' = { p with completed, flushIndex } := by
  unfold join at h
  split at h
  · next output =>
    obtain ⟨⟨completed, flushIndex⟩, s₁, hflush, hpure⟩ := EStateM.bind_eq_ok h
    cases hpure
    exact ⟨output, completed, flushIndex, rfl, hflush, rfl⟩
  · cases h

theorem join_eq_error {p : Pool I O} {index : ℕ} {result : Except String O} {s s' : S} {e : String}
    (h : join onOutput p index result s = .error e s') :
    (result = .error e ∧ s' = s) ∨
      ∃ output, result = .ok output ∧
        flushCompleted onOutput p.nextIndex (Function.update p.completed index (some output))
          p.flushIndex s = .error e s' := by
  cases result with
  | ok output =>
    unfold join at h
    dsimp only at h
    -- the flush failed: had it succeeded, so would the join
    cases hflush : flushCompleted onOutput p.nextIndex (Function.update p.completed index (some output))
        p.flushIndex s with
    | ok r s₁ =>
      rw [EStateM.bind_of_ok hflush] at h
      cases h
    | error e' s₁ =>
      rw [EStateM.bind_of_error hflush] at h
      cases h
      exact .inr ⟨output, rfl, hflush⟩
  | error e' =>
    cases h
    exact .inl ⟨rfl, rfl⟩

/-- **No round is stuck**: every configuration steps or returns. -/
theorem progress (c : Pool I O × S) :
    (∃ c', Step concurrency onInput onOutput c c') ∨ ∃ x, Stop concurrency onInput onOutput c x := by
  obtain ⟨p, s⟩ := c
  cases hspawn : spawn onInput p with
  | error e => exact .inr ⟨_, .inputError hspawn⟩
  | ok p' =>
    cases hmore : keepSpawning concurrency p'
    · -- `join_next`: the runtime may hand back any future of the set, the first one for instance
      cases hset : p'.set with
      | nil => exact .inr ⟨_, .empty hspawn hmore hset⟩
      | cons first rest =>
        have hsplit : p'.set = [] ++ (first.1, first.2) :: rest := hset
        cases hjoin : join onOutput { p' with set := [] ++ rest } first.1 first.2 s with
        | ok p'' s' => exact .inl ⟨_, .join hspawn hmore hsplit hjoin⟩
        | error e s' => exact .inr ⟨_, .joinError hspawn hmore hsplit hjoin⟩
    · exact .inl ⟨_, .spawnMore hspawn hmore⟩

/-- Twice the inputs left and the futures in flight: each round takes an input or joins a
future. -/
def measure (c : Pool I O × S) : ℕ := 2 * c.1.queue.length + c.1.set.length

theorem measure_spawn {p p' : Pool I O} (h : spawn onInput p = .ok p') (s : S) :
    measure (p', s) ≤ measure (p, s) ∧ (p.queue ≠ [] → measure (p', s) < measure (p, s)) := by
  rcases spawn_eq_ok h with ⟨hq, rfl⟩ | ⟨input, queue, future, hq, -, rfl⟩
  · exact ⟨le_rfl, fun hne ↦ absurd hq hne⟩
  · simp only [measure, hq, List.length_cons, List.length_append, List.length_nil]
    omega

/-- **Every round lowers the measure.** -/
theorem measure_lt_of_step {c c' : Pool I O × S} (h : Step concurrency onInput onOutput c c') :
    measure c' < measure c := by
  cases h with
  | @spawnMore p p' s hspawn hmore =>
    -- spawning more needs an input left, so one was taken
    have hne : p.queue ≠ [] := by
      rintro hq
      rcases spawn_eq_ok hspawn with ⟨-, rfl⟩ | ⟨_, _, _, hq', -, -⟩
      · simp [keepSpawning, hq] at hmore
      · simp [hq] at hq'
    exact (measure_spawn hspawn s).2 hne
  | @join p p' p'' s s' pre post index result hspawn _ hset hjoin =>
    obtain ⟨-, completed, flushIndex, -, -, rfl⟩ := join_eq_ok hjoin
    have hle := (measure_spawn hspawn s).1
    simp only [measure, hset, List.length_append, List.length_cons] at hle ⊢
    omega

end Round

/-! ## The buffer and the flush -/

section Flush

variable {I O S : Type} (onInput : I → Except String (Except String O))

/-- The output of an input whose future succeeds. -/
def outputOf (input : I) : Option O :=
  match onInput input with
  | .ok (.ok output) => some output
  | _ => none

/-- The output of the input at `j`, when its future succeeds. -/
def outputAt (inputs : List I) (j : ℕ) : Option O := inputs[j]?.bind (outputOf onInput)

/-- The outputs of the first `k` inputs, in order. -/
def appliedOutputs (inputs : List I) (k : ℕ) : List O := (inputs.take k).filterMap (outputOf onInput)

variable {onInput} {inputs : List I} {onOutput : O → EStateM String S Unit} {s₀ : S}

theorem appliedOutputs_succ {k : ℕ} {o : O} (h : outputAt onInput inputs k = some o) :
    appliedOutputs onInput inputs (k + 1) = appliedOutputs onInput inputs k ++ [o] := by
  obtain ⟨input, hinput, hout⟩ := Option.bind_eq_some_iff.1 h
  simp [appliedOutputs, List.take_add_one, hinput, hout]

/-- Applying the outputs of one input more is applying its output after the others. -/
theorem forM_appliedOutputs_succ {k : ℕ} {o : O} {s : S} (h : outputAt onInput inputs k = some o)
    (happlied : forM (appliedOutputs onInput inputs k) onOutput s₀ = .ok ⟨⟩ s) :
    forM (appliedOutputs onInput inputs (k + 1)) onOutput s₀ = onOutput o s := by
  rw [appliedOutputs_succ h, EStateM.forM_append_singleton happlied]

/-- The outputs of the first `k` inputs, when each of them succeeded: one for each, in order. -/
theorem appliedOutputs_spec : ∀ (k : ℕ), (∀ j < k, (outputAt onInput inputs j).isSome) →
    (appliedOutputs onInput inputs k).length = k ∧
      ∀ j (hj : j < (appliedOutputs onInput inputs k).length),
        outputAt onInput inputs j = some (appliedOutputs onInput inputs k)[j]
  | 0, _ => ⟨by simp [appliedOutputs], fun j hj ↦ by simp [appliedOutputs] at hj⟩
  | k + 1, hsome => by
    obtain ⟨o, ho⟩ := Option.isSome_iff_exists.1 (hsome k (Nat.lt_succ_self k))
    obtain ⟨hlen, hget⟩ := appliedOutputs_spec k fun j hj ↦ hsome j (by omega)
    rw [appliedOutputs_succ ho]
    refine ⟨by simp [hlen], fun j hj ↦ ?_⟩
    rw [List.length_append, List.length_singleton] at hj
    by_cases hjk : j < (appliedOutputs onInput inputs k).length
    · rw [List.getElem_append_left hjk]
      exact hget j hjk
    · -- the last one is the output of `k`
      have hj' : j = (appliedOutputs onInput inputs k).length := by omega
      rw [List.getElem_concat_length hj', hj', hlen]
      exact ho

/-- The outputs of every input, when the first `k` were applied and `on_output` failed on the
output of `k`: the loop over them fails there too. -/
theorem forM_filterMap_of_error {k : ℕ} {o : O} {sk s' : S} {e : String}
    (happlied : forM (appliedOutputs onInput inputs k) onOutput s₀ = .ok ⟨⟩ sk)
    (hout : outputAt onInput inputs k = some o) (hfail : onOutput o sk = .error e s') :
    forM (inputs.filterMap (outputOf onInput)) onOutput s₀ = .error e s' := by
  have hfirst : forM (appliedOutputs onInput inputs (k + 1)) onOutput s₀ = .error e s' :=
    (forM_appliedOutputs_succ hout happlied).trans hfail
  rw [← List.take_append_drop (k + 1) inputs, List.filterMap_append, List.forM_append]
  exact EStateM.bind_of_error hfirst

/-- A buffer with nothing below `f` is itself with everything below `f` cleared. -/
theorem buffer_eq_clear {completed : ℕ → Option O} {f : ℕ}
    (h : ∀ j o, completed j = some o → f ≤ j) :
    completed = fun j ↦ if j < f then none else completed j := by
  funext j
  split
  · next hj =>
    cases hc : completed j with
    | none => rfl
    | some o => exact absurd (h j o hc) (by omega)
  · rfl

/-- The buffer after its entry at `f` is flushed. -/
theorem update_buffer_spec {completed : ℕ → Option O} {f N : ℕ}
    (hcomp : ∀ j o, completed j = some o → f ≤ j ∧ j < N ∧ outputAt onInput inputs j = some o) :
    ∀ j o, Function.update completed f none j = some o →
      f + 1 ≤ j ∧ j < N ∧ outputAt onInput inputs j = some o := by
  intro j o hj
  have hne : j ≠ f := by
    rintro rfl
    simp at hj
  rw [Function.update_of_ne hne] at hj
  obtain ⟨h₁, h₂, h₃⟩ := hcomp j o hj
  exact ⟨by omega, h₂, h₃⟩

/-- **A flush that succeeds** applies, in input order, the run of buffered outputs from `f` on, up
to the first index `f'` with nothing buffered, and clears them from the buffer.  The buffer holds
outputs of inputs from `f` to `N`, so `N` rounds of fuel beyond `f` are enough. -/
theorem flushCompleted_ok {N : ℕ} :
    ∀ {fuel f f' : ℕ} {completed completed' : ℕ → Option O} {s s' : S},
      (∀ j o, completed j = some o → f ≤ j ∧ j < N ∧ outputAt onInput inputs j = some o) →
      N ≤ f + fuel → f ≤ N →
      forM (appliedOutputs onInput inputs f) onOutput s₀ = .ok ⟨⟩ s →
      flushCompleted onOutput fuel completed f s = .ok (completed', f') s' →
      f ≤ f' ∧ f' ≤ N ∧ completed f' = none ∧
        completed' = (fun j ↦ if j < f' then none else completed j) ∧
        (∀ j, f ≤ j → j < f' → (completed j).isSome) ∧
        forM (appliedOutputs onInput inputs f') onOutput s₀ = .ok ⟨⟩ s'
  | 0, f, f', completed, completed', s, s', hcomp, hfuel, hf, happlied, h => by
    -- no fuel left: the buffer holds nothing from `N ≤ f` on
    change EStateM.Result.ok (completed, f) s = _ at h
    cases h
    have hnone : completed f = none := by
      cases hc : completed f with
      | none => rfl
      | some o => exact absurd (hcomp f o hc).2.1 (by omega)
    exact ⟨le_rfl, hf, hnone, buffer_eq_clear fun j o hj ↦ (hcomp j o hj).1,
      fun j h₁ h₂ ↦ absurd h₂ (by omega), happlied⟩
  | fuel + 1, f, f', completed, completed', s, s', hcomp, hfuel, hf, happlied, h => by
    rw [flushCompleted] at h
    cases hc : completed f with
    | none =>
      -- the run ends where nothing is buffered
      rw [hc] at h
      change EStateM.Result.ok (completed, f) s = _ at h
      cases h
      exact ⟨le_rfl, hf, hc, buffer_eq_clear fun j o hj ↦ (hcomp j o hj).1,
        fun j h₁ h₂ ↦ absurd h₂ (by omega), happlied⟩
    | some o =>
      rw [hc] at h
      dsimp only at h
      obtain ⟨-, hfN, hout⟩ := hcomp f o hc
      cases hon : onOutput o s with
      | error e s₁ =>
        rw [EStateM.bind_of_error hon] at h
        cases h
      | ok u s₁ =>
        rw [EStateM.bind_of_ok hon] at h
        have happlied' : forM (appliedOutputs onInput inputs (f + 1)) onOutput s₀ = .ok ⟨⟩ s₁ :=
          (forM_appliedOutputs_succ hout happlied).trans hon
        obtain ⟨hle, hf'N, hnone, hcompleted', hrun, happlied''⟩ :=
          flushCompleted_ok (update_buffer_spec hcomp) (by omega) (by omega) happlied' h
        have hne : ∀ j, f' ≤ j → j ≠ f := fun j hj ↦ by omega
        refine ⟨by omega, hf'N, ?_, ?_, fun j h₁ h₂ ↦ ?_, happlied''⟩
        · rwa [Function.update_of_ne (hne f' le_rfl)] at hnone
        · rw [hcompleted']
          funext j
          split
          · rfl
          · exact Function.update_of_ne (hne j (by omega)) _ _
        · by_cases hj : j = f
          · simp [hj, hc]
          · have := hrun j (by omega) h₂
            rwa [Function.update_of_ne hj] at this

/-- **A flush that fails** has applied, in input order, the buffered outputs from `f` up to some
`k`, and `on_output` failed on the output of `k`. -/
theorem flushCompleted_error {N : ℕ} :
    ∀ {fuel f : ℕ} {completed : ℕ → Option O} {s s' : S} {e : String},
      (∀ j o, completed j = some o → f ≤ j ∧ j < N ∧ outputAt onInput inputs j = some o) →
      forM (appliedOutputs onInput inputs f) onOutput s₀ = .ok ⟨⟩ s →
      flushCompleted onOutput fuel completed f s = .error e s' →
      ∃ k, f ≤ k ∧ (∀ j, f ≤ j → j < k → (completed j).isSome) ∧
        ∃ o sk, completed k = some o ∧ forM (appliedOutputs onInput inputs k) onOutput s₀ = .ok ⟨⟩ sk ∧
          onOutput o sk = .error e s'
  | 0, f, completed, s, s', e, _, _, h => by
    change EStateM.Result.ok (completed, f) s = _ at h
    cases h
  | fuel + 1, f, completed, s, s', e, hcomp, happlied, h => by
    rw [flushCompleted] at h
    cases hc : completed f with
    | none =>
      rw [hc] at h
      change EStateM.Result.ok (completed, f) s = _ at h
      cases h
    | some o =>
      rw [hc] at h
      dsimp only at h
      obtain ⟨-, -, hout⟩ := hcomp f o hc
      cases hon : onOutput o s with
      | error e' s₁ =>
        -- `on_output` failed on the output at `f` itself
        rw [EStateM.bind_of_error hon] at h
        cases h
        exact ⟨f, le_rfl, fun j h₁ h₂ ↦ absurd h₂ (by omega), o, s, hc, happlied, hon⟩
      | ok u s₁ =>
        rw [EStateM.bind_of_ok hon] at h
        have happlied' : forM (appliedOutputs onInput inputs (f + 1)) onOutput s₀ = .ok ⟨⟩ s₁ :=
          (forM_appliedOutputs_succ hout happlied).trans hon
        obtain ⟨k, hk, hrun, o', sk, hck, happliedk, hfail⟩ :=
          flushCompleted_error (update_buffer_spec hcomp) happlied' h
        have hne : k ≠ f := by omega
        refine ⟨k, by omega, fun j h₁ h₂ ↦ ?_, o', sk, ?_, happliedk, hfail⟩
        · by_cases hj : j = f
          · simp [hj, hc]
          · have := hrun j (by omega) h₂
            rwa [Function.update_of_ne hj] at this
        · rwa [Function.update_of_ne hne] at hck

end Flush

/-! ## What every round keeps -/

section Tracked

variable {I O S : Type} (onInput : I → Except String (Except String O))
  (onOutput : O → EStateM String S Unit) (inputs : List I) (s₀ : S)

/-- The invariant of the loop, run on `inputs` from the state `s₀`.  The inputs left are those
after `next_index`.  Each index from `flush_index` to `next_index` is either in flight, once, with
its input's future, or completed, with its input's output, and not both; the completed indices lie
past `flush_index`, which the flush has just cleared.  The inputs below `flush_index` have
succeeded, and their outputs have been applied, in order, to get to the current state. -/
structure Tracked (p : Pool I O) (s : S) : Prop where
  queue_eq : p.queue = inputs.drop p.nextIndex
  nextIndex_le : p.nextIndex ≤ inputs.length
  flushIndex_le : p.flushIndex ≤ p.nextIndex
  set_mem : ∀ j r, (j, r) ∈ p.set →
    p.flushIndex ≤ j ∧ j < p.nextIndex ∧ inputs[j]?.map onInput = some (.ok r)
  set_nodup : (p.set.map Prod.fst).Nodup
  set_not_completed : ∀ j r, (j, r) ∈ p.set → p.completed j = none
  completed_eq : ∀ j o, p.completed j = some o →
    p.flushIndex < j ∧ j < p.nextIndex ∧ outputAt onInput inputs j = some o
  pending : ∀ j, p.flushIndex ≤ j → j < p.nextIndex → (∃ r, (j, r) ∈ p.set) ∨ (p.completed j).isSome
  flushed : ∀ j < p.flushIndex, (outputAt onInput inputs j).isSome
  applied : forM (appliedOutputs onInput inputs p.flushIndex) onOutput s₀ = .ok ⟨⟩ s

variable {onInput onOutput inputs s₀}

theorem tracked_init : Tracked onInput onOutput inputs s₀ (Pool.init inputs) s₀ where
  queue_eq := rfl
  nextIndex_le := Nat.zero_le _
  flushIndex_le := le_rfl
  set_mem := by simp [Pool.init]
  set_nodup := List.nodup_nil
  set_not_completed := by simp [Pool.init]
  completed_eq := by simp [Pool.init]
  pending := fun j h₁ h₂ ↦ absurd h₂ (Nat.not_lt_zero _)
  flushed := fun j h ↦ absurd h (Nat.not_lt_zero _)
  applied := rfl

/-- **Spawning keeps the invariant**: the input taken is the one at `next_index`, and its future
goes in flight under that index. -/
theorem Tracked.spawn {p p' : Pool I O} {s : S} (h : Tracked onInput onOutput inputs s₀ p s)
    (hspawn : spawn onInput p = .ok p') : Tracked onInput onOutput inputs s₀ p' s := by
  rcases spawn_eq_ok hspawn with ⟨-, rfl⟩ | ⟨input, queue, future, hq, hfuture, rfl⟩
  · exact h
  have hdrop : inputs.drop p.nextIndex = input :: queue := h.queue_eq.symm.trans hq
  have hinput : inputs[p.nextIndex]? = some input := by
    rw [← List.head?_drop, hdrop, List.head?_cons]
  have hlt : p.nextIndex < inputs.length := (List.getElem?_eq_some_iff.1 hinput).1
  have hfresh : ∀ j r, (j, r) ∈ p.set → j < p.nextIndex := fun j r hj ↦ (h.set_mem j r hj).2.1
  constructor
  · show queue = inputs.drop (p.nextIndex + 1)
    rw [← List.tail_drop, hdrop, List.tail_cons]
  · exact hlt
  · exact Nat.le_succ_of_le h.flushIndex_le
  · simp only [List.mem_append, List.mem_singleton, Prod.mk.injEq]
    rintro j r (hj | ⟨rfl, rfl⟩)
    · obtain ⟨h₁, h₂, h₃⟩ := h.set_mem j r hj
      exact ⟨h₁, by omega, h₃⟩
    · exact ⟨h.flushIndex_le, Nat.lt_succ_self _, by simp [hinput, hfuture]⟩
  · -- the new index is above every index in flight
    rw [List.map_append, List.nodup_append]
    refine ⟨h.set_nodup, List.nodup_singleton _, fun a ha b hb ↦ ?_⟩
    obtain ⟨⟨j, r⟩, hj, rfl⟩ := List.mem_map.1 ha
    rw [List.map_singleton, List.mem_singleton] at hb
    subst hb
    exact (hfresh j r hj).ne
  · simp only [List.mem_append, List.mem_singleton, Prod.mk.injEq]
    rintro j r (hj | ⟨rfl, rfl⟩)
    · exact h.set_not_completed j r hj
    · cases hc : p.completed p.nextIndex with
      | none => rfl
      | some o => exact absurd (h.completed_eq _ o hc).2.1 (lt_irrefl _)
  · dsimp only
    intro j o hj
    obtain ⟨h₁, h₂, h₃⟩ := h.completed_eq j o hj
    exact ⟨h₁, by omega, h₃⟩
  · dsimp only
    intro j h₁ h₂
    by_cases hj : j = p.nextIndex
    · exact .inl ⟨future, by simp [hj]⟩
    · rcases h.pending j h₁ (by omega) with ⟨r, hr⟩ | hc
      · exact .inl ⟨r, List.mem_append_left _ hr⟩
      · exact .inr hc
  · exact h.flushed
  · exact h.applied

/-- The future taken out of the set was its only entry, and the others stay in flight. -/
theorem Tracked.mem_of_split {p : Pool I O} {s : S} (h : Tracked onInput onOutput inputs s₀ p s)
    {pre post : List (ℕ × Except String O)} {index : ℕ} {result : Except String O}
    (hset : p.set = pre ++ (index, result) :: post) :
    ((pre ++ post).map Prod.fst).Nodup ∧ ∀ j r, (j, r) ∈ pre ++ post → j ≠ index ∧ (j, r) ∈ p.set := by
  have hnodup := h.set_nodup
  rw [hset, List.map_append, List.map_cons, List.nodup_middle, ← List.map_append] at hnodup
  refine ⟨hnodup.of_cons, fun j r hj ↦ ⟨?_, ?_⟩⟩
  · rintro rfl
    exact (List.nodup_cons.1 hnodup).1 (List.mem_map.2 ⟨(j, r), hj, rfl⟩)
  · rw [hset]
    rcases List.mem_append.1 hj with hj | hj
    · exact List.mem_append_left _ hj
    · exact List.mem_append_right _ (List.mem_cons_of_mem _ hj)

/-- The buffer once a future in flight has completed with an output: outputs of inputs from
`flush_index` to `next_index`. -/
theorem Tracked.buffer_spec {p : Pool I O} {s : S} (h : Tracked onInput onOutput inputs s₀ p s)
    {index : ℕ} {output : O} (hmem : (index, .ok output) ∈ p.set) :
    ∀ j o, Function.update p.completed index (some output) j = some o →
      p.flushIndex ≤ j ∧ j < p.nextIndex ∧ outputAt onInput inputs j = some o := by
  obtain ⟨hfi, hin, hfut⟩ := h.set_mem index (.ok output) hmem
  intro j o hj
  by_cases hji : j = index
  · subst hji
    simp only [Function.update_self, Option.some.injEq] at hj
    subst hj
    obtain ⟨input, hinput, hon⟩ := Option.map_eq_some_iff.1 hfut
    exact ⟨hfi, hin, by simp [outputAt, hinput, outputOf, hon]⟩
  · rw [Function.update_of_ne hji] at hj
    obtain ⟨h₁, h₂, h₃⟩ := h.completed_eq j o hj
    exact ⟨h₁.le, h₂, h₃⟩

/-- **Joining keeps the invariant**: the output joins the buffer, and the flush applies the run
that became ready. -/
theorem Tracked.join {p p'' : Pool I O} {s s' : S} (h : Tracked onInput onOutput inputs s₀ p s)
    {pre post : List (ℕ × Except String O)} {index : ℕ} {result : Except String O}
    (hset : p.set = pre ++ (index, result) :: post)
    (hjoin : join onOutput { p with set := pre ++ post } index result s = .ok p'' s') :
    Tracked onInput onOutput inputs s₀ p'' s' := by
  obtain ⟨output, completed, f', rfl, hflush, rfl⟩ := join_eq_ok hjoin
  obtain ⟨hnodup, hrest⟩ := h.mem_of_split hset
  have hmem : (index, .ok output) ∈ p.set := by rw [hset]; simp
  -- the buffer with the new output, before the flush
  have hcomp₁ := h.buffer_spec hmem
  have hsame : ∀ j, j ≠ index → Function.update p.completed index (some output) j = p.completed j :=
    fun j hj ↦ Function.update_of_ne hj _ _
  obtain ⟨hle, hf'N, hnone, rfl, hrun, happlied⟩ :=
    flushCompleted_ok hcomp₁ (Nat.le_add_left _ _) h.flushIndex_le h.applied hflush
  -- an index in flight was not buffered, so the flush stopped before it
  have hflight : ∀ j r, (j, r) ∈ pre ++ post → f' ≤ j := by
    intro j r hj
    obtain ⟨hji, hjset⟩ := hrest j r hj
    by_contra hlt
    have hsome := hrun j (h.set_mem j r hjset).1 (by omega)
    rw [hsame j hji, h.set_not_completed j r hjset] at hsome
    exact absurd hsome (by simp)
  constructor
  · exact h.queue_eq
  · exact h.nextIndex_le
  · exact hf'N
  · intro j r hj
    obtain ⟨-, h₂, h₃⟩ := h.set_mem j r (hrest j r hj).2
    exact ⟨hflight j r hj, h₂, h₃⟩
  · exact hnodup
  · dsimp only
    intro j r hj
    rw [if_neg (by have := hflight j r hj; omega), hsame j (hrest j r hj).1,
      h.set_not_completed j r (hrest j r hj).2]
  · dsimp only
    intro j o hj
    split at hj
    · cases hj
    · next hlt =>
      obtain ⟨-, h₂, h₃⟩ := hcomp₁ j o hj
      have hne : j ≠ f' := by
        rintro rfl
        rw [hnone] at hj
        cases hj
      exact ⟨by omega, h₂, h₃⟩
  · dsimp only
    intro j h₁ h₂
    rw [if_neg (by omega)]
    by_cases hji : j = index
    · subst hji
      exact .inr (by simp)
    · rcases h.pending j (by omega) h₂ with ⟨r, hr⟩ | hc
      · -- still in flight: not the future joined
        refine .inl ⟨r, ?_⟩
        rw [hset] at hr
        rcases List.mem_append.1 hr with hr | hr
        · exact List.mem_append_left _ hr
        · rcases List.mem_cons.1 hr with hr | hr
          · exact absurd (Prod.mk.inj hr).1 hji
          · exact List.mem_append_right _ hr
      · exact .inr (by rwa [hsame j hji])
  · intro j hj
    by_cases hjf : j < p.flushIndex
    · exact h.flushed j hjf
    · obtain ⟨o, ho⟩ := Option.isSome_iff_exists.1 (hrun j (by omega) hj)
      simp [(hcomp₁ j o ho).2.2]
  · exact happlied

end Tracked

/-! ## Whole runs -/

section Run

variable {I O S : Type} {concurrency : ℕ} {onInput : I → Except String (Except String O)}
  {onOutput : O → EStateM String S Unit} {inputs : List I} {s₀ : S}

theorem Tracked.step {c c' : Pool I O × S} (h : Tracked onInput onOutput inputs s₀ c.1 c.2)
    (hstep : Step concurrency onInput onOutput c c') : Tracked onInput onOutput inputs s₀ c'.1 c'.2 := by
  cases hstep with
  | spawnMore hspawn _ => exact h.spawn hspawn
  | join hspawn _ hset hjoin => exact (h.spawn hspawn).join hset hjoin

/-- **Every configuration a run reaches satisfies the invariant.** -/
theorem tracked_of_reachable {c : Pool I O × S}
    (h : Machine.Reachable (Step concurrency onInput onOutput) (Pool.init inputs, s₀) c) :
    Tracked onInput onOutput inputs s₀ c.1 c.2 :=
  Machine.Reachable.inv (fun c ↦ Tracked onInput onOutput inputs s₀ c.1 c.2)
    (fun _ _ hc hstep ↦ hc.step hstep) tracked_init h

/-- With no input left and nothing in flight, every output has been flushed. -/
theorem Tracked.flushIndex_eq_of_empty {p : Pool I O} {s : S}
    (h : Tracked onInput onOutput inputs s₀ p s) (hqueue : p.queue = []) (hset : p.set = []) :
    p.flushIndex = inputs.length := by
  have hnext : inputs.length ≤ p.nextIndex := List.drop_eq_nil_iff.1 (h.queue_eq ▸ hqueue)
  by_contra hne
  have hlt : p.flushIndex < p.nextIndex := by
    have := h.flushIndex_le
    have := h.nextIndex_le
    omega
  -- the index at `flush_index` is neither in flight nor buffered
  rcases h.pending p.flushIndex le_rfl hlt with ⟨r, hr⟩ | hc
  · simp [hset] at hr
  · obtain ⟨o, ho⟩ := Option.isSome_iff_exists.1 hc
    exact absurd (h.completed_eq _ o ho).1 (lt_irrefl _)

/-- **A run that returns `Ok` applied every output, in input order**, and every future
succeeded. -/
theorem runPooledTasks_ok {s : S}
    (hrun : RunPooledTasks concurrency onInput onOutput inputs s₀ (.ok () s)) :
    (∀ j < inputs.length, (outputAt onInput inputs j).isSome) ∧
      forM (inputs.filterMap (outputOf onInput)) onOutput s₀ = .ok ⟨⟩ s := by
  obtain ⟨⟨p, s'⟩, hreach, hstop⟩ := hrun
  have h := tracked_of_reachable hreach
  cases hstop with
  | empty hspawn _ hset =>
    have h' := h.spawn hspawn
    have hflush := h'.flushIndex_eq_of_empty (queue_eq_nil_of_spawn hspawn hset) hset
    refine ⟨fun j hj ↦ h'.flushed j (hflush ▸ hj), ?_⟩
    have happlied := h'.applied
    rwa [hflush, appliedOutputs, List.take_length] at happlied

/-- A flush that fails after a future in flight completed: `on_output` failed on the output of
some input `k`, once the outputs of the inputs before it were applied, in order. -/
theorem Tracked.flush_error {p : Pool I O} {s s' : S} (h : Tracked onInput onOutput inputs s₀ p s)
    {index : ℕ} {output : O} (hmem : (index, .ok output) ∈ p.set) {e : String}
    (hflush : flushCompleted onOutput p.nextIndex (Function.update p.completed index (some output))
      p.flushIndex s = .error e s') :
    ∃ k < inputs.length, (∀ j < k, (outputAt onInput inputs j).isSome) ∧
      ∃ o sk, outputAt onInput inputs k = some o ∧
        forM (appliedOutputs onInput inputs k) onOutput s₀ = .ok ⟨⟩ sk ∧ onOutput o sk = .error e s' := by
  have hcomp := h.buffer_spec hmem
  obtain ⟨k, hk, hrun, o, sk, hck, happlied, hfail⟩ := flushCompleted_error hcomp h.applied hflush
  obtain ⟨-, hkn, hout⟩ := hcomp k o hck
  refine ⟨k, by have := h.nextIndex_le; omega, fun j hj ↦ ?_, o, sk, hout, happlied, hfail⟩
  by_cases hjf : j < p.flushIndex
  · exact h.flushed j hjf
  · obtain ⟨o', ho'⟩ := Option.isSome_iff_exists.1 (hrun j (by omega) hj)
    simp [(hcomp j o' ho').2.2]

/-- **A run that fails applied the outputs of a prefix of the inputs**, in input order, each of
which succeeded; and either the error came from elsewhere, in that state, or `on_output` failed on
the output of the next input. -/
theorem runPooledTasks_error {e : String} {s : S}
    (hrun : RunPooledTasks concurrency onInput onOutput inputs s₀ (.error e s)) :
    ∃ k ≤ inputs.length, (∀ j < k, (outputAt onInput inputs j).isSome) ∧
      ∃ sk, forM (appliedOutputs onInput inputs k) onOutput s₀ = .ok ⟨⟩ sk ∧
        (s = sk ∨ ∃ o, outputAt onInput inputs k = some o ∧ onOutput o sk = .error e s) := by
  obtain ⟨⟨p, s'⟩, hreach, hstop⟩ := hrun
  have h := tracked_of_reachable hreach
  -- where the loop stood: the outputs below `flush_index` applied
  have hstood : p.flushIndex ≤ inputs.length := h.flushIndex_le.trans h.nextIndex_le
  cases hstop with
  | inputError _ => exact ⟨p.flushIndex, hstood, h.flushed, s, h.applied, .inl rfl⟩
  | joinError hspawn _ hset hjoin =>
    rcases join_eq_error hjoin with ⟨-, rfl⟩ | ⟨output, rfl, hflush⟩
    · exact ⟨p.flushIndex, hstood, h.flushed, _, h.applied, .inl rfl⟩
    · obtain ⟨k, hk, hflushed, o, sk, hout, happlied, hfail⟩ :=
        (h.spawn hspawn).flush_error (by rw [hset]; simp) hflush
      exact ⟨k, hk.le, hflushed, sk, happlied, .inr ⟨o, hout, hfail⟩⟩

/-- With every future succeeding, the outputs of the inputs, in order. -/
theorem filterMap_outputOf {outputs : List O}
    (hok : inputs.map onInput = outputs.map fun o ↦ .ok (.ok o)) :
    inputs.filterMap (outputOf onInput) = outputs := by
  induction inputs generalizing outputs with
  | nil =>
    cases outputs with
    | nil => rfl
    | cons _ _ => cases hok
  | cons input inputs ih =>
    cases outputs with
    | nil => cases hok
    | cons o outputs =>
      simp only [List.map_cons, List.cons.injEq] at hok
      rw [List.filterMap_cons_some (show outputOf onInput input = some o by simp [outputOf, hok.1]),
        ih hok.2]

theorem succeeds_of_mem {outputs : List O}
    (hok : inputs.map onInput = outputs.map fun o ↦ .ok (.ok o)) {input : I} (hmem : input ∈ inputs) :
    ∃ o, onInput input = .ok (.ok o) := by
  have : onInput input ∈ outputs.map fun o ↦ (.ok (.ok o) : Except String (Except String O)) :=
    hok ▸ List.mem_map_of_mem hmem
  obtain ⟨o, -, ho⟩ := List.mem_map.1 this
  exact ⟨o, ho.symm⟩

/-- **When every future succeeds, the pool is the loop over the outputs in input order**: every
run returns what `for output in outputs { on_output(output)? }` returns, whatever the runtime
chose. -/
theorem runPooledTasks_returns_forM {outputs : List O}
    (hok : inputs.map onInput = outputs.map fun o ↦ .ok (.ok o)) {x : EStateM.Result String S Unit}
    (hrun : RunPooledTasks concurrency onInput onOutput inputs s₀ x) : x = forM outputs onOutput s₀ := by
  rw [← filterMap_outputOf hok]
  obtain ⟨⟨p, s⟩, hreach, hstop⟩ := hrun
  have h := tracked_of_reachable hreach
  cases hstop with
  | inputError hspawn =>
    -- the input refused is one of the inputs, whose futures all succeed
    obtain ⟨input, queue, hq, hinput⟩ := spawn_eq_error hspawn
    have hmem : input ∈ inputs := List.mem_of_mem_drop (h.queue_eq ▸ hq ▸ List.mem_cons_self)
    obtain ⟨o, ho⟩ := succeeds_of_mem hok hmem
    rw [ho] at hinput
    cases hinput
  | empty hspawn hmore hset =>
    exact ((runPooledTasks_ok ⟨_, hreach, .empty hspawn hmore hset⟩).2).symm
  | @joinError _ p' _ _ pre post index result e hspawn _ hset hjoin =>
    have h' := h.spawn hspawn
    rcases join_eq_error hjoin with ⟨rfl, -⟩ | ⟨output, rfl, hflush⟩
    · -- a future failed, but every future succeeds
      obtain ⟨-, hin, hfut⟩ := h'.set_mem index (.error e) (by rw [hset]; simp)
      obtain ⟨input, hinput, hon⟩ := Option.map_eq_some_iff.1 hfut
      obtain ⟨o, ho⟩ := succeeds_of_mem hok (List.mem_of_getElem? hinput)
      rw [ho] at hon
      cases hon
    · obtain ⟨k, -, -, o, sk, hout, happlied, hfail⟩ :=
        h'.flush_error (by rw [hset]; simp) hflush
      exact (forM_filterMap_of_error happlied hout hfail).symm

/-- Spawning adds at most one future. -/
theorem spawn_set_length {p p' : Pool I O} (h : spawn onInput p = .ok p') :
    p'.set.length ≤ p.set.length + 1 := by
  rcases spawn_eq_ok h with ⟨-, rfl⟩ | ⟨_, _, _, -, -, rfl⟩
  · exact Nat.le_succ _
  · simp

/-- A round that starts with fewer than `concurrency` futures in flight ends with fewer: it
spawned only while there were fewer, or it joined one. -/
theorem set_length_lt_of_step {c c' : Pool I O × S} (hc : c.1.set.length < concurrency)
    (hstep : Step concurrency onInput onOutput c c') : c'.1.set.length < concurrency := by
  cases hstep with
  | spawnMore _ hmore =>
    simp only [keepSpawning, Bool.and_eq_true, decide_eq_true_eq] at hmore
    exact hmore.1
  | @join p p' p'' s s' pre post index result hspawn _ hset hjoin =>
    obtain ⟨-, completed, flushIndex, -, -, rfl⟩ := join_eq_ok hjoin
    have hle := spawn_set_length hspawn
    dsimp only at hc ⊢
    simp only [hset, List.length_append, List.length_cons] at hle ⊢
    omega

/-- **No more than `concurrency` futures are ever in flight**: fewer at the top of every round,
and at most that many once it has spawned. -/
theorem set_length_of_reachable (hpos : 0 < concurrency) {c : Pool I O × S}
    (h : Machine.Reachable (Step concurrency onInput onOutput) (Pool.init inputs, s₀) c) :
    c.1.set.length < concurrency ∧ ∀ p', spawn onInput c.1 = .ok p' → p'.set.length ≤ concurrency := by
  have hlt : c.1.set.length < concurrency :=
    Machine.Reachable.inv (fun c ↦ c.1.set.length < concurrency)
      (fun _ _ hc hstep ↦ set_length_lt_of_step hc hstep) hpos h
  exact ⟨hlt, fun p' hspawn ↦ by have := spawn_set_length hspawn; omega⟩

/-- **No run goes on forever.** -/
theorem acc_init : Acc (flip (Step concurrency onInput onOutput)) (Pool.init inputs, s₀) :=
  Machine.acc_of_measure measure (fun _ _ h ↦ measure_lt_of_step h) _

/-- **Some run returns**: none is stuck, and none goes on forever. -/
theorem exists_runPooledTasks : ∃ x, RunPooledTasks concurrency onInput onOutput inputs s₀ x :=
  Machine.exists_returns progress acc_init

/-- **The loop refines the completion-order model** (`Moon.runPooledTasks`): when every future
succeeds, every run returns what the futures completing in any order give there. -/
theorem runPooledTasks_refines {outputs : List O}
    (hok : inputs.map onInput = outputs.map fun o ↦ .ok (.ok o)) {x : EStateM.Result String S Unit}
    (hrun : RunPooledTasks concurrency onInput onOutput inputs s₀ x) {completion : List ℕ}
    (hperm : completion.Perm (List.range outputs.length)) :
    x = Moon.runPooledTasks onOutput (outputs.map .ok) completion (fun _ ↦ none) 0 s₀ := by
  rw [runPooledTasks_returns_forM hok hrun, runPooledTasks_eq_forM onOutput outputs hperm]

end Run

end PooledTasks

open PooledTasks in
theorem pooled_tasks_apply_outputs_in_input_order {I O S : Type} (concurrency : ℕ)
    (onInput : I → Except String (Except String O)) (onOutput : O → EStateM String S Unit)
    (inputs : List I) (s₀ : S) :
    (∀ outputs : List O, inputs.map onInput = outputs.map (fun o ↦ .ok (.ok o)) →
      (∃ x, RunPooledTasks concurrency onInput onOutput inputs s₀ x) ∧
      (∀ x, RunPooledTasks concurrency onInput onOutput inputs s₀ x → x = forM outputs onOutput s₀) ∧
      ((∀ o s, ∃ s', onOutput o s = .ok () s') →
        ∀ x, RunPooledTasks concurrency onInput onOutput inputs s₀ x → ∃ s', x = .ok () s')) ∧
    (∀ e s, RunPooledTasks concurrency onInput onOutput inputs s₀ (.error e s) →
      ∃ applied : List O, applied.length ≤ inputs.length ∧
        (∀ j (hj : j < applied.length), outputAt onInput inputs j = some applied[j]) ∧
        ∃ sk, forM applied onOutput s₀ = .ok () sk ∧
          (s = sk ∨ ∃ o, outputAt onInput inputs applied.length = some o ∧ onOutput o sk = .error e s)) ∧
    (0 < concurrency →
      ∀ c, Machine.Reachable (Step concurrency onInput onOutput) (Pool.init inputs, s₀) c →
        c.1.set.length < concurrency ∧ ∀ p', spawn onInput c.1 = .ok p' → p'.set.length ≤ concurrency) ∧
    Acc (flip (Step concurrency onInput onOutput)) (Pool.init inputs, s₀) := by
  refine ⟨fun outputs hok ↦ ⟨exists_runPooledTasks, fun x hrun ↦ runPooledTasks_returns_forM hok hrun,
    fun htotal x hrun ↦ ?_⟩, fun e s hrun ↦ ?_, fun hpos c hreach ↦ set_length_of_reachable hpos hreach,
    acc_init⟩
  · -- an `on_output` that never fails makes the loop over the outputs succeed
    obtain ⟨s', hs'⟩ := EStateM.forM_ok_of_total htotal outputs s₀
    exact ⟨s', (runPooledTasks_returns_forM hok hrun).trans hs'⟩
  · obtain ⟨k, hk, hflushed, sk, happlied, hlast⟩ := runPooledTasks_error hrun
    obtain ⟨hlen, hget⟩ := appliedOutputs_spec k hflushed
    refine ⟨appliedOutputs onInput inputs k, by rw [hlen]; exact hk, hget, sk, happlied, ?_⟩
    rw [hlen]
    exact hlast

open PooledTasks in
/-- Three futures run two at a time; their outputs are applied in the order of the inputs. -/
theorem pooled_tens_applied_in_order :
    (∃ x, RunPooledTasks 2 (fun n : ℕ ↦ (.ok (.ok (10 * n)) : Except String (Except String ℕ)))
        (fun o ↦ (modify (· ++ [o]) : EStateM String (List ℕ) Unit)) [1, 2, 3] [] x) ∧
      ∀ x, RunPooledTasks 2 (fun n : ℕ ↦ (.ok (.ok (10 * n)) : Except String (Except String ℕ)))
        (fun o ↦ (modify (· ++ [o]) : EStateM String (List ℕ) Unit)) [1, 2, 3] [] x →
        x = .ok () [10, 20, 30] := by
  obtain ⟨hexists, hreturns, -⟩ := (pooled_tasks_apply_outputs_in_input_order 2
    (fun n : ℕ ↦ (.ok (.ok (10 * n)) : Except String (Except String ℕ)))
    (fun o ↦ (modify (· ++ [o]) : EStateM String (List ℕ) Unit)) [1, 2, 3] []).1 [10, 20, 30] rfl
  exact ⟨hexists, fun x hx ↦ (hreturns x hx).trans rfl⟩

end Moon
