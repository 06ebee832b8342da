import Moon.Pipeline.JobDispatcher

/-!
# Runs of the dispatcher

The pipeline calls `JobDispatcher::next` from its dispatch loop while the jobs it has spawned call
`JobContext::mark_completed` as they finish, in whatever order they finish.  A run is therefore
any sequence of the two events, `DispatchEvent.next` and `DispatchEvent.markCompleted`, from the
dispatcher `JobDispatcher::new` builds over a fresh context; each call is one step.  `run`
replays such a sequence and lists the dispatches it made, each with the completed set that `next`
read when it made it.

**Safety** (`dispatcher_dispatches_safely`).  Over every run, on every graph and from any groups:

* a dispatched index had all of its dependencies completed when `next` read the completed set;
* no index is dispatched twice, since `next` returns only indices it has not visited;
* no two standard nodes with the same non-zero id are dispatched and not completed at once.

The last one rests on the invariant `Inv`: `running_jobs` holds exactly the dispatched, not yet
completed, standard nodes with an id, under that id, and no id twice.  `next` keeps it because it
defers a node whose id is running; `mark_completed` keeps it because it drops the index from
`running_jobs` as it completes it.

**Progress** (`next_dispatches_when_nothing_runs`).  When the groups come from
`group_priorities(sort_topological())`, every index that has not completed stays in some group
(`Covers`): pruning drops completed indices only.  In a state where every dispatched job has
completed and nothing runs while some index is still queued, a node whose dependencies have all
completed is waiting in the groups; nothing is deferred, and `next_isSome` says the walk reaches
it, however much of the graph the shared `traversed` set had already covered.
-/

set_option autoImplicit false

namespace Moon

namespace JobDispatcher

/-- An event of a run: the dispatch loop asks for the next job, or a job completes. -/
inductive DispatchEvent (n : ℕ) where
  | next
  | markCompleted (index : Fin n)
  deriving DecidableEq, Repr

/-- A dispatch: the index `next` returned, with the completed set it read. -/
structure Dispatch (n : ℕ) where
  index : Fin n
  completed : Finset (Fin n)

variable {n : ℕ} (G : ActionGraph n)

/-- One event of a run. -/
def step : DispatchEvent n → JobDispatcher n → Option (Dispatch n) × JobDispatcher n
  | .next, s => ((next G s).1.map fun index ↦ ⟨index, s.completedJobs⟩, (next G s).2)
  | .markCompleted index, s => (none, markCompleted s index)

/-- A run: the dispatches made, in order, and the state left. -/
def run : List (DispatchEvent n) → JobDispatcher n → List (Dispatch n) × JobDispatcher n
  | [], s => ([], s)
  | event :: events, s =>
    ((step G event s).1.toList ++ (run events (step G event s).2).1,
      (run events (step G event s).2).2)

/-- The states some run reaches from the dispatcher built over `groups`. -/
def Reachable (groups : SortedMap ℕ (List (Fin n))) (s : JobDispatcher n) : Prop :=
  ∃ events, (run G events (new groups)).2 = s

/-! ## One step -/

section Step

variable {G}

/-- A dispatching step is a call of `next` that answered, and it read the completed set of the
state it started from. -/
theorem step_eq_some {event : DispatchEvent n} {s s' : JobDispatcher n} {d : Dispatch n}
    (h : step G event s = (some d, s')) :
    d.completed = s.completedJobs ∧ next G s = (some d.index, s') := by
  cases event with
  | next =>
    simp only [step, Prod.mk.injEq] at h
    obtain ⟨hd, rfl⟩ := h
    cases hnext : (next G s).1 with
    | none => rw [hnext] at hd; cases hd
    | some i =>
      rw [hnext] at hd
      cases hd
      exact ⟨rfl, Prod.ext hnext rfl⟩
  | markCompleted index => cases h

/-- A step that dispatches nothing is a call of `next` that found nothing, or a completion. -/
theorem step_eq_none {event : DispatchEvent n} {s s' : JobDispatcher n}
    (h : step G event s = (none, s')) :
    next G s = (none, s') ∨ ∃ index, s' = markCompleted s index := by
  cases event with
  | next =>
    simp only [step, Prod.mk.injEq, Option.map_eq_none_iff] at h
    exact .inl (Prod.ext h.1 h.2)
  | markCompleted index =>
    simp only [step, Prod.mk.injEq] at h
    exact .inr ⟨index, h.2.symm⟩

theorem step_cases (event : DispatchEvent n) (s : JobDispatcher n) :
    (∃ d, step G event s = (some d, (step G event s).2)) ∨
      step G event s = (none, (step G event s).2) := by
  rcases h : (step G event s).1 with _ | d
  · exact .inr (Prod.ext h rfl)
  · exact .inl ⟨d, Prod.ext h rfl⟩

/-- A dispatching step dispatches an index it had not visited, and visits it. -/
theorem step_dispatch_visited {event : DispatchEvent n} {s : JobDispatcher n} {d : Dispatch n}
    (h : (step G event s).1 = some d) :
    d.index ∉ s.visited ∧ d.index ∈ (step G event s).2.visited := by
  have hstep : step G event s = (some d, (step G event s).2) := Prod.ext h rfl
  obtain ⟨-, hnext⟩ := step_eq_some hstep
  obtain ⟨hv, -, -, -, hs'⟩ := next_eq_some hnext
  refine ⟨hv, ?_⟩
  rw [hs']
  exact Finset.mem_insert_self _ _

/-- A step never forgets a visited index. -/
theorem visited_subset_step (event : DispatchEvent n) (s : JobDispatcher n) :
    s.visited ⊆ (step G event s).2.visited := by
  rcases step_cases (G := G) event s with ⟨d, h⟩ | h
  · obtain ⟨-, hnext⟩ := step_eq_some h
    obtain ⟨-, -, -, -, hs'⟩ := next_eq_some hnext
    rw [hs']
    exact Finset.subset_insert _ _
  · rcases step_eq_none h with hnext | ⟨index, hs'⟩
    · rw [next_eq_none hnext]
    · rw [hs']
      rfl

end Step

/-! ## Runs -/

section Run

variable {G}

theorem run_cons (event : DispatchEvent n) (events : List (DispatchEvent n)) (s : JobDispatcher n) :
    run G (event :: events) s
      = ((step G event s).1.toList ++ (run G events (step G event s).2).1,
          (run G events (step G event s).2).2) := rfl

/-- A run never forgets a visited index. -/
theorem visited_subset_run :
    ∀ (events : List (DispatchEvent n)) (s : JobDispatcher n), s.visited ⊆ (run G events s).2.visited
  | [], _ => subset_rfl
  | event :: events, s =>
    (visited_subset_step event s).trans (visited_subset_run events (step G event s).2)

/-- **Every dispatch of a run** is of an index not visited before the run and visited after it,
whose dependencies had all completed when it was made. -/
theorem dispatches_run :
    ∀ (events : List (DispatchEvent n)) (s : JobDispatcher n), ∀ d ∈ (run G events s).1,
      d.index ∉ s.visited ∧ d.index ∈ (run G events s).2.visited ∧
        ∀ dep ∈ G.deps d.index, dep ∈ d.completed
  | [], _, d, hd => by cases hd
  | event :: events, s, d, hd => by
    rw [run_cons, List.mem_append] at hd
    rw [run_cons]
    rcases hd with hd | hd
    · -- dispatched by this step
      have hstep : step G event s = (some d, (step G event s).2) :=
        Prod.ext (Option.mem_toList.mp hd) rfl
      obtain ⟨hcompleted, hnext⟩ := step_eq_some hstep
      obtain ⟨hv, -, hdeps, -, hs'⟩ := next_eq_some hnext
      refine ⟨hv, visited_subset_run events _ ?_, hcompleted ▸ hdeps⟩
      rw [hs']
      exact Finset.mem_insert_self _ _
    · -- dispatched later in the run
      obtain ⟨hv, hfinal, hdeps⟩ := dispatches_run events (step G event s).2 d hd
      exact ⟨fun h ↦ hv (visited_subset_step event s h), hfinal, hdeps⟩

/-- **No index is dispatched twice in a run.** -/
theorem nodup_dispatches_run :
    ∀ (events : List (DispatchEvent n)) (s : JobDispatcher n),
      ((run G events s).1.map Dispatch.index).Nodup
  | [], _ => List.nodup_nil
  | event :: events, s => by
    rw [run_cons, List.map_append, List.nodup_append]
    refine ⟨?_, nodup_dispatches_run events _, ?_⟩
    · cases (step G event s).1 <;> simp
    · -- the index of this step is visited before every later dispatch
      intro i hi j hj
      rcases hstep : (step G event s).1 with _ | d
      · rw [hstep] at hi
        cases hi
      · rw [hstep] at hi
        simp only [Option.toList_some, List.map_cons, List.map_nil, List.mem_singleton] at hi
        obtain ⟨d', hd', rfl⟩ := List.mem_map.mp hj
        obtain ⟨hnotvisited, -, -⟩ := dispatches_run events _ d' hd'
        obtain ⟨-, hmem⟩ := step_dispatch_visited hstep
        rintro rfl
        exact hnotvisited (hi ▸ hmem)

end Run

/-! ## The running jobs -/

/-- A node the dispatcher records as running while it runs: a standard node with a non-zero id,
under that id. -/
def Tracked (i : Fin n) (id : UInt64) : Prop :=
  (G.nodes i).isStandard ∧ (G.nodes i).getId = id ∧ 0 < id

/-- The invariant of the running jobs: they are the dispatched, not yet completed, tracked nodes,
and no two of them share an id. -/
structure Inv (s : JobDispatcher n) : Prop where
  running_iff : ∀ i id, (i, id) ∈ s.runningJobs ↔
    i ∈ s.visited ∧ i ∉ s.completedJobs ∧ Tracked G i id
  running_ids : ∀ p ∈ s.runningJobs, ∀ q ∈ s.runningJobs, p.2 = q.2 → p = q

section Invariant

variable {G}

theorem inv_new (groups : SortedMap ℕ (List (Fin n))) : Inv G (new groups) where
  running_iff i id := by simp [new]
  running_ids p hp := by simp [new] at hp

/-- Dispatching an index that is not visited, not completed and not deferred keeps the
invariant: a tracked node is recorded under an id that no running job has. -/
theorem inv_dispatch {s : JobDispatcher n} (hs : Inv G s) {i : Fin n} (hv : i ∉ s.visited)
    (hc : i ∉ s.completedJobs) (hdef : ¬isDeferred G s i) : Inv G (dispatch G s i) := by
  -- no running job is recorded under `i` yet
  have hfresh : ∀ id, (i, id) ∉ s.runningJobs := fun id h ↦ hv ((hs.running_iff i id).mp h).1
  by_cases htrack : 0 < (G.nodes i).getId ∧ (G.nodes i).isStandard
  · have hnew : ∀ q ∈ s.runningJobs, q.2 ≠ (G.nodes i).getId := fun q hq heq ↦
      hdef ⟨htrack.1, htrack.2, q, hq, heq⟩
    constructor
    · intro j id
      simp only [dispatch, if_pos htrack, Finset.mem_insert, Prod.mk.injEq]
      by_cases hji : j = i
      · subst hji
        simp only [true_and, true_or, hc, not_false_eq_true, Tracked, htrack.2]
        constructor
        · rintro (rfl | h)
          · exact ⟨rfl, htrack.1⟩
          · exact absurd h (hfresh id)
        · rintro ⟨hid, -⟩
          exact .inl hid.symm
      · simp only [hji, false_and, false_or]
        exact hs.running_iff j id
    · intro p hp q hq hpq
      simp only [dispatch, if_pos htrack, Finset.mem_insert] at hp hq
      rcases hp with rfl | hp <;> rcases hq with rfl | hq
      · rfl
      · exact absurd hpq.symm (hnew q hq)
      · exact absurd hpq (hnew p hp)
      · exact hs.running_ids p hp q hq hpq
  · constructor
    · intro j id
      simp only [dispatch, if_neg htrack, Finset.mem_insert]
      by_cases hji : j = i
      · subst hji
        refine ⟨fun h ↦ absurd h (hfresh id), ?_⟩
        rintro ⟨-, -, hstd, hid, hpos⟩
        exact absurd ⟨hid ▸ hpos, hstd⟩ htrack
      · simp only [hji, false_or]
        exact hs.running_iff j id
    · simp only [dispatch, if_neg htrack]
      exact hs.running_ids

/-- Completing an index keeps the invariant: it leaves the running jobs as it completes. -/
theorem inv_markCompleted {s : JobDispatcher n} (hs : Inv G s) (index : Fin n) :
    Inv G (markCompleted s index) := by
  constructor
  · intro i id
    simp only [markCompleted, Finset.mem_filter, Finset.mem_insert, not_or, hs.running_iff i id]
    constructor
    · rintro ⟨⟨hv, hc, htr⟩, hne⟩
      exact ⟨hv, ⟨hne, hc⟩, htr⟩
    · rintro ⟨hv, ⟨hne, hc⟩, htr⟩
      exact ⟨⟨hv, hc, htr⟩, hne⟩
  · intro p hp q hq
    simp only [markCompleted, Finset.mem_filter] at hp hq
    exact hs.running_ids p hp.1 q hq.1

theorem inv_step {s : JobDispatcher n} (hs : Inv G s) (event : DispatchEvent n) :
    Inv G (step G event s).2 := by
  rcases step_cases (G := G) event s with ⟨d, h⟩ | h
  · obtain ⟨-, hnext⟩ := step_eq_some h
    obtain ⟨hv, hc, -, hdef, hs'⟩ := next_eq_some hnext
    rw [hs']
    exact inv_dispatch hs hv hc hdef
  · rcases step_eq_none h with hnext | ⟨index, hs'⟩
    · -- pruning the groups touches neither set the invariant reads
      rw [next_eq_none hnext]
      exact ⟨hs.running_iff, hs.running_ids⟩
    · rw [hs']
      exact inv_markCompleted hs index

/-- **The invariant holds after every run.** -/
theorem inv_run : ∀ (events : List (DispatchEvent n)) {s : JobDispatcher n}, Inv G s →
    Inv G (run G events s).2
  | [], _, hs => hs
  | event :: events, _, hs => inv_run events (inv_step hs event)

/-- Two tracked nodes that are dispatched and not completed have different ids, or are one. -/
theorem eq_of_tracked {s : JobDispatcher n} (hs : Inv G s) {i j : Fin n} {id : UInt64}
    (hi : i ∈ s.visited ∧ i ∉ s.completedJobs ∧ Tracked G i id)
    (hj : j ∈ s.visited ∧ j ∉ s.completedJobs ∧ Tracked G j id) : i = j := by
  have hpi := (hs.running_iff i id).mpr hi
  have hpj := (hs.running_iff j id).mpr hj
  exact congrArg Prod.fst (hs.running_ids _ hpi _ hpj rfl)

end Invariant

/-! ## Safety -/

/-- Over every run of the dispatcher, from any groups: every dispatched index had all of its
dependencies completed when `next` read the completed set; no index is dispatched twice; and no
two standard nodes with the same non-zero id are dispatched and not yet completed. -/
theorem dispatcher_dispatches_safely (groups : SortedMap ℕ (List (Fin n)))
    (events : List (DispatchEvent n)) :
    let r := run G events (new groups)
    (∀ d ∈ r.1, ∀ dep ∈ G.deps d.index, dep ∈ d.completed) ∧
    (r.1.map Dispatch.index).Nodup ∧
    (∀ d₁ ∈ r.1, ∀ d₂ ∈ r.1, d₁.index ∉ r.2.completedJobs → d₂.index ∉ r.2.completedJobs →
      (G.nodes d₁.index).isStandard → (G.nodes d₂.index).isStandard →
      0 < (G.nodes d₁.index).getId → (G.nodes d₁.index).getId = (G.nodes d₂.index).getId →
      d₁.index = d₂.index) := by
  intro r
  refine ⟨fun d hd ↦ (dispatches_run events _ d hd).2.2, nodup_dispatches_run events _, ?_⟩
  intro d₁ hd₁ d₂ hd₂ hc₁ hc₂ hstd₁ hstd₂ hpos hid
  have hinv : Inv G r.2 := inv_run events (inv_new groups)
  exact eq_of_tracked hinv ⟨(dispatches_run events _ d₁ hd₁).2.1, hc₁, hstd₁, rfl, hpos⟩
    ⟨(dispatches_run events _ d₂ hd₂).2.1, hc₂, hstd₂, hid.symm, hid ▸ hpos⟩

/-- Two run-task nodes with no dependency between them and the same id, 5. -/
def sameIdTasks : ActionGraph 2 :=
  ⟨fun _ ↦ [], fun i ↦ .runTask
    { args := [], env := [], interactive := false, persistent := false, priority := 0,
      target := ⟨if i = 0 then "app:build" else "app:lint", .id, .id, 3⟩, id := some 5 }⟩

/-- The second `next` dispatches nothing while the first task runs; once it completes, the second
task goes. -/
theorem same_id_tasks_run_one_at_a_time :
    (run sameIdTasks [.next, .next] (new (sameIdTasks.groupPriorities [0, 1]))).1.map
        Dispatch.index = [0] ∧
      (run sameIdTasks [.next, .next, .markCompleted 0, .next]
        (new (sameIdTasks.groupPriorities [0, 1]))).1.map Dispatch.index = [0, 1] ∧
      ∀ d₁ ∈ (run sameIdTasks [.next, .next] (new (sameIdTasks.groupPriorities [0, 1]))).1,
      ∀ d₂ ∈ (run sameIdTasks [.next, .next] (new (sameIdTasks.groupPriorities [0, 1]))).1,
        d₁.index ∉ (run sameIdTasks [.next, .next]
            (new (sameIdTasks.groupPriorities [0, 1]))).2.completedJobs →
        d₂.index ∉ (run sameIdTasks [.next, .next]
            (new (sameIdTasks.groupPriorities [0, 1]))).2.completedJobs →
        (sameIdTasks.nodes d₁.index).isStandard → (sameIdTasks.nodes d₂.index).isStandard →
        0 < (sameIdTasks.nodes d₁.index).getId →
        (sameIdTasks.nodes d₁.index).getId = (sameIdTasks.nodes d₂.index).getId →
        d₁.index = d₂.index :=
  ⟨by decide +kernel, by decide +kernel,
    (dispatcher_dispatches_safely sameIdTasks (sameIdTasks.groupPriorities [0, 1])
      [.next, .next]).2.2⟩

/-! ## Progress -/

/-- Every index that has not completed is in some group. -/
def Covers (s : JobDispatcher n) : Prop :=
  ∀ i, i ∉ s.completedJobs → SortedMap.MemValues i s.groups

section Progress

variable {G}

theorem covers_new {topoIndices : List (Fin n)} (htopo : G.IsTopologicalOrder topoIndices) :
    Covers (new (G.groupPriorities topoIndices)) :=
  fun i _ ↦ (G.memValues_groupPriorities).mpr (htopo.complete i)

/-- Pruning drops only completed indices, dispatching touches no group, and completing an index
only takes it out of what must be covered. -/
theorem covers_step {s : JobDispatcher n} (hs : Covers s) (event : DispatchEvent n) :
    Covers (step G event s).2 := by
  rcases step_cases (G := G) event s with ⟨d, h⟩ | h
  · obtain ⟨-, hnext⟩ := step_eq_some h
    obtain ⟨-, -, -, -, hs'⟩ := next_eq_some hnext
    rw [hs']
    exact hs
  · rcases step_eq_none h with hnext | ⟨index, hs'⟩
    · rw [next_eq_none hnext]
      intro i hi
      exact (SortedMap.mem_values_retain _ i s.groups).mpr ⟨hs i hi, by simpa using hi⟩
    · rw [hs']
      intro i hi
      exact hs i (fun h ↦ hi (Finset.mem_insert_of_mem h))

theorem covers_run : ∀ (events : List (DispatchEvent n)) {s : JobDispatcher n}, Covers s →
    Covers (run G events s).2
  | [], _, hs => hs
  | event :: events, _, hs => covers_run events (covers_step hs event)

end Progress

/-- On a graph whose groups come from `group_priorities` of a topological order, in any reachable
state where every dispatched index has completed, nothing runs and some index is still queued,
`next` dispatches an index that was not visited. -/
theorem next_dispatches_when_nothing_runs {topoIndices : List (Fin n)}
    (htopo : G.IsTopologicalOrder topoIndices) {s : JobDispatcher n}
    (hs : Reachable G (G.groupPriorities topoIndices) s) (hdone : s.completedJobs = s.visited)
    (hidle : s.runningJobs = ∅) (hqueued : s.hasQueuedJobs = true) :
    ∃ i s', next G s = (some i, s') ∧ i ∉ s.visited := by
  obtain ⟨events, rfl⟩ := hs
  have hcovers := covers_run (G := G) events (covers_new htopo)
  -- a queued node whose dependencies have all been dispatched, hence completed
  have hcard : (run G events (new (G.groupPriorities topoIndices))).2.visited.card < n := by
    simpa [hasQueuedJobs] using hqueued
  obtain ⟨r, hrv, hrdeps⟩ := G.exists_ready_of_card_lt htopo hcard
  rw [← hdone] at hrv hrdeps
  have hsome := next_isSome hidle (hdone ▸ hrv) hrv hrdeps (hcovers r hrv)
  obtain ⟨i, hi⟩ := Option.isSome_iff_exists.mp hsome
  have hnext : next G _ = (some i, _) := Prod.ext hi rfl
  exact ⟨i, _, hnext, (next_eq_some hnext).1⟩

/-- Two nodes, the second depending on the first: once the first is dispatched and completed,
`next` dispatches the second. -/
theorem next_dispatches_second_of_two :
    let G : ActionGraph 2 := ⟨fun i ↦ if i = 1 then [0] else [], fun _ ↦ .syncWorkspace⟩
    let s := (run G [.next, .markCompleted 0] (new (G.groupPriorities [0, 1]))).2
    G.IsTopologicalOrder [0, 1] ∧ s.completedJobs = s.visited ∧ s.runningJobs = ∅ ∧
      s.hasQueuedJobs = true ∧ ∃ i s', next G s = (some i, s') ∧ i ∉ s.visited := by
  intro G s
  have htopo : G.IsTopologicalOrder [0, 1] := by decide
  have hdone : s.completedJobs = s.visited := by decide
  have hidle : s.runningJobs = ∅ := by decide
  have hqueued : s.hasQueuedJobs = true := by decide
  exact ⟨htopo, hdone, hidle, hqueued,
    next_dispatches_when_nothing_runs G htopo ⟨_, rfl⟩ hdone hidle hqueued⟩

end JobDispatcher

end Moon
