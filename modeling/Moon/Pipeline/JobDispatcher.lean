import Moon.ActionGraph.ActionGraph
import Moon.Lib.Search

/-!
# The job dispatcher

`JobDispatcher` (`crates/action-pipeline/src/job_dispatcher.rs`) hands the pipeline the next
action to run.  It owns the priority groups and the set of indices it has dispatched, `visited`;
it shares with the running jobs a `JobContext` whose `completed_jobs` and `running_jobs` the jobs
update through `JobContext::mark_completed`.  Those two sets are fields of the state here.

`next` walks the groups from the most critical, and each group in topological order, asking
`find_applicable_index` for a node to run:

* an index already traversed in this call, dispatched or completed is skipped;
* an index whose dependencies have all completed is the answer;
* otherwise, in the critical and high groups (`group < 2`) the search goes down into the
  dependencies, in the order petgraph yields them, and returns the first answer it finds there.

One `traversed` set is shared by the whole walk, recursive calls included.  A found index whose
node is a standard one with a non-zero id is *deferred* — skipped for this call — while a job with
the same id is running; otherwise it is dispatched.  When no index is found, the groups drop the
indices that had completed when the call began.

`find_applicable_index` recurses without a bound.  The model gives it fuel, and `next` passes one
more unit than there are nodes: every call that recurses has just added a new index to
`traversed`, so no chain of calls is deeper than that.

The specification lemmas here are what the rest of the development reads:
`findApplicableIndex_spec` (an answer is ready), `findApplicableIndex_ready` (a ready index is
found), `not_mem_findApplicableIndex` (a search that finds nothing never touches a ready index),
and `next_eq_some` / `next_eq_none` for the two ways `next` ends.
-/

set_option autoImplicit false

namespace Moon

/-- The dispatcher, with the two sets of its `JobContext` that it reads. -/
structure JobDispatcher (n : ℕ) where
  completedJobs : Finset (Fin n)
  runningJobs : Finset (Fin n × UInt64)
  groups : SortedMap ℕ (List (Fin n))
  visited : Finset (Fin n)

namespace JobDispatcher

variable {n : ℕ} (G : ActionGraph n)

/-- `JobDispatcher::new`, over a fresh context: nothing completed, running or visited. -/
def new (groups : SortedMap ℕ (List (Fin n))) : JobDispatcher n :=
  ⟨∅, ∅, groups, ∅⟩

/-- `JobDispatcher::has_queued_jobs`. -/
def hasQueuedJobs (s : JobDispatcher n) : Bool := s.visited.card < n

/-! ## Finding an applicable index -/

/-- `JobDispatcher::find_applicable_index`, with `visited` and `completed` fixed for the whole
search and `traversed` threaded through it. -/
def findApplicableIndex (visited completed : Finset (Fin n)) :
    ℕ → ℕ → Fin n → Finset (Fin n) → Option (Fin n) × Finset (Fin n)
  | 0, _, _, traversed => (none, traversed)
  | fuel + 1, group, index, traversed =>
    if index ∈ traversed ∨ index ∈ visited ∨ index ∈ completed then
      (none, insert index traversed)
    else if (G.deps index).all (· ∈ completed) then (some index, insert index traversed)
    else if group < 2 then
      (G.deps index).findSomeWith (findApplicableIndex visited completed fuel group)
        (insert index traversed)
    else (none, insert index traversed)

section Find

variable {G} {visited completed : Finset (Fin n)}

theorem findApplicableIndex_zero (group : ℕ) (index : Fin n) (traversed : Finset (Fin n)) :
    findApplicableIndex G visited completed 0 group index traversed = (none, traversed) := rfl

theorem findApplicableIndex_succ (fuel group : ℕ) (index : Fin n) (traversed : Finset (Fin n)) :
    findApplicableIndex G visited completed (fuel + 1) group index traversed =
      if index ∈ traversed ∨ index ∈ visited ∨ index ∈ completed then
        (none, insert index traversed)
      else if (G.deps index).all (· ∈ completed) then (some index, insert index traversed)
      else if group < 2 then
        (G.deps index).findSomeWith (findApplicableIndex G visited completed fuel group)
          (insert index traversed)
      else (none, insert index traversed) :=
  rfl

/-- **The four ways a search step ends**: skipped, ready, searched below, or blocked. -/
theorem findApplicableIndex_succ_cases (fuel group : ℕ) (index : Fin n)
    (traversed : Finset (Fin n)) :
    let r := findApplicableIndex G visited completed (fuel + 1) group index traversed
    ((index ∈ traversed ∨ index ∈ visited ∨ index ∈ completed) ∧ r = (none, insert index traversed)) ∨
    (index ∉ traversed ∧ index ∉ visited ∧ index ∉ completed ∧ (∀ d ∈ G.deps index, d ∈ completed) ∧
      r = (some index, insert index traversed)) ∨
    (index ∉ traversed ∧ index ∉ visited ∧ index ∉ completed ∧
      ¬(∀ d ∈ G.deps index, d ∈ completed) ∧ group < 2 ∧
      r = (G.deps index).findSomeWith (findApplicableIndex G visited completed fuel group)
        (insert index traversed)) ∨
    (index ∉ traversed ∧ index ∉ visited ∧ index ∉ completed ∧
      ¬(∀ d ∈ G.deps index, d ∈ completed) ∧ ¬group < 2 ∧
      r = (none, insert index traversed)) := by
  intro r
  by_cases hskip : index ∈ traversed ∨ index ∈ visited ∨ index ∈ completed
  · exact .inl ⟨hskip, by simp only [r, findApplicableIndex_succ, if_pos hskip]⟩
  · simp only [not_or] at hskip
    obtain ⟨ht, hv, hc⟩ := hskip
    have hskip' : ¬(index ∈ traversed ∨ index ∈ visited ∨ index ∈ completed) := by
      simp [ht, hv, hc]
    by_cases hready : (G.deps index).all (· ∈ completed)
    · refine .inr (.inl ⟨ht, hv, hc, by simpa using hready, ?_⟩)
      simp only [r, findApplicableIndex_succ, if_neg hskip', if_pos hready]
    · have hblocked : ¬(∀ d ∈ G.deps index, d ∈ completed) := by simpa using hready
      by_cases hgroup : group < 2
      · refine .inr (.inr (.inl ⟨ht, hv, hc, hblocked, hgroup, ?_⟩))
        simp only [r, findApplicableIndex_succ, if_neg hskip', if_neg hready, if_pos hgroup]
      · refine .inr (.inr (.inr ⟨ht, hv, hc, hblocked, hgroup, ?_⟩))
        simp only [r, findApplicableIndex_succ, if_neg hskip', if_neg hready, if_neg hgroup]

/-- **An answer is ready**: not dispatched, not completed, and every dependency completed. -/
theorem findApplicableIndex_spec {i : Fin n} :
    ∀ {fuel group : ℕ} {index : Fin n} {traversed : Finset (Fin n)},
      (findApplicableIndex G visited completed fuel group index traversed).1 = some i →
      i ∉ visited ∧ i ∉ completed ∧ ∀ d ∈ G.deps i, d ∈ completed
  | 0, _, _, _, h => by simp [findApplicableIndex_zero] at h
  | fuel + 1, group, index, traversed, h => by
    rcases @findApplicableIndex_succ_cases n G visited completed fuel group
      index traversed with ⟨-, hr⟩ | ⟨-, hv, hc, hdeps, hr⟩ | ⟨-, -, -, -, -, hr⟩ | ⟨-, -, -, -, -, hr⟩
    · rw [hr] at h
      cases h
    · rw [hr] at h
      cases h
      exact ⟨hv, hc, hdeps⟩
    · -- the answer came from the search below one of the dependencies
      rw [hr] at h
      obtain ⟨dep, -, t, t', hdep⟩ := List.exists_of_findSomeWith_eq_some h
      exact findApplicableIndex_spec (congrArg Prod.fst hdep)
    · rw [hr] at h
      cases h

/-- A ready index that was not traversed yet is found as soon as the search reaches it. -/
theorem findApplicableIndex_ready {fuel group : ℕ} {r : Fin n} {traversed : Finset (Fin n)}
    (hr : r ∉ traversed) (hv : r ∉ visited) (hc : r ∉ completed)
    (hdeps : ∀ d ∈ G.deps r, d ∈ completed) :
    (findApplicableIndex G visited completed (fuel + 1) group r traversed).1 = some r := by
  rcases @findApplicableIndex_succ_cases n G visited completed fuel
    group r traversed with ⟨hskip, -⟩ | ⟨-, -, -, -, heq⟩ | ⟨-, -, -, hblocked, -⟩ |
      ⟨-, -, -, hblocked, -⟩
  · rcases hskip with h | h | h <;> contradiction
  · rw [heq]
  · exact absurd hdeps hblocked
  · exact absurd hdeps hblocked

/-- **A search that finds nothing never touches a ready index**: the first call that adds a ready
index to `traversed` returns it, and the answer goes all the way up. -/
theorem not_mem_findApplicableIndex {r : Fin n} (hv : r ∉ visited) (hc : r ∉ completed)
    (hdeps : ∀ d ∈ G.deps r, d ∈ completed) :
    ∀ {fuel group : ℕ} {index : Fin n} {traversed traversed' : Finset (Fin n)},
      findApplicableIndex G visited completed fuel group index traversed = (none, traversed') →
      r ∉ traversed → r ∉ traversed'
  | 0, _, _, _, _, h, hr => by
    simp only [findApplicableIndex_zero, Prod.mk.injEq] at h
    exact h.2 ▸ hr
  | fuel + 1, group, index, traversed, traversed', h, hr => by
    -- `index` is not `r`, or the step would have answered `r`
    have hne : index ≠ r := by
      rintro rfl
      have hready : (findApplicableIndex G visited completed (fuel + 1) group index traversed).1
          = some index := findApplicableIndex_ready hr hv hc hdeps
      rw [h] at hready
      cases hready
    have hins : r ∉ insert index traversed := by
      rw [Finset.mem_insert, not_or]
      exact ⟨Ne.symm hne, hr⟩
    rcases @findApplicableIndex_succ_cases n G visited completed fuel
      group index traversed with ⟨-, hr'⟩ | ⟨-, -, -, -, hr'⟩ | ⟨-, -, -, -, -, hr'⟩ |
        ⟨-, -, -, -, -, hr'⟩
    · rw [h, Prod.mk.injEq] at hr'
      exact hr'.2 ▸ hins
    · rw [h] at hr'
      cases hr'
    · -- the searches below the dependencies keep `r` out, each by the induction hypothesis
      rw [h] at hr'
      have hnone := congrArg Prod.fst hr'
      have hinv := List.findSomeWith_none_inv (fun t ↦ r ∉ t)
        (fun dep _ t t' ht hdep ↦ not_mem_findApplicableIndex hv hc hdeps hdep ht) hins hnone.symm
      rw [← hr'] at hinv
      exact hinv
    · rw [h, Prod.mk.injEq] at hr'
      exact hr'.2 ▸ hins

/-- The search only ever adds to `traversed`. -/
theorem subset_findApplicableIndex :
    ∀ {fuel group : ℕ} {index : Fin n} {traversed : Finset (Fin n)},
      traversed ⊆ (findApplicableIndex G visited completed fuel group index traversed).2
  | 0, _, _, _ => subset_rfl
  | fuel + 1, group, index, traversed => by
    have hins : traversed ⊆ insert index traversed := Finset.subset_insert _ _
    rcases @findApplicableIndex_succ_cases n G visited completed fuel
      group index traversed with ⟨-, hr⟩ | ⟨-, -, -, -, hr⟩ | ⟨-, -, -, -, -, hr⟩ |
        ⟨-, -, -, -, -, hr⟩
    · rw [hr]
      exact hins
    · rw [hr]
      exact hins
    · rw [hr]
      refine hins.trans (List.findSomeWith_inv (fun t ↦ insert index traversed ⊆ t) ?_ subset_rfl)
      exact fun _ _ t ht ↦ ht.trans subset_findApplicableIndex
    · rw [hr]
      exact hins

/-- **Enough fuel.**  Once the fuel exceeds the number of indices not yet traversed, one more unit
changes nothing: every call that recurses has traversed one more index, so the search never
reaches the bottom of its fuel.  `next` starts each search with `n + 1`, which is always enough,
so the model computes what the unbounded recursion of the source computes. -/
theorem findApplicableIndex_succ_fuel :
    ∀ {fuel group : ℕ} {index : Fin n} {traversed : Finset (Fin n)},
      n - traversed.card < fuel →
      findApplicableIndex G visited completed (fuel + 1) group index traversed
        = findApplicableIndex G visited completed fuel group index traversed
  | 0, _, _, _, h => absurd h (Nat.not_lt_zero _)
  | fuel + 1, group, index, traversed, hfuel => by
    rw [findApplicableIndex_succ, findApplicableIndex_succ]
    split_ifs with hskip hready hgroup
    · rfl
    · rfl
    · -- the searches below run on sets with one more index, within the fuel that is left
      simp only [not_or] at hskip
      have hcard : (insert index traversed).card = traversed.card + 1 :=
        Finset.card_insert_of_notMem hskip.1
      have hle : (insert index traversed).card ≤ n := by
        simpa using Finset.card_le_univ (insert index traversed)
      refine List.findSomeWith_congr (fun t ↦ insert index traversed ⊆ t) ?_ ?_ subset_rfl
      · intro dep _ t ht
        have := Finset.card_le_card ht
        exact findApplicableIndex_succ_fuel (by omega)
      · exact fun _ _ t ht ↦ ht.trans subset_findApplicableIndex
    · rfl

/-- Any fuel beyond `n + 1` computes what `n + 1` computes, from any traversed set. -/
theorem findApplicableIndex_add_fuel (k group : ℕ) (index : Fin n) (traversed : Finset (Fin n)) :
    findApplicableIndex G visited completed (n + 1 + k) group index traversed
      = findApplicableIndex G visited completed (n + 1) group index traversed := by
  induction k with
  | zero => rfl
  | succ k ih =>
    rw [← Nat.add_assoc, findApplicableIndex_succ_fuel (by omega), ih]

end Find

/-! ## Dispatching -/

/-- The deferral test of `next`: a standard node with a non-zero id waits while a job with the
same id runs. -/
def isDeferred (s : JobDispatcher n) (index : Fin n) : Prop :=
  0 < (G.nodes index).getId ∧ (G.nodes index).isStandard ∧
    ∃ running ∈ s.runningJobs, running.2 = (G.nodes index).getId

instance (s : JobDispatcher n) (index : Fin n) : Decidable (isDeferred G s index) := by
  unfold isDeferred
  infer_instance

/-- One round of the loop of `next`, for a candidate `(group, index)` of the groups: the applicable
index found from it, unless deferred. -/
def tryCandidate (s : JobDispatcher n) (candidate : ℕ × Fin n) (traversed : Finset (Fin n)) :
    Option (Fin n) × Finset (Fin n) :=
  match findApplicableIndex G s.visited s.completedJobs (n + 1) candidate.1 candidate.2 traversed with
  | (some index, traversed) => (if isDeferred G s index then none else some index, traversed)
  | (none, traversed) => (none, traversed)

/-- The candidates of `next`, in the order it tries them: the groups from the most critical, each
in topological order. -/
def candidates (groups : SortedMap ℕ (List (Fin n))) : List (ℕ × Fin n) :=
  groups.entries.flatMap fun entry ↦ entry.2.map fun index ↦ (entry.1, index)

/-- What dispatching `index` does: record a standard node with an id as running, and the index as
visited. -/
def dispatch (s : JobDispatcher n) (index : Fin n) : JobDispatcher n :=
  { s with
    runningJobs :=
      if 0 < (G.nodes index).getId ∧ (G.nodes index).isStandard then
        insert (index, (G.nodes index).getId) s.runningJobs
      else s.runningJobs
    visited := insert index s.visited }

/-- `JobDispatcher::next`: the first index the walk finds and does not defer, dispatched; or,
when there is none, the groups pruned of the indices completed when the call began. -/
def next (s : JobDispatcher n) : Option (Fin n) × JobDispatcher n :=
  match ((candidates s.groups).findSomeWith (tryCandidate G s) ∅).1 with
  | some index => (some index, dispatch G s index)
  | none => (none, { s with groups := s.groups.retain fun index ↦ index ∉ s.completedJobs })

section Next

variable {G}

theorem tryCandidate_eq_some {s : JobDispatcher n} {candidate : ℕ × Fin n}
    {traversed traversed' : Finset (Fin n)} {i : Fin n}
    (h : tryCandidate G s candidate traversed = (some i, traversed')) :
    (findApplicableIndex G s.visited s.completedJobs (n + 1) candidate.1 candidate.2
        traversed).1 = some i ∧ ¬isDeferred G s i := by
  unfold tryCandidate at h
  rcases hfind : findApplicableIndex G s.visited s.completedJobs (n + 1) candidate.1 candidate.2
    traversed with ⟨found, t⟩
  rw [hfind] at h
  cases found with
  | some index =>
    dsimp only at h
    split_ifs at h with hdef
    · cases h
    · cases h
      exact ⟨rfl, hdef⟩
  | none => cases h

/-- With nothing running, no index is deferred: a round is the search alone. -/
theorem tryCandidate_of_idle {s : JobDispatcher n} (hidle : s.runningJobs = ∅)
    (candidate : ℕ × Fin n) (traversed : Finset (Fin n)) :
    tryCandidate G s candidate traversed
      = findApplicableIndex G s.visited s.completedJobs (n + 1) candidate.1 candidate.2
          traversed := by
  have hnot : ∀ i, ¬isDeferred G s i := by
    rintro i ⟨-, -, running, hmem, -⟩
    rw [hidle] at hmem
    cases hmem
  unfold tryCandidate
  rcases hfind : findApplicableIndex G s.visited s.completedJobs (n + 1) candidate.1 candidate.2
    traversed with ⟨found, t⟩
  cases found with
  | some index =>
    dsimp only
    rw [if_neg (hnot index)]
  | none => rfl

theorem mem_candidates {groups : SortedMap ℕ (List (Fin n))} {i : Fin n}
    (h : SortedMap.MemValues i groups) : ∃ group, (group, i) ∈ candidates groups := by
  obtain ⟨entry, hentry, hi⟩ := h
  refine ⟨entry.1, ?_⟩
  unfold candidates
  rw [List.mem_flatMap]
  exact ⟨entry, hentry, List.mem_map.mpr ⟨i, hi, rfl⟩⟩

/-- **What `next` dispatches** is ready, and not deferred; the state records it as dispatched. -/
theorem next_eq_some {s s' : JobDispatcher n} {i : Fin n} (h : next G s = (some i, s')) :
    i ∉ s.visited ∧ i ∉ s.completedJobs ∧ (∀ d ∈ G.deps i, d ∈ s.completedJobs) ∧
      ¬isDeferred G s i ∧ s' = dispatch G s i := by
  unfold next at h
  cases hloop : ((candidates s.groups).findSomeWith (tryCandidate G s) ∅).1 with
  | some index =>
    rw [hloop] at h
    cases h
    obtain ⟨candidate, -, t, t', hround⟩ := List.exists_of_findSomeWith_eq_some hloop
    obtain ⟨hfind, hdef⟩ := tryCandidate_eq_some hround
    obtain ⟨hv, hc, hdeps⟩ := findApplicableIndex_spec hfind
    exact ⟨hv, hc, hdeps, hdef, rfl⟩
  | none =>
    rw [hloop] at h
    cases h

/-- When `next` dispatches nothing it only prunes the groups. -/
theorem next_eq_none {s s' : JobDispatcher n} (h : next G s = (none, s')) :
    s' = { s with groups := s.groups.retain fun index ↦ index ∉ s.completedJobs } := by
  unfold next at h
  cases hloop : ((candidates s.groups).findSomeWith (tryCandidate G s) ∅).1 with
  | some index =>
    rw [hloop] at h
    cases h
  | none =>
    rw [hloop] at h
    cases h
    rfl

/-- **`next` answers when nothing runs and a ready index is in the groups**: the walk that finds
nothing keeps the ready index out of `traversed`, and reaching it would answer. -/
theorem next_isSome {s : JobDispatcher n} (hidle : s.runningJobs = ∅) {r : Fin n}
    (hv : r ∉ s.visited) (hc : r ∉ s.completedJobs) (hdeps : ∀ d ∈ G.deps r, d ∈ s.completedJobs)
    (hr : SortedMap.MemValues r s.groups) : (next G s).1.isSome := by
  obtain ⟨group, hcand⟩ := mem_candidates hr
  have hloop : ((candidates s.groups).findSomeWith (tryCandidate G s) ∅).1.isSome := by
    refine List.findSomeWith_isSome (fun t ↦ r ∉ t) ?_ (Finset.notMem_empty r) ⟨(group, r), hcand, ?_⟩
    · intro candidate _ t t' ht hround
      rw [tryCandidate_of_idle hidle] at hround
      exact not_mem_findApplicableIndex hv hc hdeps hround ht
    · intro t ht
      rw [tryCandidate_of_idle hidle, findApplicableIndex_ready ht hv hc hdeps]
      rfl
  obtain ⟨index, hindex⟩ := Option.isSome_iff_exists.1 hloop
  unfold next
  rw [hindex]
  rfl

end Next

/-- `JobContext::mark_completed`: the index stops running and is completed. -/
def markCompleted (s : JobDispatcher n) (index : Fin n) : JobDispatcher n :=
  { s with
    runningJobs := s.runningJobs.filter fun running ↦ running.1 ≠ index
    completedJobs := insert index s.completedJobs }

end JobDispatcher

end Moon
