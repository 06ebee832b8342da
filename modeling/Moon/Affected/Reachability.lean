import Moon.Affected.Mark
import Mathlib.Data.Finset.Card
import Mathlib.Data.Finset.Union
import Mathlib.Logic.Relation

/-!
# Affected marks against reachability

The walks of the affected tracker (`trackRelations`) mark the related keys of every node they
enter, and enter the node of each key they mark, unless the walk is direct; a `cycle` set shared
by the whole walk keeps a node from being entered twice.  This file shows that the marks are the
ones reachability predicts, on any graph, cycles and diamonds included:

* a deep walk from `t` marks `(u, mark s)` exactly when `s` can be reached from `t` and `u` is
  related to `s`; a direct walk only for `s = t`; a walk of scope none marks nothing
  (`trackRelations_marks`);
* so `mark_task_affected` adds to the task marks the task's own mark, and exactly the
  `DownstreamTask` and `UpstreamTask` marks of the dependency and dependent paths its scopes allow
  (`markTaskAffected_marks`), and `mark_project_affected` likewise for projects.

Both need two facts about the graph.  Looking a key up gives the node of that key
(`Coherent`), and a finite set of keys closed under the edges, with no more keys than the graph's
`size`, holds the start (`Bounded`): the walk's fuel of `size + 1` is then never exhausted.

The proof is the white-path argument of depth-first search.  A walk that succeeds leaves a
`WalkPost`: the keys it entered are reachable from its root and closed under the edges, and it
added the marks of exactly those keys.  The loop over the related keys of a node keeps a
`WalkLoopInv` of the keys done so far, from which the walk's `WalkPost` follows.
-/

set_option autoImplicit false

namespace Moon

section Walk

variable {K N : Type} [DecidableEq K]

/-- `y` is related to the node `x` looks up: an edge of the graph a walk follows. -/
def KeyStep (lookup : K → Except String N) (related : N → List K) (x y : K) : Prop :=
  ∃ n, lookup x = .ok n ∧ y ∈ related n

/-- The marks a walk puts when it enters the node of `x`: each related key, marked by `x`. -/
def keyMarks (lookup : K → Except String N) (related : N → List K) (mark : K → AffectedBy)
    (x : K) : Finset (K × AffectedBy) :=
  match lookup x with
  | .ok n => ((related n).map fun y ↦ (y, mark x)).toFinset
  | .error _ => ∅

/-- The keys whose related keys a walk with these scope flags marks, from `start`: none, `start`
alone when direct, and every key reachable from it when deep. -/
def WalkReach (lookup : K → Except String N) (related : N → List K) (scopeNone scopeDirect : Bool)
    (start s : K) : Prop :=
  scopeNone = false ∧
    if scopeDirect then s = start else Relation.ReflTransGen (KeyStep lookup related) start s

variable {key : N → K} {lookup : K → Except String N} {related : N → List K}
  {mark : K → AffectedBy}

theorem mem_keyMarks {x u : K} {by_ : AffectedBy} :
    (u, by_) ∈ keyMarks lookup related mark x ↔ by_ = mark x ∧ KeyStep lookup related x u := by
  unfold keyMarks KeyStep
  cases lookup x with
  | ok n => simp [eq_comm, and_comm]
  | error e => simp

omit [DecidableEq K] in
theorem keyStep_iff_of_lookup {x y : K} {n : N} (h : lookup x = .ok n) :
    KeyStep lookup related x y ↔ y ∈ related n := by
  simp [KeyStep, h]

theorem keyMarks_of_lookup {x : K} {n : N} (h : lookup x = .ok n) :
    keyMarks lookup related mark x = ((related n).map fun y ↦ (y, mark x)).toFinset := by
  rw [keyMarks, h]

omit [DecidableEq K] in
/-- Everything reachable from a key of a set closed under the edges is in the set. -/
theorem mem_of_reflTransGen {T : Finset K} (hT : ∀ x ∈ T, ∀ y, KeyStep lookup related x y → y ∈ T)
    {a b : K} (ha : a ∈ T) (h : Relation.ReflTransGen (KeyStep lookup related) a b) : b ∈ T := by
  induction h with
  | refl => exact ha
  | tail _ hbc ih => exact hT _ ih _ hbc

/-- Entering a new key of `S` leaves fewer keys of `S` to enter. -/
theorem card_sdiff_lt {S c₀ c : Finset K} {r : K} (hr : r ∈ S) (hrc : r ∉ c₀)
    (hc : insert r c₀ ⊆ c) : (S \ c).card < (S \ c₀).card := by
  refine Finset.card_lt_card ⟨Finset.sdiff_subset_sdiff le_rfl ((Finset.subset_insert r c₀).trans hc),
    fun hsub ↦ ?_⟩
  have hmem : r ∈ S \ c₀ := Finset.mem_sdiff.2 ⟨hr, hrc⟩
  exact (Finset.mem_sdiff.1 (hsub hmem)).2 (hc (Finset.mem_insert_self r c₀))

/-! ## The invariants of a deep walk -/

variable (lookup related mark)

/-- What a deep walk from `root`, started with the keys `c₀` entered and the marks `W₀`, leaves
when it succeeds: the keys it entered are reachable from `root` and closed under the edges, and it
added their marks. -/
structure WalkPost (root : K) (W₀ : Finset (K × AffectedBy)) (c₀ : Finset K)
    (s : Finset (K × AffectedBy) × Finset K) : Prop where
  mono : c₀ ⊆ s.2
  root_mem : root ∈ s.2
  sound : ∀ x ∈ s.2, x ∉ c₀ → Relation.ReflTransGen (KeyStep lookup related) root x
  closed : ∀ x ∈ s.2, x ∉ c₀ → ∀ y, KeyStep lookup related x y → y ∈ s.2
  marks : s.1 = W₀ ∪ (s.2 \ c₀).biUnion (keyMarks lookup related mark)

/-- What the loop over the related keys of the node of `r` keeps, started with the keys `c'`
entered and the marks `W₀`, after the keys `done`: those are entered, the keys entered since are
reachable from `r` and closed under the edges, and the marks of `done` and of those keys are
added. -/
structure WalkLoopInv (r : K) (W₀ : Finset (K × AffectedBy)) (c' : Finset K) (done : List K)
    (s : Finset (K × AffectedBy) × Finset K) : Prop where
  mono : c' ⊆ s.2
  done_mem : ∀ y ∈ done, y ∈ s.2
  sound : ∀ x ∈ s.2, x ∉ c' → Relation.ReflTransGen (KeyStep lookup related) r x
  closed : ∀ x ∈ s.2, x ∉ c' → ∀ y, KeyStep lookup related x y → y ∈ s.2
  marks : s.1 = W₀ ∪ (done.map fun y ↦ (y, mark r)).toFinset ∪
    (s.2 \ c').biUnion (keyMarks lookup related mark)

variable {lookup related mark}

/-- A walk that finds its root entered already changes nothing. -/
theorem WalkPost.of_mem {r : K} {W₀ : Finset (K × AffectedBy)} {c₀ : Finset K} (hr : r ∈ c₀) :
    WalkPost lookup related mark r W₀ c₀ (W₀, c₀) where
  mono := subset_rfl
  root_mem := hr
  sound := fun _ hx hx' ↦ absurd hx hx'
  closed := fun _ hx hx' ↦ absurd hx hx'
  marks := by rw [Finset.sdiff_self, Finset.biUnion_empty, Finset.union_empty]

theorem WalkLoopInv.start {r : K} {W₀ : Finset (K × AffectedBy)} {c' : Finset K} :
    WalkLoopInv lookup related mark r W₀ c' [] (W₀, c') where
  mono := subset_rfl
  done_mem := fun _ h ↦ absurd h List.not_mem_nil
  sound := fun _ hx hx' ↦ absurd hx hx'
  closed := fun _ hx hx' ↦ absurd hx hx'
  marks := by simp

/-- One round of the loop: mark `y`, then the walk from `y` adds what it enters. -/
theorem WalkLoopInv.step {r y : K} {W₀ W : Finset (K × AffectedBy)} {c' c : Finset K} {done : List K}
    {s : Finset (K × AffectedBy) × Finset K} (hinv : WalkLoopInv lookup related mark r W₀ c' done (W, c))
    (hry : KeyStep lookup related r y)
    (hpost : WalkPost lookup related mark y (insert (y, mark r) W) c s) :
    WalkLoopInv lookup related mark r W₀ c' (done ++ [y]) s where
  mono := hinv.mono.trans hpost.mono
  done_mem := by
    intro y' hy'
    rcases List.mem_append.1 hy' with hy' | hy'
    · exact hpost.mono (hinv.done_mem y' hy')
    · rw [List.mem_singleton.1 hy']
      exact hpost.root_mem
  sound := by
    intro x hx hxc
    by_cases hxold : x ∈ c
    · exact hinv.sound x hxold hxc
    · exact .head hry (hpost.sound x hx hxold)
  closed := by
    intro x hx hxc y' hy'
    by_cases hxold : x ∈ c
    · exact hpost.mono (hinv.closed x hxold hxc y' hy')
    · exact hpost.closed x hx hxold y' hy'
  marks := by
    -- the keys entered since `c'` are those entered before this round and those entered in it
    have hW : W = _ := hinv.marks
    rw [hpost.marks, hW, ← Finset.sdiff_union_sdiff_cancel hpost.mono hinv.mono,
      Finset.union_biUnion, List.map_append, List.toFinset_append]
    ext x
    simp only [Finset.mem_union, Finset.mem_insert, List.map_cons, List.map_nil,
      List.toFinset_cons, List.toFinset_nil, insert_empty_eq, Finset.mem_singleton]
    tauto

/-- The loop over all related keys of the node of `r` ends where the walk from `r` should. -/
theorem WalkLoopInv.walkPost {r : K} {node : N} {W₀ : Finset (K × AffectedBy)} {c₀ : Finset K}
    {s : Finset (K × AffectedBy) × Finset K} (hnode : lookup r = .ok node) (hrc : r ∉ c₀)
    (hinv : WalkLoopInv lookup related mark r W₀ (insert r c₀) (related node) s) :
    WalkPost lookup related mark r W₀ c₀ s where
  mono := (Finset.subset_insert r c₀).trans hinv.mono
  root_mem := hinv.mono (Finset.mem_insert_self r c₀)
  sound := by
    intro x hx hxc
    by_cases hxr : x = r
    · rw [hxr]
    · exact hinv.sound x hx (by simp [hxr, hxc])
  closed := by
    intro x hx hxc y hy
    by_cases hxr : x = r
    · -- the node of `r` is `node`, whose related keys the loop has done
      subst hxr
      obtain ⟨n, hn, hyn⟩ := hy
      rw [hnode, Except.ok.injEq] at hn
      subst hn
      exact hinv.done_mem y hyn
    · exact hinv.closed x hx (by simp [hxr, hxc]) y hy
  marks := by
    have hr : r ∈ s.2 \ c₀ := Finset.mem_sdiff.2 ⟨hinv.mono (Finset.mem_insert_self r c₀), hrc⟩
    rw [hinv.marks, ← Finset.insert_erase hr, ← Finset.sdiff_insert, Finset.biUnion_insert,
      keyMarks_of_lookup hnode, Finset.union_assoc]

/-! ## Walks -/

/-- A round of a deep walk that succeeds looked its key up and walked on from the node. -/
theorem relatedStep_eq_ok {walk : N → ℕ → WalkM K Unit} {node : N} {depth : ℕ} {k : K}
    {W : Finset (K × AffectedBy)} {c : Finset K} {s' : Finset (K × AffectedBy) × Finset K}
    (h : relatedStep key lookup mark false walk node depth k (W, c) = .ok () s') :
    ∃ next, lookup k = .ok next ∧ walk next (depth + 1) (insert (k, mark (key node)) W, c) = .ok () s' := by
  simp only [relatedStep, Bool.false_eq_true, and_false, if_false] at h
  cases hk : lookup k with
  | error e =>
    rw [hk] at h
    cases h
  | ok next =>
    rw [hk] at h
    exact ⟨next, rfl, h⟩

/-- A round of a direct walk at its start only marks. -/
theorem relatedStep_direct {walk : N → ℕ → WalkM K Unit} {node : N} {k : K}
    (s : Finset (K × AffectedBy) × Finset K) :
    relatedStep key lookup mark true walk node 0 k s = .ok () (insert (k, mark (key node)) s.1, s.2) := by
  simp [relatedStep]

section Deep

variable (hcoh : ∀ k n, lookup k = .ok n → key n = k) {S : Finset K}
  (hS : ∀ k n, lookup k = .ok n → k ∈ S)
include hcoh hS

/-- **A deep walk that succeeds leaves its `WalkPost`**, when it has more fuel than there are keys
of `S`, which holds every key that resolves, it has not entered.  By induction on the fuel; the
loop over the related keys keeps `WalkLoopInv`, each round by the walk from its key. -/
theorem trackRelations_deep_post : ∀ (fuel : ℕ) (node : N) (depth : ℕ) {W₀ : Finset (K × AffectedBy)}
    {c₀ : Finset K} {s : Finset (K × AffectedBy) × Finset K},
    lookup (key node) = .ok node → (S \ c₀).card < fuel →
    trackRelations key related lookup mark false false fuel node depth (W₀, c₀) = .ok () s →
    WalkPost lookup related mark (key node) W₀ c₀ s
  | 0, _, _, _, _, _, _, hfuel, _ => absurd hfuel (Nat.not_lt_zero _)
  | fuel + 1, node, depth, W₀, c₀, s, hnode, hfuel, h => by
    have hrS : key node ∈ S := hS _ _ hnode
    by_cases hc : key node ∈ c₀
    · rw [trackRelations_succ_of_mem hc] at h
      cases h
      exact WalkPost.of_mem hc
    rw [trackRelations_succ_of_walk hc rfl] at h
    have hstep : ∀ done y s s', WalkLoopInv lookup related mark (key node) W₀ (insert (key node) c₀) done s →
        y ∈ related node →
        relatedStep key lookup mark false (trackRelations key related lookup mark false false fuel)
          node depth y s = .ok ⟨⟩ s' →
        WalkLoopInv lookup related mark (key node) W₀ (insert (key node) c₀) (done ++ [y]) s' := by
      rintro done y ⟨W, c⟩ s' hinv hy hround
      obtain ⟨next, hnext, hwalk⟩ := relatedStep_eq_ok hround
      have hkey : key next = y := hcoh y next hnext
      have hry : KeyStep lookup related (key node) y := ⟨node, hnode, hy⟩
      have hless : (S \ c).card < fuel := by
        have hlt : (S \ c).card < (S \ c₀).card := card_sdiff_lt hrS hc hinv.mono
        omega
      have hpost := trackRelations_deep_post fuel next (depth + 1) (hkey ▸ hnext) hless hwalk
      rw [hkey] at hpost
      exact hinv.step hry hpost
    have hloop := EStateM.forM_inv_of_ok _ hstep (fun _ h ↦ h) [] WalkLoopInv.start h
    rw [List.nil_append] at hloop
    exact WalkLoopInv.walkPost hnode hc hloop

end Deep

/-- The loop of a direct walk marks each related key of the start, by the start. -/
theorem forM_relatedStep_direct {walk : N → ℕ → WalkM K Unit} {node : N}
    {s s' : Finset (K × AffectedBy) × Finset K}
    (h : forM (related node) (relatedStep key lookup mark true walk node 0) s = .ok () s') :
    s'.1 = s.1 ∪ ((related node).map fun y ↦ (y, mark (key node))).toFinset := by
  have hstep : ∀ done y (t t' : Finset (K × AffectedBy) × Finset K),
      t.1 = s.1 ∪ (done.map fun y ↦ (y, mark (key node))).toFinset → y ∈ related node →
      relatedStep key lookup mark true walk node 0 y t = .ok ⟨⟩ t' →
      t'.1 = s.1 ∪ ((done ++ [y]).map fun y ↦ (y, mark (key node))).toFinset := by
    intro done y t t' ht _ hround
    rw [relatedStep_direct] at hround
    cases hround
    rw [ht]
    ext x
    simp only [Finset.mem_insert, Finset.mem_union, List.mem_toFinset, List.map_append,
      List.mem_append, List.map_cons, List.map_nil, List.mem_singleton]
    tauto
  have hloop := EStateM.forM_inv_of_ok _ hstep (fun _ h ↦ h) [] (by simp) h
  rwa [List.nil_append] at hloop

/-- **The marks of a walk are the ones reachability predicts**: from a fresh `cycle` set, a walk
that succeeds marks `(u, mark k)` exactly for the keys `k` its scope reaches and their related
keys `u`, given a set `S` of fewer keys than the walk has fuel that holds every key that
resolves. -/
theorem trackRelations_marks (hcoh : ∀ k n, lookup k = .ok n → key n = k) {S : Finset K}
    (hS : ∀ k n, lookup k = .ok n → k ∈ S) {scopeNone scopeDirect : Bool}
    {fuel : ℕ} {node : N} {W₀ : Finset (K × AffectedBy)} {s : Finset (K × AffectedBy) × Finset K}
    (hnode : lookup (key node) = .ok node) (hfuel : S.card < fuel)
    (h : trackRelations key related lookup mark scopeNone scopeDirect fuel node 0 (W₀, ∅) = .ok () s)
    (u : K) (by_ : AffectedBy) :
    (u, by_) ∈ s.1 ↔ (u, by_) ∈ W₀ ∨ ∃ k, by_ = mark k ∧
      WalkReach lookup related scopeNone scopeDirect (key node) k ∧ KeyStep lookup related k u := by
  obtain ⟨fuel, rfl⟩ : ∃ f, fuel = f + 1 := ⟨fuel - 1, by omega⟩
  have hfresh : key node ∉ (∅ : Finset K) := Finset.notMem_empty _
  cases scopeNone with
  | true =>
    rw [trackRelations_succ_of_none hfresh rfl] at h
    cases h
    unfold WalkReach
    simp
  | false =>
    cases scopeDirect with
    | true =>
      -- a direct walk marks the related keys of the start and walks no further
      rw [trackRelations_succ_of_walk hfresh rfl] at h
      rw [forM_relatedStep_direct h]
      unfold WalkReach
      simp [keyStep_iff_of_lookup hnode, and_comm, eq_comm]
    | false =>
      -- a deep walk enters exactly the keys reachable from the start
      have hpost := trackRelations_deep_post hcoh hS (fuel + 1) node 0 hnode
        (by rwa [Finset.sdiff_empty]) h
      have hreach : ∀ k, k ∈ s.2 ↔ Relation.ReflTransGen (KeyStep lookup related) (key node) k :=
        fun k ↦ ⟨fun hk ↦ hpost.sound k hk (Finset.notMem_empty k),
          mem_of_reflTransGen (fun x hx ↦ hpost.closed x hx (Finset.notMem_empty x))
            hpost.root_mem⟩
      rw [hpost.marks, Finset.sdiff_empty, Finset.mem_union, Finset.mem_biUnion]
      unfold WalkReach
      simp only [mem_keyMarks, hreach, Bool.false_eq_true, if_false, true_and]
      constructor
      · rintro (hW | ⟨k, hk, hby, hku⟩)
        · exact .inl hW
        · exact .inr ⟨k, hby, hk, hku⟩
      · rintro (hW | ⟨k, hby, hk, hku⟩)
        · exact .inl hW
        · exact .inr ⟨k, hk, hby, hku⟩

end Walk

/-! ## The trackers -/

/-- How far a scope of dependencies reaches from the start: nowhere, the start alone, or every
source a path leads to. -/
def UpstreamScope.Reaches {K : Type} (scope : UpstreamScope) (step : K → K → Prop) (start s : K) :
    Prop :=
  match scope with
  | .none => False
  | .direct => s = start
  | .deep => Relation.ReflTransGen step start s

/-- How far a scope of dependents reaches from the start. -/
def DownstreamScope.Reaches {K : Type} (scope : DownstreamScope) (step : K → K → Prop)
    (start s : K) : Prop :=
  match scope with
  | .none => False
  | .direct => s = start
  | .deep => Relation.ReflTransGen step start s

/-- A workspace graph as the trackers take it: looking a target or an id up gives the task or the
project of it, and at most `size` targets and `size` ids resolve. -/
structure AffectedGraph.WellFormed (G : AffectedGraph) : Prop where
  getTask_target : ∀ target task, G.getTask target = .ok task → task.target = target
  getProject_id : ∀ id project, G.getProject id = .ok project → project.id = id
  tasks_le_size : ∃ S : Finset Target,
    (∀ target task, G.getTask target = .ok task → target ∈ S) ∧ S.card ≤ G.size
  projects_le_size : ∃ S : Finset String,
    (∀ id project, G.getProject id = .ok project → id ∈ S) ∧ S.card ≤ G.size

namespace AffectedGraph

variable (G : AffectedGraph)

/-- `u` is a dependency of the task of `s`. -/
def TaskDependency : Target → Target → Prop :=
  KeyStep G.getTask fun task ↦ task.deps.map (·.target)

/-- `u` is a dependent of the task of `s`. -/
def TaskDependent : Target → Target → Prop :=
  KeyStep G.getTask G.taskDependents

/-- `u` is a dependency of the project of `s`. -/
def ProjectDependency : String → String → Prop :=
  KeyStep G.getProject fun project ↦ project.dependencies.map (·.id)

/-- `u` is a dependent of the project of `s`. -/
def ProjectDependent : String → String → Prop :=
  KeyStep G.getProject G.projectDependents

end AffectedGraph

section Trackers

variable {K N : Type} {lookup : K → Except String N} {related : N → List K} {start s : K}

theorem UpstreamScope.walkReach_iff (scope : UpstreamScope) :
    WalkReach lookup related (scope == .none) (scope == .direct) start s ↔
      scope.Reaches (KeyStep lookup related) start s := by
  unfold WalkReach
  cases scope <;> simp [UpstreamScope.Reaches]

theorem DownstreamScope.walkReach_iff (scope : DownstreamScope) :
    WalkReach lookup related (scope == .none) (scope == .direct) start s ↔
      scope.Reaches (KeyStep lookup related) start s := by
  unfold WalkReach
  cases scope <;> simp [DownstreamScope.Reaches]

end Trackers

section Marking

variable {G : AffectedGraph} (hwf : G.WellFormed)
include hwf

/-- The dependency walk of a task of the graph marks the dependencies of what its scope reaches. -/
theorem trackTaskDependencies_marks {upstream : UpstreamScope} {task : Task}
    (htask : G.getTask task.target = .ok task) {T : Finset (Target × AffectedBy)}
    {s : Finset (Target × AffectedBy) × Finset Target}
    (h : trackTaskDependencies G upstream task (T, ∅) = .ok () s) (u : Target) (x : AffectedBy) :
    (u, x) ∈ s.1 ↔ (u, x) ∈ T ∨ ∃ k, x = .downstreamTask k ∧
      upstream.Reaches G.TaskDependency task.target k ∧ G.TaskDependency k u := by
  obtain ⟨S, hS, hcard⟩ := hwf.tasks_le_size
  rw [trackRelations_marks hwf.getTask_target hS htask (Nat.lt_succ_of_le hcard) h]
  simp only [UpstreamScope.walkReach_iff]
  rfl

/-- The dependent walk of a task of the graph marks the dependents of what its scope reaches. -/
theorem trackTaskDependents_marks {downstream : DownstreamScope} {task : Task}
    (htask : G.getTask task.target = .ok task) {T : Finset (Target × AffectedBy)}
    {s : Finset (Target × AffectedBy) × Finset Target}
    (h : trackTaskDependents G downstream task (T, ∅) = .ok () s) (u : Target) (x : AffectedBy) :
    (u, x) ∈ s.1 ↔ (u, x) ∈ T ∨ ∃ k, x = .upstreamTask k ∧
      downstream.Reaches G.TaskDependent task.target k ∧ G.TaskDependent k u := by
  obtain ⟨S, hS, hcard⟩ := hwf.tasks_le_size
  rw [trackRelations_marks hwf.getTask_target hS htask (Nat.lt_succ_of_le hcard) h]
  simp only [DownstreamScope.walkReach_iff]
  rfl

/-- The dependency walk of a project of the graph. -/
theorem trackProjectDependencies_marks {upstream : UpstreamScope} {project : Project}
    (hproject : G.getProject project.id = .ok project) {P : Finset (String × AffectedBy)}
    {s : Finset (String × AffectedBy) × Finset String}
    (h : trackProjectDependencies G upstream project (P, ∅) = .ok () s) (u : String)
    (x : AffectedBy) :
    (u, x) ∈ s.1 ↔ (u, x) ∈ P ∨ ∃ k, x = .downstreamProject k ∧
      upstream.Reaches G.ProjectDependency project.id k ∧ G.ProjectDependency k u := by
  obtain ⟨S, hS, hcard⟩ := hwf.projects_le_size
  rw [trackRelations_marks hwf.getProject_id hS hproject (Nat.lt_succ_of_le hcard) h]
  simp only [UpstreamScope.walkReach_iff]
  rfl

/-- The dependent walk of a project of the graph. -/
theorem trackProjectDependents_marks {downstream : DownstreamScope} {project : Project}
    (hproject : G.getProject project.id = .ok project) {P : Finset (String × AffectedBy)}
    {s : Finset (String × AffectedBy) × Finset String}
    (h : trackProjectDependents G downstream project (P, ∅) = .ok () s) (u : String)
    (x : AffectedBy) :
    (u, x) ∈ s.1 ↔ (u, x) ∈ P ∨ ∃ k, x = .upstreamProject k ∧
      downstream.Reaches G.ProjectDependent project.id k ∧ G.ProjectDependent k u := by
  obtain ⟨S, hS, hcard⟩ := hwf.projects_le_size
  rw [trackRelations_marks hwf.getProject_id hS hproject (Nat.lt_succ_of_le hcard) h]
  simp only [DownstreamScope.walkReach_iff]
  rfl

end Marking

theorem walkTasks_eq_ok {w : WalkM Target Unit} {m m' : Marks} (h : walkTasks w m = .ok () m') :
    ∃ s, w (m.1, ∅) = .ok () s ∧ m' = (s.1, m.2) := by
  obtain ⟨s, hs, rfl⟩ := EStateM.Result.mapState_eq_ok h
  exact ⟨s, hs, rfl⟩

theorem walkProjects_eq_ok {w : WalkM String Unit} {m m' : ProjectMarks}
    (h : walkProjects w m = .ok () m') : ∃ s, w (m, ∅) = .ok () s ∧ m' = s.1 := by
  obtain ⟨s, hs, rfl⟩ := EStateM.Result.mapState_eq_ok h
  exact ⟨s, hs, rfl⟩

variable {G : AffectedGraph}

/-- A marking that succeeds recorded the task's own mark, then ran the dependency walk and the
dependent walk over the task marks, each from a fresh `cycle` set, and wrote no other task
mark: the project mark goes into the other map. -/
theorem markTaskAffected_eq_ok {upstream : UpstreamScope} {downstream : DownstreamScope}
    {task : Task} {by_ : AffectedBy} {M M' : Marks} (hby : by_ ≠ .alreadyMarked)
    (h : markTaskAffected G upstream downstream task by_ M = .ok () M') :
    ∃ s₁ s₂, trackTaskDependencies G upstream task (insert (task.target, by_) M.1, ∅) = .ok () s₁ ∧
      trackTaskDependents G downstream task (s₁.1, ∅) = .ok () s₂ ∧ M'.1 = s₂.1 := by
  rw [markTaskAffected, if_neg hby] at h
  obtain ⟨⟨⟩, m₁, h₁, h⟩ := EStateM.bind_eq_ok h
  obtain ⟨⟨⟩, m₂, h₂, h⟩ := EStateM.bind_eq_ok h
  obtain ⟨⟨⟩, m₃, h₃, h⟩ := EStateM.bind_eq_ok h
  cases h₁
  obtain ⟨s₁, hs₁, rfl⟩ := walkTasks_eq_ok h₂
  obtain ⟨s₂, hs₂, rfl⟩ := walkTasks_eq_ok h₃
  refine ⟨s₁, s₂, hs₁, hs₂, ?_⟩
  -- the project mark goes into the project map
  cases hid : task.target.getProjectId with
  | ok projectId =>
    rw [hid] at h
    cases h
    rfl
  | err e =>
    rw [hid] at h
    cases h
    rfl
  | panic =>
    rw [hid] at h
    cases h

/-- A project marking that succeeds recorded the project's own mark, then ran both walks. -/
theorem markProjectAffected_eq_ok {upstream : UpstreamScope} {downstream : DownstreamScope}
    {project : Project} {by_ : AffectedBy} {M M' : ProjectMarks} (hby : by_ ≠ .alreadyMarked)
    (h : markProjectAffected G upstream downstream project by_ M = .ok () M') :
    ∃ s₁ s₂, trackProjectDependencies G upstream project (insert (project.id, by_) M, ∅) = .ok () s₁ ∧
      trackProjectDependents G downstream project (s₁.1, ∅) = .ok () s₂ ∧ M' = s₂.1 := by
  rw [markProjectAffected, if_neg hby] at h
  obtain ⟨⟨⟩, m₁, h₁, h⟩ := EStateM.bind_eq_ok h
  obtain ⟨⟨⟩, m₂, h₂, h⟩ := EStateM.bind_eq_ok h
  cases h₁
  obtain ⟨s₁, hs₁, rfl⟩ := walkProjects_eq_ok h₂
  obtain ⟨s₂, hs₂, rfl⟩ := walkProjects_eq_ok h
  exact ⟨s₁, s₂, hs₁, hs₂, rfl⟩

theorem marks_follow_reachability (hwf : G.WellFormed) :
    (∀ {task : Task} {upstream : UpstreamScope} {downstream : DownstreamScope} {by_ : AffectedBy}
        {M M' : Marks}, G.getTask task.target = .ok task → by_ ≠ .alreadyMarked →
        markTaskAffected G upstream downstream task by_ M = .ok () M' → ∀ u x,
        (u, x) ∈ M'.1 ↔ (u, x) ∈ M.1 ∨ (u = task.target ∧ x = by_) ∨
          (∃ s, x = .downstreamTask s ∧ upstream.Reaches G.TaskDependency task.target s ∧
            G.TaskDependency s u) ∨
          (∃ s, x = .upstreamTask s ∧ downstream.Reaches G.TaskDependent task.target s ∧
            G.TaskDependent s u)) ∧
    (∀ {project : Project} {upstream : UpstreamScope} {downstream : DownstreamScope}
        {by_ : AffectedBy} {M M' : ProjectMarks}, G.getProject project.id = .ok project →
        by_ ≠ .alreadyMarked → markProjectAffected G upstream downstream project by_ M = .ok () M' →
        ∀ u x,
        (u, x) ∈ M' ↔ (u, x) ∈ M ∨ (u = project.id ∧ x = by_) ∨
          (∃ s, x = .downstreamProject s ∧ upstream.Reaches G.ProjectDependency project.id s ∧
            G.ProjectDependency s u) ∨
          (∃ s, x = .upstreamProject s ∧ downstream.Reaches G.ProjectDependent project.id s ∧
            G.ProjectDependent s u)) := by
  constructor
  · intro task upstream downstream by_ M M' htask hby h u x
    obtain ⟨s₁, s₂, h₁, h₂, hM'⟩ := markTaskAffected_eq_ok hby h
    rw [hM', trackTaskDependents_marks hwf htask h₂, trackTaskDependencies_marks hwf htask h₁,
      Finset.mem_insert, Prod.mk.injEq]
    simp only [or_assoc]
    exact or_left_comm
  · intro project upstream downstream by_ M M' hproject hby h u x
    obtain ⟨s₁, s₂, h₁, h₂, rfl⟩ := markProjectAffected_eq_ok hby h
    rw [trackProjectDependents_marks hwf hproject h₂, trackProjectDependencies_marks hwf hproject h₁,
      Finset.mem_insert, Prod.mk.injEq]
    simp only [or_assoc]
    exact or_left_comm

/-- A task `a:build` that depends on `a:lint`, marked by a changed file with deep scopes: the
dependency is marked by it; and its project, marked the same way. -/
theorem marks_follow_reachability_on_a_chain :
    let build : Task :=
      { id := "build", target := ⟨"a:build", .id, .id, 1⟩, deps := [{ target := ⟨"a:lint", .id, .id, 1⟩ }] }
    let lint : Task := { id := "lint", target := ⟨"a:lint", .id, .id, 1⟩ }
    let project : Project := { id := "a" }
    let G : AffectedGraph :=
      { getProject := fun id ↦ if id = "a" then .ok project else .error "missing",
        getProjects := .ok [project],
        getTask := fun target ↦
          if target = build.target then .ok build
          else if target = lint.target then .ok lint else .error "missing",
        projectDependents := fun _ ↦ [],
        taskDependents := fun task ↦ if task.target = lint.target then [build.target] else [],
        size := 2 }
    G.WellFormed ∧
      (∃ M', markTaskAffected G .deep .deep build (.changedFile "a/lib.rs") ⊥ = .ok () M' ∧
        (lint.target, .downstreamTask build.target) ∈ M'.1) ∧
      ∃ M', markProjectAffected G .deep .deep project (.changedFile "a/lib.rs") ∅ = .ok () M' ∧
        ("a", .changedFile "a/lib.rs") ∈ M' := by
  intro build lint project G
  have hwf : G.WellFormed :=
    { getTask_target := by
        intro target task h
        unfold G at h
        dsimp only at h
        split_ifs at h with hb hl
        · cases h
          exact hb.symm
        · cases h
          exact hl.symm
      getProject_id := by
        intro id p h
        unfold G at h
        dsimp only at h
        split_ifs at h with ha
        cases h
        exact ha.symm
      tasks_le_size := ⟨{build.target, lint.target}, by
        intro target task h
        unfold G at h
        dsimp only at h
        split_ifs at h with hb hl
        · simp [hb]
        · simp [hl], by decide⟩
      projects_le_size := ⟨{"a"}, by
        intro id p h
        unfold G at h
        dsimp only at h
        split_ifs at h with ha
        simp [ha], by decide⟩ }
  have hbuild : G.getTask build.target = .ok build := by
    unfold G
    simp
  have hproject : G.getProject project.id = .ok project := by
    unfold G project
    simp
  -- both runs succeed, as evaluating them shows
  obtain ⟨M, hrun⟩ : ∃ M, markTaskAffected G .deep .deep build (.changedFile "a/lib.rs") ⊥ = .ok () M := by
    refine ⟨?M, ?h⟩
    case h =>
      unfold G build lint project
      exact rfl
  obtain ⟨P, hprun⟩ : ∃ P,
      markProjectAffected G .deep .deep project (.changedFile "a/lib.rs") ∅ = .ok () P := by
    refine ⟨?P, ?h⟩
    case h =>
      unfold G build lint project
      exact rfl
  refine ⟨hwf, ⟨M, hrun, ?_⟩, ⟨P, hprun, ?_⟩⟩
  · -- `a:lint` is a dependency of the start itself
    refine ((marks_follow_reachability hwf).1 hbuild (by decide) hrun _ _).2 ?_
    exact .inr (.inr (.inl ⟨build.target, rfl, .refl, build, hbuild, by simp [build, lint]⟩))
  · refine ((marks_follow_reachability hwf).2 hproject (by decide) hprun _ _).2 ?_
    exact .inr (.inl ⟨rfl, rfl⟩)

/-- **A relation mark passed in is kept**: `mark_task_affected` records whatever mark it is given,
so the task `a:build` of a graph, given `DownstreamTask(b:build)`, carries that mark with both
scopes none. -/
theorem given_relation_mark_is_kept :
    ∃ M', markTaskAffected
        { getProject := fun _ ↦ .error "missing", getProjects := .ok [],
          getTask := fun target ↦
            if target = ⟨"a:build", .id, .id, 1⟩ then .ok { id := "build", target := target }
            else .error "missing",
          projectDependents := fun _ ↦ [], taskDependents := fun _ ↦ [], size := 1 }
        .none .none { id := "build", target := ⟨"a:build", .id, .id, 1⟩ }
        (.downstreamTask ⟨"b:build", .id, .id, 1⟩) ⊥ = .ok () M' ∧
      (⟨"a:build", .id, .id, 1⟩, .downstreamTask ⟨"b:build", .id, .id, 1⟩) ∈ M'.1 :=
  ⟨_, rfl, by simp⟩

end Moon
