import Mathlib.Control.Basic
import Mathlib.Order.Lattice
import Mathlib.Order.BoundedOrder.Lattice

/-!
# Reasoning about `EStateM` loops

A Rust method that takes `&mut self` and returns `Result` is a computation in `EStateM`: it may
fail, and what it wrote before failing stays written.  This file collects the rules the models
built on it use, none of them about a particular program.

* `bind_ok_iff` takes a sequence that succeeded apart.
* **Frame** (`Commutes`): a computation that only adds to its state, and reads nothing of what is
  there, can be run over more state and gives the same result with that state added.
* **Invariants** (`Preserves`): a property of the state that each part keeps, the whole keeps,
  whether it ends in success or failure.
* **Loop congruence** (`forM_ok_iff_of_step`): two loops over the same list, whose bodies agree on
  success under an invariant of the prefix done so far, agree on success.
* **Joins** (`joinOut`): a loop that joins the output of each item into a semilattice.  Where it
  ends depends on which items are in the list and on nothing else (`forM_joinOut_ok`,
  `supOuts_congr`).
* **Memoised steps** (`memoStep`): a step that skips an item's own work when the state already
  marks it, and only redoes a part of it.  When the own work and the part both commute with joins,
  the loop of such steps ends where joining every item's own output from nothing ends
  (`forM_memoStep_ok_iff`): the memo saves work and changes nothing.
-/

set_option autoImplicit false

namespace EStateM

variable {ε σ τ α β : Type}

theorem bind_ok_iff {x : EStateM ε σ α} {f : α → EStateM ε σ β} {s s' : σ} {b : β} :
    (x >>= f) s = .ok b s' ↔ ∃ a s₁, x s = .ok a s₁ ∧ f a s₁ = .ok b s' := by
  change EStateM.bind x f s = _ ↔ _
  unfold EStateM.bind
  cases hx : x s with
  | ok a s₁ =>
    constructor
    · intro h
      exact ⟨a, s₁, rfl, h⟩
    · rintro ⟨a', s₂, h, hf⟩
      cases h
      exact hf
  | error e s₁ =>
    constructor
    · intro h
      cases h
    · rintro ⟨a', s₂, h, -⟩
      cases h

/-- A sequence that succeeded: both of its parts did, the second from the state the first left. -/
theorem bind_eq_ok {x : EStateM ε σ α} {f : α → EStateM ε σ β} {s s' : σ} {b : β}
    (h : (x >>= f) s = .ok b s') : ∃ a s₁, x s = .ok a s₁ ∧ f a s₁ = .ok b s' :=
  bind_ok_iff.mp h

/-- A sequence whose first part succeeded goes on from where it left. -/
theorem bind_of_ok {x : EStateM ε σ α} {f : α → EStateM ε σ β} {s s₁ : σ} {a : α}
    (h : x s = .ok a s₁) : (x >>= f) s = f a s₁ := by
  change EStateM.bind x f s = _
  simp only [EStateM.bind, h]

/-- A sequence whose first part failed fails with it. -/
theorem bind_of_error {x : EStateM ε σ α} {f : α → EStateM ε σ β} {s s₁ : σ} {e : ε}
    (h : x s = .error e s₁) : (x >>= f) s = .error e s₁ := by
  change EStateM.bind x f s = _
  simp only [EStateM.bind, h]

/-- One more item of a loop that succeeded so far is that item's body, from where the loop left. -/
theorem forM_append_singleton {γ : Type} {f : γ → EStateM ε σ PUnit} {l : List γ} {c : γ}
    {s s₁ : σ} (h : forM l f s = .ok ⟨⟩ s₁) : forM (l ++ [c]) f s = f c s₁ := by
  rw [List.forM_append, bind_of_ok h, List.forM_cons, List.forM_nil]
  change EStateM.bind (f c) (fun _ ↦ pure PUnit.unit) s₁ = _
  unfold EStateM.bind
  cases f c s₁ <;> rfl

/-- A loop whose body never fails does not fail. -/
theorem forM_ok_of_total {γ : Type} {f : γ → EStateM ε σ PUnit} (hf : ∀ c s, ∃ s', f c s = .ok ⟨⟩ s') :
    ∀ (l : List γ) (s : σ), ∃ s', forM l f s = .ok ⟨⟩ s'
  | [], s => ⟨s, rfl⟩
  | c :: l, s => by
    obtain ⟨s₁, h₁⟩ := hf c s
    rw [List.forM_cons, bind_of_ok h₁]
    exact forM_ok_of_total hf l s₁

/-- The state a computation leaves, whether it succeeded or failed. -/
def Result.state : EStateM.Result ε σ α → σ
  | .ok _ s => s
  | .error _ s => s

/-- The result with its state mapped by `g`. -/
def Result.mapState (g : σ → τ) : EStateM.Result ε σ α → EStateM.Result ε τ α
  | .ok a s => .ok a (g s)
  | .error e s => .error e (g s)

@[simp] theorem Result.mapState_ok (g : σ → τ) (a : α) (s : σ) :
    (EStateM.Result.ok a s : EStateM.Result ε σ α).mapState g = .ok a (g s) := rfl

@[simp] theorem Result.mapState_error (g : σ → τ) (e : ε) (s : σ) :
    (EStateM.Result.error e s : EStateM.Result ε σ α).mapState g = .error e (g s) := rfl

/-- What a computation that consumes and returns its state ends in: the state, or the error. -/
def Result.toExcept : EStateM.Result ε σ α → Except ε σ
  | .ok _ s => .ok s
  | .error e _ => .error e

theorem Result.mapState_eq_ok {g : σ → τ} {r : EStateM.Result ε σ α} {a : α} {t : τ}
    (h : r.mapState g = .ok a t) : ∃ s, r = .ok a s ∧ g s = t := by
  cases r with
  | ok a' s =>
    cases h
    exact ⟨s, rfl, rfl⟩
  | error e s => cases h

theorem Result.mapState_ok_iff {g : σ → τ} {r r' : EStateM.Result ε σ α}
    (h : ∀ a s, r = .ok a s ↔ r' = .ok a s) (a : α) (t : τ) :
    r.mapState g = .ok a t ↔ r'.mapState g = .ok a t := by
  constructor
  · intro hr
    obtain ⟨s, hs, rfl⟩ := Result.mapState_eq_ok hr
    rw [(h a s).mp hs, Result.mapState_ok]
  · intro hr
    obtain ⟨s, hs, rfl⟩ := Result.mapState_eq_ok hr
    rw [(h a s).mpr hs, Result.mapState_ok]

/-! ## Lifting to a larger state

A method of a structure that only touches some of its fields is a computation on those fields,
lifted: read them with `view`, run, and write them back with `update`. -/

section Lift

variable {ι : Type} (view : τ → σ) (update : τ → σ → τ) (P : τ → Prop)

/-- **Lifting a loop.**  A loop whose body is, for each item and at every state where `P` holds, a
lifted body, is the lifted loop, as long as writing back keeps `P`. -/
theorem forM_lift (hview : ∀ t s, view (update t s) = s)
    (hupdate : ∀ t s s', update (update t s) s' = update t s') (hself : ∀ t, update t (view t) = t)
    (hP : ∀ t s, P t → P (update t s)) {f : ι → EStateM ε τ PUnit} {g : ι → EStateM ε σ PUnit} :
    ∀ (l : List ι), (∀ i ∈ l, ∀ t, P t → f i t = (g i (view t)).mapState (update t)) →
      ∀ t, P t → forM l f t = (forM l g (view t)).mapState (update t)
  | [], _, t, _ => by
    change EStateM.Result.ok _ t = EStateM.Result.ok _ (update t (view t))
    rw [hself]
  | i :: l, hfg, t, ht => by
    have hrest : ∀ i' ∈ l, ∀ t, P t → f i' t = (g i' (view t)).mapState (update t) :=
      fun i' hi' ↦ hfg i' (List.mem_cons_of_mem i hi')
    rw [List.forM_cons, List.forM_cons]
    change EStateM.bind (f i) (fun _ ↦ forM l f) t
      = (EStateM.bind (g i) (fun _ ↦ forM l g) (view t)).mapState (update t)
    unfold EStateM.bind
    rw [hfg i List.mem_cons_self t ht]
    cases g i (view t) with
    | ok a s =>
      show forM l f (update t s) = (forM l g s).mapState (update t)
      rw [forM_lift hview hupdate hself hP l hrest (update t s) (hP t s ht), hview,
        funext (hupdate t s)]
    | error e s => rfl

end Lift

/-! ## Frame -/

/-- **Frame.**  `x` commutes with the state map `g`: running it from `g s` is running it from `s`
and mapping what it leaves.  A computation that only adds to a part of the state commutes with
adding more to that part beforehand. -/
def Commutes (g : σ → σ) (x : EStateM ε σ α) : Prop :=
  ∀ s, x (g s) = (x s).mapState g

theorem Commutes.pure (g : σ → σ) (a : α) : Commutes g (Pure.pure a : EStateM ε σ α) :=
  fun _ ↦ rfl

theorem Commutes.throw (g : σ → σ) (e : ε) : Commutes g (throw e : EStateM ε σ α) :=
  fun _ ↦ rfl

theorem Commutes.modify {g f : σ → σ} (h : ∀ s, f (g s) = g (f s)) :
    Commutes g (modify f : EStateM ε σ PUnit) :=
  fun s ↦ by
    change EStateM.Result.ok _ (f (g s)) = EStateM.Result.ok _ (g (f s))
    rw [h]

theorem Commutes.bind {g : σ → σ} {x : EStateM ε σ α} {f : α → EStateM ε σ β}
    (hx : Commutes g x) (hf : ∀ a, Commutes g (f a)) : Commutes g (x >>= f) := by
  intro s
  change EStateM.bind x f (g s) = (EStateM.bind x f s).mapState g
  unfold EStateM.bind
  rw [hx s]
  cases x s with
  | ok a s₁ => exact hf a s₁
  | error e s₁ => rfl

theorem Commutes.forM {g : σ → σ} {γ : Type} {f : γ → EStateM ε σ PUnit} :
    ∀ {l : List γ}, (∀ c ∈ l, Commutes g (f c)) → Commutes g (forM l f)
  | [], _ => Commutes.pure g PUnit.unit
  | c :: l, hf => by
    rw [List.forM_cons]
    exact (hf c List.mem_cons_self).bind fun _ ↦
      Commutes.forM fun c' hc' ↦ hf c' (List.mem_cons_of_mem c hc')

/-! ## Invariants -/

/-- `x` keeps `I`: from a state where `I` holds it leaves one where it holds, also on failure. -/
def Preserves (I : σ → Prop) (x : EStateM ε σ α) : Prop :=
  ∀ s, I s → I (x s).state

theorem Preserves.pure (I : σ → Prop) (a : α) : Preserves I (Pure.pure a : EStateM ε σ α) :=
  fun _ h ↦ h

theorem Preserves.throw (I : σ → Prop) (e : ε) : Preserves I (throw e : EStateM ε σ α) :=
  fun _ h ↦ h

theorem Preserves.modify {I : σ → Prop} {f : σ → σ} (h : ∀ s, I s → I (f s)) :
    Preserves I (modify f : EStateM ε σ PUnit) :=
  h

theorem Preserves.bind {I : σ → Prop} {x : EStateM ε σ α} {f : α → EStateM ε σ β}
    (hx : Preserves I x) (hf : ∀ a, Preserves I (f a)) : Preserves I (x >>= f) := by
  intro s hs
  change I (EStateM.bind x f s).state
  unfold EStateM.bind
  have h := hx s hs
  cases hxs : x s with
  | ok a s₁ =>
    rw [hxs] at h
    exact hf a s₁ h
  | error e s₁ =>
    rw [hxs] at h
    exact h

/-- A `Result` returned and propagated with `?`: the state is left as it is. -/
def ofExcept (x : Except ε α) : EStateM ε σ α := fun s ↦
  match x with
  | .ok a => .ok a s
  | .error e => .error e s

theorem Preserves.ofExcept (I : σ → Prop) (x : Except ε α) :
    Preserves I (EStateM.ofExcept x : EStateM ε σ α) := fun _ h ↦ by
  cases x <;> exact h

/-- What follows a `?` on a `Result` runs only with the value it succeeded with. -/
theorem Preserves.ofExcept_bind {I : σ → Prop} {x : Except ε α} {f : α → EStateM ε σ β}
    (hf : ∀ a, x = .ok a → Preserves I (f a)) : Preserves I (EStateM.ofExcept x >>= f) := by
  cases x with
  | error e => exact fun _ h ↦ h
  | ok a => exact hf a rfl

theorem Preserves.forM {I : σ → Prop} {γ : Type} {f : γ → EStateM ε σ PUnit} :
    ∀ {l : List γ}, (∀ c ∈ l, Preserves I (f c)) → Preserves I (forM l f)
  | [], _ => Preserves.pure I PUnit.unit
  | c :: l, hf => by
    rw [List.forM_cons]
    exact (hf c List.mem_cons_self).bind fun _ ↦
      Preserves.forM fun c' hc' ↦ hf c' (List.mem_cons_of_mem c hc')

/-! ## Loop congruence -/

section Congruence

variable {ι : Type} {f g : ι → EStateM ε σ PUnit} (I : List ι → σ → Prop) {items : List ι}

/-- **Loop congruence.**  Two loops agree on success when, at every state the invariant `I` allows
after a prefix `done`, their bodies for an item of `items` succeed into the same states, and the
invariant holds again for the longer prefix. -/
theorem forM_ok_iff_of_step
    (hstep : ∀ done i s, I done s → i ∈ items →
      (∀ s', f i s = .ok ⟨⟩ s' ↔ g i s = .ok ⟨⟩ s') ∧
        ∀ s', f i s = .ok ⟨⟩ s' → I (done ++ [i]) s') :
    ∀ {l : List ι}, (∀ i ∈ l, i ∈ items) → ∀ (done : List ι) {s : σ}, I done s →
      ∀ s', forM l f s = .ok ⟨⟩ s' ↔ forM l g s = .ok ⟨⟩ s'
  | [], _, _, _, _, _ => Iff.rfl
  | i :: l, hl, done, s, hI, s' => by
    obtain ⟨hagree, hnext⟩ := hstep done i s hI (hl i List.mem_cons_self)
    have hrest : ∀ i' ∈ l, i' ∈ items := fun i' hi' ↦ hl i' (List.mem_cons_of_mem i hi')
    rw [List.forM_cons, List.forM_cons, bind_ok_iff, bind_ok_iff]
    constructor
    · rintro ⟨⟨⟩, s₁, h₁, h₂⟩
      exact ⟨⟨⟩, s₁, (hagree s₁).mp h₁,
        (forM_ok_iff_of_step hstep hrest _ (hnext s₁ h₁) s').mp h₂⟩
    · rintro ⟨⟨⟩, s₁, h₁, h₂⟩
      have h₁' := (hagree s₁).mpr h₁
      exact ⟨⟨⟩, s₁, h₁', (forM_ok_iff_of_step hstep hrest _ (hnext s₁ h₁') s').mpr h₂⟩

/-- **Loop invariant on success.**  An invariant of the prefix done so far, that the body for an
item of `items` keeps whenever it succeeds, holds at the end of a loop that succeeds. -/
theorem forM_inv_of_ok
    (hstep : ∀ done i s s', I done s → i ∈ items → f i s = .ok ⟨⟩ s' → I (done ++ [i]) s') :
    ∀ {l : List ι}, (∀ i ∈ l, i ∈ items) → ∀ (done : List ι) {s s' : σ}, I done s →
      forM l f s = .ok ⟨⟩ s' → I (done ++ l) s'
  | [], _, done, s, s', hI, h => by
    change EStateM.Result.ok PUnit.unit s = .ok ⟨⟩ s' at h
    cases h
    rwa [List.append_nil]
  | i :: l, hl, done, s, s', hI, h => by
    rw [List.forM_cons, bind_ok_iff] at h
    obtain ⟨⟨⟩, s₁, h₁, h₂⟩ := h
    have hrest := forM_inv_of_ok hstep (fun i' hi' ↦ hl i' (List.mem_cons_of_mem i hi'))
      (done ++ [i]) (hstep done i s s₁ hI (hl i List.mem_cons_self) h₁) h₂
    rwa [List.append_assoc, List.singleton_append] at hrest

end Congruence

/-! ## Joining outputs into a semilattice -/

section Join

variable {ι M : Type} [SemilatticeSup M] [OrderBot M] (out : ι → Except ε M)

/-- Join the output of an item into the state, or fail with its error. -/
def joinOut (i : ι) : EStateM ε M PUnit := fun s ↦
  match out i with
  | .ok m => .ok ⟨⟩ (s ⊔ m)
  | .error e => .error e s

/-- The output of an item, and nothing for a failed one. -/
def outVal (i : ι) : M :=
  match out i with
  | .ok m => m
  | .error _ => ⊥

/-- The join of the outputs of a list. -/
def supOuts (l : List ι) : M :=
  l.foldr (fun i acc ↦ outVal out i ⊔ acc) ⊥

variable {out}

omit [OrderBot M] in
theorem joinOut_ok_iff {i : ι} {s s' : M} :
    joinOut out i s = .ok ⟨⟩ s' ↔ ∃ m, out i = .ok m ∧ s' = s ⊔ m := by
  unfold joinOut
  cases out i with
  | ok m =>
    constructor
    · intro h
      cases h
      exact ⟨m, rfl, rfl⟩
    · rintro ⟨m', hm, rfl⟩
      cases hm
      rfl
  | error e =>
    constructor
    · intro h
      cases h
    · rintro ⟨m', hm, -⟩
      cases hm

theorem supOuts_le_iff {l : List ι} {x : M} : supOuts out l ≤ x ↔ ∀ i ∈ l, outVal out i ≤ x := by
  induction l with
  | nil => simp [supOuts]
  | cons i l ih =>
    change outVal out i ⊔ supOuts out l ≤ x ↔ _
    rw [sup_le_iff, ih, List.forall_mem_cons]

/-- The join of the outputs depends only on which items the list holds. -/
theorem supOuts_congr {l l' : List ι} (h : ∀ i, i ∈ l ↔ i ∈ l') :
    supOuts out l = supOuts out l' := by
  apply le_antisymm
  · rw [supOuts_le_iff]
    intro i hi
    exact (supOuts_le_iff.mp le_rfl) i ((h i).mp hi)
  · rw [supOuts_le_iff]
    intro i hi
    exact (supOuts_le_iff.mp le_rfl) i ((h i).mpr hi)

/-- **Where a join loop ends**: it succeeds when every output does, in the state joined with all
of them. -/
theorem forM_joinOut_ok {s s' : M} :
    ∀ {l : List ι}, forM l (joinOut out) s = .ok ⟨⟩ s' ↔
      (∀ i ∈ l, ∃ m, out i = .ok m) ∧ s' = s ⊔ supOuts out l
  | [] => by
    change EStateM.Result.ok PUnit.unit s = _ ↔ _
    simp only [EStateM.Result.ok.injEq, List.not_mem_nil, false_imp_iff, implies_true, true_and,
      supOuts, List.foldr_nil, sup_bot_eq, true_and]
    exact eq_comm
  | i :: l => by
    rw [List.forM_cons, bind_ok_iff, List.forall_mem_cons]
    constructor
    · rintro ⟨⟨⟩, s₁, h₁, h₂⟩
      obtain ⟨m, hm, rfl⟩ := joinOut_ok_iff.mp h₁
      obtain ⟨hl, rfl⟩ := forM_joinOut_ok.mp h₂
      refine ⟨⟨⟨m, hm⟩, hl⟩, ?_⟩
      change s ⊔ m ⊔ supOuts out l = s ⊔ (outVal out i ⊔ supOuts out l)
      rw [outVal, hm, sup_assoc]
    · rintro ⟨⟨⟨m, hm⟩, hl⟩, rfl⟩
      refine ⟨⟨⟩, s ⊔ m, joinOut_ok_iff.mpr ⟨m, hm, rfl⟩, forM_joinOut_ok.mpr ⟨hl, ?_⟩⟩
      change s ⊔ (outVal out i ⊔ supOuts out l) = s ⊔ m ⊔ supOuts out l
      rw [outVal, hm, sup_assoc]

/-- Two join loops over lists with the same items end alike. -/
theorem forM_joinOut_congr {l l' : List ι} (h : ∀ i, i ∈ l ↔ i ∈ l') {s s' : M} :
    forM l (joinOut out) s = .ok ⟨⟩ s' ↔ forM l' (joinOut out) s = .ok ⟨⟩ s' := by
  rw [forM_joinOut_ok, forM_joinOut_ok, supOuts_congr h]
  constructor
  · rintro ⟨hl, rfl⟩
    exact ⟨fun i hi ↦ hl i ((h i).mpr hi), rfl⟩
  · rintro ⟨hl, rfl⟩
    exact ⟨fun i hi ↦ hl i ((h i).mp hi), rfl⟩

end Join

/-! ## Memoised steps -/

section Memo

variable {ι M : Type} [SemilatticeSup M] [OrderBot M] (marked : ι → M → Prop)
  [∀ i m, Decidable (marked i m)] (own redo : ι → EStateM ε M PUnit)

/-- A step that runs an item's own work, unless the state already marks the item: then it only
redoes a part of it. -/
def memoStep (i : ι) : EStateM ε M PUnit := fun s ↦
  if marked i s then redo i s else own i s

/-- The output of an item's own work, run from nothing. -/
def ownOut (i : ι) : Except ε M :=
  match own i ⊥ with
  | .ok _ m => .ok m
  | .error e _ => .error e

/-- What a loop of memoised steps keeps: an item the state marks has an own output that marks it
too, and that output is already in the state. -/
def MemoInv (items : List ι) (s : M) : Prop :=
  ∀ i ∈ items, marked i s → ∃ r, own i ⊥ = .ok ⟨⟩ r ∧ marked i r ∧ r ≤ s

variable {marked own redo}

theorem ownOut_eq_ok {i : ι} {m : M} : ownOut own i = .ok m ↔ own i ⊥ = .ok ⟨⟩ m := by
  unfold ownOut
  cases own i ⊥ with
  | ok a m' =>
    constructor
    · intro h
      cases h
      rfl
    · intro h
      cases h
      rfl
  | error e m' =>
    constructor
    · intro h
      cases h
    · intro h
      cases h

theorem ownOut_eq_toExcept (i : ι) : ownOut own i = (own i ⊥).toExcept := by
  unfold ownOut Result.toExcept
  cases own i ⊥ <;> rfl

/-- A computation that commutes with joins, run from `s`, is its run from nothing joined to `s`. -/
theorem run_of_commutes {x : EStateM ε M PUnit} (hx : ∀ m, Commutes (m ⊔ ·) x) (s : M) :
    x s = (x ⊥).mapState (s ⊔ ·) := by
  have h : x (s ⊔ ⊥) = (x ⊥).mapState (s ⊔ ·) := hx s ⊥
  rwa [sup_bot_eq] at h

/-- A computation that commutes with joins and succeeds from `s` succeeds from nothing, and what it
leaves from `s` is what it leaves from nothing joined to `s`. -/
theorem ok_of_commutes {x : EStateM ε M PUnit} (hx : ∀ m, Commutes (m ⊔ ·) x) {s r : M}
    (h : x s = .ok ⟨⟩ r) : ∃ w, x ⊥ = .ok ⟨⟩ w ∧ r = s ⊔ w := by
  rw [run_of_commutes hx s] at h
  obtain ⟨w, hw, rfl⟩ := Result.mapState_eq_ok h
  exact ⟨w, hw, rfl⟩

/-- A marked item has its own output in the state, so redoing its part adds nothing: the state
stays, as a join of that output would leave it. -/
theorem memoStep_of_marked (hredo : ∀ i m, Commutes (m ⊔ ·) (redo i))
    (hredo_le : ∀ i r, own i ⊥ = .ok ⟨⟩ r → marked i r → ∃ w, redo i ⊥ = .ok ⟨⟩ w ∧ w ≤ r)
    {items : List ι} {i : ι} {s : M} (hinv : MemoInv marked own items s)
    (hi : i ∈ items) (hm : marked i s) :
    memoStep marked own redo i s = .ok ⟨⟩ s ∧ joinOut (ownOut own) i s = .ok ⟨⟩ s := by
  obtain ⟨r, hr, hmr, hrs⟩ := hinv i hi hm
  obtain ⟨w, hw, hwr⟩ := hredo_le i r hr hmr
  have hsw : s ⊔ w = s := sup_eq_left.mpr (hwr.trans hrs)
  refine ⟨?_, ?_⟩
  · rw [memoStep, if_pos hm, run_of_commutes (hredo i) s, hw, Result.mapState_ok, hsw]
  · rw [joinOut_ok_iff]
    exact ⟨r, ownOut_eq_ok.mpr hr, (sup_eq_left.mpr hrs).symm⟩

/-- An unmarked item runs its own work over the state: it succeeds exactly when its own output
does, and then leaves that output joined in. -/
theorem memoStep_of_not_marked (hown : ∀ i m, Commutes (m ⊔ ·) (own i)) {i : ι} {s : M}
    (hm : ¬ marked i s) (s' : M) :
    memoStep marked own redo i s = .ok ⟨⟩ s' ↔ ∃ r, own i ⊥ = .ok ⟨⟩ r ∧ s' = s ⊔ r := by
  rw [memoStep, if_neg hm, run_of_commutes (hown i) s]
  constructor
  · intro h
    obtain ⟨r, hr, rfl⟩ := Result.mapState_eq_ok h
    exact ⟨r, hr, rfl⟩
  · rintro ⟨r, hr, rfl⟩
    rw [hr, Result.mapState_ok]

section Loop

variable {items : List ι}
  (hown : ∀ i m, Commutes (m ⊔ ·) (own i)) (hredo : ∀ i m, Commutes (m ⊔ ·) (redo i))
  (hredo_le : ∀ i r, own i ⊥ = .ok ⟨⟩ r → marked i r → ∃ w, redo i ⊥ = .ok ⟨⟩ w ∧ w ≤ r)
  (hmarked_sup : ∀ i s r, marked i (s ⊔ r) → marked i s ∨ marked i r)
  (hmarked_own : ∀ i ∈ items, ∀ j ∈ items, ∀ r, own j ⊥ = .ok ⟨⟩ r → marked i r → i = j)
include hown hredo hredo_le hmarked_sup hmarked_own

/-- One memoised step agrees on success with joining the item's own output, and keeps
`MemoInv`. -/
theorem memoStep_step (i : ι) (s : M) (hinv : MemoInv marked own items s) (hi : i ∈ items) :
    (∀ s', memoStep marked own redo i s = .ok ⟨⟩ s' ↔
        joinOut (ownOut own) i s = .ok ⟨⟩ s') ∧
      ∀ s', memoStep marked own redo i s = .ok ⟨⟩ s' → MemoInv marked own items s' := by
  by_cases hm : marked i s
  · obtain ⟨hmemo, hjoin⟩ := memoStep_of_marked hredo hredo_le hinv hi hm
    refine ⟨fun s' ↦ by rw [hmemo, hjoin], fun s' h ↦ ?_⟩
    rw [hmemo] at h
    cases h
    exact hinv
  · have hstep : ∀ s', memoStep marked own redo i s = .ok ⟨⟩ s' ↔ _ :=
      memoStep_of_not_marked hown hm
    refine ⟨fun s' ↦ ?_, fun s' h ↦ ?_⟩
    · rw [hstep, joinOut_ok_iff]
      simp only [ownOut_eq_ok]
    obtain ⟨r, hr, rfl⟩ := (hstep s').mp h
    intro j hj hmj
    rcases hmarked_sup j s r hmj with hmj | hmj
    · obtain ⟨rj, hrj, hmrj, hle⟩ := hinv j hj hmj
      exact ⟨rj, hrj, hmrj, le_sup_of_le_left hle⟩
    · obtain rfl := hmarked_own j hj i hi r hr hmj
      exact ⟨r, hr, hmj, le_sup_right⟩

/-- **The memo changes nothing.**  From a state that marks no item, the loop of memoised steps
over `items` succeeds into exactly the states the loop joining every item's own output does. -/
theorem forM_memoStep_ok_iff {s : M} (hinit : ∀ i ∈ items, ¬ marked i s) (s' : M) :
    forM items (memoStep marked own redo) s = .ok ⟨⟩ s' ↔
      forM items (joinOut (ownOut own)) s = .ok ⟨⟩ s' :=
  forM_ok_iff_of_step (fun _ ↦ MemoInv marked own items)
    (fun _ i s hinv hi ↦ memoStep_step hown hredo hredo_le hmarked_sup hmarked_own i s hinv hi)
    (fun _ h ↦ h) [] (fun i hi hm ↦ absurd hm (hinit i hi)) s'

end Loop

end Memo

end EStateM
