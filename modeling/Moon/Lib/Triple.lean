import Moon.Lib.EState
import Mathlib.Order.Defs.Unbundled

/-!
# Hoare triples for `EStateM`: an invariant, a growth order and an error guard

A method that takes `&mut self` and returns `Result` is a computation in `EStateM`.  Proofs about
a builder made of such methods ask three things of each of them, however it ends:

* it keeps a representation invariant `I`, on failure too, since what it wrote before failing
  stays written;
* the state it leaves has grown from the one it started in, in a preorder `R`, so that a fact
  that growth keeps (an index that names a node) and that held before still holds;
* when it fails, its error satisfies a guard `E` (for instance: it is not a panic).

`Triple I R E P x Q` says so, for a precondition `P`, with the postcondition `Q` of the value and
the state on success.  The rules follow the shape of the code: `pure`, `throw`, `bind`, `ite`,
the loops `foldlM` and `forM` with a loop invariant, `ofExcept` for a `?` on a `Result` returned
by another part of the program, the state primitives, `frame` for a fact that growth keeps, and
consequence (`mono`).  A triple keeps its invariant in the sense of `EStateM.Preserves`
(`Triple.preserves`).  Recursion on fuel is an induction on the fuel where the recursive function
is.
-/

set_option autoImplicit false

namespace EStateM

variable {ε σ α β : Type}

/-- What a result promises: on success its value and state satisfy `Q`, on failure its error
satisfies `E`. -/
def Result.Holds (E : ε → Prop) (Q : α → σ → Prop) : EStateM.Result ε σ α → Prop
  | .ok a s => Q a s
  | .error e _ => E e

@[simp] theorem Result.holds_ok (E : ε → Prop) (Q : α → σ → Prop) (a : α) (s : σ) :
    (Result.ok a s : EStateM.Result ε σ α).Holds E Q = Q a s :=
  rfl

@[simp] theorem Result.holds_error (E : ε → Prop) (Q : α → σ → Prop) (e : ε) (s : σ) :
    (Result.error e s : EStateM.Result ε σ α).Holds E Q = E e :=
  rfl

section Triple

variable (I : σ → Prop) (R : σ → σ → Prop) (E : ε → Prop)

/-- From a state where the invariant `I` and the precondition `P` hold, `x` leaves a state where
`I` holds, grown from the first in `R`; on success its value and that state satisfy `Q`, on
failure its error satisfies `E`. -/
def Triple (P : σ → Prop) (x : EStateM ε σ α) (Q : α → σ → Prop) : Prop :=
  ∀ s, I s → P s → I (x s).state ∧ R s (x s).state ∧ (x s).Holds E Q

variable {I R E} {P : σ → Prop}

/-- A triple keeps its invariant, whatever its precondition does not ask. -/
theorem Triple.preserves {x : EStateM ε σ α} {Q : α → σ → Prop}
    (h : Triple I R E (fun _ ↦ True) x Q) : Preserves I x :=
  fun s hs ↦ (h s hs trivial).1

/-- A step that always succeeds, with the value `g s` and the state `t s`. -/
theorem Triple.of_ok {x : EStateM ε σ α} {Q : α → σ → Prop} (g : σ → α) (t : σ → σ)
    (hx : ∀ s, x s = .ok (g s) (t s)) (h : ∀ s, I s → P s → I (t s) ∧ R s (t s) ∧ Q (g s) (t s)) :
    Triple I R E P x Q := by
  intro s hI hP
  rw [hx s]
  exact h s hI hP

theorem Triple.pure [Std.Refl R] {Q : α → σ → Prop} (a : α) (h : ∀ s, I s → P s → Q a s) :
    Triple I R E P (Pure.pure a : EStateM ε σ α) Q :=
  fun s hI hP ↦ ⟨hI, refl_of R s, h s hI hP⟩

theorem Triple.throw [Std.Refl R] {Q : α → σ → Prop} (e : ε) (h : E e) :
    Triple I R E P (MonadExcept.throw e : EStateM ε σ α) Q :=
  fun s hI _ ↦ ⟨hI, refl_of R s, h⟩

theorem Triple.get [Std.Refl R] :
    Triple I R E P (MonadState.get : EStateM ε σ σ) fun a s ↦ P s ∧ a = s :=
  fun s hI hP ↦ ⟨hI, refl_of R s, hP, rfl⟩

theorem Triple.modifyGet {Q : α → σ → Prop} {f : σ → α × σ}
    (h : ∀ s, I s → P s → I (f s).2 ∧ R s (f s).2 ∧ Q (f s).1 (f s).2) :
    Triple I R E P (MonadStateOf.modifyGet f : EStateM ε σ α) Q :=
  Triple.of_ok (fun s ↦ (f s).1) (fun s ↦ (f s).2) (fun _ ↦ rfl) h

/-- **Sequencing**: the postcondition of the first part is the precondition of the second. -/
theorem Triple.bind [IsTrans σ R] {Q₁ : α → σ → Prop} {Q : β → σ → Prop} {x : EStateM ε σ α}
    {f : α → EStateM ε σ β} (hx : Triple I R E P x Q₁) (hf : ∀ a, Triple I R E (Q₁ a) (f a) Q) :
    Triple I R E P (x >>= f) Q := by
  intro s hI hP
  obtain ⟨hI₁, hR₁, hQ₁⟩ := hx s hI hP
  change I (EStateM.bind x f s).state ∧ R s (EStateM.bind x f s).state ∧
    (EStateM.bind x f s).Holds E Q
  unfold EStateM.bind
  cases hxs : x s with
  | ok a s₁ =>
    rw [hxs] at hI₁ hR₁ hQ₁
    obtain ⟨hI₂, hR₂, hQ₂⟩ := hf a s₁ hI₁ hQ₁
    exact ⟨hI₂, trans_of R hR₁ hR₂, hQ₂⟩
  | error e s₁ =>
    rw [hxs] at hI₁ hR₁ hQ₁
    exact ⟨hI₁, hR₁, hQ₁⟩

theorem Triple.ite {c : Prop} [Decidable c] {x y : EStateM ε σ α} {Q : α → σ → Prop}
    (hx : c → Triple I R E P x Q) (hy : ¬ c → Triple I R E P y Q) :
    Triple I R E P (if c then x else y) Q := by
  by_cases hc : c
  · rw [if_pos hc]
    exact hx hc
  · rw [if_neg hc]
    exact hy hc

/-- **A branch whose arms join**: `let a ← if c then x else y` followed by more code, which `do`
runs as the rest of the block after each arm. -/
theorem Triple.ite_bind [IsTrans σ R] {c : Prop} [Decidable c] {x y : EStateM ε σ α}
    {k : α → EStateM ε σ β} {M : α → σ → Prop} {Q : β → σ → Prop}
    (hx : c → Triple I R E P x M) (hy : ¬ c → Triple I R E P y M)
    (hk : ∀ a, Triple I R E (M a) (k a) Q) :
    Triple I R E P (if c then x >>= k else y >>= k) Q :=
  Triple.ite (fun hc ↦ (hx hc).bind hk) fun hc ↦ (hy hc).bind hk

/-- **Consequence**: a stronger precondition and a weaker postcondition, both read under the
invariant. -/
theorem Triple.mono {P' : σ → Prop} {Q Q' : α → σ → Prop} {x : EStateM ε σ α}
    (h : Triple I R E P x Q) (hP : ∀ s, I s → P' s → P s) (hQ : ∀ a s, I s → Q a s → Q' a s) :
    Triple I R E P' x Q' := by
  intro s hI hP'
  obtain ⟨hI₁, hR₁, hQ₁⟩ := h s hI (hP s hI hP')
  refine ⟨hI₁, hR₁, ?_⟩
  cases hxs : x s with
  | ok a s' =>
    rw [hxs] at hI₁ hQ₁
    exact hQ a s' hI₁ hQ₁
  | error e s' =>
    rw [hxs] at hQ₁
    exact hQ₁

/-- A triple over a finer growth order holds over a coarser one. -/
theorem Triple.weaken {R' : σ → σ → Prop} {x : EStateM ε σ α} {Q : α → σ → Prop}
    (hR : ∀ s s', R s s' → R' s s') (h : Triple I R E P x Q) : Triple I R' E P x Q := by
  intro s hI hP
  obtain ⟨hI₁, hR₁, hQ₁⟩ := h s hI hP
  exact ⟨hI₁, hR _ _ hR₁, hQ₁⟩

/-- **Frame**: a fact that growth keeps, true before, is true on success. -/
theorem Triple.frame {F : σ → Prop} {x : EStateM ε σ α} {Q : α → σ → Prop}
    (hF : ∀ s s', R s s' → F s → F s') (h : Triple I R E P x Q) :
    Triple I R E (fun s ↦ P s ∧ F s) x (fun a s ↦ Q a s ∧ F s) := by
  rintro s hI ⟨hP, hFs⟩
  obtain ⟨hI₁, hR₁, hQ₁⟩ := h s hI hP
  refine ⟨hI₁, hR₁, ?_⟩
  cases hxs : x s with
  | ok a s' =>
    rw [hxs] at hR₁ hQ₁
    exact ⟨hQ₁, hF s s' hR₁ hFs⟩
  | error e s' =>
    rw [hxs] at hQ₁
    exact hQ₁

/-- A `?` on a `Result` of another part of the program: the state is left as it is, and the
value is the one it succeeded with. -/
theorem Triple.ofExcept [Std.Refl R] (x : Except ε α) (hE : ∀ e, x = .error e → E e) :
    Triple I R E P (EStateM.ofExcept x) fun a s ↦ P s ∧ x = .ok a := by
  intro s hI hP
  cases x with
  | ok a => exact ⟨hI, refl_of R s, hP, rfl⟩
  | error e => exact ⟨hI, refl_of R s, hE e rfl⟩

/-- **A loop that folds an accumulator**: an invariant of the accumulator and the state that each
round keeps holds at the end. -/
theorem Triple.foldlM [Std.Refl R] [IsTrans σ R] {γ : Type} {f : β → γ → EStateM ε σ β}
    (Inv : β → σ → Prop) :
    ∀ (l : List γ) (init : β), (∀ b, ∀ c ∈ l, Triple I R E (Inv b) (f b c) Inv) →
      Triple I R E (Inv init) (l.foldlM f init) Inv
  | [], init, _ => Triple.pure init fun _ _ h ↦ h
  | c :: l, init, hf => by
    rw [List.foldlM_cons]
    exact (hf init c List.mem_cons_self).bind fun b ↦
      Triple.foldlM Inv l b fun b' c' hc' ↦ hf b' c' (List.mem_cons_of_mem c hc')

/-- **A loop over a list**: an invariant of the state that each round keeps holds at the end. -/
theorem Triple.forM [Std.Refl R] [IsTrans σ R] {γ : Type} {f : γ → EStateM ε σ PUnit}
    (Inv : σ → Prop) :
    ∀ (l : List γ), (∀ c ∈ l, Triple I R E Inv (f c) fun _ ↦ Inv) →
      Triple I R E Inv (forM l f) fun _ ↦ Inv
  | [], _ => Triple.pure PUnit.unit fun _ _ h ↦ h
  | c :: l, hf => by
    rw [List.forM_cons]
    exact (hf c List.mem_cons_self).bind fun _ ↦
      Triple.forM Inv l fun c' hc' ↦ hf c' (List.mem_cons_of_mem c hc')

/-- **A loop whose rounds each establish a fact that growth keeps**: at the end all of them
hold, with the loop invariant. -/
theorem Triple.forM_all [Std.Refl R] [IsTrans σ R] {γ : Type} {f : γ → EStateM ε σ PUnit}
    (Inv : σ → Prop) (Post : γ → σ → Prop) (hPost : ∀ c s s', R s s' → Post c s → Post c s') :
    ∀ (l : List γ), (∀ c ∈ l, Triple I R E Inv (f c) fun _ s ↦ Inv s ∧ Post c s) →
      Triple I R E Inv (ForM.forM l f) fun _ s ↦ Inv s ∧ ∀ c ∈ l, Post c s
  | [], _ => Triple.pure PUnit.unit fun _ _ h ↦ ⟨h, fun _ hc ↦ absurd hc List.not_mem_nil⟩
  | c :: l, hf => by
    rw [List.forM_cons]
    refine (hf c List.mem_cons_self).bind fun _ ↦ ?_
    -- the fact of the first round rides along the rest of the loop
    have hrest := Triple.forM_all Inv Post hPost l fun c' hc' ↦ hf c' (List.mem_cons_of_mem c hc')
    refine ((hrest.frame (F := Post c) (hPost c)).mono (fun _ _ h ↦ h) ?_)
    rintro _ s _ ⟨⟨hI, hall⟩, hc⟩
    exact ⟨hI, fun c' hc' ↦ (List.mem_cons.1 hc').elim (fun h ↦ h ▸ hc) (hall c')⟩

end Triple

end EStateM
