import Mathlib.Control.Basic

/-!
# Outcomes of a Rust call

A Rust function that returns `Result<T, E>` can end in three ways: it returns `Ok(t)`, it returns
`Err(e)`, or it panics.  The first two are values the caller sees and may branch on; a panic is
not — it unwinds through every `?`, every `unwrap_or_default` and every `match`, and nothing in
safe code stops it.  `Outcome ε α` keeps the three apart, so that a model of a Rust function can
say which of its failures a caller can recover from.

The monad structure is the one `?` gives: `Ok` continues, `Err` and a panic propagate.  The only
operation that treats the two failures differently is `Outcome.unwrapOrDefault`, which is
`Result::unwrap_or_default` — it turns an `Err` into the default value and leaves a panic alone.

Nothing here is about any particular program; the lemmas are the bind and case lemmas the models
built on top of it need.
-/

set_option autoImplicit false

/-- What a Rust call returning `Result<α, ε>` ends in. -/
inductive Outcome (ε α : Type) where
  /-- The call returned `Ok`. -/
  | ok (a : α)
  /-- The call returned `Err`. -/
  | err (e : ε)
  /-- The call panicked. -/
  | panic
  deriving DecidableEq, Repr

namespace Outcome

variable {ε α β : Type}

/-- `?`: continue with the value, or propagate the failure unchanged. -/
def bind (x : Outcome ε α) (f : α → Outcome ε β) : Outcome ε β :=
  match x with
  | ok a => f a
  | err e => err e
  | panic => panic

instance : Monad (Outcome ε) where
  pure := ok
  bind := bind

@[simp] theorem pure_eq_ok (a : α) : (pure a : Outcome ε α) = ok a := rfl

@[simp] theorem ok_bind (a : α) (f : α → Outcome ε β) : (ok a >>= f) = f a := rfl

@[simp] theorem err_bind (e : ε) (f : α → Outcome ε β) : (err e >>= f) = err e := rfl

@[simp] theorem panic_bind (f : α → Outcome ε β) : ((panic : Outcome ε α) >>= f) = panic := rfl

instance : LawfulMonad (Outcome ε) :=
  LawfulMonad.mk' (Outcome ε) (fun x ↦ by cases x <;> rfl) (fun _ _ ↦ rfl)
    (fun x _ _ ↦ by cases x <;> rfl)

theorem bind_eq_ok {x : Outcome ε α} {f : α → Outcome ε β} {b : β} :
    (x >>= f) = ok b ↔ ∃ a, x = ok a ∧ f a = ok b := by
  cases x with
  | ok a => simp
  | err e => simp
  | panic => simp

/-- `Result::unwrap_or_default`: an `Err` becomes the default value, a panic stays a panic. -/
def unwrapOrDefault [Inhabited α] : Outcome ε α → Outcome ε α
  | ok a => ok a
  | err _ => ok default
  | panic => panic

@[simp] theorem unwrapOrDefault_ok [Inhabited α] (a : α) :
    unwrapOrDefault (ok a : Outcome ε α) = ok a := rfl

@[simp] theorem unwrapOrDefault_err [Inhabited α] (e : ε) :
    unwrapOrDefault (err e : Outcome ε α) = ok default := rfl

@[simp] theorem unwrapOrDefault_panic [Inhabited α] :
    unwrapOrDefault (panic : Outcome ε α) = panic := rfl

/-- A call that cannot panic, lifted: its `Result` as an outcome. -/
def ofExcept : Except ε α → Outcome ε α
  | .ok a => ok a
  | .error e => err e

@[simp] theorem ofExcept_ok (a : α) : ofExcept (.ok a : Except ε α) = ok a := rfl

@[simp] theorem ofExcept_error (e : ε) : ofExcept (.error e : Except ε α) = err e := rfl

@[simp] theorem ofExcept_eq_ok {x : Except ε α} {a : α} : ofExcept x = ok a ↔ x = .ok a := by
  cases x <;> simp [ofExcept]

/-- A value that is either present or a panic — Rust's `Option::unwrap`, or slicing out of
bounds — as an outcome. -/
def ofOption : Option α → Outcome ε α
  | some a => ok a
  | none => panic

@[simp] theorem ofOption_some (a : α) : (ofOption (some a) : Outcome ε α) = ok a := rfl

@[simp] theorem ofOption_none : (ofOption none : Outcome ε α) = panic := rfl

@[simp] theorem ofOption_eq_ok {o : Option α} {a : α} : (ofOption o : Outcome ε α) = ok a ↔ o = some a := by
  cases o <;> simp [ofOption]

/-- `Result::map_err`: rewrite the error, leave the rest. -/
def mapErr {ε' : Type} (f : ε → ε') : Outcome ε α → Outcome ε' α
  | ok a => ok a
  | err e => err (f e)
  | panic => panic

@[simp] theorem mapErr_ok {ε' : Type} (f : ε → ε') (a : α) : mapErr f (ok a) = ok a := rfl

@[simp] theorem mapErr_err {ε' : Type} (f : ε → ε') (e : ε) :
    mapErr f (err e : Outcome ε α) = err (f e) := rfl

@[simp] theorem mapErr_panic {ε' : Type} (f : ε → ε') :
    mapErr f (panic : Outcome ε α) = panic := rfl

@[simp] theorem mapErr_eq_ok {ε' : Type} {f : ε → ε'} {x : Outcome ε α} {a : α} :
    mapErr f x = ok a ↔ x = ok a := by
  cases x <;> simp [mapErr]

/-- `Result::unwrap`: an `Err` panics. -/
def unwrap {ε' : Type} : Outcome ε α → Outcome ε' α
  | ok a => ok a
  | err _ => panic
  | panic => panic

@[simp] theorem unwrap_ok {ε' : Type} (a : α) : (unwrap (ok a : Outcome ε α) : Outcome ε' α) = ok a :=
  rfl

/-! ### Loops and optional calls

**Invariant rule for `foldlM`** (`foldlM_inv`): a property of the accumulator that every
successful step keeps holds of what a successful fold returns.

`for x in xs { out.push(f(x)?) }` is `List.mapM`, and `opt.map(f)` over a call that can fail
or panic is `Option.mapM`. -/

theorem bind_ne_panic {x : Outcome ε α} {f : α → Outcome ε β} (hx : x ≠ panic)
    (hf : ∀ a, x = ok a → f a ≠ panic) : x >>= f ≠ panic := by
  cases x with
  | ok a => exact hf a rfl
  | err e => exact fun h ↦ by cases h
  | panic => exact absurd rfl hx

/-- **The loop rule**: a step on an item of the list keeps the invariant, so the loop does. -/
theorem foldlM_inv_of_mem {ι σ : Type} (I : σ → Prop) {f : σ → ι → Outcome ε σ} :
    ∀ (l : List ι), (∀ s, ∀ i ∈ l, ∀ s', I s → f s i = ok s' → I s') →
      ∀ {s s' : σ}, I s → l.foldlM f s = ok s' → I s'
  | [], _, _, _, hs, h => by
    cases h
    exact hs
  | i :: l, hstep, s, _, hs, h => by
    rw [List.foldlM_cons, bind_eq_ok] at h
    obtain ⟨s₁, h₁, h'⟩ := h
    exact foldlM_inv_of_mem I l (fun s j hj ↦ hstep s j (List.mem_cons_of_mem i hj))
      (hstep s i List.mem_cons_self s₁ hs h₁) h'

theorem foldlM_inv {ι σ : Type} (I : σ → Prop) {f : σ → ι → Outcome ε σ}
    (hstep : ∀ s i s', I s → f s i = ok s' → I s') (l : List ι) {s s' : σ} :
    I s → l.foldlM f s = ok s' → I s' :=
  foldlM_inv_of_mem I l fun s i _ ↦ hstep s i

/-- A fold none of whose steps panics does not panic. -/
theorem foldlM_ne_panic {ι σ : Type} {f : σ → ι → Outcome ε σ} :
    ∀ {l : List ι}, (∀ s, ∀ i ∈ l, f s i ≠ panic) → ∀ s, l.foldlM f s ≠ panic
  | [], _, _ => fun h ↦ by cases h
  | i :: l, h, s => by
    rw [List.foldlM_cons]
    exact bind_ne_panic (h s i List.mem_cons_self) fun s' _ ↦
      foldlM_ne_panic (fun s'' j hj ↦ h s'' j (List.mem_cons_of_mem i hj)) s'

/-- A loop whose every call returns what `g` says returns the whole list mapped by `g`. -/
theorem mapM_eq_ok_map {f : α → Outcome ε β} {g : α → β} :
    ∀ {l : List α}, (∀ a ∈ l, f a = ok (g a)) → l.mapM f = ok (l.map g)
  | [], _ => rfl
  | a :: l, h => by
    rw [List.mapM_cons, h a List.mem_cons_self,
      mapM_eq_ok_map fun a' ha' ↦ h a' (List.mem_cons_of_mem a ha')]
    rfl

/-- A loop none of whose calls panics does not panic. -/
theorem mapM_ne_panic {f : α → Outcome ε β} :
    ∀ {l : List α}, (∀ a ∈ l, f a ≠ panic) → l.mapM f ≠ panic
  | [], _ => fun h ↦ by cases h
  | a :: l, h => by
    rw [List.mapM_cons]
    refine bind_ne_panic (h a List.mem_cons_self) fun b _ ↦ ?_
    refine bind_ne_panic (mapM_ne_panic fun a' ha' ↦ h a' (List.mem_cons_of_mem a ha'))
      fun bs _ ↦ ?_
    exact fun h' ↦ by cases h'

theorem optionMapM_ne_panic {f : α → Outcome ε β} {o : Option α} (h : ∀ a ∈ o, f a ≠ panic) :
    o.mapM f ≠ panic := by
  cases o with
  | none => exact fun h' ↦ by cases h'
  | some a =>
    rw [Option.mapM_some]
    cases hf : f a with
    | ok b => exact fun h' ↦ by cases h'
    | err e => exact fun h' ↦ by cases h'
    | panic => exact absurd hf (h a rfl)

/-! ### Depth-bounded recursion

A recursion of the source that has no bound of its own (it ends only where the data ends, or
overflows the stack) is modelled with a depth argument that panics at zero.  `Approx x y` says `y`
is at least as defined as `x`: `x` ran out of depth, or the two agree.  Binds, folds and maps
respect it, so more depth never changes a result that was found (`Approx.eq_of_ne_panic`). -/

/-- `x` panicked (ran out of depth) or is `y`. -/
def Approx (x y : Outcome ε α) : Prop := x = panic ∨ x = y

theorem Approx.refl (x : Outcome ε α) : Approx x x := .inr rfl

theorem Approx.panic_left (y : Outcome ε α) : Approx panic y := .inl rfl

theorem Approx.eq_of_ne_panic {x y : Outcome ε α} (h : Approx x y) (hx : x ≠ panic) : x = y :=
  h.resolve_left hx

theorem Approx.bind {x y : Outcome ε α} {f g : α → Outcome ε β} (hxy : Approx x y)
    (hfg : ∀ a, Approx (f a) (g a)) : Approx (x >>= f) (y >>= g) := by
  rcases hxy with rfl | rfl
  · exact .panic_left _
  · cases x with
    | ok a => exact hfg a
    | err e => exact .refl _
    | panic => exact .refl _

theorem Approx.foldlM {ι σ : Type} {f g : σ → ι → Outcome ε σ}
    (hfg : ∀ s i, Approx (f s i) (g s i)) :
    ∀ (l : List ι) (s : σ), Approx (l.foldlM f s) (l.foldlM g s)
  | [], _ => .refl _
  | i :: l, s => by
    rw [List.foldlM_cons, List.foldlM_cons]
    exact (hfg s i).bind fun s' ↦ Approx.foldlM hfg l s'

theorem Approx.mapM {f g : α → Outcome ε β} :
    ∀ {l : List α}, (∀ a ∈ l, Approx (f a) (g a)) → Approx (l.mapM f) (l.mapM g)
  | [], _ => .refl _
  | a :: l, h => by
    rw [List.mapM_cons, List.mapM_cons]
    refine (h a List.mem_cons_self).bind fun b ↦ ?_
    exact (Approx.mapM fun a' ha' ↦ h a' (List.mem_cons_of_mem a ha')).bind fun _ ↦ .refl _

end Outcome

namespace Except

variable {ε α : Type}

/-- `Result::unwrap_or_default` for a call that cannot panic. -/
def unwrapOrDefault [Inhabited α] : Except ε α → α
  | .ok a => a
  | .error _ => default

@[simp] theorem unwrapOrDefault_ok [Inhabited α] (a : α) :
    unwrapOrDefault (.ok a : Except ε α) = a := rfl

@[simp] theorem unwrapOrDefault_error [Inhabited α] (e : ε) :
    unwrapOrDefault (.error e : Except ε α) = default := rfl

/-- A mapped computation that succeeded succeeded before the map. -/
theorem map_eq_ok {β : Type} {f : α → β} {x : Except ε α} {b : β} (h : f <$> x = .ok b) :
    ∃ a, x = .ok a ∧ f a = b := by
  cases x with
  | error e => cases h
  | ok a =>
    cases h
    exact ⟨a, rfl, rfl⟩

/-- A sequence that succeeded: both of its parts did. -/
theorem bind_eq_ok {β : Type} {x : Except ε α} {f : α → Except ε β} {b : β}
    (h : x >>= f = .ok b) : ∃ a, x = .ok a ∧ f a = .ok b := by
  cases x with
  | error e => cases h
  | ok a => exact ⟨a, rfl, h⟩

/-- An invariant of the accumulator that every round keeps holds of what a fold returns. -/
theorem foldlM_inv {ι σ : Type} (I : σ → Prop) {f : σ → ι → Except ε σ} :
    ∀ (l : List ι), (∀ s, ∀ i ∈ l, ∀ s', I s → f s i = .ok s' → I s') →
      ∀ {s s' : σ}, I s → l.foldlM f s = .ok s' → I s'
  | [], _, _, _, hs, h => by
    cases h
    exact hs
  | i :: l, hstep, s, _, hs, h => by
    rw [List.foldlM_cons] at h
    obtain ⟨s₁, h₁, h'⟩ := bind_eq_ok h
    exact foldlM_inv I l (fun s' j hj ↦ hstep s' j (List.mem_cons_of_mem i hj))
      (hstep s i List.mem_cons_self s₁ hs h₁) h'

/-- Every error `x` fails with satisfies `E`. -/
def FailsWith (E : ε → Prop) (x : Except ε α) : Prop := ∀ e, x = .error e → E e

variable {E : ε → Prop}

theorem failsWith_ok (a : α) : FailsWith E (.ok a : Except ε α) := fun _ h ↦ by cases h

theorem failsWith_error {e : ε} (h : E e) : FailsWith E (.error e : Except ε α) := fun _ he ↦ by
  cases he
  exact h

theorem FailsWith.bind {β : Type} {x : Except ε α} {f : α → Except ε β} (hx : FailsWith E x)
    (hf : ∀ a, x = .ok a → FailsWith E (f a)) : FailsWith E (x >>= f) := by
  intro e h
  cases hxa : x with
  | error e' =>
    rw [hxa] at h
    cases h
    exact hx e hxa
  | ok a =>
    rw [hxa] at h
    exact hf a hxa e h

theorem failsWith_mapError {ε' : Type} {f : ε' → ε} (hf : ∀ e, E (f e)) (x : Except ε' α) :
    FailsWith E (x.mapError f) := by
  intro e h
  cases x with
  | error e' =>
    cases h
    exact hf e'
  | ok a => cases h

/-- A fold whose every round fails only with errors that satisfy `E` fails only with such. -/
theorem FailsWith.foldlM {ι σ : Type} {f : σ → ι → Except ε σ} :
    ∀ {l : List ι}, (∀ s, ∀ i ∈ l, FailsWith E (f s i)) → ∀ s, FailsWith E (l.foldlM f s)
  | [], _, s => failsWith_ok s
  | i :: l, h, s => by
    rw [List.foldlM_cons]
    exact (h s i List.mem_cons_self).bind fun s' _ ↦
      FailsWith.foldlM (fun s'' j hj ↦ h s'' j (List.mem_cons_of_mem i hj)) s'

end Except

/-! ## Recursion with fuel

A recursion that a model bounds by fuel ends in `Option (Except ε α)`: `none` when the fuel ran
out, and otherwise the `Result`.  Each model shows that the fuel it passes does not run out. -/

namespace Fueled

variable {ε σ ι : Type}

/-- A loop whose body may fail or run out of fuel: run the steps in order, and stop at the first
that does not succeed. -/
def forSteps (step : ι → σ → Option (Except ε σ)) : List ι → σ → Option (Except ε σ)
  | [], s => some (.ok s)
  | i :: is, s =>
    match step i s with
    | some (.ok s') => forSteps step is s'
    | r => r

/-- **The loop rule.**  `P` holds of the states, `R` relates where a step starts to where it ends
and composes, and `Q i` is what the step of `i` leaves, which later steps keep.  A loop that
succeeded keeps `P`, moves along `R`, and leaves `Q i` for every item. -/
theorem forSteps_rule {step : ι → σ → Option (Except ε σ)} (P : σ → Prop) (R : σ → σ → Prop)
    (Q : ι → σ → Prop) (hrefl : ∀ s, R s s) (htrans : ∀ s₁ s₂ s₃, R s₁ s₂ → R s₂ s₃ → R s₁ s₃)
    (hQ : ∀ i s s', Q i s → R s s' → Q i s') :
    ∀ (l : List ι), (∀ i ∈ l, ∀ s s', step i s = some (.ok s') → P s → P s' ∧ R s s' ∧ Q i s') →
      ∀ s s', forSteps step l s = some (.ok s') → P s → P s' ∧ R s s' ∧ ∀ i ∈ l, Q i s'
  | [], _, s, s', h, hs => by
    cases h
    exact ⟨hs, hrefl s, fun _ hi ↦ nomatch hi⟩
  | i :: l, hstep, s, s', h, hs => by
    cases hi : step i s with
    | none => simp [forSteps, hi] at h
    | some r =>
      cases r with
      | error e => simp [forSteps, hi] at h
      | ok s₁ =>
        rw [forSteps, hi] at h
        obtain ⟨hs₁, hR₁, hQ₁⟩ := hstep i List.mem_cons_self s s₁ hi hs
        obtain ⟨hs', hR', hQ'⟩ :=
          forSteps_rule P R Q hrefl htrans hQ l (fun j hj ↦ hstep j (List.mem_cons_of_mem i hj))
            s₁ s' h hs₁
        refine ⟨hs', htrans s s₁ s' hR₁ hR', fun j hj ↦ ?_⟩
        rcases List.mem_cons.1 hj with rfl | hj
        · exact hQ j s₁ s' hQ₁ hR'
        · exact hQ' j hj

/-- A loop whose steps never run out of fuel from states where `P` holds, and keep `P` when they
succeed, never runs out of fuel. -/
theorem forSteps_ne_none {step : ι → σ → Option (Except ε σ)} (P : σ → Prop) :
    ∀ (l : List ι), (∀ i ∈ l, ∀ s, P s → step i s ≠ none ∧ ∀ s', step i s = some (.ok s') → P s') →
      ∀ s, P s → forSteps step l s ≠ none
  | [], _, s, _ => fun h ↦ by cases h
  | i :: l, hstep, s, hs => by
    obtain ⟨hne, hP⟩ := hstep i List.mem_cons_self s hs
    cases hi : step i s with
    | none => exact absurd hi hne
    | some r =>
      cases r with
      | error e => simp [forSteps, hi]
      | ok s₁ =>
        rw [forSteps, hi]
        exact forSteps_ne_none P l (fun j hj ↦ hstep j (List.mem_cons_of_mem i hj)) s₁ (hP s₁ hi)

end Fueled
