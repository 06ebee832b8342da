import Moon.Lib.Outcome
import Mathlib.Order.Basic

/-!
# `while` loops, run on fuel

The loop

    while cond(&s) {
        s = body(s)?;
    }

stops when the condition fails, or at the first error or panic of the body, and nothing else
bounds it.
`Fuel.whileLoop cond body fuel s` runs it for at most `fuel` rounds, and is `none` when the fuel
ran out before the loop stopped.  Whether the loop stops is then a statement about fuel:

* `whileLoop_mono`: a loop that stopped within some fuel stops, with the same result, within
  more — so a result at some fuel is *the* result;
* `whileLoop_ne_none`: a loop whose body lowers a measure stops within the measure plus one;
* `whileLoop_eq_none_of_inv`: a loop that, from a set of states, always takes another round and
  stays in the set runs out of every fuel: it does not stop;
* `whileLoop_inv`: the invariant rule — what the body keeps holds when the loop stops, and the
  condition has failed there.
-/

set_option autoImplicit false

namespace Fuel

variable {ε σ : Type} (cond : σ → Bool) (body : σ → Outcome ε σ)

/-- `while cond(&s) { s = body(s)?; }`, for at most `fuel` rounds. -/
def whileLoop : ℕ → σ → Option (Outcome ε σ)
  | 0, _ => none
  | fuel + 1, s =>
    if cond s then
      match body s with
      | .ok s' => whileLoop fuel s'
      | .err e => some (.err e)
      | .panic => some .panic
    else some (.ok s)

variable {cond body}

@[simp] theorem whileLoop_zero (s : σ) : whileLoop cond body 0 s = none := rfl

theorem whileLoop_succ (fuel : ℕ) (s : σ) :
    whileLoop cond body (fuel + 1) s =
      if cond s then
        match body s with
        | .ok s' => whileLoop cond body fuel s'
        | .err e => some (.err e)
        | .panic => some .panic
      else some (.ok s) :=
  rfl

theorem whileLoop_of_cond_false {s : σ} (h : cond s = false) (fuel : ℕ) :
    whileLoop cond body (fuel + 1) s = some (.ok s) := by
  rw [whileLoop_succ, if_neg (by simp [h])]

theorem whileLoop_of_body_ok {s s' : σ} (hcond : cond s = true) (hbody : body s = .ok s')
    (fuel : ℕ) : whileLoop cond body (fuel + 1) s = whileLoop cond body fuel s' := by
  rw [whileLoop_succ, if_pos hcond, hbody]

/-- A round whose body fails or panics ends the loop with that. -/
theorem whileLoop_of_body_ne_ok {s : σ} (hcond : cond s = true) (hbody : ∀ s', body s ≠ .ok s')
    (fuel : ℕ) : whileLoop cond body (fuel + 1) s = some (body s) := by
  rw [whileLoop_succ, if_pos hcond]
  cases h : body s with
  | ok s' => exact absurd h (hbody s')
  | err e => rfl
  | panic => rfl

/-- One more round of fuel does not change a result. -/
theorem whileLoop_succ_of_ne_none :
    ∀ {fuel : ℕ} {s : σ}, whileLoop cond body fuel s ≠ none →
      whileLoop cond body (fuel + 1) s = whileLoop cond body fuel s
  | 0, _, h => absurd rfl h
  | fuel + 1, s, h => by
    cases hcond : cond s
    · rw [whileLoop_of_cond_false hcond, whileLoop_of_cond_false hcond]
    · by_cases hok : ∃ s', body s = .ok s'
      · obtain ⟨s', hbody⟩ := hok
        rw [whileLoop_of_body_ok hcond hbody] at h ⊢
        rw [whileLoop_of_body_ok hcond hbody]
        exact whileLoop_succ_of_ne_none h
      · have hstop := not_exists.1 hok
        rw [whileLoop_of_body_ne_ok hcond hstop, whileLoop_of_body_ne_ok hcond hstop]

/-- **More fuel does not change a result.** -/
theorem whileLoop_mono {fuel fuel' : ℕ} (hle : fuel ≤ fuel') {s : σ}
    (h : whileLoop cond body fuel s ≠ none) :
    whileLoop cond body fuel' s = whileLoop cond body fuel s := by
  induction hle with
  | refl => rfl
  | step _ ih =>
    rw [← ih]
    exact whileLoop_succ_of_ne_none (ih ▸ h)

/-- **A loop whose body lowers a measure stops**, within the measure plus one rounds. -/
theorem whileLoop_ne_none (μ : σ → ℕ)
    (hdec : ∀ s s', cond s = true → body s = .ok s' → μ s' < μ s) :
    ∀ (fuel : ℕ) (s : σ), μ s < fuel → whileLoop cond body fuel s ≠ none
  | 0, _, h => absurd h (Nat.not_lt_zero _)
  | fuel + 1, s, h => by
    cases hcond : cond s
    · rw [whileLoop_of_cond_false hcond]
      exact Option.some_ne_none _
    · by_cases hok : ∃ s', body s = .ok s'
      · obtain ⟨s', hbody⟩ := hok
        rw [whileLoop_of_body_ok hcond hbody]
        exact whileLoop_ne_none μ hdec fuel s' (by have := hdec s s' hcond hbody; omega)
      · rw [whileLoop_of_body_ne_ok hcond (not_exists.1 hok)]
        exact Option.some_ne_none _

/-- **A loop that never leaves a set of states where it goes on does not stop**: from such a
state every fuel runs out. -/
theorem whileLoop_eq_none_of_inv (I : σ → Prop) (hcond : ∀ s, I s → cond s = true)
    (hbody : ∀ s, I s → ∃ s', body s = .ok s' ∧ I s') :
    ∀ (fuel : ℕ) (s : σ), I s → whileLoop cond body fuel s = none
  | 0, _, _ => rfl
  | fuel + 1, s, hs => by
    obtain ⟨s', hbody', hs'⟩ := hbody s hs
    rw [whileLoop_of_body_ok (hcond s hs) hbody']
    exact whileLoop_eq_none_of_inv I hcond hbody fuel s' hs'

/-- A round that leaves the state as it was, with the condition still true, repeats forever. -/
theorem whileLoop_eq_none_of_fixed {s : σ} (hcond : cond s = true) (hbody : body s = .ok s)
    (fuel : ℕ) : whileLoop cond body fuel s = none :=
  whileLoop_eq_none_of_inv (· = s) (fun _ h ↦ h ▸ hcond) (fun _ h ↦ ⟨s, h ▸ hbody, rfl⟩) fuel s rfl

/-- A loop whose body always succeeds stops, when it stops, with `Ok`. -/
theorem whileLoop_eq_ok_of_total (htotal : ∀ s, ∃ s', body s = .ok s') :
    ∀ (fuel : ℕ) (s : σ) (r : Outcome ε σ), whileLoop cond body fuel s = some r → ∃ s', r = .ok s'
  | 0, _, _, h => by cases h
  | fuel + 1, s, r, h => by
    cases hcond : cond s
    · rw [whileLoop_of_cond_false hcond, Option.some.injEq] at h
      exact ⟨s, h.symm⟩
    · obtain ⟨s', hbody⟩ := htotal s
      rw [whileLoop_of_body_ok hcond hbody] at h
      exact whileLoop_eq_ok_of_total htotal fuel s' r h

/-- **The invariant rule.**  What every round keeps holds of the state the loop stops in, where
the condition has failed. -/
theorem whileLoop_inv (I : σ → Prop)
    (hbody : ∀ s s', I s → cond s = true → body s = .ok s' → I s') :
    ∀ (fuel : ℕ) (s r : σ), I s → whileLoop cond body fuel s = some (.ok r) → I r ∧ cond r = false
  | 0, _, _, _, h => by cases h
  | fuel + 1, s, r, hs, h => by
    cases hcond : cond s
    · rw [whileLoop_of_cond_false hcond] at h
      cases h
      exact ⟨hs, hcond⟩
    · by_cases hok : ∃ s', body s = .ok s'
      · obtain ⟨s', hb⟩ := hok
        rw [whileLoop_of_body_ok hcond hb] at h
        exact whileLoop_inv I hbody fuel s' r (hbody s s' hs hcond hb) h
      · -- a body that stopped the loop did not return `Ok`
        rw [whileLoop_of_body_ne_ok hcond (not_exists.1 hok), Option.some.injEq] at h
        exact absurd h (not_exists.1 hok r)

end Fuel
