import Mathlib.Logic.Relation
import Mathlib.Order.Basic

/-!
# Machines that step and stop

A loop whose rounds are chosen by someone else — a scheduler, the network, the order in which
futures complete — is a relation: `step c c'` when one round may take the configuration `c` to
`c'`, and `stop c x` when a round may end the loop in `c` with the result `x`.  What the loop can
return is what a run of steps followed by a stop can end in (`Returns`).

* `Reachable.inv`: the invariant rule — what holds initially and every step keeps holds in every
  configuration a run reaches.
* `acc_of_measure`: a measure that every step lowers rules out runs that never end.
* `exists_returns`: when every configuration can step or stop, and no run goes on forever, some
  run returns.
-/

set_option autoImplicit false

namespace Machine

variable {γ ρ : Type} (step : γ → γ → Prop) (stop : γ → ρ → Prop)

/-- The configurations a run of steps from `c` can reach. -/
def Reachable (c : γ) : γ → Prop := Relation.ReflTransGen step c

/-- What a run from `c` can return: a run of steps, then a stop. -/
def Returns (c : γ) (x : ρ) : Prop := ∃ c', Reachable step c c' ∧ stop c' x

variable {step stop}

/-- **The invariant rule.** -/
theorem Reachable.inv (I : γ → Prop) (hstep : ∀ c c', I c → step c c' → I c') {c c' : γ}
    (hc : I c) (h : Reachable step c c') : I c' := by
  induction h with
  | refl => exact hc
  | tail _ hlast ih => exact hstep _ _ ih hlast

/-- **Runs end** when every step lowers a measure. -/
theorem acc_of_measure (μ : γ → ℕ) (hμ : ∀ c c', step c c' → μ c' < μ c) (c : γ) :
    Acc (flip step) c :=
  Subrelation.accessible (fun h ↦ hμ _ _ h) (InvImage.accessible μ (Nat.lt_wfRel.wf.apply (μ c)))

/-- **Some run returns** when no configuration is stuck and no run goes on forever. -/
theorem exists_returns (hprogress : ∀ c, (∃ c', step c c') ∨ ∃ x, stop c x) {c : γ}
    (hacc : Acc (flip step) c) : ∃ x, Returns step stop c x := by
  induction hacc with
  | intro c _ ih =>
    rcases hprogress c with ⟨c', hc'⟩ | ⟨x, hx⟩
    · -- a run from the next configuration, with this step before it
      obtain ⟨x, c'', hreach, hstop⟩ := ih c' hc'
      exact ⟨x, c'', .head hc' hreach, hstop⟩
    · exact ⟨x, c, .refl, hx⟩

end Machine
