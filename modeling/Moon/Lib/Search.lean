import Mathlib.Data.List.Basic

/-!
# Searching a list while threading a state

The loop

    for x in xs {
        if let Some(r) = f(x, &mut state) {
            return Some(r);
        }
    }

asks each element in turn for an answer, stops at the first one that gives it, and hands a
mutable state from each call to the next.  `List.findSomeWith` is that loop, with the state made
explicit: each call returns its answer and the state it leaves behind.

Three rules are all the reasoning that such a loop needs:

* an answer of the loop is the answer of one of its calls (`List.exists_of_findSomeWith_eq_some`);
* a property of the state that every call keeps when it finds nothing holds after a loop that
  finds nothing (`List.findSomeWith_none_inv`);
* under such a property, if one element answers from every state the property allows, then the
  loop answers (`List.findSomeWith_isSome`).
-/

set_option autoImplicit false

namespace List

variable {α β σ : Type}

/-- The first answer of `f` over the list, with the state threaded through every call made until
then; the state is returned as the last call left it. -/
def findSomeWith (f : α → σ → Option β × σ) : List α → σ → Option β × σ
  | [], s => (none, s)
  | a :: as, s =>
    match f a s with
    | (some b, s') => (some b, s')
    | (none, s') => findSomeWith f as s'

@[simp] theorem findSomeWith_nil (f : α → σ → Option β × σ) (s : σ) :
    findSomeWith f [] s = (none, s) := rfl

theorem findSomeWith_cons (f : α → σ → Option β × σ) (a : α) (as : List α) (s : σ) :
    findSomeWith f (a :: as) s =
      match f a s with
      | (some b, s') => (some b, s')
      | (none, s') => findSomeWith f as s' :=
  rfl

theorem findSomeWith_cons_of_some {f : α → σ → Option β × σ} {a : α} {s s' : σ} {b : β}
    (as : List α) (h : f a s = (some b, s')) : findSomeWith f (a :: as) s = (some b, s') := by
  rw [findSomeWith_cons, h]

theorem findSomeWith_cons_of_none {f : α → σ → Option β × σ} {a : α} {s s' : σ}
    (as : List α) (h : f a s = (none, s')) : findSomeWith f (a :: as) s = findSomeWith f as s' := by
  rw [findSomeWith_cons, h]

/-- Every call either answers or does not: the one case split the loop makes. -/
theorem findSomeWith_cons_cases (f : α → σ → Option β × σ) (a : α) (as : List α) (s : σ) :
    (∃ b s', f a s = (some b, s') ∧ findSomeWith f (a :: as) s = (some b, s')) ∨
      (∃ s', f a s = (none, s') ∧ findSomeWith f (a :: as) s = findSomeWith f as s') := by
  rcases hfa : f a s with ⟨o, s'⟩
  cases o with
  | some b => exact .inl ⟨b, s', rfl, findSomeWith_cons_of_some as hfa⟩
  | none => exact .inr ⟨s', rfl, findSomeWith_cons_of_none as hfa⟩

/-- **An answer of the loop is the answer of one of its calls.** -/
theorem exists_of_findSomeWith_eq_some {f : α → σ → Option β × σ} {b : β} :
    ∀ {xs : List α} {s : σ}, (findSomeWith f xs s).1 = some b →
      ∃ a ∈ xs, ∃ t t', f a t = (some b, t')
  | [], _, h => by simp at h
  | a :: as, s, h => by
    rcases findSomeWith_cons_cases f a as s with ⟨b', s', hfa, heq⟩ | ⟨s', hfa, heq⟩
    · rw [heq] at h
      cases h
      exact ⟨a, mem_cons_self, s, s', hfa⟩
    · rw [heq] at h
      obtain ⟨a', ha', t, t', hf⟩ := exists_of_findSomeWith_eq_some h
      exact ⟨a', mem_cons_of_mem a ha', t, t', hf⟩

section Invariant

variable (P : σ → Prop) {f : α → σ → Option β × σ}

/-- **Invariant rule.**  A property of the state that every call keeps holds after the loop. -/
theorem findSomeWith_inv :
    ∀ {xs : List α} {s : σ}, (∀ a ∈ xs, ∀ t, P t → P (f a t).2) → P s →
      P (findSomeWith f xs s).2
  | [], _, _, hs => hs
  | a :: as, s, hf, hs => by
    rcases findSomeWith_cons_cases f a as s with ⟨b, s', hfa, heq⟩ | ⟨s', hfa, heq⟩
    · rw [heq]
      have := hf a mem_cons_self s hs
      rw [hfa] at this
      exact this
    · have hs' : P s' := by
        have := hf a mem_cons_self s hs
        rwa [hfa] at this
      rw [heq]
      exact findSomeWith_inv (fun a' ha' ↦ hf a' (mem_cons_of_mem a ha')) hs'

/-- **Congruence.**  Two loops whose calls agree on every state a kept property allows are the
same loop. -/
theorem findSomeWith_congr {g : α → σ → Option β × σ} :
    ∀ {xs : List α} {s : σ}, (∀ a ∈ xs, ∀ t, P t → f a t = g a t) →
      (∀ a ∈ xs, ∀ t, P t → P (f a t).2) → P s → findSomeWith f xs s = findSomeWith g xs s
  | [], _, _, _, _ => rfl
  | a :: as, s, hfg, hf, hs => by
    have hfg' : ∀ a' ∈ as, ∀ t, P t → f a' t = g a' t := fun a' ha' ↦ hfg a' (mem_cons_of_mem a ha')
    have hf' : ∀ a' ∈ as, ∀ t, P t → P (f a' t).2 := fun a' ha' ↦ hf a' (mem_cons_of_mem a ha')
    have hs' := hf a mem_cons_self s hs
    rw [findSomeWith_cons, findSomeWith_cons, ← hfg a mem_cons_self s hs]
    rcases hfa : f a s with ⟨_ | b, s'⟩
    · rw [hfa] at hs'
      exact findSomeWith_congr hfg' hf' hs'
    · rfl

/-- **Invariant rule.**  A property of the state that every call keeps when it finds nothing holds
after a loop that finds nothing. -/
theorem findSomeWith_none_inv :
    ∀ {xs : List α} {s : σ}, (∀ a ∈ xs, ∀ t t', P t → f a t = (none, t') → P t') → P s →
      (findSomeWith f xs s).1 = none → P (findSomeWith f xs s).2
  | [], _, _, hs, _ => hs
  | a :: as, s, hf, hs, h => by
    rcases findSomeWith_cons_cases f a as s with ⟨b, s', _, heq⟩ | ⟨s', hfa, heq⟩
    · rw [heq] at h
      cases h
    · have hs' : P s' := hf a mem_cons_self s s' hs hfa
      have hf' : ∀ a ∈ as, ∀ t t', P t → f a t = (none, t') → P t' :=
        fun a' ha' ↦ hf a' (mem_cons_of_mem a ha')
      rw [heq] at h ⊢
      exact findSomeWith_none_inv hf' hs' h

/-- **Progress rule.**  Under a property of the state that the calls finding nothing keep, the
loop answers as soon as one of its elements answers from every state the property allows. -/
theorem findSomeWith_isSome {xs : List α} {s : σ}
    (hf : ∀ a ∈ xs, ∀ t t', P t → f a t = (none, t') → P t') (hs : P s)
    (ha : ∃ a ∈ xs, ∀ t, P t → (f a t).1.isSome) : (findSomeWith f xs s).1.isSome := by
  induction xs generalizing s with
  | nil => simp at ha
  | cons a as ih =>
    rcases findSomeWith_cons_cases f a as s with ⟨b, s', _, heq⟩ | ⟨s', hfa, heq⟩
    · rw [heq]
      rfl
    · rw [heq]
      obtain ⟨a', ha', hsome⟩ := ha
      rcases mem_cons.mp ha' with rfl | hmem
      · -- the answering element is the head, which found nothing: impossible
        have := hsome s hs
        rw [hfa] at this
        cases this
      · exact ih (fun a'' h'' ↦ hf a'' (mem_cons_of_mem a h''))
          (hf a mem_cons_self s s' hs hfa) ⟨a', hmem, hsome⟩

end Invariant

end List
