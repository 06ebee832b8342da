import Moon.Lib.Outcome
import Mathlib.Data.List.Infix

/-!
# A task's inheritance chain: `extract_config`

`crates/task-builder/src/tasks_builder.rs`.  Before `build_task` merges a task's settings it
collects the configurations they come from: the global configurations the project inherits for
the task id, then the project's own.  A configuration that `extends` another task is preceded by
that task's whole chain, found by the same function, and an `extends` whose chain is empty is
`TasksBuilderError::UnknownExtendsSource`.

Nothing bounds the recursion but the data: there is no set of ids already visited.  The model
therefore carries the depth of the Rust call stack, and running out of it is a panic, the stack
overflow.  More depth never changes a result that was found (`extractConfig_mono`), so a result
at some depth is *the* result.

* `extractConfig_ne_panic`: when every `extends` leads to a task of lower rank — the relation has
  no cycle — the recursion ends, with a depth one above the rank.
* `extractConfig_extendsBefore`: a chain that was found lists, right before each configuration
  that extends a task, that task's own chain.
* `extractConfig_cycle`: when the first `extends` of a task leads, again and again, back into a
  set of tasks — `a` extending `a`, or `a` and `b` extending each other — no depth is enough.

The configurations are of any type: `extract_config` reads only their `extends`.
-/

set_option autoImplicit false

namespace Moon

/-- `TasksBuilderError::UnknownExtendsSource`. -/
structure UnknownExtendsSource where
  sourceId : String
  targetId : String
  deriving DecidableEq, Repr

section Chains

variable {α : Type}

/-- Each entry of `l` satisfies `P` together with the entries before it. -/
def EachAfter (P : List α → α → Prop) (l : List α) : Prop :=
  ∀ j (hj : j < l.length), P (l.take j) l[j]

theorem EachAfter.nil (P : List α → α → Prop) : EachAfter P [] := fun _ hj ↦ absurd hj (by simp)

/-- Appending keeps the property of both parts, when `P` survives putting more in front. -/
theorem EachAfter.append {P : List α → α → Prop} {a b : List α} (ha : EachAfter P a)
    (hb : EachAfter P b) (hmono : ∀ q pre x, P pre x → P (q ++ pre) x) :
    EachAfter P (a ++ b) := by
  intro j hj
  rw [List.take_append, List.getElem_append]
  split
  · next hja =>
    rw [show j - a.length = 0 by omega, List.take_zero, List.append_nil]
    exact ha j hja
  · next hja =>
    rw [List.take_of_length_le (by omega : a.length ≤ j)]
    exact hmono a _ _ (hb _ (by simp at hj; omega))

theorem EachAfter.concat {P : List α → α → Prop} {a : List α} {x : α} (ha : EachAfter P a)
    (hx : P a x) : EachAfter P (a ++ [x]) := by
  intro j hj
  rw [List.length_append, List.length_singleton] at hj
  rcases Nat.lt_or_ge j a.length with hja | hja
  · rw [List.take_append_of_le_length hja.le, List.getElem_append_left hja]
    exact ha j hja
  · obtain rfl : j = a.length := by omega
    rw [List.take_append_length, List.getElem_concat_length rfl]
    exact hx

end Chains

namespace ExtractConfig

variable {C : Type} (extendsOf : C → Option String) (localTasks : String → Option C)
  (globalTasks : String → List C)

/-- The closure `extract` of `extract_config`: push a configuration onto the stack, preceded by
the chain of the task it extends.  The chain is found by `recurse`, the recursive call. -/
def extract (recurse : String → Outcome UnknownExtendsSource (List (C × Bool))) (taskId : String)
    (stack : List (C × Bool)) (config : C) (inherited : Bool) :
    Outcome UnknownExtendsSource (List (C × Bool)) :=
  match extendsOf config with
  | none => pure (stack ++ [(config, inherited)])
  | some extendTaskId => do
    let extendedStack ← recurse extendTaskId
    if extendedStack.isEmpty then .err ⟨taskId, extendTaskId⟩
    else pure (stack ++ extendedStack ++ [(config, inherited)])

/-- `extract_config`, with `depth` the room left on the call stack.  The global configurations of
`taskId` (an id with none has an empty list), inherited, then the local one. -/
def extractConfig : ℕ → String → Outcome UnknownExtendsSource (List (C × Bool))
  | 0, _ => .panic
  | depth + 1, taskId => do
    let stack ← (globalTasks taskId).foldlM
      (fun stack config ↦ extract extendsOf (extractConfig depth) taskId stack config true) []
    match localTasks taskId with
    | some config => extract extendsOf (extractConfig depth) taskId stack config false
    | none => pure stack

/-- The configurations of `taskId` in the order `extract_config` visits them. -/
def configsOf (taskId : String) : List (C × Bool) :=
  (globalTasks taskId).map (·, true) ++ (localTasks taskId).toList.map (·, false)

/-- The task the first configuration of `taskId` with an `extends` extends. -/
def firstExtends (taskId : String) : Option String :=
  (configsOf localTasks globalTasks taskId).findSome? fun c ↦ extendsOf c.1

/-! ## One link -/

section Extract

variable {extendsOf}

/-- What one link can do: push the configuration, after the non-empty chain of the task it
extends. -/
theorem extract_eq_ok {recurse : String → Outcome UnknownExtendsSource (List (C × Bool))}
    {taskId : String} {stack stack' : List (C × Bool)} {config : C} {inherited : Bool}
    (h : extract extendsOf recurse taskId stack config inherited = .ok stack') :
    ∃ extended, stack' = stack ++ extended ++ [(config, inherited)] ∧
      (extendsOf config = none ∧ extended = [] ∨
        ∃ e, extendsOf config = some e ∧ recurse e = .ok extended ∧ extended ≠ []) := by
  unfold extract at h
  cases hc : extendsOf config with
  | none =>
    rw [hc] at h
    cases h
    exact ⟨[], by simp, .inl ⟨rfl, rfl⟩⟩
  | some e =>
    rw [hc] at h
    obtain ⟨extended, hrec, h⟩ := Outcome.bind_eq_ok.1 h
    split at h
    · cases h
    · next hne =>
      cases h
      exact ⟨extended, rfl, .inr ⟨e, rfl, hrec, fun h ↦ hne (by simp [h])⟩⟩

theorem extract_approx {recurse recurse' : String → Outcome UnknownExtendsSource (List (C × Bool))}
    (hrec : ∀ e, Outcome.Approx (recurse e) (recurse' e)) (taskId : String)
    (stack : List (C × Bool)) (config : C) (inherited : Bool) :
    Outcome.Approx (extract extendsOf recurse taskId stack config inherited)
      (extract extendsOf recurse' taskId stack config inherited) := by
  unfold extract
  cases extendsOf config with
  | none => exact .refl _
  | some e => exact (hrec _).bind fun _ ↦ .refl _

theorem extract_ne_panic {recurse : String → Outcome UnknownExtendsSource (List (C × Bool))}
    {config : C} (hrec : ∀ e, extendsOf config = some e → recurse e ≠ .panic) (taskId : String)
    (stack : List (C × Bool)) (inherited : Bool) :
    extract extendsOf recurse taskId stack config inherited ≠ .panic := by
  unfold extract
  cases hc : extendsOf config with
  | none => exact fun h ↦ by cases h
  | some e =>
    refine Outcome.bind_ne_panic (hrec e hc) fun extended _ ↦ ?_
    split <;> exact fun h ↦ by cases h

/-- A link whose configuration extends a task whose chain panics panics. -/
theorem extract_eq_panic {recurse : String → Outcome UnknownExtendsSource (List (C × Bool))}
    {config : C} {e : String} (hsome : extendsOf config = some e) (hrec : recurse e = .panic)
    (taskId : String) (stack : List (C × Bool)) (inherited : Bool) :
    extract extendsOf recurse taskId stack config inherited = .panic := by
  unfold extract
  rw [hsome]
  dsimp only
  rw [hrec, Outcome.panic_bind]

theorem extract_of_none {recurse : String → Outcome UnknownExtendsSource (List (C × Bool))}
    {config : C} (hnone : extendsOf config = none) (taskId : String) (stack : List (C × Bool))
    (inherited : Bool) :
    extract extendsOf recurse taskId stack config inherited = .ok (stack ++ [(config, inherited)]) := by
  unfold extract
  rw [hnone]
  rfl

end Extract

/-! ## Depth

The equation lemma of one level, and that more depth only turns a panic into a result. -/

theorem extractConfig_succ (depth : ℕ) (taskId : String) :
    extractConfig extendsOf localTasks globalTasks (depth + 1) taskId =
      (globalTasks taskId).foldlM (fun stack config ↦
          extract extendsOf (extractConfig extendsOf localTasks globalTasks depth) taskId stack
            config true) [] >>= fun stack ↦
        match localTasks taskId with
        | some config =>
          extract extendsOf (extractConfig extendsOf localTasks globalTasks depth) taskId stack
            config false
        | none => pure stack :=
  rfl

theorem extractConfig_approx :
    ∀ (depth : ℕ) (taskId : String),
      Outcome.Approx (extractConfig extendsOf localTasks globalTasks depth taskId)
        (extractConfig extendsOf localTasks globalTasks (depth + 1) taskId)
  | 0, _ => .panic_left _
  | depth + 1, taskId => by
    -- both levels run the same loop; only the recursive calls differ, one level apart
    have hrec := extractConfig_approx depth
    rw [extractConfig_succ, extractConfig_succ]
    refine (Outcome.Approx.foldlM (fun stack config ↦ extract_approx hrec taskId stack config true)
      _ _).bind fun stack ↦ ?_
    cases localTasks taskId with
    | some config => exact extract_approx hrec taskId stack config false
    | none => exact .refl _

/-- **More depth does not change a result**: the chain found at some depth, or the error, is what
every greater depth finds. -/
theorem extractConfig_mono {depth depth' : ℕ} (hle : depth ≤ depth') {taskId : String}
    (h : extractConfig extendsOf localTasks globalTasks depth taskId ≠ .panic) :
    extractConfig extendsOf localTasks globalTasks depth' taskId =
      extractConfig extendsOf localTasks globalTasks depth taskId := by
  induction hle with
  | refl => rfl
  | step _ ih =>
    rw [← ih]
    exact ((extractConfig_approx extendsOf localTasks globalTasks _ taskId).eq_of_ne_panic
      (ih ▸ h)).symm

/-! ## Termination without cycles -/

/-- **The recursion ends when `extends` has no cycle**: if every configuration of a task extends
a task of lower rank, a depth one above the rank is enough. -/
theorem extractConfig_ne_panic (rank : String → ℕ)
    (hrank : ∀ taskId, ∀ c ∈ configsOf localTasks globalTasks taskId, ∀ e,
      extendsOf c.1 = some e → rank e < rank taskId) :
    ∀ (depth : ℕ) (taskId : String), rank taskId < depth →
      extractConfig extendsOf localTasks globalTasks depth taskId ≠ .panic
  | 0, _, h => absurd h (Nat.not_lt_zero _)
  | depth + 1, taskId, h => by
    have hrec : ∀ c ∈ configsOf localTasks globalTasks taskId, ∀ e, extendsOf c.1 = some e →
        extractConfig extendsOf localTasks globalTasks depth e ≠ .panic := fun c hc e he ↦
      extractConfig_ne_panic rank hrank depth e (by have := hrank taskId c hc e he; omega)
    rw [extractConfig_succ]
    refine Outcome.bind_ne_panic (Outcome.foldlM_ne_panic (fun stack config hc ↦
      extract_ne_panic (fun e he ↦ hrec (config, true) ?_ e he) taskId stack true) _)
      fun stack _ ↦ ?_
    · exact List.mem_append_left _ (List.mem_map_of_mem hc)
    · cases hlocal : localTasks taskId with
      | some config =>
        refine extract_ne_panic (fun e he ↦ hrec (config, false) ?_ e he) taskId stack false
        exact List.mem_append_right _ (List.mem_map_of_mem (by simp [hlocal]))
      | none => exact fun h ↦ by cases h

/-! ## Order of a chain that was found -/

/-- Right before each configuration of `stack` that extends a task, `stack` has a non-empty chain
that `extract_config` finds for that task. -/
def ExtendsBefore (stack : List (C × Bool)) : Prop :=
  EachAfter (fun pre entry ↦ ∀ e, extendsOf entry.1 = some e →
    ∃ depth extended, extractConfig extendsOf localTasks globalTasks depth e = .ok extended ∧
      extended ≠ [] ∧ extended <:+ pre) stack

/-- One link keeps the order, when the chain it puts in has it. -/
theorem extendsBefore_extract {depth : ℕ}
    (hrec : ∀ e extended, extractConfig extendsOf localTasks globalTasks depth e = .ok extended →
      ExtendsBefore extendsOf localTasks globalTasks extended)
    {taskId : String} {stack stack' : List (C × Bool)} {config : C} {inherited : Bool}
    (hstack : ExtendsBefore extendsOf localTasks globalTasks stack)
    (h : extract extendsOf (extractConfig extendsOf localTasks globalTasks depth) taskId stack
      config inherited = .ok stack') :
    ExtendsBefore extendsOf localTasks globalTasks stack' := by
  have hmono : ∀ (q pre : List (C × Bool)) (entry : C × Bool), (∀ e, extendsOf entry.1 = some e →
      ∃ depth extended, extractConfig extendsOf localTasks globalTasks depth e = .ok extended ∧
        extended ≠ [] ∧ extended <:+ pre) → ∀ e, extendsOf entry.1 = some e →
      ∃ depth extended, extractConfig extendsOf localTasks globalTasks depth e = .ok extended ∧
        extended ≠ [] ∧ extended <:+ q ++ pre := by
    intro q pre entry hentry e he
    obtain ⟨d, extended, hok, hne, hsuffix⟩ := hentry e he
    exact ⟨d, extended, hok, hne, hsuffix.trans (List.suffix_append q pre)⟩
  obtain ⟨extended, rfl, hext⟩ := extract_eq_ok h
  rcases hext with ⟨hnone, rfl⟩ | ⟨e, hsome, hok, hne⟩
  · -- no `extends`: the configuration is pushed alone
    rw [List.append_nil]
    refine hstack.concat fun e he ↦ ?_
    rw [hnone] at he
    cases he
  · -- the extended chain keeps its own order, and ends right before the configuration
    refine (hstack.append (hrec e extended hok) hmono).concat fun e' he' ↦ ?_
    rw [hsome, Option.some.injEq] at he'
    subst he'
    exact ⟨depth, extended, hok, hne, List.suffix_append stack extended⟩

/-- **A chain lists what is extended before what extends it**: right before each configuration
with an `extends`, the chain of the task it extends. -/
theorem extractConfig_extendsBefore :
    ∀ (depth : ℕ) (taskId : String) (stack : List (C × Bool)),
      extractConfig extendsOf localTasks globalTasks depth taskId = .ok stack →
      ExtendsBefore extendsOf localTasks globalTasks stack
  | 0, _, _, h => by cases h
  | depth + 1, taskId, stack, h => by
    have hrec := extractConfig_extendsBefore depth
    rw [extractConfig_succ] at h
    obtain ⟨stack₁, hglobal, hlocal⟩ := Outcome.bind_eq_ok.1 h
    -- the loop over the global configurations keeps the order, from the empty stack
    have h₁ : ExtendsBefore extendsOf localTasks globalTasks stack₁ :=
      Outcome.foldlM_inv (ExtendsBefore extendsOf localTasks globalTasks)
        (fun s config s' hs hstep ↦ extendsBefore_extract extendsOf localTasks globalTasks
          (hrec · ·) hs hstep) _ (EachAfter.nil _) hglobal
    cases hl : localTasks taskId with
    | some config =>
      rw [hl] at hlocal
      exact extendsBefore_extract extendsOf localTasks globalTasks (hrec · ·) h₁ hlocal
    | none =>
      rw [hl] at hlocal
      cases hlocal
      exact h₁

/-! ## Cycles -/

section Cycle

variable {extendsOf localTasks globalTasks}

/-- A loop over configurations none of which extends anything pushes them all. -/
theorem foldlM_extract_of_none {recurse : String → Outcome UnknownExtendsSource (List (C × Bool))}
    {taskId : String} {inherited : Bool} :
    ∀ {configs : List C}, configs.findSome? extendsOf = none → ∀ stack,
      configs.foldlM (fun stack config ↦ extract extendsOf recurse taskId stack config inherited)
        stack = .ok (stack ++ configs.map (·, inherited))
  | [], _, stack => by simp
  | config :: configs, h, stack => by
    rw [List.findSome?_cons] at h
    split at h
    · cases h
    · next hnone =>
      rw [List.foldlM_cons, extract_of_none hnone, Outcome.ok_bind, foldlM_extract_of_none h]
      simp

/-- A loop reaching a configuration whose first `extends` panics panics. -/
theorem foldlM_extract_eq_panic {recurse : String → Outcome UnknownExtendsSource (List (C × Bool))}
    {taskId e : String} {inherited : Bool} (hrec : recurse e = .panic) :
    ∀ {configs : List C}, configs.findSome? extendsOf = some e → ∀ stack,
      configs.foldlM (fun stack config ↦ extract extendsOf recurse taskId stack config inherited)
        stack = .panic
  | [], h, _ => by cases h
  | config :: configs, h, stack => by
    rw [List.findSome?_cons] at h
    rw [List.foldlM_cons]
    split at h
    · next e' hsome =>
      cases h
      rw [extract_eq_panic hsome hrec]
      rfl
    · next hnone =>
      rw [extract_of_none hnone, Outcome.ok_bind]
      exact foldlM_extract_eq_panic hrec h _

/-- One level of `extract_config` panics when the first `extends` of the task leads into a
recursion that panics. -/
theorem extractConfig_succ_eq_panic {depth : ℕ} {taskId e : String}
    (hfirst : firstExtends extendsOf localTasks globalTasks taskId = some e)
    (hrec : extractConfig extendsOf localTasks globalTasks depth e = .panic) :
    extractConfig extendsOf localTasks globalTasks (depth + 1) taskId = .panic := by
  simp only [firstExtends, configsOf, List.findSome?_append, List.findSome?_map,
    Function.comp_def] at hfirst
  rw [extractConfig_succ]
  cases hglobal : (globalTasks taskId).findSome? extendsOf with
  | some e' =>
    -- the first `extends` is a global configuration's: the loop panics there
    rw [hglobal, Option.some_or, Option.some.injEq] at hfirst
    subst hfirst
    rw [foldlM_extract_eq_panic hrec hglobal]
    rfl
  | none =>
    -- the global configurations are all pushed, and the local one extends `e`
    rw [hglobal, Option.none_or] at hfirst
    rw [foldlM_extract_of_none hglobal, Outcome.ok_bind]
    cases hlocal : localTasks taskId with
    | none => rw [hlocal] at hfirst; cases hfirst
    | some config =>
      rw [hlocal] at hfirst
      have hsome : extendsOf config = some e := by simpa using hfirst
      exact extract_eq_panic hsome hrec taskId _ false

/-- **A cycle of `extends` overflows the stack**: if the first `extends` of each task of a set leads
back into the set, `extract_config` of any of them panics at every depth. -/
theorem extractConfig_cycle (S : String → Prop)
    (hS : ∀ taskId, S taskId →
      ∃ e, firstExtends extendsOf localTasks globalTasks taskId = some e ∧ S e) :
    ∀ (depth : ℕ) (taskId : String), S taskId →
      extractConfig extendsOf localTasks globalTasks depth taskId = .panic
  | 0, _, _ => rfl
  | depth + 1, taskId, hmem => by
    obtain ⟨e, hfirst, he⟩ := hS taskId hmem
    exact extractConfig_succ_eq_panic hfirst (extractConfig_cycle S hS depth e he)

end Cycle

end ExtractConfig

end Moon
