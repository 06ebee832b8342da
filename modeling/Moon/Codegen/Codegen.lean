import Moon.Lib.Outcome
import Moon.Lib.SortedMap
import Moon.TaskBuilder.ExtractConfig
import Mathlib.Data.String.Basic

/-!
# Templates that extend templates: `CodeGenerator::get_template`

`crates/codegen/src/codegen.rs`.  `get_template(id)` cleans the id, looks the template up among the
loaded ones, and, when its configuration `extends` other templates, gets each of them by the same
function, in order, and extends the template with them (`Template::extend_template`): the
variables the template does not define are taken from the extended one, and the extended one is
kept among its `templates`.

As for a task's `extends` (`Moon.ExtractConfig`), nothing but the data bounds the recursion, so
the model carries the depth of the call stack and a panic is the stack overflow.

* `getTemplate_mono`: more depth does not change a result.
* `getTemplate_ne_panic`: when every `extends` leads to a template of lower rank, the recursion
  ends.
* `getTemplate_cycle`: when the first template each template of a set extends is in the set — a
  template extending itself, or two extending each other — no depth is enough.

`Id::clean` belongs to another crate and is a parameter, `idClean`; an id it refuses is an error.
-/

set_option autoImplicit false

namespace Moon

/-- The parts of a `Template` that `get_template` reads and changes: its id, the templates its
configuration `extends`, the variables of its configuration, and the templates it was extended
with. -/
structure Template (V : Type) where
  id : String
  «extends» : List String
  «variables» : SortedMap String V
  templates : List (Template V)

/-- The errors of `get_template`: `CodegenError::MissingTemplate`, and the `IdError` of
`Id::clean`. -/
inductive CodegenError where
  | missingTemplate (id : String)
  | invalidId (id : String)
  deriving DecidableEq, Repr

/-- `CodeGenerator`, with the templates it loaded, by id. -/
structure CodeGenerator (V : Type) where
  templates : String → Option (Template V)

namespace Template

variable {V : Type}

/-- `Template::extend_template`: every variable of `template` that `self` lacks is inserted
(`entry(key).or_insert(config)`), and `template`, its variables taken, is kept in
`self.templates`. -/
def extendTemplate (self template : Template V) : Template V :=
  { self with
    «variables» := template.«variables».entries.foldl
      (fun vars kv ↦ vars.upsert kv.1 fun old ↦ old.getD kv.2) self.«variables»
    templates := self.templates ++ [{ template with «variables» := SortedMap.empty }] }

end Template

namespace CodeGenerator

variable {V : Type} (idClean : String → Option String) (g : CodeGenerator V)

/-- `CodeGenerator::get_template`, with `depth` the room left on the call stack. -/
def getTemplate : ℕ → String → Outcome CodegenError (Template V)
  | 0, _ => .panic
  | depth + 1, id => do
    let some id := idClean id | .err (.invalidId id)
    let some template := g.templates id | .err (.missingTemplate id)
    if template.«extends».isEmpty then pure template
    else do
      let extended ← template.«extends».mapM (getTemplate depth)
      pure (extended.foldl Template.extendTemplate template)

/-- The templates that the template `id` names extends, once `id` is cleaned. -/
def extendsOf (id : String) : List String :=
  match idClean id with
  | some id => ((g.templates id).map Template.«extends»).getD []
  | none => []

/-- What `get_template` makes of the templates the template `id` names extends, once it has them:
the template extended with each in turn, or the error of the id. -/
def extendWith (id : String) (extended : List (Template V)) : Outcome CodegenError (Template V) :=
  match idClean id with
  | some id =>
    match g.templates id with
    | some template => pure (extended.foldl Template.extendTemplate template)
    | none => .err (.missingTemplate id)
  | none => .err (.invalidId id)

/-- One level of `get_template`: get every template `extendsOf` lists, then extend.  (An id that
is refused or missing extends nothing, and its error comes after the empty loop.) -/
theorem getTemplate_succ (depth : ℕ) (id : String) :
    getTemplate idClean g (depth + 1) id =
      (g.extendsOf idClean id).mapM (getTemplate idClean g depth) >>= g.extendWith idClean id := by
  unfold getTemplate extendsOf extendWith
  cases idClean id with
  | none => rfl
  | some cid =>
    dsimp only
    cases g.templates cid with
    | none => rfl
    | some template =>
      dsimp only [Option.map_some, Option.getD_some]
      split
      · -- with no `extends` the loop is over the empty list and the template is returned as it is
        next hempty =>
        rw [List.isEmpty_iff.1 hempty]
        rfl
      · rfl

theorem extendWith_ne_panic (id : String) (extended : List (Template V)) :
    g.extendWith idClean id extended ≠ .panic := by
  unfold extendWith
  split
  · split <;> exact fun h ↦ by cases h
  · exact fun h ↦ by cases h

theorem getTemplate_approx :
    ∀ (depth : ℕ) (id : String),
      Outcome.Approx (getTemplate idClean g depth id) (getTemplate idClean g (depth + 1) id)
  | 0, _ => .panic_left _
  | depth + 1, id => by
    rw [getTemplate_succ, getTemplate_succ]
    exact (Outcome.Approx.mapM fun e _ ↦ getTemplate_approx depth e).bind fun _ ↦ .refl _

/-- **More depth does not change a result.** -/
theorem getTemplate_mono {depth depth' : ℕ} (hle : depth ≤ depth') {id : String}
    (h : getTemplate idClean g depth id ≠ .panic) :
    getTemplate idClean g depth' id = getTemplate idClean g depth id := by
  induction hle with
  | refl => rfl
  | step _ ih =>
    rw [← ih]
    exact ((getTemplate_approx idClean g _ id).eq_of_ne_panic (ih ▸ h)).symm

/-- **The recursion ends when `extends` has no cycle**: if every template extends templates of
lower rank, a depth one above the rank is enough. -/
theorem getTemplate_ne_panic (rank : String → ℕ)
    (hrank : ∀ id, ∀ e ∈ g.extendsOf idClean id, rank e < rank id) :
    ∀ (depth : ℕ) (id : String), rank id < depth → getTemplate idClean g depth id ≠ .panic
  | 0, _, h => absurd h (Nat.not_lt_zero _)
  | depth + 1, id, h => by
    rw [getTemplate_succ]
    refine Outcome.bind_ne_panic (Outcome.mapM_ne_panic fun e he ↦ ?_)
      fun extended _ ↦ extendWith_ne_panic idClean g id extended
    exact getTemplate_ne_panic rank hrank depth e (by have := hrank id e he; omega)

/-- **A cycle of `extends` overflows the stack**: if the first template each template of a set
extends is in the set, `get_template` of any of them panics at every depth. -/
theorem getTemplate_cycle (S : String → Prop)
    (hS : ∀ id, S id → ∃ e rest, g.extendsOf idClean id = e :: rest ∧ S e) :
    ∀ (depth : ℕ) (id : String), S id → getTemplate idClean g depth id = .panic
  | 0, _, _ => rfl
  | depth + 1, id, hmem => by
    obtain ⟨e, rest, hextends, he⟩ := hS id hmem
    rw [getTemplate_succ, hextends, List.mapM_cons, getTemplate_cycle S hS depth e he]
    rfl

end CodeGenerator

/-! ## Cycles that are accepted

A task configuration is taken here as its `extends`, all that `extract_config` reads of it: a task
`a` whose own configuration extends `a`; a task `a` inheriting a global configuration that extends
`b`, whose own configuration extends `a`; and a template `a` whose `extends` is `[a]`. -/

/-- The template `a`, extending itself. -/
def selfExtendingTemplate : Template Unit := ⟨"a", ["a"], SortedMap.empty, []⟩

open ExtractConfig CodeGenerator in
theorem extends_cycles_overflow_the_stack :
    (∀ depth, extractConfig id (fun t ↦ if t = "a" then some (some "a") else none) (fun _ ↦ [])
      depth "a" = .panic) ∧
    (∀ depth, extractConfig id (fun t ↦ if t = "b" then some (some "a") else none)
      (fun t ↦ if t = "a" then [some "b"] else []) depth "a" = .panic) ∧
    (∀ idClean : String → Option String, idClean "a" = some "a" → ∀ depth,
      getTemplate idClean ⟨fun t ↦ if t = "a" then some selfExtendingTemplate else none⟩ depth "a" =
        .panic) := by
  refine ⟨fun depth ↦ ?_, fun depth ↦ ?_, fun idClean hclean depth ↦ ?_⟩
  · exact extractConfig_cycle (· = "a") (fun t ht ↦ ⟨"a", by subst ht; rfl, rfl⟩) depth "a" rfl
  · -- `a` leads to `b` through its global configuration, `b` back to `a` through its own
    refine extractConfig_cycle (fun t ↦ t = "a" ∨ t = "b") (fun t ht ↦ ?_) depth "a" (.inl rfl)
    rcases ht with rfl | rfl
    · exact ⟨"b", rfl, .inr rfl⟩
    · exact ⟨"a", rfl, .inl rfl⟩
  · refine getTemplate_cycle idClean _ (· = "a") (fun t ht ↦ ⟨"a", [], ?_, rfl⟩) depth "a" rfl
    subst ht
    rw [extendsOf, hclean]
    rfl

end Moon
