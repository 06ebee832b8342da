import Mathlib.Data.List.Sort
import Mathlib.Data.String.Basic
import Moon.Action.ActionNode
import Moon.Task.Task
import Moon.Lib.SortedMap

/-!
# The arguments of a task run, in its hash and in its command

A task run is cached under the hash of a `TaskFingerprint`, and run as a command.  The arguments
reach both from three sources, collected twice:

* `hash_common_task_contents` (`crates/task-hasher/src/task_hashing.rs`) starts the fingerprint
  with the task's arguments (`TaskFingerprint::new`), adds the passthrough arguments of the
  command line when the task has no script and inherits them, then the arguments of the node;
  `TaskHasher::hash` then sorts them, "to ensure hashing is deterministic";
* `CommandBuilder::inject_args` (`crates/task-runner/src/command_builder.rs`) appends to the
  command, after the task's own arguments, the node's and then the passthrough ones, under the
  same condition.

So the fingerprint records the *multiset* of the arguments: two runs share it exactly when their
argument vectors are permutations of each other (`fingerprint_args_eq_iff_perm`), and a run of
`cp a b` shares its cache entry with a run of `cp b a` (`swapped_node_args_share_fingerprint`).

Both conditions go through `ActionContext::should_inherit_args`
(`crates/action-context/src/action_context.rs`), which may panic where reading a target's task id
does.  The fields of the fingerprint that the arguments and variables do not reach (dependency and
input hashes, outputs, the project's dependencies) are left out.  String order is the order of
`str`: Rust compares the UTF-8 bytes and Lean the characters, which sort alike.
-/

set_option autoImplicit false

namespace Moon

/-- `ActionContext`, with the fields `should_inherit_args` reads. -/
structure ActionContext where
  initialTargets : List TargetLocator := []
  passthroughArgs : List String := []
  primaryTargets : List Target := []

namespace ActionContext

/-- The loop of `should_inherit_args` over the initial targets: an `All` target of the same task
passes the arguments on. -/
def inheritsFromInitial (target : Target) : List TargetLocator → Outcome TargetError Bool
  | [] => .ok false
  | other :: rest =>
    match target.getTaskId with
    | .ok taskId =>
      match other with
      | .qualified otherTarget =>
        match otherTarget.isAllTask taskId with
        | .ok true => .ok true
        | .panic => .panic
        | _ => inheritsFromInitial target rest
      | _ => inheritsFromInitial target rest
    | .err _ => inheritsFromInitial target rest
    | .panic => .panic

/-- `ActionContext::should_inherit_args`: there are passthrough arguments, and the target was
asked for itself or as `:task`. -/
def shouldInheritArgs (ctx : ActionContext) (target : Target) : Outcome TargetError Bool :=
  if ctx.passthroughArgs.isEmpty then .ok false
  else if target ∈ ctx.primaryTargets then .ok true
  else inheritsFromInitial target ctx.initialTargets

/-- The condition both `hash_common_task_contents` and `inject_args` test before the passthrough
arguments: no script, then `should_inherit_args`, which is not reached for a script. -/
def inheritsArgs (ctx : ActionContext) (task : Task) : Outcome TargetError Bool :=
  if task.script.isNone then ctx.shouldInheritArgs task.target else pure false

end ActionContext

/-! ## The fingerprint -/

/-- A `BTreeMap` of variables, filled by inserting entries in order. -/
def insertEnv (env : SortedMap String (Option String)) (entries : List (String × Option String)) :
    SortedMap String (Option String) :=
  entries.foldl (fun env entry ↦ env.upsert entry.1 fun _ ↦ entry.2) env

/-- The fields of `TaskFingerprint` the arguments and the variables go into. -/
structure TaskFingerprint where
  args : List String
  env : SortedMap String (Option String)

/-- `TaskFingerprint::new`: the task's arguments, and its variables. -/
def TaskFingerprint.new (task : Task) : TaskFingerprint where
  args := task.args
  env := insertEnv .empty task.env

/-- `TaskHasher`, with the fingerprint it fills. -/
structure TaskHasher where
  fingerprint : TaskFingerprint

namespace TaskHasher

/-- `TaskHasher::new`. -/
def new (task : Task) : TaskHasher := ⟨TaskFingerprint.new task⟩

/-- `TaskHasher::hash_args`: push the arguments. -/
def hashArgs (hasher : TaskHasher) (args : List String) : TaskHasher :=
  ⟨{ hasher.fingerprint with args := hasher.fingerprint.args ++ args }⟩

/-- `TaskHasher::hash_env`: insert the variables. -/
def hashEnv (hasher : TaskHasher) (env : List (String × Option String)) : TaskHasher :=
  ⟨{ hasher.fingerprint with env := insertEnv hasher.fingerprint.env env }⟩

/-- `TaskHasher::hash`: the fingerprint, with its arguments sorted. -/
def hash (hasher : TaskHasher) : TaskFingerprint :=
  { hasher.fingerprint with args := hasher.fingerprint.args.mergeSort (· ≤ ·) }

end TaskHasher

/-- `hash_common_task_contents`, up to the fingerprint it hashes.  `hash_deps` and `hash_inputs`
fill fields the model leaves out. -/
def hashCommonTaskContents (ctx : ActionContext) (task : Task) (node : ActionNode) :
    Outcome TargetError TaskFingerprint := do
  let hasher := TaskHasher.new task
  let inherit ← ctx.inheritsArgs task
  let hasher := if inherit then hasher.hashArgs ctx.passthroughArgs else hasher
  let hasher :=
    match node with
    | .runTask inner => (hasher.hashArgs inner.args).hashEnv inner.env
    | _ => hasher
  pure hasher.hash

/-! ## The command -/

/-- `CommandBuilder::inject_args`: the node's arguments (must be first), then the passthrough
ones. -/
def injectArgs (ctx : ActionContext) (task : Task) (node : ActionNode) :
    Outcome TargetError (List String) := do
  let nodeArgs :=
    match node with
    | .runTask inner => if inner.args.isEmpty then [] else inner.args
    | _ => []
  let inherit ← ctx.inheritsArgs task
  pure (nodeArgs ++ if inherit && !ctx.passthroughArgs.isEmpty then ctx.passthroughArgs else [])

/-- The arguments of the task's process before any affected files: the task's own, which
`AugmentedCommand::from_task` starts the command with, then those `inject_args` appends. -/
def commandArgs (ctx : ActionContext) (task : Task) (node : ActionNode) :
    Outcome TargetError (List String) := do
  let injected ← injectArgs ctx task node
  pure (task.args ++ injected)

/-! ## Where the arguments come from -/

/-- The arguments a node carries: a `RunTask` node's own, none for the other actions. -/
def nodeArgs : ActionNode → List String
  | .runTask inner => inner.args
  | _ => []

/-- Sorting a list forgets exactly its order. -/
theorem mergeSort_eq_iff_perm {α : Type} [LinearOrder α] (l₁ l₂ : List α) :
    l₁.mergeSort (· ≤ ·) = l₂.mergeSort (· ≤ ·) ↔ l₁.Perm l₂ := by
  constructor
  · intro h
    have hp₁ := List.mergeSort_perm l₁ (· ≤ ·)
    rw [h] at hp₁
    exact hp₁.symm.trans (List.mergeSort_perm l₂ _)
  · intro h
    refine List.Perm.eq_of_sortedLE List.sortedLE_mergeSort List.sortedLE_mergeSort ?_
    exact (List.mergeSort_perm l₁ _).trans (h.trans (List.mergeSort_perm l₂ _).symm)

variable {ctx : ActionContext} {task : Task} {node : ActionNode}

/-- With nothing on the command line there is nothing to inherit. -/
theorem ActionContext.inheritsArgs_of_passthroughArgs_nil (h : ctx.passthroughArgs = []) :
    ctx.inheritsArgs task = .ok false := by
  unfold ActionContext.inheritsArgs ActionContext.shouldInheritArgs
  split <;> simp [h]

/-- The fingerprint holds, sorted, the task's arguments, the inherited ones and the node's. -/
theorem args_of_hashCommonTaskContents {fp : TaskFingerprint}
    (h : hashCommonTaskContents ctx task node = .ok fp) :
    ∃ inherit, ctx.inheritsArgs task = .ok inherit ∧
      fp.args = (task.args ++ (if inherit then ctx.passthroughArgs else []) ++ nodeArgs node).mergeSort
        (· ≤ ·) := by
  unfold hashCommonTaskContents at h
  obtain ⟨inherit, hi, h⟩ := Outcome.bind_eq_ok.1 h
  refine ⟨inherit, hi, ?_⟩
  cases h
  cases node <;> cases inherit <;>
    simp [TaskHasher.hash, TaskHasher.hashArgs, TaskHasher.hashEnv, TaskHasher.new,
      TaskFingerprint.new, nodeArgs]

/-- `inject_args` tests for passthrough arguments twice; the second test changes nothing. -/
theorem passthrough_if_nonempty (ctx : ActionContext) (inherit : Bool) :
    (if (inherit && !ctx.passthroughArgs.isEmpty) = true then ctx.passthroughArgs else []) =
      if inherit then ctx.passthroughArgs else [] := by
  cases inherit <;> cases ctx.passthroughArgs <;> simp

/-- The command runs the task's arguments, the node's, then the inherited ones. -/
theorem args_of_commandArgs {argv : List String} (h : commandArgs ctx task node = .ok argv) :
    ∃ inherit, ctx.inheritsArgs task = .ok inherit ∧
      argv = task.args ++ nodeArgs node ++ if inherit then ctx.passthroughArgs else [] := by
  unfold commandArgs injectArgs at h
  obtain ⟨injected, hinj, h⟩ := Outcome.bind_eq_ok.1 h
  obtain ⟨inherit, hi, hinj⟩ := Outcome.bind_eq_ok.1 hinj
  refine ⟨inherit, hi, ?_⟩
  cases h
  cases hinj
  rw [passthrough_if_nonempty, List.append_assoc]
  cases node <;> simp [nodeArgs]

/-! ## What the fingerprint records of the command -/

/-- A run that is both hashed and built hashes its command's arguments, sorted. -/
theorem args_eq_mergeSort_commandArgs {fp : TaskFingerprint} {argv : List String}
    (h : hashCommonTaskContents ctx task node = .ok fp) (a : commandArgs ctx task node = .ok argv) :
    fp.args = argv.mergeSort (· ≤ ·) := by
  obtain ⟨inherit, hi, hfp⟩ := args_of_hashCommonTaskContents h
  obtain ⟨inherit', hi', hargv⟩ := args_of_commandArgs a
  -- both read the same `should_inherit_args`
  obtain rfl : inherit = inherit' := by
    rw [hi] at hi'
    cases hi'
    rfl
  rw [hfp, hargv, mergeSort_eq_iff_perm, List.append_assoc, List.append_assoc]
  exact List.perm_append_comm.append_left _

theorem fingerprint_args_eq_iff_perm {ctx₁ ctx₂ : ActionContext} {task₁ task₂ : Task}
    {node₁ node₂ : ActionNode} {fp₁ fp₂ : TaskFingerprint} {argv₁ argv₂ : List String}
    (h₁ : hashCommonTaskContents ctx₁ task₁ node₁ = .ok fp₁)
    (h₂ : hashCommonTaskContents ctx₂ task₂ node₂ = .ok fp₂)
    (a₁ : commandArgs ctx₁ task₁ node₁ = .ok argv₁) (a₂ : commandArgs ctx₂ task₂ node₂ = .ok argv₂) :
    fp₁.args = fp₂.args ↔ argv₁.Perm argv₂ := by
  rw [args_eq_mergeSort_commandArgs h₁ a₁, args_eq_mergeSort_commandArgs h₂ a₂,
    mergeSort_eq_iff_perm]

theorem fingerprint_args_eq_iff_perm_swapped :
    ∃ fp₁ fp₂ argv₁ argv₂,
      hashCommonTaskContents {} { id := "cp", target := ⟨"p:cp", .id, .id, 1⟩ }
          (.runTask { RunTaskNode.new ⟨"p:cp", .id, .id, 1⟩ with args := ["a", "b"] }) = .ok fp₁ ∧
      hashCommonTaskContents {} { id := "cp", target := ⟨"p:cp", .id, .id, 1⟩ }
          (.runTask { RunTaskNode.new ⟨"p:cp", .id, .id, 1⟩ with args := ["b", "a"] }) = .ok fp₂ ∧
      commandArgs {} { id := "cp", target := ⟨"p:cp", .id, .id, 1⟩ }
          (.runTask { RunTaskNode.new ⟨"p:cp", .id, .id, 1⟩ with args := ["a", "b"] }) = .ok argv₁ ∧
      commandArgs {} { id := "cp", target := ⟨"p:cp", .id, .id, 1⟩ }
          (.runTask { RunTaskNode.new ⟨"p:cp", .id, .id, 1⟩ with args := ["b", "a"] }) = .ok argv₂ ∧
      (fp₁.args = fp₂.args ↔ argv₁.Perm argv₂) := by
  refine ⟨?fp₁, ?fp₂, ?argv₁, ?argv₂, ?h₁, ?h₂, ?a₁, ?a₂, ?iff⟩
  case iff => exact fingerprint_args_eq_iff_perm ?h₁ ?h₂ ?a₁ ?a₂
  case h₁ => exact rfl
  case h₂ => exact rfl
  case a₁ => exact rfl
  case a₂ => exact rfl

/-- Reordering a node's arguments leaves its fingerprint as it is. -/
theorem hashCommonTaskContents_runTask_perm {inner : RunTaskNode} {args : List String}
    (h : inner.args.Perm args) :
    hashCommonTaskContents ctx task (.runTask inner) =
      hashCommonTaskContents ctx task (.runTask { inner with args }) := by
  unfold hashCommonTaskContents
  cases ctx.inheritsArgs task with
  | ok inherit =>
    simp only [Outcome.ok_bind, TaskHasher.hash, TaskHasher.hashArgs, TaskHasher.hashEnv]
    rw [(mergeSort_eq_iff_perm _ _).2 (h.append_left _)]
  | err e => rfl
  | panic => rfl

/-- Two runs of `cp` whose node arguments are swapped share their fingerprint and run different
commands. -/
theorem swapped_node_args_share_fingerprint :
    hashCommonTaskContents {} { id := "cp", target := ⟨"p:cp", .id, .id, 1⟩ }
        (.runTask { RunTaskNode.new ⟨"p:cp", .id, .id, 1⟩ with args := ["a", "b"] }) =
      hashCommonTaskContents {} { id := "cp", target := ⟨"p:cp", .id, .id, 1⟩ }
        (.runTask { RunTaskNode.new ⟨"p:cp", .id, .id, 1⟩ with args := ["b", "a"] }) ∧
    commandArgs {} { id := "cp", target := ⟨"p:cp", .id, .id, 1⟩ }
        (.runTask { RunTaskNode.new ⟨"p:cp", .id, .id, 1⟩ with args := ["a", "b"] }) ≠
      commandArgs {} { id := "cp", target := ⟨"p:cp", .id, .id, 1⟩ }
        (.runTask { RunTaskNode.new ⟨"p:cp", .id, .id, 1⟩ with args := ["b", "a"] }) := by
  constructor
  · exact hashCommonTaskContents_runTask_perm (List.Perm.swap "b" "a" [])
  · simp [commandArgs, injectArgs, ActionContext.inheritsArgs_of_passthroughArgs_nil]

end Moon
