import Moon.Target.Target

/-!
# Tasks

The `Task` record of `crates/task/src/task.rs`, with the fields that the modelled parts of the
workspace graph read, and `TaskType` from `crates/config/src/task_config.rs`.
-/

set_option autoImplicit false

namespace Moon

/-- `TaskType`: what kind of work a task does. -/
inductive TaskType where
  | build | run | test
  deriving DecidableEq, Repr, Inhabited

/-- `TaskOptionRunInCI`: whether a task runs in CI. -/
inductive TaskOptionRunInCI where
  | always
  | affected
  | only
  | skip
  | enabled (on : Bool)
  deriving DecidableEq, Repr

/-- `TaskOptionRunInCI::is_enabled`: every setting but `Enabled(false)`. -/
def TaskOptionRunInCI.isEnabled : TaskOptionRunInCI → Bool
  | .enabled false => false
  | _ => true

/-- `TaskDependencyCacheStrategy`: how a dependency invalidates the cache of the task that
depends on it. -/
inductive TaskDependencyCacheStrategy where
  | hash | ignored
  deriving DecidableEq, Repr

/-- `TaskDependencyType`: the type of an edge of the task graph. -/
inductive TaskDependencyType where
  | cleanup | required | optional
  deriving DecidableEq, Repr

/-- The derived `Default`: `Required`. -/
instance : Inhabited TaskDependencyType := ⟨.required⟩

/-- `TaskDependencyConfig`: a dependency of a task, with the arguments and variables it is run
with.  `env` is an `EnvMap`, an `IndexMap` of optional values: its entries in insertion order. -/
structure TaskDependencyConfig where
  args : List String := []
  env : List (String × Option String) := []
  target : Target
  optional : Option Bool := none
  cacheStrategy : Option TaskDependencyCacheStrategy := none
  deriving DecidableEq, Repr

/-- `TaskFileInput`: a file input, optionally matched on its content by a regular expression. -/
structure TaskFileInput where
  content : Option String := none
  deriving DecidableEq, Repr

/-- `TaskPriority`: the bucket a task runs in, most critical first. -/
inductive TaskPriority where
  | critical | high | normal | low
  deriving DecidableEq, Repr

/-- `TaskPriority::get_level`: the discriminant, `0` to `3`. -/
def TaskPriority.getLevel : TaskPriority → UInt8
  | .critical => 0
  | .high => 1
  | .normal => 2
  | .low => 3

/-- The part of `TaskOptions` the modelled functions read, with the defaults of its `Default`. -/
structure TaskOptions where
  allowFailure : Bool := false
  interactive : Bool := false
  persistent : Bool := false
  priority : TaskPriority := .normal
  runDepsInParallel : Bool := true
  runInCI : TaskOptionRunInCI := .enabled true
  deriving DecidableEq, Repr

/-- The part of `TaskState` the modelled functions read. -/
structure TaskState where
  emptyInputs : Bool := false
  deriving DecidableEq, Repr

/-- `Task`, with the fields the modelled functions read.  The hash sets and maps of the source
(`input_env`, `input_files`, the keys of `input_globs` and `output_globs`) are lists in their
iteration order, since the code reports the first entry that matches. -/
structure Task where
  /-- The values of the task's `TaskArg`s. -/
  args : List String := []
  deps : List TaskDependencyConfig := []
  env : List (String × Option String) := []
  id : String
  inputEnv : List String := []
  inputFiles : List (String × TaskFileInput) := []
  inputGlobs : List String := []
  options : TaskOptions := {}
  outputGlobs : List String := []
  script : Option String := none
  state : TaskState := {}
  tags : List String := []
  target : Target
  toolchains : List String := []
  typeOf : TaskType := .test
  deriving DecidableEq, Repr

namespace Task

/-- `Task::is_interactive`. -/
def isInteractive (task : Task) : Bool := task.options.interactive

/-- `Task::is_persistent`. -/
def isPersistent (task : Task) : Bool := task.options.persistent

/-- `Task::should_run`: in CI by `runInCI`, where only `Skip` and `Enabled(false)` stop it;
outside CI everything but `Only`. -/
def shouldRun (task : Task) (inCi : Bool) : Bool :=
  if inCi then
    match task.options.runInCI with
    | .skip => false
    | .enabled state => state
    | _ => true
  else
    !(task.options.runInCI == .only)

end Task

end Moon
