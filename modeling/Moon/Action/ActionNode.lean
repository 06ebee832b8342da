import Moon.Target.Target

/-!
# Action nodes

`ActionNode` (`crates/action/src/action_node.rs`) is one unit of work of the pipeline: install a
toolchain's dependencies, run a task, set up an environment, proto or a toolchain, sync a project
or the workspace.  The payload records keep the source's fields; the version specifications of
the `version_spec` crate appear by their display form, as strings.

A `RunTaskNode` carries its own id, a hash of its target and of two of its flags, which
`ActionNode::run_task` computes with `FxHasher` when the node is built.  The hasher is a
third-party function of the stream of writes made to it, so `RunTaskNode.calculateId` takes it as
a parameter; the dispatcher only ever reads the id the node was built with.

The id, the priority and whether a node is *standard* are what the dispatcher reads of a node:
every node is standard but an interactive or persistent task, and only tasks have an id and a
priority other than `0`.
-/

set_option autoImplicit false

namespace Moon

/-- `ToolchainSpec`: a toolchain id and, unless it is global, a version requirement. -/
structure ToolchainSpec where
  id : String
  req : Option String
  deriving DecidableEq, Repr

namespace ToolchainSpec

/-- `ToolchainSpec::is_system`: the `system` toolchain, which is never set up. -/
def isSystem (spec : ToolchainSpec) : Bool := spec.id == "system"

/-- `ToolchainSpec::target`: the id, and after a `:` the version requirement without its
spaces. -/
def target (spec : ToolchainSpec) : String :=
  match spec.req with
  | some version => spec.id ++ ":" ++ String.ofList (version.toList.filter (· ≠ ' '))
  | none => spec.id

end ToolchainSpec

/-- `InstallDependenciesNode`. -/
structure InstallDependenciesNode where
  members : Option (List String)
  projectId : Option String
  root : String
  toolchainId : String
  deriving DecidableEq, Repr

/-- `SetupEnvironmentNode`. -/
structure SetupEnvironmentNode where
  projectId : Option String
  root : String
  toolchainId : String
  deriving DecidableEq, Repr

/-- `SyncProjectNode`. -/
structure SyncProjectNode where
  projectId : String
  deriving DecidableEq, Repr

/-- `RunTaskNode`.  `env` is an `IndexMap`: its entries in insertion order, each key once. -/
structure RunTaskNode where
  args : List String
  env : List (String × Option String)
  interactive : Bool
  persistent : Bool
  priority : UInt8
  target : Target
  id : Option UInt64
  deriving DecidableEq, Repr

/-- One write into a `std::hash::Hasher`: a byte slice, or a single `u8`. -/
inductive HashWrite where
  | bytes (bs : List UInt8)
  | u8 (b : UInt8)
  deriving DecidableEq, Repr

namespace RunTaskNode

/-- `RunTaskNode::new`: no arguments or variables, neither flag, the normal priority `2`, no id. -/
def new (target : Target) : RunTaskNode where
  args := []
  env := []
  interactive := false
  persistent := false
  priority := 2
  target := target
  id := none

/-- The writes `RunTaskNode::calculate_id` makes: the target's bytes, then `100` for a persistent
task and `50` for an interactive one. -/
def idWrites (node : RunTaskNode) : List HashWrite :=
  [.bytes node.target.id.toUTF8.toList] ++
    (if node.persistent then [.u8 100] else []) ++
    (if node.interactive then [.u8 50] else [])

/-- `RunTaskNode::calculate_id`, for a hasher given by what it finishes with after a stream of
writes. -/
def calculateId (finish : List HashWrite → UInt64) (node : RunTaskNode) : RunTaskNode :=
  { node with id := some (finish node.idWrites) }

end RunTaskNode

/-- `ActionNode`. -/
inductive ActionNode where
  | none
  | installDependencies (node : InstallDependenciesNode)
  | runTask (node : RunTaskNode)
  | setupEnvironment (node : SetupEnvironmentNode)
  | setupProto (version : String)
  | setupToolchain (toolchain : ToolchainSpec)
  | syncProject (node : SyncProjectNode)
  | syncWorkspace
  deriving DecidableEq, Repr

instance : Inhabited ActionNode := ⟨.none⟩

namespace ActionNode

/-- `ActionNode::run_task`: the node, with its id calculated. -/
def runTaskOf (finish : List HashWrite → UInt64) (node : RunTaskNode) : ActionNode :=
  .runTask (node.calculateId finish)

/-- `ActionNode::get_id`: the id of a task, `0` for a task without one and for every other node. -/
def getId : ActionNode → UInt64
  | .runTask inner => inner.id.getD 0
  | _ => 0

/-- `ActionNode::get_priority`: the priority of a task; every other node is critical, `0`. -/
def getPriority : ActionNode → UInt8
  | .runTask inner => inner.priority
  | _ => 0

/-- `ActionNode::is_interactive`. -/
def isInteractive : ActionNode → Bool
  | .runTask inner => inner.interactive
  | _ => false

/-- `ActionNode::is_persistent`. -/
def isPersistent : ActionNode → Bool
  | .runTask inner => inner.persistent
  | _ => false

/-- `ActionNode::is_standard`: neither interactive nor persistent. -/
def isStandard : ActionNode → Bool
  | .runTask inner => !inner.interactive && !inner.persistent
  | _ => true

/-- `ActionNode::label`, the name an action is shown and reported by.  `testEnv` is
`is_test_env()`, under which proto's version shows as `1.2.3`. -/
def label (testEnv : Bool) : ActionNode → String
  | .installDependencies inner =>
    if inner.root.isEmpty then "InstallDependencies(" ++ inner.toolchainId ++ ")"
    else "InstallDependencies(" ++ inner.toolchainId ++ ", " ++ inner.root ++ ")"
  | .runTask inner =>
    "Run" ++ (if inner.persistent then "Persistent" else if inner.interactive then "Interactive"
      else "") ++ "Task(" ++ inner.target.id ++ ")"
  | .setupEnvironment inner =>
    if inner.root.isEmpty then "SetupEnvironment(" ++ inner.toolchainId ++ ")"
    else "SetupEnvironment(" ++ inner.toolchainId ++ ", " ++ inner.root ++ ")"
  | .setupProto version => "SetupProto(" ++ (if testEnv then "1.2.3" else version) ++ ")"
  | .setupToolchain toolchain => "SetupToolchain(" ++ toolchain.target ++ ")"
  | .syncProject inner => "SyncProject(" ++ inner.projectId ++ ")"
  | .syncWorkspace => "SyncWorkspace"
  | .none => "None"

end ActionNode

end Moon
