import Moon.Lib.Fuel
import Moon.Lib.Scan
import Moon.Project.Project
import Moon.Task.Task

/-!
# Expanding tokens: `TokenExpander`

`crates/task-expander/src/token_expander.rs`, with the patterns of `crates/config/src/patterns.rs`.
A task's command, script, arguments, environment, inputs and outputs may hold *token variables*,
`$name` for one of thirty-one names (`TOKEN_VAR`), and *token functions*, `@name(arg)`
(`TOKEN_FUNC`).

* `replace_variables` repeats "splice the value of the leftmost variable in" while a variable is
  left.  Each round searches from the front of the text again, so it reads the values it
  inserted.
* `expand_script` repeats "replace every copy of the leftmost function by its result" while a
  function is left, with the same consequence.

Both are `while` loops, modelled by `Fuel.whileLoop`: `none` is a loop that has not stopped.

* `variableValue_isSome`: every name `TOKEN_VAR` can match has a value, so the arm of
  `replace_variable` that would leave the text as it is — and the loop spinning — is never
  taken.
* `replaceVariable_eq_ok`: what one round does: the leftmost `$name` replaced by its value.
* `replaceVariables_ne_none`: when no value holds a `$`, the loop stops within one round per `$`
  of the text, plus one; `replaceVariables_noMatch`: what it returns holds no variable.
* A text whose round gives it back unchanged makes either loop run forever
  (`Fuel.whileLoop_eq_none_of_fixed`).

The functions over files — `@root`, `@dirs`, `@files`, `@globs`, `@group`, `@in`, `@out`,
`@envs` — read file groups and a task's inputs and outputs, which are outside this model: they
are `FileTokens.files`, after the scope check each makes.  `@meta` is modelled.
-/

set_option autoImplicit false

namespace Moon

/-! ## The patterns -/

/-- The variables of `TOKEN_VAR`, in the order of its alternation.  At a `$` the first that
matches is taken, so `$osFamily` is `osFamily`, not `os`, and `$projectX` is `project`. -/
def tokenVarNames : List String :=
  ["arch", "language", "osFamily", "os", "projectAliases", "projectAlias", "projectChannel",
    "projectId", "projectLayer", "projectName", "projectTitle", "projectOwner", "projectRoot",
    "projectSource", "projectStack", "project", "target", "taskId", "taskToolchains",
    "taskToolchain", "taskType", "task", "timestamp", "datetime", "date", "time", "vcsBranch",
    "vcsRepository", "vcsRevision", "workingDir", "workspaceRoot"]

/-- `TOKEN_VAR` at the front of a text: a `$` and the first variable name after it. -/
def tokenVarRun : List Char → Option (String × ℕ)
  | [] => none
  | c :: rest =>
    if c ≠ '$' then none
    else (tokenVarNames.find? fun name ↦ name.toList.isPrefixOf rest).map
      fun name ↦ (name, name.toList.length + 1)

theorem tokenVarRun_eq_some {cs : List Char} {name : String} {n : ℕ}
    (h : tokenVarRun cs = some (name, n)) :
    name ∈ tokenVarNames ∧ n = name.toList.length + 1 ∧ cs = '$' :: name.toList ++ cs.drop n := by
  cases cs with
  | nil => cases h
  | cons c rest =>
    rw [tokenVarRun] at h
    split_ifs at h with hc
    obtain ⟨name', hfind, heq⟩ := Option.map_eq_some_iff.1 h
    cases heq
    have hpred := List.find?_some hfind
    obtain ⟨tail, rfl⟩ := List.isPrefixOf_iff_prefix.1 hpred
    rw [not_not] at hc
    subst hc
    refine ⟨List.mem_of_find?_eq_some hfind, rfl, ?_⟩
    simp

/-- `TOKEN_VAR` as a pattern. -/
def tokenVar : Scan.Pattern Char String where
  run := tokenVarRun
  consumes cs name n h := by
    obtain ⟨-, rfl, hcs⟩ := tokenVarRun_eq_some h
    have hlen := congrArg List.length hcs
    simp only [List.cons_append, List.length_cons, List.length_append, List.length_drop] at hlen
    omega

/-- A character of a token function's name: `[a-z]`. -/
def isTokenFuncNameChar (c : Char) : Bool := c.isLower

/-- A character of a token function's argument: `[0-9A-Za-z_-]`. -/
def isTokenFuncArgChar (c : Char) : Bool := c.isAlphanum || c == '_' || c == '-'

/-- `TOKEN_FUNC`, `@([a-z]+)\(([0-9A-Za-z_-]+)\)`, at the front of a text: the function and its
argument. -/
def tokenFuncRun : List Char → Option ((String × String) × ℕ)
  | [] => none
  | c :: rest =>
    if c ≠ '@' then none
    else
      match Scan.closedRun isTokenFuncNameChar '(' rest with
      | none => none
      | some (func, used) =>
        match Scan.closedRun isTokenFuncArgChar ')' (rest.drop used) with
        | none => none
        | some (arg, used') => some ((String.ofList func, String.ofList arg), 1 + used + used')

theorem tokenFuncRun_consumes {cs : List Char} {a : String × String} {n : ℕ}
    (h : tokenFuncRun cs = some (a, n)) : 0 < n ∧ n ≤ cs.length := by
  cases cs with
  | nil => cases h
  | cons c rest =>
    rw [tokenFuncRun] at h
    split_ifs at h
    split at h
    · cases h
    · next func used hfunc =>
      split at h
      · cases h
      · next arg used' harg =>
        cases h
        -- the name, `(`, the argument and `)` all lie in the text
        obtain ⟨rfl, -, hrest⟩ := Scan.closedRun_eq_some hfunc
        obtain ⟨rfl, -, hdrop⟩ := Scan.closedRun_eq_some harg
        have hlen := congrArg List.length hrest
        have hlen' := congrArg List.length hdrop
        simp only [List.length_append, List.length_cons, List.length_drop] at hlen hlen' ⊢
        omega

/-- `TOKEN_FUNC` as a pattern. -/
def tokenFunc : Scan.Pattern Char (String × String) where
  run := tokenFuncRun
  consumes _ _ _ h := tokenFuncRun_consumes h

/-- The text of a token function, `@func(arg)`: what `TOKEN_FUNC` matched. -/
def tokenFuncText (func arg : String) : String := "@" ++ func ++ "(" ++ arg ++ ")"

/-! ## The expander -/

/-- `TokenScope`: the part of a task being expanded. -/
inductive TokenScope where
  | command | script | args | env | inputs | outputs
  deriving DecidableEq, Repr

/-- `TokenScope::label`. -/
def TokenScope.label : TokenScope → String
  | .command => "commands"
  | .script => "scripts"
  | .args => "args"
  | .env => "env"
  | .inputs => "inputs"
  | .outputs => "outputs"

/-- `TokenExpanderError`, and what a `?` of the expander passes on besides: a path that is not
UTF-8 (`path::to_string`) and a file group the project does not have. -/
inductive TokenExpanderError where
  | invalidTokenIndex (target token index : String)
  | invalidTokenIndexReference (target token : String)
  | invalidTokenScope (target token scope : String)
  | missingInIndex (index : ℕ) (target token : String)
  | missingOutIndex (index : ℕ) (target token : String)
  | unknownToken (token : String)
  | invalidUtf8Path
  | unknownFileGroup (id : String)
  deriving DecidableEq, Repr

/-- `ProjectMetadataConfig`, the `project` section of a project's configuration.  The custom
fields of `metadata` are what `serde_json::Value::to_string` writes for them. -/
structure ProjectMetadataConfig where
  title : Option String := none
  description : Option String := none
  owner : Option String := none
  maintainers : List String := []
  channel : Option String := none
  metadata : List (String × String) := []
  deriving DecidableEq, Repr

/-- `GraphExpanderContext`, with its paths as `path::to_string` reads them: `none` for one that
is not UTF-8. -/
structure GraphExpanderContext where
  vcsBranch : String
  vcsRepository : String
  vcsRevision : String
  workingDir : Option String
  workspaceRoot : Option String
  deriving DecidableEq, Repr

/-- What the host and the clock give: `env::consts::{ARCH, OS, FAMILY}`, and `now_timestamp()`
formatted as `%F`, `%F_%T` and `%T`, and `now_millis() / 1000`. -/
structure Host where
  arch : String
  os : String
  family : String
  date : String
  datetime : String
  time : String
  timestamp : String
  deriving DecidableEq, Repr

/-- `TokenExpander`, with what it reads of its project beyond the `Project` record: the
metadata (`config.project`) and the root. -/
structure TokenExpander where
  scope : TokenScope
  context : GraphExpanderContext
  project : Project
  metadata : Option ProjectMetadataConfig
  projectRoot : Option String
  host : Host
  deriving DecidableEq, Repr

/-- The `Display` of `LanguageType`: its name in lowercase, or the custom language's id. -/
def LanguageType.label : LanguageType → String
  | .bash => "bash" | .batch => "batch" | .cPlusPlus => "cplusplus" | .cSharp => "csharp"
  | .dotNet => "dotnet" | .go => "go" | .java => "java" | .javaScript => "javascript"
  | .kotlin => "kotlin" | .php => "php" | .python => "python" | .ruby => "ruby"
  | .rust => "rust" | .swift => "swift" | .typeScript => "typescript" | .unknown => "unknown"
  | .other id => id

/-- The `Display` of `LayerType`. -/
def LayerType.label : LayerType → String
  | .application => "application" | .automation => "automation"
  | .configuration => "configuration" | .library => "library" | .scaffolding => "scaffolding"
  | .tool => "tool" | .unknown => "unknown"

/-- The `Display` of `StackType`. -/
def StackType.label : StackType → String
  | .backend => "backend" | .data => "data" | .frontend => "frontend"
  | .infrastructure => "infrastructure" | .systems => "systems" | .unknown => "unknown"

/-- The `Display` of `TaskType`. -/
def TaskType.label : TaskType → String
  | .build => "build" | .run => "run" | .test => "test"

/-- What the token functions over files need from outside this model: the files and globs a
function adds to its result, and `resolve_path_for_task`. -/
structure FileTokens where
  files : String → String → Outcome TokenExpanderError (List String × List String)
  resolvePath : String → Outcome TokenExpanderError String

namespace TokenExpander

variable (x : TokenExpander) (task : Task)

/-! ## Variables -/

/-- `stringify_path` on Unix: `path::to_string`. -/
def stringifyPath : Option String → Except TokenExpanderError String
  | some path => .ok path
  | none => .error .invalidUtf8Path

/-- The closure `get_metadata`: a field of the metadata, empty when it or the metadata is
missing. -/
def getMetadata (op : ProjectMetadataConfig → Option String) : String :=
  match x.metadata with
  | some metadata => (op metadata).getD ""
  | none => ""

/-- The value `replace_variable` splices in for a variable: `none` for the arm `_`, which leaves
the text as it is. -/
def variableValue : String → Option (Except TokenExpanderError String)
  | "arch" => some (.ok x.host.arch)
  | "os" => some (.ok x.host.os)
  | "osFamily" => some (.ok x.host.family)
  | "workingDir" => some (stringifyPath x.context.workingDir)
  | "workspaceRoot" => some (stringifyPath x.context.workspaceRoot)
  | "language" => some (.ok x.project.language.label)
  | "project" | "projectId" => some (.ok x.project.id)
  | "projectAlias" => some (.ok ((x.project.aliases.head?.map (·.name)).getD ""))
  | "projectAliases" => some (.ok (",".intercalate (x.project.aliases.map (·.name))))
  | "projectChannel" => some (.ok (x.getMetadata (·.channel)))
  | "projectLayer" => some (.ok x.project.layer.label)
  | "projectName" | "projectTitle" => some (.ok (x.getMetadata (·.title)))
  | "projectOwner" => some (.ok (x.getMetadata (·.owner)))
  | "projectRoot" => some (stringifyPath x.projectRoot)
  | "projectSource" => some (.ok x.project.source)
  | "projectStack" => some (.ok x.project.stack.label)
  | "target" => some (.ok task.target.id)
  | "task" | "taskId" => some (.ok task.id)
  | "taskToolchain" => some (.ok (task.toolchains.head?.getD "unknown"))
  | "taskToolchains" => some (.ok (",".intercalate task.toolchains))
  | "taskType" => some (.ok task.typeOf.label)
  | "date" => some (.ok x.host.date)
  | "datetime" => some (.ok x.host.datetime)
  | "time" => some (.ok x.host.time)
  | "timestamp" => some (.ok x.host.timestamp)
  | "vcsBranch" => some (.ok x.context.vcsBranch)
  | "vcsRepository" => some (.ok x.context.vcsRepository)
  | "vcsRevision" => some (.ok x.context.vcsRevision)
  | _ => none

/-- `TokenExpander::has_token_variable`. -/
def hasTokenVariable (value : List Char) : Bool :=
  value.contains '$' && (Scan.firstMatch tokenVar value).isSome

/-- `TokenExpander::replace_variable`: the leftmost variable replaced by its value. -/
def replaceVariable (value : List Char) : Outcome TokenExpanderError (List Char) :=
  match Scan.firstMatch tokenVar value with
  | none => pure value
  | some (before, variableName, after) =>
    match x.variableValue task variableName with
    | none => pure value
    | some replacedValue => do
      let replacedValue ← Outcome.ofExcept replacedValue
      pure (before ++ replacedValue.toList ++ after)

/-- `TokenExpander::replace_variables`, for at most `fuel` rounds. -/
def replaceVariables (fuel : ℕ) (value : List Char) :
    Option (Outcome TokenExpanderError (List Char)) :=
  Fuel.whileLoop hasTokenVariable (x.replaceVariable task) fuel value

/-- Every name `TOKEN_VAR` matches has an arm of its own. -/
theorem variableValue_isSome : ∀ name ∈ tokenVarNames, (x.variableValue task name).isSome := by
  simp [tokenVarNames, variableValue]

theorem hasTokenVariable_iff {value : List Char} :
    hasTokenVariable value = true ↔ (Scan.firstMatch tokenVar value).isSome := by
  rw [hasTokenVariable, Bool.and_eq_true, and_iff_right_iff_imp]
  intro h
  obtain ⟨⟨before, name, after⟩, hmatch⟩ := Option.isSome_iff_exists.1 h
  obtain ⟨rest, n, rfl, hrun, -⟩ := Scan.firstMatch_eq_some hmatch
  -- a match starts with a `$`
  obtain ⟨-, -, hrest⟩ := tokenVarRun_eq_some hrun
  rw [List.contains_iff_mem, hrest]
  simp

/-- **One round of `replace_variable`**, on a text that has a variable: the leftmost one is
replaced by its value. -/
theorem replaceVariable_eq_ok {value value' : List Char}
    (hcond : hasTokenVariable value = true) (h : x.replaceVariable task value = .ok value') :
    ∃ before name after v, value = before ++ '$' :: name.toList ++ after ∧
      name ∈ tokenVarNames ∧ x.variableValue task name = some (.ok v) ∧
      value' = before ++ v.toList ++ after := by
  obtain ⟨⟨before, name, after⟩, hmatch⟩ := Option.isSome_iff_exists.1 (hasTokenVariable_iff.1 hcond)
  obtain ⟨rest, n, rfl, hrun, rfl⟩ := Scan.firstMatch_eq_some hmatch
  obtain ⟨hname, -, hrest⟩ := tokenVarRun_eq_some hrun
  rw [replaceVariable, hmatch] at h
  dsimp only at h
  -- the arm `_` is never reached: the name has an arm
  obtain ⟨r, hr⟩ := Option.isSome_iff_exists.1 (x.variableValue_isSome task name hname)
  rw [hr] at h
  obtain ⟨v, hv, h⟩ := Outcome.bind_eq_ok.1 h
  rw [Outcome.ofExcept_eq_ok] at hv
  subst hv
  cases h
  refine ⟨before, name, rest.drop n, v, ?_, hname, hr, rfl⟩
  conv_lhs => rw [hrest]
  simp

/-- A round at a known leftmost variable with a value: the value spliced in. -/
theorem replaceVariable_of_firstMatch {value before after : List Char} {name v : String}
    (hmatch : Scan.firstMatch tokenVar value = some (before, name, after))
    (hvalue : x.variableValue task name = some (.ok v)) :
    x.replaceVariable task value = .ok (before ++ v.toList ++ after) := by
  rw [replaceVariable, hmatch]
  dsimp only
  rw [hvalue]
  rfl

/-- **`replace_variables` stops when no value holds a `$`**: every round then takes one `$` out
of the text, so one round per `$`, plus the last test, is enough. -/
theorem replaceVariables_ne_none
    (hvalues : ∀ name v, x.variableValue task name = some (.ok v) → '$' ∉ v.toList)
    (value : List Char) : x.replaceVariables task (value.count '$' + 1) value ≠ none := by
  refine Fuel.whileLoop_ne_none (fun s ↦ s.count '$') (fun s s' hcond hstep ↦ ?_) _ value
    (Nat.lt_succ_self _)
  obtain ⟨before, name, after, v, rfl, -, hv, rfl⟩ := x.replaceVariable_eq_ok task hcond hstep
  have hcount : v.toList.count '$' = 0 := List.count_eq_zero.2 (hvalues name v hv)
  simp only [List.count_append, List.count_cons, hcount]
  simp

/-- **What `replace_variables` returns holds no variable**: it stops only when `TOKEN_VAR`
matches nowhere. -/
theorem replaceVariables_noMatch {fuel : ℕ} {value r : List Char}
    (h : x.replaceVariables task fuel value = some (.ok r)) : Scan.NoMatch tokenVar r := by
  have hstop := (Fuel.whileLoop_inv (fun _ ↦ True) (fun _ _ _ _ _ ↦ trivial) fuel value r
    trivial h).2
  rw [← Bool.not_eq_true, hasTokenVariable_iff, Option.not_isSome_iff_eq_none] at hstop
  exact Scan.firstMatch_eq_none_iff.1 hstop

/-- The expansion that replaces every variable of the text once, from left to right, with the
value `values` gives it, and never searches an inserted value again: `Regex::replace_all`.  It
states what the repeated search is compared with; the code does not compute it. -/
def expandOnce (values : String → String) (text : List Char) : List Char :=
  (Scan.replaceAll tokenVar (fun name u ↦ ((values name).toList, u)) text ()).1

/-- The value `replace_variable` splices in for a variable, empty where it has none. -/
def valueOf (name : String) : String :=
  match x.variableValue task name with
  | some (.ok v) => v
  | _ => ""

/-! ## Functions -/

/-- `ExpandedResult`, with what `expand_script` reads of it. -/
structure ExpandedResult where
  files : List String := []
  globs : List String := []
  token : Option String := none
  value : Option String := none
  deriving DecidableEq, Repr

/-- `TokenExpander::check_scope`. -/
def checkScope (token : String) (allowed : List TokenScope) : Outcome TokenExpanderError Unit :=
  if allowed.contains x.scope then pure ()
  else .err (.invalidTokenScope task.target.id token x.scope.label)

/-- The value of `@meta(arg)`: a field of the metadata, the maintainers joined by `,`, or a
custom field. -/
def metaValue (arg : String) : Option String :=
  x.metadata.bind fun md ↦
    match arg with
    | "channel" => md.channel
    | "description" => md.description
    | "maintainers" => if md.maintainers.isEmpty then none else some (",".intercalate md.maintainers)
    | "name" | "title" => md.title
    | "owner" => md.owner
    | customField => md.metadata.lookup customField

/-- `TokenExpander::has_token_function`: the text is one token function, or, in a script, holds
one.  (Outside a script a token function among other text is only warned about.) -/
def hasTokenFunction (value : List Char) : Bool :=
  value.contains '@' &&
    ((match tokenFuncRun value with
      | some (_, n) => n == value.length
      | none => false) ||
      ((Scan.firstMatch tokenFunc value).isSome && x.scope == .script))

/-- `TokenExpander::replace_function`, on the leftmost token function of the text. -/
def replaceFunction (ft : FileTokens) (value : List Char) :
    Outcome TokenExpanderError ExpandedResult := do
  -- `TOKEN_FUNC.captures(value).unwrap()`
  let some (_, (func, arg), _) := Scan.firstMatch tokenFunc value | .panic
  let token := tokenFuncText func arg
  let result : ExpandedResult := { token := some token }
  match func with
  | "root" | "dirs" | "files" | "globs" | "group" =>
    x.checkScope task token [.script, .args, .env, .inputs, .outputs]
    let (files, globs) ← ft.files func arg
    pure { result with files, globs }
  | "in" | "out" =>
    x.checkScope task token [.script, .args]
    let (files, globs) ← ft.files func arg
    pure { result with files, globs }
  | "envs" =>
    x.checkScope task token [.inputs]
    let (files, globs) ← ft.files func arg
    pure { result with files, globs }
  | "meta" =>
    x.checkScope task token [.command, .script, .args, .env]
    pure { result with value := x.metaValue arg }
  | _ => .err (.unknownToken token)

/-- One round of `expand_script`'s loop: every copy of the token replaced by the resolved files,
the resolved globs and the value, joined by spaces.  (`infer_inputs_from_result` adds to the
task's input files, which nothing here reads.) -/
def expandScriptStep (ft : FileTokens) (script : List Char) :
    Outcome TokenExpanderError (List Char) := do
  let result ← x.replaceFunction task ft script
  match result.token with
  | none => pure script
  | some token =>
    let files ← result.files.mapM ft.resolvePath
    let globs ← result.globs.mapM ft.resolvePath
    let items := files ++ globs ++ result.value.toList
    pure (Scan.replaceLiteral token.toList (" ".intercalate items).toList script)

/-- `TokenExpander::expand_script`, each of its two loops for at most `fuel` rounds:
the token functions, then the variables, and last the scan for environment variables
(`EnvScanner::scan`, outside this model). -/
def expandScript (ft : FileTokens) (scan : List Char → List Char) (fuel : ℕ) :
    Option (Outcome TokenExpanderError (List Char)) :=
  let x := { x with scope := .script }
  -- `task.script.clone().expect("Script not defined!")`
  match task.script with
  | none => some .panic
  | some script =>
    match Fuel.whileLoop x.hasTokenFunction (x.expandScriptStep task ft) fuel script.toList with
    | some (.ok script) =>
      match x.replaceVariables task fuel script with
      | some (.ok value) => some (.ok (scan value))
      | r => r
    | r => r

/-- **`@meta` in a scope that allows it**: the token, with the metadata's value. -/
theorem replaceFunction_meta {ft : FileTokens} {value before after : List Char} {arg : String}
    (hmatch : Scan.firstMatch tokenFunc value = some (before, ("meta", arg), after))
    (hscope : x.scope ∈ [.command, .script, .args, .env]) :
    x.replaceFunction task ft value =
      .ok { token := some (tokenFuncText "meta" arg), value := x.metaValue arg } := by
  have hcheck : x.checkScope task (tokenFuncText "meta" arg) [.command, .script, .args, .env] =
      .ok () := by
    rw [checkScope, if_pos (List.elem_iff.2 hscope)]
    rfl
  rw [replaceFunction, hmatch]
  simp only [hcheck]
  rfl

/-- One round of `expand_script` on an `@meta` token: every copy of it replaced by the value. -/
theorem expandScriptStep_meta {ft : FileTokens} {script before after : List Char} {arg : String}
    (hmatch : Scan.firstMatch tokenFunc script = some (before, ("meta", arg), after))
    (hscope : x.scope ∈ [.command, .script, .args, .env]) :
    x.expandScriptStep task ft script =
      .ok (Scan.replaceLiteral (tokenFuncText "meta" arg).toList
        (" ".intercalate (x.metaValue arg).toList).toList script) := by
  rw [expandScriptStep, x.replaceFunction_meta task hmatch hscope]
  rfl

end TokenExpander

open TokenExpander in
theorem token_expansion_rescans_substituted_values :
    (∀ (x : TokenExpander) (task : Task), x.getMetadata (·.title) = "$projectTitle" →
      ∀ fuel, x.replaceVariables task fuel "$projectTitle".toList = none) ∧
    (∀ (x : TokenExpander) (task : Task), x.getMetadata (·.title) = "$projectId" →
      '$' ∉ x.project.id.toList →
      x.replaceVariables task 3 "$projectTitle".toList = some (.ok x.project.id.toList) ∧
        expandOnce (x.valueOf task) "$projectTitle".toList = "$projectId".toList) ∧
    (∀ (x : TokenExpander) (task : Task) (ft : FileTokens) (scan : List Char → List Char),
      task.script = some "@meta(title)" → x.metaValue "title" = some "@meta(title)" →
      ∀ fuel, x.expandScript task ft scan fuel = none) := by
  refine ⟨fun x task htitle fuel ↦ ?_, fun x task htitle hid ↦ ⟨?_, ?_⟩,
    fun x task ft scan hscript hmeta fuel ↦ ?_⟩
  · -- the title is the text itself: each round gives the text back
    have hvalue : x.variableValue task "projectTitle" = some (.ok "$projectTitle") := by
      rw [← htitle]
      rfl
    have hround := x.replaceVariable_of_firstMatch task (show Scan.firstMatch tokenVar
      "$projectTitle".toList = some ([], "projectTitle", []) by decide) hvalue
    rw [List.nil_append, List.append_nil] at hround
    exact Fuel.whileLoop_eq_none_of_fixed (by decide) hround fuel
  · -- the title's own variable is expanded in a second round, and the id ends the loop
    have hvalue : x.variableValue task "projectTitle" = some (.ok "$projectId") := by
      rw [← htitle]
      rfl
    have hround₁ := x.replaceVariable_of_firstMatch task (show Scan.firstMatch tokenVar
      "$projectTitle".toList = some ([], "projectTitle", []) by decide) hvalue
    have hround₂ := x.replaceVariable_of_firstMatch task (show Scan.firstMatch tokenVar
      "$projectId".toList = some ([], "projectId", []) by decide)
      (show x.variableValue task "projectId" = some (.ok x.project.id) from rfl)
    have hstop : hasTokenVariable x.project.id.toList = false := by
      rw [hasTokenVariable, Bool.eq_false_iff.2 (List.contains_iff_mem.not.2 hid), Bool.false_and]
    rw [List.nil_append, List.append_nil] at hround₁ hround₂
    rw [replaceVariables, Fuel.whileLoop_of_body_ok (by decide) hround₁,
      Fuel.whileLoop_of_body_ok (by decide) hround₂, Fuel.whileLoop_of_cond_false hstop]
  · -- replacing every variable once leaves the title's text as it is
    have hvalue : x.valueOf task "projectTitle" = "$projectId" := htitle
    rw [expandOnce, Scan.replaceAll_of_run_some (show tokenVar.run "$projectTitle".toList =
      some ("projectTitle", 13) by decide), hvalue]
    rfl
  · -- `@meta(title)` gives back `@meta(title)`, and the function loop never ends
    have hstep : ({ x with scope := .script } : TokenExpander).expandScriptStep task ft
        "@meta(title)".toList = .ok "@meta(title)".toList := by
      rw [expandScriptStep_meta _ task (show Scan.firstMatch tokenFunc "@meta(title)".toList =
        some ([], ("meta", "title"), []) by decide) (by simp)]
      rw [show ({ x with scope := .script } : TokenExpander).metaValue "title" =
        some "@meta(title)" from hmeta]
      decide
    rw [expandScript, hscript]
    dsimp only
    rw [Fuel.whileLoop_eq_none_of_fixed rfl hstep]

end Moon
