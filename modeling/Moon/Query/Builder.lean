import Moon.Project.Project
import Moon.Task.Task

/-!
# MQL criteria

The moon query language (`crates/query`) filters projects and tasks with expressions such as
`language=javascript && (projectTag~app-* || task!=[lint,test])`.  A pest grammar turns the text
into a list of `AstNode`s; `build_criteria` turns those into a `Criteria`: a logical operator and a
list of `Condition`s, each a comparison of a `Field` or a nested group.

`build_criteria` is where the field names are decided.  Each accepted name (and its aliases —
`tag` is `projectTag`, `taskTags` is `taskTag`) maps to one variant of `Field`, and four of them
are enumerations whose values are parsed up front: an unknown value is an error, and so is a
`~`/`!~` comparison, since globs on an enum mean nothing.  Mixing `&&` and `||` in one group is an
error too.  The parsing of the enum values is `FromStr`, derived by the `schematic` crate outside
this repository, so `EnumParsers` takes it as a parameter.

`Condition::matches` compares one *needle* against the field's values, the *haystack*: `=` and
`!=` are (non-)membership, and `~` and `!~` build a glob set from the haystack and ask whether the
needle is included.  The glob set comes from `starbase_utils::glob`, also outside this
repository; `GlobApi` is the one thing asked of it, that building a set from patterns either
fails or yields an inclusion test.  `matches_list` asks `matches` for each needle of a list in
turn and succeeds as soon as one does — so the comparison is applied *per needle* and the needles
are joined by "some", whatever the operator.

The `input` field of `Criteria` is the query text, kept only as a cache key; it is left out.
-/

set_option autoImplicit false

namespace Moon.Query

/-- `LogicalOperator`: `&&`/`AND` or `||`/`OR`; `And` is the default. -/
inductive LogicalOperator where
  | and
  | or
  deriving DecidableEq, Repr, Inhabited

/-- `ComparisonOperator`: `=`, `!=`, `~` and `!~`. -/
inductive ComparisonOperator where
  | equal
  | notEqual
  | like
  | notLike
  deriving DecidableEq, Repr

/-- The operator with the opposite meaning: `=` and `!=`, `~` and `!~`. -/
def ComparisonOperator.negate : ComparisonOperator → ComparisonOperator
  | .equal => .notEqual
  | .notEqual => .equal
  | .like => .notLike
  | .notLike => .like

/-- `Field`: a query field with the values it is compared against. -/
inductive Field where
  | language (langs : List LanguageType)
  | project (ids : List String)
  | projectAlias (aliases : List String)
  | projectId (ids : List String)
  | projectLayer (types : List LayerType)
  | projectSource (sources : List String)
  | projectStack (types : List StackType)
  | projectTag (tags : List String)
  | task (ids : List String)
  | taskTag (tags : List String)
  | taskToolchain (ids : List String)
  | taskType (types : List TaskType)
  deriving DecidableEq, Repr

mutual

/-- `Condition`: one comparison, or a parenthesised group. -/
inductive Condition where
  | field (field : Field) (op : ComparisonOperator)
  | criteria (criteria : Criteria)

/-- `Criteria`: the conditions of one group, joined by one logical operator. -/
inductive Criteria where
  | mk (op : LogicalOperator) (conditions : List Condition)

end

/-- `AstNode`, as `parse_query` produces it. -/
inductive AstNode where
  | comparison (field : String) (op : ComparisonOperator) (value : List String)
  | op (op : LogicalOperator)
  | group (nodes : List AstNode)

/-- `QueryError`, with the payloads the builder attaches. -/
inductive QueryError where
  | emptyInput
  | logicalOperatorMismatch
  | unknownField (field : String)
  | unknownFieldValue (field value : String)
  | unsupportedLikeOperator (field : String)
  | parseFailure (message : String)
  deriving DecidableEq, Repr

/-- The `FromStr` implementations of the four enumerations a query can compare, derived by
`schematic` outside this repository. -/
structure EnumParsers where
  language : String → Option LanguageType
  layer : String → Option LayerType
  stack : String → Option StackType
  taskType : String → Option TaskType

/-- What the query needs of `starbase_utils::glob::GlobSet`: `GlobSet::new(patterns)` either fails
with a message or yields the set's `is_included` test. -/
structure GlobApi where
  new : List String → Except String (String → Bool)

/-! ## Building criteria -/

/-- `build_criteria_enum`: parse every value of an enum field, rejecting the glob operators. -/
def buildCriteriaEnum {T : Type} (parse : String → Option T) (field : String)
    (op : ComparisonOperator) (values : List String) : Except QueryError (List T) :=
  if op = .like ∨ op = .notLike then .error (.unsupportedLikeOperator field)
  else values.mapM fun value ↦
    match parse value with
    | some t => .ok t
    | none => .error (.unknownFieldValue field value)

/-- The `match field.as_ref()` of `build_criteria`: the field a comparison names. -/
def buildField (P : EnumParsers) (field : String) (op : ComparisonOperator) (value : List String) :
    Except QueryError Field :=
  match field with
  | "language" => .language <$> buildCriteriaEnum P.language field op value
  | "project" => .ok (.project value)
  | "projectAlias" | "projectAliases" => .ok (.projectAlias value)
  | "projectLayer" => .projectLayer <$> buildCriteriaEnum P.layer field op value
  | "projectId" => .ok (.projectId value)
  | "projectSource" => .ok (.projectSource value)
  | "projectStack" => .projectStack <$> buildCriteriaEnum P.stack field op value
  | "projectTag" | "projectTags" | "tag" => .ok (.projectTag value)
  | "task" => .ok (.task value)
  | "taskTag" | "taskTags" => .ok (.taskTag value)
  | "taskToolchain" | "taskToolchains" => .ok (.taskToolchain value)
  | "taskType" => .taskType <$> buildCriteriaEnum P.taskType field op value
  | _ => .error (.unknownField field)

mutual

/-- One iteration of the loop of `build_criteria`: the node, given the logical operator seen so
far, yields the operator from now on and possibly a condition.  A second, different operator is
an error; a nested group is built by the same loop from scratch. -/
def buildCriteriaNode (P : EnumParsers) :
    AstNode → Option LogicalOperator → Except QueryError (Option LogicalOperator × Option Condition)
  | .comparison field cmp value, op => do
    let field ← buildField P field cmp value
    pure (op, some (.field field cmp))
  | .op nextOp, op =>
    match op with
    | some currentOp =>
      if nextOp ≠ currentOp then .error .logicalOperatorMismatch else pure (op, none)
    | none => pure (some nextOp, none)
  | .group nodes, op => do
    let criteria ← buildCriteriaLoop P nodes none []
    pure (op, some (.criteria criteria))

/-- The loop of `build_criteria` over the nodes of one group, with the logical operator seen so
far and the conditions built so far. -/
def buildCriteriaLoop (P : EnumParsers) :
    List AstNode → Option LogicalOperator → List Condition → Except QueryError Criteria
  | [], op, conditions => .ok (.mk (op.getD .and) conditions)
  | node :: rest, op, conditions => do
    let (op, condition) ← buildCriteriaNode P node op
    buildCriteriaLoop P rest op (conditions ++ condition.toList)

end

/-- `build_criteria`: a group of nodes as criteria. -/
def buildCriteria (P : EnumParsers) (ast : List AstNode) : Except QueryError Criteria :=
  buildCriteriaLoop P ast none []

/-! ## Comparing needles -/

namespace Condition

/-- `Condition::matches` (`matches` is a keyword in Lean): compare one needle against the haystack
with the condition's operator; a group never matches a needle. -/
def matchesNeedle (G : GlobApi) (c : Condition) (haystack : List String) (needle : String) :
    Except String Bool :=
  match c with
  | .field _ op =>
    match op with
    | .equal => .ok (haystack.contains needle)
    | .notEqual => .ok (!haystack.contains needle)
    | .like => (G.new haystack).map fun isIncluded ↦ isIncluded needle
    | .notLike => (G.new haystack).map fun isIncluded ↦ !isIncluded needle
  | .criteria _ => .ok false

/-- `Condition::matches_list`: whether some needle of the list matches, stopping at the first
that does; the first error ends the search. -/
def matchesList (G : GlobApi) (c : Condition) (haystack needles : List String) :
    Except String Bool :=
  needles.anyM fun needle ↦ c.matchesNeedle G haystack needle

/-- `Condition::matches_enum`: membership for `=` and `!=`; the glob operators never match. -/
def matchesEnum {T : Type} [DecidableEq T] (c : Condition) (haystack : List T) (needle : T) :
    Bool :=
  match c with
  | .field _ op =>
    match op with
    | .equal => haystack.contains needle
    | .notEqual => !haystack.contains needle
    | _ => false
  | .criteria _ => false

/-! ### How a needle is compared -/

/-- `!=` is the negation of `=`, and `!~` of `~` — also when the glob set does not build, where
both fail with the same error. -/
theorem matchesNeedle_negate (G : GlobApi) (field : Field) (op : ComparisonOperator)
    (haystack : List String) (needle : String) :
    (Condition.field field op.negate).matchesNeedle G haystack needle
      = (!·) <$> (Condition.field field op).matchesNeedle G haystack needle := by
  unfold matchesNeedle
  cases op with
  | equal => simp [ComparisonOperator.negate]
  | notEqual => simp [ComparisonOperator.negate]
  | like =>
    dsimp only [ComparisonOperator.negate]
    cases G.new haystack with
    | error e => rfl
    | ok isIncluded => rfl
  | notLike =>
    dsimp only [ComparisonOperator.negate]
    cases G.new haystack with
    | error e => rfl
    | ok isIncluded => simp [Except.map]

/-- With `=` or `!=` a needle is compared by membership alone: it passes when its membership in the
haystack is what the operator asks for. -/
theorem matchesNeedle_of_eq_or_ne (G : GlobApi) (field : Field) {op : ComparisonOperator}
    (hop : op = .equal ∨ op = .notEqual) (haystack : List String) (needle : String) :
    (Condition.field field op).matchesNeedle G haystack needle
      = .ok (decide (needle ∈ haystack ↔ op = .equal)) := by
  unfold matchesNeedle
  rcases hop with rfl | rfl
  · simp
  · simp

/-- With `=` or `!=`, `matches_list` asks whether *some* needle passes. -/
theorem matchesList_of_eq_or_ne (G : GlobApi) (field : Field) {op : ComparisonOperator}
    (hop : op = .equal ∨ op = .notEqual) (haystack needles : List String) :
    (Condition.field field op).matchesList G haystack needles
      = .ok (decide (∃ needle ∈ needles, (needle ∈ haystack ↔ op = .equal))) := by
  have hpure : (fun needle ↦ (Condition.field field op).matchesNeedle G haystack needle)
      = fun needle ↦ pure (decide (needle ∈ haystack ↔ op = .equal)) := by
    funext needle
    exact matchesNeedle_of_eq_or_ne G field hop haystack needle
  rw [matchesList, hpure, List.anyM_pure]
  show Except.ok _ = Except.ok _
  congr 1
  rw [Bool.eq_iff_iff, List.any_eq_true, decide_eq_true_eq]
  simp only [decide_eq_true_eq]

/-- On an enum, `!=` is the negation of `=`. -/
theorem matchesEnum_negate {T : Type} [DecidableEq T] (field : Field) {op : ComparisonOperator}
    (hop : op = .equal ∨ op = .notEqual) (haystack : List T) (needle : T) :
    (Condition.field field op.negate).matchesEnum haystack needle
      = !(Condition.field field op).matchesEnum haystack needle := by
  rcases hop with rfl | rfl
  · simp [matchesEnum, ComparisonOperator.negate]
  · simp [matchesEnum, ComparisonOperator.negate]

end Condition

/-! ### Which field a comparison builds -/

/-- The field a comparison builds does not depend on which of two opposite operators it uses:
the enum fields reject `~` and `!~` alike. -/
theorem buildField_negate (P : EnumParsers) (name : String) (op : ComparisonOperator)
    (value : List String) : buildField P name op.negate value = buildField P name op value := by
  have henum : ∀ {T : Type} (parse : String → Option T),
      buildCriteriaEnum parse name op.negate value = buildCriteriaEnum parse name op value := by
    intro T parse
    cases op <;> rfl
  unfold buildField
  split <;> simp only [henum]

/-- A query of one comparison builds an `&&` group holding that one comparison. -/
theorem buildCriteria_comparison (P : EnumParsers) (name : String) (op : ComparisonOperator)
    (value : List String) :
    buildCriteria P [.comparison name op value]
      = (buildField P name op value).map fun field ↦ .mk .and [.field field op] := by
  rw [buildCriteria, buildCriteriaLoop, buildCriteriaNode]
  cases buildField P name op value with
  | error e => rfl
  | ok field => rfl

theorem buildCriteria_comparison_ok {P : EnumParsers} {name : String} {op : ComparisonOperator}
    {value : List String} {c : Criteria} (h : buildCriteria P [.comparison name op value] = .ok c) :
    ∃ field, buildField P name op value = .ok field ∧ c = .mk .and [.field field op] := by
  rw [buildCriteria_comparison] at h
  cases hf : buildField P name op value with
  | error e => rw [hf] at h; cases h
  | ok field =>
    rw [hf] at h
    cases h
    exact ⟨field, rfl, rfl⟩

/-- An enum field is built only under `=` and `!=`, from the parsed values. -/
theorem buildField_enum_ok {T : Type} {parse : String → Option T} {ctor : List T → Field}
    {name : String} {op : ComparisonOperator} {value : List String} {field : Field}
    (h : ctor <$> buildCriteriaEnum parse name op value = .ok field) :
    (op = .equal ∨ op = .notEqual) ∧ ∃ ts, field = ctor ts := by
  unfold buildCriteriaEnum at h
  split at h
  · cases h
  · rename_i hlike
    obtain ⟨ts, -, rfl⟩ := Except.map_eq_ok h
    exact ⟨by cases op <;> simp_all, ts, rfl⟩

end Moon.Query
