import Moon.Query.Match

/-!
# What a comparison means

`Condition::matches` applies the operator of a comparison to *one* value, and the negation of
`!=` and `!~` happens there.  Every field that holds several values — the tags of a project, its
aliases, the id of a project followed by its aliases, the tags and toolchains of a task — is
then compared value by value through `matches_list`, which asks whether *some* value passes.  The
existential is taken outside the negation, so `!=` is not the negation of `=` on such a field.

This file says what each comparison of one field means, and from that when `!=` negates `=`:

* **Fields with one value.**  On `language`, `projectLayer`, `projectStack`, `projectId` and
  `projectSource` of a project, and on `task` and `taskType` of a task, `!=` negates `=`, and on
  the string fields among them `!~` negates `~`; a glob set that does not build fails both
  (`doesProjectMatchCriteria_negate`, `doesTaskMatchCriteria_negate`).
* **Fields with many values.**  With `=` and `!=`, a string field of a project or of a task holds
  when some value the project or task holds for it is, or is not, among the listed values
  (`doesProjectMatchCriteria_of_values`, `doesTaskMatchCriteria_of_values`).  `projectFieldValues`
  and `taskFieldValues` say which values those are, by the name a query gives the field.
* **Fields a task does not have.**  A task never matches on a field of a project other than
  `project`, whatever the operator (`doesTaskMatchCriteria_projectOnly`).

A query here is what the query parser hands to `build_criteria`: a list of nodes.  The results
are about a query of one comparison, which `build_criteria` turns into an `&&` group of one
condition.
-/

set_option autoImplicit false

namespace Moon.Query

/-! ## The values of a field -/

/-- The values a project holds for each string field, by the name a query gives the field:
`project` is the id followed by the aliases, and the enum fields and the fields of the project's
tasks are not here. -/
def projectFieldValues (project : Project) : String → Option (List String)
  | "project" => some (project.id :: project.aliases.map ProjectAlias.name)
  | "projectAlias" | "projectAliases" => some (project.aliases.map ProjectAlias.name)
  | "projectId" => some [project.id]
  | "projectSource" => some [project.source]
  | "projectTag" | "projectTags" | "tag" => some project.config.tags
  | _ => none

/-- The values a task holds for each string field of its own, by the name a query gives the field.
-/
def taskFieldValues (task : Task) : String → Option (List String)
  | "task" => some [task.id]
  | "taskTag" | "taskTags" => some task.tags
  | "taskToolchain" | "taskToolchains" => some task.toolchains
  | _ => none

/-- The fields of a project that hold one value. -/
def singleValuedProjectFields : List String :=
  ["language", "projectLayer", "projectStack", "projectId", "projectSource"]

/-- The fields of a task that hold one value. -/
def singleValuedTaskFields : List String := ["task", "taskType"]

/-- The fields of a project that `does_task_match_criteria` does not look at. -/
def projectOnlyFields : List String :=
  ["language", "projectAlias", "projectAliases", "projectLayer", "projectId", "projectSource",
    "projectStack", "projectTag", "projectTags", "tag"]

section Semantics

variable (P : EnumParsers) (G : GlobApi) (g : WorkspaceGraph)

/-! ## `=` and `!=` are existentials -/

/-- **A string field of a project**, under `=` or `!=`, holds when some value the project holds for
it is, or is not, listed. -/
theorem doesProjectMatchCriteria_of_values (project : Project) {name : String} {items : List String}
    (hitems : projectFieldValues project name = some items) {op : ComparisonOperator}
    (hop : op = .equal ∨ op = .notEqual) {vs : List String} {c : Criteria}
    (hc : buildCriteria P [.comparison name op vs] = .ok c) :
    doesProjectMatchCriteria G g project c = .ok (decide (∃ x ∈ items, (x ∈ vs ↔ op = .equal))) := by
  obtain ⟨field, hfield, rfl⟩ := buildCriteria_comparison_ok hc
  rw [doesProjectMatchCriteria_single]
  -- one case per name of a string field; the name fixes the field that was built
  unfold projectFieldValues at hitems
  -- `buildField` reduces on the literal name, so the equation fixes the field
  split at hitems <;> cases hitems <;> cases hfield
  · exact projectFieldMatches_project G g project hop vs
  · exact projectFieldMatches_projectAlias G g project hop vs
  · exact projectFieldMatches_projectAlias G g project hop vs
  · exact projectFieldMatches_projectId G g project hop vs
  · exact projectFieldMatches_projectSource G g project hop vs
  · exact projectFieldMatches_projectTag G g project hop vs
  · exact projectFieldMatches_projectTag G g project hop vs
  · exact projectFieldMatches_projectTag G g project hop vs

/-- **A string field of a task**, under `=` or `!=`, holds when some value the task holds for it
is, or is not, listed. -/
theorem doesTaskMatchCriteria_of_values (task : Task) {name : String} {items : List String}
    (hitems : taskFieldValues task name = some items) {op : ComparisonOperator}
    (hop : op = .equal ∨ op = .notEqual) {vs : List String} {c : Criteria}
    (hc : buildCriteria P [.comparison name op vs] = .ok c) :
    doesTaskMatchCriteria G g task c = .ok (decide (∃ x ∈ items, (x ∈ vs ↔ op = .equal))) := by
  obtain ⟨field, hfield, rfl⟩ := buildCriteria_comparison_ok hc
  rw [doesTaskMatchCriteria_single]
  unfold taskFieldValues at hitems
  split at hitems <;> cases hitems <;> cases hfield
  · exact taskFieldMatches_task G g task hop vs
  · exact taskFieldMatches_taskTag G g task hop vs
  · exact taskFieldMatches_taskTag G g task hop vs
  · exact taskFieldMatches_taskToolchain G g task hop vs
  · exact taskFieldMatches_taskToolchain G g task hop vs

/-! ## `!=` negates `=` on a field with one value -/

/-- **A project field with one value**: the opposite operator gives the opposite answer, and the
same error when the glob set does not build. -/
theorem doesProjectMatchCriteria_negate (project : Project) {name : String}
    (hname : name ∈ singleValuedProjectFields) {op : ComparisonOperator} {vs : List String}
    {c c' : Criteria} (hc : buildCriteria P [.comparison name op vs] = .ok c)
    (hc' : buildCriteria P [.comparison name op.negate vs] = .ok c') :
    doesProjectMatchCriteria G g project c' = (!·) <$> doesProjectMatchCriteria G g project c := by
  obtain ⟨field, hfield, rfl⟩ := buildCriteria_comparison_ok hc
  obtain ⟨field', hfield', rfl⟩ := buildCriteria_comparison_ok hc'
  -- the two operators build the same field
  rw [buildField_negate, hfield, Except.ok.injEq] at hfield'
  subst hfield'
  rw [doesProjectMatchCriteria_single, doesProjectMatchCriteria_single]
  simp only [singleValuedProjectFields, List.mem_cons, List.not_mem_nil, or_false] at hname
  -- `buildField` and `projectFieldMatches` reduce on the literal name and on the built field
  rcases hname with rfl | rfl | rfl | rfl | rfl
  · obtain ⟨hop, langs, rfl⟩ := buildField_enum_ok hfield
    show pure _ = (!·) <$> pure _
    rw [Condition.matchesEnum_negate _ hop]
    rfl
  · obtain ⟨hop, types, rfl⟩ := buildField_enum_ok hfield
    show pure _ = (!·) <$> pure _
    rw [Condition.matchesEnum_negate _ hop]
    rfl
  · obtain ⟨hop, types, rfl⟩ := buildField_enum_ok hfield
    show pure _ = (!·) <$> pure _
    rw [Condition.matchesEnum_negate _ hop]
    rfl
  · cases hfield
    show liftGlob _ = (!·) <$> liftGlob _
    rw [Condition.matchesNeedle_negate, liftGlob_not]
  · cases hfield
    show liftGlob _ = (!·) <$> liftGlob _
    rw [Condition.matchesNeedle_negate, liftGlob_not]

/-- **A task field with one value**: the opposite operator gives the opposite answer. -/
theorem doesTaskMatchCriteria_negate (task : Task) {name : String}
    (hname : name ∈ singleValuedTaskFields) {op : ComparisonOperator} {vs : List String}
    {c c' : Criteria} (hc : buildCriteria P [.comparison name op vs] = .ok c)
    (hc' : buildCriteria P [.comparison name op.negate vs] = .ok c') :
    doesTaskMatchCriteria G g task c' = (!·) <$> doesTaskMatchCriteria G g task c := by
  obtain ⟨field, hfield, rfl⟩ := buildCriteria_comparison_ok hc
  obtain ⟨field', hfield', rfl⟩ := buildCriteria_comparison_ok hc'
  rw [buildField_negate, hfield, Except.ok.injEq] at hfield'
  subst hfield'
  rw [doesTaskMatchCriteria_single, doesTaskMatchCriteria_single]
  simp only [singleValuedTaskFields, List.mem_cons, List.not_mem_nil, or_false] at hname
  rcases hname with rfl | rfl
  · cases hfield
    show liftGlob _ = (!·) <$> liftGlob _
    rw [Condition.matchesNeedle_negate, liftGlob_not]
  · obtain ⟨hop, types, rfl⟩ := buildField_enum_ok hfield
    show pure _ = (!·) <$> pure _
    rw [Condition.matchesEnum_negate _ hop]
    rfl

/-! ## A task and the fields of a project -/

/-- **A task never matches on a field of a project** other than `project`, whatever the operator;
so on these fields `!=` does not negate `=` either. -/
theorem doesTaskMatchCriteria_projectOnly (task : Task) {name : String}
    (hname : name ∈ projectOnlyFields) {op : ComparisonOperator} {vs : List String} {c : Criteria}
    (hc : buildCriteria P [.comparison name op vs] = .ok c) :
    doesTaskMatchCriteria G g task c = .ok false := by
  obtain ⟨field, hfield, rfl⟩ := buildCriteria_comparison_ok hc
  rw [doesTaskMatchCriteria_single]
  simp only [projectOnlyFields, List.mem_cons, List.not_mem_nil, or_false] at hname
  -- the enum fields are built from the parsed values, the others from the listed strings
  rcases hname with rfl | rfl | rfl | rfl | rfl | rfl | rfl | rfl | rfl | rfl
  · obtain ⟨-, langs, rfl⟩ := buildField_enum_ok hfield
    rfl
  · cases hfield; rfl
  · cases hfield; rfl
  · obtain ⟨-, types, rfl⟩ := buildField_enum_ok hfield
    rfl
  · cases hfield; rfl
  · cases hfield; rfl
  · obtain ⟨-, types, rfl⟩ := buildField_enum_ok hfield
    rfl
  · cases hfield; rfl
  · cases hfield; rfl
  · cases hfield; rfl

end Semantics

/-! ## Negation, field by field -/

/-- For a query of one comparison, `!=` negates `=` (and `!~` negates `~`) on the fields with one
value, of a project or of a task; on the string fields `=` and `!=` are both existentials over the
values held; and a task never matches on a field of a project other than `project`. -/
theorem comparison_negates_only_single_valued_fields (P : EnumParsers) (G : GlobApi)
    (g : WorkspaceGraph) :
    (∀ (project : Project) (name : String), name ∈ singleValuedProjectFields →
      ∀ (op : ComparisonOperator) (vs : List String) (c c' : Criteria),
        buildCriteria P [.comparison name op vs] = .ok c →
        buildCriteria P [.comparison name op.negate vs] = .ok c' →
        doesProjectMatchCriteria G g project c' = (!·) <$> doesProjectMatchCriteria G g project c) ∧
    (∀ (task : Task) (name : String), name ∈ singleValuedTaskFields →
      ∀ (op : ComparisonOperator) (vs : List String) (c c' : Criteria),
        buildCriteria P [.comparison name op vs] = .ok c →
        buildCriteria P [.comparison name op.negate vs] = .ok c' →
        doesTaskMatchCriteria G g task c' = (!·) <$> doesTaskMatchCriteria G g task c) ∧
    (∀ (project : Project) (name : String) (items : List String),
      projectFieldValues project name = some items →
      ∀ (op : ComparisonOperator), (op = .equal ∨ op = .notEqual) →
      ∀ (vs : List String) (c : Criteria), buildCriteria P [.comparison name op vs] = .ok c →
        doesProjectMatchCriteria G g project c
          = .ok (decide (∃ x ∈ items, (x ∈ vs ↔ op = .equal)))) ∧
    (∀ (task : Task) (name : String) (items : List String),
      taskFieldValues task name = some items →
      ∀ (op : ComparisonOperator), (op = .equal ∨ op = .notEqual) →
      ∀ (vs : List String) (c : Criteria), buildCriteria P [.comparison name op vs] = .ok c →
        doesTaskMatchCriteria G g task c = .ok (decide (∃ x ∈ items, (x ∈ vs ↔ op = .equal)))) ∧
    (∀ (task : Task) (name : String), name ∈ projectOnlyFields →
      ∀ (op : ComparisonOperator) (vs : List String) (c : Criteria),
        buildCriteria P [.comparison name op vs] = .ok c →
        doesTaskMatchCriteria G g task c = .ok false) := by
  refine ⟨?_, ?_, ?_, ?_, ?_⟩
  · intro project name hname op vs c c' hc hc'
    exact doesProjectMatchCriteria_negate P G g project hname hc hc'
  · intro task name hname op vs c c' hc hc'
    exact doesTaskMatchCriteria_negate P G g task hname hc hc'
  · intro project name items hitems op hop vs c hc
    exact doesProjectMatchCriteria_of_values P G g project hitems hop hc
  · intro task name items hitems op hop vs c hc
    exact doesTaskMatchCriteria_of_values P G g task hitems hop hc
  · intro task name hname op vs c hc
    exact doesTaskMatchCriteria_projectOnly P G g task hname hc

/-- The five parts at one workspace: a project `app` tagged `foo` and `bar`, and its task
`app:build` tagged `ci`; the parsers, the glob sets and the graph know nothing. -/
theorem comparison_semantics_at_app :
    let G : GlobApi := ⟨fun _ ↦ .error "no globs"⟩
    let g : WorkspaceGraph := ⟨fun _ ↦ .error "no projects", fun _ ↦ .error "no tasks"⟩
    let project : Project := { id := "app", config := { tags := ["foo", "bar"] } }
    let task : Task := { id := "build", tags := ["ci"], target := ⟨"app:build", .id, .id, 3⟩ }
    doesProjectMatchCriteria G g project (.mk .and [.field (.projectId ["app"]) .notEqual])
        = (!·) <$> doesProjectMatchCriteria G g project
          (.mk .and [.field (.projectId ["app"]) .equal]) ∧
      doesTaskMatchCriteria G g task (.mk .and [.field (.task ["build"]) .notLike])
        = (!·) <$> doesTaskMatchCriteria G g task (.mk .and [.field (.task ["build"]) .like]) ∧
      doesProjectMatchCriteria G g project (.mk .and [.field (.projectTag ["foo"]) .notEqual])
        = .ok (decide (∃ x ∈ ["foo", "bar"], (x ∈ ["foo"] ↔ ComparisonOperator.notEqual = .equal))) ∧
      doesTaskMatchCriteria G g task (.mk .and [.field (.taskTag ["ci"]) .equal])
        = .ok (decide (∃ x ∈ ["ci"], (x ∈ ["ci"] ↔ ComparisonOperator.equal = .equal))) ∧
      doesTaskMatchCriteria G g task (.mk .and [.field (.projectTag ["foo"]) .equal]) = .ok false := by
  intro G g project task
  obtain ⟨hneg, htaskNeg, hvalues, htaskValues, hprojectOnly⟩ :=
    comparison_negates_only_single_valued_fields
      ⟨fun _ ↦ none, fun _ ↦ none, fun _ ↦ none, fun _ ↦ none⟩ G g
  exact ⟨hneg project "projectId" (by decide) .equal ["app"] _ _ rfl rfl,
    htaskNeg task "task" (by decide) .like ["build"] _ _ rfl rfl,
    hvalues project "projectTag" ["foo", "bar"] rfl .notEqual (.inr rfl) ["foo"] _ rfl,
    htaskValues task "taskTag" ["ci"] rfl .equal (.inl rfl) ["ci"] _ rfl,
    hprojectOnly task "projectTag" (by decide) .equal ["foo"] _ rfl⟩

/-- A project tagged `foo` and `bar` matches both `projectTag=foo` and `projectTag!=foo`: on a
field with many values `!=` is not the negation of `=`. -/
theorem projectTag_notEqual_matches_tagged_project :
    let P : EnumParsers := ⟨fun _ ↦ none, fun _ ↦ none, fun _ ↦ none, fun _ ↦ none⟩
    let G : GlobApi := ⟨fun _ ↦ .error "no globs"⟩
    let g : WorkspaceGraph := ⟨fun _ ↦ .error "no projects", fun _ ↦ .error "no tasks"⟩
    let project : Project := { id := "app", config := { tags := ["foo", "bar"] } }
    buildCriteria P [.comparison "projectTag" .equal ["foo"]]
        = .ok (.mk .and [.field (.projectTag ["foo"]) .equal]) ∧
      buildCriteria P [.comparison "projectTag" .notEqual ["foo"]]
        = .ok (.mk .and [.field (.projectTag ["foo"]) .notEqual]) ∧
      doesProjectMatchCriteria G g project (.mk .and [.field (.projectTag ["foo"]) .equal])
        = .ok true ∧
      doesProjectMatchCriteria G g project (.mk .and [.field (.projectTag ["foo"]) .notEqual])
        = .ok true := by
  intro P G g project
  exact ⟨rfl, rfl, rfl, rfl⟩

end Moon.Query
