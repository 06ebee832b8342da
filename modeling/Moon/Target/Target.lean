import Moon.Lib.Outcome
import Moon.Lib.Str

/-!
# Targets

A `Target` (`crates/target/src/target.rs`) names a task: `project:task`, where either half may be
a scope instead of an identifier — `:task` for every project, `^:task` for the dependencies of the
current project, `#tag:task` for the projects with a tag, `~:task` for the project itself, and
`project:#tag` for the tasks of a project with a tag.

The struct stores the whole string `id` and, next to it, the byte index of the `:` separator as a
`u8`, so that the two halves are slices of `id` rather than strings of their own.  The accessors
`get_project_scope` and `get_task_scope` do the slicing, and it is a Rust slice: it panics when the
index is not a character boundary of `id`.  The model keeps that — `Target.getProjectScope` and
`Target.getTaskScope` return `none` where the code panics — because nothing in the struct itself
ties `index` to `id`.  Which constructors establish that tie is a question about `Target::new` and
`Target::parse`, not about the accessors.

The project and task scopes are `TargetProjectScope` and `TargetTaskScope`, with the variants of
`crates/target/src/target_scope.rs`.  The identifiers themselves are plain strings here.
-/

set_option autoImplicit false

namespace Moon

/-- `TargetDependencyScope`: which dependencies a `^scope:task` target ranges over. -/
inductive TargetDependencyScope where
  | build
  | development
  | peer
  | production
  deriving DecidableEq, Repr

/-- `TargetProjectScope`: what stands before the `:` of a target. -/
inductive TargetProjectScope where
  /-- `:task` -/
  | all
  /-- `^:task` -/
  | deps
  /-- `^build:task`, `^development:task`, … -/
  | depsOf (scope : TargetDependencyScope)
  /-- `project:task` -/
  | id
  /-- `~:task` -/
  | ownSelf
  /-- `#tag:task` -/
  | tag
  deriving DecidableEq, Repr

/-- `TargetTaskScope`: what stands after the `:` of a target. -/
inductive TargetTaskScope where
  /-- `project:task` -/
  | id
  /-- `project:#tag` -/
  | tag
  deriving DecidableEq, Repr

/-- The variants of `TargetError` that the modelled functions raise, with their payloads. -/
inductive TargetError where
  | invalidFormat (id : String)
  | noDepsInRunContext
  | noSelfInRunContext
  | projectScopeRequired (id : String)
  | taskScopeRequired (id : String)
  | tooWild
  deriving DecidableEq, Repr

/-- `Target`: the full identifier, the two scopes, and the byte index of the `:` separator. -/
structure Target where
  id : String
  project : TargetProjectScope
  task : TargetTaskScope
  index : UInt8
  deriving DecidableEq, Repr

/-- `str::trim_start_matches` with a character pattern: drop every leading copy of `c`. -/
def trimStartMatches (c : Char) (s : String) : String :=
  String.ofList (s.toList.dropWhile (· == c))

/-- `str::strip_prefix` with a character pattern. -/
def stripPrefix (c : Char) (s : String) : Option String :=
  match s.toList with
  | c' :: rest => if c' = c then some (String.ofList rest) else none
  | [] => none

/-- What `starbase_id` decides, a parameter of the model: the characters of `ID_CHARS` and
`ID_SYMBOLS`.  `ID_CHARS` holds the ASCII letters and digits, and `:`, which separates the two
halves of a target, is never one of them. -/
structure IdRules where
  isIdChar : Char → Bool
  alnum : ∀ c : Char, c.isAlphanum = true → isIdChar c = true
  colon : isIdChar ':' = false

/-- `Id::new`, taken to accept exactly the strings of identifier characters. -/
def IdRules.idNew (rules : IdRules) (id : String) : Bool := id.toList.all rules.isIdChar

/-- `TargetProjectScope::parse`; `none` where `Id::new` fails. -/
def TargetProjectScope.parse (rules : IdRules) (value : String) : Option TargetProjectScope :=
  match value with
  | "" => some .all
  | "^" => some .deps
  | "^build" => some (.depsOf .build)
  | "^dev" | "^development" => some (.depsOf .development)
  | "^peer" => some (.depsOf .peer)
  | "^prod" | "^production" => some (.depsOf .production)
  | "~" => some .ownSelf
  | value =>
    match stripPrefix '#' value with
    | some tagId => if rules.idNew tagId then some .tag else none
    | none => if rules.idNew value then some .id else none

/-- `TargetTaskScope::parse`; `none` where `Id::new` fails. -/
def TargetTaskScope.parse (rules : IdRules) (value : String) : Option TargetTaskScope :=
  match stripPrefix '#' value with
  | some tagId => if rules.idNew tagId then some .tag else none
  | none => if rules.idNew value then some .id else none

/-- The `project` group of `TARGET_PATTERN`: an identifier that starts with an ASCII letter, `@`,
`#` or `_`, a `^` with one of the dependency scopes or none, or `~`. -/
def projectPatternMatches (rules : IdRules) : List Char → Bool
  | ['~'] => true
  | '^' :: scope =>
    scope ∈ ["", "build", "development", "dev", "peer", "production", "prod"].map String.toList
  | c :: rest => (c.isAlpha || c == '@' || c == '#' || c == '_') && rest.all rules.isIdChar
  | [] => false

/-- The `task` group of `TARGET_PATTERN`: an optional `#`, then at least one identifier
character. -/
def taskPatternMatches (rules : IdRules) (task : List Char) : Bool :=
  let idPlus (cs : List Char) := !cs.isEmpty && cs.all rules.isIdChar
  (match task with
    | '#' :: rest => idPlus rest
    | _ => false) || idPlus task

/-- `TARGET_PATTERN.captures`.  Neither group can hold a `:`, so a match splits the text at its
first `:`; the project group is optional and reads as the empty string when absent. -/
def targetPattern (rules : IdRules) (cs : List Char) : Option (List Char × List Char) :=
  let project := cs.takeWhile (· != ':')
  match cs.drop project.length with
  | ':' :: task =>
    if (project.isEmpty || projectPatternMatches rules project) && taskPatternMatches rules task
    then some (project, task) else none
  | _ => none

namespace Target

/-- `Target::get_project_scope`: the project half `&id[0..index]`, with a leading `^` or `#`
trimmed for the dependency and tag scopes, and the empty string for the other non-`Id` scopes.
The slice is taken before the scope is looked at, so it panics (`none`) whatever the scope. -/
def getProjectScope (t : Target) : Option (TargetProjectScope × String) :=
  (Str.slice t.id 0 t.index.toNat).map fun project ↦
    match t.project with
    | .depsOf scope => (.depsOf scope, trimStartMatches '^' project)
    | .id => (.id, project)
    | .tag => (.tag, trimStartMatches '#' project)
    | scope => (scope, "")

/-- `Target::get_task_scope`: the task half `&id[index + 1..]`, a tag when it starts with `#`. -/
def getTaskScope (t : Target) : Option (TargetTaskScope × String) :=
  (Str.sliceFrom t.id (t.index.toNat + 1)).map fun value ↦
    match stripPrefix '#' value with
    | some tag => (.tag, tag)
    | none => (.id, value)

/-- `Target::get_project_id`: the project half, when the project scope is `Id`. -/
def getProjectId (t : Target) : Outcome TargetError String :=
  match t.getProjectScope with
  | some (.id, value) => .ok value
  | some _ => .err (.projectScopeRequired t.id)
  | none => .panic

/-- `Target::get_task_id`: the task half, when the task scope is `Id`. -/
def getTaskId (t : Target) : Outcome TargetError String :=
  match t.getTaskScope with
  | some (.id, value) => .ok value
  | some _ => .err (.taskScopeRequired t.id)
  | none => .panic

/-- `Target::new`: the index is the byte length of the project id, cast to `u8`. -/
def new (rules : IdRules) (projectId taskId : String) : Except TargetError Target :=
  let id := projectId ++ ":" ++ taskId
  match TargetProjectScope.parse rules projectId, TargetTaskScope.parse rules taskId with
  | some project, some task => .ok ⟨id, project, task, UInt8.ofNat (Str.byteLen projectId)⟩
  | _, _ => .error (.invalidFormat id)

/-- `Target::new_self`: `~:task`. -/
def newSelf (rules : IdRules) (taskId : String) : Except TargetError Target :=
  let id := "~:" ++ taskId
  match TargetTaskScope.parse rules taskId with
  | some task => .ok ⟨id, .ownSelf, task, 1⟩
  | none => .error (.invalidFormat id)

/-- `Target::parse`. -/
def parse (rules : IdRules) (targetId : String) : Except TargetError Target :=
  if targetId = ":" then .error .tooWild
  else if ':' ∉ targetId.toList then newSelf rules targetId
  else
    match targetPattern rules targetId.toList with
    | none => .error (.invalidFormat targetId)
    | some (project, task) => new rules (String.ofList project) (String.ofList task)

/-- `Target::parse_strict`: a target must name its project scope. -/
def parseStrict (rules : IdRules) (targetId : String) : Except TargetError Target :=
  if ':' ∉ targetId.toList then .error (.projectScopeRequired targetId)
  else parse rules targetId

/-- `Target::get_project_tag`. -/
def getProjectTag (t : Target) : Option (Option String) :=
  t.getProjectScope.map fun
    | (.tag, value) => some value
    | _ => none

/-- `Target::get_task_tag`. -/
def getTaskTag (t : Target) : Option (Option String) :=
  t.getTaskScope.map fun
    | (.tag, value) => some value
    | _ => none

/-- `Target::is_all_task`: an `All` target whose task id is the given one, with or without a
leading `:`.  Reading the task id may panic, as `get_task_id` does. -/
def isAllTask (t : Target) (taskId : String) : Outcome TargetError Bool :=
  if t.project = .all then
    match t.getTaskId with
    | .ok innerId =>
      .ok (match stripPrefix ':' taskId with
        | some id => innerId == id
        | none => innerId == taskId)
    | .err _ => .ok false
    | .panic => .panic
  else .ok false

/-- `Target::is_fully_qualified`. -/
def isFullyQualified (t : Target) : Bool :=
  (t.project == .id || t.project == .ownSelf) && t.task == .id

/-! ## Reading back what `Target::new` stored -/

theorem stripPrefix_eq_none {c : Char} {s : String} (h : s.toList.head? ≠ some c) :
    stripPrefix c s = none := by
  unfold stripPrefix
  split
  · next c' rest hs =>
    rw [hs] at h
    exact if_neg fun hc ↦ h (by simp [hc])
  · rfl

theorem IdRules.idNew_of_alnum {rules : IdRules} {id : String}
    (h : ∀ c ∈ id.toList, c.isAlphanum = true) : rules.idNew id = true :=
  List.all_eq_true.2 fun c hc ↦ rules.alnum c (h c hc)

/-- A value that starts with an ASCII letter is none of the literal scopes, so it is an `Id`
scope when `Id::new` accepts it. -/
theorem TargetProjectScope.parse_of_idNew {rules : IdRules} {value : String} {c : Char}
    {rest : List Char} (hv : value.toList = c :: rest) (hc : c.isAlpha = true)
    (hid : rules.idNew value = true) : TargetProjectScope.parse rules value = some .id := by
  have hstrip : stripPrefix '#' value = none :=
    stripPrefix_eq_none (by rw [hv]; rintro ⟨⟩; revert hc; decide)
  unfold TargetProjectScope.parse
  split
  -- the literal scopes are empty or start with `^` or `~`
  all_goals first
    | (simp at hv; done)
    | (simp at hv; obtain ⟨rfl, -⟩ := hv; revert hc; decide)
    | (rw [hstrip]; simp [hid])

theorem TargetTaskScope.parse_of_idNew {rules : IdRules} {value : String}
    (hv : value.toList.head? ≠ some '#') (hid : rules.idNew value = true) :
    TargetTaskScope.parse rules value = some .id := by
  rw [TargetTaskScope.parse, stripPrefix_eq_none hv, if_pos hid]

/-- A task scope is a tag exactly when the value starts with `#`. -/
theorem TargetTaskScope.parse_eq_some {rules : IdRules} {value : String} {task : TargetTaskScope}
    (h : TargetTaskScope.parse rules value = some task) :
    task = if (stripPrefix '#' value).isSome then .tag else .id := by
  unfold TargetTaskScope.parse at h
  split at h
  · next tagId hs =>
    split_ifs at h
    cases h
    simp [hs]
  · next hs =>
    split_ifs at h
    cases h
    simp [hs]

theorem toList_join (p k : String) : (p ++ ":" ++ k).toList = p.toList ++ ':' :: k.toList := by
  simp

/-- The bytes before the separator of `p:k` are `p`. -/
theorem slice_join (p k : String) : Str.slice (p ++ ":" ++ k) 0 (Str.byteLen p) = some p := by
  rw [Str.slice, if_pos (Nat.zero_le _), toList_join, Str.dropBytes, Option.bind_some,
    Nat.sub_zero, Str.byteLen, Str.takeBytes_append]
  simp

/-- The separator of `p:k` is the byte after `p`. -/
theorem sliceFrom_join (p k : String) :
    Str.sliceFrom (p ++ ":" ++ k) (Str.byteLen p) = some (":" ++ k) := by
  rw [Str.sliceFrom, toList_join, Str.byteLen, Str.dropBytes_append]
  simp

/-- The bytes after the separator of `p:k` are `k`. -/
theorem sliceFrom_join_succ (p k : String) :
    Str.sliceFrom (p ++ ":" ++ k) (Str.byteLen p + 1) = some k := by
  have hlist : (p ++ ":" ++ k).toList = (p.toList ++ [':']) ++ k.toList := by simp
  have hbytes : Str.byteLen p + 1 = ((p.toList ++ [':']).map Char.utf8Size).sum := by
    simp only [Str.byteLen, List.map_append, List.sum_append]
    rfl
  rw [Str.sliceFrom, hlist, hbytes, Str.dropBytes_append]
  simp

/-- What `Target::new` stores: the joined id, the byte length of the project id cast to `u8`,
and the two scopes. -/
theorem new_eq_ok {rules : IdRules} {p k : String} {t : Target} (h : new rules p k = .ok t) :
    t.id = p ++ ":" ++ k ∧ t.index = UInt8.ofNat (Str.byteLen p) ∧
      TargetProjectScope.parse rules p = some t.project ∧
      TargetTaskScope.parse rules k = some t.task := by
  unfold new at h
  split at h
  · next project task hp hk =>
    cases h
    exact ⟨rfl, rfl, hp, hk⟩
  · cases h

section Short

variable {rules : IdRules} {p k : String} {t : Target} (h : new rules p k = .ok t)
  (hlen : Str.byteLen p < 256)
include h hlen

theorem index_new : t.index.toNat = Str.byteLen p := by
  rw [(new_eq_ok h).2.1, UInt8.toNat_ofNat']
  exact Nat.mod_eq_of_lt hlen

/-- **Below 256 bytes of project id, the index is the separator**: the byte at the index is the
`:`, the bytes before it the project id and the bytes after it the task id. -/
theorem new_slices :
    Str.sliceFrom t.id t.index.toNat = some (":" ++ k) ∧
      Str.slice t.id 0 t.index.toNat = some p ∧
      Str.sliceFrom t.id (t.index.toNat + 1) = some k := by
  rw [index_new h hlen, (new_eq_ok h).1]
  exact ⟨sliceFrom_join p k, slice_join p k, sliceFrom_join_succ p k⟩

theorem getTaskScope_new : t.getTaskScope = some (t.task, (stripPrefix '#' k).getD k) := by
  have hslice := (new_slices h hlen).2.2
  have htask := TargetTaskScope.parse_eq_some (new_eq_ok h).2.2.2
  rw [getTaskScope, hslice, Option.map_some]
  cases hs : stripPrefix '#' k <;> simp_all

end Short

/-- A project id of 256 bytes stores the index 0: the project half reads as empty, and
`Target::new` of the halves it reads back is another target. -/
theorem long_project_id_loses_its_scope (rules : IdRules) :
    ∃ t, new rules (String.ofList (List.replicate 256 'a')) "build" = .ok t ∧ t.index = 0 ∧
      t.getProjectId = .ok "" ∧ new rules "" "build" ≠ .ok t := by
  have hchars : (String.ofList (List.replicate 256 'a')).toList = List.replicate 256 'a' :=
    String.toList_ofList
  have hbytes : Str.byteLen (String.ofList (List.replicate 256 'a')) = 256 := by
    rw [Str.byteLen, hchars, List.map_replicate, List.sum_replicate]
    rfl
  have hp : TargetProjectScope.parse rules (String.ofList (List.replicate 256 'a')) = some .id :=
    TargetProjectScope.parse_of_idNew (hchars.trans rfl) rfl
      (IdRules.idNew_of_alnum fun c hc ↦ by
        rw [hchars] at hc
        rw [List.eq_of_mem_replicate hc]
        rfl)
  have hk : TargetTaskScope.parse rules "build" = some .id :=
    TargetTaskScope.parse_of_idNew (by decide)
      (IdRules.idNew_of_alnum (List.all_eq_true.1 rfl))
  refine ⟨⟨String.ofList (List.replicate 256 'a') ++ ":" ++ "build", .id, .id, 0⟩, ?_, rfl, ?_, ?_⟩
  · rw [new, hp, hk, hbytes]
    rfl
  · -- the project half is the first 0 bytes
    have hslice : Str.slice (String.ofList (List.replicate 256 'a') ++ ":" ++ "build") 0 0
        = some "" := by
      rw [Str.slice, if_pos (Nat.le_refl 0), Str.dropBytes, Option.bind_some, Str.takeBytes]
      rfl
    unfold getProjectId getProjectScope
    dsimp only
    rw [UInt8.toNat_zero, hslice]
    rfl
  · rw [new, hk]
    intro hnew
    have hid := congrArg (fun s : String ↦ s.toList.length) (congrArg Target.id (Except.ok.inj hnew))
    simp only [toList_join, hchars, String.toList_empty, List.length_append, List.length_nil,
      List.length_cons, List.length_replicate] at hid
    omega

/-! ## Parsing what `Target::new` built -/

theorem not_colon_of_projectPatternMatches {rules : IdRules} {cs : List Char}
    (h : projectPatternMatches rules cs = true) : ':' ∉ cs := by
  unfold projectPatternMatches at h
  split at h
  · decide
  · simp only [decide_eq_true_eq, List.map_cons, List.map_nil, List.mem_cons, List.not_mem_nil,
      or_false] at h
    rcases h with rfl | rfl | rfl | rfl | rfl | rfl | rfl <;> decide
  · next c rest _ _ =>
    simp only [Bool.and_eq_true] at h
    obtain ⟨hc, hrest⟩ := h
    intro hmem
    rcases List.mem_cons.1 hmem with rfl | hmem
    · revert hc
      decide
    · exact absurd (List.all_eq_true.1 hrest ':' hmem) (by simp [rules.colon])
  · cases h

theorem not_colon_of_taskPatternMatches {rules : IdRules} {cs : List Char}
    (h : taskPatternMatches rules cs = true) : ':' ∉ cs ∧ cs ≠ [] := by
  -- what `[ID]+` matches is not empty and has no `:`
  have hid : ∀ {ds : List Char}, (!ds.isEmpty && ds.all rules.isIdChar) = true →
      ':' ∉ ds ∧ ds ≠ [] := by
    intro ds hds
    simp only [Bool.and_eq_true, Bool.not_eq_eq_eq_not, Bool.not_true, List.isEmpty_eq_false_iff,
      List.all_eq_true] at hds
    exact ⟨fun hmem ↦ absurd (hds.2 ':' hmem) (by simp [rules.colon]), hds.1⟩
  unfold taskPatternMatches at h
  simp only [Bool.or_eq_true] at h
  rcases h with h | h
  · split at h
    · obtain ⟨hc, -⟩ := hid h
      exact ⟨by simpa using hc, List.cons_ne_nil _ _⟩
    · cases h
  · exact hid h

theorem targetPattern_join {rules : IdRules} {p k : List Char}
    (hp : p = [] ∨ projectPatternMatches rules p = true) (hk : taskPatternMatches rules k = true) :
    targetPattern rules (p ++ ':' :: k) = some (p, k) := by
  have hpc : ':' ∉ p := by
    rcases hp with rfl | hp
    · simp
    · exact not_colon_of_projectPatternMatches hp
  have htake : (p ++ ':' :: k).takeWhile (· != ':') = p := by
    rw [List.takeWhile_append_of_pos fun c hc ↦ by simpa using ne_of_mem_of_not_mem hc hpc]
    simp
  have hcond : (p.isEmpty || projectPatternMatches rules p) = true := by
    rcases hp with rfl | hp
    · rfl
    · simp [hp]
  unfold targetPattern
  dsimp only
  rw [htake, List.drop_left' rfl]
  simp only
  rw [if_pos (by simp [hcond, hk])]

/-- **A target `Target::new` builds parses back to itself**, for project ids of every length,
when its two halves are of the forms `TARGET_PATTERN` accepts. -/
theorem parse_id_of_new {rules : IdRules} {p k : String} {t : Target} (h : new rules p k = .ok t)
    (hp : p = "" ∨ projectPatternMatches rules p.toList = true)
    (hk : taskPatternMatches rules k.toList = true) : parse rules t.id = .ok t := by
  have hid := (new_eq_ok h).1
  have hne := (not_colon_of_taskPatternMatches hk).2
  have hwild : t.id ≠ ":" := by
    intro hcolon
    have hlen := congrArg (fun s : String ↦ s.toList.length) (hid.symm.trans hcolon)
    have hcolon : (":" : String).toList.length = 1 := rfl
    have hpos := List.length_pos_of_ne_nil hne
    simp only [toList_join, List.length_append, List.length_cons, hcolon] at hlen
    omega
  have hsep : ':' ∈ t.id.toList := by simp [hid]
  have hpat : targetPattern rules t.id.toList = some (p.toList, k.toList) := by
    rw [hid, toList_join]
    exact targetPattern_join (hp.imp (by rintro rfl; rfl) fun hp ↦ hp) hk
  rw [parse, if_neg hwild, if_neg (not_not.2 hsep), hpat]
  simpa using h

/-- `app:build`, under the rules of ASCII letters and digits, parses back to the target `new`
builds. -/
theorem app_build_parses_back :
    new ⟨Char.isAlphanum, fun _ h ↦ h, rfl⟩ "app" "build" = .ok ⟨"app:build", .id, .id, 3⟩ ∧
      parse ⟨Char.isAlphanum, fun _ h ↦ h, rfl⟩ "app:build" = .ok ⟨"app:build", .id, .id, 3⟩ :=
  have hnew : new ⟨Char.isAlphanum, fun _ h ↦ h, rfl⟩ "app" "build" =
      .ok ⟨"app:build", .id, .id, 3⟩ := by
    rfl
  ⟨hnew, parse_id_of_new hnew (.inr (by decide)) (by decide)⟩

end Target

/-- `TargetLocator`: a bare task id, a glob over projects and tasks, or a qualified target.  A glob
match has a project scope when its project part is one (`*` and the like give `All`), and a
project glob otherwise. -/
inductive TargetLocator where
  | defaultProject (id : String)
  | globMatch (original : String) (project : Option TargetProjectScope)
      (projectGlob : Option String) (taskGlob : String)
  | qualified (target : Target)
  deriving DecidableEq, Repr

end Moon
