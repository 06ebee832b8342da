import Moon.Lib.Path
import Moon.Lib.Merge
import Moon.Lib.Str

/-!
# Reading `git status -z` and `git diff -z`: `GitTree`

`crates/vcs/src/git/tree.rs`, with the patterns of `crates/vcs/src/git/common.rs`.  With `-z`, git
ends every field with a NUL byte and prints paths as they are, so a path may hold anything but a
NUL — a space, a newline, or text that looks like another entry.

* `git status --porcelain -z` prints `XY path` for an entry, and `XY path` then the original path
  for a rename or a copy.  `exec_status` splits the output on NUL and walks the tokens: an empty
  token or one `STATUS_PATTERN` does not match is skipped, an entry is read, and after a rename
  or a copy the next token is taken as its original path.
* `git diff --name-status -z` prints a status letter, then a path.  `exec_diff` takes a token
  `DIFF_PATTERN` matches as a status and the next one as its path.

Each loop regains its place only by what it skips and what it takes next.  The results here say
that on what git prints the place is never lost: `execStatus_serialize` and `execDiff_serialize`
compute each loop on the printed list of entries, and it writes, in order, exactly what each
entry stands for (`StatusEntry.writes`, `DiffEntry.writes`) — so an original path is never read
as an entry, no entry is skipped, and a key holds what the last entry that wrote it gave.  The
status loop slices `token[3..]`, which panics unless byte 3 is a character boundary; on an entry
it never does, since the two letters and the space are ASCII.

The maps are `FxHashMap`s keyed by `PathBuf`; their keys here are component lists (`PathBuf`
equality compares components), and `IndexMap` gives them the semantics of `insert` and `get`.
-/

set_option autoImplicit false

namespace Moon

open StdPath

/-! ## Tokens ended by a separator -/

section Terminated

variable {α : Type} [DecidableEq α]

/-- Splitting fields that each end with the separator, none holding it, gives the fields back, and
an empty field after the last separator. -/
theorem splitOn_flatMap_terminated (d : α) :
    ∀ {fields : List (List α)}, (∀ f ∈ fields, d ∉ f) →
      (fields.flatMap (· ++ [d])).splitOn d = fields ++ [[]]
  | [], _ => rfl
  | f :: fields, h => by
    rw [List.flatMap_cons, List.append_assoc, List.singleton_append,
      List.splitOn_append_cons_self_of_not_mem (h f List.mem_cons_self),
      splitOn_flatMap_terminated d fun f' hf' ↦ h f' (List.mem_cons_of_mem f hf')]
    rfl

end Terminated

/-! ## Statuses -/

/-- `ChangedStatus`. -/
inductive ChangedStatus where
  | added | all | deleted | modified | staged | unstaged | untracked
  deriving DecidableEq, Repr

/-- A status letter of `STATUS_PATTERN`: `M`, `T`, `A`, `D`, `R`, `C`, `U`, `?`, `!` or a
space. -/
def isStatusChar (c : Char) : Bool := ['M', 'T', 'A', 'D', 'R', 'C', 'U', '?', '!', ' '].contains c

/-- `STATUS_PATTERN.is_match`: two status letters and a space at the front of the token. -/
def statusPatternMatches : List Char → Bool
  | x :: y :: s :: _ => isStatusChar x && isStatusChar y && s == ' '
  | _ => false

/-- `DIFF_PATTERN.is_match`: the token is one of `A`, `D`, `M`, `T`, `U`, `X`. -/
def diffPatternMatches : List Char → Bool
  | [c] => ['A', 'D', 'M', 'T', 'U', 'X'].contains c
  | _ => false

/-- The statuses `exec_status` reads off the index letter `X`. -/
def indexStatuses : Char → List ChangedStatus
  | 'A' | 'C' => [.added, .staged]
  | 'D' => [.deleted, .staged]
  | 'M' | 'R' | 'T' => [.modified, .staged]
  | 'U' => [.unstaged]
  | _ => []

/-- The statuses `exec_status` reads off the work-tree letter `Y`. -/
def worktreeStatuses : Char → List ChangedStatus
  | 'A' | 'C' => [.added, .unstaged]
  | 'D' => [.deleted, .unstaged]
  | 'M' | 'R' | 'T' => [.modified, .unstaged]
  | 'U' => [.unstaged]
  | '?' => [.untracked]
  | _ => []

/-- The statuses `exec_diff` reads off its letter. -/
def diffStatuses : Char → List ChangedStatus
  | 'A' => [.added, .staged]
  | 'D' => [.deleted, .staged]
  | 'M' | 'T' => [.modified, .staged]
  | 'U' => [.unstaged]
  | _ => []

theorem isAscii_of_isStatusChar {c : Char} (h : isStatusChar c = true) : Str.IsAscii c := by
  simp only [isStatusChar, List.contains_iff_mem, List.mem_cons, List.not_mem_nil,
    or_false] at h
  rcases h with rfl | rfl | rfl | rfl | rfl | rfl | rfl | rfl | rfl | rfl <;> rfl

/-- The changed files, by path: a `FxHashMap<PathBuf, Vec<ChangedStatus>>`. -/
abbrev ChangedFiles := List (List Component × List ChangedStatus)

/-! ## The loops -/

section Loops

variable (workDir : List Component)

/-- The loop of `exec_status` over the tokens, from the files read so far: `none` is the panic of
the slice `token[3..]`.  (`chars().next().unwrap_or_default()` reads a missing letter as NUL.) -/
def statusLoop : List (List Char) → ChangedFiles → Option ChangedFiles
  | [], files => some files
  | token :: tokens, files =>
    if token.isEmpty then statusLoop tokens files
    -- an unknown token: the original path of an entry is consumed below
    else if !statusPatternMatches token then statusLoop tokens files
    else
      let x := token.head?.getD '\x00'
      let y := (token.drop 1).head?.getD '\x00'
      match Str.dropBytes token 3 with
      | none => none
      | some path =>
        let file := join workDir (parse (String.ofList path))
        let statuses := indexStatuses x ++ worktreeStatuses y
        if x = 'R' ∨ x = 'C' ∨ y = 'R' ∨ y = 'C' then
          match tokens with
          | orig :: tokens =>
            -- the original path of a rename no longer exists: it is deleted
            let files :=
              if orig ≠ [] ∧ (x = 'R' ∨ y = 'R') then
                IndexMap.insert files (join workDir (parse (String.ofList orig)))
                  [.deleted, if x = 'R' then .staged else .unstaged]
              else files
            statusLoop tokens (IndexMap.insert files file statuses)
          -- no token left for the original path: the loop ends after this entry
          | [] => some (IndexMap.insert files file statuses)
        else statusLoop tokens (IndexMap.insert files file statuses)

/-- `GitTree::exec_status` on the output of `git status --porcelain -z`. -/
def execStatus (stdout : List Char) : Option ChangedFiles :=
  if stdout.isEmpty then some [] else statusLoop workDir (stdout.splitOn '\x00') []

/-- The loop of `exec_diff` over the tokens, from the files read so far.  The token after a status
is its path, and is taken even when it is empty. -/
def diffLoop : List (List Char) → ChangedFiles → ChangedFiles
  | [], files => files
  | token :: tokens, files =>
    if token.isEmpty then diffLoop tokens files
    else if !diffPatternMatches token then diffLoop tokens files
    else
      let statuses := diffStatuses (token.head?.getD '\x00')
      match tokens with
      | path :: tokens =>
        if path.isEmpty then diffLoop tokens files
        else
          diffLoop tokens
            (IndexMap.insert files (join workDir (parse (String.ofList path))) statuses)
      | [] => files

/-- `GitTree::exec_diff` on the output of `git diff --name-status -z`. -/
def execDiff (stdout : List Char) : ChangedFiles :=
  if stdout.isEmpty then [] else diffLoop workDir (stdout.splitOn '\x00') []

end Loops

/-! ## What git prints -/

/-- An entry of `git status --porcelain -z`: the index and work-tree letters, the path, and the
original path of a rename or a copy. -/
structure StatusEntry where
  x : Char
  y : Char
  path : List Char
  orig : Option (List Char)

namespace StatusEntry

/-- A rename or a copy, in the index or the work tree. -/
def IsRenameOrCopy (e : StatusEntry) : Prop := e.x = 'R' ∨ e.x = 'C' ∨ e.y = 'R' ∨ e.y = 'C'

/-- An entry as git prints it: letters of `STATUS_PATTERN`, paths that are not empty and hold no
NUL, and an original path exactly for a rename or a copy. -/
structure Valid (e : StatusEntry) : Prop where
  x : isStatusChar e.x = true
  y : isStatusChar e.y = true
  path_ne_nil : e.path ≠ []
  nul_not_mem_path : '\x00' ∉ e.path
  orig_isSome : e.orig.isSome ↔ e.IsRenameOrCopy
  orig_valid : ∀ o ∈ e.orig, o ≠ [] ∧ '\x00' ∉ o

/-- The NUL-ended fields git prints for the entry. -/
def fields (e : StatusEntry) : List (List Char) := (e.x :: e.y :: ' ' :: e.path) :: e.orig.toList

/-- What the entry stands for, in the order it is written: the original path of a rename,
deleted, then the path with the statuses of its two letters. -/
def writes (workDir : List Component) (e : StatusEntry) : ChangedFiles :=
  (match e.orig with
    | some o =>
      if e.x = 'R' ∨ e.y = 'R' then
        [(join workDir (parse (String.ofList o)), [.deleted, if e.x = 'R' then .staged else .unstaged])]
      else []
    | none => []) ++
    [(join workDir (parse (String.ofList e.path)), indexStatuses e.x ++ worktreeStatuses e.y)]

end StatusEntry

/-- `git status --porcelain -z` of a list of entries. -/
def serializeStatus (entries : List StatusEntry) : List Char :=
  (entries.flatMap StatusEntry.fields).flatMap (· ++ ['\x00'])

/-- An entry of `git diff --name-status -z`: the status letter and the path. -/
structure DiffEntry where
  status : Char
  path : List Char

namespace DiffEntry

/-- An entry as git prints it, renames and copies being off: one of the six letters, and a path
that is not empty and holds no NUL. -/
structure Valid (e : DiffEntry) : Prop where
  status : e.status ∈ ['A', 'D', 'M', 'T', 'U', 'X']
  path_ne_nil : e.path ≠ []
  nul_not_mem_path : '\x00' ∉ e.path

/-- The NUL-ended fields git prints for the entry. -/
def fields (e : DiffEntry) : List (List Char) := [[e.status], e.path]

/-- What the entry stands for: its path, with the statuses of its letter. -/
def writes (workDir : List Component) (e : DiffEntry) : List Component × List ChangedStatus :=
  (join workDir (parse (String.ofList e.path)), diffStatuses e.status)

end DiffEntry

/-- `git diff --name-status -z` of a list of entries. -/
def serializeDiff (entries : List DiffEntry) : List Char :=
  (entries.flatMap DiffEntry.fields).flatMap (· ++ ['\x00'])

/-! ## The loops read what git prints -/

section Reading

variable (workDir : List Component)

theorem extend_append (files a b : ChangedFiles) :
    IndexMap.extend files (a ++ b) = IndexMap.extend (IndexMap.extend files a) b := by
  rw [IndexMap.extend, IndexMap.extend, IndexMap.extend, List.foldl_append]

/-- **One status entry**: its fields are read as the entry, the original path included. -/
theorem statusLoop_fields {e : StatusEntry} (he : e.Valid) (rest : List (List Char))
    (files : ChangedFiles) :
    statusLoop workDir (e.fields ++ rest) files =
      statusLoop workDir rest (IndexMap.extend files (e.writes workDir)) := by
  have hmatch : statusPatternMatches (e.x :: e.y :: ' ' :: e.path) = true := by
    simp [statusPatternMatches, he.x, he.y]
  -- the letters and the space are one byte each, so byte 3 starts the path
  have hdrop : Str.dropBytes (e.x :: e.y :: ' ' :: e.path) 3 = some e.path := by
    have hsum : ([e.x, e.y, ' '].map Char.utf8Size).sum = 3 := by
      have hx : e.x.utf8Size = 1 := isAscii_of_isStatusChar he.x
      have hy : e.y.utf8Size = 1 := isAscii_of_isStatusChar he.y
      simp [hx, hy]
      rfl
    have h := Str.dropBytes_append [e.x, e.y, ' '] e.path
    rw [hsum] at h
    simpa using h
  cases horig : e.orig with
  | none =>
    -- no original path: the entry is its one field
    have hplain : ¬ (e.x = 'R' ∨ e.x = 'C' ∨ e.y = 'R' ∨ e.y = 'C') := fun h ↦ by
      have := he.orig_isSome.2 h
      rw [horig] at this
      cases this
    unfold StatusEntry.fields
    rw [horig, Option.toList_none, List.singleton_append, statusLoop]
    simp only [List.isEmpty_cons, hmatch, hdrop, Bool.not_true, Bool.false_eq_true, if_false,
      List.head?_cons, Option.getD_some, List.drop_succ_cons, List.drop_zero, if_neg hplain]
    rw [StatusEntry.writes, horig]
    rfl
  | some o =>
    -- a rename or a copy: the next field is the original path, and it is taken
    have hrc : e.x = 'R' ∨ e.x = 'C' ∨ e.y = 'R' ∨ e.y = 'C' :=
      he.orig_isSome.1 (by rw [horig]; rfl)
    have ho : o ≠ [] := (he.orig_valid o (by rw [horig]; rfl)).1
    unfold StatusEntry.fields
    rw [horig, Option.toList_some, List.cons_append, List.singleton_append, statusLoop]
    simp only [List.isEmpty_cons, hmatch, hdrop, Bool.not_true, Bool.false_eq_true, if_false,
      List.head?_cons, Option.getD_some, List.drop_succ_cons, List.drop_zero, if_pos hrc]
    rw [StatusEntry.writes, horig]
    by_cases hr : e.x = 'R' ∨ e.y = 'R'
    · simp only [if_pos hr, if_pos (And.intro ho hr)]
      rfl
    · simp only [if_neg hr, if_neg (fun h : o ≠ [] ∧ _ ↦ hr h.2)]
      rfl

theorem statusLoop_flatMap (rest : List (List Char)) :
    ∀ {entries : List StatusEntry}, (∀ e ∈ entries, e.Valid) → ∀ files : ChangedFiles,
      statusLoop workDir (entries.flatMap StatusEntry.fields ++ rest) files =
        statusLoop workDir rest (IndexMap.extend files (entries.flatMap (·.writes workDir)))
  | [], _, files => rfl
  | e :: entries, h, files => by
    rw [List.flatMap_cons, List.append_assoc, statusLoop_fields workDir (h e List.mem_cons_self),
      statusLoop_flatMap rest (fun e' he' ↦ h e' (List.mem_cons_of_mem e he')), List.flatMap_cons,
      extend_append]

/-- No field git prints for a status entry holds a NUL. -/
theorem nul_not_mem_fields {e : StatusEntry} (he : e.Valid) : ∀ f ∈ e.fields, '\x00' ∉ f := by
  intro f hf
  unfold StatusEntry.fields at hf
  rw [List.mem_cons] at hf
  rcases hf with rfl | hf
  · -- the letters are not NUL, nor is the space
    have hx : e.x ≠ '\x00' := fun h ↦ by have := he.x; rw [h] at this; cases this
    have hy : e.y ≠ '\x00' := fun h ↦ by have := he.y; rw [h] at this; cases this
    simp [hx.symm, hy.symm, he.nul_not_mem_path]
  · cases horig : e.orig with
    | none => rw [horig] at hf; cases hf
    | some o =>
      rw [horig, Option.toList_some, List.mem_singleton] at hf
      exact hf ▸ (he.orig_valid o horig).2

/-- **`exec_status` reads what git prints**: it does not panic, and the files it returns are what
the entries write, in order — each path, and the original path of each rename, with the
statuses of the last entry that wrote it. -/
theorem execStatus_serialize {entries : List StatusEntry} (h : ∀ e ∈ entries, e.Valid) :
    execStatus workDir (serializeStatus entries) =
      some (IndexMap.extend [] (entries.flatMap (·.writes workDir))) := by
  cases entries with
  | nil => rfl
  | cons e es =>
    have hfields : ∀ f ∈ (e :: es).flatMap StatusEntry.fields, '\x00' ∉ f := by
      intro f hf
      obtain ⟨e', he', hf'⟩ := List.mem_flatMap.1 hf
      exact nul_not_mem_fields (h e' he') f hf'
    rw [execStatus, if_neg (by simp [serializeStatus, StatusEntry.fields]), serializeStatus,
      splitOn_flatMap_terminated _ hfields, statusLoop_flatMap workDir [[]] h]
    rfl

/-- The paths an entry writes: its own, and the original path of a rename. -/
theorem StatusEntry.mem_writes_keys (e : StatusEntry) (k : List Component) :
    k ∈ (e.writes workDir).map Prod.fst ↔ k = join workDir (parse (String.ofList e.path)) ∨
      (e.x = 'R' ∨ e.y = 'R') ∧ ∃ o, e.orig = some o ∧ k = join workDir (parse (String.ofList o)) := by
  rw [StatusEntry.writes]
  cases e.orig with
  | none => simp
  | some o =>
    by_cases hr : e.x = 'R' ∨ e.y = 'R'
    · simp only [if_pos hr]
      simp [hr, or_comm]
    · simp only [if_neg hr]
      simp [hr]

/-- The keys of what the status entries write are the paths of the entries and the original paths
of the renames. -/
theorem statusWrites_keys (entries : List StatusEntry) (k : List Component) :
    k ∈ (IndexMap.extend [] (entries.flatMap (·.writes workDir))).map Prod.fst ↔
      ∃ e ∈ entries, k = join workDir (parse (String.ofList e.path)) ∨
        (e.x = 'R' ∨ e.y = 'R') ∧ ∃ o, e.orig = some o ∧ k = join workDir (parse (String.ofList o)) := by
  rw [← IndexMap.get?_isSome_iff, IndexMap.get?_extend, List.nil_append, IndexMap.get?_isSome_iff,
    List.map_flatMap, List.mem_flatMap]
  simp only [StatusEntry.mem_writes_keys]

/-- **One diff entry**: the letter, then the path. -/
theorem diffLoop_fields {e : DiffEntry} (he : e.Valid) (rest : List (List Char))
    (files : ChangedFiles) :
    diffLoop workDir (e.fields ++ rest) files =
      diffLoop workDir rest (IndexMap.insert files (e.writes workDir).1 (e.writes workDir).2) := by
  have hmatch : diffPatternMatches [e.status] = true := by
    simpa [diffPatternMatches] using he.status
  have hpath : e.path.isEmpty = false := List.isEmpty_eq_false_iff.2 he.path_ne_nil
  rw [DiffEntry.fields, List.cons_append, List.cons_append, List.nil_append, diffLoop]
  simp only [List.isEmpty_cons, hmatch, Bool.not_true, Bool.false_eq_true, if_false,
    List.head?_cons, Option.getD_some, hpath]
  rfl

theorem diffLoop_flatMap (rest : List (List Char)) :
    ∀ {entries : List DiffEntry}, (∀ e ∈ entries, e.Valid) → ∀ files : ChangedFiles,
      diffLoop workDir (entries.flatMap DiffEntry.fields ++ rest) files =
        diffLoop workDir rest (IndexMap.extend files (entries.map (·.writes workDir)))
  | [], _, files => rfl
  | e :: entries, h, files => by
    rw [List.flatMap_cons, List.append_assoc, diffLoop_fields workDir (h e List.mem_cons_self),
      diffLoop_flatMap rest (fun e' he' ↦ h e' (List.mem_cons_of_mem e he')), List.map_cons]
    rfl

/-- **`exec_diff` reads what git prints**: each entry's path, with the statuses of its letter,
a path written twice keeping the last. -/
theorem execDiff_serialize {entries : List DiffEntry} (h : ∀ e ∈ entries, e.Valid) :
    execDiff workDir (serializeDiff entries) =
      IndexMap.extend [] (entries.map (·.writes workDir)) := by
  cases entries with
  | nil => rfl
  | cons e es =>
    have hfields : ∀ f ∈ (e :: es).flatMap DiffEntry.fields, '\x00' ∉ f := by
      intro f hf
      obtain ⟨e', he', hf'⟩ := List.mem_flatMap.1 hf
      have hv := h e' he'
      rw [DiffEntry.fields, List.mem_cons, List.mem_singleton] at hf'
      rcases hf' with rfl | rfl
      · -- a status letter is not NUL
        have := hv.status
        simp only [List.mem_cons, List.not_mem_nil, or_false] at this
        rcases this with h' | h' | h' | h' | h' | h' <;> simp [h']
      · exact hv.nul_not_mem_path
    rw [execDiff, if_neg (by simp [serializeDiff, DiffEntry.fields]), serializeDiff,
      splitOn_flatMap_terminated _ hfields, diffLoop_flatMap workDir [[]] h]
    rfl

/-- The keys of what the diff entries write are their paths. -/
theorem diffWrites_keys (entries : List DiffEntry) (k : List Component) :
    k ∈ (IndexMap.extend [] (entries.map (·.writes workDir))).map Prod.fst ↔
      ∃ e ∈ entries, k = join workDir (parse (String.ofList e.path)) := by
  rw [← IndexMap.get?_isSome_iff, IndexMap.get?_extend, List.nil_append, IndexMap.get?_isSome_iff,
    List.map_map, List.mem_map]
  simp [DiffEntry.writes, eq_comm]

end Reading

theorem git_output_parsers_recover_entries :
    (∀ (workDir : List Component) (entries : List StatusEntry), (∀ e ∈ entries, e.Valid) →
      ∃ files, execStatus workDir (serializeStatus entries) = some files ∧
        (∀ k, k ∈ files.map Prod.fst ↔ ∃ e ∈ entries,
          k = join workDir (parse (String.ofList e.path)) ∨
            (e.x = 'R' ∨ e.y = 'R') ∧ ∃ o, e.orig = some o ∧
              k = join workDir (parse (String.ofList o))) ∧
        ∀ k, IndexMap.get? files k = IndexMap.get? (entries.flatMap (·.writes workDir)) k) ∧
    (∀ (workDir : List Component) (entries : List DiffEntry), (∀ e ∈ entries, e.Valid) →
      (∀ k, k ∈ (execDiff workDir (serializeDiff entries)).map Prod.fst ↔
        ∃ e ∈ entries, k = join workDir (parse (String.ofList e.path))) ∧
      ∀ k, IndexMap.get? (execDiff workDir (serializeDiff entries)) k =
        IndexMap.get? (entries.map (·.writes workDir)) k) := by
  refine ⟨fun workDir entries h ↦ ?_, fun workDir entries h ↦ ?_⟩
  · refine ⟨_, execStatus_serialize workDir h, statusWrites_keys workDir entries, fun k ↦ ?_⟩
    rw [IndexMap.get?_extend, List.nil_append]
  · rw [execDiff_serialize workDir h]
    refine ⟨diffWrites_keys workDir entries, fun k ↦ ?_⟩
    rw [IndexMap.get?_extend, List.nil_append]

/-- A renamed file and an untracked one, as `git status` lists them. -/
def renameAndUntracked : List StatusEntry :=
  [⟨'R', ' ', "new.txt".toList, some "old.txt".toList⟩, ⟨'?', '?', "tmp.log".toList, none⟩]

/-- A modified file and a deleted one, as `git diff` lists them. -/
def modifiedAndDeleted : List DiffEntry := [⟨'M', "src/lib.rs".toList⟩, ⟨'D', "gone".toList⟩]

/-- Read back in `/repo`, the rename gives its old path as deleted before its new one. -/
theorem git_output_of_rename_is_read_back :
    execStatus [.rootDir, .normal "repo"] (serializeStatus renameAndUntracked) =
        some [([.rootDir, .normal "repo", .normal "old.txt"], [.deleted, .staged]),
          ([.rootDir, .normal "repo", .normal "new.txt"], [.modified, .staged]),
          ([.rootDir, .normal "repo", .normal "tmp.log"], [.untracked])] ∧
      (∀ k, IndexMap.get? ((execStatus [.rootDir, .normal "repo"]
          (serializeStatus renameAndUntracked)).getD []) k =
        IndexMap.get? (renameAndUntracked.flatMap (·.writes [.rootDir, .normal "repo"])) k) ∧
      ∀ k, IndexMap.get? (execDiff [.rootDir, .normal "repo"] (serializeDiff modifiedAndDeleted)) k =
        IndexMap.get? (modifiedAndDeleted.map (·.writes [.rootDir, .normal "repo"])) k := by
  have hstatus : ∀ e ∈ renameAndUntracked, e.Valid := by
    simp only [renameAndUntracked, List.mem_cons, List.not_mem_nil, or_false]
    rintro e (rfl | rfl) <;>
      exact ⟨by decide, by decide, by decide, by decide, by simp [StatusEntry.IsRenameOrCopy],
        by simp⟩
  have hdiff : ∀ e ∈ modifiedAndDeleted, e.Valid := by
    simp only [modifiedAndDeleted, List.mem_cons, List.not_mem_nil, or_false]
    rintro e (rfl | rfl) <;> exact ⟨by decide, by decide, by decide⟩
  obtain ⟨files, hfiles, -, hget⟩ :=
    git_output_parsers_recover_entries.1 [.rootDir, .normal "repo"] renameAndUntracked hstatus
  refine ⟨by decide +kernel, ?_, (git_output_parsers_recover_entries.2 _ _ hdiff).2⟩
  rw [hfiles]
  exact hget

end Moon
