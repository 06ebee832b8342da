import Moon.Lib.StrSearch
import Moon.EnvVar.EnvSubstitutor

/-!
# Parsing one line of a `.env` file

`DotEnv::parse_line` (`crates/env-var/src/dotenv.rs`) reads `KEY=value`, with an optional
`export ` in front, an optional trailing comment, and a value that may be single-quoted (taken as
it is), double-quoted (unescaped) or bare.  A `&str` is modelled by its characters: every index the
function computes comes from a search for an ASCII pattern, so it falls on a character boundary,
and slicing there is `take` and `drop` on the characters.

The trailing comment is found by the *last* occurrence of `" #"` in the line (`rfind`), and it is
cut unless the line holds a pair of quotes that ends after it (`getQuoteIndices`, `cutComment`).
The quotes are looked for in the whole line, comment included, and `'` before `"`.  So a comment
with an apostrophe in it, as in `K='a' # don't`, makes the line look quoted: the comment stays,
and the value is the bare text `'a' # don't` (`parseLine_keeps_apostrophe_comment`).  A comment
with a `" #"` in it is cut at its own last one, not at the first: `K=a # b # c` gives the value
`a # b` (`parseLine_cuts_at_last_hash`).  A comment without quotes and without `" #"` is dropped
for the three kinds of value (`parseLine_unquoted`, `parseLine_single`, `parseLine_double`).

The `char` classes and the `str` searches are those of `Moon.Lib.StrSearch`; the Unicode tables
behind `char::is_alphabetic` and `char::is_numeric` are a parameter.
-/

set_option autoImplicit false

namespace Moon

open Str

/-- `QuoteStyle`. -/
inductive QuoteStyle where
  | single
  | double
  | unquoted
  deriving DecidableEq, Repr

/-- `DotEnvError`. -/
inductive DotEnvError where
  | emptyKey
  | invalidKey (key : String)
  | invalidKeyPrefix (key : String)
  | missingAssignment
  | parseFailure (line : ℕ) (message path : String)
  deriving DecidableEq, Repr

/-- The message each variant displays, without its styling. -/
def DotEnvError.message : DotEnvError → String
  | .emptyKey => "Empty environment variable key."
  | .invalidKey key =>
    "Invalid environment variable key " ++ key ++
      ", must contain alphanumeric characters and underscores."
  | .invalidKeyPrefix key =>
    "Invalid environment variable key " ++ key ++
      ", must start with an alphabetic character or underscore."
  | .missingAssignment => "Missing `=` in environment variable assignment."
  | .parseFailure line message path =>
    "Failed to parse env file " ++ path ++ " at line " ++ toString line ++ ": " ++ message

/-! ## Quotes -/

/-- The first and the last `q` of the line, when they are two different ones. -/
def quotePair (q : Char) (value : List Char) : Option (ℕ × ℕ) :=
  match value.idxOf? q, rfind [q] value with
  | some l, some r => if l ≠ r then some (l, r) else none
  | _, _ => none

/-- `get_quote_indices`: the outermost pair of single quotes, else of double quotes. -/
def getQuoteIndices (value : List Char) : Option (ℕ × ℕ) :=
  (quotePair '\'' value).or (quotePair '"' value)

/-! ## The line -/

/-- The trailing comment of `parse_line`: cut at the last `" #"`, unless the line has a pair of
quotes that closes after it. -/
def cutComment (lineContent : List Char) : List Char :=
  match rfind [' ', '#'] lineContent with
  | some index =>
    match getQuoteIndices lineContent with
    | some (_, r) => if index > r then lineContent.take index else lineContent
    | none => lineContent.take index
  | none => lineContent

/-- The loop of `parse_key`: the first character must be alphabetic or `_`, every character
alphanumeric or `_`. -/
def checkKeyChars (tables : UnicodeTables) (key : List Char) :
    ℕ → List Char → Except DotEnvError Unit
  | _, [] => .ok ()
  | i, ch :: rest =>
    if i = 0 && !isAlphabetic tables ch && ch != '_' then
      .error (.invalidKeyPrefix (String.ofList key))
    else if !isAlphanumeric tables ch && ch != '_' then
      .error (.invalidKey (String.ofList key))
    else checkKeyChars tables key (i + 1) rest

/-- `DotEnv::parse_key`. -/
def parseKey (tables : UnicodeTables) (key : List Char) :
    Except DotEnvError (List Char) :=
  if key.isEmpty then .error .emptyKey
  else (checkKeyChars tables key 0 key).map fun _ ↦ key

/-- `DotEnv::unescape`: `\n`, `\r`, `\t`, `\\`, `\"` and `\'` stand for their characters; any
other backslash stays, with what follows it. -/
def unescape : List Char → List Char
  | '\\' :: next :: rest =>
    (match next with
      | 'n' => ['\n']
      | 'r' => ['\r']
      | 't' => ['\t']
      | '\\' => ['\\']
      | '"' => ['"']
      | '\'' => ['\'']
      | _ => ['\\', next]) ++ unescape rest
  | ['\\'] => ['\\']
  | ch :: rest => ch :: unescape rest
  | [] => []

/-- `DotEnv::parse_value`, which never fails: a value between single quotes as it is, between
double quotes unescaped, anything else bare. -/
def parseValue (value : List Char) : List Char × QuoteStyle :=
  let value := trim value
  -- `value.len() >= 2` counts bytes; a value that starts and ends with an ASCII quote has two
  -- bytes exactly when it has two characters
  if 2 ≤ value.length && value.head? == some '\'' && value.getLast? == some '\'' then
    ((value.drop 1).dropLast, .single)
  else if 2 ≤ value.length && value.head? == some '"' && value.getLast? == some '"' then
    (unescape (value.drop 1).dropLast, .double)
  else (value, .unquoted)

/-- `DotEnv::parse_line`: `none` for a blank line or a comment, else the key, the value and how
it was quoted. -/
def parseLine (tables : UnicodeTables) (line : List Char) :
    Except DotEnvError (Option (List Char × List Char × QuoteStyle)) :=
  let trimmed := trim line
  if trimmed.isEmpty || trimmed.head? == some '#' then .ok none
  else
    let lineContent := cutComment ((stripPrefix "export ".toList trimmed).getD trimmed)
    match lineContent.idxOf? '=' with
    | none => .error .missingAssignment
    | some eqPos =>
      (parseKey tables (trim (lineContent.take eqPos))).map fun key ↦
        let (value, quote) := parseValue (lineContent.drop (eqPos + 1))
        some (key, value, quote)

/-! ## Files -/

/-- `str::lines`: the pieces between line feeds, with a `\r` before a line feed dropped, and no
empty piece after a final line feed. -/
def lines (text : List Char) : List (List Char) :=
  match (text.splitOn '\n').reverse with
  | [] => []
  | last :: ended =>
    ended.reverse.map (fun line ↦ if line.getLast? = some '\r' then line.dropLast else line)
      ++ (if last.isEmpty then [] else [last])

/-- `DotEnv`: the global bag its substitutions read, if any.  Its `local_vars` are read by no
function modelled here. -/
structure DotEnv where
  globalVars : Option (List Char → Option (List Char)) := none

namespace DotEnv

/-- `DotEnv::substitute_value`: the variables loaded so far are the locals. -/
def substituteValue (dot : DotEnv) (key value : List Char)
    (env : List (List Char × Option (List Char))) : List Char :=
  let substitutor := ({} : EnvSubstitutor).withLocalVars env
  let substitutor :=
    match dot.globalVars with
    | some vars => substitutor.withGlobalVars vars
    | none => substitutor
  (substitutor.substituteWithKey key value).1

/-- The value `DotEnv::load` stores for a parsed line: `null` and `nil` for none, a single-quoted
value as it is, any other one substituted. -/
def loadValue (dot : DotEnv) (key value : List Char) (quote : QuoteStyle)
    (vars : List (List Char × Option (List Char))) : Option (List Char) :=
  if value = "null".toList ∨ value = "nil".toList then none
  else if quote = .single then some value
  else some (dot.substituteValue key value vars)

/-- The loop of `DotEnv::load`, from the line numbered `lineNo`. -/
def loadLines (dot : DotEnv) (tables : UnicodeTables) (path : String) :
    ℕ → List (List Char) → List (List Char × Option (List Char)) →
      Except DotEnvError (List (List Char × Option (List Char)))
  | _, [], vars => .ok vars
  | lineNo, line :: rest, vars =>
    match parseLine tables line with
    | .error error => .error (.parseFailure lineNo error.message path)
    | .ok none => dot.loadLines tables path (lineNo + 1) rest vars
    | .ok (some (key, value, quote)) =>
      dot.loadLines tables path (lineNo + 1) rest
        (IndexMap.insert vars key (dot.loadValue key value quote vars))

/-- `DotEnv::load`. -/
def load (dot : DotEnv) (tables : UnicodeTables) (content : List Char) (path : String) :
    Except DotEnvError (List (List Char × Option (List Char))) :=
  dot.loadLines tables path 1 (lines content) []

/-- A single-quoted value is stored as it is, and still expanded where a later line reads it
with `$`: the second pass of the substitution runs over the inserted text. -/
example (tables : UnicodeTables) :
    ({} : DotEnv).load tables "A=a\nC='${A}'\nD=$C\nE=${C}".toList "/dev/null"
      = .ok [("A".toList, some "a".toList), ("C".toList, some "${A}".toList),
          ("D".toList, some "a".toList), ("E".toList, some "${A}".toList)] :=
  rfl

end DotEnv

/-! ## Keys -/

variable {tables : UnicodeTables}

/-- Every character `checkKeyChars` lets through is alphanumeric or `_`. -/
theorem keyChar_of_checkKeyChars {key : List Char} : ∀ {i : ℕ} {cs : List Char},
    checkKeyChars tables key i cs = .ok () →
      ∀ ch ∈ cs, isAlphanumeric tables ch = true ∨ ch = '_'
  | _, [], _, _, hch => absurd hch List.not_mem_nil
  | i, c :: rest, h, ch, hch => by
    unfold checkKeyChars at h
    split_ifs at h with h0 h1
    rcases List.mem_cons.1 hch with rfl | hrest
    · cases ha : isAlphanumeric tables ch with
      | true => exact Or.inl rfl
      | false => exact Or.inr (by simpa [ha] using h1)
    · exact keyChar_of_checkKeyChars h ch hrest

/-- A key character is not white space, `=` or `#`. -/
theorem plain_of_keyChar {ch : Char} (h : isAlphanumeric tables ch = true ∨ ch = '_') :
    isWhitespace ch = false ∧ ch ≠ '=' ∧ ch ≠ '#' := by
  rcases h with h | rfl
  · refine ⟨?_, ?_, ?_⟩
    · cases hw : isWhitespace ch with
      | false => rfl
      | true => rw [isAlphanumeric_of_isWhitespace hw] at h; cases h
    · rintro rfl
      exact absurd h (by rw [Bool.not_eq_true]; rfl)
    · rintro rfl
      exact absurd h (by rw [Bool.not_eq_true]; rfl)
  · decide

/-- A key `parse_key` accepts is not empty, and has no white space, `=` or `#`. -/
theorem parseKey_chars {key key' : List Char} (h : parseKey tables key = .ok key') :
    key ≠ [] ∧ ∀ ch ∈ key, isWhitespace ch = false ∧ ch ≠ '=' ∧ ch ≠ '#' := by
  unfold parseKey at h
  split_ifs at h with hempty
  cases hc : checkKeyChars tables key 0 key with
  | error e => rw [hc] at h; cases h
  | ok u =>
    cases u
    exact ⟨by simpa using hempty,
      fun ch hch ↦ plain_of_keyChar (keyChar_of_checkKeyChars hc ch hch)⟩

/-- A line that starts with a key has no `export ` prefix. -/
theorem stripPrefix_export {key rest : List Char} (hkey : ' ' ∉ key) :
    stripPrefix "export ".toList (key ++ '=' :: rest) = none := by
  unfold stripPrefix
  rw [if_neg]
  intro h
  have hline := List.isPrefixOf_iff_prefix.1 h
  rcases List.prefix_or_prefix_of_prefix hline (List.prefix_append key ('=' :: rest)) with
    hpk | ⟨t, ht⟩
  · exact hkey (hpk.subset (by simp))
  · -- the key is a proper prefix of `export `, and `=` would be its next character
    rw [← ht, List.prefix_append_right_inj] at hline
    cases t with
    | nil =>
      rw [List.append_nil] at ht
      exact hkey (ht ▸ by simp)
    | cons x t =>
      have hx : x = '=' := (List.cons_prefix_cons.1 hline).1
      have hmem : '=' ∈ "export ".toList := by
        rw [← ht, ← hx]
        exact List.mem_append_right key List.mem_cons_self
      exact absurd hmem (by simp)

/-- The first `=` of a line that starts with a key follows the key. -/
theorem idxOf?_key {key rest : List Char} (hkey : '=' ∉ key) :
    (key ++ '=' :: rest).idxOf? '=' = some key.length := by
  unfold List.idxOf?
  have hnone : key.findIdx? (· == '=') = none := by
    rw [List.findIdx?_eq_none_iff]
    rintro x hx
    simpa using ne_of_mem_of_not_mem hx hkey
  rw [List.findIdx?_append, hnone, List.findIdx?_cons]
  simp

/-! ## Comments -/

theorem rfind_of_quotePair {q : Char} {value : List Char} {l r : ℕ}
    (h : quotePair q value = some (l, r)) : rfind [q] value = some r := by
  unfold quotePair at h
  split at h
  · next l' r' _ hr =>
    split_ifs at h
    cases h
    exact hr
  · cases h

/-- A pair of quotes lies wholly before an end of the line that holds no quote. -/
theorem lt_of_getQuoteIndices {p s : List Char} {l r : ℕ} (hs : '\'' ∉ s) (hd : '"' ∉ s)
    (h : getQuoteIndices (p ++ s) = some (l, r)) : r < p.length := by
  unfold getQuoteIndices at h
  cases hsingle : quotePair '\'' (p ++ s) with
  | some lr =>
    rw [hsingle, Option.some_or] at h
    exact lt_of_rfind_singleton hs (rfind_of_quotePair (h ▸ hsingle))
  | none =>
    rw [hsingle, Option.none_or] at h
    exact lt_of_rfind_singleton hd (rfind_of_quotePair h)

/-- The last `" #"` of a line whose comment holds none is the one that opens the comment. -/
theorem rfind_comment {c : List Char} (hc : ¬ [' ', '#'] <:+: c) (p : List Char) :
    rfind [' ', '#'] (p ++ ' ' :: '#' :: c) = some p.length := by
  have hhash : rfind [' ', '#'] ('#' :: c) = none := by
    rw [rfind_eq_none_iff (by simp), List.infix_cons_iff, not_or]
    exact ⟨by simp, hc⟩
  have hmark : rfind [' ', '#'] (' ' :: '#' :: c) = some 0 :=
    rfind_of_isPrefix (List.prefix_append [' ', '#'] c) hhash
  exact rfind_append_of_eq_some hmark p

/-- **A comment without quotes and without `" #"` is cut off**, whatever comes before it. -/
theorem cutComment_append_comment {c : List Char} (hq : '\'' ∉ c) (hd : '"' ∉ c)
    (hc : ¬ [' ', '#'] <:+: c) (p : List Char) : cutComment (p ++ ' ' :: '#' :: c) = p := by
  unfold cutComment
  rw [rfind_comment hc]
  dsimp only
  split
  · next l r hquote =>
    have hr : r < p.length := lt_of_getQuoteIndices (by simp [hq]) (by simp [hd]) hquote
    rw [if_pos hr, List.take_left' rfl]
  · exact List.take_left' rfl

/-- **A trailing comment without quotes and without `" #"` is dropped**: the line reads as its
key and the value before the comment, whatever that value is. -/
theorem parseLine_append_comment {key body c : List Char} (hkey : parseKey tables key = .ok key)
    (hq : '\'' ∉ c) (hd : '"' ∉ c) (hc : ¬ [' ', '#'] <:+: c) :
    parseLine tables (key ++ '=' :: body ++ ' ' :: '#' :: c)
      = .ok (some (key, parseValue body)) := by
  obtain ⟨hne, hchars⟩ := parseKey_chars hkey
  obtain ⟨k, rest, hk⟩ := List.exists_cons_of_ne_nil hne
  have hk0 := hchars k (hk ▸ List.mem_cons_self)
  -- trimming keeps the key and the marker, and may shorten the comment
  have htrim : trim (key ++ '=' :: body ++ ' ' :: '#' :: c)
      = key ++ '=' :: body ++ ' ' :: '#' :: c.rdropWhile isWhitespace := by
    subst hk
    simpa using trim_append_cons (x := '#') hk0.1 (by decide) (rest ++ '=' :: body ++ [' ']) c
  have hpre := List.rdropWhile_prefix isWhitespace c
  have hcut : cutComment (key ++ '=' :: body ++ ' ' :: '#' :: c.rdropWhile isWhitespace)
      = key ++ '=' :: body :=
    cutComment_append_comment (fun h ↦ hq (hpre.subset h)) (fun h ↦ hd (hpre.subset h))
      (fun h ↦ hc (h.trans hpre.isInfix)) _
  have hspace : ' ' ∉ key := fun h ↦ absurd (hchars ' ' h).1 (by decide)
  have heq : '=' ∉ key := fun h ↦ (hchars '=' h).2.1 rfl
  unfold parseLine
  rw [htrim, if_neg (by simp [hk, hk0.2.2]), List.append_assoc, List.cons_append,
    stripPrefix_export hspace, Option.getD_none, ← List.cons_append, ← List.append_assoc, hcut]
  dsimp only
  rw [idxOf?_key heq]
  dsimp only
  have hdrop : (key ++ '=' :: body).drop (key.length + 1) = body := by simp [List.drop_append]
  rw [List.take_left' rfl, trim_eq_self (fun ch hch ↦ (hchars ch hch).1), hkey, hdrop]
  rfl

/-- A comment with an apostrophe in it is kept, and the line is read as a bare value; a comment
with a `" #"` of its own is cut at the last one.  Both comments are dropped only in part or not
at all. -/
theorem comment_with_quote_or_hash_kept (tables : UnicodeTables) :
    parseLine tables "K='a' # don't".toList
        = .ok (some ("K".toList, "'a' # don't".toList, .unquoted)) ∧
      parseLine tables "K=a # b # c".toList
        = .ok (some ("K".toList, "a # b".toList, .unquoted)) :=
  ⟨rfl, rfl⟩

/-! ## The three kinds of value -/

theorem parseValue_single (v : List Char) : parseValue ('\'' :: v ++ ['\'']) = (v, .single) := by
  have htrim : trim ('\'' :: v ++ ['\'']) = '\'' :: v ++ ['\''] := by
    simpa using trim_append_cons (k := '\'') (x := '\'') (by decide) (by decide) v []
  have hlast : ('\'' :: v ++ ['\'']).getLast? = some '\'' := List.getLast?_concat
  unfold parseValue
  dsimp only
  rw [htrim, hlast]
  simp

theorem parseValue_double (v : List Char) :
    parseValue ('"' :: v ++ ['"']) = (unescape v, .double) := by
  have htrim : trim ('"' :: v ++ ['"']) = '"' :: v ++ ['"'] := by
    simpa using trim_append_cons (k := '"') (x := '"') (by decide) (by decide) v []
  have hlast : ('"' :: v ++ ['"']).getLast? = some '"' := List.getLast?_concat
  unfold parseValue
  dsimp only
  rw [htrim, hlast]
  simp

theorem parseValue_unquoted {v : List Char} (htrim : trim v = v) (hq : '\'' ∉ v) (hd : '"' ∉ v) :
    parseValue v = (v, .unquoted) := by
  unfold parseValue
  have hhead : ∀ q ∈ v.head?, q ≠ '\'' ∧ q ≠ '"' := fun q hqv ↦
    ⟨fun h ↦ hq (h ▸ List.mem_of_mem_head? hqv), fun h ↦ hd (h ▸ List.mem_of_mem_head? hqv)⟩
  cases hv : v.head? with
  | none => simp [htrim, hv]
  | some q => simp [htrim, hv, (hhead q hv).1, (hhead q hv).2]

section Forms

variable {key c : List Char} (hkey : parseKey tables key = .ok key) (hq : '\'' ∉ c) (hd : '"' ∉ c)
  (hc : ¬ [' ', '#'] <:+: c)
include hkey hq hd hc

theorem parseLine_single (v : List Char) :
    parseLine tables (key ++ '=' :: ('\'' :: v ++ ['\'']) ++ ' ' :: '#' :: c)
      = .ok (some (key, v, .single)) := by
  rw [parseLine_append_comment hkey hq hd hc, parseValue_single]

theorem parseLine_double (v : List Char) :
    parseLine tables (key ++ '=' :: ('"' :: v ++ ['"']) ++ ' ' :: '#' :: c)
      = .ok (some (key, unescape v, .double)) := by
  rw [parseLine_append_comment hkey hq hd hc, parseValue_double]

theorem parseLine_unquoted {v : List Char} (htrim : trim v = v) (hvq : '\'' ∉ v) (hvd : '"' ∉ v) :
    parseLine tables (key ++ '=' :: v ++ ' ' :: '#' :: c) = .ok (some (key, v, .unquoted)) := by
  rw [parseLine_append_comment hkey hq hd hc, parseValue_unquoted htrim hvq hvd]

end Forms

end Moon
