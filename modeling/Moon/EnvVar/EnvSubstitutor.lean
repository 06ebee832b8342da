import Moon.Lib.Scan
import Moon.Lib.Merge

/-!
# Substituting environment variables

`EnvSubstitutor::do_substitute` (`crates/env-var/src/env_substitutor.rs`) replaces references
to variables in a text, in two passes of `Regex::replace_all`:

* `ENV_VAR` first, `$` then an optional namespace then a name of `[A-Z0-9_]`, replaced by the
  value of the name;
* `ENV_VAR_BRACKETS` last, the same between `${` and `}`, with an optional flag and a fallback
  after the name, replaced by the value, the fallback or the reference itself as the flag says.

Each pass scans the text once (`Scan.replaceAll`), but the second pass scans the *output* of the
first.  So a value the first pass inserts for `$N` is searched for `${...}` again, while the
same value inserted for `${N}` is not: `substitute_dollar` and `substitute_brackets` say what the
two forms give, and they agree exactly when the second pass leaves the value alone
(`substitute_dollar_eq_brackets_iff`), as it does on a value without `$`.

The two patterns are modelled by hand, with the leftmost-first priorities of the `regex` crate:
the namespace alternatives are tried in their order before no namespace, the name is the longest
run of name characters, the flag alternatives are tried in their order, and the fallback runs to
the first `}`.  The `.` of the namespaces `env.` and `ENV.` matches any character, so a name
that starts with `ENV` and has two more characters reads as a namespace and a shorter name.
-/

set_option autoImplicit false

namespace Moon

open Scan

/-! ## The patterns -/

/-- One character of a regex literal: `.` stands for any character but a line feed. -/
def charMatches (pat c : Char) : Bool := if pat = '.' then c != '\n' else c == pat

/-- A literal character other than `.` matches only itself. -/
theorem charMatches_of_ne_dot {pat : Char} (h : pat ≠ '.') (c : Char) :
    charMatches pat c = (c == pat) := by
  unfold charMatches
  rw [if_neg h]

/-- A regex literal at the front of a text. -/
def literalMatches : List Char → List Char → Bool
  | [], _ => true
  | _ :: _, [] => false
  | pat :: pats, c :: cs => charMatches pat c && literalMatches pats cs

theorem literalMatches_cons_nil (pat : Char) (pats : List Char) :
    literalMatches (pat :: pats) [] = false := rfl

theorem literalMatches_cons_cons (pat : Char) (pats : List Char) (c : Char) (cs : List Char) :
    literalMatches (pat :: pats) (c :: cs) = (charMatches pat c && literalMatches pats cs) := rfl

/-- The `namespace` alternatives of `ENV_VAR` and `ENV_VAR_BRACKETS`, in the order the regex
tries them. -/
def namespaces : List (List Char) :=
  ["E:".toList, "env::".toList, "env:".toList, "env.".toList, "ENV.".toList]

/-- A character of `[A-Z0-9_]`. -/
def isNameChar (c : Char) : Bool := ('A' ≤ c && c ≤ 'Z') || ('0' ≤ c && c ≤ '9') || c == '_'

/-- The ways the optional `namespace` group can start the text, in the order the regex tries
them: each alternative that matches, then none. -/
def namespaceSplits (cs : List Char) : List (List Char × List Char) :=
  (namespaces.filter (literalMatches · cs)).map (fun ns ↦ (cs.take ns.length, cs.drop ns.length))
    ++ [([], cs)]

/-- The `name` group: the longest run of name characters, which may not be empty. -/
def takeName (cs : List Char) : Option (List Char) :=
  if (cs.takeWhile isNameChar).isEmpty then none else some (cs.takeWhile isNameChar)

/-- The captures of `ENV_VAR`; `ns` is the `namespace` group. -/
structure VarCaptures where
  ns : List Char
  name : List Char
  deriving DecidableEq, Repr

/-- `ENV_VAR` at the front of a text. -/
def envVarRun : List Char → Option (VarCaptures × ℕ)
  | '$' :: cs =>
    (namespaceSplits cs).findSome? fun split ↦
      (takeName split.2).map fun name ↦ (⟨split.1, name⟩, 1 + split.1.length + name.length)
  | _ => none

/-- After a `$`, the `namespace` alternatives are tried in order, each with a name after it. -/
theorem envVarRun_dollar (cs : List Char) :
    envVarRun ('$' :: cs) = (namespaceSplits cs).findSome? fun split ↦
      (takeName split.2).map fun name ↦ (⟨split.1, name⟩, 1 + split.1.length + name.length) :=
  rfl

theorem envVarRun_eq_none {cs : List Char} (h : cs.head? ≠ some '$') : envVarRun cs = none := by
  unfold envVarRun
  split
  · simp at h
  · rfl

/-- The `flag` alternatives of `ENV_VAR_BRACKETS`. -/
inductive Flag where
  | bang
  | question
  | colonDash
  | colonPlus
  | dash
  | plus
  | colon
  deriving DecidableEq, Repr

/-- The text of a flag. -/
def Flag.text : Flag → List Char
  | .bang => ['!']
  | .question => ['?']
  | .colonDash => [':', '-']
  | .colonPlus => [':', '+']
  | .dash => ['-']
  | .plus => ['+']
  | .colon => [':']

/-- The flags in the order the regex tries them. -/
def Flag.alternatives : List Flag :=
  [.bang, .question, .colonDash, .colonPlus, .dash, .plus, .colon]

/-- The captures of `ENV_VAR_BRACKETS`. -/
structure BracketCaptures where
  ns : List Char
  name : List Char
  flag : Option Flag
  fallback : List Char
  deriving DecidableEq, Repr

/-- `ENV_VAR_BRACKETS` at the front of a text. -/
def envVarBracketsRun : List Char → Option (BracketCaptures × ℕ)
  | '$' :: '{' :: cs =>
    (namespaceSplits cs).findSome? fun split ↦
      (takeName split.2).bind fun name ↦
        let afterName := split.2.drop name.length
        -- `[^}]*` runs to the first `}`, which closes the match, whatever the flag is
        (afterName.idxOf? '}').map fun close ↦
          let flag := Flag.alternatives.find? fun flag ↦ flag.text.isPrefixOf afterName
          let fallback := (afterName.take close).drop ((flag.map (·.text.length)).getD 0)
          (⟨split.1, name, flag, fallback⟩, 2 + split.1.length + name.length + close + 1)
  | _ => none

theorem append_of_mem_namespaceSplits {cs : List Char} {split : List Char × List Char}
    (h : split ∈ namespaceSplits cs) : split.1 ++ split.2 = cs := by
  unfold namespaceSplits at h
  simp only [List.mem_append, List.mem_map, List.mem_singleton] at h
  rcases h with ⟨ns, -, rfl⟩ | rfl
  · exact List.take_append_drop _ _
  · rfl

theorem takeName_append_drop {cs name : List Char} (h : takeName cs = some name) :
    name ++ cs.drop name.length = cs := by
  unfold takeName at h
  split_ifs at h
  cases h
  exact List.prefix_iff_eq_append.1 (List.takeWhile_prefix isNameChar)

/-- The name and namespace of a match come out of the text after the `$`. -/
theorem length_le_of_split {cs name : List Char} {split : List Char × List Char}
    (hs : split ∈ namespaceSplits cs) (hn : takeName split.2 = some name) :
    split.1.length + name.length + (split.2.drop name.length).length = cs.length := by
  have h1 := congrArg List.length (append_of_mem_namespaceSplits hs)
  have h2 := congrArg List.length (takeName_append_drop hn)
  simp only [List.length_append] at h1 h2
  omega

/-- `ENV_VAR`. -/
def envVar : Pattern Char VarCaptures where
  run := envVarRun
  consumes := by
    intro cs a n h
    -- only a `$` starts a match
    obtain ⟨rest, rfl⟩ : ∃ rest, cs = '$' :: rest := by
      by_cases hd : cs.head? = some '$'
      · cases cs with
        | nil => cases hd
        | cons c rest =>
          rw [List.head?_cons, Option.some.injEq] at hd
          exact ⟨rest, by rw [hd]⟩
      · rw [envVarRun_eq_none hd] at h
        cases h
    rw [envVarRun_dollar] at h
    obtain ⟨split, hs, hsome⟩ := List.exists_of_findSome?_eq_some h
    obtain ⟨name, hn, hname⟩ := Option.map_eq_some_iff.1 hsome
    cases hname
    have := length_le_of_split hs hn
    simp only [List.length_cons]
    omega

/-- `ENV_VAR_BRACKETS`. -/
def envVarBrackets : Pattern Char BracketCaptures where
  run := envVarBracketsRun
  consumes := by
    intro cs a n h
    unfold envVarBracketsRun at h
    split at h
    · obtain ⟨split, hs, hsome⟩ := List.exists_of_findSome?_eq_some h
      obtain ⟨name, hn, hclose⟩ := Option.bind_eq_some_iff.1 hsome
      obtain ⟨close, hc, hcaps⟩ := Option.map_eq_some_iff.1 hclose
      cases hcaps
      have hlt := (List.findIdx?_eq_some_iff_findIdx_eq.1 hc).1
      have := length_le_of_split hs hn
      simp only [List.length_cons]
      omega
    · cases h

/-! ## Reading a name -/

/-- A literal character of a pattern is in the text it matches. -/
theorem mem_of_literalMatches : ∀ {pat cs : List Char}, literalMatches pat cs = true →
    ∀ p ∈ pat, p ≠ '.' → p ∈ cs
  | [], _, _, _, hp, _ => absurd hp List.not_mem_nil
  | _ :: _, [], h, _, _, _ => by simp [literalMatches_cons_nil] at h
  | q :: pats, c :: cs, h, p, hp, hdot => by
    simp only [literalMatches_cons_cons, Bool.and_eq_true] at h
    rcases List.mem_cons.1 hp with rfl | hp
    · have hc : c = p := by simpa [charMatches_of_ne_dot hdot] using h.1
      exact hc ▸ List.mem_cons_self
    · exact List.mem_cons_of_mem c (mem_of_literalMatches h.2 p hp hdot)

/-- A pattern that matches starts the text with its characters up to its first `.`. -/
theorem prefix_of_literalMatches : ∀ {pat cs : List Char}, literalMatches pat cs = true →
    pat.takeWhile (· != '.') <+: cs
  | [], _, _ => List.nil_prefix
  | _ :: _, [], h => by simp [literalMatches_cons_nil] at h
  | q :: pats, c :: cs, h => by
    simp only [literalMatches_cons_cons, Bool.and_eq_true] at h
    by_cases hq : q = '.'
    · simp [hq]
    · have hc : c = q := by simpa [charMatches_of_ne_dot hq] using h.1
      rw [List.takeWhile_cons_of_pos (by simpa using hq), hc]
      exact List.prefix_cons_inj q |>.2 (prefix_of_literalMatches h.2)

/-- A name that does not start with `ENV`, with nothing or `}` after it, starts with no
namespace: `E:` needs a `:`, the lower-case namespaces an `e`, and `ENV.` the letters `ENV`. -/
theorem namespaceSplits_name {N rest : List Char} (hN : ∀ c ∈ N, isNameChar c = true)
    (hENV : ¬ "ENV".toList <+: N) (hrest : rest = [] ∨ rest = ['}']) :
    namespaceSplits (N ++ rest) = [([], N ++ rest)] := by
  have hchar : ∀ c ∈ N ++ rest, isNameChar c = true ∨ c = '}' := by
    intro c hc
    rcases List.mem_append.1 hc with hc | hc
    · exact Or.inl (hN c hc)
    · rcases hrest with rfl | rfl
      · simp at hc
      · exact Or.inr (List.mem_singleton.1 hc)
  have hnone : ∀ ns ∈ namespaces, literalMatches ns (N ++ rest) = false := by
    intro ns hns
    rw [← Bool.not_eq_true]
    intro hm
    simp only [namespaces, List.mem_cons, List.not_mem_nil, or_false] at hns
    rcases hns with rfl | rfl | rfl | rfl | rfl
    · exact absurd (hchar ':' (mem_of_literalMatches hm ':' (by decide) (by decide))) (by decide)
    · exact absurd (hchar 'e' (mem_of_literalMatches hm 'e' (by decide) (by decide))) (by decide)
    · exact absurd (hchar 'e' (mem_of_literalMatches hm 'e' (by decide) (by decide))) (by decide)
    · exact absurd (hchar 'e' (mem_of_literalMatches hm 'e' (by decide) (by decide))) (by decide)
    · have hpre : "ENV".toList <+: N ++ rest := prefix_of_literalMatches hm
      rcases hrest with rfl | rfl
      · exact hENV (by simpa using hpre)
      · rcases List.prefix_concat_iff.1 hpre with heq | hpre
        · have hmem : '}' ∈ "ENV".toList := heq ▸ List.mem_append_right N List.mem_cons_self
          exact absurd hmem (by decide)
        · exact hENV hpre
  unfold namespaceSplits
  rw [List.filter_eq_nil_iff.2 fun ns hns ↦ by simp [hnone ns hns]]
  rfl

theorem takeName_name {N rest : List Char} (hne : N ≠ []) (hN : ∀ c ∈ N, isNameChar c = true)
    (hrest : rest = [] ∨ rest = ['}']) : takeName (N ++ rest) = some N := by
  have htake : (N ++ rest).takeWhile isNameChar = N := by
    rw [List.takeWhile_append_of_pos hN]
    rcases hrest with rfl | rfl
    · simp
    · simp [isNameChar]
  unfold takeName
  rw [htake, if_neg (by simpa using hne)]

/-- A name that does not start with `ENV`: what `$N` and `${N}` are written with. -/
structure PlainName (N : List Char) : Prop where
  ne_nil : N ≠ []
  isNameChar : ∀ c ∈ N, isNameChar c = true
  not_env : ¬ "ENV".toList <+: N

theorem envVarRun_name {N : List Char} (hN : PlainName N) :
    envVarRun ('$' :: N) = some (⟨[], N⟩, 1 + N.length) := by
  have hs : namespaceSplits (N ++ []) = [([], N ++ [])] :=
    namespaceSplits_name hN.isNameChar hN.not_env (Or.inl rfl)
  have ht : takeName (N ++ []) = some N := takeName_name hN.ne_nil hN.isNameChar (Or.inl rfl)
  rw [List.append_nil] at hs ht
  rw [envVarRun_dollar, hs]
  simp [ht]

theorem envVarBracketsRun_name {N : List Char} (hN : PlainName N) :
    envVarBracketsRun ('$' :: '{' :: (N ++ ['}'])) = some (⟨[], N, none, []⟩, N.length + 3) := by
  have hs := namespaceSplits_name hN.isNameChar hN.not_env (Or.inr rfl)
  have ht := takeName_name hN.ne_nil hN.isNameChar (Or.inr rfl)
  have hflag : Flag.alternatives.find? (fun flag ↦ flag.text.isPrefixOf ['}']) = none := by decide
  show (namespaceSplits (N ++ ['}'])).findSome? _ = _
  rw [hs]
  simp [ht, hflag]
  omega

/-- `$` before `{` starts no `ENV_VAR`: no namespace and no name begins with `{`. -/
theorem envVarRun_brace (cs : List Char) : envVarRun ('$' :: '{' :: cs) = none := by
  -- every namespace starts with a letter or `:`, not with `{`
  have hs : namespaceSplits ('{' :: cs) = [([], '{' :: cs)] := rfl
  rw [envVarRun_dollar, hs]
  simp [takeName, isNameChar]

theorem envVarBracketsRun_eq_none {cs : List Char} (h : cs.head? ≠ some '$') :
    envVarBracketsRun cs = none := by
  unfold envVarBracketsRun
  split
  · simp at h
  · rfl

theorem noMatch_of_not_mem {α : Type} {p : Pattern Char α}
    (hp : ∀ cs : List Char, cs.head? ≠ some '$' → p.run cs = none) :
    ∀ {text : List Char}, '$' ∉ text → NoMatch p text
  | [], _ => fun t ht hne ↦ absurd (List.eq_nil_of_suffix_nil ht) hne
  | c :: cs, h => by
    have hc : c ≠ '$' := fun hc ↦ h (hc ▸ List.mem_cons_self)
    exact noMatch_cons (hp _ (by simpa using hc))
      (noMatch_of_not_mem hp fun hm ↦ h (List.mem_cons_of_mem c hm))

/-- Text without `$` has no reference of either kind. -/
theorem noMatch_envVar {text : List Char} (h : '$' ∉ text) : NoMatch envVar text :=
  noMatch_of_not_mem (fun _ ↦ envVarRun_eq_none) h

theorem noMatch_envVarBrackets {text : List Char} (h : '$' ∉ text) :
    NoMatch envVarBrackets text :=
  noMatch_of_not_mem (fun _ ↦ envVarBracketsRun_eq_none) h

/-! ## The substitutor -/

/-- `EnvSubstitutor`: the names the last substitution replaced, the global bag if there is one
(a lookup of the process environment), and the local variables. -/
structure EnvSubstitutor where
  replaced : List (List Char) := []
  globalVars : Option (List Char → Option (List Char)) := none
  localVars : List (List Char × Option (List Char)) := []

namespace EnvSubstitutor

/-- `EnvSubstitutor::with_global_vars`. -/
def withGlobalVars (sub : EnvSubstitutor) (vars : List Char → Option (List Char)) :
    EnvSubstitutor :=
  { sub with globalVars := some vars }

/-- `EnvSubstitutor::with_local_vars`. -/
def withLocalVars (sub : EnvSubstitutor) (vars : List (List Char × Option (List Char))) :
    EnvSubstitutor :=
  { sub with localVars := IndexMap.extend sub.localVars vars }

/-- `EnvSubstitutor::get_token_value`: the reference itself, in brackets for the Ion namespace. -/
def getTokenValue (ns key : List Char) : List Char :=
  if ns = "env::".toList then '$' :: '{' :: ns ++ key ++ ['}'] else '$' :: ns ++ key

/-- `EnvSubstitutor::get_replacement_value`: a local value, unless the variable refers to itself,
else a global one, else nothing. -/
def getReplacementValue (sub : EnvSubstitutor) (key : List Char)
    (parentKey : Option (List Char)) : List Char :=
  let isSelf := parentKey == some key
  match (if isSelf then none else IndexMap.get? sub.localVars key), sub.globalVars.bind (· key) with
  | some (some val), _ => val
  | _, some val => val
  | _, _ => []

/-- The closure of the first pass: `$NAME` becomes the value of `NAME`. -/
def replaceVar (sub : EnvSubstitutor) (parentKey : Option (List Char)) (caps : VarCaptures)
    (substituted : List (List Char)) : List Char × List (List Char) :=
  (sub.getReplacementValue caps.name parentKey, substituted.insert caps.name)

/-- The closure of the second pass: `${NAME}` as its flag says. -/
def replaceBrackets (sub : EnvSubstitutor) (parentKey : Option (List Char))
    (caps : BracketCaptures) (substituted : List (List Char)) : List Char × List (List Char) :=
  let substituted := substituted.insert caps.name
  let value := sub.getReplacementValue caps.name parentKey
  match caps.flag with
  -- don't expand
  | some .bang => (getTokenValue caps.ns caps.name, substituted.erase caps.name)
  -- only expand if not empty
  | some .question =>
    (if value.isEmpty then getTokenValue caps.ns caps.name else value, substituted)
  -- expand with default if empty
  | some .colon | some .colonDash | some .dash =>
    (if value.isEmpty then caps.fallback else value, substituted)
  -- expand with alternate if not empty
  | some .colonPlus | some .plus => (if value.isEmpty then value else caps.fallback, substituted)
  | none => (value, substituted)

/-- `EnvSubstitutor::do_substitute`: the text, and the substitutor with the names it replaced. -/
def doSubstitute (sub : EnvSubstitutor) (value : List Char) (parentKey : Option (List Char)) :
    List Char × EnvSubstitutor :=
  if '$' ∉ value then (value, { sub with replaced := [] })
  else
    -- non-bracketed references first, bracketed ones last
    let first := replaceAll envVar (sub.replaceVar parentKey) value []
    let second := replaceAll envVarBrackets (sub.replaceBrackets parentKey) first.1 first.2
    (second.1, { sub with replaced := second.2 })

/-- `EnvSubstitutor::substitute`. -/
def substitute (sub : EnvSubstitutor) (value : List Char) : List Char × EnvSubstitutor :=
  sub.doSubstitute value none

/-- `EnvSubstitutor::substitute_with_key`: a variable's own name is not read from the locals. -/
def substituteWithKey (sub : EnvSubstitutor) (key value : List Char) :
    List Char × EnvSubstitutor :=
  sub.doSubstitute value (some key)

/-- `EnvSubstitutor::substitute_all`: every value substituted under its own key. -/
def substituteAll (sub : EnvSubstitutor) (vars : List (List Char × Option (List Char))) :
    List (List Char × Option (List Char)) × EnvSubstitutor :=
  vars.foldl
    (fun acc entry ↦
      match entry.2 with
      | some val =>
        let result := acc.2.substituteWithKey entry.1 val
        (IndexMap.insert acc.1 entry.1 (some result.1), result.2)
      | none => (IndexMap.insert acc.1 entry.1 none, acc.2))
    ([], sub)

/-! ## The two forms of a reference -/

/-- **`$N` is replaced by the value of `N`, and the second pass then runs over that value.** -/
theorem substitute_dollar (sub : EnvSubstitutor) {N : List Char} (hN : PlainName N) :
    (sub.substitute ('$' :: N)).1
      = (replaceAll envVarBrackets (sub.replaceBrackets none) (sub.getReplacementValue N none)
          [N]).1 := by
  have hrun : envVar.run ('$' :: N) = some (⟨[], N⟩, 1 + N.length) := envVarRun_name hN
  have hdrop : ('$' :: N).drop (1 + N.length) = [] := by simp [Nat.add_comm]
  unfold substitute doSubstitute
  rw [if_neg (by simp)]
  dsimp only
  rw [replaceAll_of_run_some hrun, hdrop, replaceAll_nil]
  simp [replaceVar]

/-- **`${N}` is replaced by the value of `N`, which is not searched again.** -/
theorem substitute_brackets (sub : EnvSubstitutor) {N : List Char} (hN : PlainName N) :
    (sub.substitute ('$' :: '{' :: (N ++ ['}']))).1 = sub.getReplacementValue N none := by
  -- the first pass finds nothing: its only `$` is followed by `{`
  have hfirst : NoMatch envVar ('$' :: '{' :: (N ++ ['}'])) := by
    refine noMatch_cons (envVarRun_brace (N ++ ['}'])) (noMatch_envVar ?_)
    intro hmem
    rcases List.mem_cons.1 hmem with h | h
    · cases h
    · rcases List.mem_append.1 h with h | h
      · exact absurd (hN.isNameChar '$' h) (by decide)
      · simp at h
  have hrun : envVarBrackets.run ('$' :: '{' :: (N ++ ['}']))
      = some (⟨[], N, none, []⟩, N.length + 3) := envVarBracketsRun_name hN
  have hdrop : ('$' :: '{' :: (N ++ ['}'])).drop (N.length + 3) = [] := by simp
  unfold substitute doSubstitute
  rw [if_neg (by simp)]
  dsimp only
  rw [replaceAll_of_noMatch hfirst, replaceAll_of_run_some hrun, hdrop, replaceAll_nil]
  simp [replaceBrackets]

/-- The two forms agree exactly when the bracketed pass leaves the value alone. -/
theorem substitute_dollar_eq_brackets_iff (sub : EnvSubstitutor) {N : List Char}
    (hN : PlainName N) :
    (sub.substitute ('$' :: N)).1 = (sub.substitute ('$' :: '{' :: (N ++ ['}']))).1
      ↔ (replaceAll envVarBrackets (sub.replaceBrackets none) (sub.getReplacementValue N none)
          [N]).1 = sub.getReplacementValue N none := by
  rw [substitute_dollar sub hN, substitute_brackets sub hN]

/-- A value without `$` reads the same through both forms. -/
theorem substitute_dollar_eq_brackets (sub : EnvSubstitutor) {N : List Char} (hN : PlainName N)
    (hvalue : '$' ∉ sub.getReplacementValue N none) :
    (sub.substitute ('$' :: N)).1 = (sub.substitute ('$' :: '{' :: (N ++ ['}']))).1 := by
  rw [substitute_dollar_eq_brackets_iff sub hN,
    replaceAll_of_noMatch (noMatch_envVarBrackets hvalue)]

/-- `$N` and `${N}` both read `x` when `N` is `x`. -/
theorem substitute_plain_value_both_ways :
    (({ localVars := [("N".toList, some "x".toList)] } : EnvSubstitutor).substitute
        ('$' :: "N".toList)).1 =
      (({ localVars := [("N".toList, some "x".toList)] } : EnvSubstitutor).substitute
        ('$' :: '{' :: ("N".toList ++ ['}']))).1 :=
  substitute_dollar_eq_brackets _
    ⟨by simp, by simp [isNameChar], fun h ↦ by simpa using h.length_le⟩ (by decide)

/-- A value with a bracketed reference in it is expanded again through `$N`, and not through
`${N}`. -/
theorem substitute_expands_inserted_value :
    (({ localVars := [("N".toList, some "${X}".toList), ("X".toList, some "x".toList)] } :
        EnvSubstitutor).substitute "$N".toList).1 = "x".toList ∧
      (({ localVars := [("N".toList, some "${X}".toList), ("X".toList, some "x".toList)] } :
        EnvSubstitutor).substitute "${N}".toList).1 = "${X}".toList :=
  ⟨rfl, rfl⟩

end EnvSubstitutor

end Moon
