import Mathlib.Data.List.DropRight
import Mathlib.Data.List.Infix

/-!
# Character classes and searches of Rust's `str`

The `char` predicates and the `str` searches a parser uses, on the characters of a string:

* `Str.isWhitespace`, `Str.isAlphabetic`, `Str.isNumeric` and `Str.isAlphanumeric` are the `char`
  methods.  Each tests ASCII by ranges and the rest against a Unicode table; the table of
  `White_Space` is short and written out, the other two are the fields of `UnicodeTables`, which
  also carries the one fact about them that a parser needs: no white space is alphabetic or
  numeric.
* `Str.trim`, `Str.stripPrefix` and `Str.rfind` are `str::trim`, `str::strip_prefix` and
  `str::rfind` with a string pattern.

Positions here count characters where Rust counts bytes.  A parser that only cuts a string at
the positions its own searches return, and compares such positions with each other, computes
the same substrings either way, since the byte offset of a character grows with its position.

The lemmas are the ones a proof about a parser needs: `rfind` finds an occurrence, and the last
one (`rfind_append_of_eq_some`, `rfind_eq_none_iff`, `isPrefix_drop_of_rfind`), and `trim` of a
line that ends in a non-blank marker only trims what follows the marker (`trim_append_cons`).
-/

set_option autoImplicit false

namespace Str

/-! ## Character classes -/

/-- `char::is_whitespace`: ASCII space and `\t` to `\r`, and above ASCII the `White_Space`
characters. -/
def isWhitespace (c : Char) : Bool :=
  c.toNat == 32 || (9 ≤ c.toNat && c.toNat ≤ 13) ||
    (127 < c.toNat &&
      (c.toNat == 0x85 || c.toNat == 0xA0 || c.toNat == 0x1680 ||
        (0x2000 ≤ c.toNat && c.toNat ≤ 0x200A) || c.toNat == 0x2028 || c.toNat == 0x2029 ||
        c.toNat == 0x202F || c.toNat == 0x205F || c.toNat == 0x3000))

/-- The Unicode tables `char::is_alphabetic` and `char::is_numeric` consult above ASCII.  No
`White_Space` character is `Alphabetic` or `Numeric`. -/
structure UnicodeTables where
  alphabetic : Char → Bool
  numeric : Char → Bool
  apart : ∀ c, isWhitespace c = true → alphabetic c = false ∧ numeric c = false

variable (tables : UnicodeTables)

/-- `char::is_alphabetic`. -/
def isAlphabetic (c : Char) : Bool :=
  ('a' ≤ c && c ≤ 'z') || ('A' ≤ c && c ≤ 'Z') || (127 < c.toNat && tables.alphabetic c)

/-- `char::is_numeric`. -/
def isNumeric (c : Char) : Bool :=
  ('0' ≤ c && c ≤ '9') || (127 < c.toNat && tables.numeric c)

/-- `char::is_alphanumeric`. -/
def isAlphanumeric (c : Char) : Bool :=
  isAlphabetic tables c || isNumeric tables c

variable {tables}

/-- White space is never alphanumeric: in ASCII by the ranges, above it by the tables. -/
theorem isAlphanumeric_of_isWhitespace {c : Char} (h : isWhitespace c = true) :
    isAlphanumeric tables c = false := by
  obtain ⟨ha, hn⟩ := tables.apart c h
  unfold isWhitespace at h
  simp only [isAlphanumeric, isAlphabetic, isNumeric, ha, hn, Bool.and_false, Bool.or_false]
  simp only [Char.le_def, UInt32.le_iff_toNat_le]
  simp at h ⊢
  omega

/-! ## Trimming -/

/-- `str::trim`: drop the white space at both ends. -/
def trim (cs : List Char) : List Char :=
  (cs.dropWhile isWhitespace).rdropWhile isWhitespace

/-- Dropping from the right stops at the last character it must keep. -/
theorem rdropWhile_append_cons {p : Char → Bool} {x : Char} (hx : p x = false)
    (l c : List Char) : (l ++ x :: c).rdropWhile p = l ++ x :: c.rdropWhile p := by
  unfold List.rdropWhile
  rw [List.reverse_append, List.reverse_cons, List.append_assoc, List.dropWhile_append]
  split
  · rename_i hc
    rw [List.singleton_append, List.dropWhile_cons_of_neg (by simp [hx]),
      List.isEmpty_iff.1 hc]
    simp
  · simp

/-- A string without white space is its own trim. -/
theorem trim_eq_self {cs : List Char} (h : ∀ c ∈ cs, isWhitespace c = false) : trim cs = cs := by
  have hdrop : cs.dropWhile isWhitespace = cs := by
    rw [List.dropWhile_eq_self_iff]
    intro hl
    simp [h _ (List.getElem_mem hl)]
  unfold trim
  rw [hdrop, List.rdropWhile_eq_self_iff]
  intro hl
  simp [h _ (List.getLast_mem hl)]

/-- A line whose first character and some later marker are not white space only loses the white
space after the marker. -/
theorem trim_append_cons {k x : Char} (hk : isWhitespace k = false) (hx : isWhitespace x = false)
    (l c : List Char) :
    trim (k :: l ++ x :: c) = k :: l ++ x :: c.rdropWhile isWhitespace := by
  unfold trim
  rw [List.cons_append, List.dropWhile_cons_of_neg (by simp [hk]), ← List.cons_append,
    rdropWhile_append_cons hx]

/-! ## Searches -/

/-- `str::strip_prefix` with a string pattern. -/
def stripPrefix (pat cs : List Char) : Option (List Char) :=
  if pat.isPrefixOf cs then some (cs.drop pat.length) else none

/-- `str::rfind` with a string pattern: where its last occurrence starts. -/
def rfind (pat : List Char) : List Char → Option ℕ
  | [] => none
  | c :: cs =>
    match rfind pat cs with
    | some i => some (i + 1)
    | none => if pat.isPrefixOf (c :: cs) then some 0 else none

variable {pat : List Char}

theorem rfind_nil : rfind pat [] = none := rfl

theorem rfind_cons (c : Char) (cs : List Char) :
    rfind pat (c :: cs) =
      match rfind pat cs with
      | some i => some (i + 1)
      | none => if pat.isPrefixOf (c :: cs) then some 0 else none :=
  rfl

/-- An occurrence in the rest of the string comes after one at the front. -/
theorem rfind_cons_of_eq_some {c : Char} {cs : List Char} {i : ℕ} (h : rfind pat cs = some i) :
    rfind pat (c :: cs) = some (i + 1) := by
  rw [rfind_cons, h]

theorem rfind_append_of_eq_some {s : List Char} {i : ℕ} (h : rfind pat s = some i) :
    ∀ l : List Char, rfind pat (l ++ s) = some (l.length + i)
  | [] => by simpa using h
  | c :: l => by
    rw [List.cons_append, rfind_cons_of_eq_some (rfind_append_of_eq_some h l),
      List.length_cons]
    ac_rfl

/-- With no later occurrence, `rfind` reports the one at the front. -/
theorem rfind_of_isPrefix {c : Char} {cs : List Char} (h : pat <+: c :: cs)
    (hn : rfind pat cs = none) : rfind pat (c :: cs) = some 0 := by
  rw [rfind_cons, hn, if_pos (List.isPrefixOf_iff_prefix.2 h)]

theorem rfind_eq_none_iff (hp : pat ≠ []) :
    ∀ {cs : List Char}, rfind pat cs = none ↔ ¬ pat <:+: cs
  | [] => by simp [rfind_nil, hp]
  | c :: cs => by
    rw [List.infix_cons_iff, not_or, ← rfind_eq_none_iff hp, rfind_cons]
    cases rfind pat cs with
    | some i => simp
    | none => simp [List.isPrefixOf_iff_prefix]

/-- What `rfind` reports is an occurrence. -/
theorem isPrefix_drop_of_rfind : ∀ {cs : List Char} {i : ℕ}, rfind pat cs = some i →
    pat <+: cs.drop i
  | [], _, h => by cases h
  | c :: cs, i, h => by
    rw [rfind_cons] at h
    cases hr : rfind pat cs with
    | some j =>
      rw [hr, Option.some.injEq] at h
      subst h
      rw [List.drop_succ_cons]
      exact isPrefix_drop_of_rfind hr
    | none =>
      rw [hr] at h
      split_ifs at h with hpre
      cases h
      exact List.isPrefixOf_iff_prefix.1 hpre

/-- The last occurrence of a character missing from the end of a string lies before that end. -/
theorem lt_of_rfind_singleton {q : Char} {l s : List Char} {r : ℕ} (hq : q ∉ s)
    (h : rfind [q] (l ++ s) = some r) : r < l.length := by
  by_contra hr
  obtain ⟨k, rfl⟩ : ∃ k, r = l.length + k := ⟨r - l.length, by omega⟩
  have hpre := isPrefix_drop_of_rfind h
  rw [List.drop_append, List.drop_eq_nil_of_le (by omega), List.nil_append,
    Nat.add_sub_cancel_left] at hpre
  exact hq (List.mem_of_mem_drop (hpre.subset (List.mem_singleton_self q)))

end Str
