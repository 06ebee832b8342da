import Mathlib.Algebra.BigOperators.Group.List.Basic
import Mathlib.Data.List.Basic
import Mathlib.Algebra.GroupWithZero.Nat

/-!
# Byte-indexed strings

A Rust `str` is UTF-8, and every index into it is a *byte* index: `s.len()` counts bytes, and the
slice `&s[lo..hi]` takes the bytes `lo..hi`.  Slicing panics unless `lo ≤ hi ≤ s.len()` and both
ends fall on character boundaries.  A Lean `String` is a sequence of characters, so this file
supplies the byte-level view:

* `Str.byteLen` is `str::len`;
* `Str.dropBytes` and `Str.takeBytes` cut a character list after a number of bytes, and fail —
  return `none` — exactly when that number is not a boundary;
* `Str.slice`, `Str.sliceFrom` and `Str.sliceTo` are `&s[lo..hi]`, `&s[lo..]` and `&s[..hi]`, with
  `none` where Rust panics.

On an ASCII string every character is one byte, so bytes and characters coincide and the three
slices are `List.drop` and `List.take` (`Str.dropBytes_ascii`, `Str.takeBytes_ascii`).  That is
the case every caller in this development relies on, for hex digests and for identifiers.
-/

set_option autoImplicit false

namespace Str

/-- `str::len`: the length of a string in bytes of its UTF-8 encoding. -/
def byteLen (s : String) : ℕ := (s.toList.map Char.utf8Size).sum

/-- A character is ASCII when it is encoded as a single byte. -/
def IsAscii (c : Char) : Prop := c.utf8Size = 1

instance (c : Char) : Decidable (IsAscii c) := inferInstanceAs (Decidable (c.utf8Size = 1))

/-- The characters after the first `n` bytes of `cs`, when byte `n` is a character boundary. -/
def dropBytes : List Char → ℕ → Option (List Char)
  | cs, 0 => some cs
  | [], _ + 1 => none
  | c :: cs, n + 1 => if c.utf8Size ≤ n + 1 then dropBytes cs (n + 1 - c.utf8Size) else none

theorem dropBytes_zero (cs : List Char) : dropBytes cs 0 = some cs := by
  cases cs <;> rfl

theorem dropBytes_cons_succ (c : Char) (cs : List Char) (n : ℕ) :
    dropBytes (c :: cs) (n + 1)
      = if c.utf8Size ≤ n + 1 then dropBytes cs (n + 1 - c.utf8Size) else none :=
  rfl

/-- The characters that make up the first `n` bytes of `cs`, when byte `n` is a character
boundary. -/
def takeBytes : List Char → ℕ → Option (List Char)
  | _, 0 => some []
  | [], _ + 1 => none
  | c :: cs, n + 1 =>
    if c.utf8Size ≤ n + 1 then (takeBytes cs (n + 1 - c.utf8Size)).map (c :: ·) else none

theorem takeBytes_zero (cs : List Char) : takeBytes cs 0 = some [] := by
  cases cs <;> rfl

theorem takeBytes_cons_succ (c : Char) (cs : List Char) (n : ℕ) :
    takeBytes (c :: cs) (n + 1)
      = if c.utf8Size ≤ n + 1 then (takeBytes cs (n + 1 - c.utf8Size)).map (c :: ·) else none :=
  rfl

/-- `&s[lo..hi]`, or `none` where Rust panics. -/
def slice (s : String) (lo hi : ℕ) : Option String :=
  if lo ≤ hi then
    (dropBytes s.toList lo).bind fun rest ↦ (takeBytes rest (hi - lo)).map String.ofList
  else none

/-- `&s[lo..]`, or `none` where Rust panics. -/
def sliceFrom (s : String) (lo : ℕ) : Option String := (dropBytes s.toList lo).map String.ofList

/-- `&s[..hi]`, or `none` where Rust panics. -/
def sliceTo (s : String) (hi : ℕ) : Option String := (takeBytes s.toList hi).map String.ofList

/-- `&s[lo..hi]` on the characters of a string, or `none` where Rust panics. -/
def sliceBytes (cs : List Char) (lo hi : ℕ) : Option (List Char) :=
  if lo ≤ hi then (dropBytes cs lo).bind fun rest ↦ takeBytes rest (hi - lo) else none

/-- `str::find` with a string pattern: the byte offset at which its first occurrence starts. -/
def find (pat : List Char) : List Char → Option ℕ
  | [] => if pat = [] then some 0 else none
  | c :: cs => if pat.isPrefixOf (c :: cs) then some 0 else (find pat cs).map (c.utf8Size + ·)

theorem find_cons (pat : List Char) (c : Char) (cs : List Char) :
    find pat (c :: cs)
      = if pat.isPrefixOf (c :: cs) then some 0 else (find pat cs).map (c.utf8Size + ·) :=
  rfl

/-- ASCII characters are one byte each. -/
theorem sum_utf8Size_of_ascii {cs : List Char} (h : ∀ c ∈ cs, IsAscii c) :
    (cs.map Char.utf8Size).sum = cs.length := by
  induction cs with
  | nil => rfl
  | cons c cs ih =>
    rw [List.map_cons, List.sum_cons, List.length_cons,
      ih fun c' hc' ↦ h c' (List.mem_cons_of_mem c hc'), h c List.mem_cons_self, Nat.add_comm]

theorem byteLen_of_ascii {s : String} (h : ∀ c ∈ s.toList, IsAscii c) :
    byteLen s = s.length := by
  rw [byteLen, sum_utf8Size_of_ascii h, String.length_toList]

/-- An ASCII hex digit is one byte. -/
theorem isAscii_of_isHexDigit {c : Char} (h : c.isHexDigit = true) : IsAscii c := by
  have hc : c.toNat = c.val.toNat := rfl
  have hv : c.val.toNat ≤ 102 := by
    simp [Char.isHexDigit, Char.isDigit, UInt32.le_iff_toNat_le] at h
    omega
  unfold IsAscii Char.utf8Size
  rw [if_pos (by rw [UInt32.le_iff_toNat_le]; simpa using (by omega : c.val.toNat ≤ 127))]

/-- On ASCII characters, dropping bytes is dropping characters. -/
theorem dropBytes_ascii {cs : List Char} (h : ∀ c ∈ cs, IsAscii c) {n : ℕ}
    (hn : n ≤ cs.length) : dropBytes cs n = some (cs.drop n) := by
  induction cs generalizing n with
  | nil =>
    obtain rfl : n = 0 := by simpa using hn
    rfl
  | cons c cs ih =>
    cases n with
    | zero => rfl
    | succ n =>
      have hc : c.utf8Size = 1 := h c List.mem_cons_self
      rw [dropBytes_cons_succ, if_pos (by omega), hc, Nat.add_sub_cancel,
        ih (fun c' hc' ↦ h c' (List.mem_cons_of_mem c hc')) (by simpa using hn)]
      rfl

/-- On ASCII characters, taking bytes is taking characters. -/
theorem takeBytes_ascii {cs : List Char} (h : ∀ c ∈ cs, IsAscii c) {n : ℕ}
    (hn : n ≤ cs.length) : takeBytes cs n = some (cs.take n) := by
  induction cs generalizing n with
  | nil =>
    obtain rfl : n = 0 := by simpa using hn
    rfl
  | cons c cs ih =>
    cases n with
    | zero => rfl
    | succ n =>
      have hc : c.utf8Size = 1 := h c List.mem_cons_self
      rw [takeBytes_cons_succ, if_pos (by omega), hc, Nat.add_sub_cancel,
        ih (fun c' hc' ↦ h c' (List.mem_cons_of_mem c hc')) (by simpa using hn)]
      rfl

/-- On an ASCII string, `&s[..n]` is the first `n` characters. -/
theorem sliceTo_ascii {s : String} (h : ∀ c ∈ s.toList, IsAscii c) {n : ℕ} (hn : n ≤ s.length) :
    sliceTo s n = some (String.ofList (s.toList.take n)) := by
  rw [sliceTo, takeBytes_ascii h (by rwa [String.length_toList])]
  rfl

/-- On an ASCII string, `&s[n..]` is what follows the first `n` characters. -/
theorem sliceFrom_ascii {s : String} (h : ∀ c ∈ s.toList, IsAscii c) {n : ℕ}
    (hn : n ≤ s.length) : sliceFrom s n = some (String.ofList (s.toList.drop n)) := by
  rw [sliceFrom, dropBytes_ascii h (by rwa [String.length_toList])]
  rfl

/-- Dropping the bytes of a whole prefix leaves what follows it. -/
theorem dropBytes_append (cs rest : List Char) :
    dropBytes (cs ++ rest) (cs.map Char.utf8Size).sum = some rest := by
  induction cs with
  | nil => rw [List.nil_append, List.map_nil, List.sum_nil, dropBytes_zero]
  | cons c cs ih =>
    have hpos := Char.utf8Size_pos c
    rw [List.map_cons, List.sum_cons, List.cons_append]
    obtain ⟨n, hn⟩ : ∃ n, c.utf8Size + (cs.map Char.utf8Size).sum = n + 1 :=
      ⟨_, (Nat.succ_pred_eq_of_pos (by omega)).symm⟩
    rw [hn, dropBytes_cons_succ, if_pos (by omega)]
    have hsub : n + 1 - c.utf8Size = (cs.map Char.utf8Size).sum := by omega
    rw [hsub, ih]

/-- Taking the bytes of a whole prefix gives that prefix. -/
theorem takeBytes_append (cs rest : List Char) :
    takeBytes (cs ++ rest) (cs.map Char.utf8Size).sum = some cs := by
  induction cs with
  | nil => rw [List.map_nil, List.sum_nil, takeBytes_zero]
  | cons c cs ih =>
    have hpos := Char.utf8Size_pos c
    rw [List.map_cons, List.sum_cons, List.cons_append]
    obtain ⟨n, hn⟩ : ∃ n, c.utf8Size + (cs.map Char.utf8Size).sum = n + 1 :=
      ⟨_, (Nat.succ_pred_eq_of_pos (by omega)).symm⟩
    rw [hn, takeBytes_cons_succ, if_pos (by omega)]
    have hsub : n + 1 - c.utf8Size = (cs.map Char.utf8Size).sum := by omega
    rw [hsub, ih]
    rfl

/-- A pattern at the front is found there. -/
theorem find_of_isPrefix {pat cs : List Char} (h : pat <+: cs) : find pat cs = some 0 := by
  cases cs with
  | nil =>
    rw [List.prefix_nil.1 h]
    rfl
  | cons c cs => rw [find_cons, if_pos (List.isPrefixOf_iff_prefix.2 h)]

/-- Where no occurrence starts inside `a`, the first one in `a ++ s` is the first one in `s`,
the bytes of `a` further on. -/
theorem find_append {pat s : List Char} :
    ∀ {a : List Char}, (∀ t, t <:+ a → t ≠ [] → ¬ pat <+: t ++ s) →
      find pat (a ++ s) = (find pat s).map ((a.map Char.utf8Size).sum + ·)
  | [], _ => by simp
  | c :: a, h => by
    have hfront : ¬ pat <+: c :: (a ++ s) := h (c :: a) (List.suffix_refl _) (List.cons_ne_nil _ _)
    have hrest := find_append (a := a) fun t ht hne ↦ h t (ht.trans (List.suffix_cons c a)) hne
    rw [List.cons_append, find_cons, if_neg (mt List.isPrefixOf_iff_prefix.1 hfront), hrest,
      Option.map_map]
    congr 1
    funext n
    simp [Nat.add_assoc]

/-- `&s[..n]` followed by `&s[n..]` is `s` again. -/
theorem ofList_take_append_drop (s : String) (n : ℕ) :
    String.ofList (s.toList.take n) ++ String.ofList (s.toList.drop n) = s := by
  rw [← String.ofList_append, List.take_append_drop, String.ofList_toList]

end Str
