import Mathlib.Data.List.Basic

/-!
# Hash maps whose keys bring their own equality and hash

A Rust `HashMap<K, V>` finds a key in two steps.  It hashes the key to choose the entries it looks
at, and only then compares the key with those entries by `PartialEq`.  Both functions belong to
the key type, and the map is only correct when they agree: keys that compare equal must hash
alike.  That is the contract of `std::hash::Hash` (`Compatible`).  When it is broken the standard
library calls it a logic error.  A key that compares equal to a stored one but hashes differently
is then not compared with it at all.

The model keeps the entries in insertion order.  A lookup finds the first entry whose key has
the hash of the key looked up and compares equal to it (`get`), and an insert that finds no
entry appends one (`insert`).  The test tries plain identity of the two keys before their
hashes, since identical keys hash alike whatever the hash function is (`found_eq`).  A lookup of
a key identical to a stored one therefore never has to compute a hash.  Under the contract the
hash test drops nothing, and the map is an association list under the key's own equality
(`found_of_compatible`).

`IndexMap.eq` is the `PartialEq` of an `IndexMap`, an insertion-ordered map: it compares the
entries and ignores their order.
-/

set_option autoImplicit false

namespace HashTable

variable {κ ν η : Type} [DecidableEq κ] [DecidableEq η] (hash : κ → η) (eq : κ → κ → Bool)

/-- The stored entry is the one a lookup of `key` finds: its key compares equal to `key`, and
has the same hash. -/
def Found (key : κ) (entry : κ × ν) : Bool :=
  eq entry.1 key && (decide (entry.1 = key) || decide (hash entry.1 = hash key))

/-- `HashMap::get`. -/
def get (entries : List (κ × ν)) (key : κ) : Option ν :=
  (entries.find? (Found hash eq key)).map Prod.snd

/-- `HashMap::insert`: the entry a lookup of the key finds keeps its key and takes the new
value; a key that finds none is appended. -/
def insert (entries : List (κ × ν)) (key : κ) (value : ν) : List (κ × ν) :=
  match entries.findIdx? (Found hash eq key) with
  | some i => entries.modify i fun entry ↦ (entry.1, value)
  | none => entries ++ [(key, value)]

/-- The contract of `Hash`: keys that compare equal hash alike. -/
def Compatible : Prop := ∀ a b, eq a b = true → hash a = hash b

variable {hash eq}

/-- Identity before hashes changes nothing: an identical key has the same hash. -/
theorem found_eq (key : κ) (entry : κ × ν) :
    Found hash eq key entry = (eq entry.1 key && decide (hash entry.1 = hash key)) := by
  unfold Found
  by_cases h : entry.1 = key
  · simp [h]
  · simp [h]

/-- **Under the contract, a lookup finds an entry exactly when the keys compare equal.** -/
theorem found_of_compatible (hc : Compatible hash eq) (key : κ) (entry : κ × ν) :
    Found hash eq key entry = eq entry.1 key := by
  rw [found_eq]
  cases he : eq entry.1 key with
  | false => rfl
  | true => simp [hc _ _ he]

theorem get_eq_none_iff {entries : List (κ × ν)} {key : κ} :
    get hash eq entries key = none ↔ ∀ entry ∈ entries, Found hash eq key entry = false := by
  simp [get, List.find?_eq_none]

end HashTable

namespace IndexMap

variable {κ ν : Type} [BEq κ] [BEq ν]

/-- `PartialEq` of `IndexMap`: as many entries, and every entry of the first one is an entry of
the second one.  The order of the entries does not count. -/
def eq (a b : List (κ × ν)) : Bool :=
  a.length == b.length && a.all fun entry ↦ (b.lookup entry.1).any (entry.2 == ·)

end IndexMap
