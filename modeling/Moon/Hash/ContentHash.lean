import Moon.Lib.Str
import Moon.Lib.Outcome

/-!
# Content hashes and digests

`crates/hash`.  A `ContentHash` wraps the hex spelling of a SHA-256 digest, and a `Digest` pairs
one with a size in bytes.  The type's doc comment calls it a "64-character hex string", but only
`ContentHash::from_hex` checks that: the derived `Default` is the empty string, which
`Digest::default()` — the blank digest the cache backends are handed — relies on, and serde
`Deserialize` takes any string, so that manifests already on disk stay readable.

`IsHexDigest` is the representation invariant, and `HexHash` a hash that carries it.  Every hash
`from_hex` accepts is one (`fromHex_ok_iff`), hence every hash `hash_bytes` and `hash_file` build;
for such a hash the two byte slices `prefix()` and `suffix()` are defined, and joined they give
back the hash (`HexHash.fromHex_shard_append_blobName`).  The object store builds on that in
`Moon.Cas.Store`.
-/

set_option autoImplicit false

namespace Moon

/-- The representation invariant of a content hash: 64 characters, each an ASCII hex digit
(`char::is_ascii_hexdigit` is `Char.isHexDigit`). -/
def IsHexDigest (s : String) : Prop := s.length = 64 ∧ ∀ c ∈ s.toList, c.isHexDigit = true

instance : DecidablePred IsHexDigest := fun s ↦
  inferInstanceAs (Decidable (s.length = 64 ∧ ∀ c ∈ s.toList, c.isHexDigit = true))

/-- `ContentHash`: the string it wraps (an `Arc<CompactString>`). -/
structure ContentHash where
  val : String
deriving DecidableEq, Repr

/-- The derived `Default`: the empty string. -/
instance : Inhabited ContentHash := ⟨⟨""⟩⟩

/-- `HashError`. -/
inductive HashError where
  | invalidContentHash (hash : String)
deriving DecidableEq, Repr

/-- The text of a `HashError`. -/
def HashError.message : HashError → String
  | .invalidContentHash hash =>
    "Invalid SHA256 content hash: expected 64 hex characters, got " ++ hash ++ "."

namespace ContentHash

/-- `ContentHash::from_hex`: the length test is on bytes (`str::len`). -/
def fromHex (hex : String) : Except HashError ContentHash :=
  if Str.byteLen hex ≠ 64 ∨ !hex.toList.all Char.isHexDigit then .error (.invalidContentHash hex)
  else .ok ⟨hex⟩

/-- `ContentHash::hash_bytes`, over the hex encoder `hash::sha256::from_bytes`. -/
def hashBytes (sha256 : List UInt8 → String) (bytes : List UInt8) :
    Except HashError ContentHash :=
  fromHex (sha256 bytes)

/-- `ContentHash::hash_file`, over `hash::sha256::from_file`, which reads the file and may fail. -/
def hashFile {P : Type} (sha256File : P → Except String String) (path : P) :
    Except String ContentHash := do
  let hex ← sha256File path
  (fromHex hex).mapError HashError.message

/-- serde `Deserialize`: the string as read, unchecked. -/
def deserialize (s : String) : ContentHash := ⟨s⟩

/-- `ContentHash::prefix`, `&self.0[..2]` (the shard directory name); `none` where it panics. -/
def hashPrefix (h : ContentHash) : Option String := Str.sliceTo h.val 2

/-- `ContentHash::suffix`, `&self.0[2..]` (the blob file name); `none` where it panics. -/
def hashSuffix (h : ContentHash) : Option String := Str.sliceFrom h.val 2

/-- What `from_hex` accepts is exactly the strings that keep the invariant, unchanged. -/
theorem fromHex_ok_iff {hex : String} {h : ContentHash} :
    fromHex hex = .ok h ↔ h.val = hex ∧ IsHexDigest hex := by
  unfold fromHex
  by_cases hall : hex.toList.all Char.isHexDigit = true
  · have hascii : ∀ c ∈ hex.toList, Str.IsAscii c := fun c hc ↦
      Str.isAscii_of_isHexDigit (List.all_eq_true.1 hall c hc)
    rw [Str.byteLen_of_ascii hascii]
    by_cases hlen : hex.length = 64
    · simp only [hlen, hall, ne_eq, not_true_eq_false, Bool.not_true, Bool.false_eq_true,
        or_self, ↓reduceIte, Except.ok.injEq]
      exact ⟨fun h' ↦ ⟨by rw [← h'], hlen, List.all_eq_true.1 hall⟩,
        fun ⟨hv, _⟩ ↦ by rw [← hv]⟩
    · simp [hlen, IsHexDigest]
  · have : ¬ ∀ c ∈ hex.toList, c.isHexDigit = true := fun h' ↦ hall (List.all_eq_true.2 h')
    simp [hall, IsHexDigest, this]

/-- `hash_bytes` keeps the invariant: what it returns, `from_hex` accepted. -/
theorem hashBytes_eq_ok {sha256 : List UInt8 → String} {bytes : List UInt8} {h : ContentHash}
    (hok : hashBytes sha256 bytes = .ok h) : fromHex h.val = .ok h := by
  obtain ⟨hv, hvalid⟩ := fromHex_ok_iff.1 hok
  rw [← hv] at hvalid
  exact fromHex_ok_iff.2 ⟨rfl, hvalid⟩

/-- `hash_file` keeps the invariant: what it returns, `from_hex` accepted. -/
theorem hashFile_eq_ok {P : Type} {sha256File : P → Except String String} {path : P}
    {h : ContentHash} (hok : hashFile sha256File path = .ok h) : fromHex h.val = .ok h := by
  obtain ⟨hex, -, hmapped⟩ := Except.bind_eq_ok hok
  cases hres : fromHex hex with
  | error e =>
    rw [hres] at hmapped
    cases hmapped
  | ok h' =>
    rw [hres] at hmapped
    cases hmapped
    obtain ⟨rfl, hvalid⟩ := fromHex_ok_iff.1 hres
    exact fromHex_ok_iff.2 ⟨rfl, hvalid⟩

end ContentHash

/-- A content hash that keeps the representation invariant. -/
structure HexHash where
  hash : ContentHash
  valid : IsHexDigest hash.val

namespace HexHash

/-- Every hash `from_hex` returns keeps the invariant. -/
def ofFromHex {hex : String} {h : ContentHash} (hok : ContentHash.fromHex hex = .ok h) :
    HexHash :=
  ⟨h, by obtain ⟨rfl, hvalid⟩ := ContentHash.fromHex_ok_iff.1 hok; exact hvalid⟩

variable (h : HexHash)

/-- The shard directory name of the hash: its first two characters. -/
def shard : String := String.ofList (h.hash.val.toList.take 2)

/-- The blob file name of the hash: its remaining 62 characters. -/
def blobName : String := String.ofList (h.hash.val.toList.drop 2)

theorem ascii : ∀ c ∈ h.hash.val.toList, Str.IsAscii c := fun c hc ↦
  Str.isAscii_of_isHexDigit (h.valid.2 c hc)

theorem hashPrefix_eq : h.hash.hashPrefix = some h.shard :=
  Str.sliceTo_ascii h.ascii (by rw [h.valid.1]; omega)

theorem hashSuffix_eq : h.hash.hashSuffix = some h.blobName :=
  Str.sliceFrom_ascii h.ascii (by rw [h.valid.1]; omega)

theorem length_toList : h.hash.val.toList.length = 64 := by
  rw [String.length_toList]
  exact h.valid.1

theorem shard_length : h.shard.length = 2 := by
  simp [shard, h.length_toList]

theorem blobName_length : h.blobName.length = 62 := by
  simp [blobName, h.length_toList]

/-- The shard name and the file name joined are the hash again. -/
theorem shard_append_blobName : h.shard ++ h.blobName = h.hash.val :=
  Str.ofList_take_append_drop h.hash.val 2

/-- Reading the hash back from its shard and file names gives the hash: `from_hex` accepts the
joined names, and returns this very hash. -/
theorem fromHex_shard_append_blobName :
    ContentHash.fromHex (h.shard ++ h.blobName) = .ok h.hash := by
  rw [h.shard_append_blobName, ContentHash.fromHex_ok_iff]
  exact ⟨rfl, h.valid⟩

end HexHash

/-- `Digest`: a content hash and a size in bytes (an `i64`). -/
structure Digest where
  hash : ContentHash
  size : ℤ
deriving DecidableEq, Repr

/-- The derived `Default`: the empty hash and size zero. -/
instance : Inhabited Digest := ⟨⟨default, 0⟩⟩

namespace Digest

/-- `Digest::is_valid`. -/
def isValid (d : Digest) : Bool := decide (0 ≤ d.size) && !d.hash.val.isEmpty

/-- `Digest::from_bytes`: the hash of the bytes and their count. -/
def fromBytes (sha256 : List UInt8 → String) (bytes : List UInt8) : Except HashError Digest := do
  let hash ← ContentHash.hashBytes sha256 bytes
  pure ⟨hash, bytes.length⟩

/-- `Digest::from_file`: the file's length from its metadata, and the hash of its contents. -/
def fromFile {P : Type} (metadataLen : P → Except String ℕ)
    (sha256File : P → Except String String) (path : P) : Except String Digest := do
  let size ← metadataLen path
  let hash ← ContentHash.hashFile sha256File path
  pure ⟨hash, size⟩

/-- A digest is valid when its hash keeps the invariant and its size is not negative. -/
theorem isValid_of_hexDigest {d : Digest} (hd : IsHexDigest d.hash.val) (hsize : 0 ≤ d.size) :
    d.isValid = true := by
  have hne : d.hash.val.isEmpty = false := by
    rw [Bool.eq_false_iff, ne_eq, String.isEmpty_iff]
    intro hempty
    have := hd.1
    rw [hempty] at this
    simp at this
  simp [isValid, hsize, hne]

/-- A digest `from_bytes` returns is valid, and its hash keeps the invariant. -/
theorem fromBytes_isValid {sha256 : List UInt8 → String} {bytes : List UInt8} {d : Digest}
    (hok : fromBytes sha256 bytes = .ok d) : IsHexDigest d.hash.val ∧ d.isValid = true := by
  obtain ⟨hash, hhash, hd⟩ := Except.bind_eq_ok hok
  cases hd
  have hvalid := (ContentHash.fromHex_ok_iff.1 (ContentHash.hashBytes_eq_ok hhash)).2
  exact ⟨hvalid, isValid_of_hexDigest hvalid (Int.natCast_nonneg _)⟩

end Digest

/-- The remote execution API's `Digest`: the hash as a plain string, and `size_bytes`. -/
structure ExternalDigest where
  hash : String
  sizeBytes : ℤ
deriving DecidableEq, Repr

/-- `to_external_digest` (and `from_internal`). -/
def Digest.toExternalDigest (d : Digest) : ExternalDigest := ⟨d.hash.val, d.size⟩

/-- `to_internal_digest` (and `from_external`): the hash goes through `from_hex`, the size is
taken as it is. -/
def ExternalDigest.toInternalDigest (d : ExternalDigest) : Except HashError Digest := do
  let hash ← ContentHash.fromHex d.hash
  pure ⟨hash, d.sizeBytes⟩

/-- A digest whose hash keeps the invariant survives the trip out to the remote API and back. -/
theorem Digest.toInternalDigest_toExternalDigest {d : Digest} (hd : IsHexDigest d.hash.val) :
    d.toExternalDigest.toInternalDigest = .ok d := by
  have hok : ContentHash.fromHex d.hash.val = .ok d.hash := ContentHash.fromHex_ok_iff.2 ⟨rfl, hd⟩
  simp [ExternalDigest.toInternalDigest, toExternalDigest, hok]

end Moon
