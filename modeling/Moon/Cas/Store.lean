import Moon.Hash.ContentHash
import Mathlib.Data.Finset.Basic

/-!
# The content-addressable store

`crates/cas`.  A `CasStore` keeps every object under `objects_dir/<prefix>/<suffix>`, the shard
directory named by the first two characters of the object's hash and the file by the other 62
(`object_path`).  `retain`, the reachability sweep that garbage collection runs, goes the other
way: it reads a shard name and a file name off the disk, joins them, and asks `from_hex` for the
hash, to test it against the set of hashes still referenced.

The state here is the listing of `objects_dir`: every file, with its shard and file name, its size
and its modification time.  Staging through the temp directory is not modelled — a write lands at
the object path or not at all — and neither are the file contents or the file-system errors.

* `objectPath` is defined on every hash that keeps the invariant, and `retain` reads that very
  hash back (`retainKeeps_of_hexHash`).
* `WellFormed` — every file sits at the path of a hash that keeps the invariant — is kept by every
  operation whose hash keeps it (`step_wellFormed`), so by every such run (`run_wellFormed`).
* On a well-formed store, `retain` keeps exactly the objects whose hash is still referenced or
  that were modified within the grace period (`mem_retain_iff`).
-/

set_option autoImplicit false

namespace Moon

/-- A file of the store, as the sweep sees it: its size, and its modification time in seconds, if
the file system reports one. -/
structure StoredObject where
  size : ℕ
  modified : Option ℕ
deriving DecidableEq, Repr

/-- `CasStore`: the files under `objects_dir`, each with its shard directory and file name. -/
structure CasStore where
  objects : List ((String × String) × StoredObject)
deriving Repr

/-- `CasError`, the variant the modelled operations raise. -/
inductive CasError where
  | notFound (hash : String)
deriving DecidableEq, Repr

/-- The text of a `CasError`. -/
def CasError.message : CasError → String
  | .notFound hash => "Blob not found in CAS store for content hash " ++ hash ++ "."

/-- `BlobCleanStats`. -/
structure BlobCleanStats where
  blobsRemoved : ℕ
  bytesSaved : ℕ
deriving DecidableEq, Repr

namespace CasStore

/-- `CasStore::object_path`, below `objects_dir`: `prefix()` then `suffix()`, either of which may
panic. -/
def objectPath (hash : ContentHash) : Outcome String (String × String) := do
  let shard ← Outcome.ofOption hash.hashPrefix
  let name ← Outcome.ofOption hash.hashSuffix
  pure (shard, name)

/-- `CasStore::contains_object`. -/
def containsObject (st : CasStore) (hash : ContentHash) : Outcome String Bool := do
  let path ← objectPath hash
  pure (st.objects.any (·.1 == path))

/-- `CasStore::write` (and `write_file`): the staged file is renamed onto the object path,
replacing whatever was there. -/
def write (st : CasStore) (hash : ContentHash) (obj : StoredObject) : Outcome String CasStore := do
  let path ← objectPath hash
  pure ⟨(path, obj) :: st.objects.filter (·.1 != path)⟩

/-- `store_bytes`, `store_file` and `store_blob`: write the object unless one is there already. -/
def storeObject (st : CasStore) (hash : ContentHash) (obj : StoredObject) :
    Outcome String CasStore := do
  let present ← st.containsObject hash
  if present then pure st else st.write hash obj

/-- `CasStore::store_bytes`: hash the bytes, then store them at `now`. -/
def storeBytes (sha256 : List UInt8 → String) (st : CasStore) (bytes : List UInt8) (now : ℕ) :
    Outcome String (Digest × CasStore) := do
  let digest ← Outcome.ofExcept ((Digest.fromBytes sha256 bytes).mapError HashError.message)
  let st ← st.storeObject digest.hash ⟨bytes.length, some now⟩
  pure (digest, st)

/-- `CasStore::touch`: set the object's modification time to `now`, or fail with `NotFound`. -/
def touch (st : CasStore) (hash : ContentHash) (now : ℕ) : Outcome String CasStore := do
  let path ← objectPath hash
  if st.objects.any (·.1 == path) then
    pure ⟨st.objects.map fun e ↦ if e.1 = path then (e.1, { e.2 with modified := some now }) else e⟩
  else Outcome.err (CasError.notFound hash.val).message

/-- The test `retain` makes of a file: join the shard and file names, and look the hash up in
`keep`; a name `from_hex` rejects is unreachable. -/
def isReachable (keep : Finset ContentHash) (shard name : String) : Bool :=
  match ContentHash.fromHex (shard ++ name) with
  | .ok hash => decide (hash ∈ keep)
  | .error _ => false

/-- Whether the file was modified within `grace` of `now`.  A time after `now` makes
`duration_since` fail and `unwrap_or_default` read zero, which is what truncated subtraction
gives; a file with no time is not within the grace period. -/
def withinGrace (now grace : ℕ) (modified : Option ℕ) : Bool :=
  match modified with
  | some m => decide (now - m ≤ grace)
  | none => false

/-- Whether `retain` leaves a file alone: it is in the temp directory, reachable, or within the
grace period. -/
def retainKeeps (keep : Finset ContentHash) (now grace : ℕ)
    (e : (String × String) × StoredObject) : Bool :=
  e.1.1 == "temp" || isReachable keep e.1.1 e.1.2 || withinGrace now grace e.2.modified

/-- `gc::retain`: remove every file the sweep does not keep, and count them. -/
def retain (st : CasStore) (keep : Finset ContentHash) (now grace : ℕ) :
    CasStore × BlobCleanStats :=
  let removed := st.objects.filter fun e ↦ !retainKeeps keep now grace e
  (⟨st.objects.filter (retainKeeps keep now grace)⟩,
    ⟨removed.length, (removed.map (·.2.size)).sum⟩)

/-! ## The path of a hash, and the hash of a path -/

theorem objectPath_of_hexHash (h : HexHash) : objectPath h.hash = .ok (h.shard, h.blobName) := by
  simp [objectPath, h.hashPrefix_eq, h.hashSuffix_eq]

theorem isReachable_of_hexHash (keep : Finset ContentHash) (h : HexHash) :
    isReachable keep h.shard h.blobName = decide (h.hash ∈ keep) := by
  simp [isReachable, h.fromHex_shard_append_blobName]

/-- **`retain` reads a well-formed path back to its hash**: it keeps the object of a hash that
keeps the invariant exactly when the hash is referenced or the object is recent. -/
theorem retainKeeps_of_hexHash (keep : Finset ContentHash) (now grace : ℕ) (h : HexHash)
    (obj : StoredObject) :
    retainKeeps keep now grace ((h.shard, h.blobName), obj)
      = (decide (h.hash ∈ keep) || withinGrace now grace obj.modified) := by
  have hshard : (h.shard == "temp") = false := by
    rw [beq_eq_false_iff_ne]
    intro heq
    have hlen := h.shard_length
    rw [heq] at hlen
    exact absurd hlen (by decide)
  simp only [retainKeeps, hshard, isReachable_of_hexHash, Bool.false_or]

theorem mem_retain {st : CasStore} {keep : Finset ContentHash} {now grace : ℕ}
    {e : (String × String) × StoredObject} :
    e ∈ (st.retain keep now grace).1.objects ↔ e ∈ st.objects ∧ retainKeeps keep now grace e :=
  List.mem_filter

/-! ## The store invariant -/

/-- Every file of the store sits at the path of a hash that keeps the invariant. -/
def WellFormed (st : CasStore) : Prop :=
  ∀ e ∈ st.objects, ∃ h : HexHash, e.1 = (h.shard, h.blobName)

/-- Only a hash that keeps the invariant can be written, read or touched without a panic at a
path that keeps it. -/
theorem objectPath_eq_ok {hash : ContentHash} (hvalid : IsHexDigest hash.val)
    {path : String × String} (hpath : objectPath hash = .ok path) :
    ∃ h : HexHash, path = (h.shard, h.blobName) := by
  refine ⟨⟨hash, hvalid⟩, ?_⟩
  rw [objectPath_of_hexHash ⟨hash, hvalid⟩, Outcome.ok.injEq] at hpath
  exact hpath.symm

theorem write_wellFormed {st st' : CasStore} {hash : ContentHash} {obj : StoredObject}
    (hwf : st.WellFormed) (hvalid : IsHexDigest hash.val) (hw : st.write hash obj = .ok st') :
    st'.WellFormed := by
  obtain ⟨path, hpath, hst'⟩ := Outcome.bind_eq_ok.1 hw
  cases hst'
  intro e he
  rcases List.mem_cons.1 he with rfl | he
  · exact objectPath_eq_ok hvalid hpath
  · exact hwf e (List.mem_filter.1 he).1

theorem storeObject_wellFormed {st st' : CasStore} {hash : ContentHash} {obj : StoredObject}
    (hwf : st.WellFormed) (hvalid : IsHexDigest hash.val)
    (hs : st.storeObject hash obj = .ok st') : st'.WellFormed := by
  obtain ⟨present, -, hst'⟩ := Outcome.bind_eq_ok.1 hs
  cases present with
  | true =>
    cases hst'
    exact hwf
  | false => exact write_wellFormed hwf hvalid hst'

theorem touch_wellFormed {st st' : CasStore} {hash : ContentHash} {now : ℕ}
    (hwf : st.WellFormed) (ht : st.touch hash now = .ok st') : st'.WellFormed := by
  obtain ⟨path, -, hst'⟩ := Outcome.bind_eq_ok.1 ht
  split at hst'
  · cases hst'
    intro e he
    obtain ⟨e₀, he₀, rfl⟩ := List.mem_map.1 he
    split
    · exact hwf e₀ he₀
    · exact hwf e₀ he₀
  · cases hst'

theorem retain_wellFormed {st : CasStore} (hwf : st.WellFormed) (keep : Finset ContentHash)
    (now grace : ℕ) : (st.retain keep now grace).1.WellFormed := fun e he ↦
  hwf e (mem_retain.1 he).1

/-- **The sweep is exact on a well-formed store**: a file survives `retain` exactly when the hash
its names spell is referenced, or it was modified within the grace period. -/
theorem mem_retain_iff {st : CasStore} (hwf : st.WellFormed) (keep : Finset ContentHash)
    (now grace : ℕ) {e : (String × String) × StoredObject} (he : e ∈ st.objects) :
    e ∈ (st.retain keep now grace).1.objects ↔
      (⟨e.1.1 ++ e.1.2⟩ : ContentHash) ∈ keep ∨ withinGrace now grace e.2.modified = true := by
  obtain ⟨h, hpath⟩ := hwf e he
  obtain ⟨path, obj⟩ := e
  cases hpath
  have hjoin : (⟨h.shard ++ h.blobName⟩ : ContentHash) = h.hash := by
    rw [h.shard_append_blobName]
  rw [mem_retain, retainKeeps_of_hexHash, hjoin]
  simp [he]

/-! ## Runs of the store -/

/-- The operations a cache session performs on the store. -/
inductive CasOp where
  /-- `store_bytes`, at a time. -/
  | storeBytes (bytes : List UInt8) (now : ℕ)
  /-- `store_blob` and `store_file`: an object under a digest computed elsewhere. -/
  | storeBlob (digest : Digest) (size now : ℕ)
  /-- `touch`, at a time. -/
  | touch (hash : ContentHash) (now : ℕ)
  /-- `retain`, with the referenced hashes, the time and the grace period. -/
  | retain (keep : Finset ContentHash) (now grace : ℕ)

/-- One operation on the store. -/
def step (sha256 : List UInt8 → String) (st : CasStore) : CasOp → Outcome String CasStore
  | .storeBytes bytes now => Prod.snd <$> storeBytes sha256 st bytes now
  | .storeBlob digest size now => st.storeObject digest.hash ⟨size, some now⟩
  | .touch hash now => st.touch hash now
  | .retain keep now grace => pure (st.retain keep now grace).1

/-- A run of operations, stopping at the first that fails. -/
def run (sha256 : List UInt8 → String) : CasStore → List CasOp → Outcome String CasStore
  | st, [] => pure st
  | st, op :: ops => do
    let st ← step sha256 st op
    run sha256 st ops

/-- The hashes an operation hands to the store keep the invariant.  `store_bytes` computes its own
through `from_hex`; a `store_blob` digest is only as good as where it came from. -/
def CasOp.HexHashes : CasOp → Prop
  | .storeBlob digest _ _ => IsHexDigest digest.hash.val
  | _ => True

theorem storeBytes_wellFormed {sha256 : List UInt8 → String} {st st' : CasStore}
    {bytes : List UInt8} {now : ℕ} {d : Digest} (hwf : st.WellFormed)
    (hs : storeBytes sha256 st bytes now = .ok (d, st')) : st'.WellFormed := by
  obtain ⟨digest, hdigest, hrest⟩ := Outcome.bind_eq_ok.1 hs
  obtain ⟨st₁, hst₁, hpair⟩ := Outcome.bind_eq_ok.1 hrest
  cases hpair
  cases hfrom : Digest.fromBytes sha256 bytes with
  | error e =>
    rw [hfrom] at hdigest
    cases hdigest
  | ok digest' =>
    rw [hfrom] at hdigest
    cases hdigest
    exact storeObject_wellFormed hwf (Digest.fromBytes_isValid hfrom).1 hst₁

/-- **Step lemma**: every operation whose hashes keep the invariant keeps the store well formed. -/
theorem step_wellFormed {sha256 : List UInt8 → String} {st st' : CasStore} {op : CasOp}
    (hwf : st.WellFormed) (hop : op.HexHashes) (hs : step sha256 st op = .ok st') :
    st'.WellFormed := by
  cases op with
  | storeBytes bytes now =>
    obtain ⟨⟨d, st₁⟩, hst₁, heq⟩ := Outcome.bind_eq_ok.1 hs
    cases heq
    exact storeBytes_wellFormed hwf hst₁
  | storeBlob digest size now => exact storeObject_wellFormed hwf hop hs
  | touch hash now => exact touch_wellFormed hwf hs
  | retain keep now grace =>
    cases hs
    exact retain_wellFormed hwf keep now grace

/-- **Run lemma**: a run whose operations' hashes keep the invariant keeps the store well formed. -/
theorem run_wellFormed {sha256 : List UInt8 → String} :
    ∀ {ops : List CasOp} {st st' : CasStore}, st.WellFormed → (∀ op ∈ ops, op.HexHashes) →
      run sha256 st ops = .ok st' → st'.WellFormed
  | [], _, _, hwf, _, hrun => by
    cases hrun
    exact hwf
  | op :: ops, _, _, hwf, hops, hrun => by
    obtain ⟨st₁, hst₁, hrest⟩ := Outcome.bind_eq_ok.1 hrun
    exact run_wellFormed (step_wellFormed hwf (hops op List.mem_cons_self) hst₁)
      (fun op' hop' ↦ hops op' (List.mem_cons_of_mem op hop')) hrest

end CasStore

/-! ## Which hashes the store can address -/

/-- Every hash `from_hex` accepts — and `hash_bytes`, `hash_file`, `Digest::from_bytes` and
`Digest::from_file` build theirs through it — is 64 ASCII hex digits; its digests of a size that
is not negative are valid; its object path is defined, a two-character shard and a 62-character
file name; `from_hex` of the two names joined is the hash again; and so `retain` keeps its object
exactly when the hash is referenced or the object is recent. -/
theorem accepted_hash_addresses_its_object {hex : String} {h : ContentHash}
    (hok : ContentHash.fromHex hex = .ok h) :
    IsHexDigest h.val ∧ (∀ size : ℤ, 0 ≤ size → (Digest.mk h size).isValid = true) ∧
      ∃ shard name, CasStore.objectPath h = .ok (shard, name) ∧ shard.length = 2 ∧
        name.length = 62 ∧ ContentHash.fromHex (shard ++ name) = .ok h ∧
        ∀ (st : CasStore) keep now grace obj, ((shard, name), obj) ∈ st.objects →
          (((shard, name), obj) ∈ (st.retain keep now grace).1.objects ↔
            h ∈ keep ∨ CasStore.withinGrace now grace obj.modified = true) := by
  let hh : HexHash := HexHash.ofFromHex hok
  refine ⟨hh.valid, fun size hsize ↦ Digest.isValid_of_hexDigest hh.valid hsize, hh.shard,
    hh.blobName, CasStore.objectPath_of_hexHash hh, hh.shard_length, hh.blobName_length,
    hh.fromHex_shard_append_blobName, ?_⟩
  intro st keep now grace obj hmem
  have hhash : hh.hash = h := rfl
  rw [CasStore.mem_retain, CasStore.retainKeeps_of_hexHash, hhash]
  simp [hmem]

/-- The SHA-256 of the empty input is accepted, and keeps the invariant. -/
theorem empty_sha256_addresses_its_object :
    ContentHash.fromHex "e3b0c44298fc1c149afbf4c8996fb92427ae41e4649b934ca495991b7852b855"
        = .ok ⟨"e3b0c44298fc1c149afbf4c8996fb92427ae41e4649b934ca495991b7852b855"⟩ ∧
      IsHexDigest "e3b0c44298fc1c149afbf4c8996fb92427ae41e4649b934ca495991b7852b855" :=
  ⟨rfl, (accepted_hash_addresses_its_object
    (show ContentHash.fromHex "e3b0c44298fc1c149afbf4c8996fb92427ae41e4649b934ca495991b7852b855"
      = .ok ⟨"e3b0c44298fc1c149afbf4c8996fb92427ae41e4649b934ca495991b7852b855"⟩ from rfl)).1⟩

/-- The derived `Default` hash — the one in `Digest::default()` — is the empty string: it breaks
the invariant, its object path panics, and its digest is not valid. -/
theorem default_hash_has_no_object_path :
    ¬ IsHexDigest (default : ContentHash).val ∧ CasStore.objectPath default = .panic ∧
      (default : Digest).isValid = false :=
  ⟨by decide, rfl, rfl⟩

end Moon
