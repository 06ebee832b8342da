import Moon.Hash.ContentHash

/-!
# Manifests and the remote execution `ActionResult`

`crates/manifest`.  A `Manifest` records what an action produced — its output files and symlinks,
its exit code and standard streams, and when its outputs were uploaded — and is exchanged with a
remote cache as a Bazel `ActionResult`.  `into_bazel_action_result` encodes it, and
`from_bazel_action_result` decodes what a server sends.

Two things make the trip lossy by design.  A digest goes out as a plain string and comes back
through `from_hex`, so only a hash that keeps the representation invariant returns.  Inline bytes
are kept only as the server's contract allows: a file's `contents` only next to a digest and when
not empty, and the standard streams only when not empty.  And times travel as protobuf
`Timestamp`s: `create_timestamp` drops a time before the epoch, and `create_from_timestamp` reads
the seconds as a `u64` and adds them to `UNIX_EPOCH`, which panics unless the sum fits a
`timespec`.

* `createFromTimestamp_ne_panic_iff`: exactly when `create_from_timestamp` panics;
  `fromBazelActionResult_ne_panic` lifts it to a whole `ActionResult`.
* `createFromTimestamp_createTimestamp`: a time at or after the epoch survives the trip.
* `fromBazelActionResult_intoBazelActionResult`: a manifest that meets `RoundTrips` comes back
  whole, up to the local source paths that the encoding never carries.
-/

set_option autoImplicit false

namespace Moon

/-! ## Times -/

/-- `x as u64` for an `i64`: its two's-complement bits read unsigned. -/
def asU64 (x : ℤ) : ℕ := (x % 2 ^ 64).toNat

/-- `x as u32` for an `i32`. -/
def asU32 (x : ℤ) : ℕ := (x % 2 ^ 32).toNat

/-- `n as i64` for a `u64`. -/
def asI64 (n : ℕ) : ℤ := if n < 2 ^ 63 then n else (n : ℤ) - 2 ^ 64

/-- `n as i32` for a `u32`. -/
def asI32 (n : ℕ) : ℤ := if n < 2 ^ 31 then n else (n : ℤ) - 2 ^ 32

/-- A protobuf `Timestamp`: seconds (an `i64`) and nanoseconds (an `i32`) from the epoch, as a
server may send them. -/
structure Timestamp where
  seconds : ℤ
  nanos : ℤ
deriving DecidableEq, Repr

/-- `std::time::Duration`: whole seconds (a `u64`) and the nanoseconds below one second. -/
@[ext] structure Duration where
  secs : ℕ
  nanos : ℕ
  secs_lt : secs < 2 ^ 64
  nanos_lt : nanos < 10 ^ 9

/-- `SystemTime` on Unix, a `timespec`: seconds from the epoch (an `i64`, negative before it) and
the nanoseconds below one second. -/
@[ext] structure SystemTime where
  secs : ℤ
  nanos : ℕ
  secs_lt : secs < 2 ^ 63
  neg_le_secs : -2 ^ 63 ≤ secs
  nanos_lt : nanos < 10 ^ 9

instance : DecidableEq SystemTime := fun a b ↦
  decidable_of_iff (a.secs = b.secs ∧ a.nanos = b.nanos) SystemTime.ext_iff.symm

/-- `Duration::new`: the whole seconds in `nanos` are carried over, and the call panics when that
overflows the seconds. -/
def Duration.new (secs nanos : ℕ) : Outcome String Duration :=
  if h : secs + nanos / 10 ^ 9 < 2 ^ 64 then
    .ok ⟨secs + nanos / 10 ^ 9, nanos % 10 ^ 9, h, Nat.mod_lt _ (by decide)⟩
  else .panic

/-- `UNIX_EPOCH + duration`: panics unless the seconds fit the `i64` of a `timespec`. -/
def SystemTime.unixEpochAdd (d : Duration) : Outcome String SystemTime :=
  if h : d.secs < 2 ^ 63 then .ok ⟨d.secs, d.nanos, by exact_mod_cast h, by omega, d.nanos_lt⟩
  else .panic

/-- `SystemTime::duration_since(UNIX_EPOCH)`, `none` for a time before the epoch. -/
def SystemTime.durationSinceEpoch (t : SystemTime) : Option Duration :=
  if h : 0 ≤ t.secs then some ⟨t.secs.toNat, t.nanos, by have := t.secs_lt; omega, t.nanos_lt⟩
  else none

/-- `create_timestamp`. -/
def createTimestamp (time : SystemTime) : Option Timestamp :=
  time.durationSinceEpoch.map fun d ↦ ⟨asI64 d.secs, asI32 d.nanos⟩

/-- `create_from_timestamp`. -/
def createFromTimestamp (timestamp : Timestamp) : Outcome String SystemTime := do
  let d ← Duration.new (asU64 timestamp.seconds) (asU32 timestamp.nanos)
  SystemTime.unixEpochAdd d

/-- The timestamps `create_from_timestamp` can read: the seconds, read unsigned, with the seconds
carried out of the nanoseconds, fit an `i64`.  Every timestamp with negative seconds fails. -/
def Timestamp.InRange (timestamp : Timestamp) : Prop :=
  asU64 timestamp.seconds + asU32 timestamp.nanos / 10 ^ 9 < 2 ^ 63

instance : DecidablePred Timestamp.InRange := fun timestamp ↦
  inferInstanceAs (Decidable (asU64 timestamp.seconds + asU32 timestamp.nanos / 10 ^ 9 < 2 ^ 63))

/-- **When `create_from_timestamp` panics**: exactly on the timestamps out of range. -/
theorem createFromTimestamp_ne_panic_iff (timestamp : Timestamp) :
    createFromTimestamp timestamp ≠ .panic ↔ timestamp.InRange := by
  unfold createFromTimestamp Duration.new Timestamp.InRange
  by_cases h64 : asU64 timestamp.seconds + asU32 timestamp.nanos / 10 ^ 9 < 2 ^ 64
  · rw [dif_pos h64, Outcome.ok_bind, SystemTime.unixEpochAdd]
    by_cases h63 : asU64 timestamp.seconds + asU32 timestamp.nanos / 10 ^ 9 < 2 ^ 63
    · rw [dif_pos h63]
      exact ⟨fun _ ↦ h63, fun _ h ↦ by cases h⟩
    · rw [dif_neg h63]
      exact ⟨fun h ↦ absurd rfl h, fun h ↦ absurd h h63⟩
  · rw [dif_neg h64, Outcome.panic_bind]
    exact ⟨fun h ↦ absurd rfl h, fun h ↦ absurd (by omega) h64⟩

/-- **A time at or after the epoch survives the trip through a `Timestamp`.** -/
theorem createFromTimestamp_createTimestamp {time : SystemTime} (h : 0 ≤ time.secs) :
    ∃ timestamp, createTimestamp time = some timestamp ∧
      createFromTimestamp timestamp = .ok time := by
  have hsecs := time.secs_lt
  have hnanos := time.nanos_lt
  refine ⟨⟨time.secs, time.nanos⟩, ?_, ?_⟩
  · have hi64 : asI64 time.secs.toNat = time.secs := by
      rw [asI64, if_pos (by omega)]
      omega
    have hi32 : asI32 time.nanos = time.nanos := by
      rw [asI32, if_pos (by omega)]
    simp [createTimestamp, SystemTime.durationSinceEpoch, h, hi64, hi32]
  · have hu64 : asU64 time.secs = time.secs.toNat := by
      rw [asU64, Int.emod_eq_of_lt h (by omega)]
    have hu32 : asU32 time.nanos = time.nanos := by
      rw [asU32, Int.emod_eq_of_lt (by omega) (by omega)]
      omega
    have hcarry : time.nanos / 10 ^ 9 = 0 := Nat.div_eq_of_lt hnanos
    -- `Duration::new` carries nothing, and `UNIX_EPOCH +` fits
    have hnew : Duration.new (asU64 time.secs) (asU32 time.nanos)
        = .ok ⟨time.secs.toNat, time.nanos, by omega, hnanos⟩ := by
      rw [hu64, hu32, Duration.new, dif_pos (by omega)]
      congr 1
      ext
      · simp only [hcarry, Nat.add_zero]
      · exact Nat.mod_eq_of_lt hnanos
    rw [createFromTimestamp, hnew, Outcome.ok_bind, SystemTime.unixEpochAdd,
      dif_pos (by simp only; omega)]
    congr 1
    ext
    · exact Int.toNat_of_nonneg h
    · rfl

/-! ## The wire types -/

/-- `NodeProperties`: the modification time and the `UInt32Value` mode, as read here. -/
structure NodeProperties where
  mtime : Option Timestamp
  unixMode : Option UInt32
deriving DecidableEq, Repr

/-- The derived `Default`. -/
instance : Inhabited NodeProperties := ⟨⟨none, none⟩⟩

/-- `OutputFile`. -/
structure OutputFile where
  contents : List UInt8
  digest : Option ExternalDigest
  isExecutable : Bool
  path : String
  nodeProperties : Option NodeProperties
deriving DecidableEq, Repr

/-- `OutputSymlink`. -/
structure OutputSymlink where
  path : String
  target : String
  nodeProperties : Option NodeProperties
deriving DecidableEq, Repr

/-- `ExecutedActionMetadata`: the worker and the two upload times, as read and written here. -/
structure ExecutedActionMetadata where
  worker : String
  outputUploadCompletedTimestamp : Option Timestamp
  outputUploadStartTimestamp : Option Timestamp
deriving DecidableEq, Repr

/-- The derived `Default`. -/
instance : Inhabited ExecutedActionMetadata := ⟨⟨"", none, none⟩⟩

/-- `ActionResult`: the fields `Manifest` reads and writes. -/
structure ActionResult where
  outputFiles : List OutputFile
  outputSymlinks : List OutputSymlink
  exitCode : ℤ
  stderrDigest : Option ExternalDigest
  stderrRaw : List UInt8
  stdoutDigest : Option ExternalDigest
  stdoutRaw : List UInt8
  executionMetadata : Option ExecutedActionMetadata
deriving DecidableEq, Repr

/-- Every timestamp of a result that `from_bazel_action_result` converts. -/
def ActionResult.timestamps (result : ActionResult) : List Timestamp :=
  let ofProps (props : Option NodeProperties) := ((props.getD default).mtime).toList
  result.outputFiles.flatMap (fun file ↦ ofProps file.nodeProperties) ++
    result.outputSymlinks.flatMap (fun symlink ↦ ofProps symlink.nodeProperties) ++
    ((result.executionMetadata.getD default).outputUploadCompletedTimestamp).toList ++
    ((result.executionMetadata.getD default).outputUploadStartTimestamp).toList

/-! ## The manifest -/

/-- `ManifestFile`.  `source_path` is local and never sent. -/
structure ManifestFile where
  bytes : Option (List UInt8)
  digest : Option Digest
  isExecutable : Bool
  modifiedAt : Option SystemTime
  path : String
  sourcePath : Option String
  unixMode : Option UInt32
deriving DecidableEq

/-- The derived `Default`. -/
instance : Inhabited ManifestFile := ⟨⟨none, none, false, none, "", none, none⟩⟩

/-- `ManifestSymlink`. -/
structure ManifestSymlink where
  modifiedAt : Option SystemTime
  path : String
  target : String
  unixMode : Option UInt32
deriving DecidableEq

/-- `Manifest`.  `digest_source` is local and never sent. -/
structure Manifest where
  files : List ManifestFile
  symlinks : List ManifestSymlink
  exitCode : ℤ
  stderrBytes : Option (List UInt8)
  stderrDigest : Option Digest
  stdoutBytes : Option (List UInt8)
  stdoutDigest : Option Digest
  uploadStartedAt : Option SystemTime
  uploadCompletedAt : Option SystemTime
  digestSource : Option ManifestFile
deriving DecidableEq

/-- The derived `Default`. -/
instance : Inhabited Manifest := ⟨⟨[], [], 0, none, none, none, none, none, none, none⟩⟩

/-- `to_internal_digest` with its `?`: a hash `from_hex` rejects is an error. -/
def toInternal (digest : ExternalDigest) : Outcome String Digest :=
  Outcome.ofExcept (digest.toInternalDigest.mapError HashError.message)

/-- The inline bytes `from_bazel_file` keeps: contents the result inlined next to a digest, and
not empty.  Empty contents next to a digest mean the blob is to be fetched. -/
def inlinedBytes (digest : Option ExternalDigest) (contents : List UInt8) : Option (List UInt8) :=
  if digest.isSome && !contents.isEmpty then some contents else none

/-- `ManifestFile::from_bazel_file`. -/
def ManifestFile.fromBazelFile (file : OutputFile) : Outcome String ManifestFile := do
  let props := file.nodeProperties.getD default
  let digest ← file.digest.mapM toInternal
  let modifiedAt ← props.mtime.mapM createFromTimestamp
  pure {
    bytes := inlinedBytes file.digest file.contents
    digest
    isExecutable := file.isExecutable
    modifiedAt
    path := file.path
    sourcePath := none
    unixMode := props.unixMode }

/-- `ManifestFile::into_bazel_file`. -/
def ManifestFile.intoBazelFile (file : ManifestFile) : OutputFile where
  contents := file.bytes.getD []
  digest := file.digest.map Digest.toExternalDigest
  isExecutable := file.isExecutable
  path := file.path
  nodeProperties := some ⟨file.modifiedAt.bind createTimestamp, file.unixMode⟩

/-- `ManifestSymlink::from_bazel_symlink`. -/
def ManifestSymlink.fromBazelSymlink (file : OutputSymlink) : Outcome String ManifestSymlink := do
  let props := file.nodeProperties.getD default
  let modifiedAt ← props.mtime.mapM createFromTimestamp
  pure ⟨modifiedAt, file.path, file.target, props.unixMode⟩

/-- `ManifestSymlink::into_bazel_symlink`. -/
def ManifestSymlink.intoBazelSymlink (symlink : ManifestSymlink) : OutputSymlink where
  path := symlink.path
  target := symlink.target
  nodeProperties := some ⟨symlink.modifiedAt.bind createTimestamp, symlink.unixMode⟩

/-- Raw standard output as a server inlines it: empty means not inlined. -/
def rawBytes (raw : List UInt8) : Option (List UInt8) := if raw.isEmpty then none else some raw

/-- `Manifest::from_bazel_action_result`.  The fields are converted in the order the source's
struct literal lists them, so an error in an earlier one wins over a panic in a later one. -/
def Manifest.fromBazelActionResult (result : ActionResult) : Outcome String Manifest := do
  let metadata := result.executionMetadata.getD default
  let files ← result.outputFiles.mapM ManifestFile.fromBazelFile
  let symlinks ← result.outputSymlinks.mapM ManifestSymlink.fromBazelSymlink
  let stderrDigest ← result.stderrDigest.mapM toInternal
  let stdoutDigest ← result.stdoutDigest.mapM toInternal
  let uploadCompletedAt ← metadata.outputUploadCompletedTimestamp.mapM createFromTimestamp
  let uploadStartedAt ← metadata.outputUploadStartTimestamp.mapM createFromTimestamp
  pure {
    files, symlinks
    exitCode := result.exitCode
    stderrBytes := rawBytes result.stderrRaw
    stderrDigest
    stdoutBytes := rawBytes result.stdoutRaw
    stdoutDigest
    uploadStartedAt, uploadCompletedAt
    digestSource := none }

/-- `Manifest::into_bazel_action_result`. -/
def Manifest.intoBazelActionResult (m : Manifest) (persistStdio : Bool) : ActionResult where
  outputFiles := m.files.map ManifestFile.intoBazelFile
  outputSymlinks := m.symlinks.map ManifestSymlink.intoBazelSymlink
  exitCode := m.exitCode
  stderrDigest := m.stderrDigest.map Digest.toExternalDigest
  stderrRaw := if persistStdio then m.stderrBytes.getD [] else []
  stdoutDigest := m.stdoutDigest.map Digest.toExternalDigest
  stdoutRaw := if persistStdio then m.stdoutBytes.getD [] else []
  executionMetadata := some {
    worker := "moon"
    outputUploadCompletedTimestamp := m.uploadCompletedAt.bind createTimestamp
    outputUploadStartTimestamp := m.uploadStartedAt.bind createTimestamp }

/-! ## Decoding never panics on timestamps in range -/

theorem toInternal_ne_panic (digest : ExternalDigest) : toInternal digest ≠ .panic := by
  unfold toInternal
  cases digest.toInternalDigest.mapError HashError.message with
  | ok d => exact fun h ↦ by cases h
  | error e => exact fun h ↦ by cases h

theorem fromBazelFile_ne_panic {file : OutputFile}
    (h : ∀ timestamp ∈ (file.nodeProperties.getD default).mtime, timestamp.InRange) :
    ManifestFile.fromBazelFile file ≠ .panic := by
  refine Outcome.bind_ne_panic (Outcome.optionMapM_ne_panic fun d _ ↦ toInternal_ne_panic d)
    fun _ _ ↦ Outcome.bind_ne_panic ?_ fun _ _ h' ↦ by cases h'
  exact Outcome.optionMapM_ne_panic fun t ht ↦ (createFromTimestamp_ne_panic_iff t).2 (h t ht)

theorem fromBazelSymlink_ne_panic {symlink : OutputSymlink}
    (h : ∀ timestamp ∈ (symlink.nodeProperties.getD default).mtime, timestamp.InRange) :
    ManifestSymlink.fromBazelSymlink symlink ≠ .panic :=
  Outcome.bind_ne_panic
    (Outcome.optionMapM_ne_panic fun t ht ↦ (createFromTimestamp_ne_panic_iff t).2 (h t ht))
    fun _ _ h' ↦ by cases h'

/-- **`from_bazel_action_result` returns, `Ok` or `Err`, on every result whose timestamps are in
range.** -/
theorem fromBazelActionResult_ne_panic {result : ActionResult}
    (h : ∀ timestamp ∈ result.timestamps, timestamp.InRange) :
    Manifest.fromBazelActionResult result ≠ .panic := by
  simp only [ActionResult.timestamps, List.mem_append, List.mem_flatMap, Option.mem_toList] at h
  have hfiles : result.outputFiles.mapM ManifestFile.fromBazelFile ≠ .panic :=
    Outcome.mapM_ne_panic fun file hfile ↦
      fromBazelFile_ne_panic fun t ht ↦ h t (.inl (.inl (.inl ⟨file, hfile, ht⟩)))
  have hsymlinks : result.outputSymlinks.mapM ManifestSymlink.fromBazelSymlink ≠ .panic :=
    Outcome.mapM_ne_panic fun symlink hsymlink ↦
      fromBazelSymlink_ne_panic fun t ht ↦ h t (.inl (.inl (.inr ⟨symlink, hsymlink, ht⟩)))
  have hcompleted := Outcome.optionMapM_ne_panic fun t ht ↦
    (createFromTimestamp_ne_panic_iff t).2 (h t (.inl (.inr ht)))
  have hstarted := Outcome.optionMapM_ne_panic fun t ht ↦
    (createFromTimestamp_ne_panic_iff t).2 (h t (.inr ht))
  -- the fields one after another, none of them panicking
  refine Outcome.bind_ne_panic hfiles fun _ _ ↦ Outcome.bind_ne_panic hsymlinks fun _ _ ↦ ?_
  refine Outcome.bind_ne_panic (Outcome.optionMapM_ne_panic fun d _ ↦ toInternal_ne_panic d)
    fun _ _ ↦ ?_
  refine Outcome.bind_ne_panic (Outcome.optionMapM_ne_panic fun d _ ↦ toInternal_ne_panic d)
    fun _ _ ↦ ?_
  exact Outcome.bind_ne_panic hcompleted fun _ _ ↦
    Outcome.bind_ne_panic hstarted fun _ _ h' ↦ by cases h'

/-! ## The round trip -/

/-- What a file needs to come back from the remote cache as it went: its digest's hash is one
`from_hex` accepts, its time is at or after the epoch, and it has inline bytes only next to its
digest, and then not empty. -/
structure ManifestFile.RoundTrips (file : ManifestFile) : Prop where
  digest : ∀ d ∈ file.digest, IsHexDigest d.hash.val
  modifiedAt : ∀ t ∈ file.modifiedAt, 0 ≤ t.secs
  bytes : ∀ b ∈ file.bytes, file.digest.isSome ∧ b ≠ []

/-- What a manifest needs to come back as it went: its files do, its symlinks' times and upload
times are at or after the epoch, its standard streams' digests are ones `from_hex` accepts, and
their inline bytes are not empty. -/
structure Manifest.RoundTrips (m : Manifest) : Prop where
  files : ∀ file ∈ m.files, file.RoundTrips
  symlinks : ∀ symlink ∈ m.symlinks, ∀ t ∈ symlink.modifiedAt, 0 ≤ t.secs
  stderrDigest : ∀ d ∈ m.stderrDigest, IsHexDigest d.hash.val
  stdoutDigest : ∀ d ∈ m.stdoutDigest, IsHexDigest d.hash.val
  stderrBytes : m.stderrBytes ≠ some []
  stdoutBytes : m.stdoutBytes ≠ some []
  uploadStartedAt : ∀ t ∈ m.uploadStartedAt, 0 ≤ t.secs
  uploadCompletedAt : ∀ t ∈ m.uploadCompletedAt, 0 ≤ t.secs

/-- The manifest as the remote cache can give it back: without the local source paths. -/
def Manifest.withoutSources (m : Manifest) : Manifest :=
  { m with files := m.files.map ({ · with sourcePath := none }), digestSource := none }

theorem mapM_toInternal_map {o : Option Digest} (h : ∀ d ∈ o, IsHexDigest d.hash.val) :
    (o.map Digest.toExternalDigest).mapM toInternal = .ok o := by
  cases o with
  | none => rfl
  | some d =>
    rw [Option.map_some, Option.mapM_some, toInternal,
      Digest.toInternalDigest_toExternalDigest (h d rfl)]
    rfl

theorem mapM_createFromTimestamp_bind {o : Option SystemTime} (h : ∀ t ∈ o, 0 ≤ t.secs) :
    (o.bind createTimestamp).mapM createFromTimestamp = .ok o := by
  cases o with
  | none => rfl
  | some t =>
    obtain ⟨timestamp, hts, hback⟩ := createFromTimestamp_createTimestamp (h t rfl)
    rw [Option.bind_some, hts, Option.mapM_some, hback]
    rfl

/-- Inline bytes as the decoder keeps them: what was inlined, unless it was empty. -/
theorem rawBytes_getD {bytes : Option (List UInt8)} (h : bytes ≠ some []) :
    rawBytes (bytes.getD []) = bytes := by
  cases bytes with
  | none => rfl
  | some b =>
    have hb : b ≠ [] := fun hb ↦ h (by rw [hb])
    simp [rawBytes, hb]

theorem fromBazelFile_intoBazelFile {file : ManifestFile} (h : file.RoundTrips) :
    ManifestFile.fromBazelFile file.intoBazelFile = .ok { file with sourcePath := none } := by
  have hbytes : inlinedBytes (file.digest.map Digest.toExternalDigest) (file.bytes.getD [])
      = file.bytes := by
    cases hb : file.bytes with
    | none => simp [inlinedBytes]
    | some b =>
      obtain ⟨hdigest, hne⟩ := h.bytes b hb
      simp [inlinedBytes, hdigest, hne]
  simp only [ManifestFile.fromBazelFile, ManifestFile.intoBazelFile, Option.getD_some,
    mapM_toInternal_map h.digest, mapM_createFromTimestamp_bind h.modifiedAt, Outcome.ok_bind,
    hbytes]
  rfl

theorem fromBazelSymlink_intoBazelSymlink {symlink : ManifestSymlink}
    (h : ∀ t ∈ symlink.modifiedAt, 0 ≤ t.secs) :
    ManifestSymlink.fromBazelSymlink symlink.intoBazelSymlink = .ok symlink := by
  simp only [ManifestSymlink.fromBazelSymlink, ManifestSymlink.intoBazelSymlink, Option.getD_some,
    mapM_createFromTimestamp_bind h, Outcome.ok_bind]
  rfl

/-- **A manifest that meets `RoundTrips` comes back from the remote cache as it went**, but for
the local source paths. -/
theorem fromBazelActionResult_intoBazelActionResult {m : Manifest} (h : m.RoundTrips) :
    Manifest.fromBazelActionResult (m.intoBazelActionResult true) = .ok m.withoutSources := by
  have hfiles : (m.files.map ManifestFile.intoBazelFile).mapM ManifestFile.fromBazelFile
      = .ok (m.files.map ({ · with sourcePath := none })) := by
    rw [List.mapM_map]
    exact Outcome.mapM_eq_ok_map fun file hfile ↦ fromBazelFile_intoBazelFile (h.files file hfile)
  have hsymlinks : (m.symlinks.map ManifestSymlink.intoBazelSymlink).mapM
      ManifestSymlink.fromBazelSymlink = .ok m.symlinks := by
    rw [List.mapM_map]
    have hall : m.symlinks.mapM (ManifestSymlink.fromBazelSymlink ∘ ManifestSymlink.intoBazelSymlink)
        = .ok (m.symlinks.map id) := Outcome.mapM_eq_ok_map
      fun symlink hsymlink ↦ fromBazelSymlink_intoBazelSymlink (h.symlinks symlink hsymlink)
    rwa [List.map_id] at hall
  simp only [Manifest.fromBazelActionResult, Manifest.intoBazelActionResult, Option.getD_some,
    if_true, hfiles, hsymlinks, mapM_toInternal_map h.stderrDigest,
    mapM_toInternal_map h.stdoutDigest, mapM_createFromTimestamp_bind h.uploadStartedAt,
    mapM_createFromTimestamp_bind h.uploadCompletedAt, rawBytes_getD h.stderrBytes,
    rawBytes_getD h.stdoutBytes, Outcome.ok_bind]
  rfl

/-! ## What the encoding promises -/

/-- A result whose timestamps are in range decodes to `Ok` or `Err`, never a panic; and a manifest
whose digests' hashes `from_hex` accepts, whose times are at or after the epoch, and whose inline
bytes are ones the decoder keeps comes back from `into_bazel_action_result(true)` whole, but for
its local source paths. -/
theorem remote_results_decode_and_manifests_round_trip :
    (∀ result : ActionResult, (∀ timestamp ∈ result.timestamps, timestamp.InRange) →
      Manifest.fromBazelActionResult result ≠ .panic) ∧
    ∀ m : Manifest, m.RoundTrips →
      Manifest.fromBazelActionResult (m.intoBazelActionResult true) = .ok m.withoutSources :=
  ⟨fun _ h ↦ fromBazelActionResult_ne_panic h,
    fun _ h ↦ fromBazelActionResult_intoBazelActionResult h⟩

/-- A result with one upload time decodes without a panic, and a manifest with a standard output
digest comes back whole. -/
theorem stdout_manifest_round_trips :
    Manifest.fromBazelActionResult ⟨[], [], 0, none, [], none, [], some ⟨"moon", none, some ⟨1, 0⟩⟩⟩
        ≠ .panic ∧
      Manifest.fromBazelActionResult (Manifest.intoBazelActionResult
          ⟨[], [], 0, none, none, some [104, 105],
            some ⟨⟨"e3b0c44298fc1c149afbf4c8996fb92427ae41e4649b934ca495991b7852b855"⟩, 2⟩,
            none, none, none⟩ true)
        = .ok (Manifest.withoutSources
          ⟨[], [], 0, none, none, some [104, 105],
            some ⟨⟨"e3b0c44298fc1c149afbf4c8996fb92427ae41e4649b934ca495991b7852b855"⟩, 2⟩,
            none, none, none⟩) :=
  ⟨remote_results_decode_and_manifests_round_trip.1 _ (by decide),
    remote_results_decode_and_manifests_round_trip.2 _
      ⟨by simp, by simp, by simp, fun d hd ↦ by
        cases hd
        exact (ContentHash.fromHex_ok_iff.1 (show ContentHash.fromHex
          "e3b0c44298fc1c149afbf4c8996fb92427ae41e4649b934ca495991b7852b855"
            = .ok ⟨"e3b0c44298fc1c149afbf4c8996fb92427ae41e4649b934ca495991b7852b855"⟩
          from rfl)).2, by simp, by simp, by simp, by simp⟩⟩

/-- Three inputs on which the trip does not give the manifest back.  A digest that `is_valid`
accepts but `from_hex` does not turns the trip into an error; a file's inline bytes with no digest
next to them are dropped; and a timestamp with negative seconds makes `create_from_timestamp`
panic. -/
theorem valid_digest_and_unreferenced_bytes_do_not_round_trip :
    (⟨⟨"abc"⟩, 3⟩ : Digest).isValid = true ∧
      Manifest.fromBazelActionResult (Manifest.intoBazelActionResult
          ⟨[], [], 0, none, none, none, some ⟨⟨"abc"⟩, 3⟩, none, none, none⟩ true)
        = .err (HashError.invalidContentHash "abc").message ∧
      Manifest.fromBazelActionResult (Manifest.intoBazelActionResult
          ⟨[⟨some [1], none, false, none, "out.txt", none, none⟩], [], 0, none, none, none, none,
            none, none, none⟩ true)
        = .ok ⟨[⟨none, none, false, none, "out.txt", none, none⟩], [], 0, none, none, none, none,
            none, none, none⟩ ∧
      Manifest.fromBazelActionResult ⟨[], [], 0, none, [], none, [], some ⟨"", none, some ⟨-1, 0⟩⟩⟩
        = .panic :=
  ⟨rfl, rfl, rfl, rfl⟩

end Moon
