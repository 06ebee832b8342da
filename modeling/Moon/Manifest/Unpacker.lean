import Moon.Common.Path
import Moon.Manifest.Manifest
import Moon.Lib.EState

/-!
# Unpacking a manifest into the workspace

`ManifestUnpacker::unpack` (`crates/manifest/src/manifest_unpacker.rs`) writes every file of a
manifest that has a digest, then links every symlink, at paths the manifest gives relative to the
workspace root.  The manifest may come from a remote cache, so each path goes through
`resolve_abs_path`: an absolute path is refused, a relative one is resolved logically against the
root (`RelativePathBuf::to_logical_path`, which pops on `..`), cleaned, and refused unless it
still starts with the root.

The writes and links themselves are file-system effects; here they are what the unpacker records,
in order, in its state (`UnpackEffect`), so that an unpacking that fails half way still shows what
it did before failing.  I/O errors of the writes are not modelled: they happen at a path already
resolved.

* `resolveAbsPath_spec`: over a clean absolute root, a resolved path is lexically inside it.
* `unpack_inside`: so is every path the unpacker writes or links, whether it succeeds or not.
-/

set_option autoImplicit false

namespace Moon

open StdPath

/-- `ManifestError`, with the paths it names. -/
inductive ManifestError where
  | outputSymlinkOutsideOfWorkspace (output target : List Component)
  | outputFileOutsideOfWorkspace (output : List Component)
  deriving DecidableEq, Repr

/-- What unpacking does to the file system: `write_output_file` at a path, or `link_output_file`
from a target to a link path. -/
inductive UnpackEffect where
  | writeOutputFile (outputPath : List Component) (file : ManifestFile)
  | linkOutputFile (fromPath toPath : List Component)

/-- The paths an effect touches. -/
def UnpackEffect.paths : UnpackEffect → List (List Component)
  | .writeOutputFile outputPath _ => [outputPath]
  | .linkOutputFile fromPath toPath => [fromPath, toPath]

/-- `ManifestUnpacker`. -/
structure ManifestUnpacker where
  manifest : Manifest
  workspaceRoot : List Component

namespace ManifestUnpacker

variable (u : ManifestUnpacker)

/-- `ManifestUnpacker::resolve_abs_path`. -/
def resolveAbsPath (relPath : String) : Except ManifestError (List Component) :=
  let absPath := parse relPath
  -- `is_absolute() || has_root()`, which on Unix are one test
  if isAbsolute absPath then .error (.outputFileOutsideOfWorkspace absPath)
  else
    let outputPath := cleanComponents (RelativePath.toLogicalPath relPath u.workspaceRoot)
    if !startsWith outputPath u.workspaceRoot then .error (.outputFileOutsideOfWorkspace outputPath)
    else .ok outputPath

/-- One file of `unpack`: skipped without a digest, otherwise written at its resolved path. -/
def unpackFile (file : ManifestFile) : EStateM ManifestError (List UnpackEffect) Unit :=
  if file.digest.isNone then pure ()
  else do
    let outputPath ← EStateM.ofExcept (u.resolveAbsPath file.path)
    modify (· ++ [.writeOutputFile outputPath file])

/-- One symlink of `unpack`: both ends resolved, a target outside the workspace reported with the
link's path. -/
def unpackSymlink (link : ManifestSymlink) : EStateM ManifestError (List UnpackEffect) Unit := do
  let outputPath ← EStateM.ofExcept (u.resolveAbsPath link.path)
  let target ← EStateM.ofExcept ((u.resolveAbsPath link.target).mapError fun _ ↦
    .outputSymlinkOutsideOfWorkspace outputPath (parse link.target))
  modify (· ++ [.linkOutputFile target outputPath])

/-- `ManifestUnpacker::unpack`: the files, then the symlinks, stopping at the first error. -/
def unpack : EStateM ManifestError (List UnpackEffect) Unit := do
  forM u.manifest.files u.unpackFile
  forM u.manifest.symlinks u.unpackSymlink

variable {u}

/-- **A resolved path is inside the workspace**: with a clean absolute root, what
`resolve_abs_path` returns starts with the root and has no `.` or `..`. -/
theorem resolveAbsPath_spec (hroot : CleanAbs u.workspaceRoot) {relPath : String}
    {outputPath : List Component} (h : u.resolveAbsPath relPath = .ok outputPath) :
    LexicallyInside u.workspaceRoot outputPath := by
  dsimp only [resolveAbsPath] at h
  split at h
  · cases h
  split at h
  · cases h
  -- only the last branch returns a path: the cleaned logical path, which starts with the root
  rename_i hstarts
  cases h
  have hlogical := RelativePath.toLogicalPath_cleanAbs hroot relPath
  rw [Bool.not_eq_true', Bool.not_eq_false] at hstarts
  refine ⟨hstarts, ?_⟩
  rw [cleanComponents_of_cleanAbs hlogical]
  exact hlogical.not_dot

/-- Every path the effects so far touch is inside the workspace. -/
def EffectsInside (root : List Component) (effects : List UnpackEffect) : Prop :=
  ∀ e ∈ effects, ∀ p ∈ e.paths, LexicallyInside root p

theorem effectsInside_append {root : List Component} {effects : List UnpackEffect}
    (h : EffectsInside root effects) {e : UnpackEffect} (he : ∀ p ∈ e.paths, LexicallyInside root p) :
    EffectsInside root (effects ++ [e]) := by
  intro e' he'
  rcases List.mem_append.1 he' with he' | he'
  · exact h e' he'
  · rw [List.mem_singleton.1 he']
    exact he

section Inside

variable (hroot : CleanAbs u.workspaceRoot)
include hroot

theorem unpackFile_inside (file : ManifestFile) :
    EStateM.Preserves (EffectsInside u.workspaceRoot) (u.unpackFile file) := by
  rw [unpackFile]
  split
  · exact .pure _ _
  · refine .ofExcept_bind fun outputPath hres ↦ .modify fun effects h ↦ ?_
    -- the file is written only at a path that resolved
    refine effectsInside_append h fun p hp ↦ ?_
    rw [UnpackEffect.paths, List.mem_singleton] at hp
    exact hp ▸ resolveAbsPath_spec hroot hres

theorem unpackSymlink_inside (link : ManifestSymlink) :
    EStateM.Preserves (EffectsInside u.workspaceRoot) (u.unpackSymlink link) := by
  rw [unpackSymlink]
  refine .ofExcept_bind fun outputPath hout ↦ .ofExcept_bind fun target htarget ↦
    .modify fun effects h ↦ ?_
  -- the target resolved too: the error `map_err` replaces never gets here
  have htarget' : u.resolveAbsPath link.target = .ok target := by
    cases hres : u.resolveAbsPath link.target with
    | error e => rw [hres] at htarget; cases htarget
    | ok p => rw [hres] at htarget; exact htarget
  refine effectsInside_append h fun p hp ↦ ?_
  rw [UnpackEffect.paths, List.mem_cons, List.mem_singleton] at hp
  rcases hp with rfl | rfl
  · exact resolveAbsPath_spec hroot htarget'
  · exact resolveAbsPath_spec hroot hout

/-- **Unpacking touches nothing outside the workspace**, whether it succeeds or stops at an
error: every write and every link it has made is at a path lexically inside the root. -/
theorem unpack_inside : EStateM.Preserves (EffectsInside u.workspaceRoot) u.unpack :=
  (EStateM.Preserves.forM fun file _ ↦ unpackFile_inside hroot file).bind fun _ ↦
    EStateM.Preserves.forM fun link _ ↦ unpackSymlink_inside hroot link

end Inside

/-- A path that climbs out of the root is refused; one that climbs back in is resolved. -/
example : (⟨default, [.rootDir, .normal "ws"]⟩ : ManifestUnpacker).resolveAbsPath "../ws2/x"
      = .error (.outputFileOutsideOfWorkspace [.rootDir, .normal "ws2", .normal "x"]) ∧
    (⟨default, [.rootDir, .normal "ws"]⟩ : ManifestUnpacker).resolveAbsPath "a/../../ws/./b"
      = .ok [.rootDir, .normal "ws", .normal "b"] := by
  decide

end ManifestUnpacker

open ManifestUnpacker in
theorem manifest_unpacking_stays_in_workspace :
    (∀ (u : ManifestUnpacker), CleanAbs u.workspaceRoot → ∀ relPath : String,
      (∃ e, u.resolveAbsPath relPath = .error e) ∨
        ∃ q, u.resolveAbsPath relPath = .ok q ∧ LexicallyInside u.workspaceRoot q) ∧
    (∀ (u : ManifestUnpacker), CleanAbs u.workspaceRoot → ∀ effects : List UnpackEffect,
      EffectsInside u.workspaceRoot effects →
        EffectsInside u.workspaceRoot (u.unpack effects).state) ∧
    (∀ path : List Component, RootFirst path →
      Cleaned (cleanComponents path) ∧
        cleanComponents (cleanComponents path) = cleanComponents path) := by
  refine ⟨fun u hroot relPath ↦ ?_, fun u hroot ↦ unpack_inside hroot, fun path hpath ↦
    ⟨cleanComponents_cleaned hpath, cleanComponents_idem hpath⟩⟩
  cases h : u.resolveAbsPath relPath with
  | error e => exact .inl ⟨e, rfl⟩
  | ok q => exact .inr ⟨q, rfl, resolveAbsPath_spec hroot h⟩

/-- A manifest from a cache whose file path goes through `..` and whose symlink points out of the
workspace. -/
def escapingManifest : Manifest :=
  { files := [⟨none, some default, false, none, "out/../dist/a.txt", none, none⟩]
    symlinks := [⟨none, "link", "../../etc/passwd", none⟩]
    exitCode := 0, stderrBytes := none, stderrDigest := none, stdoutBytes := none,
    stdoutDigest := none, uploadStartedAt := none, uploadCompletedAt := none,
    digestSource := none }

open ManifestUnpacker in
/-- Unpacked at `/ws`, the file lands in `/ws/dist`, the symlink is refused with its target as
written, and what was written before the error is inside the workspace. -/
theorem unpacking_stops_at_escaping_symlink :
    (⟨escapingManifest, [.rootDir, .normal "ws"]⟩ : ManifestUnpacker).unpack [] =
        .error (.outputSymlinkOutsideOfWorkspace [.rootDir, .normal "ws", .normal "link"]
          [.parentDir, .parentDir, .normal "etc", .normal "passwd"])
          [.writeOutputFile [.rootDir, .normal "ws", .normal "dist", .normal "a.txt"]
            escapingManifest.files[0]] ∧
      EffectsInside [.rootDir, .normal "ws"]
        ((⟨escapingManifest, [.rootDir, .normal "ws"]⟩ : ManifestUnpacker).unpack []).state :=
  ⟨by rfl, manifest_unpacking_stays_in_workspace.2.1 ⟨escapingManifest, [.rootDir, .normal "ws"]⟩
    ⟨[.normal "ws"], rfl, by simp⟩ [] (fun _ h ↦ nomatch h)⟩

end Moon
