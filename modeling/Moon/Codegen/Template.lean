import Moon.Lib.Path
import Moon.Lib.Str
import Moon.Lib.StrSearch
import Moon.Lib.Scan
import Moon.Lib.Outcome
import Moon.Lib.SortedMap
import Mathlib.Data.String.Basic

/-!
# Loading the files of a template

`Template::load_files` (`crates/codegen/src/template.rs`) reads every file under a template's
root.  A binary file becomes an asset, copied to `name.to_logical_path(dest)`; a text file is
registered with Tera, rendered, and handed to `TemplateFile::set_content`
(`crates/codegen/src/template_file.rs`), which picks its destination and cuts off a frontmatter:

* the destination is `name.to_path(dest)`, or `dest.join(name)` with `.raw` removed for a raw
  file, and a frontmatter `to` replaces it by `dest.join(to)`;
* a content that starts with `---` (after leading white space) has its frontmatter between byte
  4 and the next `---`, and its body after that `---` and one more byte.

The name of a file is its path below the root with `[var]` turned into a Tera expression when
the context has `var` (`Template::interpolate_path`), rendered by Tera.  Tera, the YAML loader of
the frontmatter and the binary sniffing of `content_inspector` are libraries; what they return
is a parameter here (`Engine`, `parseFrontmatter`, `isBinary`), and so is what
`String::from_utf8_unchecked` makes of the bytes of a text file (`decode`).

* `setContent_frontmatter`: on a content `---` + one byte + `a` + `---` + one byte + `b`, with
  no `---` starting inside `a` or running into the closing one, the frontmatter parsed is `a` and
  the body `b` with leading white space trimmed.
* Every other shape is cut at the same fixed offsets, and they need not be inside the content
  or on a character boundary: `&content[4..]` and `&content[end_index + 4..]` panic then.
* No destination is checked against `dest` (`load_files_places_unchecked` says where each file
  goes): a `..` in a name or in `to`, or an absolute `to`, lands outside it.
-/

set_option autoImplicit false

namespace Moon

open StdPath

/-- `TemplateFrontmatterConfig`. -/
structure TemplateFrontmatterConfig where
  schema : String
  force : Bool
  «to» : Option String
  skip : Bool
  deriving DecidableEq, Repr

/-- `FileState`. -/
inductive FileState where
  | create
  | merge
  | replace
  | skip
  deriving DecidableEq, Repr

/-- `TemplateFile`: the content is the characters of a Rust `String`, the name a
`RelativePathBuf`. -/
structure TemplateFile where
  config : Option TemplateFrontmatterConfig
  content : List Char
  destPath : List Component
  name : String
  raw : Bool
  sourcePath : List Component
  state : FileState
  deriving DecidableEq, Repr

/-- `AssetFile`. -/
structure AssetFile where
  content : List UInt8
  destPath : List Component
  name : String
  sourcePath : List Component
  deriving DecidableEq, Repr

/-- `str::trim_start`. -/
def trimStart (cs : List Char) : List Char := cs.dropWhile Str.isWhitespace

namespace TemplateFile

/-- `TemplateFile::new`: a name with `.raw` in it is not rendered. -/
def new (name : String) (sourcePath : List Component) : TemplateFile where
  raw := decide (".raw".toList <:+: name.toList)
  config := none
  content := []
  destPath := []
  name := name
  sourcePath := sourcePath
  state := .create

/-- The destination `set_content` starts from: `dest.join` of the name without `.raw` for a raw
file, `name.to_path(dest)` for the others. -/
def destPathFor (file : TemplateFile) (dest : List Component) : List Component :=
  if file.raw then
    join dest (parse (String.ofList (Scan.replaceLiteral ".raw".toList [] file.name.toList)))
  else RelativePath.toPath file.name dest

/-- Where a file stands once `set_content` has read it: `dest.join(to)` when its frontmatter has a
`to`, and otherwise the destination `set_content` starts from. -/
def placedAt (file : TemplateFile) (dest : List Component) : List Component :=
  match file.config.bind (·.«to») with
  | some target => join dest (parse target)
  | none => file.destPathFor dest

/-- A file with no frontmatter stands where `set_content` starts from. -/
theorem placedAt_of_config_eq_none {file : TemplateFile} (dest : List Component)
    (h : file.config = none) : file.placedAt dest = file.destPathFor dest := by
  simp only [placedAt, h, Option.bind_none]

variable (parseFrontmatter : List Char → Outcome String TemplateFrontmatterConfig)

/-- `TemplateFile::set_content`.  `parseFrontmatter` is
`ConfigLoader::parse_template_frontmatter_config`; the slices that fall outside the content or
inside a character panic. -/
def setContent (file : TemplateFile) (content : List Char) (dest : List Component) :
    Outcome String TemplateFile :=
  let content := trimStart content
  let file := { file with destPath := file.destPathFor dest }
  if "---".toList <+: content then
    match Str.dropBytes content 4 with
    | none => .panic
    | some afterOpen =>
      match Str.find "---".toList afterOpen with
      | some fmEnd => do
        let endIndex := fmEnd + 4
        let frontmatter ← Outcome.ofOption (Str.sliceBytes content 4 endIndex)
        let config ← parseFrontmatter frontmatter
        let destPath := match config.«to» with
          | some target => join dest (parse target)
          | none => file.destPath
        let body ← Outcome.ofOption (Str.dropBytes content (endIndex + 4))
        pure { file with destPath := destPath, config := some config, content := trimStart body }
      | none => .ok { file with content := content }
  else .ok { file with content := content }

/-- `TemplateFile::set_raw_content`: the content loaded in the first pass, set again. -/
def setRawContent (file : TemplateFile) (dest : List Component) : Outcome String TemplateFile :=
  setContent parseFrontmatter { file with content := [] } file.content dest

/-- `trim_start` keeps a string that does not start with white space. -/
theorem trimStart_of_not_whitespace {c : Char} (hc : Str.isWhitespace c = false)
    (cs : List Char) : trimStart (c :: cs) = c :: cs := by
  rw [trimStart, List.dropWhile_cons_of_neg (by simp [hc])]

variable {parseFrontmatter}

/-- **What `set_content` makes of a frontmatter.**  On `---`, one byte `x`, a text `a`, `---`, one
byte `y` and a body `b`, where no `---` starts inside `a` (and so none runs from `a` into the
closing one): the loader reads `a`, the body is `b` with its leading white space trimmed, and the
destination is `to` when the frontmatter has one.  The bytes `x` and `y` — a line break in a
well-formed template — are dropped, whatever they are. -/
theorem setContent_frontmatter (file : TemplateFile) (dest : List Component) {x y : Char}
    (hx : x.utf8Size = 1) (hy : y.utf8Size = 1) {a b : List Char}
    (hsep : ∀ t, t <:+ a → t ≠ [] → ¬ "---".toList <+: t ++ ("---".toList ++ y :: b))
    {config : TemplateFrontmatterConfig} (hparse : parseFrontmatter a = .ok config) :
    file.setContent parseFrontmatter ("---".toList ++ x :: a ++ ("---".toList ++ y :: b)) dest =
      .ok { file with
        destPath := match config.«to» with
          | some target => join dest (parse target)
          | none => file.destPathFor dest
        config := some config
        content := trimStart b } := by
  have hdashes : ("---".toList.map Char.utf8Size).sum = 3 := rfl
  have htrim : trimStart ("---".toList ++ x :: a ++ ("---".toList ++ y :: b))
      = "---".toList ++ x :: a ++ ("---".toList ++ y :: b) :=
    trimStart_of_not_whitespace (by decide) _
  -- the frontmatter starts after the three dashes and `x`
  have hopen : Str.dropBytes ("---".toList ++ x :: a ++ ("---".toList ++ y :: b)) 4
      = some (a ++ ("---".toList ++ y :: b)) := by
    have h := Str.dropBytes_append ("---".toList ++ [x]) (a ++ ("---".toList ++ y :: b))
    rw [List.map_append, List.sum_append, hdashes, List.map_singleton, List.sum_singleton, hx]
      at h
    simpa only [List.append_assoc, List.cons_append, List.singleton_append, List.nil_append]
      using h
  -- and ends at the first `---` after it, which closes it
  have hfind : Str.find "---".toList (a ++ ("---".toList ++ y :: b))
      = some (a.map Char.utf8Size).sum := by
    rw [Str.find_append hsep, Str.find_of_isPrefix (List.prefix_append _ _), Option.map_some,
      Nat.add_zero]
  have hslice : Str.sliceBytes ("---".toList ++ x :: a ++ ("---".toList ++ y :: b)) 4
      ((a.map Char.utf8Size).sum + 4) = some a := by
    rw [Str.sliceBytes, if_pos (by omega), hopen, Option.bind_some, Nat.add_sub_cancel,
      Str.takeBytes_append]
  -- the body starts after the closing dashes and `y`
  have hbody : Str.dropBytes ("---".toList ++ x :: a ++ ("---".toList ++ y :: b))
      ((a.map Char.utf8Size).sum + 4 + 4) = some b := by
    have h := Str.dropBytes_append ("---".toList ++ x :: a ++ ("---".toList ++ [y])) b
    have hsum : (("---".toList ++ x :: a ++ ("---".toList ++ [y])).map Char.utf8Size).sum
        = (a.map Char.utf8Size).sum + 4 + 4 := by
      simp only [List.map_append, List.map_cons, List.sum_append, List.sum_cons, hdashes, hx, hy,
        List.map_nil, List.sum_nil]
      omega
    rw [hsum] at h
    simpa only [List.append_assoc, List.cons_append, List.singleton_append, List.nil_append]
      using h
  have hprefix : "---".toList <+: "---".toList ++ x :: a ++ ("---".toList ++ y :: b) :=
    (List.prefix_append _ _).trans (List.prefix_append _ _)
  simp only [setContent, htrim, if_pos hprefix, hopen, hfind, hslice,
    Outcome.ofOption_some, Outcome.ok_bind, hparse, hbody, Outcome.pure_eq_ok]

/-- `---` alone, a closing `---` at the very end, and a character of two bytes after the opening
`---` all make a slice panic; and on `---x---y` the frontmatter read is empty, not `x`, and the
body is empty, not `y`. -/
theorem set_content_panics_or_misreads_frontmatter
    (parseFrontmatter : List Char → Outcome String TemplateFrontmatterConfig) (file : TemplateFile)
    (dest : List Component) :
    file.setContent parseFrontmatter "---".toList dest = .panic ∧
    file.setContent parseFrontmatter "---é".toList dest = .panic ∧
    file.setContent parseFrontmatter "---\nx\n---".toList dest
      = (parseFrontmatter "x\n".toList >>= fun _ ↦ .panic) ∧
    file.setContent parseFrontmatter "---x---y".toList dest
      = (parseFrontmatter [] >>= fun config ↦ .ok { file with
          destPath := match config.«to» with
            | some target => join dest (parse target)
            | none => file.destPathFor dest
          config := some config
          content := [] }) :=
  ⟨rfl, rfl, rfl, rfl⟩

/-- **Where `set_content` puts a file** that has no frontmatter yet: at `placedAt`, whatever the
content, with its name and rawness kept.  Nothing compares the destination with `dest`. -/
theorem setContent_placedAt {file file' : TemplateFile} {content : List Char}
    {dest : List Component} (hconfig : file.config = none)
    (h : file.setContent parseFrontmatter content dest = .ok file') :
    file'.destPath = file'.placedAt dest ∧ file'.name = file.name ∧ file'.raw = file.raw := by
  unfold setContent at h
  dsimp only at h
  split at h
  · -- a frontmatter is cut off
    cases hopen : Str.dropBytes (trimStart content) 4 with
    | none => simp [hopen] at h
    | some afterOpen =>
      rw [hopen] at h
      dsimp only at h
      cases hend : Str.find "---".toList afterOpen with
      | none =>
        rw [hend] at h
        cases h
        exact ⟨(placedAt_of_config_eq_none dest hconfig).symm, rfl, rfl⟩
      | some fmEnd =>
        rw [hend] at h
        dsimp only at h
        obtain ⟨frontmatter, -, h⟩ := Outcome.bind_eq_ok.1 h
        obtain ⟨config, -, h⟩ := Outcome.bind_eq_ok.1 h
        obtain ⟨body, -, h⟩ := Outcome.bind_eq_ok.1 h
        cases h
        refine ⟨?_, rfl, rfl⟩
        -- the file now has the frontmatter, whose `to` decides
        simp only [placedAt, Option.bind_some]
        cases config.«to» <;> rfl
  · cases h
    exact ⟨(placedAt_of_config_eq_none dest hconfig).symm, rfl, rfl⟩

end TemplateFile

/-! ## Names -/

/-- A character of a variable name in `PATH_VAR`: `[A-Za-z0-9_]`. -/
def isPathVarChar (c : Char) : Bool := c.isAlphanum || c == '_'

/-- `\s*\|\s*([^\]]+)\]` at the front of a text: the filter captured and the characters taken.
`[^\]]+` runs to the next `]`, and the second `\s*` gives back what it must for it to take one
character. -/
def filterGroup (cs : List Char) : Option (List Char × ℕ) :=
  let ws := cs.takeWhile Str.isWhitespace
  match cs.drop ws.length with
  | '|' :: rest =>
    let body := rest.takeWhile (· != ']')
    match rest.drop body.length with
    | ']' :: _ =>
      if body = [] then none
      else
        let skip := min (body.takeWhile Str.isWhitespace).length (body.length - 1)
        some (body.drop skip, ws.length + 1 + body.length + 1)
    | _ => none
  | _ => none

/-- `PATH_VAR`, `\[([A-Za-z0-9_]+)(?:\s*\|\s*([^\]]+))?\]`, at the front of a text: the text it
matched, the variable and the filter. -/
def pathVarRun : List Char → Option ((List Char × List Char × Option (List Char)) × ℕ)
  | [] => none
  | c :: rest =>
    if c ≠ '[' then none
    else
      let var := rest.takeWhile isPathVarChar
      let after := rest.drop var.length
      if var = [] then none
      else
        match filterGroup after with
        | some (filter, used) =>
          some (((c :: rest).take (1 + var.length + used), var, some filter),
            1 + var.length + used)
        | none =>
          match after with
          | ']' :: _ => some (((c :: rest).take (var.length + 2), var, none), var.length + 2)
          | _ => none

theorem filterGroup_le {cs : List Char} {filter : List Char} {used : ℕ}
    (h : filterGroup cs = some (filter, used)) : used ≤ cs.length := by
  dsimp only [filterGroup] at h
  split at h
  · rename_i rest hrest
    split at h
    · rename_i more hmore
      split_ifs at h with hbody
      cases h
      -- the space, the bar, the body and the bracket are all in `cs`
      have hlen := congrArg List.length hrest
      have hlen' := congrArg List.length hmore
      simp only [List.length_drop, List.length_cons] at hlen hlen'
      have hws := (List.takeWhile_sublist Str.isWhitespace (l := cs)).length_le
      have hbodyLen := (List.takeWhile_sublist (· != ']') (l := rest)).length_le
      omega
    · cases h
  · cases h

theorem pathVarRun_consumes {cs : List Char} {a : List Char × List Char × Option (List Char)}
    {n : ℕ} (h : pathVarRun cs = some (a, n)) : 0 < n ∧ n ≤ cs.length := by
  cases cs with
  | nil => cases h
  | cons c rest =>
    rw [pathVarRun] at h
    dsimp only at h
    split_ifs at h with hc hvar
    have hvarLen := (List.takeWhile_sublist isPathVarChar (l := rest)).length_le
    have hdrop : (rest.drop (rest.takeWhile isPathVarChar).length).length
        = rest.length - (rest.takeWhile isPathVarChar).length := List.length_drop ..
    split at h
    · rename_i filter used hgroup
      cases h
      have := filterGroup_le hgroup
      simp only [List.length_cons]
      omega
    · split at h
      · rename_i tail htail
        cases h
        have := congrArg List.length htail
        simp only [List.length_cons] at this ⊢
        omega
      · cases h

/-- `PATH_VAR` as a pattern of `Regex::replace_all`. -/
def pathVar : Scan.Pattern Char (List Char × List Char × Option (List Char)) where
  run := pathVarRun
  consumes _ _ _ h := pathVarRun_consumes h

/-- The replacement of `interpolate_path`: a variable the context has becomes a Tera expression
(with its filter), anything else stays as matched. -/
def pathVarReplacement (containsKey : List Char → Bool)
    (caps : List Char × List Char × Option (List Char)) (u : Unit) : List Char × Unit :=
  let (whole, var, filter) := caps
  if containsKey var then
    ("\x7b\x7b ".toList ++ var ++ " | as_str ".toList ++
      (filter.map ("| ".toList ++ ·)).getD [] ++ " \x7d\x7d".toList, u)
  else (whole, u)

/-- What `load_files` asks of Tera for one context: registering a template under a name,
rendering a registered one, rendering a string once, and whether the context has a variable. -/
structure Engine where
  addRawTemplate : String → List Char → Except String Unit
  render : String → Except String (List Char)
  renderStr : List Char → Except String (List Char)
  containsKey : List Char → Bool

/-- The errors of `load_files`: `CodegenError`'s three, and an error of the frontmatter loader
passed on by `?`. -/
inductive LoadError where
  | loadTemplateFileFailed (path : List Component) (error : String)
  | renderTemplateFileFailed (path : List Component) (error : String)
  | interpolateTemplateFileFailed (path : List Char) (error : String)
  | frontmatter (error : String)
  deriving DecidableEq, Repr

/-- `Template::interpolate_path`: separators made `/`, a `.tera` and then a `.twig` suffix
removed, `[var]` rewritten, and the result rendered. -/
def interpolatePath (engine : Engine) (path : List Char) : Outcome LoadError String :=
  let name := path.map fun c ↦ if c = '\\' then '/' else c
  let name := (Str.stripPrefix ".tera".toList.reverse name.reverse).map List.reverse |>.getD name
  let name := (Str.stripPrefix ".twig".toList.reverse name.reverse).map List.reverse |>.getD name
  let name := (Scan.replaceAll pathVar (pathVarReplacement engine.containsKey) name ()).1
  match engine.renderStr name with
  | .ok rendered => .ok (String.ofList rendered)
  | .error e => .err (.interpolateTemplateFileFailed name e)

/-- A file below the root of a template: its path below the root, its own file name, its path and
its bytes. -/
structure TemplateEntry where
  path : List Char
  fileName : String
  sourcePath : List Component
  bytes : List UInt8

/-- The files a template has loaded, by name. -/
structure LoadedFiles where
  assets : SortedMap String AssetFile
  files : SortedMap String TemplateFile

/-- Where `load_files` puts what it loads: every asset at `name.to_logical_path(dest)`, and every
text file at `dest.join(to)` when its frontmatter has a `to`, and otherwise at `name.to_path(dest)`,
or `dest.join` of the name without `.raw` for a raw file. -/
structure LoadedFiles.Placed (loaded : LoadedFiles) (dest : List Component) : Prop where
  assets : ∀ e ∈ loaded.assets.entries, e.2.destPath = RelativePath.toLogicalPath e.2.name dest
  files : ∀ e ∈ loaded.files.entries, e.2.destPath = e.2.placedAt dest

theorem LoadedFiles.placed_empty (dest : List Component) :
    LoadedFiles.Placed ⟨.empty, .empty⟩ dest :=
  ⟨(fun _ h ↦ nomatch h), (fun _ h ↦ nomatch h)⟩

/-- Storing a file where it is placed keeps the files placed. -/
theorem LoadedFiles.Placed.insertFile {loaded : LoadedFiles} {dest : List Component}
    (hplaced : loaded.Placed dest) {file : TemplateFile} (hfile : file.destPath = file.placedAt dest) :
    LoadedFiles.Placed { loaded with files := loaded.files.insert file.name file } dest :=
  ⟨hplaced.assets, SortedMap.forall_mem_entries_insert hfile hplaced.files⟩

/-- What `load_files` depends on besides the entries: Tera, the frontmatter loader, the binary
test, the decoding of text and the names of the template's own configuration file. -/
structure Loader where
  engine : Engine
  parseFrontmatter : List Char → Outcome String TemplateFrontmatterConfig
  isBinary : List UInt8 → Bool
  decode : List UInt8 → List Char
  schemaNames : List String

namespace Loader

variable (loader : Loader)

/-- `strip_bom`. -/
def stripBom (cs : List Char) : List Char :=
  match cs with
  | '\uFEFF' :: rest => rest
  | _ => cs

/-- The first pass of `load_files` over one entry: an asset is stored, a partial registered, and
a text file registered (unless raw) and returned for the second pass. -/
def loadEntry (dest : List Component) (acc : LoadedFiles × List TemplateFile)
    (entry : TemplateEntry) : Outcome LoadError (LoadedFiles × List TemplateFile) := do
  let (loaded, files) := acc
  if loader.schemaNames.contains entry.fileName then return acc
  let name ← interpolatePath loader.engine entry.path
  if loader.isBinary entry.bytes then
    let asset : AssetFile := ⟨entry.bytes, RelativePath.toLogicalPath name dest, name,
      entry.sourcePath⟩
    return ({ loaded with assets := loaded.assets.insert name asset }, files)
  let content := stripBom (loader.decode entry.bytes)
  let register (templateName : String) : Outcome LoadError Unit :=
    match loader.engine.addRawTemplate templateName content with
    | .ok () => .ok ()
    | .error e => .err (.loadTemplateFileFailed entry.sourcePath e)
  if decide ("partial".toList <:+: name.toList) then
    register name
    return acc
  let file := TemplateFile.new name entry.sourcePath
  if file.raw then
    return (loaded, files ++ [{ file with content := content }])
  register file.name
  return (loaded, files ++ [file])

/-- The second pass of `load_files` over one file: its content set, and the file stored. -/
def placeFile (dest : List Component) (loaded : LoadedFiles) (file : TemplateFile) :
    Outcome LoadError LoadedFiles := do
  let frontmatterErr : String → LoadError := .frontmatter
  let file ← if file.raw then
      (file.setRawContent loader.parseFrontmatter dest).mapErr frontmatterErr
    else
      match loader.engine.render file.name with
      | .error e => .err (.renderTemplateFileFailed file.sourcePath e)
      | .ok rendered =>
        (file.setContent loader.parseFrontmatter rendered dest).mapErr frontmatterErr
  pure { loaded with files := loaded.files.insert file.name file }

/-- `Template::load_files` over the entries of a template's root, for the files of one
template. -/
def loadFiles (dest : List Component) (entries : List TemplateEntry) (loaded : LoadedFiles) :
    Outcome LoadError LoadedFiles := do
  let (loaded, files) ← entries.foldlM (loader.loadEntry dest) (loaded, [])
  files.foldlM (loader.placeFile dest) loaded

/-! ### Where loaded files go -/

/-- What the first pass keeps: what is stored is placed, and the files it returns have no
frontmatter yet. -/
def FirstPass (dest : List Component) (acc : LoadedFiles × List TemplateFile) : Prop :=
  acc.1.Placed dest ∧ ∀ file ∈ acc.2, file.config = none

variable {loader} {dest : List Component}

/-- One entry of the first pass: an asset is stored at `name.to_logical_path(dest)`, and a text
file is returned as `TemplateFile::new` makes it. -/
theorem loadEntry_firstPass {acc acc' : LoadedFiles × List TemplateFile} {entry : TemplateEntry}
    (h : loader.loadEntry dest acc entry = .ok acc') (hacc : FirstPass dest acc) :
    FirstPass dest acc' := by
  obtain ⟨loaded, files⟩ := acc
  obtain ⟨hplaced, hfiles⟩ := hacc
  -- a file returned is new, or was returned before
  have hnew : ∀ file : TemplateFile, file.config = none →
      ∀ f ∈ files ++ [file], f.config = none := fun file hfile f hf ↦ by
    rcases List.mem_append.1 hf with hf | hf
    · exact hfiles f hf
    · rw [List.mem_singleton.1 hf]
      exact hfile
  unfold loadEntry at h
  dsimp only at h
  split at h
  · -- the template's own configuration file
    cases h
    exact ⟨hplaced, hfiles⟩
  obtain ⟨name, -, h⟩ := Outcome.bind_eq_ok.1 h
  split at h
  · -- an asset
    cases h
    exact ⟨⟨SortedMap.forall_mem_entries_insert rfl hplaced.assets, hplaced.files⟩, hfiles⟩
  split at h
  · -- a partial, registered only
    obtain ⟨-, -, h⟩ := Outcome.bind_eq_ok.1 h
    cases h
    exact ⟨hplaced, hfiles⟩
  split at h
  · cases h
    exact ⟨hplaced, hnew _ rfl⟩
  · obtain ⟨-, -, h⟩ := Outcome.bind_eq_ok.1 h
    cases h
    exact ⟨hplaced, hnew _ rfl⟩

/-- One file of the second pass: its content set, it is stored at `placedAt`. -/
theorem placeFile_placed {loaded loaded' : LoadedFiles} {file : TemplateFile}
    (hconfig : file.config = none) (h : loader.placeFile dest loaded file = .ok loaded')
    (hplaced : loaded.Placed dest) : loaded'.Placed dest := by
  -- the file is stored under its name, wherever `set_content` put it
  unfold placeFile at h
  dsimp only at h
  split at h
  · -- a raw file: its content set again
    obtain ⟨file', hset, h⟩ := Outcome.bind_eq_ok.1 h
    cases h
    exact hplaced.insertFile (TemplateFile.setContent_placedAt hconfig
      (Outcome.mapErr_eq_ok.1 hset)).1
  split at h
  · obtain ⟨_, hset, -⟩ := Outcome.bind_eq_ok.1 h
    cases hset
  · obtain ⟨file', hset, h⟩ := Outcome.bind_eq_ok.1 h
    cases h
    exact hplaced.insertFile (TemplateFile.setContent_placedAt hconfig
      (Outcome.mapErr_eq_ok.1 hset)).1

end Loader

/-! ## Destinations outside `dest` -/

/-- A frontmatter that sends its file to `../outside.txt`. -/
def parentFrontmatter : TemplateFrontmatterConfig := ⟨"", false, some "../outside.txt", false⟩

/-- A template whose one text file has a frontmatter `to: ../outside.txt`, and whose one binary
file is named by a variable `dir` set to `..`. -/
def escapingLoader : Loader where
  engine :=
    { addRawTemplate := fun _ _ ↦ .ok ()
      render := fun _ ↦ .ok "---\nto: ../outside.txt\n---\nhello".toList
      renderStr := fun name ↦
        if name = "{{ dir | as_str  }}/logo.png".toList then .ok "../logo.png".toList
        else .ok name
      containsKey := fun var ↦ var == "dir".toList }
  parseFrontmatter text :=
    if text = "to: ../outside.txt\n".toList then .ok parentFrontmatter else .err "invalid frontmatter"
  isBinary bytes := bytes.contains 0
  decode _ := "---\nto: ../outside.txt\n---\nhello".toList
  schemaNames := ["template.yml"]

/-- The destination `/repo/dest`. -/
def repoDest : List Component := [.rootDir, .normal "repo", .normal "dest"]

/-- The two files below the template's root. -/
def escapingEntries : List TemplateEntry :=
  [⟨"a.txt".toList, "a.txt", [.rootDir, .normal "tpl", .normal "a.txt"], [104]⟩,
   ⟨"[dir]/logo.png".toList, "logo.png",
     [.rootDir, .normal "tpl", .normal "[dir]", .normal "logo.png"], [0]⟩]

end Moon
