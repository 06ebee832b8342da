import Moon.Target.Target

/-!
# Projects

The `Project` record of `crates/project/src/project.rs`, with the fields that the modelled parts
of the workspace graph read, and the categorising enums of `crates/config`: `LanguageType`,
`LayerType` and `StackType`.

Identifiers, paths and aliases are strings.  `WorkspaceRelativePathBuf` is a relative path in
`/`-separated form, and nothing modelled here takes one apart, so a string is all it needs to be.
-/

set_option autoImplicit false

namespace Moon

/-- `LanguageType`: the primary language of a project; `other` is the fallback variant that
accepts any identifier. -/
inductive LanguageType where
  | bash | batch | cPlusPlus | cSharp | dotNet | go | java | javaScript | kotlin | php
  | python | ruby | rust | swift | typeScript | unknown
  | other (id : String)
  deriving DecidableEq, Repr, Inhabited

/-- `LayerType`: the layer of a project within its stack. -/
inductive LayerType where
  | application | automation | configuration | library | scaffolding | tool | unknown
  deriving DecidableEq, Repr, Inhabited

/-- `StackType`: the technology stack of a project. -/
inductive StackType where
  | backend | data | frontend | infrastructure | systems | unknown
  deriving DecidableEq, Repr, Inhabited

/-- `ProjectAlias`: an alias a plugin derived for a project, with the plugin that derived it.  The
alias itself is the field `alias` of the source, a keyword in Lean. -/
structure ProjectAlias where
  name : String
  plugin : String
  deriving DecidableEq, Repr

/-- The part of `ProjectConfig` (`moon.*`) that the modelled functions read. -/
structure ProjectConfig where
  tags : List String := []
  deriving DecidableEq, Repr

/-- `DependencyScope`: the relationship a project has with a project it depends on. -/
inductive DependencyScope where
  | build | development | peer | production
  /-- A dependency on the root-level project. -/
  | root
  deriving DecidableEq, Repr

/-- The derived `Default`: `Production`. -/
instance : Inhabited DependencyScope := ⟨.production⟩

/-- `DependencyScope::is_production_group`: `Production` and `Peer`; every other scope is in the
development group. -/
def DependencyScope.isProductionGroup : DependencyScope → Bool
  | .production | .peer => true
  | .build | .development | .root => false

/-- `ProjectDependencyConfig`: a dependency of a project, by id, with its scope. -/
structure ProjectDependencyConfig where
  id : String
  scope : DependencyScope := .production
  deriving DecidableEq, Repr

/-- `ProjectDependencyConfig::is_root_scope`. -/
def ProjectDependencyConfig.isRootScope (dep : ProjectDependencyConfig) : Bool :=
  dep.scope == .root

/-- `Project`, with the fields the modelled functions read. -/
structure Project where
  aliases : List ProjectAlias := []
  config : ProjectConfig := {}
  dependencies : List ProjectDependencyConfig := []
  id : String
  language : LanguageType := .unknown
  layer : LayerType := .unknown
  source : String := ""
  stack : StackType := .unknown
  taskTargets : List Target := []
  toolchains : List String := []
  deriving DecidableEq, Repr

/-- `is_root_level_source`: the workspace root, as an empty source or `.`. -/
def isRootLevelSource (source : String) : Bool := source.isEmpty || source == "."

/-- `Project::is_root_level`. -/
def Project.isRootLevel (project : Project) : Bool := isRootLevelSource project.source

end Moon
