import Moon.ActionGraph.Builder

/-!
# The actions a task waits for: the workspace sync, projects, toolchains and dependencies

The methods of `ActionGraphBuilder` that add the actions a task requires before it runs:

* `syncWorkspace` and `setupProto`, one action each;
* `internalSyncProject`, the sync of a project and, recursively, of the projects it depends on,
  kept from looping by the set `cycle` of the projects on the way;
* `internalSetupToolchain`, the setup of a toolchain and, recursively, of the toolchains it
  requires, with its own `cycle`; `internalSetupEnvironment`, which requires the toolchains of its
  requirements and its own; and `internalInstallDependencies`, which requires the setup of the
  environment of the located dependencies root, or of the toolchain;
* `isProjectAffected` and `isTaskAffected`, which ask the affected tracker and mark what it finds.

The recursions are on `fuel`: `outOfFuel` when it runs out.  Each method has its spec: it keeps
`Inv`, never makes daggy panic, keeps every fact that growth keeps (a stable `F`), and returns the
index of the action it names (`syncWorkspace_spec`, `internalSyncProject_spec`,
`internalSetupToolchain_spec`, …), so that every edge a method links has both ends in the graph.
-/

set_option autoImplicit false

namespace Moon

namespace ActionGraphBuilder

variable (env : BuilderEnv)

/-- `?` on a report of the workspace graph or of a plugin. -/
def liftExternal {α : Type} (x : Except String α) : BuilderM α :=
  EStateM.ofExcept (x.mapError .external)

/-! ## The workspace sync and proto -/

/-- `sync_workspace`.  `insert_node_or_exit!` with nothing after it is
`insert_node_if_missing!`. -/
def syncWorkspace : BuilderM (Option ℕ) :=
  if !env.options.syncWorkspace then pure none
  else do
    let index ← insertNodeIfMissing .syncWorkspace
    pure (some index)

/-- `setup_proto`, with the proto version of the toolchains configuration. -/
def setupProto : BuilderM (Option ℕ) := do
  let index ← insertNodeIfMissing (.setupProto env.protoVersion)
  pure (some index)

/-! ## Toolchain specifications -/

/-- `get_workspace_spec`: a toolchain configured for the workspace, with its version, or global
without one. -/
def getWorkspaceSpec (toolchainId : String) : Option ToolchainSpec :=
  (env.workspacePluginConfig toolchainId).map fun config ↦
    match config.version with
    | some version => ⟨toolchainId, some version⟩
    | none => ⟨toolchainId, none⟩

/-- `get_project_spec`: a project that disables a toolchain has none; one that gives it a version,
that version; otherwise the workspace's. -/
def getProjectSpec (toolchainId : String) (project : Project) : Option ToolchainSpec :=
  match env.projectPluginConfig project toolchainId with
  | some config =>
    if !config.isEnabled then none
    else
      match config.getVersion with
      | some version => some ⟨toolchainId, some version⟩
      | none => getWorkspaceSpec env toolchainId
  | none => getWorkspaceSpec env toolchainId

/-- `get_spec`. -/
def getSpec (toolchainId : String) : Option Project → Option ToolchainSpec
  | some project => getProjectSpec env toolchainId project
  | none => getWorkspaceSpec env toolchainId

/-! ## Affected checks -/

/-- Whether the tracker has marked a project already: through a relation too, or only by
itself. -/
def projectMarked (affected : AffectedTracker) (project : Project) (includeRelations : Bool) :
    Bool :=
  if includeRelations then decide (affected.isProjectMarked project)
  else decide (affected.isProjectMarkedIgnoringRelations project)

/-- Whether the tracker has marked a task already. -/
def taskMarked (affected : AffectedTracker) (task : Task) (includeRelations : Bool) : Bool :=
  if includeRelations then decide (affected.isTaskMarked task)
  else decide (affected.isTaskMarkedIgnoringRelations task)

/-- `is_project_affected`: with a tracker and the checks on, a project marked already is affected;
otherwise its own checks run, and a project they find affected is marked. -/
def isProjectAffected (project : Project) (reqs : RunRequirements) : BuilderM Bool := fun b ↦
  match b.affected with
  | some affected =>
    if reqs.skipAffected then .ok true b
    else
      if projectMarked affected project reqs.includeRelations then .ok true b
      else
        match affected.isProjectAffected env.affectedEnv project with
        | some mark =>
          onAffected affected
            (do AffectedTracker.markProjectAffected env.affectedGraph project mark; pure true) b
        | none => .ok false b
  | none => .ok true b

/-- `is_task_affected`, the same for a task, whose own checks may fail. -/
def isTaskAffected (task : Task) (reqs : RunRequirements) : BuilderM Bool := fun b ↦
  match b.affected with
  | some affected =>
    if reqs.skipAffected then .ok true b
    else
      if taskMarked affected task reqs.includeRelations then .ok true b
      else
        match affected.isTaskAffected env.affectedEnv task with
        | .ok (some mark) =>
          onAffected affected
            (do AffectedTracker.markTaskAffected env.affectedGraph task mark; pure true) b
        | .ok none => .ok false b
        | .error e => .error (.external e) b
  | none => .ok true b

/-! ## Projects -/

/-- One round of the loop of `internal_sync_project` over the dependencies of a project: one on the
cycle is skipped; another is synced, and required unless its action is the project's own. -/
def syncDependency (sync : Project → List String → BuilderM (Option ℕ)) (index : ℕ)
    (cycle : List String) (edges : List ℕ) (depProjectId : String) : BuilderM (List ℕ) :=
  if cycle.contains depProjectId then pure edges
  else do
    let depProject ← liftExternal (env.workspace.getProject depProjectId)
    let depProjectIndex ← sync depProject cycle
    match depProjectIndex with
    | some depProjectIndex =>
      pure (if index ≠ depProjectIndex then edges ++ [depProjectIndex] else edges)
    | none => pure edges

/-- `internal_sync_project`: the project's sync, which requires the workspace sync and, with
`sync_project_dependencies`, the syncs of the projects it depends on. -/
def internalSyncProject : ℕ → Project → RunRequirements → List String → BuilderM (Option ℕ)
  | 0, _, _, _ => throw .outOfFuel
  | fuel + 1, project, reqs, cycle =>
    if !env.options.syncProjects.isEnabled project.id || cycle.contains project.id then pure none
    else do
      let affected ← isProjectAffected env project reqs
      if !affected then pure none
      else do
        let cycle := cycle.insert project.id
        let syncWorkspaceIndex ← syncWorkspace env
        let node := ActionNode.syncProject ⟨project.id⟩
        let found ← getIndexFromNode node
        match found with
        | some index => pure (some index)
        | none => do
          let index ← insertNode node
          let edges ← if env.options.syncProjectDependencies then
              (env.workspace.projectDependencies project).foldlM
                (syncDependency env (fun p c ↦ internalSyncProject fuel p reqs c) index cycle)
                syncWorkspaceIndex.toList
            else pure syncWorkspaceIndex.toList
          if !edges.isEmpty then linkRequirements env index edges
          pure (some index)

/-- `sync_project`. -/
def syncProject (fuel : ℕ) (project : Project) (reqs : RunRequirements) : BuilderM (Option ℕ) :=
  internalSyncProject env fuel project reqs []

/-! ## Toolchains -/

/-- One round of the loops over a toolchain's requirements: the id must be valid; the toolchain
itself and a toolchain on the cycle are skipped; one with a specification is set up, and one
without fails the method. -/
def setupRequirement (setup : ToolchainSpec → BuilderM (Option ℕ)) (spec : ToolchainSpec)
    (project : Option Project) (cycle : List String) (edges : List (Option ℕ))
    (requireId : String) : BuilderM (List (Option ℕ)) :=
  if !env.idRules.idNew requireId then throw (.invalidId requireId)
  else if requireId = spec.id then pure edges
  else if cycle.contains requireId then pure edges
  else
    match getSpec env requireId project with
    | some requireSpec => do
      let index ← setup requireSpec
      pure (edges ++ [index])
    | none => throw (.actionGraph (.missingToolchainRequirement spec.id requireId))

/-- `internal_setup_toolchain`: the toolchain's setup, which requires the setups of the toolchains
it requires for it, the workspace sync, and proto when a version is asked for. -/
def internalSetupToolchain :
    ℕ → ToolchainSpec → Option Project → List String → BuilderM (Option ℕ)
  | 0, _, _, _ => throw .outOfFuel
  | fuel + 1, spec, project, cycle =>
    if !env.options.setupToolchains.isEnabled spec.id || spec.isSystem || cycle.contains spec.id
    then pure none
    else do
      let toolchain ← liftExternal (env.loadToolchain spec.id)
      let cycle := cycle.insert spec.id
      let output ← liftExternal (toolchain.defineRequirements project)
      let edges ← if !output.requires.isEmpty && output.forSetupToolchain then
          output.requires.foldlM
            (setupRequirement env (fun s ↦ internalSetupToolchain fuel s project cycle) spec project
              cycle) []
        else pure []
      if !toolchain.supportsTier3 && edges.isEmpty then pure none
      else do
        let syncWorkspaceIndex ← syncWorkspace env
        let edges ← if spec.req.isSome || env.requiresProto then do
            let protoIndex ← setupProto env
            pure (edges ++ [syncWorkspaceIndex, protoIndex])
          else pure (edges ++ [syncWorkspaceIndex])
        let index ← insertNodeIfMissing (.setupToolchain spec)
        linkOptionalRequirements env index edges
        pure (some index)

/-- `setup_toolchain`. -/
def setupToolchain (fuel : ℕ) (spec : ToolchainSpec) (project : Option Project) :
    BuilderM (Option ℕ) :=
  internalSetupToolchain env fuel spec project []

/-- `internal_setup_environment`: the environment's setup, which requires the setups of the
toolchains it requires for it, the workspace sync and its own toolchain's setup. -/
def internalSetupEnvironment (fuel : ℕ) (spec : ToolchainSpec) (root : String)
    (project : Option Project) (cycle : List String) : BuilderM (Option ℕ) :=
  if !env.options.setupEnvironment.isEnabled spec.id || spec.isSystem || cycle.contains spec.id
  then pure none
  else do
    let toolchain ← liftExternal (env.loadToolchain spec.id)
    let cycle := cycle.insert spec.id
    let output ← liftExternal (toolchain.defineRequirements project)
    let edges ← if !output.requires.isEmpty && output.forSetupEnvironment then
        output.requires.foldlM
          (setupRequirement env (fun s ↦ setupToolchain env fuel s project) spec project cycle) []
      else pure []
    if !toolchain.hasFunc "setup_environment" && edges.isEmpty then pure none
    else do
      let syncWorkspaceIndex ← syncWorkspace env
      let setupToolchainIndex ← setupToolchain env fuel spec project
      let node := ActionNode.setupEnvironment ⟨project.map (·.id), root, spec.id⟩
      let found ← getIndexFromNode node
      match found with
      | some index => pure (some index)
      | none => do
        let index ← insertNode node
        linkOptionalRequirements env index (edges ++ [syncWorkspaceIndex, setupToolchainIndex])
        pure (some index)

/-- `setup_environment`. -/
def setupEnvironment (fuel : ℕ) (spec : ToolchainSpec) (root : String) (project : Project) :
    BuilderM (Option ℕ) :=
  internalSetupEnvironment env fuel spec root (some project) []

/-- `locate_dependencies_root`: nothing for a toolchain without tier 2, else what the plugin
locates from the project's root, or from the workspace root. -/
def locateDependenciesRoot (spec : ToolchainSpec) (project : Option Project) :
    BuilderM (Option DependenciesWorkspace) := do
  let toolchain ← liftExternal (env.loadToolchain spec.id)
  if !toolchain.supportsTier2 then pure none
  else liftExternal (toolchain.locateDependenciesRoot project)

/-- `setup_environment_root`: only when the dependencies root is the workspace root. -/
def setupEnvironmentRoot (fuel : ℕ) (spec : ToolchainSpec) : BuilderM (Option ℕ) :=
  if !env.options.setupEnvironment.isEnabled spec.id || spec.isSystem then pure none
  else do
    let depsWorkspace ← locateDependenciesRoot env spec none
    if depsWorkspace.all (·.root ≠ env.workspaceRoot) then pure none
    else internalSetupEnvironment env fuel spec "" none []

/-! ## Installing dependencies -/

/-- Whether installing a toolchain's dependencies is off: the system toolchain, a switched off
action, or a workspace configuration that says so. -/
def installDependenciesOff (spec : ToolchainSpec) : Bool :=
  spec.isSystem || !env.options.installDependencies.isEnabled spec.id ||
    (env.workspacePluginConfig spec.id).any (!·.installDependencies)

/-- `internal_install_dependencies`: the install of the located dependencies root, requiring the
first of its environment's setup, the toolchain's setup and the workspace sync; without the
plugin's `install_dependencies`, the environment's setup; without a root, the toolchain's. -/
def internalInstallDependencies (fuel : ℕ) (spec : ToolchainSpec) (project : Option Project) :
    BuilderM (Option ℕ) :=
  if installDependenciesOff env spec then pure none
  else do
    let syncWorkspaceIndex ← syncWorkspace env
    let setupToolchainIndex ← setupToolchain env fuel spec project
    let toolchain ← liftExternal (env.loadToolchain spec.id)
    if !toolchain.supportsTier2 then pure setupToolchainIndex
    else do
      let targetRoot := match project with
        | some project => env.projectRoot project
        | none => env.workspaceRoot
      let located ← locateDependenciesRoot env spec project
      match located with
      | none => pure setupToolchainIndex
      | some depsWorkspace => do
        let role ← liftExternal (toolchain.inDependenciesWorkspace depsWorkspace targetRoot)
        match role with
        | none => pure setupToolchainIndex
        | some depsRole => do
          let root ← liftExternal (env.relativeTo depsWorkspace.root)
          -- without a workspace the root is the only package, owned by the project
          let projectId := match depsRole with
            | .packageRoot => project.map (·.id)
            | _ => none
          let setupEnvIndex ← internalSetupEnvironment env fuel spec root
            (if projectId.isSome then project else none) []
          if toolchain.hasFunc "install_dependencies" then do
            let index ← insertNodeIfMissing
              (.installDependencies ⟨depsWorkspace.members, projectId, root, spec.id⟩)
            linkFirstRequirement env index [setupEnvIndex, setupToolchainIndex, syncWorkspaceIndex]
            pure (some index)
          else
            match setupEnvIndex with
            | some setupEnvIndex => do
              linkFirstRequirement env setupEnvIndex [setupToolchainIndex, syncWorkspaceIndex]
              pure (some setupEnvIndex)
            | none => pure setupToolchainIndex

/-- `install_dependencies`. -/
def installDependencies (fuel : ℕ) (spec : ToolchainSpec) (project : Project) :
    BuilderM (Option ℕ) :=
  internalInstallDependencies env fuel spec (some project)

/-- `install_dependencies_by_toolchains`: for each toolchain with a specification for the
project. -/
def installDependenciesByToolchains (fuel : ℕ) (project : Project) (toolchains : List String) :
    BuilderM (List (Option ℕ)) :=
  toolchains.foldlM (fun indexes toolchainId ↦
    match getProjectSpec env toolchainId project with
    | some spec => do
      let index ← installDependencies env fuel spec project
      pure (indexes ++ [index])
    | none => pure indexes) []

/-- `install_dependencies_by_project`: over the project's toolchains. -/
def installDependenciesByProject (fuel : ℕ) (project : Project) : BuilderM (List (Option ℕ)) :=
  installDependenciesByToolchains env fuel project project.toolchains

/-- `install_dependencies_root`: only when the dependencies root is the workspace root. -/
def installDependenciesRoot (fuel : ℕ) (spec : ToolchainSpec) : BuilderM (Option ℕ) :=
  if installDependenciesOff env spec then pure none
  else do
    let depsWorkspace ← locateDependenciesRoot env spec none
    if depsWorkspace.all (·.root ≠ env.workspaceRoot) then pure none
    else internalInstallDependencies env fuel spec none

/-! ## Specifications -/

section Specs

variable {env} {F : ActionGraphBuilder → Prop}

/-- Returning nothing promises nothing of an index. -/
theorem spec_pure_none {Q : ℕ → ActionGraphBuilder → Prop} :
    Spec F (pure none : BuilderM (Option ℕ)) fun o b ↦ F b ∧ ∀ i ∈ o, Q i b :=
  EStateM.Triple.pure none fun _ _ h ↦ ⟨h, fun _ hi ↦ by cases hi⟩

/-- Returning the index of an action. -/
theorem spec_pure_some {index : ℕ} {n : ActionNode} :
    Spec (fun b ↦ F b ∧ b.nodeAt index = some n) (pure (some index) : BuilderM (Option ℕ))
      fun o b ↦ F b ∧ ∀ i ∈ o, b.nodeAt i = some n :=
  EStateM.Triple.pure _ fun _ _ h ↦ ⟨h.1, fun _ hi ↦ by cases hi; exact h.2⟩

/-- Returning the index of an action that may require others. -/
theorem spec_pure_requiring {index : ℕ} {n : ActionNode} (hn : n.isSink = false) :
    Spec (fun b ↦ F b ∧ b.nodeAt index = some n) (pure (some index) : BuilderM (Option ℕ))
      fun o b ↦ F b ∧ ∀ i ∈ o, b.Requiring i :=
  EStateM.Triple.pure _ fun _ _ h ↦ ⟨h.1, fun _ hi ↦ by cases hi; exact ⟨n, h.2, hn⟩⟩

/-- Returning the index the map files an action under. -/
theorem spec_pure_found {index : ℕ} {n : ActionNode} :
    Spec (fun b ↦ F b ∧ IndexMap.get? b.nodes n = some index)
      (pure (some index) : BuilderM (Option ℕ)) fun o b ↦ F b ∧ ∀ i ∈ o, b.nodeAt i = some n :=
  spec_pure_some.mono (fun _ hI h ↦ ⟨h.1, hI.nodeAt_of_get? h.2⟩) fun _ _ _ h ↦ h

theorem liftExternal_spec {α : Type} (x : Except String α) :
    Spec F (liftExternal x) fun a b ↦ F b ∧ x = .ok a := by
  cases x with
  | ok a => exact EStateM.Triple.pure a fun _ _ h ↦ ⟨h, rfl⟩
  | error e => exact EStateM.Triple.throw (BuilderError.external e) BuilderError.noConfusion

theorem liftExternal_frame {α : Type} (x : Except String α) :
    Spec F (liftExternal x) fun _ b ↦ F b :=
  (liftExternal_spec x).mono (fun _ _ h ↦ h) fun _ _ _ h ↦ h.1

/-- Linking the optional edges of an action that may require others, and returning its index. -/
theorem spec_linkOptional_some (hF : Stable F) {index : ℕ} {n : ActionNode}
    (hn : n.isSink = false) {edges : List (Option ℕ)} :
    Spec (fun b ↦ (F b ∧ b.OptNodes edges) ∧ b.nodeAt index = some n)
      (linkOptionalRequirements env index edges >>= fun _ ↦ pure (some index))
      fun o b ↦ F b ∧ ∀ i ∈ o, b.nodeAt i = some n :=
  ((linkOptionalRequirements_spec (hF.and (stable_nodeAt index n))).mono
    (fun _ _ h ↦ ⟨⟨h.1.1, h.2⟩, ⟨n, h.2, hn⟩, h.1.2⟩) fun _ _ _ h ↦ h).bind fun _ ↦ spec_pure_some

theorem syncWorkspace_spec (hF : Stable F) :
    Spec F (syncWorkspace env) fun o b ↦ F b ∧ ∀ i ∈ o, b.nodeAt i = some .syncWorkspace := by
  rw [syncWorkspace]
  refine EStateM.Triple.ite (fun _ ↦ spec_pure_none) fun _ ↦ ?_
  refine (insertNodeIfMissing_spec hF rfl).bind fun index ↦ EStateM.Triple.pure _ ?_
  rintro b - ⟨hb, hindex⟩
  exact ⟨hb, fun i hi ↦ by cases hi; exact hindex⟩

theorem setupProto_spec (hF : Stable F) :
    Spec F (setupProto env) fun o b ↦ F b ∧ ∀ i ∈ o, b.nodeAt i = some (.setupProto env.protoVersion) := by
  rw [setupProto]
  refine (insertNodeIfMissing_spec hF rfl).bind fun index ↦ EStateM.Triple.pure _ ?_
  rintro b - ⟨hb, hindex⟩
  exact ⟨hb, fun i hi ↦ by cases hi; exact hindex⟩

theorem keepsGraph_isProjectAffected (project : Project) (reqs : RunRequirements) :
    KeepsGraph (isProjectAffected env project reqs) := fun b ↦ by
  unfold isProjectAffected
  split
  · split
    · exact ⟨rfl, rfl, rfl, trivial⟩
    · split
      · exact ⟨rfl, rfl, rfl, trivial⟩
      · split
        · exact keepsGraph_onAffected _ _ b
        · exact ⟨rfl, rfl, rfl, trivial⟩
  · exact ⟨rfl, rfl, rfl, trivial⟩

theorem keepsGraph_isTaskAffected (task : Task) (reqs : RunRequirements) :
    KeepsGraph (isTaskAffected env task reqs) := fun b ↦ by
  unfold isTaskAffected
  split
  · split
    · exact ⟨rfl, rfl, rfl, trivial⟩
    · split
      · exact ⟨rfl, rfl, rfl, trivial⟩
      · split
        · exact keepsGraph_onAffected _ _ b
        · exact ⟨rfl, rfl, rfl, trivial⟩
        · exact ⟨rfl, rfl, rfl, BuilderError.noConfusion⟩
  · exact ⟨rfl, rfl, rfl, trivial⟩

/-- A round of a dependency of a project keeps, beside a stable `F`, that every edge gathered so far
names an action. -/
theorem syncDependency_spec {sync : Project → List String → BuilderM (Option ℕ)}
    (hsync : ∀ {F : ActionGraphBuilder → Prop}, Stable F → ∀ p c,
      Spec F (sync p c) fun o b ↦ F b ∧ ∀ i ∈ o, ∃ n, b.nodeAt i = some n)
    (hF : Stable F) {index : ℕ} {cycle : List String} {edges : List ℕ} {depProjectId : String} :
    Spec (fun b ↦ F b ∧ b.AllNodes edges) (syncDependency env sync index cycle edges depProjectId)
      fun edges' b ↦ F b ∧ b.AllNodes edges' := by
  rw [syncDependency]
  refine EStateM.Triple.ite (fun _ ↦ EStateM.Triple.pure _ fun _ _ h ↦ h) fun _ ↦ ?_
  refine (liftExternal_spec _).bind fun depProject ↦ ?_
  refine ((hsync (hF.and (stable_allNodes edges)) depProject cycle).mono (fun _ _ h ↦ h.1)
    fun _ _ _ h ↦ h).bind fun o ↦ ?_
  cases o with
  | none => exact EStateM.Triple.pure _ fun _ _ h ↦ h.1
  | some depIndex =>
    refine EStateM.Triple.pure _ fun b _ ⟨⟨hb, hedges⟩, hdep⟩ ↦ ⟨hb, ?_⟩
    split_ifs
    · intro e he
      rcases List.mem_append.1 he with he | he
      · exact hedges e he
      · rw [List.mem_singleton.1 he]
        exact hdep depIndex rfl
    · exact hedges

theorem internalSyncProject_spec : ∀ (fuel : ℕ) {F : ActionGraphBuilder → Prop}, Stable F →
    ∀ (project : Project) (reqs : RunRequirements) (cycle : List String),
      Spec F (internalSyncProject env fuel project reqs cycle) fun o b ↦
        F b ∧ ∀ i ∈ o, b.nodeAt i = some (.syncProject ⟨project.id⟩)
  | 0, _, _, _, _, _ => EStateM.Triple.throw _ BuilderError.noConfusion
  | fuel + 1, F, hF, project, reqs, cycle => by
    rw [internalSyncProject]
    refine EStateM.Triple.ite (fun _ ↦ spec_pure_none) fun _ ↦ ?_
    refine ((keepsGraph_isProjectAffected project reqs).spec hF).bind fun affected ↦ ?_
    refine EStateM.Triple.ite (fun _ ↦ spec_pure_none) fun _ ↦ ?_
    refine (syncWorkspace_spec hF).bind fun syncWorkspaceIndex ↦ ?_
    refine (getIndexFromNode_spec _).bind fun found ↦ ?_
    cases found with
    | some index => exact spec_pure_found.mono (fun _ _ h ↦ ⟨h.1.1, h.2⟩) fun _ _ _ h ↦ h
    | none =>
      have hF' := hF.and (stable_allNodes syncWorkspaceIndex.toList)
      refine ((insertNode_spec hF' rfl).mono (fun b _ h ↦ ⟨⟨h.1.1, fun e he ↦
        ⟨_, h.1.2 e (Option.mem_toList.1 he)⟩⟩, h.2⟩) fun _ _ _ h ↦ h).bind fun index ↦ ?_
      extract_lets ret link
      -- after the edges are gathered: the project's action requires them, and is returned
      have hlink : ∀ edges, Spec (fun b ↦ (F b ∧ b.nodeAt index = some (.syncProject ⟨project.id⟩)) ∧
          b.AllNodes edges) (link edges) fun o b ↦
            F b ∧ ∀ i ∈ o, b.nodeAt i = some (.syncProject ⟨project.id⟩) := by
        intro edges
        have hret : Spec (fun b ↦ F b ∧ b.nodeAt index = some (.syncProject ⟨project.id⟩)) (ret ())
            fun o b ↦ F b ∧ ∀ i ∈ o, b.nodeAt i = some (.syncProject ⟨project.id⟩) :=
          spec_pure_some
        refine EStateM.Triple.ite (fun _ ↦ ?_) fun _ ↦ hret.mono (fun _ _ h ↦ h.1) fun _ _ _ h ↦ h
        refine ((linkRequirements_spec (hF.and (stable_nodeAt index _))).mono ?_
          fun _ _ _ h ↦ h).bind fun _ ↦ hret
        exact fun _ _ h ↦ ⟨h.1, ⟨_, h.1.2, rfl⟩, h.2⟩
      refine EStateM.Triple.ite (fun _ ↦ EStateM.Triple.bind ?_ hlink)
        fun _ ↦ EStateM.Triple.bind (EStateM.Triple.pure _ fun _ _ h ↦ ⟨⟨h.1.1, h.2⟩, h.1.2⟩) hlink
      -- the loop over the dependencies, each synced by the induction hypothesis
      refine (EStateM.Triple.foldlM _ _ _ fun _ _ _ ↦ syncDependency_spec
        (fun hG p c ↦ (internalSyncProject_spec fuel hG p reqs c).mono (fun _ _ h ↦ h)
          fun _ _ _ h ↦ ⟨h.1, fun i hi ↦ ⟨_, h.2 i hi⟩⟩) (hF.and (stable_nodeAt index _))).mono
        (fun _ _ h ↦ ⟨⟨h.1.1, h.2⟩, h.1.2⟩) fun _ _ _ h ↦ h

/-- A round of a toolchain's requirement keeps, beside a stable `F`, that every edge gathered so far
names an action. -/
theorem setupRequirement_spec {setup : ToolchainSpec → BuilderM (Option ℕ)}
    (hsetup : ∀ {F : ActionGraphBuilder → Prop}, Stable F → ∀ s,
      Spec F (setup s) fun o b ↦ F b ∧ ∀ i ∈ o, ∃ n, b.nodeAt i = some n)
    (hF : Stable F) {spec : ToolchainSpec} {project : Option Project} {cycle : List String}
    {edges : List (Option ℕ)} {requireId : String} :
    Spec (fun b ↦ F b ∧ b.OptNodes edges)
      (setupRequirement env setup spec project cycle edges requireId)
      fun edges' b ↦ F b ∧ b.OptNodes edges' := by
  rw [setupRequirement]
  refine EStateM.Triple.ite (fun _ ↦ EStateM.Triple.throw _ BuilderError.noConfusion) fun _ ↦ ?_
  refine EStateM.Triple.ite (fun _ ↦ EStateM.Triple.pure _ fun _ _ h ↦ h) fun _ ↦ ?_
  refine EStateM.Triple.ite (fun _ ↦ EStateM.Triple.pure _ fun _ _ h ↦ h) fun _ ↦ ?_
  split
  · refine (hsetup (hF.and (stable_optNodes edges)) _).bind fun index ↦ EStateM.Triple.pure _ ?_
    rintro b - ⟨⟨hb, hedges⟩, hindex⟩
    exact ⟨hb, optNodes_append.2 ⟨hedges, optNodes_cons.2 ⟨hindex, optNodes_nil⟩⟩⟩
  · exact EStateM.Triple.throw _ BuilderError.noConfusion

theorem internalSetupToolchain_spec : ∀ (fuel : ℕ) {F : ActionGraphBuilder → Prop}, Stable F →
    ∀ (spec : ToolchainSpec) (project : Option Project) (cycle : List String),
      Spec F (internalSetupToolchain env fuel spec project cycle) fun o b ↦
        F b ∧ ∀ i ∈ o, b.nodeAt i = some (.setupToolchain spec)
  | 0, _, _, _, _, _ => EStateM.Triple.throw _ BuilderError.noConfusion
  | fuel + 1, F, hF, spec, project, cycle => by
    rw [internalSetupToolchain]
    refine EStateM.Triple.ite (fun _ ↦ spec_pure_none) fun _ ↦ ?_
    refine (liftExternal_frame _).bind fun toolchain ↦ (liftExternal_frame _).bind fun output ↦ ?_
    -- the requirements, each set up by the induction hypothesis
    refine EStateM.Triple.ite_bind (M := fun edges b ↦ F b ∧ b.OptNodes edges)
      (fun _ ↦ (EStateM.Triple.foldlM _ _ _ fun _ _ _ ↦ setupRequirement_spec
        (fun hG s ↦ (internalSetupToolchain_spec fuel hG s project _).mono (fun _ _ h ↦ h)
          fun _ _ _ h ↦ ⟨h.1, fun i hi ↦ ⟨_, h.2 i hi⟩⟩) hF).mono
        (fun _ _ h ↦ ⟨h, optNodes_nil⟩) fun _ _ _ h ↦ h)
      (fun _ ↦ EStateM.Triple.pure _ fun _ _ h ↦ ⟨h, optNodes_nil⟩) fun edges ↦ ?_
    beta_reduce
    refine EStateM.Triple.ite (fun _ ↦ spec_pure_none.mono (fun _ _ h ↦ h.1) fun _ _ _ h ↦ h)
      fun _ ↦ ?_
    refine (syncWorkspace_spec (hF.and (stable_optNodes edges))).bind fun syncWorkspaceIndex ↦ ?_
    extract_lets link
    -- the toolchain's action requires the edges gathered
    have hlink : ∀ edges, Spec (fun b ↦ F b ∧ b.OptNodes edges) (link edges) fun o b ↦
        F b ∧ ∀ i ∈ o, b.nodeAt i = some (.setupToolchain spec) := fun edges ↦
      (insertNodeIfMissing_spec (hF.and (stable_optNodes edges)) rfl).bind fun _ ↦
        spec_linkOptional_some hF rfl
    refine EStateM.Triple.ite (fun _ ↦ ?_) fun _ ↦ ?_
    · refine (setupProto_spec (hF.and (stable_optNodes (edges ++ [syncWorkspaceIndex])))).mono
        (fun _ _ h ↦ ⟨h.1.1, h.1.2.concat h.2⟩) (fun _ _ _ h ↦ h) |>.bind fun protoIndex ↦ ?_
      refine EStateM.Triple.bind (EStateM.Triple.pure _ fun _ _ h ↦ ⟨h.1.1, ?_⟩) hlink
      rw [List.append_cons]
      exact h.1.2.concat h.2
    · exact EStateM.Triple.bind (EStateM.Triple.pure _ fun _ _ h ↦ ⟨h.1.1, h.1.2.concat h.2⟩) hlink

theorem internalSetupEnvironment_spec (hF : Stable F) {fuel : ℕ} {spec : ToolchainSpec}
    {root : String} {project : Option Project} {cycle : List String} :
    Spec F (internalSetupEnvironment env fuel spec root project cycle) fun o b ↦
      F b ∧ ∀ i ∈ o, b.nodeAt i = some (.setupEnvironment ⟨project.map (·.id), root, spec.id⟩) := by
  rw [internalSetupEnvironment]
  refine EStateM.Triple.ite (fun _ ↦ spec_pure_none) fun _ ↦ ?_
  refine (liftExternal_frame _).bind fun toolchain ↦ (liftExternal_frame _).bind fun output ↦ ?_
  refine EStateM.Triple.ite_bind (M := fun edges b ↦ F b ∧ b.OptNodes edges)
    (fun _ ↦ (EStateM.Triple.foldlM _ _ _ fun _ _ _ ↦ setupRequirement_spec
      (fun hG s ↦ (internalSetupToolchain_spec fuel hG s project []).mono (fun _ _ h ↦ h)
        fun _ _ _ h ↦ ⟨h.1, fun i hi ↦ ⟨_, h.2 i hi⟩⟩) hF).mono
      (fun _ _ h ↦ ⟨h, optNodes_nil⟩) fun _ _ _ h ↦ h)
    (fun _ ↦ EStateM.Triple.pure _ fun _ _ h ↦ ⟨h, optNodes_nil⟩) fun edges ↦ ?_
  beta_reduce
  refine EStateM.Triple.ite (fun _ ↦ spec_pure_none.mono (fun _ _ h ↦ h.1) fun _ _ _ h ↦ h)
    fun _ ↦ ?_
  refine (syncWorkspace_spec (hF.and (stable_optNodes edges))).bind fun syncWorkspaceIndex ↦ ?_
  refine ((internalSetupToolchain_spec fuel
    (hF.and (stable_optNodes (edges ++ [syncWorkspaceIndex]))) spec project []).mono
      (fun _ _ h ↦ ⟨h.1.1, h.1.2.concat h.2⟩) fun _ _ _ h ↦ h).bind fun setupToolchainIndex ↦ ?_
  refine (getIndexFromNode_spec _).bind fun found ↦ ?_
  cases found with
  | some index => exact spec_pure_found.mono (fun _ _ h ↦ ⟨h.1.1.1, h.2⟩) fun _ _ _ h ↦ h
  | none =>
    refine ((insertNode_spec (hF.and (stable_optNodes
      (edges ++ [syncWorkspaceIndex, setupToolchainIndex]))) rfl).mono (fun _ _ h ↦ ⟨⟨h.1.1.1, ?_⟩, h.2⟩)
        fun _ _ _ h ↦ h).bind fun index ↦ spec_linkOptional_some hF rfl
    rw [List.append_cons]
    exact h.1.1.2.concat h.1.2

theorem locateDependenciesRoot_spec {spec : ToolchainSpec} {project : Option Project} :
    Spec F (locateDependenciesRoot env spec project) fun _ b ↦ F b := by
  rw [locateDependenciesRoot]
  exact (liftExternal_frame _).bind fun _ ↦
    EStateM.Triple.ite (fun _ ↦ EStateM.Triple.pure _ fun _ _ h ↦ h) fun _ ↦ liftExternal_frame _

theorem setupEnvironmentRoot_spec (hF : Stable F) {fuel : ℕ} {spec : ToolchainSpec} :
    Spec F (setupEnvironmentRoot env fuel spec) fun o b ↦
      F b ∧ ∀ i ∈ o, b.nodeAt i = some (.setupEnvironment ⟨none, "", spec.id⟩) := by
  rw [setupEnvironmentRoot]
  refine EStateM.Triple.ite (fun _ ↦ spec_pure_none) fun _ ↦ ?_
  exact locateDependenciesRoot_spec.bind fun _ ↦
    EStateM.Triple.ite (fun _ ↦ spec_pure_none) fun _ ↦ internalSetupEnvironment_spec hF

theorem internalInstallDependencies_spec (hF : Stable F) {fuel : ℕ} {spec : ToolchainSpec}
    {project : Option Project} :
    Spec F (internalInstallDependencies env fuel spec project) fun o b ↦
      F b ∧ ∀ i ∈ o, b.Requiring i := by
  unfold internalInstallDependencies
  refine EStateM.Triple.ite (fun _ ↦ spec_pure_none) fun _ ↦ ?_
  refine (syncWorkspace_spec hF).bind fun syncWorkspaceIndex ↦ ?_
  have hG₁ := hF.and (stable_optNodeAt syncWorkspaceIndex .syncWorkspace)
  refine (internalSetupToolchain_spec fuel hG₁ spec project []).bind fun setupToolchainIndex ↦ ?_
  have hG₂ := hG₁.and (stable_optNodeAt setupToolchainIndex (.setupToolchain spec))
  -- the toolchain's setup is what the method returns when there is nothing to install
  have hret : Spec (fun b ↦ (F b ∧ ∀ i ∈ syncWorkspaceIndex, b.nodeAt i = some .syncWorkspace) ∧
      ∀ i ∈ setupToolchainIndex, b.nodeAt i = some (.setupToolchain spec))
      (pure setupToolchainIndex) fun o b ↦ F b ∧ ∀ i ∈ o, b.Requiring i :=
    EStateM.Triple.pure _ fun _ _ h ↦ ⟨h.1.1, fun i hi ↦ ⟨_, h.2 i hi, rfl⟩⟩
  refine (liftExternal_frame _).bind fun toolchain ↦ ?_
  refine EStateM.Triple.ite (fun _ ↦ hret) fun _ ↦ ?_
  refine locateDependenciesRoot_spec.bind fun located ↦ ?_
  rcases located with _ | depsWorkspace
  · exact hret
  refine (liftExternal_frame _).bind fun role ↦ ?_
  rcases role with _ | depsRole
  · exact hret
  refine (liftExternal_frame _).bind fun root ↦ ?_
  extract_lets projectId
  refine (internalSetupEnvironment_spec hG₂).bind fun setupEnvIndex ↦ ?_
  refine EStateM.Triple.ite (fun _ ↦ ?_) fun _ ↦ ?_
  · -- the install action, which requires the first of the three that was added
    refine (insertNodeIfMissing_spec (hF.and (stable_optNodes
      [setupEnvIndex, setupToolchainIndex, syncWorkspaceIndex])) rfl).mono ?_ (fun _ _ _ h ↦ h)
        |>.bind fun index ↦ ?_
    · exact fun _ _ h ↦ ⟨h.1.1.1, optNodes_cons.2 ⟨fun i hi ↦ ⟨_, h.2 i hi⟩, optNodes_cons.2
        ⟨fun i hi ↦ ⟨_, h.1.2 i hi⟩, optNodes_cons.2 ⟨fun i hi ↦ ⟨_, h.1.1.2 i hi⟩, optNodes_nil⟩⟩⟩⟩
    exact ((linkFirstRequirement_spec (hF.and (stable_nodeAt index _))).mono
      (fun _ _ h ↦ ⟨⟨h.1.1, h.2⟩, ⟨_, h.2, rfl⟩, h.1.2⟩) fun _ _ _ h ↦ h).bind fun _ ↦
        spec_pure_requiring rfl
  · cases setupEnvIndex with
    | none => exact hret.mono (fun _ _ h ↦ h.1) fun _ _ _ h ↦ h
    | some setupEnvIndex =>
      -- without the plugin's install, the environment's setup stands for it
      refine ((linkFirstRequirement_spec (hF.and (stable_nodeAt setupEnvIndex _))).mono
        (fun _ _ h ↦ ⟨⟨h.1.1.1, h.2 _ rfl⟩, ⟨_, h.2 _ rfl, rfl⟩, optNodes_cons.2
          ⟨fun i hi ↦ ⟨_, h.1.2 i hi⟩, optNodes_cons.2 ⟨fun i hi ↦ ⟨_, h.1.1.2 i hi⟩, optNodes_nil⟩⟩⟩)
          fun _ _ _ h ↦ h).bind fun _ ↦ spec_pure_requiring rfl

theorem installDependenciesByToolchains_spec (hF : Stable F) {fuel : ℕ} {project : Project}
    {toolchains : List String} :
    Spec F (installDependenciesByToolchains env fuel project toolchains) fun indexes b ↦
      F b ∧ b.OptNodes indexes := by
  unfold installDependenciesByToolchains
  refine (EStateM.Triple.foldlM _ _ _ fun indexes toolchainId _ ↦ ?_).mono
    (fun _ _ h ↦ ⟨h, optNodes_nil⟩) fun _ _ _ h ↦ h
  split
  · refine (internalInstallDependencies_spec (hF.and (stable_optNodes indexes))).bind fun index ↦
      EStateM.Triple.pure _ fun _ _ h ↦ ⟨h.1.1, optNodes_append.2 ⟨h.1.2, optNodes_cons.2
        ⟨fun i hi ↦ (h.2 i hi).imp fun _ hn ↦ hn.1, optNodes_nil⟩⟩⟩
  · exact EStateM.Triple.pure _ fun _ _ h ↦ h

theorem installDependenciesRoot_spec (hF : Stable F) {fuel : ℕ} {spec : ToolchainSpec} :
    Spec F (installDependenciesRoot env fuel spec) fun o b ↦ F b ∧ ∀ i ∈ o, b.Requiring i := by
  unfold installDependenciesRoot
  refine EStateM.Triple.ite (fun _ ↦ spec_pure_none) fun _ ↦ ?_
  exact locateDependenciesRoot_spec.bind fun _ ↦
    EStateM.Triple.ite (fun _ ↦ spec_pure_none) fun _ ↦ internalInstallDependencies_spec hF

end Specs

end ActionGraphBuilder

end Moon
