import Moon.Config.Merging

/-!
# How `build_task` merges a task's inherited settings

`crates/task-builder/src/tasks_builder.rs`.  `TasksBuilder::build_task` reads a task's
configuration from its inheritance chain — the global configurations it inherits, then the
project's own — and folds every list and map setting over the chain with the task's merge
strategies.

* `args` and the command line's `env` are folded over only the links whose command line sets
  them, each at its position among those links; `env` starts from the project's variables.
* `checks`, `deps`, `env`, `inputs`, `outputs`, `tags` and `toolchains` are folded over the whole
  chain, each link that sets the field at its position in the chain; the `deps` of an inherited
  link go through the project's filters first.  All but `args` are deduplicated.

`buildTaskMerge` is that part of `build_task`, loop for loop.  Each field is an instance of one
fold (`mergeChain` on lists, `mergeMapChain` on maps, by `buildTaskMerge_checks` and the like),
and what the fold computes under each strategy is stated once for all fields: `mergeChain_replace`,
`mergeChain_append_dedupe`, `mergeChain_prepend_dedupe`, `mergeChain_preserve` and the rest.
-/

set_option autoImplicit false

namespace Moon

/-- `EnvMap`, an `IndexMap<String, Option<String>>`. -/
abbrev EnvMap := List (String × Option String)

section Types

variable (Check Dep Input Output : Type)

/-- The settings of a `TaskConfig` that the merge reads, with the `args` and `env` that
`get_command_line` parses from the link.  `toolchains` is its `to_owned_list`. -/
structure TaskLinkConfig where
  checks : Option (List Check)
  deps : Option (List Dep)
  env : Option EnvMap
  inputs : Option (List Input)
  outputs : Option (List Output)
  tags : Option (List String)
  toolchains : Option (List String)
  commandArgs : Option (List String)
  commandEnv : Option EnvMap

/-- `ConfigChain`: one link of the chain, and whether it is inherited. -/
structure ConfigChain where
  config : TaskLinkConfig Check Dep Input Output
  inherited : Bool

/-- The merged settings of the task being built. -/
structure MergedTask where
  args : List String
  checks : List Check
  deps : List Dep
  env : EnvMap
  inputs : List Input
  outputs : List Output
  tags : List String
  toolchains : List String

end Types

/-- The merge strategies of `TaskOptions`. -/
structure TaskMergeOptions where
  mergeArgs : MergeStrategy
  mergeChecks : MergeStrategy
  mergeDeps : MergeStrategy
  mergeEnv : MergeStrategy
  mergeInputs : MergeStrategy
  mergeOutputs : MergeStrategy
  mergeTags : MergeStrategy
  mergeToolchains : MergeStrategy

section Build

variable {Check Dep Input Output : Type} [DecidableEq Check] [DecidableEq Dep] [DecidableEq Input]
  [DecidableEq Output]

/-- `if let Some(next) = value { field = merge_vec(field, next, strategy, index, dedupe) }`. -/
def mergeOpt {α : Type} [DecidableEq α] (field : List α) (value : Option (List α))
    (strategy : MergeStrategy) (index : ℕ) (dedupe : Bool) : List α :=
  match value with
  | some next => mergeVec field next strategy index dedupe
  | none => field

theorem mergeOpt_some {α : Type} [DecidableEq α] (field next : List α) (strategy : MergeStrategy)
    (index : ℕ) (dedupe : Bool) :
    mergeOpt field (some next) strategy index dedupe = mergeVec field next strategy index dedupe :=
  rfl

/-- `if let Some(next) = value { env = merge_index_map(env, next, strategy, index) }`. -/
def mergeMapOpt (field : EnvMap) (value : Option EnvMap) (strategy : MergeStrategy)
    (index : ℕ) : EnvMap :=
  match value with
  | some next => mergeIndexMap field next strategy index
  | none => field

theorem mergeMapOpt_some (field next : EnvMap) (strategy : MergeStrategy) (index : ℕ) :
    mergeMapOpt field (some next) strategy index = mergeIndexMap field next strategy index :=
  rfl

/-- The `deps` a link contributes: an inherited link's go through `apply_filters_to_deps`. -/
def linkDeps (applyFiltersToDeps : List Dep → List Dep)
    (link : ConfigChain Check Dep Input Output) : Option (List Dep) :=
  link.config.deps.map fun deps ↦ if link.inherited then applyFiltersToDeps deps else deps

/-- One pass of the loop over the chain in `build_task`, at the link's position `index`. -/
def mergeLink (options : TaskMergeOptions) (applyFiltersToDeps : List Dep → List Dep)
    (task : MergedTask Check Dep Input Output) (link : ConfigChain Check Dep Input Output)
    (index : ℕ) : MergedTask Check Dep Input Output :=
  { task with
    checks := mergeOpt task.checks link.config.checks options.mergeChecks index true
    deps := mergeOpt task.deps (linkDeps applyFiltersToDeps link) options.mergeDeps index true
    env := mergeMapOpt task.env link.config.env options.mergeEnv index
    inputs := mergeOpt task.inputs link.config.inputs options.mergeInputs index true
    outputs := mergeOpt task.outputs link.config.outputs options.mergeOutputs index true
    tags := mergeOpt task.tags link.config.tags options.mergeTags index true
    toolchains := mergeOpt task.toolchains link.config.toolchains options.mergeToolchains index
      true }

/-- The merging part of `TasksBuilder::build_task`: `args` over the command lines that set them,
`env` from the project's variables over the command lines' and then the chain's, and the other
settings over the chain. -/
def buildTaskMerge (options : TaskMergeOptions) (applyFiltersToDeps : List Dep → List Dep)
    (projectEnv : EnvMap) (chain : List (ConfigChain Check Dep Input Output)) :
    MergedTask Check Dep Input Output :=
  let argsSets := chain.filterMap (·.config.commandArgs)
  let envSets := chain.filterMap (·.config.commandEnv)
  let args := argsSets.zipIdx.foldl
    (fun args (next, index) ↦ mergeVec args next options.mergeArgs index false) []
  let env := envSets.zipIdx.foldl
    (fun env (next, index) ↦ mergeIndexMap env next options.mergeEnv index) projectEnv
  chain.zipIdx.foldl (fun task (link, index) ↦ mergeLink options applyFiltersToDeps task link index)
    ⟨args, [], [], env, [], [], [], []⟩

end Build

/-! ## One fold for every field -/

section Chain

variable {δ α : Type} [DecidableEq α]

/-- The fold a list setting goes through: every item that sets it merges its value in, at the
item's position. -/
def mergeChain (strategy : MergeStrategy) (dedupe : Bool) (value : δ → Option (List α))
    (items : List δ) (init : List α) : List α :=
  items.zipIdx.foldl (fun acc (item, index) ↦ mergeOpt acc (value item) strategy index dedupe) init

/-- The fold a map setting goes through. -/
def mergeMapChain (strategy : MergeStrategy) (value : δ → Option EnvMap) (items : List δ)
    (init : EnvMap) : EnvMap :=
  items.zipIdx.foldl (fun acc (item, index) ↦ mergeMapOpt acc (value item) strategy index) init

/-- Every strategy but `Preserve` ignores the position. -/
theorem mergeChain_eq_foldl {strategy : MergeStrategy} (hs : strategy ≠ .preserve) (dedupe : Bool)
    (value : δ → Option (List α)) (items : List δ) (init : List α) :
    mergeChain strategy dedupe value items init
      = items.foldl (fun acc item ↦ mergeOpt acc (value item) strategy 0 dedupe) init := by
  refine List.foldl_zipIdx_of_indep _ (fun acc item i j ↦ ?_) items 0 init
  show mergeOpt acc (value item) strategy i dedupe = mergeOpt acc (value item) strategy j dedupe
  cases value item with
  | none => rfl
  | some next => cases strategy <;> first | exact absurd rfl hs | rfl

theorem mergeMapChain_eq_foldl {strategy : MergeStrategy} (hs : strategy ≠ .preserve)
    (value : δ → Option EnvMap) (items : List δ) (init : EnvMap) :
    mergeMapChain strategy value items init
      = items.foldl (fun acc item ↦ mergeMapOpt acc (value item) strategy 0) init := by
  refine List.foldl_zipIdx_of_indep _ (fun acc item i j ↦ ?_) items 0 init
  show mergeMapOpt acc (value item) strategy i = mergeMapOpt acc (value item) strategy j
  cases value item with
  | none => rfl
  | some next => cases strategy <;> first | exact absurd rfl hs | rfl

/-- **`Replace`**: the value of the last item that sets it, or the start. -/
theorem mergeChain_replace (dedupe : Bool) (value : δ → Option (List α)) (items : List δ)
    (init : List α) :
    mergeChain .replace dedupe value items init = (items.filterMap value).getLast?.getD init := by
  rw [mergeChain_eq_foldl (by decide)]
  induction items generalizing init with
  | nil => rfl
  | cons item items ih =>
    rw [List.foldl_cons, ih, List.filterMap_cons]
    cases value item with
    | none => rfl
    | some next => rw [List.getLast?_cons, Option.getD_some]; rfl

/-- **Deduplicated `Append`**: the values from first to last, every item dropped that came
before. -/
theorem mergeChain_append_dedupe (value : δ → Option (List α)) (items : List δ) :
    mergeChain .append true value items [] = (items.filterMap value).flatten.eraseDups := by
  rw [mergeChain_eq_foldl (by decide)]
  -- the invariant: the fold so far holds the values so far without repeats
  suffices h : ∀ (done : List α) (items : List δ),
      items.foldl (fun acc item ↦ mergeOpt acc (value item) .append 0 true) done.eraseDups
        = (done ++ (items.filterMap value).flatten).eraseDups by
    simpa using h [] items
  intro done items
  induction items generalizing done with
  | nil => simp
  | cons item items ih =>
    rw [List.foldl_cons, List.filterMap_cons]
    cases value item with
    | none => exact ih done
    | some next =>
      have hstep : mergeOpt done.eraseDups (some next) .append 0 true = (done ++ next).eraseDups := by
        rw [mergeOpt_some, mergeVec_append_dedupe, List.eraseDups_append,
          List.removeAll_congr fun x ↦ List.mem_eraseDups]
      rw [hstep, ih, List.flatten_cons, List.append_assoc]

/-- **`Append` without deduplication**: the values from first to last. -/
theorem mergeChain_append (value : δ → Option (List α)) (items : List δ) (init : List α) :
    mergeChain .append false value items init = init ++ (items.filterMap value).flatten := by
  rw [mergeChain_eq_foldl (by decide)]
  induction items generalizing init with
  | nil => simp
  | cons item items ih =>
    rw [List.foldl_cons, ih, List.filterMap_cons]
    cases value item with
    | none => rfl
    | some next => simp [mergeOpt_some, mergeVec_append]

/-- **Deduplicated `Prepend`**: the last value that is not empty, whole, then the items of the
values before it, last to first, that it lacks, each once.  An empty value changes nothing. -/
theorem mergeChain_prepend_dedupe (value : δ → Option (List α)) (items : List δ) :
    mergeChain .prepend true value items []
      = ((items.filterMap value).filter fun v ↦ !v.isEmpty).reverse.joinNew := by
  rw [mergeChain_eq_foldl (by decide)]
  -- the invariant: the fold so far is the join of the values so far
  suffices h : ∀ (done : List (List α)) (items : List δ),
      items.foldl (fun acc item ↦ mergeOpt acc (value item) .prepend 0 true) done.reverse.joinNew
        = (done ++ (items.filterMap value).filter fun v ↦ !v.isEmpty).reverse.joinNew by
    simpa [List.joinNew] using h [] items
  intro done items
  induction items generalizing done with
  | nil => simp
  | cons item items ih =>
    rw [List.foldl_cons, List.filterMap_cons]
    cases value item with
    | none => exact ih done
    | some next =>
      by_cases hempty : next = []
      · -- `merge_vec` returns `base` for an empty `next`
        subst hempty
        rw [mergeOpt_some]
        unfold mergeVec
        simpa using ih done
      · -- the new value, then what the fold held that it does not
        have hstep : mergeOpt done.reverse.joinNew (some next) .prepend 0 true
            = (done ++ [next]).reverse.joinNew := by
          rw [mergeOpt_some, mergeVec_prepend_dedupe hempty, List.reverse_append,
            List.reverse_singleton, List.singleton_append, List.joinNew, List.removeAll,
            List.removeAll, List.eraseDups_filter, List.eraseDups_filter, List.eraseDups_joinNew]
        have hfilter : (next :: items.filterMap value).filter (fun v ↦ !v.isEmpty)
            = next :: (items.filterMap value).filter fun v ↦ !v.isEmpty := by
          simp [hempty]
        rw [hstep, ih, hfilter, List.append_assoc, List.singleton_append]

/-- **`Prepend` without deduplication**: the values from last to first. -/
theorem mergeChain_prepend (value : δ → Option (List α)) (items : List δ) (init : List α) :
    mergeChain .prepend false value items init = (items.filterMap value).reverse.flatten ++ init := by
  rw [mergeChain_eq_foldl (by decide)]
  induction items generalizing init with
  | nil => simp
  | cons item items ih =>
    rw [List.foldl_cons, ih, List.filterMap_cons]
    cases value item with
    | none => rfl
    | some next => simp [mergeOpt_some, mergeVec_prepend]

/-- **`Preserve`**: the first item's value, or the start when the first item does not set it. -/
theorem mergeChain_preserve (dedupe : Bool) (value : δ → Option (List α)) (items : List δ)
    (init : List α) :
    mergeChain .preserve dedupe value items init = (items.head?.bind value).getD init := by
  cases items with
  | nil => rfl
  | cons item items =>
    -- after the first position, `merge_vec` keeps `base`
    rw [mergeChain, List.zipIdx_cons, List.foldl_cons,
      List.foldl_zipIdx_succ_of_id _ fun acc item' _ ↦ by dsimp only; cases value item' <;> rfl]
    dsimp only
    rw [List.head?_cons, Option.bind_some]
    cases value item <;> rfl

/-- **Maps under `Append`**: read as the start followed by the values, first to last, so the
last value of a key wins. -/
theorem mergeMapChain_append (value : δ → Option EnvMap) (items : List δ) (init : EnvMap)
    (k : String) : IndexMap.get? (mergeMapChain .append value items init) k
      = IndexMap.get? (init ++ (items.filterMap value).flatten) k := by
  rw [mergeMapChain_eq_foldl (by decide)]
  induction items generalizing init with
  | nil => simp
  | cons item items ih =>
    rw [List.foldl_cons, ih, List.filterMap_cons]
    cases value item with
    | none => rfl
    | some next =>
      rw [IndexMap.get?_append, mergeMapOpt_some, get?_mergeIndexMap_append, List.flatten_cons,
        ← List.append_assoc, IndexMap.get?_append (init ++ next)]

/-- **Maps under `Prepend`**: read as the values, last to first, followed by the start, so the
first value of a key wins. -/
theorem mergeMapChain_prepend (value : δ → Option EnvMap) (items : List δ) (init : EnvMap)
    (k : String) : IndexMap.get? (mergeMapChain .prepend value items init) k
      = IndexMap.get? ((items.filterMap value).reverse.flatten ++ init) k := by
  rw [mergeMapChain_eq_foldl (by decide)]
  induction items generalizing init with
  | nil => simp
  | cons item items ih =>
    rw [List.foldl_cons, ih, List.filterMap_cons]
    cases value item with
    | none => rfl
    | some next =>
      rw [IndexMap.get?_append, mergeMapOpt_some, get?_mergeIndexMap_prepend, List.reverse_cons,
        List.flatten_append, List.flatten_singleton, List.append_assoc,
        IndexMap.get?_append _ (next ++ init)]

/-- **Maps under `Replace`**: the last value, or the start. -/
theorem mergeMapChain_replace (value : δ → Option EnvMap) (items : List δ) (init : EnvMap) :
    mergeMapChain .replace value items init = (items.filterMap value).getLast?.getD init := by
  rw [mergeMapChain_eq_foldl (by decide)]
  induction items generalizing init with
  | nil => rfl
  | cons item items ih =>
    rw [List.foldl_cons, ih, List.filterMap_cons]
    cases value item with
    | none => rfl
    | some next => rw [List.getLast?_cons, Option.getD_some]; rfl

/-- **Maps under `Preserve`**: the first item's value, or the start when the first item does not
set it. -/
theorem mergeMapChain_preserve (value : δ → Option EnvMap) (items : List δ) (init : EnvMap) :
    mergeMapChain .preserve value items init = (items.head?.bind value).getD init := by
  cases items with
  | nil => rfl
  | cons item items =>
    rw [mergeMapChain, List.zipIdx_cons, List.foldl_cons,
      List.foldl_zipIdx_succ_of_id _ fun acc item' _ ↦ by dsimp only; cases value item' <;> rfl]
    dsimp only
    rw [List.head?_cons, Option.bind_some]
    cases value item <;> rfl

/-! ## What each strategy means -/

/-- The documented meaning of a strategy for a list setting, over the items that may set it:
`Replace` keeps the last value; `Append` joins the values first to last and, deduplicating,
drops every item that came before; `Prepend` without deduplication joins them last to first, and
with it keeps the last value that is not empty whole, followed by the items of the earlier values,
last to first, that it lacks, each once; and `Preserve` keeps the first item's value, or nothing
when the first item does not set it, whatever later items set. -/
def ListMergeSpec (strategy : MergeStrategy) (dedupe : Bool) (value : δ → Option (List α))
    (items : List δ) (result : List α) : Prop :=
  match strategy with
  | .replace => result = (items.filterMap value).getLast?.getD []
  | .append =>
    result = if dedupe then (items.filterMap value).flatten.eraseDups
      else (items.filterMap value).flatten
  | .prepend =>
    result = if dedupe then ((items.filterMap value).filter fun v ↦ !v.isEmpty).reverse.joinNew
      else (items.filterMap value).reverse.flatten
  | .preserve => result = (items.head?.bind value).getD []

/-- The documented meaning of a strategy for `env`: the project's variables first, then the
command lines' maps, then the links'.  `Append` reads every key in the last map that has it,
`Prepend` in the first, `Replace` keeps the last map, and `Preserve` keeps the first link's map,
or, when the first link sets none, the first command line's map, or else the project's
variables. -/
def EnvMergeSpec (strategy : MergeStrategy) (projectEnv : EnvMap) (commandEnvs : List EnvMap)
    (value : δ → Option EnvMap) (items : List δ) (result : EnvMap) : Prop :=
  match strategy with
  | .replace => result = (commandEnvs ++ items.filterMap value).getLast?.getD projectEnv
  | .append => ∀ k, IndexMap.get? result k
      = IndexMap.get? (projectEnv ++ (commandEnvs ++ items.filterMap value).flatten) k
  | .prepend => ∀ k, IndexMap.get? result k
      = IndexMap.get? ((commandEnvs ++ items.filterMap value).reverse.flatten ++ projectEnv) k
  | .preserve => result = (items.head?.bind value).getD (commandEnvs.head?.getD projectEnv)

/-- **The list fold means what its strategy says.** -/
theorem mergeChain_spec (strategy : MergeStrategy) (dedupe : Bool) (value : δ → Option (List α))
    (items : List δ) :
    ListMergeSpec strategy dedupe value items (mergeChain strategy dedupe value items []) := by
  cases strategy with
  | replace => exact mergeChain_replace dedupe value items []
  | append =>
    cases dedupe with
    | true => exact mergeChain_append_dedupe value items
    | false => exact (mergeChain_append value items []).trans (List.nil_append _)
  | prepend =>
    cases dedupe with
    | true => exact mergeChain_prepend_dedupe value items
    | false => exact (mergeChain_prepend value items []).trans (List.append_nil _)
  | preserve => exact mergeChain_preserve dedupe value items []

/-- **`env` means what its strategy says**: the command lines' maps folded from the project's
variables, then the links' maps folded from that. -/
theorem mergeMapChain_spec (strategy : MergeStrategy) (projectEnv : EnvMap)
    (commandEnvs : List EnvMap) (value : δ → Option EnvMap) (items : List δ) :
    EnvMergeSpec strategy projectEnv commandEnvs value items
      (mergeMapChain strategy value items (mergeMapChain strategy some commandEnvs projectEnv)) := by
  cases strategy with
  | replace =>
    rw [EnvMergeSpec, mergeMapChain_replace, mergeMapChain_replace, List.filterMap_some,
      List.getLast?_append]
    cases (items.filterMap value).getLast? <;> rfl
  | append =>
    intro k
    rw [mergeMapChain_append, IndexMap.get?_append, mergeMapChain_append, List.filterMap_some,
      List.flatten_append, ← List.append_assoc, IndexMap.get?_append (projectEnv ++ _)]
  | prepend =>
    intro k
    rw [mergeMapChain_prepend, IndexMap.get?_append, mergeMapChain_prepend, List.filterMap_some,
      List.reverse_append, List.flatten_append, List.append_assoc,
      IndexMap.get?_append _ (commandEnvs.reverse.flatten ++ projectEnv)]
  | preserve =>
    rw [EnvMergeSpec, mergeMapChain_preserve, mergeMapChain_preserve, Option.bind_fun_some]

end Chain

/-! ## `build_task` field by field -/

section Fields

variable {Check Dep Input Output : Type} [DecidableEq Check] [DecidableEq Dep] [DecidableEq Input]
  [DecidableEq Output] (options : TaskMergeOptions) (applyFiltersToDeps : List Dep → List Dep)
  (projectEnv : EnvMap) (chain : List (ConfigChain Check Dep Input Output))

theorem buildTaskMerge_args :
    (buildTaskMerge options applyFiltersToDeps projectEnv chain).args
      = mergeChain options.mergeArgs false some (chain.filterMap (·.config.commandArgs)) [] := by
  unfold buildTaskMerge
  -- the loop over the chain leaves `args` alone
  suffices h : ∀ (l : List (ConfigChain Check Dep Input Output × ℕ))
      (init : MergedTask Check Dep Input Output),
      (l.foldl (fun task (link, index) ↦ mergeLink options applyFiltersToDeps task link index)
        init).args = init.args by
    rw [h]
    rfl
  intro l
  induction l with
  | nil => intro _; rfl
  | cons x l ih =>
    intro init
    rw [List.foldl_cons, ih]
    rfl

theorem buildTaskMerge_checks :
    (buildTaskMerge options applyFiltersToDeps projectEnv chain).checks
      = mergeChain options.mergeChecks true (·.config.checks) chain [] := by
  unfold buildTaskMerge mergeChain
  exact (List.foldl_hom MergedTask.checks fun _ ⟨_, _⟩ ↦ rfl).symm

theorem buildTaskMerge_deps :
    (buildTaskMerge options applyFiltersToDeps projectEnv chain).deps
      = mergeChain options.mergeDeps true (linkDeps applyFiltersToDeps) chain [] := by
  unfold buildTaskMerge mergeChain
  exact (List.foldl_hom MergedTask.deps fun _ ⟨_, _⟩ ↦ rfl).symm

theorem buildTaskMerge_env :
    (buildTaskMerge options applyFiltersToDeps projectEnv chain).env
      = mergeMapChain options.mergeEnv (·.config.env) chain
          (mergeMapChain options.mergeEnv some (chain.filterMap (·.config.commandEnv))
            projectEnv) := by
  unfold buildTaskMerge mergeMapChain
  exact (List.foldl_hom MergedTask.env fun _ ⟨_, _⟩ ↦ rfl).symm

theorem buildTaskMerge_inputs :
    (buildTaskMerge options applyFiltersToDeps projectEnv chain).inputs
      = mergeChain options.mergeInputs true (·.config.inputs) chain [] := by
  unfold buildTaskMerge mergeChain
  exact (List.foldl_hom MergedTask.inputs fun _ ⟨_, _⟩ ↦ rfl).symm

theorem buildTaskMerge_outputs :
    (buildTaskMerge options applyFiltersToDeps projectEnv chain).outputs
      = mergeChain options.mergeOutputs true (·.config.outputs) chain [] := by
  unfold buildTaskMerge mergeChain
  exact (List.foldl_hom MergedTask.outputs fun _ ⟨_, _⟩ ↦ rfl).symm

theorem buildTaskMerge_tags :
    (buildTaskMerge options applyFiltersToDeps projectEnv chain).tags
      = mergeChain options.mergeTags true (·.config.tags) chain [] := by
  unfold buildTaskMerge mergeChain
  exact (List.foldl_hom MergedTask.tags fun _ ⟨_, _⟩ ↦ rfl).symm

theorem buildTaskMerge_toolchains :
    (buildTaskMerge options applyFiltersToDeps projectEnv chain).toolchains
      = mergeChain options.mergeToolchains true (·.config.toolchains) chain [] := by
  unfold buildTaskMerge mergeChain
  exact (List.foldl_hom MergedTask.toolchains fun _ ⟨_, _⟩ ↦ rfl).symm

/-- **Every setting `build_task` merges means what its strategy says**: `args` over the command
lines that set them, without deduplication, each at its position among them; `checks`, `deps`
(filtered when inherited), `inputs`, `outputs`, `tags` and `toolchains` over the chain,
deduplicated; and `env` from the project's variables, over the command lines' maps and then the
links'. -/
theorem build_task_merges_by_strategy :
    ListMergeSpec options.mergeArgs false some (chain.filterMap (·.config.commandArgs))
        (buildTaskMerge options applyFiltersToDeps projectEnv chain).args ∧
      ListMergeSpec options.mergeChecks true (·.config.checks) chain
        (buildTaskMerge options applyFiltersToDeps projectEnv chain).checks ∧
      ListMergeSpec options.mergeDeps true (linkDeps applyFiltersToDeps) chain
        (buildTaskMerge options applyFiltersToDeps projectEnv chain).deps ∧
      EnvMergeSpec options.mergeEnv projectEnv (chain.filterMap (·.config.commandEnv))
        (·.config.env) chain (buildTaskMerge options applyFiltersToDeps projectEnv chain).env ∧
      ListMergeSpec options.mergeInputs true (·.config.inputs) chain
        (buildTaskMerge options applyFiltersToDeps projectEnv chain).inputs ∧
      ListMergeSpec options.mergeOutputs true (·.config.outputs) chain
        (buildTaskMerge options applyFiltersToDeps projectEnv chain).outputs ∧
      ListMergeSpec options.mergeTags true (·.config.tags) chain
        (buildTaskMerge options applyFiltersToDeps projectEnv chain).tags ∧
      ListMergeSpec options.mergeToolchains true (·.config.toolchains) chain
        (buildTaskMerge options applyFiltersToDeps projectEnv chain).toolchains := by
  rw [buildTaskMerge_args, buildTaskMerge_checks, buildTaskMerge_deps, buildTaskMerge_env,
    buildTaskMerge_inputs, buildTaskMerge_outputs, buildTaskMerge_tags, buildTaskMerge_toolchains]
  exact ⟨mergeChain_spec _ _ _ _, mergeChain_spec _ _ _ _, mergeChain_spec _ _ _ _,
    mergeMapChain_spec _ _ _ _ _, mergeChain_spec _ _ _ _, mergeChain_spec _ _ _ _,
    mergeChain_spec _ _ _ _, mergeChain_spec _ _ _ _⟩

end Fields

/-- Two links whose command lines both pass `--fix`, under `Append`: `args` keeps the repeat, and
`env`, which no link sets, is the project's variables rather than empty. -/
theorem args_keep_repeats_and_env_starts_from_the_project :
    (buildTaskMerge ⟨.append, .append, .append, .append, .append, .append, .append, .append⟩ id
        [("NODE_ENV", some "production")]
        ([⟨⟨none, none, none, none, none, none, none, some ["--fix"], none⟩, true⟩,
          ⟨⟨none, none, none, none, none, none, none, some ["--fix"], none⟩, false⟩] :
          List (ConfigChain String String String String))).args = ["--fix", "--fix"] ∧
      (buildTaskMerge ⟨.append, .append, .append, .append, .append, .append, .append, .append⟩ id
        [("NODE_ENV", some "production")]
        ([⟨⟨none, none, none, none, none, none, none, some ["--fix"], none⟩, true⟩,
          ⟨⟨none, none, none, none, none, none, none, some ["--fix"], none⟩, false⟩] :
          List (ConfigChain String String String String))).env
        = [("NODE_ENV", some "production")] :=
  ⟨rfl, rfl⟩

end Moon
