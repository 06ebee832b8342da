import Moon.Lib.DiGraph
import Moon.Lib.Merge
import Mathlib.Data.Finset.Card

/-!
# Deep traversal of a graph

`crates/graph-utils/src/graph_traits.rs`.  The project graph and the task graph implement
`GraphData` and `GraphConnections`: a `petgraph` graph whose node weights are node indices, and
lookups between nodes, their indices and their keys.  On those the trait's provided methods read
the direct relations of a node (`dependencies_of`, `dependents_of`), and `traverse_deep` all of
them (`deep_dependencies_of`, `deep_dependents_of`).

`traverse_deep` pops a node off a stack, skips it when its key was visited, and otherwise records
the keys of its direct relations, in the order they first come, and pushes the nodes of those keys,
which it finds by scanning every node weight.  Its result is the list of recorded keys.

On a graph whose lookups agree with each other (`Coherent`: every node's weight is its index,
looking an index up gives a node whose index is that one, and keys tell nodes apart) the result
holds each key reachable from the node by a path of one edge or more once, and no other key
(`traverseDeep_spec`).  The proof keeps `TraverseInv` over the rounds of the loop: the recorded
keys are reachable and repeat none, every queued node is a reachable node of the graph, and every
visited node has its relations recorded and visited or queued.  Each round that visits a node
lowers `potential`, so the loop's fuel is enough.

A lookup of an implementation may panic; that is `none` here.
-/

set_option autoImplicit false

namespace Moon

open Petgraph

/-- What an implementation of `GraphData` and `GraphConnections` gives the provided methods: the
graph, whose node weights are node indices, and the lookups, any of which may panic. -/
structure GraphConnections (N E K : Type) where
  /-- `get_graph`. -/
  graph : DiGraph ℕ E
  /-- `get_node_by_index`. -/
  nodeByIndex : ℕ → Option N
  /-- `get_node_key`. -/
  nodeKey : N → K
  /-- `get_node_index`. -/
  nodeIndex : N → Option ℕ

namespace GraphConnections

variable {N E K : Type} [DecidableEq K] (g : GraphConnections N E K)

/-- The keys of the nodes next to `node` in a direction.  `dependencies_of` and `dependents_of`
are this function in the two directions. -/
def neighborKeys (node : N) (dir : Direction) : Option (List K) := do
  let index ← g.nodeIndex node
  (g.graph.neighborsDirected index dir).mapM fun idx ↦ g.nodeKey <$> g.nodeByIndex idx

/-- `GraphConnections::dependencies_of`. -/
def dependenciesOf (node : N) : Option (List K) := g.neighborKeys node .outgoing

/-- `GraphConnections::dependents_of`. -/
def dependentsOf (node : N) : Option (List K) := g.neighborKeys node .incoming

/-- The nodes whose key is one of `keys`, found by scanning the node weights in order: the
`dep_nodes` of `traverse_deep`. -/
def nodesWithKeys (keys : List K) : Option (List N) :=
  g.graph.nodes.filterMapM fun index ↦ do
    let depNode ← g.nodeByIndex index
    pure (if g.nodeKey depNode ∈ keys then some depNode else none)

/-- The `while let Some(node) = queue.pop()` loop of `traverse_deep`, for `fuel` rounds: the
queue with its top first, the keys visited, and the keys recorded, in the order they were
recorded (the values of the `deps` map). -/
def traverseLoop (forDependents : Bool) : ℕ → List N → Finset K → List K → Option (List K)
  | 0, _, _, deps => some deps
  | _ + 1, [], _, deps => some deps
  | fuel + 1, node :: queue, visited, deps =>
    if g.nodeKey node ∈ visited then traverseLoop forDependents fuel queue visited deps
    else do
      let visited := insert (g.nodeKey node) visited
      let depKeys ← if forDependents then g.dependentsOf node else g.dependenciesOf node
      if depKeys.isEmpty then traverseLoop forDependents fuel queue visited deps
      else
        let depNodes ← g.nodesWithKeys depKeys
        -- `queue.extend(dep_nodes)` puts the last of them on top
        traverseLoop forDependents fuel (depNodes.reverse ++ queue) visited
          (deps.appendNew depKeys)

/-- `traverse_deep`, with its loop given enough rounds to empty the queue: a round that does not
drop a node visits a key not visited before, of the start or of a node weight, and pushes at most
one node for each weight. -/
def traverseDeep (node : N) (forDependents : Bool) : Option (List K) :=
  g.traverseLoop forDependents ((g.graph.nodes.length + 1) * (g.graph.nodes.length + 1) + 2)
    [node] ∅ []

/-- `GraphConnections::deep_dependencies_of`. -/
def deepDependenciesOf (node : N) : Option (List K) := g.traverseDeep node false

/-- `GraphConnections::deep_dependents_of`. -/
def deepDependentsOf (node : N) : Option (List K) := g.traverseDeep node true

/-- The node closure of `to_focused_graph`: keep a weight whose node's key is the focus's, or one
of the keys it depends on or that depend on it. -/
def keepFocused (focusKey : K) (upstream downstream : List K) (node : ℕ) : Option ℕ :=
  (g.nodeByIndex node).bind fun n ↦
    let nodeKey := g.nodeKey n
    if nodeKey = focusKey ∨ nodeKey ∈ upstream ∨ nodeKey ∈ downstream then some node else none

/-- `GraphConversions::to_focused_graph`. -/
def toFocusedGraph (focusNode : N) (withDependents : Bool) : Option (DiGraph ℕ E) := do
  let upstream ← g.deepDependenciesOf focusNode
  let downstream ← if withDependents then g.deepDependentsOf focusNode else pure []
  let focusKey := g.nodeKey focusNode
  -- the node closure panics at a weight whose node it cannot look up
  if g.graph.nodes.all fun node ↦ (g.nodeByIndex node).isSome then
    pure (g.graph.filterMap (fun _ node ↦ g.keepFocused focusKey upstream downstream node)
      fun _ edge ↦ some edge)
  else none

/-! ## Loops over lookups that do not panic -/

theorem mapM_option_of_isSome {α β : Type} {f : α → Option β} :
    ∀ {l : List α}, (∀ a ∈ l, (f a).isSome) →
      ∃ r, l.mapM f = some r ∧ r.length = l.length ∧ ∀ b, b ∈ r ↔ ∃ a ∈ l, f a = some b
  | [], _ => ⟨[], rfl, rfl, by simp⟩
  | a :: l, h => by
    obtain ⟨b, hb⟩ := Option.isSome_iff_exists.1 (h a List.mem_cons_self)
    obtain ⟨r, hr, hlen, hmem⟩ :=
      mapM_option_of_isSome fun a' ha' ↦ h a' (List.mem_cons_of_mem a ha')
    refine ⟨b :: r, by simp [hb, hr], by simp [hlen], fun b' ↦ ?_⟩
    simp [hmem, hb, eq_comm]

theorem filterMapM_option_of_isSome {α β : Type} {f : α → Option (Option β)} :
    ∀ {l : List α}, (∀ a ∈ l, (f a).isSome) →
      ∃ r, l.filterMapM f = some r ∧ r.length ≤ l.length ∧ ∀ b, b ∈ r ↔ ∃ a ∈ l, f a = some (some b)
  | [], _ => ⟨[], rfl, le_rfl, by simp⟩
  | a :: l, h => by
    obtain ⟨b?, hb⟩ := Option.isSome_iff_exists.1 (h a List.mem_cons_self)
    obtain ⟨r, hr, hlen, hmem⟩ :=
      filterMapM_option_of_isSome fun a' ha' ↦ h a' (List.mem_cons_of_mem a ha')
    cases b? with
    | none =>
      refine ⟨r, by simp [hb, hr], by simp only [List.length_cons]; omega, fun b' ↦ ?_⟩
      simp [hmem, hb]
    | some b =>
      refine ⟨b :: r, by simp [hb, hr], by simp only [List.length_cons]; omega, fun b' ↦ ?_⟩
      simp [hmem, hb, eq_comm]

/-! ## Graphs whose lookups agree -/

/-- The node at index `i` has the key `k`. -/
def KeyAt (i : ℕ) (k : K) : Prop := ∃ n, g.nodeByIndex i = some n ∧ g.nodeKey n = k

/-- The lookups agree with each other and with the graph: every node's weight is its own index,
looking an index of the graph up gives a node whose index is that one, a node's index is one of the
graph whose node has the same key, and two nodes of the graph with one key are one node. -/
structure Coherent : Prop where
  weights : g.graph.nodes = List.range g.graph.nodes.length
  node : ∀ i < g.graph.nodes.length, ∃ n, g.nodeByIndex i = some n ∧ g.nodeIndex n = some i
  index : ∀ n i, g.nodeIndex n = some i → i < g.graph.nodes.length ∧ g.KeyAt i (g.nodeKey n)
  key_inj : ∀ i j k, i < g.graph.nodes.length → j < g.graph.nodes.length → g.KeyAt i k →
    g.KeyAt j k → i = j

/-- The direction `traverse_deep` follows. -/
def traverseDir (forDependents : Bool) : Direction := if forDependents then .incoming else .outgoing

omit [DecidableEq K] in
/-- The lookup of the relations a round of the loop makes, as the loop is compiled. -/
theorem depKeys_bind {α : Type} (forDependents : Bool) (node : N) (k : List K → Option α) :
    (if forDependents = true then g.dependentsOf node >>= k else g.dependenciesOf node >>= k) =
      g.neighborKeys node (traverseDir forDependents) >>= k := by
  cases forDependents <;> rfl

variable {g}

omit [DecidableEq K] in
theorem keyAt_unique {i : ℕ} {k k' : K} (h : g.KeyAt i k) (h' : g.KeyAt i k') : k = k' := by
  obtain ⟨n, hn, rfl⟩ := h
  obtain ⟨n', hn', rfl⟩ := h'
  rw [hn, Option.some.injEq] at hn'
  rw [hn']

omit [DecidableEq K] in
/-- Both ends of a step are nodes of the graph. -/
theorem lt_of_step_left {dir : Direction} {i j : ℕ} (h : g.graph.Step dir i j) :
    i < g.graph.nodes.length := by
  cases dir with
  | outgoing =>
    obtain ⟨e, he, hpair⟩ := List.mem_map.1 (DiGraph.step_outgoing_iff.1 h)
    simp only [Edge.pair, Prod.mk.injEq] at hpair
    exact hpair.1 ▸ (g.graph.valid e he).1
  | incoming =>
    obtain ⟨e, he, hpair⟩ := List.mem_map.1 (DiGraph.step_incoming_iff.1 h)
    simp only [Edge.pair, Prod.mk.injEq] at hpair
    exact hpair.2 ▸ (g.graph.valid e he).2

section Coherent

variable (hc : g.Coherent)
include hc

omit [DecidableEq K] in
omit [DecidableEq K] in
/-- **The direct relations of a node of the graph**: the keys of the nodes one step away. -/
theorem neighborKeys_spec {node : N} {i : ℕ} (hi : g.nodeIndex node = some i) (dir : Direction) :
    ∃ ks, g.neighborKeys node dir = some ks ∧
      ∀ k, k ∈ ks ↔ ∃ j, g.graph.Step dir i j ∧ g.KeyAt j k := by
  have hsome : ∀ j ∈ g.graph.neighborsDirected i dir, (g.nodeKey <$> g.nodeByIndex j).isSome := by
    intro j hj
    obtain ⟨n, hn, -⟩ := hc.node j (DiGraph.lt_of_step hj)
    simp [hn]
  obtain ⟨ks, hks, -, hmem⟩ := mapM_option_of_isSome hsome
  refine ⟨ks, by simpa [neighborKeys, hi] using hks, fun k ↦ ?_⟩
  rw [hmem]
  constructor
  · rintro ⟨j, hj, hk⟩
    obtain ⟨n, hn, rfl⟩ := Option.map_eq_some_iff.1 hk
    exact ⟨j, hj, n, hn, rfl⟩
  · rintro ⟨j, hj, n, hn, rfl⟩
    exact ⟨j, hj, by simp [hn]⟩

/-- **The nodes of some keys**: scanning the weights finds the nodes of the graph with those keys,
at most one for each weight. -/
theorem nodesWithKeys_spec (keys : List K) :
    ∃ ns, g.nodesWithKeys keys = some ns ∧ ns.length ≤ g.graph.nodes.length ∧
      ∀ m, m ∈ ns ↔ ∃ j < g.graph.nodes.length, g.nodeByIndex j = some m ∧ g.nodeKey m ∈ keys := by
  have hsome : ∀ j ∈ g.graph.nodes, (do
      let depNode ← g.nodeByIndex j
      pure (if g.nodeKey depNode ∈ keys then some depNode else none) : Option (Option N)).isSome := by
    intro j hj
    rw [hc.weights, List.mem_range] at hj
    obtain ⟨n, hn, -⟩ := hc.node j hj
    simp [hn]
  obtain ⟨ns, hns, hlen, hmem⟩ := filterMapM_option_of_isSome hsome
  refine ⟨ns, hns, hlen, fun m ↦ ?_⟩
  rw [hmem, hc.weights]
  simp only [List.mem_range, Option.bind_eq_bind, Option.bind_eq_some_iff, Option.pure_def,
    Option.some.injEq, List.length_range]
  constructor
  · rintro ⟨j, hj, n, hn, hif⟩
    split_ifs at hif with hk
    cases hif
    exact ⟨j, hj, hn, hk⟩
  · rintro ⟨j, hj, hn, hk⟩
    exact ⟨j, hj, m, hn, if_pos hk⟩

end Coherent

/-! ## The loop of `traverse_deep` -/

/-- The indices of the graph whose node's key was not visited yet. -/
def unvisited (visited : Finset K) : Finset ℕ :=
  (Finset.range g.graph.nodes.length).filter fun j ↦ ∀ n ∈ g.nodeByIndex j, g.nodeKey n ∉ visited

/-- What the loop has left to do: each unvisited index may yet push a node for every index, and
each queued node takes a round to pop. -/
def potential (queue : List N) (visited : Finset K) : ℕ :=
  (g.unvisited visited).card * (g.graph.nodes.length + 1) + queue.length

/-- What holds between the rounds of the loop of `traverse_deep` from the node at index `s`. -/
structure TraverseInv (dir : Direction) (s : ℕ) (queue : List N) (visited : Finset K)
    (deps : List K) : Prop where
  nodup : deps.Nodup
  /-- a recorded key is that of a node reachable by one edge or more -/
  sound : ∀ k ∈ deps, ∃ j, Relation.TransGen (g.graph.Step dir) s j ∧ g.KeyAt j k
  /-- a queued node is a node of the graph reachable from the start -/
  queued : ∀ m ∈ queue, ∃ j, g.nodeIndex m = some j ∧ Relation.ReflTransGen (g.graph.Step dir) s j
  /-- a visited node has the keys of its relations recorded, and each relation is visited or
  waits in the queue -/
  closed : ∀ j, (∃ k ∈ visited, g.KeyAt j k) → ∀ j', g.graph.Step dir j j' →
    (∃ k ∈ deps, g.KeyAt j' k) ∧ ((∃ k ∈ visited, g.KeyAt j' k) ∨ ∃ m ∈ queue, g.nodeIndex m = some j')
  start : (∃ k ∈ visited, g.KeyAt s k) ∨ ∃ m ∈ queue, g.nodeIndex m = some s

variable {dir : Direction} {s : ℕ}

omit [DecidableEq K] in
/-- With the queue empty every node reachable from the start was visited. -/
theorem TraverseInv.visited_of_reach {visited : Finset K} {deps : List K}
    (hinv : g.TraverseInv dir s [] visited deps) {j : ℕ}
    (hj : Relation.ReflTransGen (g.graph.Step dir) s j) : ∃ k ∈ visited, g.KeyAt j k := by
  induction hj with
  | refl => simpa using hinv.start
  | tail _ hstep ih => simpa using (hinv.closed _ ih _ hstep).2

omit [DecidableEq K] in
/-- **What the loop returns**: with the queue empty, the recorded keys are those of the nodes
reachable by one edge or more. -/
theorem TraverseInv.mem_iff {visited : Finset K} {deps : List K}
    (hinv : g.TraverseInv dir s [] visited deps) (k : K) :
    k ∈ deps ↔ ∃ j, Relation.TransGen (g.graph.Step dir) s j ∧ g.KeyAt j k := by
  refine ⟨hinv.sound k, fun ⟨j, hj, hk⟩ ↦ ?_⟩
  obtain ⟨j₀, hj₀, hstep⟩ := Relation.TransGen.tail'_iff.1 hj
  obtain ⟨k', hk', hkj⟩ := (hinv.closed j₀ (hinv.visited_of_reach hj₀) j hstep).1
  rwa [keyAt_unique hk hkj]

omit [DecidableEq K] in
theorem TraverseInv.init {node : N} (hs : g.nodeIndex node = some s) :
    g.TraverseInv dir s [node] ∅ [] where
  nodup := List.nodup_nil
  sound := by simp
  queued := by simpa using ⟨s, hs, Relation.ReflTransGen.refl⟩
  closed := by simp
  start := Or.inr ⟨node, List.mem_singleton_self _, hs⟩

theorem potential_pop (m : N) (queue : List N) (visited : Finset K) :
    g.potential queue visited < g.potential (m :: queue) visited := by
  unfold potential
  simp

section Coherent

variable (hc : g.Coherent)
include hc

omit [DecidableEq K] in
/-- A popped node whose key was visited is dropped. -/
theorem TraverseInv.pop {m : N} {queue : List N} {visited : Finset K} {deps : List K}
    (hinv : g.TraverseInv dir s (m :: queue) visited deps) (hv : g.nodeKey m ∈ visited) :
    g.TraverseInv dir s queue visited deps := by
  -- the node `m` itself is visited: its index's key is `m`'s
  have hm : ∀ j, g.nodeIndex m = some j → ∃ k ∈ visited, g.KeyAt j k :=
    fun j hj ↦ ⟨_, hv, (hc.index m j hj).2⟩
  refine ⟨hinv.nodup, hinv.sound, fun m' hm' ↦ hinv.queued m' (List.mem_cons_of_mem m hm'), ?_, ?_⟩
  · intro j hj j' hstep
    obtain ⟨hdeps, hnext⟩ := hinv.closed j hj j' hstep
    refine ⟨hdeps, ?_⟩
    rcases hnext with hnext | ⟨m', hm', hidx⟩
    · exact Or.inl hnext
    · rcases List.mem_cons.1 hm' with rfl | hm'
      · exact Or.inl (hm j' hidx)
      · exact Or.inr ⟨m', hm', hidx⟩
  · rcases hinv.start with hstart | ⟨m', hm', hidx⟩
    · exact Or.inl hstart
    · rcases List.mem_cons.1 hm' with rfl | hm'
      · exact Or.inl (hm s hidx)
      · exact Or.inr ⟨m', hm', hidx⟩

/-- A popped node whose key was not visited is visited: its relations' keys are recorded and the
nodes of those keys pushed. -/
theorem TraverseInv.visit {m : N} {queue : List N} {visited : Finset K} {deps : List K} {i : ℕ}
    {ks : List K} {ns : List N} (hinv : g.TraverseInv dir s (m :: queue) visited deps)
    (hi : g.nodeIndex m = some i) (hks : ∀ k, k ∈ ks ↔ ∃ j, g.graph.Step dir i j ∧ g.KeyAt j k)
    (hns : ∀ n, n ∈ ns ↔ ∃ j < g.graph.nodes.length, g.nodeByIndex j = some n ∧ g.nodeKey n ∈ ks) :
    g.TraverseInv dir s (ns.reverse ++ queue) (insert (g.nodeKey m) visited) (deps.appendNew ks) := by
  obtain ⟨i', hi', hreach⟩ := hinv.queued m List.mem_cons_self
  rw [hi, Option.some.injEq] at hi'
  subst hi'
  obtain ⟨hiV, hkey⟩ := hc.index m i hi
  -- a node pushed now is the node of a relation of `i`
  have hpushed : ∀ n ∈ ns, ∃ j, g.nodeIndex n = some j ∧ g.graph.Step dir i j := by
    intro n hn
    obtain ⟨j, hjV, hnj, hk⟩ := (hns n).1 hn
    obtain ⟨j₀, hstep, hkj₀⟩ := (hks _).1 hk
    have hj : j₀ = j := hc.key_inj _ _ _ (DiGraph.lt_of_step hstep) hjV hkj₀ ⟨n, hnj, rfl⟩
    obtain ⟨n', hn', hidx⟩ := hc.node j hjV
    rw [hnj, Option.some.injEq] at hn'
    rw [hn']
    exact ⟨j, hidx, hj ▸ hstep⟩
  -- so is every relation of `i`
  have hrel : ∀ j', g.graph.Step dir i j' →
      (∃ k ∈ deps.appendNew ks, g.KeyAt j' k) ∧ ∃ n ∈ ns, g.nodeIndex n = some j' := by
    intro j' hstep
    obtain ⟨n, hn, hidx⟩ := hc.node j' (DiGraph.lt_of_step hstep)
    have hk : g.nodeKey n ∈ ks := (hks _).2 ⟨j', hstep, n, hn, rfl⟩
    exact ⟨⟨_, List.mem_appendNew.2 (Or.inr hk), n, hn, rfl⟩,
      n, (hns n).2 ⟨j', DiGraph.lt_of_step hstep, hn, hk⟩, hidx⟩
  -- the node of a queued index is visited now or still queued
  have hqueue : ∀ j', (∃ m' ∈ m :: queue, g.nodeIndex m' = some j') →
      (∃ k ∈ insert (g.nodeKey m) visited, g.KeyAt j' k) ∨
        ∃ m' ∈ ns.reverse ++ queue, g.nodeIndex m' = some j' := by
    rintro j' ⟨m', hm', hidx⟩
    rcases List.mem_cons.1 hm' with rfl | hm'
    · have hj : j' = i := Option.some.inj (hidx.symm.trans hi)
      exact Or.inl ⟨_, Finset.mem_insert_self _ _, hj ▸ hkey⟩
    · exact Or.inr ⟨m', List.mem_append_right _ hm', hidx⟩
  refine ⟨List.nodup_appendNew hinv.nodup ks, fun k hk ↦ ?_, fun m' hm' ↦ ?_, ?_, ?_⟩
  · rcases List.mem_appendNew.1 hk with hk | hk
    · exact hinv.sound k hk
    · obtain ⟨j, hstep, hkj⟩ := (hks k).1 hk
      exact ⟨j, Relation.TransGen.tail' hreach hstep, hkj⟩
  · rcases List.mem_append.1 hm' with hm' | hm'
    · obtain ⟨j, hidx, hstep⟩ := hpushed m' (List.mem_reverse.1 hm')
      exact ⟨j, hidx, hreach.tail hstep⟩
    · exact hinv.queued m' (List.mem_cons_of_mem m hm')
  · rintro j ⟨k, hk, hkj⟩ j' hstep
    rcases Finset.mem_insert.1 hk with rfl | hk
    · -- the node visited now: `j` is `i`, whose relations were just recorded and pushed
      have hj : j = i := hc.key_inj _ _ _ (lt_of_step_left hstep) hiV hkj hkey
      obtain ⟨hdeps, n, hn, hidx⟩ := hrel j' (hj ▸ hstep)
      exact ⟨hdeps, Or.inr ⟨n, List.mem_append_left _ (List.mem_reverse.2 hn), hidx⟩⟩
    · obtain ⟨⟨k', hk', hkj'⟩, hnext⟩ := hinv.closed j ⟨k, hk, hkj⟩ j' hstep
      refine ⟨⟨k', List.mem_appendNew.2 (Or.inl hk'), hkj'⟩, ?_⟩
      rcases hnext with ⟨k'', hk'', hkj''⟩ | hq
      · exact Or.inl ⟨k'', Finset.mem_insert_of_mem hk'', hkj''⟩
      · exact hqueue j' hq
  · rcases hinv.start with ⟨k, hk, hks⟩ | hq
    · exact Or.inl ⟨k, Finset.mem_insert_of_mem hk, hks⟩
    · exact hqueue s hq

/-- Visiting a node takes its index out of the unvisited ones. -/
theorem card_unvisited_insert {m : N} {i : ℕ} {visited : Finset K} (hi : g.nodeIndex m = some i)
    (hv : g.nodeKey m ∉ visited) :
    (g.unvisited (insert (g.nodeKey m) visited)).card < (g.unvisited visited).card := by
  obtain ⟨hiV, n, hn, hkey⟩ := hc.index m i hi
  unfold unvisited
  refine Finset.card_lt_card (Finset.ssubset_iff_of_subset ?_ |>.2 ⟨i, ?_, ?_⟩)
  · intro j
    simp only [Finset.mem_filter, Finset.mem_insert, not_or]
    exact fun ⟨hj, hnot⟩ ↦ ⟨hj, fun n' hn' ↦ (hnot n' hn').2⟩
  · simp [hiV, hn, hkey, hv]
  · simp [hn, hkey]

/-- A round that visits a node lowers the potential: the node's index is no longer unvisited,
which outweighs the nodes pushed, at most one for each index. -/
theorem potential_visit {m : N} {i : ℕ} {queue : List N} {visited : Finset K} (ns : List N)
    (hi : g.nodeIndex m = some i) (hv : g.nodeKey m ∉ visited) (hlen : ns.length ≤ g.graph.nodes.length) :
    g.potential (ns.reverse ++ queue) (insert (g.nodeKey m) visited) <
      g.potential (m :: queue) visited := by
  have hcard := Nat.mul_le_mul_right (g.graph.nodes.length + 1) (card_unvisited_insert hc hi hv)
  rw [Nat.succ_mul] at hcard
  unfold potential
  simp only [List.length_append, List.length_reverse, List.length_cons]
  omega

/-- **The loop with enough rounds**: from a state where the invariant holds and the potential is
below the fuel, the loop returns the keys of the nodes reachable from the start, each once. -/
theorem traverseLoop_spec (forDependents : Bool) :
    ∀ (fuel : ℕ) (queue : List N) (visited : Finset K) (deps : List K),
      g.TraverseInv (traverseDir forDependents) s queue visited deps →
      g.potential queue visited < fuel →
      ∃ r, g.traverseLoop forDependents fuel queue visited deps = some r ∧ r.Nodup ∧
        ∀ k, k ∈ r ↔
          ∃ j, Relation.TransGen (g.graph.Step (traverseDir forDependents)) s j ∧ g.KeyAt j k
  | 0, _, _, _, _, hfuel => absurd hfuel (Nat.not_lt_zero _)
  | _ + 1, [], _, deps, hinv, _ => ⟨deps, rfl, hinv.nodup, hinv.mem_iff⟩
  | fuel + 1, m :: queue, visited, deps, hinv, hfuel => by
    obtain ⟨i, hi, -⟩ := hinv.queued m List.mem_cons_self
    by_cases hv : g.nodeKey m ∈ visited
    · rw [traverseLoop, if_pos hv]
      have hP : g.potential queue visited < g.potential (m :: queue) visited :=
        potential_pop m queue visited
      exact traverseLoop_spec forDependents fuel queue visited deps (hinv.pop hc hv) (by omega)
    · obtain ⟨ks, hks, hmem⟩ := neighborKeys_spec hc hi (traverseDir forDependents)
      rw [traverseLoop, if_neg hv]
      dsimp only
      rw [depKeys_bind, hks]
      by_cases he : ks.isEmpty
      · -- no relations: the node is visited and nothing is recorded or pushed
        obtain rfl : ks = [] := List.isEmpty_iff.1 he
        have hinv' : g.TraverseInv (traverseDir forDependents) s ([].reverse ++ queue)
            (insert (g.nodeKey m) visited) (deps.appendNew []) :=
          hinv.visit hc hi hmem (by simp)
        have hP : g.potential queue (insert (g.nodeKey m) visited) < g.potential (m :: queue) visited :=
          potential_visit hc [] hi hv (Nat.zero_le _)
        simp only [Option.bind_eq_bind, Option.bind_some, List.isEmpty_nil, if_true]
        exact traverseLoop_spec forDependents fuel queue _ deps hinv' (by omega)
      · obtain ⟨ns, hns, hlen, hnsmem⟩ := nodesWithKeys_spec hc ks
        have hP : g.potential (ns.reverse ++ queue) (insert (g.nodeKey m) visited) <
            g.potential (m :: queue) visited :=
          potential_visit hc ns hi hv hlen
        simp only [Option.bind_eq_bind, Option.bind_some, he, Bool.false_eq_true, if_false, hns]
        exact traverseLoop_spec forDependents fuel _ _ _ (hinv.visit hc hi hmem hnsmem) (by omega)

/-- **`traverse_deep` on a coherent graph**: from a node of the graph it returns the keys of the
nodes reachable by one edge or more in the direction it follows, each once. -/
theorem traverseDeep_spec {node : N} (hs : g.nodeIndex node = some s) (forDependents : Bool) :
    ∃ r, g.traverseDeep node forDependents = some r ∧ r.Nodup ∧
      ∀ k, k ∈ r ↔
        ∃ j, Relation.TransGen (g.graph.Step (traverseDir forDependents)) s j ∧ g.KeyAt j k := by
  refine traverseLoop_spec hc forDependents _ _ _ _ (TraverseInv.init hs) ?_
  -- every index may be unvisited, and one node is queued
  have hcard : (g.unvisited ∅).card ≤ g.graph.nodes.length :=
    (Finset.card_filter_le _ _).trans (Finset.card_range _).le
  have := Nat.mul_le_mul_right (g.graph.nodes.length + 1) hcard
  have hsq := Nat.succ_mul g.graph.nodes.length (g.graph.nodes.length + 1)
  simp only [potential, List.length_singleton, Nat.succ_eq_add_one] at hsq ⊢
  omega

/-- **The focused graph of a coherent graph**: the lookups of `to_focused_graph` do not panic, and
it keeps the nodes whose keys are the focus's or those `traverse_deep` returns. -/
theorem toFocusedGraph_spec {node : N} (hs : g.nodeIndex node = some s) (withDependents : Bool) :
    ∃ up down, g.deepDependenciesOf node = some up ∧
      (if withDependents then g.deepDependentsOf node else some []) = some down ∧
      g.toFocusedGraph node withDependents = some (g.graph.filterMap
        (fun _ w ↦ g.keepFocused (g.nodeKey node) up down w) fun _ edge ↦ some edge) := by
  obtain ⟨up, hup, -⟩ := traverseDeep_spec hc hs false
  obtain ⟨down, hdown⟩ : ∃ down,
      (if withDependents then g.deepDependentsOf node else some []) = some down := by
    cases withDependents with
    | false => exact ⟨[], rfl⟩
    | true => exact ⟨_, (traverseDeep_spec hc hs true).choose_spec.1⟩
  have hall : (g.graph.nodes.all fun w ↦ (g.nodeByIndex w).isSome) = true := by
    rw [List.all_eq_true, hc.weights]
    intro w hw
    obtain ⟨n, hn, -⟩ := hc.node w (List.mem_range.1 hw)
    simp [hn]
  refine ⟨up, down, hup, hdown, ?_⟩
  unfold toFocusedGraph
  rw [deepDependenciesOf, hup]
  cases withDependents <;> simp_all

end Coherent

omit [DecidableEq K] in
/-- The closure of `to_focused_graph` keeps a weight as it is, or drops it. -/
theorem keepFocused_eq_ite [DecidableEq K] (focusKey : K) (upstream downstream : List K) (w : ℕ) :
    g.keepFocused focusKey upstream downstream w =
      if (g.keepFocused focusKey upstream downstream w).isSome then some w else none := by
  unfold keepFocused
  cases g.nodeByIndex w with
  | none => rfl
  | some n =>
    dsimp only [Option.bind_some]
    split_ifs <;> simp_all

omit [DecidableEq K] in
/-- The closure of `to_focused_graph` keeps the weights whose node has the focus's key or a
related one. -/
theorem isSome_keepFocused [DecidableEq K] (focusKey : K) (upstream downstream : List K) (w : ℕ) :
    (g.keepFocused focusKey upstream downstream w).isSome ↔
      ∃ k, g.KeyAt w k ∧ (k = focusKey ∨ k ∈ upstream ∨ k ∈ downstream) := by
  unfold keepFocused KeyAt
  cases hw : g.nodeByIndex w with
  | none => simp
  | some n =>
    dsimp only [Option.bind_some]
    split_ifs with hkeep <;> simp_all

end GraphConnections

/-- A graph whose node weights are not their indices: the node at index `1` has the weight `0`,
so a scan of the weights does not find it. -/
def staleWeights : GraphConnections ℕ Unit ℕ where
  graph := ⟨[0, 0, 2], [Edge.mk 0 1 (), Edge.mk 1 2 ()], by simp⟩
  nodeByIndex i := if i < 3 then some i else none
  nodeKey n := n
  nodeIndex n := some n

theorem stale_weight_hides_reachable_key :
    Function.Injective staleWeights.nodeKey ∧
      Relation.TransGen (staleWeights.graph.Step .outgoing) 0 2 ∧
      staleWeights.deepDependenciesOf 0 = some [1] := by
  have h₀₁ : staleWeights.graph.Step .outgoing 0 1 := DiGraph.step_outgoing_iff.2 (by decide)
  have h₁₂ : staleWeights.graph.Step .outgoing 1 2 := DiGraph.step_outgoing_iff.2 (by decide)
  exact ⟨fun _ _ h ↦ h, .tail (.single h₀₁) h₁₂, by decide⟩

end Moon
