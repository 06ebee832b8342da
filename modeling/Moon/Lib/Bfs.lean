import Mathlib.Data.List.Forall2
import Mathlib.Data.Finset.Card
import Mathlib.Logic.Relation

/-!
# Breadth-first search with a visited set

`Bfs.traverse succ label start fuel` is the search that marks `start` visited and queues it, and
then, while the queue is not empty, takes its front node and visits each of its successors not
visited yet: it marks the successor, records its label, and queues it at the back.  A label may be
missing (`none`), as a lookup that panics is; the search then fails.

* `visitAll_spec` says what one round does: the successors it meets for the first time are
  marked, queued and labelled, in order.
* `Inv` is what holds between the rounds.  One round keeps it (`Inv.round`), and lowers the
  number of unvisited nodes of a finite universe plus the length of the queue by one
  (`card_sdiff_round`), so that many rounds empty the queue (`Inv.loop`).
* `traverse_spec`: given a universe the successors never leave, and labels for the nodes it can
  reach, the search records the labels of the nodes reachable from `start` by one step or more,
  other than `start`, each node once.
-/

set_option autoImplicit false

namespace Bfs

variable {α β : Type} [DecidableEq α]

/-- One step: `b` is a successor of `a`. -/
def Step (succ : α → List α) (a b : α) : Prop := b ∈ succ a

/-- The loop over the successors of one node: a node not visited yet is marked, labelled and
queued. -/
def visitAll (label : α → Option β) : List α → Finset α → List α → List β →
    Option (Finset α × List α × List β)
  | [], visited, queue, results => some (visited, queue, results)
  | next :: nexts, visited, queue, results =>
    if next ∈ visited then visitAll label nexts visited queue results
    else do
      let b ← label next
      visitAll label nexts (insert next visited) (queue ++ [next]) (results ++ [b])

/-- The loop over the queue, for `fuel` rounds. -/
def loop (succ : α → List α) (label : α → Option β) :
    ℕ → List α → Finset α → List β → Option (List β)
  | 0, _, _, results => some results
  | _ + 1, [], _, results => some results
  | fuel + 1, a :: queue, visited, results => do
    let (visited, queue, results) ← visitAll label (succ a) visited queue results
    loop succ label fuel queue visited results

/-- The search from `start`, for `fuel` rounds. -/
def traverse (succ : α → List α) (label : α → Option β) (start : α) (fuel : ℕ) :
    Option (List β) :=
  loop succ label fuel [start] {start} []

variable {succ : α → List α} {label : α → Option β}

/-- **One round**: the successors met for the first time, in order, are marked, queued and
labelled. -/
theorem visitAll_spec :
    ∀ (nexts : List α) (visited : Finset α) (queue : List α) (results : List β),
      (∀ n ∈ nexts, n ∉ visited → (label n).isSome) →
      ∃ new bs, visitAll label nexts visited queue results =
          some (visited ∪ new.toFinset, queue ++ new, results ++ bs) ∧ new.Nodup ∧
        (∀ x, x ∈ new ↔ x ∈ nexts ∧ x ∉ visited) ∧ List.Forall₂ (fun x b ↦ label x = some b) new bs
  | [], visited, queue, results, _ => ⟨[], [], by simp [visitAll]⟩
  | next :: nexts, visited, queue, results, hlabel => by
    by_cases hnext : next ∈ visited
    · -- visited already: skipped
      obtain ⟨new, bs, h, hnodup, hmem, hbs⟩ :=
        visitAll_spec nexts visited queue results fun n hn ↦ hlabel n (List.mem_cons_of_mem _ hn)
      refine ⟨new, bs, by rw [visitAll, if_pos hnext, h], hnodup, fun x ↦ ?_, hbs⟩
      rw [hmem x, List.mem_cons]
      constructor
      · exact fun ⟨hx, hxv⟩ ↦ ⟨.inr hx, hxv⟩
      · rintro ⟨rfl | hx, hxv⟩
        · exact absurd hnext hxv
        · exact ⟨hx, hxv⟩
    · -- met for the first time: marked, queued and labelled
      obtain ⟨b, hb⟩ := Option.isSome_iff_exists.1 (hlabel next List.mem_cons_self hnext)
      obtain ⟨new, bs, h, hnodup, hmem, hbs⟩ :=
        visitAll_spec nexts (insert next visited) (queue ++ [next]) (results ++ [b])
          fun n hn _ ↦ hlabel n (List.mem_cons_of_mem _ hn) (by simp_all)
      have hnew : next ∉ new := fun hn ↦ ((hmem next).1 hn).2 (Finset.mem_insert_self _ _)
      refine ⟨next :: new, b :: bs, ?_, List.nodup_cons.2 ⟨hnew, hnodup⟩, fun x ↦ ?_,
        List.Forall₂.cons hb hbs⟩
      · rw [visitAll, if_neg hnext, hb, Option.bind_eq_bind, Option.bind_some, h]
        simp [Finset.insert_union, Finset.union_insert]
      · rw [List.mem_cons, hmem x, List.mem_cons, Finset.mem_insert]
        by_cases hx : x = next
        · subst hx
          simp [hnext]
        · simp [hx]

/-- What holds between the rounds of the search from `start`, with `order` the nodes visited
after it, in the order they were visited: their labels are the results, each was reached by one
step or more, a node taken off the queue has all its successors visited, and a queued node is
visited. -/
structure Inv (succ : α → List α) (label : α → Option β) (start : α) (queue : List α)
    (visited : Finset α) (results : List β) (order : List α) : Prop where
  visited_eq : visited = insert start order.toFinset
  nodup : order.Nodup
  start_not_mem : start ∉ order
  labels : List.Forall₂ (fun x b ↦ label x = some b) order results
  reach : ∀ x ∈ order, Relation.TransGen (Step succ) start x
  queued : ∀ x ∈ queue, x ∈ visited
  closed : ∀ x ∈ visited, x ∉ queue → ∀ y ∈ succ x, y ∈ visited

theorem Inv.init (start : α) : Inv succ label start [start] {start} [] [] where
  visited_eq := rfl
  nodup := List.nodup_nil
  start_not_mem := List.not_mem_nil
  labels := .nil
  reach _ h := absurd h List.not_mem_nil
  queued _ h := by simp_all
  closed _ h hq := by simp_all

/-- A visited node is reached from the start. -/
theorem Inv.reflTransGen {start : α} {queue : List α} {visited : Finset α} {results : List β}
    {order : List α} (hinv : Inv succ label start queue visited results order) {x : α}
    (hx : x ∈ visited) : Relation.ReflTransGen (Step succ) start x := by
  rw [hinv.visited_eq, Finset.mem_insert, List.mem_toFinset] at hx
  rcases hx with rfl | hx
  · exact .refl
  · exact (hinv.reach x hx).to_reflTransGen

/-- **A round keeps the invariant**: the new nodes are successors of the node taken off the queue,
which then has all its successors visited. -/
theorem Inv.round {start a : α} {queue new : List α} {visited : Finset α} {results bs : List β}
    {order : List α} (hinv : Inv succ label start (a :: queue) visited results order)
    (hnodup : new.Nodup) (hmem : ∀ x, x ∈ new ↔ x ∈ succ a ∧ x ∉ visited)
    (hbs : List.Forall₂ (fun x b ↦ label x = some b) new bs) :
    Inv succ label start (queue ++ new) (visited ∪ new.toFinset) (results ++ bs) (order ++ new) := by
  have ha : a ∈ visited := hinv.queued a List.mem_cons_self
  have hfresh : ∀ x ∈ new, x ∉ visited := fun x hx ↦ ((hmem x).1 hx).2
  have hnot_order : ∀ x ∈ new, x ∉ order := fun x hx ho ↦
    hfresh x hx (by rw [hinv.visited_eq]; simp [ho])
  refine ⟨?_, ?_, ?_, List.rel_append hinv.labels hbs, ?_, ?_, ?_⟩
  · rw [hinv.visited_eq, List.toFinset_append, Finset.insert_union]
  · exact List.nodup_append.2 ⟨hinv.nodup, hnodup, fun x hx y hy hxy ↦ hnot_order y hy (hxy ▸ hx)⟩
  · rw [List.mem_append, not_or]
    refine ⟨hinv.start_not_mem, fun hs ↦ hfresh start hs ?_⟩
    rw [hinv.visited_eq]
    exact Finset.mem_insert_self _ _
  · intro x hx
    rcases List.mem_append.1 hx with hx | hx
    · exact hinv.reach x hx
    · exact Relation.TransGen.tail' (hinv.reflTransGen ha) ((hmem x).1 hx).1
  · intro x hx
    rcases List.mem_append.1 hx with hx | hx
    · exact Finset.mem_union_left _ (hinv.queued x (List.mem_cons_of_mem a hx))
    · exact Finset.mem_union_right _ (List.mem_toFinset.2 hx)
  · intro x hx hq y hy
    rw [List.mem_append, not_or] at hq
    have hxv : x ∈ visited := by
      rcases Finset.mem_union.1 hx with hx | hx
      · exact hx
      · exact absurd (List.mem_toFinset.1 hx) hq.2
    by_cases hxa : x = a
    · -- the node taken off the queue: each successor was visited, or is new
      subst hxa
      by_cases hyv : y ∈ visited
      · exact Finset.mem_union_left _ hyv
      · exact Finset.mem_union_right _ (List.mem_toFinset.2 ((hmem y).2 ⟨hy, hyv⟩))
    · have hq' : x ∉ a :: queue := by simp [hxa, hq.1]
      exact Finset.mem_union_left _ (hinv.closed x hxv hq' y hy)

/-- A round that visits the new nodes, all in the universe, leaves one fewer unvisited node of the
universe for each node it queues. -/
theorem card_sdiff_round {U visited : Finset α} {new : List α} (hnodup : new.Nodup)
    (hU : ∀ x ∈ new, x ∈ U) (hfresh : ∀ x ∈ new, x ∉ visited) :
    (U \ (visited ∪ new.toFinset)).card + new.length = (U \ visited).card := by
  have hsub : new.toFinset ⊆ U \ visited := fun x hx ↦ by
    rw [List.mem_toFinset] at hx
    exact Finset.mem_sdiff.2 ⟨hU x hx, hfresh x hx⟩
  have hsplit : (U \ visited) \ new.toFinset = U \ (visited ∪ new.toFinset) := by
    ext x
    simp only [Finset.mem_sdiff, Finset.mem_union]
    tauto
  rw [← List.toFinset_card_of_nodup hnodup, ← hsplit]
  exact Finset.card_sdiff_add_card_eq_card hsub

/-- **The loop empties the queue** when it has as many rounds as unvisited nodes of a universe the
successors never leave, plus queued nodes, and the nodes it can reach have labels. -/
theorem Inv.loop {start : α} {U : Finset α} (hU : ∀ a, ∀ b ∈ succ a, b ∈ U)
    (hlabel : ∀ x, Relation.TransGen (Step succ) start x → (label x).isSome) :
    ∀ (fuel : ℕ) (queue : List α) (visited : Finset α) (results : List β) (order : List α),
      Inv succ label start queue visited results order →
      (U \ visited).card + queue.length ≤ fuel →
      ∃ visited' results' order', Bfs.loop succ label fuel queue visited results = some results' ∧
        Inv succ label start [] visited' results' order'
  | 0, queue, visited, results, order, hinv, hfuel => by
    have hq : queue = [] := List.eq_nil_of_length_eq_zero (by omega)
    subst hq
    exact ⟨visited, results, order, rfl, hinv⟩
  | _ + 1, [], visited, results, order, hinv, _ => ⟨visited, results, order, rfl, hinv⟩
  | fuel + 1, a :: queue, visited, results, order, hinv, hfuel => by
    have ha := hinv.reflTransGen (hinv.queued a List.mem_cons_self)
    obtain ⟨new, bs, h, hnodup, hmem, hbs⟩ := visitAll_spec (succ a) visited queue results
      fun n hn _ ↦ hlabel n (Relation.TransGen.tail' ha hn)
    have hcard := card_sdiff_round (U := U) hnodup (fun x hx ↦ hU a x ((hmem x).1 hx).1)
      fun x hx ↦ ((hmem x).1 hx).2
    have hfuel' : (U \ (visited ∪ new.toFinset)).card + (queue ++ new).length ≤ fuel := by
      rw [List.length_append]
      simp only [List.length_cons] at hfuel
      omega
    obtain ⟨visited', results', order', hloop, hinv'⟩ :=
      Inv.loop hU hlabel fuel _ _ _ _ (hinv.round hnodup hmem hbs) hfuel'
    refine ⟨visited', results', order', ?_, hinv'⟩
    rw [Bfs.loop, h, Option.bind_eq_bind, Option.bind_some]
    exact hloop

/-- With the queue empty, every node reached from the start was visited. -/
theorem Inv.mem_of_reach {start : α} {visited : Finset α} {results : List β} {order : List α}
    (hinv : Inv succ label start [] visited results order) {x : α}
    (hx : Relation.ReflTransGen (Step succ) start x) : x ∈ visited := by
  induction hx with
  | refl => rw [hinv.visited_eq]; exact Finset.mem_insert_self _ _
  | tail _ hstep ih => exact hinv.closed _ ih List.not_mem_nil _ hstep

omit [DecidableEq α] in
/-- Labels recorded one for each node are the labels of the nodes. -/
theorem filterMap_eq_of_forall₂ :
    ∀ {order : List α} {results : List β}, List.Forall₂ (fun x b ↦ label x = some b) order results →
      order.filterMap label = results
  | [], [], .nil => rfl
  | x :: _, _ :: _, .cons hx h => by rw [List.filterMap_cons_some hx, filterMap_eq_of_forall₂ h]

/-- **What the search records**: the labels of the nodes reachable from `start` by one step or
more, other than `start`, each node once and in the order it was visited. -/
theorem traverse_spec {start : α} {U : Finset α} (hU : ∀ a, ∀ b ∈ succ a, b ∈ U)
    (hlabel : ∀ x, Relation.TransGen (Step succ) start x → (label x).isSome) {fuel : ℕ}
    (hfuel : U.card + 1 ≤ fuel) :
    ∃ order : List α, traverse succ label start fuel = some (order.filterMap label) ∧ order.Nodup ∧
      (∀ x, x ∈ order ↔ Relation.TransGen (Step succ) start x ∧ x ≠ start) ∧
      ∀ x ∈ order, (label x).isSome := by
  have hcard : (U \ {start}).card + [start].length ≤ fuel := by
    have := Finset.card_le_card (Finset.sdiff_subset (s := U) (t := {start}))
    simp only [List.length_singleton]
    omega
  obtain ⟨visited, results, order, h, hinv⟩ := Inv.loop hU hlabel fuel _ _ _ _
    (Inv.init start : Inv succ label start [start] {start} [] []) hcard
  refine ⟨order, filterMap_eq_of_forall₂ hinv.labels ▸ h, hinv.nodup,
    fun x ↦ ⟨fun hx ↦ ?_, fun ⟨hx, hne⟩ ↦ ?_⟩, fun x hx ↦ hlabel x (hinv.reach x hx)⟩
  · exact ⟨hinv.reach x hx, fun h ↦ hinv.start_not_mem (h ▸ hx)⟩
  · have hv := hinv.mem_of_reach hx.to_reflTransGen
    rw [hinv.visited_eq, Finset.mem_insert, List.mem_toFinset] at hv
    exact hv.resolve_left hne

end Bfs
