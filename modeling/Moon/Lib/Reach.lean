import Mathlib.Logic.Relation
import Mathlib.Data.List.Basic

/-!
# Reachability along a list of edges, and graphs that stay acyclic

A directed graph is kept here as its list of edges, in the order they were added.  `Reach` is the
reflexive–transitive closure of the edge relation, and `hasPath` decides it by Warshall's closure,
with the source and the head of every edge as pivots: the only nodes a path from the source can
pass through (`hasPath_iff`).

Every cycle check rests on one rule: an edge `(u, v)` can be added to an acyclic graph exactly
when `u` cannot be reached from `v` (`acyclic_append_singleton`).  `addEdge` is an insertion that
makes this check and refuses the edge otherwise, as the insertion of a DAG that rejects cycles
does; it accepts each edge of an acyclic list after the edges before it (`addEdge_of_acyclic`).
-/

set_option autoImplicit false

namespace EdgeList

variable {α : Type}

/-- `b` can be reached from `a` along the edges, by a path of any length, `0` included. -/
def Reach (edges : List (α × α)) : α → α → Prop :=
  Relation.ReflTransGen fun x y ↦ (x, y) ∈ edges

/-- No node reaches itself by a nonempty path. -/
def Acyclic (edges : List (α × α)) : Prop :=
  ∀ x, ¬ Relation.TransGen (fun x y ↦ (x, y) ∈ edges) x x

section Reach

variable {edges edges' : List (α × α)} {x y u v : α}

theorem Reach.mono (h : ∀ e ∈ edges, e ∈ edges') (hr : Reach edges x y) : Reach edges' x y :=
  Relation.ReflTransGen.mono (fun a b hab ↦ h (a, b) hab) x y hr

/-- An edge is on a cycle exactly when its tail can be reached back from its head. -/
theorem acyclic_iff : Acyclic edges ↔ ∀ x y, (x, y) ∈ edges → ¬ Reach edges y x := by
  constructor
  · intro h x y hxy hyx
    exact h x (Relation.TransGen.head' hxy hyx)
  · intro h x hx
    obtain ⟨y, hxy, hyx⟩ := Relation.TransGen.head'_iff.1 hx
    exact h x y hxy hyx

/-- Fewer edges, no new cycle. -/
theorem Acyclic.mono (h : ∀ e ∈ edges', e ∈ edges) (hac : Acyclic edges) : Acyclic edges' := by
  rw [acyclic_iff] at hac ⊢
  intro x y hxy hyx
  exact hac x y (h (x, y) hxy) (Reach.mono h hyx)

/-- Edges that map into an acyclic graph, end to end, close no cycle. -/
theorem Acyclic.of_hom {β : Type} {edges' : List (β × β)} (f : β → α)
    (h : ∀ a b, (a, b) ∈ edges' → (f a, f b) ∈ edges) (hac : Acyclic edges) : Acyclic edges' :=
  fun x hx ↦ hac (f x) (Relation.TransGen.lift f (fun a b hab ↦ h a b hab) x x hx)

/-- A path that may use the new edge `(u, v)`: either it does not, or it reaches `u`, and goes on
from `v`. -/
theorem reach_append_singleton (hr : Reach (edges ++ [(u, v)]) x y) :
    Reach edges x y ∨ Reach edges x u ∧ Reach edges v y := by
  induction hr with
  | refl => exact .inl .refl
  | @tail b c _ hbc ih =>
    rcases List.mem_append.1 hbc with hold | hnew
    · -- an old edge extends either kind of path
      rcases ih with hxb | ⟨hxu, hvb⟩
      · exact .inl (.tail hxb hold)
      · exact .inr ⟨hxu, .tail hvb hold⟩
    · -- the new edge: the path so far reached `u`
      obtain ⟨rfl, rfl⟩ := Prod.mk.inj (List.mem_singleton.1 hnew)
      rcases ih with hxb | ⟨hxu, -⟩
      · exact .inr ⟨hxb, .refl⟩
      · exact .inr ⟨hxu, .refl⟩

/-- **Adding an edge keeps a graph acyclic when its tail cannot be reached from its head.** -/
theorem acyclic_append_singleton (hac : Acyclic edges) (hvu : ¬ Reach edges v u) :
    Acyclic (edges ++ [(u, v)]) := by
  rw [acyclic_iff] at hac ⊢
  intro x y hxy hyx
  rcases reach_append_singleton hyx with hyx' | ⟨hyu, hvx⟩
  · rcases List.mem_append.1 hxy with hold | hnew
    · exact hac x y hold hyx'
    · obtain ⟨rfl, rfl⟩ := Prod.mk.inj (List.mem_singleton.1 hnew)
      exact hvu hyx'
  · -- the cycle runs through the new edge, so `v` reaches `u` without it
    rcases List.mem_append.1 hxy with hold | hnew
    · exact hvu (Relation.ReflTransGen.trans hvx (.head hold hyu))
    · obtain ⟨rfl, rfl⟩ := Prod.mk.inj (List.mem_singleton.1 hnew)
      exact hvu hyu

end Reach

/-! ## Deciding reachability -/

section Closure

/-- Add to a relation every route through `pivot`. -/
def addPivot (pivot : α) (rel : α → α → Bool) : α → α → Bool :=
  fun x y ↦ rel x y || (rel x pivot && rel pivot y)

/-- Warshall's closure of a relation through the pivots of the list. -/
def closure : List α → (α → α → Bool) → α → α → Bool
  | [], rel => rel
  | pivot :: pivots, rel => addPivot pivot (closure pivots rel)

variable {rel : α → α → Bool}

/-- A pivot adds the paths through it to the closure over the later pivots. -/
theorem closure_cons (pivot : α) (pivots : List α) (x y : α) :
    closure (pivot :: pivots) rel x y
      = (closure pivots rel x y || (closure pivots rel x pivot && closure pivots rel pivot y)) :=
  rfl

theorem closure_of_rel (pivots : List α) {x y : α} (h : rel x y = true) :
    closure pivots rel x y = true := by
  induction pivots with
  | nil => exact h
  | cons pivot pivots ih => simp [closure_cons, ih]

/-- The closure is transitive through each of its pivots. -/
theorem closure_trans {pivots : List α} {x m y : α} (hm : m ∈ pivots)
    (hxm : closure pivots rel x m = true) (hmy : closure pivots rel m y = true) :
    closure pivots rel x y = true := by
  induction pivots generalizing x y with
  | nil => cases hm
  | cons pivot pivots ih =>
    simp only [closure_cons, Bool.or_eq_true, Bool.and_eq_true] at hxm hmy ⊢
    rcases List.mem_cons.1 hm with rfl | hm
    · exact .inr ⟨hxm.elim id And.left, hmy.elim id And.right⟩
    · -- each side either avoids the new pivot or goes through it
      rcases hxm with hxm | ⟨hxp, hpm⟩ <;> rcases hmy with hmy | ⟨hmp, hpy⟩
      · exact .inl (ih hm hxm hmy)
      · exact .inr ⟨ih hm hxm hmp, hpy⟩
      · exact .inr ⟨hxp, ih hm hpm hmy⟩
      · exact .inr ⟨hxp, hpy⟩

theorem closure_sound (pivots : List α) {x y : α} (h : closure pivots rel x y = true) :
    Relation.ReflTransGen (fun a b ↦ rel a b = true) x y := by
  induction pivots generalizing x y with
  | nil => exact .single h
  | cons pivot pivots ih =>
    simp only [closure_cons, Bool.or_eq_true, Bool.and_eq_true] at h
    rcases h with h | ⟨hxp, hpy⟩
    · exact ih h
    · exact (ih hxp).trans (ih hpy)

variable [DecidableEq α]

/-- Is there a path from `a` to `b`?  The closure starts from "equal, or joined by an edge". -/
def hasPath (edges : List (α × α)) (a b : α) : Bool :=
  closure (a :: edges.map Prod.snd) (fun x y ↦ decide (x = y) || decide ((x, y) ∈ edges)) a b

/-- **`hasPath` decides reachability.** -/
theorem hasPath_iff (edges : List (α × α)) (a b : α) : hasPath edges a b = true ↔ Reach edges a b := by
  constructor
  · intro h
    refine Relation.reflTransGen_closed (fun x y hxy ↦ ?_) a b (closure_sound _ h)
    simp only [Bool.or_eq_true, decide_eq_true_eq] at hxy
    rcases hxy with rfl | hxy
    · exact .refl
    · exact .single hxy
  · intro h
    induction h with
    | refl => exact closure_of_rel _ (by simp)
    | @tail m c hpath hmc ih =>
      -- `m` is a pivot: it is `a`, or the head of the last edge of the path
      have hm : m ∈ a :: edges.map Prod.snd := by
        rcases Relation.ReflTransGen.cases_tail hpath with rfl | ⟨k, -, hkm⟩
        · exact List.mem_cons_self
        · exact List.mem_cons_of_mem _ (List.mem_map.2 ⟨(k, m), hkm, rfl⟩)
      exact closure_trans hm ih (closure_of_rel _ (by simp [hmc]))

end Closure

/-! ## Insertion that refuses cycles -/

section Dag

variable [DecidableEq α]

/-- Insert the edge `(u, v)` unless `u` can be reached from `v`, that is unless it would close a
cycle (a loop `(u, u)` included). -/
def addEdge (edges : List (α × α)) (u v : α) : Option (List (α × α)) :=
  if hasPath edges v u then none else some (edges ++ [(u, v)])

theorem addEdge_eq_some {edges : List (α × α)} {u v : α} (h : ¬ Reach edges v u) :
    addEdge edges u v = some (edges ++ [(u, v)]) := by
  rw [addEdge, if_neg (fun hp ↦ h ((hasPath_iff _ _ _).1 hp))]

/-- An edge that is accepted closes no cycle. -/
theorem not_reach_of_addEdge_eq_some {edges es : List (α × α)} {u v : α}
    (h : addEdge edges u v = some es) : ¬ Reach edges v u ∧ es = edges ++ [(u, v)] := by
  unfold addEdge at h
  split at h
  · cases h
  · rename_i hp
    cases h
    exact ⟨fun hr ↦ hp ((hasPath_iff _ _ _).2 hr), rfl⟩

/-- An edge of an acyclic list is accepted after the edges before it. -/
theorem addEdge_of_acyclic {pre l : List (α × α)} {u v : α} (hac : Acyclic (pre ++ (u, v) :: l)) :
    addEdge pre u v = some (pre ++ [(u, v)]) := by
  -- `(u, v)` lies on no cycle of the whole list, so on none of its prefix
  refine addEdge_eq_some fun h ↦ acyclic_iff.1 hac u v (by simp) (Reach.mono (fun e he ↦ ?_) h)
  simp [he]

end Dag

end EdgeList
