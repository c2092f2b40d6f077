import Mathlib.Logic.Function.Iterate
import Pratt.Proofs.Subtree

set_option autoImplicit false

/-!
# The search for the depth of a tree

The depth of a tree is found by a loop over a stack of subtrees that are still
to be visited. Each turn visits one of them and puts its children in its place
(`Search.turn`), so the loop ends after as many turns as there are nodes, and
what it has found then is the height of the tree (`search_finds_height`).

A subtree on the stack that stands at some depth makes the answer at least this
depth and its height together, less the one node that both count. The turns keep
the largest of these numbers (`deepest_add_one`).
-/

namespace Pratt.Expr

/-! ## Heights -/

/-- A node is one higher than the highest of its children. -/
theorem height_eq_succ_heights_children (e : Expr) :
    e.height = 1 + heights e.children := by
  cases e <;> simp [height, heights, children]

theorem heights_le_sizes {es : List Expr} (h : ∀ e ∈ es, e.height ≤ e.size) :
    heights es ≤ sizes es := by
  induction es with
  | nil => exact Nat.le_refl 0
  | cons e es ih =>
    obtain ⟨he, hes⟩ := List.forall_mem_cons.mp h
    have := ih hes
    simp only [heights, sizes]
    omega

/-- The nodes on a longest path are some of all nodes. -/
theorem height_le_size (e : Expr) : e.height ≤ e.size := by
  induction e using inductionOnChildren with
  | step e ih =>
    have hle := heights_le_sizes ih
    have hsize := size_eq_succ_sizes_children e
    have hheight := height_eq_succ_heights_children e
    omega

theorem heights_eq_getD_max? (es : List Expr) :
    heights es = (es.map height).max?.getD 0 := by
  induction es with
  | nil => rfl
  | cons e es ih =>
    rw [List.map_cons, List.max?_cons, heights, ih]
    cases (es.map height).max? with
    | none => exact Nat.max_eq_left (Nat.zero_le _)
    | some highest => rfl

/-! ## What is on the stack -/

/-- The largest sum of the depth that a pending subtree stands at and its
height, 0 if none is pending. -/
def reach : List (Expr × Nat) → Nat
  | [] => 0
  | (e, depth) :: pending => max (depth + e.height) (reach pending)

theorem reach_append (front back : List (Expr × Nat)) :
    reach (front ++ back) = max (reach front) (reach back) := by
  induction front with
  | nil => exact (Nat.max_eq_right (Nat.zero_le _)).symm
  | cons first front ih => rw [List.cons_append, reach, reach, ih, Nat.max_assoc]

theorem reach_reverse (pending : List (Expr × Nat)) :
    reach pending.reverse = reach pending := by
  induction pending with
  | nil => rfl
  | cons first pending ih =>
    rw [List.reverse_cons, reach_append, ih, Nat.max_comm]
    exact (reach_append [first] pending).symm

/-- Children at one depth reach as far as the highest of them does. -/
theorem max_reach_map (depth : Nat) (es : List Expr) :
    max depth (reach (es.map fun e => (e, depth))) = depth + heights es := by
  induction es with
  | nil => exact Nat.max_eq_left (Nat.zero_le _)
  | cons e es ih =>
    simp only [List.map_cons, reach, heights]
    omega

/-- The loop finds the largest depth that the pending subtrees reach. -/
theorem deepest_add_one (best : Nat) (pending : List (Expr × Nat)) :
    deepest best pending + 1 = max (best + 1) (reach pending) := by
  induction best, pending using deepest.induct with
  | case1 best =>
    rw [deepest, reach]
    exact (Nat.max_eq_left (Nat.zero_le _)).symm
  | case2 best e depth pending ih =>
    -- what the children reach and the node itself make up what the node reaches
    have hchildren := max_reach_map (depth + 1) e.children
    have hheight := height_eq_succ_heights_children e
    rw [deepest, ih, reach_append, reach_reverse, reach]
    omega

theorem depth_eq_height (e : Expr) : e.depth = e.height := by
  have hdeepest := deepest_add_one 0 [(e, 1)]
  have hheight := height_eq_succ_heights_children e
  simp only [reach] at hdeepest
  rw [depth]
  omega

/-! ## Turn by turn -/

/-- What the loop keeps: the largest depth of a subtree that was visited,
and the subtrees that are still to be visited, each with its depth. The
next one comes first. -/
structure Search where
  best : Nat
  pending : List (Expr × Nat)
  deriving DecidableEq, Repr, Inhabited

namespace Search

/-- One turn of the loop visits a subtree and puts its children in its place. -/
def turn : Search → Search
  | ⟨best, []⟩ => ⟨best, []⟩
  | ⟨best, (e, depth) :: pending⟩ =>
    ⟨max best depth,
      (e.children.map fun child => (child, depth + 1)).reverse ++ pending⟩

/-- What is found in the end. -/
def found (search : Search) : Nat := deepest search.best search.pending

/-- The number of nodes that are still to be visited. -/
def size (search : Search) : Nat := sizes (search.pending.map Prod.fst)

theorem found_of_pending_eq_nil {search : Search} (h : search.pending = []) :
    search = ⟨search.found, []⟩ := by
  obtain ⟨best, pending⟩ := search
  obtain rfl : pending = [] := h
  rw [found, deepest]

theorem found_turn (search : Search) : search.turn.found = search.found := by
  obtain ⟨best, pending⟩ := search
  cases pending with
  | nil => rfl
  | cons first pending =>
    obtain ⟨e, depth⟩ := first
    rw [found, found, deepest, turn]

theorem found_iterate_turn (n : Nat) (search : Search) :
    (turn^[n] search).found = search.found := by
  induction n generalizing search with
  | zero => rfl
  | succ n ih => rw [Function.iterate_succ_apply, ih, found_turn]

/-- Each turn visits one node, as long as there are any. -/
theorem size_turn (search : Search) : search.turn.size = search.size - 1 := by
  obtain ⟨best, pending⟩ := search
  cases pending with
  | nil => rfl
  | cons first pending =>
    obtain ⟨e, depth⟩ := first
    have hsize := size_eq_succ_sizes_children e
    simp only [size, turn, List.map_append, List.map_reverse, List.map_map,
      Function.comp_def, List.map_cons, List.map_id', sizes_append,
      sizes_reverse, sizes]
    omega

theorem size_iterate_turn (n : Nat) (search : Search) :
    (turn^[n] search).size = search.size - n := by
  induction n generalizing search with
  | zero => rfl
  | succ n ih =>
    rw [Function.iterate_succ_apply, ih, size_turn, Nat.sub_sub, Nat.add_comm 1]

/-- The loop ends exactly when no node is left to be visited. -/
theorem pending_eq_nil_iff (search : Search) :
    search.pending = [] ↔ search.size = 0 := by
  obtain ⟨best, pending⟩ := search
  cases pending with
  | nil => exact iff_of_true rfl rfl
  | cons first pending =>
    have hsize := size_eq_succ_sizes_children first.1
    refine iff_of_false (List.cons_ne_nil _ _) ?_
    simp only [size, List.map_cons, sizes]
    omega

end Search

/-- The loop ends after as many turns as the tree has nodes and not before, and
it has found the depth then. The depth is one more than the largest depth of a
child, which is 1 where there are no children. This is the height of the tree,
and the tree has at least as many nodes. -/
theorem search_finds_height (e : Expr) :
    Search.turn^[e.size] ⟨0, [(e, 1)]⟩ = ⟨e.depth, []⟩ ∧
      (∀ n < e.size, (Search.turn^[n] ⟨0, [(e, 1)]⟩).pending ≠ []) ∧
      e.depth = 1 + (e.children.map depth).max?.getD 0 ∧ e.depth = e.height ∧
      e.depth ≤ e.size := by
  have hsize : Search.size ⟨0, [(e, 1)]⟩ = e.size := Nat.add_zero _
  refine ⟨?_, ?_, ?_, depth_eq_height e, ?_⟩
  · have hleft := Search.size_iterate_turn e.size ⟨0, [(e, 1)]⟩
    rw [hsize, Nat.sub_self] at hleft
    rw [Search.found_of_pending_eq_nil
      ((Search.pending_eq_nil_iff _).mpr hleft), Search.found_iterate_turn]
    rfl
  · intro n hn hnil
    have hleft := (Search.pending_eq_nil_iff _).mp hnil
    rw [Search.size_iterate_turn, hsize] at hleft
    omega
  · rw [funext depth_eq_height, height_eq_succ_heights_children,
      heights_eq_getD_max?]
  · rw [depth_eq_height]
    exact height_le_size e

/-- A call whose deepest path goes through its second argument. -/
def callOfProduct : Expr :=
  .call (.value "f")
    [.value "a", .unary "-" (.binary "*" (.value "b") (.value "c"))]

/-- Six of its seven nodes are visited in six turns. -/
theorem search_finds_height_callOfProduct :
    6 < callOfProduct.size ∧
      (Search.turn^[6] ⟨0, [(callOfProduct, 1)]⟩).pending ≠ [] ∧
      callOfProduct.depth = 4 := by
  obtain ⟨-, hpending, -, hdepth, -⟩ := search_finds_height callOfProduct
  exact ⟨by decide, hpending 6 (by decide), hdepth⟩

end Pratt.Expr
