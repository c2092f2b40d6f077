import Pratt.Expr

set_option autoImplicit false

/-!
# Parts of a tree

A tree is made of itself and of the parts of its children. What holds of all
parts holds of the root and of all parts of the children
(`Expr.everywhere_iff`), and what every tree inherits from its children holds of
all trees (`Expr.inductionOnChildren`).
-/

namespace Pratt.Expr

mutual

/-- The parts of a tree: the tree itself, then the parts of its children. -/
def parts : Expr → List Expr
  | .value text => [.value text]
  | .unary operator operand => .unary operator operand :: operand.parts
  | .binary operator left right =>
    .binary operator left right :: (left.parts ++ right.parts)
  | .conditional condition whenTrue whenFalse =>
    .conditional condition whenTrue whenFalse ::
      (condition.parts ++ whenTrue.parts ++ whenFalse.parts)
  | .call callee arguments =>
    .call callee arguments :: (callee.parts ++ partsOfAll arguments)

/-- The parts of several trees, one after the other. -/
def partsOfAll : List Expr → List Expr
  | [] => []
  | tree :: trees => tree.parts ++ partsOfAll trees

end

theorem parts_eq_cons (tree : Expr) :
    tree.parts = tree :: partsOfAll tree.children := by
  cases tree <;> simp [parts, partsOfAll, children]

theorem mem_partsOfAll {part : Expr} {trees : List Expr} :
    part ∈ partsOfAll trees ↔ ∃ tree ∈ trees, part ∈ tree.parts := by
  induction trees with
  | nil => simp [partsOfAll]
  | cons first trees ih => simp [partsOfAll, ih]

/-- A part of a tree is the tree itself or a part of one of its children. -/
theorem mem_parts {part tree : Expr} :
    part ∈ tree.parts ↔
      part = tree ∨ ∃ child ∈ tree.children, part ∈ child.parts := by
  rw [parts_eq_cons, List.mem_cons, mem_partsOfAll]

/-- Every part of a tree has a property. -/
def Everywhere (p : Expr → Prop) (tree : Expr) : Prop := ∀ part ∈ tree.parts, p part

instance (p : Expr → Prop) [DecidablePred p] (tree : Expr) :
    Decidable (tree.Everywhere p) :=
  inferInstanceAs (Decidable (∀ part ∈ tree.parts, p part))

theorem everywhere_iff {p : Expr → Prop} {tree : Expr} :
    tree.Everywhere p ↔ p tree ∧ ∀ child ∈ tree.children, child.Everywhere p := by
  constructor
  · intro h
    refine ⟨h tree (mem_parts.mpr (.inl rfl)), fun child hchild part hpart => ?_⟩
    exact h part (mem_parts.mpr (.inr ⟨child, hchild, hpart⟩))
  · rintro ⟨hroot, hchildren⟩ part hpart
    rcases mem_parts.mp hpart with rfl | ⟨child, hchild, hpart⟩
    · exact hroot
    · exact hchildren child hchild part hpart

theorem size_le_sizes_of_mem {e : Expr} {es : List Expr} (h : e ∈ es) :
    e.size ≤ sizes es := by
  induction es with
  | nil => cases h
  | cons first es ih =>
    rw [sizes]
    rcases List.mem_cons.mp h with rfl | h
    · exact Nat.le_add_right _ _
    · exact Nat.le_trans (ih h) (Nat.le_add_left _ _)

theorem size_lt_of_mem_children {child tree : Expr} (h : child ∈ tree.children) :
    child.size < tree.size := by
  have hle := size_le_sizes_of_mem h
  rw [size_eq_succ_sizes_children tree]
  omega

/-- A property of trees that every tree inherits from its children. -/
@[elab_as_elim]
theorem inductionOnChildren {motive : Expr → Prop} (tree : Expr)
    (step : ∀ tree : Expr,
      (∀ child ∈ tree.children, motive child) → motive tree) : motive tree := by
  induction hsize : tree.size using Nat.strongRecOn generalizing tree with
  | ind size ih =>
    exact step tree fun child hmem =>
      ih _ (hsize ▸ size_lt_of_mem_children hmem) child rfl

end Pratt.Expr
