set_option autoImplicit false

/-!
# Expression trees

Trees of values, operators, conditionals and calls, their fully parenthesized
text, and their measures. The depth is found with an explicit stack of pending
subtrees; `Expr.height` is the same number by recursion.
-/

namespace Pratt

/-- An expression. Numbers, names and keywords are not told apart: all are
values. -/
inductive Expr where
  /-- A single token. -/
  | value (text : String)
  /-- An operator in front of its operand. -/
  | unary (operator : String) (operand : Expr)
  /-- An operator between its operands. -/
  | binary (operator : String) (left right : Expr)
  /-- A choice between two branches. -/
  | conditional (condition whenTrue whenFalse : Expr)
  /-- A callee applied to arguments. -/
  | call (callee : Expr) (arguments : List Expr)
  deriving Repr, Inhabited

namespace Expr

/-! ## Equality -/

mutual

/-- Equality of expressions is decided by comparing them part by part. -/
def decEq : (a b : Expr) → Decidable (a = b)
  | .value a, .value b =>
    if h : a = b then isTrue (by rw [h]) else isFalse (by simp [h])
  | .unary f a, .unary g b =>
    match decEq a b with
    | isFalse h => isFalse (by simp [h])
    | isTrue h =>
      if hf : f = g then isTrue (by rw [hf, h]) else isFalse (by simp [hf])
  | .binary f a c, .binary g b d =>
    match decEq a b, decEq c d with
    | isFalse h, _ => isFalse (by simp [h])
    | _, isFalse h => isFalse (by simp [h])
    | isTrue h, isTrue k =>
      if hf : f = g then isTrue (by rw [hf, h, k]) else isFalse (by simp [hf])
  | .conditional a c e, .conditional b d f =>
    match decEq a b, decEq c d, decEq e f with
    | isFalse h, _, _ => isFalse (by simp [h])
    | _, isFalse h, _ => isFalse (by simp [h])
    | _, _, isFalse h => isFalse (by simp [h])
    | isTrue h, isTrue k, isTrue l => isTrue (by rw [h, k, l])
  | .call a as, .call b bs =>
    match decEq a b, decEqs as bs with
    | isFalse h, _ => isFalse (by simp [h])
    | _, isFalse h => isFalse (by simp [h])
    | isTrue h, isTrue k => isTrue (by rw [h, k])
  | .value .., .unary .. | .value .., .binary ..
  | .value .., .conditional .. | .value .., .call ..
  | .unary .., .value .. | .unary .., .binary ..
  | .unary .., .conditional .. | .unary .., .call ..
  | .binary .., .value .. | .binary .., .unary ..
  | .binary .., .conditional .. | .binary .., .call ..
  | .conditional .., .value .. | .conditional .., .unary ..
  | .conditional .., .binary .. | .conditional .., .call ..
  | .call .., .value .. | .call .., .unary ..
  | .call .., .binary .. | .call .., .conditional .. => isFalse nofun

/-- Equality of argument lists is decided member by member. -/
def decEqs : (as bs : List Expr) → Decidable (as = bs)
  | [], [] => isTrue rfl
  | a :: as, b :: bs =>
    match decEq a b, decEqs as bs with
    | isFalse h, _ => isFalse (by simp [h])
    | _, isFalse h => isFalse (by simp [h])
    | isTrue h, isTrue k => isTrue (by rw [h, k])
  | [], _ :: _ | _ :: _, [] => isFalse nofun

end

instance : DecidableEq Expr := decEq

/-! ## Measures -/

/-- The direct subexpressions from left to right. -/
def children : Expr → List Expr
  | .value _ => []
  | .unary _ operand => [operand]
  | .binary _ left right => [left, right]
  | .conditional condition whenTrue whenFalse => [condition, whenTrue, whenFalse]
  | .call callee arguments => callee :: arguments

mutual

/-- The number of nodes of an expression. -/
def size : Expr → Nat
  | .value _ => 1
  | .unary _ operand => 1 + operand.size
  | .binary _ left right => 1 + (left.size + right.size)
  | .conditional condition whenTrue whenFalse =>
    1 + (condition.size + whenTrue.size + whenFalse.size)
  | .call callee arguments => 1 + (callee.size + sizes arguments)

/-- The number of nodes of several expressions together. -/
def sizes : List Expr → Nat
  | [] => 0
  | e :: es => e.size + sizes es

end

mutual

/-- The number of nodes on the longest path from the root to a leaf. -/
def height : Expr → Nat
  | .value _ => 1
  | .unary _ operand => 1 + operand.height
  | .binary _ left right => 1 + max left.height right.height
  | .conditional condition whenTrue whenFalse =>
    1 + max condition.height (max whenTrue.height whenFalse.height)
  | .call callee arguments => 1 + max callee.height (heights arguments)

/-- The height of the highest of several expressions, 0 if there are none. -/
def heights : List Expr → Nat
  | [] => 0
  | e :: es => max e.height (heights es)

end

theorem sizes_append (as bs : List Expr) :
    sizes (as ++ bs) = sizes as + sizes bs := by
  induction as with
  | nil => simp [sizes]
  | cons a as ih => simp only [List.cons_append, sizes, ih]; omega

theorem sizes_reverse (es : List Expr) : sizes es.reverse = sizes es := by
  induction es with
  | nil => rfl
  | cons e es ih => simp only [List.reverse_cons, sizes_append, ih, sizes]; omega

/-- A node counts for one more than its children. -/
theorem size_eq_succ_sizes_children (e : Expr) : e.size = 1 + sizes e.children := by
  cases e <;> simp [size, sizes, children, Nat.add_assoc]

/-- The largest depth among pending subtrees and all that is below them, or
`best` if that is larger. Each pending subtree comes with its own depth; the one
on top of the stack is visited first. -/
def deepest (best : Nat) (pending : List (Expr × Nat)) : Nat :=
  match pending with
  | [] => best
  | (e, depth) :: pending =>
    deepest (max best depth)
      ((e.children.map fun child => (child, depth + 1)).reverse ++ pending)
termination_by sizes (pending.map Prod.fst)
decreasing_by
  have := size_eq_succ_sizes_children e
  simp only [List.map_append, List.map_reverse, List.map_map, Function.comp_def,
    List.map_cons, List.map_id', sizes_append, sizes_reverse, sizes]
  omega

/-- The number of nodes on the longest path from the root to a leaf, found
without recursion on the tree. -/
def depth (e : Expr) : Nat := deepest 0 [(e, 1)]

/-! ## Text -/

mutual

/-- The fully parenthesized text of an expression; only the arguments of
a call stand bare. -/
def print : Expr → String
  | .value text => text
  | .unary operator operand => "(" ++ operator ++ operand.print ++ ")"
  | .binary operator left right =>
    "(" ++ left.print ++ " " ++ operator ++ " " ++ right.print ++ ")"
  | .conditional condition whenTrue whenFalse =>
    "(" ++ condition.print ++ " ? " ++ whenTrue.print ++ " : " ++
      whenFalse.print ++ ")"
  | .call callee arguments =>
    callee.print ++ "(" ++ ", ".intercalate (prints arguments) ++ ")"

/-- The texts of several expressions. -/
def prints : List Expr → List String
  | [] => []
  | e :: es => e.print :: prints es

end

end Expr

end Pratt
