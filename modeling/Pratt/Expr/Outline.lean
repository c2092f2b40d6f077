import Pratt.Expr
import Pratt.Outline
import Pratt.Text.Quoted

set_option autoImplicit false

/-!
# Outlines of expressions

An expression shown as nested records, with its texts quoted.
-/

namespace Pratt.Expr

mutual

/-- The records and lists that an expression is made of. -/
def outline : Expr → Outline
  | .value text => .record "Value" [("value", .text (quoted text))]
  | .unary operator operand =>
    .record "UnaryOperation"
      [("operator", .text (quoted operator)), ("operand", operand.outline)]
  | .binary operator left right =>
    .record "BinaryOperation"
      [("operator", .text (quoted operator)), ("left", left.outline),
        ("right", right.outline)]
  | .conditional condition whenTrue whenFalse =>
    .record "ConditionalOperation"
      [("condition", condition.outline), ("true_branch", whenTrue.outline),
        ("false_branch", whenFalse.outline)]
  | .call callee arguments =>
    .record "Call"
      [("callee", callee.outline), ("arguments", .list (outlines arguments))]

/-- The outlines of several expressions. -/
def outlines : List Expr → List Outline
  | [] => []
  | e :: es => e.outline :: outlines es

end

end Pratt.Expr
