import Pratt.Expr
import Pratt.Json

set_option autoImplicit false

/-!
# Expressions as JSON

A node is written as an object that names its kind under `type` and its parts
under names of their own. It is read back from such an object, whatever the
order of its fields and whatever else it holds, or from an array of the kind and
the parts in order; the two forms may be mixed.
-/

namespace Pratt

namespace Expr

/-! ## Writing -/

mutual

/-- An expression as a JSON value. -/
def toJson : Expr → Json
  | .value text => .object [("type", .text "value"), ("value", .text text)]
  | .unary operator operand =>
    .object [("type", .text "unary"), ("operator", .text operator),
      ("right", operand.toJson)]
  | .binary operator left right =>
    .object [("type", .text "binary"), ("operator", .text operator),
      ("left", left.toJson), ("right", right.toJson)]
  | .conditional condition whenTrue whenFalse =>
    .object [("type", .text "conditional"), ("condition", condition.toJson),
      ("trueBranch", whenTrue.toJson), ("falseBranch", whenFalse.toJson)]
  | .call callee arguments =>
    .object [("type", .text "call"), ("callee", callee.toJson),
      ("arguments", .list (toJsons arguments))]

/-- Several expressions as JSON values. -/
def toJsons : List Expr → List Json
  | [] => []
  | e :: es => e.toJson :: toJsons es

end

/-! ## Reading -/

/-- The kinds of nodes. -/
inductive Kind where
  /-- A single token. -/
  | value
  /-- An operator in front of its operand. -/
  | unary
  /-- An operator between its operands. -/
  | binary
  /-- A choice between two branches. -/
  | conditional
  /-- A callee applied to arguments. -/
  | call
  deriving DecidableEq, Repr, Inhabited

namespace Kind

/-- The name of a kind in JSON. -/
def tag : Kind → String
  | .value => "value"
  | .unary => "unary"
  | .binary => "binary"
  | .conditional => "conditional"
  | .call => "call"

/-- The names of the parts of a node in JSON. -/
def parts : Kind → List String
  | .value => ["value"]
  | .unary => ["operator", "right"]
  | .binary => ["operator", "left", "right"]
  | .conditional => ["condition", "trueBranch", "falseBranch"]
  | .call => ["callee", "arguments"]

/-- All kinds, in the order in which they are numbered from 0. -/
def all : List Kind := [.value, .unary, .binary, .conditional, .call]

/-- The kind of a name. -/
def ofTag? (tag : String) : Option Kind := all.find? fun kind => kind.tag = tag

/-- The kind of a number. -/
def ofNumber? (written : String) : Option Kind :=
  (["0", "1", "2", "3", "4"].idxOf? written).bind fun index => all[index]?

end Kind

/-- What a JSON value stands for, in each of the roles that a part of a
node may have: a string, the name or the number of a kind, an expression,
and a list of them. -/
structure Reading where
  text? : Option String := none
  kind? : Option Kind := none
  tree? : Option Expr := none
  trees? : Option (List Expr) := none
  deriving Inhabited

/-- The node of a kind with the given parts. -/
def ofParts? : Kind → List Reading → Option Expr
  | .value, [text] => return .value (← text.text?)
  | .unary, [operator, operand] =>
    return .unary (← operator.text?) (← operand.tree?)
  | .binary, [operator, left, right] =>
    return .binary (← operator.text?) (← left.tree?) (← right.tree?)
  | .conditional, [condition, whenTrue, whenFalse] =>
    return .conditional (← condition.tree?) (← whenTrue.tree?) (← whenFalse.tree?)
  | .call, [callee, arguments] => return .call (← callee.tree?) (← arguments.trees?)
  | _, _ => none

/-- The node that an array of a kind and parts stands for. -/
def ofItems? : List Reading → Option Expr
  | [] => none
  | kind :: parts => do ofParts? (← kind.kind?) parts

/-- What stands in the field of a name, which must not be given twice. -/
def field? {α : Type} (name : String) (fields : List (String × α)) : Option α :=
  match fields.filter fun field => field.1 = name with
  | [field] => some field.2
  | _ => none

/-- The node that an object with a kind and named parts stands for. -/
def ofFields? (fields : List (String × Reading)) : Option Expr := do
  let kind ← (← field? "type" fields).kind?
  ofParts? kind (← kind.parts.mapM fun name => field? name fields)

mutual

/-- What a JSON value inside of another one stands for. Here a kind may be
given by its number. -/
def reading : Json → Reading
  | .text content => { text? := some content, kind? := Kind.ofTag? content }
  | .number written => { kind? := Kind.ofNumber? written }
  | .list items =>
    { tree? := ofItems? (readings items),
      trees? := (readings items).mapM Reading.tree? }
  | .object fields => { tree? := ofFields? (fieldReadings fields) }
  | .null => {}
  | .bool _ => {}

/-- What the items of an array stand for. -/
def readings : List Json → List Reading
  | [] => []
  | item :: items => reading item :: readings items

/-- What the fields of an object stand for. -/
def fieldReadings : List (String × Json) → List (String × Reading)
  | [] => []
  | (name, field) :: fields => (name, reading field) :: fieldReadings fields

end

/-- Whether a JSON value is an object or an array that gives a kind by its name. -/
def namesKind : Json → Bool
  | .object fields =>
    match field? "type" fields with
    | some (.text _) => true
    | _ => false
  | .list (.text _ :: _) => true
  | _ => false

/-- The expression that a JSON value stands for. The kind of its root is given
by name. -/
def ofJson? (json : Json) : Option Expr :=
  if namesKind json then (reading json).tree? else none

end Expr

end Pratt
