import Pratt.Expr
import Pratt.Grammar
import Pratt.ParseError
import Pratt.Scanner

set_option autoImplicit false

/-!
# Parsing with a grammar

An expression is read by looking at one token at a time. Its first token is
handled by its prefix rule; then, as long as the next token continues the
expression and binds tighter than the power that the expression is read at, that
token's infix rule extends it.

Reading an expression takes at least one token, so the recursion is bounded by
the number of tokens that are left. The bound is an argument of `exprWithin` and
of the loops below it, and hidden in `expr` and all that is built on it.
-/

namespace Pratt

/-- A reader of tokens that may fail. The scanner is kept as it is after a
failure. -/
abbrev Parser := EStateM ParseError Scanner

namespace Parser

/-! ## Single tokens -/

/-- Looks at the token `n` places ahead. -/
def peek (n : Nat) : Parser (Option Token) := fun s =>
  let (token, s) := s.peek n
  .ok token s

/-- Takes the next token. -/
def advance : Parser (Option Token) := fun s =>
  let (token, s) := s.consume
  .ok token s

/-- The place of the next token, or of the end of the source. -/
def position : Parser Position := fun s => .ok s.position s

/-- The text of the next token. -/
def current : Parser (Option String) := do
  return (← peek 0).map Token.text

/-- Fails with a fault at a place. -/
def fail {α : Type} (fault : Fault) (position : Position) : Parser α :=
  throw ⟨fault, position⟩

/-- Takes the next token, which has to have the given text. -/
def expect (expected : String) : Parser Token := do
  let place ← position
  match ← advance with
  | none => fail (.mismatchedDelimiter expected none) place
  | some token =>
    if token.text = expected then return token
    else fail (.mismatchedDelimiter expected (some token.text)) place

end Parser

/-! ## Rules

Each rule is run for a reader of operands and for the token it belongs to, which
was already taken. -/

/-- Reads what a token starts. -/
def PrefixRule.run (operand : Power → Parser Expr) (token : Token) :
    PrefixRule → Parser Expr
  | .value => return .value token.text
  | .unary power => return .unary token.text (← operand power)
  | .group close => do
    let inner ← operand .lowest
    let _ ← Parser.expect close
    return inner

/-- Reads at most `bound` arguments of a call, up to but without the token that
closes it. A separator may also stand behind the last argument. -/
def Parser.arguments (operand : Power → Parser Expr) (separator close : String) :
    Nat → Parser (List Expr)
  | 0 => return []
  | bound + 1 => do
    if (← current) = some close then return []
    let first ← operand .lowest
    if (← current) = some separator then
      let _ ← advance
      return first :: (← arguments operand separator close bound)
    else return [first]

/-- Reads what a token continues, `left` being what stands before it. A call has
at most `bound` arguments. -/
def InfixRule.run (operand : Power → Parser Expr) (bound : Nat) (left : Expr)
    (token : Token) :
    InfixRule → Parser Expr
  | .binary power associativity =>
    return .binary token.text left (← operand (associativity.rightPower power))
  | .conditional _ separator => do
    let whenTrue ← operand .lowest
    let _ ← Parser.expect separator
    let whenFalse ← operand .lowest
    return .conditional left whenTrue whenFalse
  | .call _ separator close => do
    let arguments ← Parser.arguments operand separator close bound
    let _ ← Parser.expect close
    return .call left arguments

namespace Parser

/-! ## Expressions -/

/-- Extends `left` by at most `bound` tokens that bind tighter than `power`. -/
def extendWithin (g : Grammar) (operand : Power → Parser Expr) (power : Power) :
    Nat → Expr → Parser Expr
  | 0, left => return left
  | bound + 1, left => do
    match (← current).bind (g.continuation? power) with
    | none => return left
    | some rule =>
      match ← advance with
      | none => return left
      | some token =>
        extendWithin g operand power bound (← rule.run operand bound left token)

/-- Reads an expression whose operators bind tighter than a power, nesting fewer
than `bound` others. -/
def exprWithin (g : Grammar) : Nat → Power → Parser Expr
  | 0, _ => do fail .unexpectedEnd (← position)
  | bound + 1, power => do
    let place ← position
    match ← advance with
    | none => fail .unexpectedEnd place
    | some token =>
      let left ← (g.prefixRule token.text).run (exprWithin g bound) token
      extendWithin g (exprWithin g bound) power bound left

/-- A bound that no expression read from a scanner reaches. -/
def bound (s : Scanner) : Nat := s.size + 1

/-- Reads an expression whose operators bind tighter than a power. -/
def expr (g : Grammar) (power : Power) : Parser Expr :=
  fun s => exprWithin g (bound s) power s

/-- Extends an expression by the tokens that bind tighter than a power. -/
def extend (g : Grammar) (power : Power) (left : Expr) : Parser Expr := fun s =>
  extendWithin g (exprWithin g (bound s)) power (bound s) left s

/-- Reads the arguments of a call, up to but without the token that closes it. -/
def argumentList (g : Grammar) (separator close : String) :
    Parser (List Expr) := fun s =>
  arguments (expr g) separator close (bound s) s

end Parser

/-- Reads what a token starts, with operands of a grammar. -/
def PrefixRule.parse (g : Grammar) (rule : PrefixRule)
    (token : Token) : Parser Expr :=
  rule.run (Parser.expr g) token

/-- Reads what a token continues, with operands of a grammar. -/
def InfixRule.parse (g : Grammar) (rule : InfixRule) (left : Expr)
    (token : Token) : Parser Expr :=
  fun s => rule.run (Parser.expr g) (Parser.bound s) left token s

namespace Parser

/-- Reads one expression, after which no token may be left. -/
def whole (g : Grammar) : Parser Expr := do
  let tree ← expr g .lowest
  let place ← position
  match ← advance with
  | none => return tree
  | some token =>
    if g.isTerminator token.text then fail (.trailingInput token.text) place
    else fail (.unexpectedToken token.text) place

end Parser

/-- The outcome of a parser on a scanner. -/
def Parser.outcome {α : Type} (parser : Parser α) (s : Scanner) :
    Except ParseError α :=
  match parser s with
  | .ok result _ => .ok result
  | .error error _ => .error error

/-- Parses a source as one expression of a grammar. -/
def parseWith (g : Grammar) (source : String) (file : Option String := none) :
    Except ParseError Expr :=
  (Parser.whole g).outcome (.ofSource source file)

/-- Parses a source as one expression of arithmetic. -/
def parse (source : String) (file : Option String := none) :
    Except ParseError Expr :=
  parseWith .arithmetic source file

end Pratt
