import Pratt.Text.Line
import Pratt.Token

set_option autoImplicit false

/-!
# Parse errors

What can be wrong with a source, where, and how it is told: a name, a one-line
message, a tip, and a report that shows the line with a caret under the place.
-/

namespace Pratt

/-- What is wrong with a source. -/
inductive Fault where
  /-- An expression is missing at the end. -/
  | unexpectedEnd
  /-- A token after a whole expression neither continues it nor closes a
  construct. -/
  | unexpectedToken (token : String)
  /-- Another token than the one that a construct needs, or none. -/
  | mismatchedDelimiter (expected : String) (found : Option String)
  /-- A token after a whole expression closes a construct that is not open. -/
  | trailingInput (token : String)
  deriving DecidableEq, Repr, Inhabited

namespace Fault

/-- The name of a fault. -/
def name : Fault → String
  | .unexpectedEnd => "UnexpectedEndOfInput"
  | .unexpectedToken _ => "UnrecognizedInfixToken"
  | .mismatchedDelimiter _ _ => "MismatchedDelimiter"
  | .trailingInput _ => "TrailingInput"

/-- A fault in one line. -/
def message : Fault → String
  | .unexpectedEnd => "expect token but found none"
  | .unexpectedToken token => "unexpected token " ++ token
  | .mismatchedDelimiter expected found =>
    "expect token " ++ expected ++ " but got " ++ found.getD "null"
  | .trailingInput token => "unexpected trailing input starting at " ++ token

/-- How a token is quoted in a tip. -/
def quote (token : String) : String := "\x60" ++ token ++ "\x60"

/-- What may help against a fault, if anything is known. -/
def tip? : Fault → Option String
  | .unexpectedEnd => some "The expression ended early, is an operand missing?"
  | .unexpectedToken token =>
    some (quote token ++ " cannot continue an expression, is an operator missing?")
  | .mismatchedDelimiter expected (some found) =>
    some ("Expected " ++ quote expected ++ " here, found " ++ quote found)
  | .mismatchedDelimiter expected none =>
    some ("Expected " ++ quote expected ++ " before the end of input")
  | .trailingInput _ => none

end Fault

/-- A fault and the place it is blamed on. -/
structure ParseError where
  fault : Fault
  position : Position
  deriving DecidableEq, Repr, Inhabited

namespace ParseError

/-! ## Reports -/

/-- The first line of a report. -/
def headline (error : ParseError) : String :=
  match error.fault.tip? with
  | none => "Error: " ++ error.fault.name
  | some tip => "Error: " ++ error.fault.name ++ " (" ++ tip ++ ")"

/-- Text without the spaces in front of it. -/
def trimSpaces (text : List Char) : List Char := text.dropWhile (· = ' ')

/-- A mark at the end of a field filled with `fill` that is at least `size`
wide. -/
def flushRight (fill : Char) (size : Nat) (mark : Char) : List Char :=
  List.replicate (size - 1) fill ++ [mark]

/-- The bar that stands left of an excerpt, under the bar behind the
given line number. -/
def gutter (number : Nat) : List Char :=
  flushRight ' ' ((toString number).length + 2) '|'

/-- The line of an excerpt that shows the source. -/
def sourceLine (place : LinePlace) : List Char :=
  (toString place.number).toList ++ " | ".toList ++ trimEnd (trimSpaces place.text)

/-- The line of an excerpt that holds the caret: as far right as there are bytes
before the place, not counting the spaces that the line above is shown without.
A formatter may limit the width of a field: carets wider than 65535 columns are
left out of account. -/
def caretLine (place : LinePlace) : List Char :=
  let removed := place.text.length - (trimSpaces place.text).length
  gutter place.number ++ [' '] ++ flushRight '-' (place.offset - removed + 1) '^'

/-- The report of an error on a source: what is wrong, the name of the source,
and its line with a caret. -/
def report (error : ParseError) (source : String) : String :=
  let place := placeAt source.toList error.position.offset
  error.headline ++ "\n" ++
  "-> " ++ error.position.file ++ "\n" ++
  String.ofList (gutter place.number) ++ "\n" ++
  String.ofList (sourceLine place) ++ "\n" ++
  String.ofList (caretLine place) ++ "\n"

end ParseError

end Pratt
