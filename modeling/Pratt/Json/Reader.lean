import Pratt.Json

set_option autoImplicit false

/-!
# Reading JSON

A text is read in two passes, each by a machine that takes one thing at a time:
the lexer turns characters into symbols, and the builder turns symbols into a
value. Both passes go through their input once, so nesting is not limited.
-/

namespace Pratt.Json

/-! ## Symbols -/

/-- The smallest parts of a JSON text. -/
inductive Symbol where
  /-- The bracket that opens an array. -/
  | openList
  /-- The bracket that closes an array. -/
  | closeList
  /-- The brace that opens an object. -/
  | openObject
  /-- The brace that closes an object. -/
  | closeObject
  /-- The colon between the name and the value of a field. -/
  | colon
  /-- The comma between items and between fields. -/
  | comma
  /-- A string. -/
  | text (content : String)
  /-- A number or a constant. -/
  | bare (written : String)
  deriving DecidableEq, Repr, Inhabited

/-- What the lexer is inside of. Characters that were taken stand in reverse. -/
inductive Lexer.Mode where
  /-- Between symbols. -/
  | between
  /-- In a number or a constant. -/
  | bare (taken : List Char)
  /-- In a string. -/
  | text (taken : List Char)
  /-- In a string, behind a backslash. -/
  | escape (taken : List Char)
  /-- In a string, in a character that is written as a number: the first half of
  a pair if this is the second one, the number of digits that are missing, and
  the number so far. -/
  | unit (taken : List Char) (high : Option Nat) (missing value : Nat)
  /-- In a string, behind the first half of a pair. -/
  | high (taken : List Char) (high : Nat)
  /-- In a string, behind the first half of a pair and a backslash. -/
  | highEscape (taken : List Char) (high : Nat)
  deriving DecidableEq, Repr, Inhabited

/-- A lexer at work. The symbols that are complete come in reverse. -/
structure Lexer where
  symbols : List Symbol
  mode : Lexer.Mode
  deriving DecidableEq, Repr, Inhabited

namespace Lexer

/-- Whether a character is blank in JSON. -/
def isJsonBlank (c : Char) : Bool := c == ' ' || c == '\t' || c == '\n' || c == '\r'

/-- Adds a symbol and goes on behind it. -/
def emit (symbols : List Symbol) (symbol : Symbol) : Lexer :=
  ⟨symbol :: symbols, .between⟩

/-- Takes a character between symbols. -/
def stepBetween (symbols : List Symbol) (c : Char) : Option Lexer :=
  match c with
  | '[' => some (emit symbols .openList)
  | ']' => some (emit symbols .closeList)
  | '\x7b' => some (emit symbols .openObject)
  | '\x7d' => some (emit symbols .closeObject)
  | ':' => some (emit symbols .colon)
  | ',' => some (emit symbols .comma)
  | '"' => some ⟨symbols, .text []⟩
  | c =>
    if isJsonBlank c then some ⟨symbols, .between⟩
    else if isBareChar c then some ⟨symbols, .bare [c]⟩
    else none

/-- The character that stands for another one behind a backslash. -/
def unescape? (c : Char) : Option Char :=
  match c with
  | '"' => some '"'
  | '\\' => some '\\'
  | '/' => some '/'
  | 'b' => some '\x08'
  | 'f' => some '\x0c'
  | 'n' => some '\n'
  | 'r' => some '\r'
  | 't' => some '\t'
  | _ => none

/-- The value of a hexadecimal digit. -/
def hexValue? (c : Char) : Option Nat :=
  if '0' ≤ c ∧ c ≤ '9' then some (c.toNat - '0'.toNat)
  else if 'a' ≤ c ∧ c ≤ 'f' then some (c.toNat - 'a'.toNat + 10)
  else if 'A' ≤ c ∧ c ≤ 'F' then some (c.toNat - 'A'.toNat + 10)
  else none

/-- Goes on behind a 16-bit unit: it is a character, half of a pair, or out of
place. -/
def endUnit (taken : List Char) (high : Option Nat) (value : Nat) : Option Mode :=
  match high with
  | none =>
    if 0xD800 ≤ value ∧ value ≤ 0xDBFF then some (.high taken value)
    else if 0xDC00 ≤ value ∧ value ≤ 0xDFFF then none
    else some (.text (Char.ofNat value :: taken))
  | some high =>
    if 0xDC00 ≤ value ∧ value ≤ 0xDFFF then
      some (.text (Char.ofNat
        (0x10000 + (high - 0xD800) * 0x400 + (value - 0xDC00)) :: taken))
    else none

/-- Takes a character. -/
def step (lexer : Lexer) (c : Char) : Option Lexer :=
  match lexer.mode with
  | .between => stepBetween lexer.symbols c
  | .bare taken =>
    if isBareChar c then some { lexer with mode := .bare (c :: taken) }
    else stepBetween (.bare (String.ofList taken.reverse) :: lexer.symbols) c
  | .text taken =>
    if c = '"' then some (emit lexer.symbols (.text (String.ofList taken.reverse)))
    else if c = '\\' then some { lexer with mode := .escape taken }
    else if c.toNat < 0x20 then none
    else some { lexer with mode := .text (c :: taken) }
  | .escape taken =>
    if c = 'u' then some { lexer with mode := .unit taken none 4 0 }
    else (unescape? c).map fun c => { lexer with mode := .text (c :: taken) }
  | .unit taken high missing value => do
    let value := value * 16 + (← hexValue? c)
    if missing ≤ 1 then return { lexer with mode := ← endUnit taken high value }
    else return { lexer with mode := .unit taken high (missing - 1) value }
  | .high taken high =>
    if c = '\\' then some { lexer with mode := .highEscape taken high } else none
  | .highEscape taken high =>
    if c = 'u' then some { lexer with mode := .unit taken (some high) 4 0 }
    else none

/-- The symbols of a text that ends here. -/
def finish? (lexer : Lexer) : Option (List Symbol) :=
  match lexer.mode with
  | .between => some lexer.symbols.reverse
  | .bare taken =>
    some (.bare (String.ofList taken.reverse) :: lexer.symbols).reverse
  | _ => none

end Lexer

/-- The symbols of a text, unless it breaks off or holds what no symbol can
hold. -/
def symbols? (text : List Char) : Option (List Symbol) :=
  (text.foldlM Lexer.step ⟨[], .between⟩).bind Lexer.finish?

/-! ## Values -/

/-- An array or object that is not closed yet. What is complete of it
stands in reverse. -/
inductive Builder.Frame where
  /-- An array that waits for an item. -/
  | list (done : List Json)
  /-- An object that waits for the value of a field. -/
  | object (done : List (String × Json)) (name : String)
  deriving Inhabited

/-- What the builder waits for, or has just got. -/
inductive Builder.Goal where
  /-- A value. -/
  | value
  /-- The first item of an array, or its end. -/
  | firstItem
  /-- The name of a field of the object. -/
  | name (done : List (String × Json))
  /-- The name of the first field of an object, or its end. -/
  | firstName
  /-- The colon behind the name of a field. -/
  | colon (done : List (String × Json)) (name : String)
  /-- What may stand behind a value. -/
  | after (value : Json)
  deriving Inhabited

/-- A builder at work. The innermost one of the open frames comes first. -/
structure Builder where
  frames : List Builder.Frame
  goal : Builder.Goal
  deriving Inhabited

namespace Builder

/-- Takes the first symbol of a value. -/
def stepValue (frames : List Frame) : Symbol → Option Builder
  | .text content => some ⟨frames, .after (.text content)⟩
  | .bare written => (ofBare? written).map fun value => ⟨frames, .after value⟩
  | .openList => some ⟨frames, .firstItem⟩
  | .openObject => some ⟨frames, .firstName⟩
  | _ => none

/-- Takes the symbol behind a value. -/
def stepAfter (value : Json) : List Frame → Symbol → Option Builder
  | .list done :: frames, .comma => some ⟨.list (value :: done) :: frames, .value⟩
  | .list done :: frames, .closeList =>
    some ⟨frames, .after (.list (value :: done).reverse)⟩
  | .object done name :: frames, .comma =>
    some ⟨frames, .name ((name, value) :: done)⟩
  | .object done name :: frames, .closeObject =>
    some ⟨frames, .after (.object ((name, value) :: done).reverse)⟩
  | _, _ => none

/-- Takes a symbol. -/
def step (builder : Builder) (symbol : Symbol) : Option Builder :=
  match builder.goal, symbol with
  | .value, symbol => stepValue builder.frames symbol
  | .firstItem, .closeList => some ⟨builder.frames, .after (.list [])⟩
  | .firstItem, symbol => stepValue (.list [] :: builder.frames) symbol
  | .firstName, .closeObject => some ⟨builder.frames, .after (.object [])⟩
  | .firstName, .text name => some ⟨builder.frames, .colon [] name⟩
  | .name done, .text name => some ⟨builder.frames, .colon done name⟩
  | .colon done name, .colon => some ⟨.object done name :: builder.frames, .value⟩
  | .after value, symbol => stepAfter value builder.frames symbol
  | _, _ => none

/-- The value that is complete, if nothing is open. -/
def finish? (builder : Builder) : Option Json :=
  match builder.frames, builder.goal with
  | [], .after value => some value
  | _, _ => none

end Builder

/-- The value that symbols make up. -/
def ofSymbols? (symbols : List Symbol) : Option Json :=
  (symbols.foldlM Builder.step ⟨[], .value⟩).bind Builder.finish?

/-- The value that a text stands for. -/
def read? (text : String) : Option Json := (symbols? text.toList).bind ofSymbols?

end Pratt.Json
