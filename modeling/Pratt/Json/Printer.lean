import Pratt.Json

set_option autoImplicit false

/-!
# Writing JSON

The compact text of a JSON value, without any blanks, and the indented one, with
a field or an item in a line.
-/

namespace Pratt.Json

/-- How a character is written inside a string: quotes, backslashes and control
characters are escaped, all others stand for themselves. -/
def escapedChar (c : Char) : List Char :=
  match c with
  | '"' => ['\\', '"']
  | '\\' => ['\\', '\\']
  | '\x08' => ['\\', 'b']
  | '\x0c' => ['\\', 'f']
  | '\n' => ['\\', 'n']
  | '\r' => ['\\', 'r']
  | '\t' => ['\\', 't']
  | c =>
    if c.toNat < 0x20 then
      ['\\', 'u', '0', '0', Nat.digitChar (c.toNat / 16),
        Nat.digitChar (c.toNat % 16)]
    else [c]

/-- A string as JSON writes it. -/
def quote (text : String) : String :=
  String.ofList ('"' :: text.toList.flatMap escapedChar ++ ['"'])

/-! ## Compact text -/

mutual

/-- A JSON value without any blanks. -/
def compact : Json → String
  | .null => "null"
  | .bool true => "true"
  | .bool false => "false"
  | .number written => written
  | .text content => quote content
  | .list items => "[" ++ ",".intercalate (compactItems items) ++ "]"
  | .object fields => "\x7b" ++ ",".intercalate (compactFields fields) ++ "\x7d"

/-- Items without any blanks. -/
def compactItems : List Json → List String
  | [] => []
  | item :: items => item.compact :: compactItems items

/-- Fields with their names, without any blanks. -/
def compactFields : List (String × Json) → List String
  | [] => []
  | (name, field) :: fields =>
    (quote name ++ ":" ++ field.compact) :: compactFields fields

end

/-! ## Indented text -/

/-- The blanks in front of a line that is nested `level` deep. -/
def indent (level : Nat) : String := String.ofList (List.replicate (2 * level) ' ')

mutual

/-- A JSON value over several lines, nested `level` deep; the first line is not
indented. -/
def pretty (level : Nat) : Json → String
  | .null => "null"
  | .bool true => "true"
  | .bool false => "false"
  | .number written => written
  | .text content => quote content
  | .list [] => "[]"
  | .list (item :: items) =>
    "[\n" ++ ",\n".intercalate (prettyItems (level + 1) (item :: items)) ++
      "\n" ++ indent level ++ "]"
  | .object [] => "\x7b\x7d"
  | .object (field :: fields) =>
    "\x7b\n" ++
      ",\n".intercalate (prettyFields (level + 1) (field :: fields)) ++ "\n" ++
      indent level ++ "\x7d"

/-- Items on indented lines. -/
def prettyItems (level : Nat) : List Json → List String
  | [] => []
  | item :: items => (indent level ++ item.pretty level) :: prettyItems level items

/-- Fields with their names on indented lines. -/
def prettyFields (level : Nat) : List (String × Json) → List String
  | [] => []
  | (name, field) :: fields =>
    (indent level ++ quote name ++ ": " ++ field.pretty level) ::
      prettyFields level fields

end

/-- A JSON value over several lines. -/
def indented (json : Json) : String := json.pretty 0

end Pratt.Json
