set_option autoImplicit false

/-!
# Outlines

Named records, lists and plain texts, nested in each other, and two ways to
write them: in one line, or with one field or member in a line.
-/

namespace Pratt

/-- A value shown by its parts. -/
inductive Outline where
  /-- A part that is written as it is. -/
  | text (written : String)
  /-- A name with named fields. -/
  | record (name : String) (fields : List (String × Outline))
  /-- Members in order. -/
  | list (members : List Outline)
  deriving Inhabited

namespace Outline

mutual

/-- An outline in one line. -/
def inline : Outline → String
  | .text written => written
  | .record name [] => name
  | .record name (field :: fields) =>
    name ++ " \x7b " ++ ", ".intercalate (inlineFields (field :: fields)) ++ " \x7d"
  | .list members => "[" ++ ", ".intercalate (inlineMembers members) ++ "]"

/-- Fields with their names, each in one line. -/
def inlineFields : List (String × Outline) → List String
  | [] => []
  | (name, field) :: fields => (name ++ ": " ++ field.inline) :: inlineFields fields

/-- Members, each in one line. -/
def inlineMembers : List Outline → List String
  | [] => []
  | member :: members => member.inline :: inlineMembers members

end

/-- The blanks in front of a line that is nested `level` deep. -/
def indent (level : Nat) : String := String.ofList (List.replicate (4 * level) ' ')

mutual

/-- An outline over several lines, nested `level` deep; the first line is not
indented. -/
def spread (level : Nat) : Outline → String
  | .text written => written
  | .record name [] => name
  | .record name (field :: fields) =>
    name ++ " \x7b\n" ++ spreadFields (level + 1) (field :: fields) ++
      indent level ++ "\x7d"
  | .list [] => "[]"
  | .list (member :: members) =>
    "[\n" ++ spreadMembers (level + 1) (member :: members) ++ indent level ++ "]"

/-- Fields with their names on lines of their own. -/
def spreadFields (level : Nat) : List (String × Outline) → String
  | [] => ""
  | (name, field) :: fields =>
    indent level ++ name ++ ": " ++ field.spread level ++ ",\n" ++
      spreadFields level fields

/-- Members on lines of their own. -/
def spreadMembers (level : Nat) : List Outline → String
  | [] => ""
  | member :: members =>
    indent level ++ member.spread level ++ ",\n" ++ spreadMembers level members

end

/-- An outline with one field or member in a line. -/
def lines (outline : Outline) : String := outline.spread 0

end Outline

end Pratt
