import Pratt.Text.Character

set_option autoImplicit false

/-!
# Lines of a text

Finding the line that holds a byte position. Lines are the pieces of a text cut
after each line feed, so joining them gives the text back (`flatten_linesOf`).
-/

namespace Pratt

/-- The pieces of a text cut after each line feed; the last piece may lack one. -/
def linesOf : List Char → List (List Char)
  | [] => []
  | c :: rest =>
    if c = '\n' then [c] :: linesOf rest
    else
      match linesOf rest with
      | [] => [[c]]
      | line :: lines => (c :: line) :: lines

@[simp] theorem flatten_linesOf (text : List Char) :
    (linesOf text).flatten = text := by
  induction text with
  | nil => rfl
  | cons c rest ih =>
    simp only [linesOf]
    split
    · simp [ih]
    · split
      · next h => rw [h] at ih; simpa using ih
      · next h => rw [h] at ih; simpa using ih

/-- A place in a text, told by line: the number of the line counted from 1, the
line itself with its line feed if it has one, and the number of bytes of the
line before the place. -/
structure LinePlace where
  number : Nat
  text : List Char
  offset : Nat
  deriving DecidableEq, Repr, Inhabited

/-- The place `position` bytes into the given lines, the first of which has
the given number. A position at or past the end is the end of the last line,
before its line feed. -/
def placeIn (number position : Nat) : List (List Char) → LinePlace
  | [] => ⟨number, [], 0⟩
  | [line] =>
    if position < width line then ⟨number, line, position⟩
    else ⟨number, line, width (line.filter (· ≠ '\n'))⟩
  | line :: next :: lines =>
    if position < width line then ⟨number, line, position⟩
    else placeIn (number + 1) (position - width line) (next :: lines)

/-- The place `position` bytes into a text. -/
def placeAt (text : List Char) (position : Nat) : LinePlace :=
  placeIn 1 position (linesOf text)

end Pratt
