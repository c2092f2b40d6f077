import Pratt.Text.Character

set_option autoImplicit false

/-!
# Tokens and where they stand

A token is a piece of a named source. Offsets count bytes of UTF-8 from the
start of the source.
-/

namespace Pratt

/-- A place in a named source. -/
structure Position where
  offset : Nat
  file : String
  deriving DecidableEq, Repr, Inhabited

/-- The place of what stands in no source. -/
def Position.nowhere : Position := ⟨0, "<null>"⟩

/-- A stretch of a named source, from one offset up to another. -/
structure Span where
  file : String
  start : Nat
  stop : Nat
  deriving DecidableEq, Repr, Inhabited

/-- The place where a stretch starts. -/
def Span.position (span : Span) : Position := ⟨span.start, span.file⟩

/-- The smallest unit that a grammar tells apart: its text and where it was
found. -/
structure Token where
  text : String
  span : Span
  deriving DecidableEq, Repr, Inhabited

/-- The place where a token starts. -/
def Token.position (token : Token) : Position := token.span.position

end Pratt
