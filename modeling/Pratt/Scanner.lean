import Pratt.Token

set_option autoImplicit false

/-!
# Cutting a source into tokens

A token is a maximal run of word characters, or any one other character that is
not blank. A scanner cuts tokens off on demand and keeps those that were looked
at but not yet taken.

What a scanner will still give is its view `Scanner.toList`.
-/

namespace Pratt

/-! ## The first token of a text -/

/-- The characters of the token that a text without leading blanks starts with. -/
def lexeme : List Char → List Char
  | [] => []
  | c :: rest => if isWordChar c then c :: rest.takeWhile isWordChar else [c]

/-- What follows the token that a text without leading blanks starts with. -/
def afterLexeme : List Char → List Char
  | [] => []
  | c :: rest => if isWordChar c then rest.dropWhile isWordChar else rest

@[simp] theorem lexeme_append_afterLexeme (text : List Char) :
    lexeme text ++ afterLexeme text = text := by
  cases text with
  | nil => rfl
  | cons c rest =>
    simp only [lexeme, afterLexeme]
    split <;> simp

theorem length_dropWhile_le {α : Type} (p : α → Bool) (l : List α) :
    (l.dropWhile p).length ≤ l.length :=
  (List.dropWhile_sublist p).length_le

theorem length_afterLexeme_lt (c : Char) (rest : List Char) :
    (afterLexeme (c :: rest)).length < (c :: rest).length := by
  have := length_dropWhile_le isWordChar rest
  simp only [afterLexeme, List.length_cons]
  split <;> omega

/-! ## Scanners -/

/-- The name of a source that was given none. -/
def defaultFile : String := "shell"

/-- A source that is being cut into tokens. The rest follows what was cut off or
skipped, which takes as many bytes as the offset tells. In the queue are the
tokens that were cut off but not yet taken, in order. -/
structure Scanner where
  file : String
  offset : Nat
  rest : List Char
  queue : List Token
  deriving DecidableEq, Repr, Inhabited

namespace Scanner

/-- A scanner at the start of a source. -/
def ofSource (source : String) (file : Option String := none) : Scanner :=
  ⟨file.getD defaultFile, 0, source.toList, []⟩

/-- A bound on the number of tokens that are left, known without cutting them
off. -/
def size (s : Scanner) : Nat := s.queue.length + s.rest.length

/-- Skips the blanks in front of the rest. -/
def skipBlanks (s : Scanner) : Scanner :=
  { s with
    offset := s.offset + width (s.rest.takeWhile isBlank)
    rest := s.rest.dropWhile isBlank }

/-- Cuts the next token off the rest. Blanks in front of it are skipped, also
where no token follows. -/
def scan (s : Scanner) : Option Token × Scanner :=
  let s := s.skipBlanks
  match s.rest with
  | [] => (none, s)
  | c :: rest =>
    let text := lexeme (c :: rest)
    let stop := s.offset + width text
    (some ⟨String.ofList text, ⟨s.file, s.offset, stop⟩⟩,
      { s with offset := stop, rest := afterLexeme (c :: rest) })

/-- Takes the next token. -/
def consume (s : Scanner) : Option Token × Scanner :=
  match s.queue with
  | token :: queue => (some token, { s with queue })
  | [] => s.scan

/-- Queues up to `n` more tokens, fewer if the source ends before. -/
def enqueue : Nat → Scanner → Scanner
  | 0, s => s
  | n + 1, s =>
    match s.scan with
    | (none, s) => s
    | (some token, s) => enqueue n { s with queue := s.queue ++ [token] }

/-- Looks at the token `n` places ahead; the next one is 0 places ahead. -/
def peek (n : Nat) (s : Scanner) : Option Token × Scanner :=
  let s := s.enqueue (n + 1 - s.queue.length)
  (s.queue[n]?, s)

/-- The place of the next token, or of the end of the source if none is left. -/
def position (s : Scanner) : Position :=
  match s.queue with
  | token :: _ => token.position
  | [] => ⟨s.skipBlanks.offset, s.file⟩

/-- The first `n` tokens that are left. -/
def take : Nat → Scanner → List Token
  | 0, _ => []
  | n + 1, s =>
    match s.consume with
    | (none, _) => []
    | (some token, s) => token :: take n s

/-- The scanner that has taken `n` tokens, or all if fewer are left. -/
def drop : Nat → Scanner → Scanner
  | 0, s => s
  | n + 1, s => drop n s.consume.2

/-- All tokens that are left. -/
def toList (s : Scanner) : List Token := s.take s.size

/-- Takes all tokens that are left, up to the end of the source. -/
def drain (s : Scanner) : List Token × Scanner := (s.toList, s.drop (s.size + 1))

end Scanner

/-- The tokens of a source. -/
def tokenize (source : String) (file : Option String := none) : List Token :=
  (Scanner.ofSource source file).toList

end Pratt
