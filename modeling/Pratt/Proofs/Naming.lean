import Pratt.Proofs.Session

set_option autoImplicit false

/-!
# The name of a source

A source is called by the file that it was read from. The name is written into
every token and every error, and nothing else depends on it: under another name
a source has the same tokens at the same offsets (`tokenize_eq_map_inFile`), and
it is parsed as the same tree or with the same error, under that name
(`parseWith_eq_mapError_inFile`). A report names the source once
(`ParseError.exists_report_inFile_eq`).
-/

namespace Pratt

/-! ## Tokens -/

/-- The token in a source of another name. -/
def Token.inFile (name : String) (token : Token) : Token :=
  { token with span := { token.span with file := name } }

@[simp] theorem Token.text_inFile (name : String) (token : Token) :
    (token.inFile name).text = token.text :=
  rfl

namespace Scanner

/-- The scanner of a source of another name. -/
def inFile (name : String) (s : Scanner) : Scanner :=
  { s with file := name, queue := s.queue.map (Token.inFile name) }

@[simp] theorem size_inFile (name : String) (s : Scanner) :
    (s.inFile name).size = s.size := by
  simp [size, inFile]

theorem scan_inFile (name : String) (s : Scanner) :
    (s.inFile name).scan =
      (s.scan.1.map (Token.inFile name), s.scan.2.inFile name) := by
  have hskip : (s.inFile name).skipBlanks = s.skipBlanks.inFile name := rfl
  have hrest : (s.inFile name).skipBlanks.rest = s.skipBlanks.rest := rfl
  cases h : s.skipBlanks.rest with
  | nil =>
    rw [scan_of_rest_eq_nil h, scan_of_rest_eq_nil (hrest.trans h), hskip,
      Option.map_none]
  | cons c rest =>
    rw [scan_of_rest_eq_cons h, scan_of_rest_eq_cons (hrest.trans h), hskip]
    rfl

theorem consume_inFile (name : String) (s : Scanner) :
    (s.inFile name).consume =
      (s.consume.1.map (Token.inFile name), s.consume.2.inFile name) := by
  cases h : s.queue with
  | nil =>
    have hqueue : (s.inFile name).queue = [] := by rw [inFile, h, List.map_nil]
    rw [consume_of_queue_eq_nil h, consume_of_queue_eq_nil hqueue, scan_inFile]
  | cons token queue =>
    have hqueue :
        (s.inFile name).queue =
          token.inFile name :: queue.map (Token.inFile name) := by
      rw [inFile, h, List.map_cons]
    rw [consume_of_queue_eq_cons h, consume_of_queue_eq_cons hqueue]
    rfl

theorem take_inFile (name : String) (n : Nat) (s : Scanner) :
    (s.inFile name).take n = (s.take n).map (Token.inFile name) := by
  induction n generalizing s with
  | zero => rfl
  | succ n ih =>
    have hconsume := consume_inFile name s
    cases h : s.consume with
    | mk found s' =>
      rw [h] at hconsume
      cases found with
      | none =>
        rw [take_of_consume_eq_none h, take_of_consume_eq_none hconsume,
          List.map_nil]
      | some token =>
        rw [take_succ_of_consume_eq_some h,
          take_succ_of_consume_eq_some hconsume, ih, List.map_cons]

end Scanner

section

variable (source : String) (file other : Option String)

/-- Under another name, a source has the same tokens at the same offsets. -/
theorem tokenize_eq_map_inFile :
    tokenize source other =
      (tokenize source file).map (Token.inFile (other.getD defaultFile)) := by
  have hscanner :
      Scanner.ofSource source other =
        (Scanner.ofSource source file).inFile (other.getD defaultFile) :=
    rfl
  rw [tokenize, Scanner.toList, hscanner, Scanner.size_inFile, Scanner.take_inFile]
  rfl

end

/-! ## Errors -/

namespace ParseError

/-- The error in a source of another name. -/
def inFile (name : String) (error : ParseError) : ParseError :=
  { error with position := { error.position with file := name } }

/-- The reports of an error in sources of any names are the same around the
name. -/
theorem exists_report_inFile_eq (error : ParseError) (source : String) :
    ∃ above below, ∀ name,
      (error.inFile name).report source = above ++ name ++ below := by
  let place := placeAt source.toList error.position.offset
  refine ⟨error.headline ++ "\n" ++ "-> ",
    "\n" ++ String.ofList (gutter place.number) ++ "\n" ++
      String.ofList (sourceLine place) ++ "\n" ++
      String.ofList (caretLine place) ++ "\n", fun name => ?_⟩
  simp only [report, String.append_assoc]
  rfl

end ParseError

/-- The places of a session's tokens are at the same offsets under another name. -/
theorem Session.place_fresh (g : Grammar) (source : String)
    (file other : Option String) (n : Nat) :
    (Session.fresh source other).place g n =
      { (Session.fresh source file).place g n with
        file := other.getD defaultFile } := by
  have htokens : (Session.fresh source other).tokens g =
      ((Session.fresh source file).tokens g).map
        (Token.inFile (other.getD defaultFile)) :=
    tokenize_eq_map_inFile source file other
  rw [place, place, htokens, List.getElem?_map]
  cases ((Session.fresh source file).tokens g)[n]? <;> rfl

/-- Under another name, a source is parsed as the same tree, or with the same
error under that name. -/
theorem parseWith_eq_mapError_inFile (g : Grammar) (source : String)
    (file other : Option String) :
    parseWith g source other =
      (parseWith g source file).mapError
        (ParseError.inFile (other.getD defaultFile)) := by
  have htexts :
      (Session.fresh source file).texts g =
        (Session.fresh source other).texts g :=
    (map_text_tokenize source file).trans (map_text_tokenize source other).symm
  have hwhole : Corresponds g (.fresh source file) (.fresh source other) Eq
      (Parser.whole g (.ofSource source file))
      (Parser.whole g (.ofSource source other)) :=
    (interchangeable_of_texts_eq htexts).whole
  unfold parseWith Parser.outcome
  generalize Parser.whole g (.ofSource source file) = result at hwhole
  generalize Parser.whole g (.ofSource source other) = result' at hwhole
  cases hwhole with
  | ok n hn hsame hs ht =>
    subst hsame
    rfl
  | error n hn hs ht =>
    rw [Session.place_fresh g source file other]
    rfl

end Pratt
