import Pratt.Proofs.Lines
import Pratt.Proofs.Placement

set_option autoImplicit false

/-!
# What a report shows

A report ends with two lines: one shows a line of the source behind its number,
trimmed, and the other one holds a caret (`IsExcerpt`). Both begin with a bar in
the same column, and this is so for whatever error (`isExcerpt_report`).

The caret is placed by the bytes of the line in front of the error less the
spaces that are not shown. For the errors of a parser this is the right column,
since no more spaces are removed than stand in front of the error: a token is
shown whole from this column on (`exists_showsAt`), and the end of the source is
behind all that is shown (`width_sourceLine_le_caretColumn`). Columns count
bytes, like offsets.
-/

namespace Pratt

/-! ## Trimmed lines -/

/-- The text is the line without the spaces in front of it and without the
white space at its end. -/
structure IsTrimmed (line text : List Char) : Prop where
  /-- The text stands in the line behind spaces and in front of white space. -/
  parts : ∃ n tail,
    line = List.replicate n ' ' ++ (text ++ tail) ∧ ∀ c ∈ tail, isBlank c = true
  /-- No more spaces can be removed. -/
  first : text.head? ≠ some ' '
  /-- No more white space can be removed. -/
  last : ∀ c, text.getLast? = some c → isBlank c = false

namespace ParseError

/-- The number of spaces that a line is shown without. -/
def indentation (line : List Char) : Nat := line.length - (trimSpaces line).length

/-- The spaces in front of a line are as many as it is longer than without them. -/
theorem replicate_append_trimSpaces (line : List Char) :
    List.replicate (indentation line) ' ' ++ trimSpaces line = line := by
  induction line with
  | nil => rfl
  | cons c rest ih =>
    rw [indentation, trimSpaces]
    by_cases hc : c = ' '
    · have hle : (trimSpaces rest).length ≤ rest.length :=
        (List.dropWhile_suffix _).length_le
      rw [List.dropWhile_cons_of_pos (by simpa using hc), List.length_cons]
      change List.replicate (rest.length + 1 - (trimSpaces rest).length) ' ' ++
        trimSpaces rest = c :: rest
      rw [Nat.sub_add_comm hle, List.replicate_succ, List.cons_append,
        ← indentation, ih, hc]
    · rw [List.dropWhile_cons_of_neg (by simpa using hc), Nat.sub_self]
      rfl

theorem head?_trimSpaces (text : List Char) :
    (trimSpaces text).head? ≠ some ' ' := by
  intro h
  have := head?_dropWhile_eq_some h
  simp at this

/-- What stands in front of a character that is no space is trimmed by itself. -/
theorem trimSpaces_append_cons {c : Char} (h : c ≠ ' ') (front back : List Char) :
    trimSpaces (front ++ c :: back) = trimSpaces front ++ c :: back :=
  dropWhile_append_cons (by simpa using h) front back

end ParseError

/-- What is behind a character that is not white space is trimmed by itself. -/
theorem trimEnd_append_cons {c : Char} (h : isBlank c = false)
    (front back : List Char) :
    trimEnd (front ++ c :: back) = front ++ c :: trimEnd back := by
  have hreverse :
      (front ++ c :: back).reverse = back.reverse ++ c :: front.reverse := by
    simp
  rw [trimEnd, hreverse, dropWhile_append_cons h, List.reverse_append,
    List.reverse_cons, List.reverse_reverse, List.append_assoc]
  rfl

theorem exists_trimEnd_append (text : List Char) :
    ∃ tail, trimEnd text ++ tail = text ∧ ∀ c ∈ tail, isBlank c = true := by
  refine ⟨(text.reverse.takeWhile isBlank).reverse, ?_, ?_⟩
  · rw [trimEnd, ← List.reverse_append, List.takeWhile_append_dropWhile,
      List.reverse_reverse]
  · intro c hmem
    exact List.all_eq_true.mp List.all_takeWhile c (List.mem_reverse.mp hmem)

theorem isTrimmed_trimEnd_trimSpaces (line : List Char) :
    IsTrimmed line (trimEnd (ParseError.trimSpaces line)) := by
  obtain ⟨tail, htail, hblank⟩ := exists_trimEnd_append (ParseError.trimSpaces line)
  constructor
  · refine ⟨ParseError.indentation line, tail, ?_, hblank⟩
    rw [htail, ParseError.replicate_append_trimSpaces]
  · intro h
    apply ParseError.head?_trimSpaces line
    rw [← htail, List.head?_append, h]
    rfl
  · intro c hc
    rw [trimEnd, List.getLast?_reverse] at hc
    exact head?_dropWhile_eq_some hc

/-- A line feed at the end of a line is trimmed. -/
theorem IsTrimmed.newline_notMem {line text : List Char}
    (h : IsTrimmed line text) (hline : '\n' ∉ line.dropLast) :
    '\n' ∉ text := by
  obtain ⟨n, tail, rfl, -⟩ := h.parts
  rcases List.eq_nil_or_concat text with rfl | ⟨front, c, rfl⟩
  · exact List.not_mem_nil
  · rw [List.concat_eq_append] at hline h ⊢
    have hc : isBlank c = false := h.last c List.getLast?_concat
    intro hmem
    rcases List.mem_append.mp hmem with hfront | hlast
    · apply hline
      rw [List.append_assoc, ← List.append_assoc, List.singleton_append,
        List.dropLast_append_of_ne_nil (List.cons_ne_nil c tail)]
      exact List.mem_append_left _ (List.mem_append_right _ hfront)
    · obtain rfl := List.mem_singleton.mp hlast
      cases hc

section

variable {part : List Char} (h : ∀ c ∈ part, isBlank c = false)
include h

theorem trimEnd_append_of_forall (back : List Char) :
    trimEnd (part ++ back) = part ++ trimEnd back := by
  induction part with
  | nil => rfl
  | cons c part ih =>
    obtain ⟨hc, hpart⟩ := List.forall_mem_cons.mp h
    have hcons := trimEnd_append_cons hc [] (part ++ back)
    rw [ih hpart] at hcons
    exact hcons

/-- A part without white space is kept when a line is trimmed, and what is in
front of it and behind it is trimmed by itself. -/
theorem trimSpaces_trimEnd_append (hne : part ≠ []) (lead rest : List Char) :
    ParseError.trimSpaces (lead ++ (part ++ rest)) =
      ParseError.trimSpaces lead ++ (part ++ rest) ∧
    trimEnd (ParseError.trimSpaces lead ++ (part ++ rest)) =
      ParseError.trimSpaces lead ++ (part ++ trimEnd rest) := by
  obtain ⟨c, part, rfl⟩ := List.exists_cons_of_ne_nil hne
  obtain ⟨hc, hpart⟩ := List.forall_mem_cons.mp h
  have hspace : c ≠ ' ' := by
    rintro rfl
    cases hc
  constructor
  · exact ParseError.trimSpaces_append_cons hspace lead (part ++ rest)
  · rw [List.cons_append, trimEnd_append_cons hc, trimEnd_append_of_forall hpart]
    rfl

end

/-! ## The last two lines -/

/-- The mark stands in the text for the first time behind so many bytes. -/
def IsFirstAt (mark : Char) (column : Nat) (text : List Char) : Prop :=
  ∃ left right, text = left ++ mark :: right ∧ mark ∉ left ∧ width left = column

/-- The last two lines of a report show a numbered line of a source and point at
a column of what is shown. -/
structure IsExcerpt (report : List Char) (number : Nat)
    (line shown marked : List Char) (column : Nat) : Prop where
  /-- The two lines end the report. -/
  ends : ∃ above, report = above ++ '\n' :: (shown ++ '\n' :: (marked ++ ['\n']))
  /-- Each of them is a single line. -/
  single : '\n' ∉ shown ∧ '\n' ∉ marked
  /-- The line of the source is shown trimmed, behind its number and a bar. -/
  shows : ∃ text,
    IsTrimmed line text ∧
    shown = (toString number).toList ++ (" | ".toList ++ text)
  /-- The bars are in the same column. -/
  bars : ∃ bar, IsFirstAt '|' bar shown ∧ IsFirstAt '|' bar marked
  /-- The caret is in the column. -/
  caret : IsFirstAt '^' column marked

theorem width_eq_length {text : List Char} (h : ∀ c ∈ text, c.utf8Size = 1) :
    width text = text.length := by
  induction text with
  | nil => rfl
  | cons c rest ih =>
    obtain ⟨hc, hrest⟩ := List.forall_mem_cons.mp h
    rw [width_cons, hc, ih hrest, List.length_cons, Nat.add_comm]

theorem width_replicate {c : Char} (h : c.utf8Size = 1) (n : Nat) :
    width (List.replicate n c) = n := by
  rw [width_eq_length, List.length_replicate]
  intro d hmem
  rw [List.eq_of_mem_replicate hmem, h]

/-- The characters that a report puts in front of a line are one byte wide. -/
theorem utf8Size_marks :
    ' '.utf8Size = 1 ∧ '-'.utf8Size = 1 ∧ '|'.utf8Size = 1 := by
  decide

theorem isDigit_of_mem_toString {number : Nat} {c : Char}
    (h : c ∈ (toString number).toList) : c.isDigit = true := by
  rw [Nat.toString_eq_repr, Nat.toList_repr] at h
  exact Nat.isDigit_of_mem_toDigits (by decide) (by decide) h

theorem notMem_toString {c : Char} (h : c.isDigit = false) (number : Nat) :
    c ∉ (toString number).toList := by
  intro hmem
  rw [isDigit_of_mem_toString hmem] at h
  cases h

theorem width_toString (number : Nat) :
    width (toString number).toList = (toString number).length := by
  rw [width_eq_length, String.length_toList]
  intro c hmem
  have hdigit := isDigit_of_mem_toString hmem
  rw [Char.isDigit, Bool.and_eq_true, decide_eq_true_eq,
    decide_eq_true_eq] at hdigit
  rw [Char.utf8Size_eq_one_iff]
  exact UInt32.le_trans hdigit.2 (by decide)

namespace ParseError

/-- The column of the caret for a place. -/
def caretColumn (place : LinePlace) : Nat :=
  (toString place.number).length + 3 + (place.offset - indentation place.text)

theorem caretLine_eq (place : LinePlace) : caretLine place =
    List.replicate ((toString place.number).length + 1) ' ' ++ ('|' :: ' ' ::
      (List.replicate (place.offset - indentation place.text) '-' ++ ['^'])) := by
  simp [caretLine, gutter, flushRight, indentation]

theorem sourceLine_eq (place : LinePlace) : sourceLine place =
    ((toString place.number).toList ++ [' ']) ++ '|' :: ' ' ::
      trimEnd (trimSpaces place.text) := by
  simp [sourceLine]

/-- The bar behind a number is in the column of the bar in the line below. -/
theorem exists_isFirstAt_bar (place : LinePlace) :
    ∃ bar,
      IsFirstAt '|' bar (sourceLine place) ∧
      IsFirstAt '|' bar (caretLine place) := by
  refine ⟨(toString place.number).length + 1, ?_, ?_⟩
  · refine ⟨_, _, sourceLine_eq place, ?_, ?_⟩
    · exact List.not_mem_append (notMem_toString (by decide) place.number)
        (by decide)
    · rw [width_append, width_toString]
      rfl
  · exact ⟨_, _, caretLine_eq place, by simp, width_replicate utf8Size_marks.1 _⟩

/-- In front of the caret stand characters that are one byte wide. -/
theorem exists_caretLine_eq (place : LinePlace) :
    ∃ left,
      caretLine place = left ++ ['^'] ∧ '^' ∉ left ∧
      (∀ c ∈ left, c.utf8Size = 1) ∧
      left.length = caretColumn place := by
  refine ⟨List.replicate ((toString place.number).length + 1) ' ' ++ ('|' :: ' ' ::
    List.replicate (place.offset - indentation place.text) '-'), ?_, ?_, ?_, ?_⟩
  · rw [caretLine_eq, List.append_assoc]
    rfl
  · simp
  · obtain ⟨hspace, hdash, hbar⟩ := utf8Size_marks
    intro c hmem
    simp only [List.mem_append, List.mem_cons, List.mem_replicate] at hmem
    rcases hmem with ⟨-, rfl⟩ | rfl | rfl | ⟨-, rfl⟩ <;> assumption
  · simp only [List.length_append, List.length_cons, List.length_replicate,
      caretColumn]
    omega

theorem isFirstAt_caret (place : LinePlace) :
    IsFirstAt '^' (caretColumn place) (caretLine place) := by
  obtain ⟨left, hline, hleft, hnarrow, hlength⟩ := exists_caretLine_eq place
  exact ⟨left, [], hline, hleft, (width_eq_length hnarrow).trans hlength⟩

/-- Every report ends with an excerpt. -/
theorem isExcerpt_report {error : ParseError} {source : String} {place : LinePlace}
    (hplace : placeAt source.toList error.position.offset = place) :
    IsExcerpt (error.report source).toList place.number place.text
      (sourceLine place) (caretLine place) (caretColumn place) := by
  have htrimmed := isTrimmed_trimEnd_trimSpaces place.text
  have hnewline : '\n' ∉ trimEnd (trimSpaces place.text) := by
    apply htrimmed.newline_notMem
    rw [← hplace]
    exact newline_notMem_dropLast_placeAt _ _
  constructor
  · refine ⟨(error.headline ++ "\n" ++ "-> " ++ error.position.file ++
      "\n").toList ++ gutter place.number, ?_⟩
    simp [report, hplace]
  · have hdigits := notMem_toString (c := '\n') (by decide) place.number
    constructor
    · rw [sourceLine_eq]
      exact List.not_mem_append (List.not_mem_append hdigits (by decide))
        (by simpa using hnewline)
    · simp [caretLine_eq]
  · exact ⟨_, htrimmed, List.append_assoc _ _ _⟩
  · exact exists_isFirstAt_bar place
  · exact isFirstAt_caret place

/-! ## Spaces in front -/

theorem width_eq_indentation_add (line : List Char) :
    width line = indentation line + width (trimSpaces line) := by
  have h := congrArg width (replicate_append_trimSpaces line)
  rw [width_append, width_replicate utf8Size_marks.1] at h
  exact h.symm

/-- In front of the end of a line stand the spaces that are removed and
all that is shown. -/
theorem indentation_add_width_le {line : List Char} (h : '\n' ∉ line.dropLast) :
    indentation line + width (trimEnd (trimSpaces line)) ≤
      width (line.filter (· ≠ '\n')) := by
  have hnewline : '\n' ∉ trimEnd (trimSpaces line) :=
    (isTrimmed_trimEnd_trimSpaces line).newline_notMem h
  obtain ⟨tail, htail, -⟩ := exists_trimEnd_append (trimSpaces line)
  have hline :
      List.replicate (indentation line) ' ' ++
        (trimEnd (trimSpaces line) ++ tail) = line := by
    rw [htail, replicate_append_trimSpaces]
  have hspaces :
      (List.replicate (indentation line) ' ').filter (· ≠ '\n') =
        List.replicate (indentation line) ' ' :=
    List.filter_eq_self.mpr fun c hc => by simp [List.eq_of_mem_replicate hc]
  have htext :
      (trimEnd (trimSpaces line)).filter (· ≠ '\n') =
        trimEnd (trimSpaces line) :=
    List.filter_eq_self.mpr fun c hc => by
      simpa using ne_of_mem_of_not_mem hc hnewline
  have hwidth := congrArg (fun text => width (text.filter (· ≠ '\n'))) hline
  simp only [List.filter_append, width_append] at hwidth
  rw [hspaces, htext, width_replicate utf8Size_marks.1] at hwidth
  omega

end ParseError

/-! ## Errors of a parser -/

/-- No character of a token is white space, and it has one. -/
theorem IsTokenization.notBlank {text : List Char} {file : String} {start : Nat}
    {tokens : List Token} (h : IsTokenization text file start tokens) :
    ∀ token ∈ tokens,
      token.text.toList ≠ [] ∧
      ∀ c ∈ token.text.toList, isBlank c = false := by
  intro token hmem
  rcases h.legal token hmem with ⟨c, hc, hblank, -⟩ | hword
  · rw [hc]
    exact ⟨List.cons_ne_nil c [], List.forall_mem_singleton.mpr hblank⟩
  · obtain ⟨hne, hall⟩ := hword.word
    exact ⟨hne, fun c hc => isBlank_eq_false_of_isWordChar (hall c hc)⟩

open ParseError

/-- A part of a text stands at an offset in a line of it, and an excerpt shows
it there from a column on. -/
structure ShowsAt (text part : List Char) (offset number : Nat)
    (line lead shown : List Char) (column : Nat) : Prop where
  /-- The line is the one that holds the offset, and the lead is what it
  has in front of it. -/
  stands : ∃ before after,
    linesOf text = before ++ line :: after ∧ before.length + 1 = number ∧
    width before.flatten + width lead = offset
  /-- The part is behind the lead. -/
  continues : ∃ rest, line = lead ++ (part ++ rest)
  /-- The number is one more than there are line feeds in front of the offset. -/
  newlines : ∃ front back,
    text = front ++ back ∧ width front = offset ∧ number = 1 + front.count '\n'
  /-- What is shown continues with the part behind the number, the bar and the
  lead without its spaces. -/
  shows : ∃ left rest, shown = left ++ (part ++ rest) ∧ width left = column ∧
    left = (toString number).toList ++ (" | ".toList ++ trimSpaces lead)

/-- A token stands in the line that its place tells, and the spaces of this line
are in front of it. -/
theorem exists_showsAt {part : List Char} (hne : part ≠ [])
    (hpart : ∀ c ∈ part, isBlank c = false) (front back : List Char) :
    ∃ place lead,
      placeAt (front ++ (part ++ back)) (width front) = place ∧
      indentation place.text ≤ place.offset ∧
      ShowsAt (front ++ (part ++ back)) part (width front) place.number
        place.text lead (sourceLine place) (caretColumn place) := by
  have hnewline : '\n' ∉ part := fun hmem => by cases hpart _ hmem
  obtain ⟨before, lead, rest, after, hlines, rfl, hcount, hplace⟩ :=
    exists_placeAt_append hne hnewline front back
  obtain ⟨htrim, htrimEnd⟩ := trimSpaces_trimEnd_append hpart hne lead rest
  have hindentation : indentation (lead ++ (part ++ rest)) = indentation lead := by
    rw [indentation, htrim, List.length_append,
      @List.length_append _ (trimSpaces lead), Nat.add_sub_add_right,
      indentation]
  have hwidth := width_eq_indentation_add lead
  refine ⟨_, lead, hplace, ?_, ?_⟩
  · simp only [hindentation]
    omega
  constructor
  · exact ⟨before, after, hlines, Nat.add_comm _ _, (width_append _ _).symm⟩
  · exact ⟨rest, rfl⟩
  · exact ⟨_, _, rfl, rfl, by rw [hcount]⟩
  · refine ⟨_, trimEnd rest, ?_, ?_, rfl⟩
    · simp only [sourceLine, htrim, htrimEnd, List.append_assoc]
    · simp only [caretColumn, hindentation, width_append, width_toString]
      have hbar : width " | ".toList = 3 := by decide
      omega

/-- The end of a text is placed behind all that is shown of its last line. -/
theorem width_sourceLine_le_caretColumn {text : List Char} {position : Nat}
    (h : width text ≤ position) :
    indentation (placeAt text position).text ≤ (placeAt text position).offset ∧
    width (sourceLine (placeAt text position)) ≤
      caretColumn (placeAt text position) := by
  have hle :=
    indentation_add_width_le (newline_notMem_dropLast_placeAt text position)
  have hoffset :
      (placeAt text position).offset =
        width ((placeAt text position).text.filter (· ≠ '\n')) := by
    rw [placeAt_of_le h]
  rw [← hoffset] at hle
  obtain ⟨hspace, -, hbar⟩ := utf8Size_marks
  simp only [sourceLine_eq, caretColumn, width_append, width_cons, width_nil,
    width_toString, hspace, hbar]
  omega

/-- The report of an error on a source shows the line of a place and points
at a column of it. -/
structure ParseError.PointsAt (error : ParseError) (source : String)
    (place : LinePlace) (shown marked : List Char) (column : Nat) : Prop where
  /-- The report ends with the line and the caret. -/
  excerpt :
    IsExcerpt (error.report source).toList place.number place.text shown marked
      column
  /-- No more spaces are removed from the line than stand in front of the place. -/
  removed : indentation place.text ≤ place.offset
  /-- A token that is blamed is shown from this column on. -/
  token : ∀ word, error.fault.found? = some word →
    ∃ lead,
      ShowsAt source.toList word.toList error.position.offset place.number
        place.text lead shown column
  /-- At the end of the source, the last line is shown, and the column is behind
  all that is shown of it. -/
  ending :
    error.fault.found? = none →
    place.number = max 1 (linesOf source.toList).length ∧
    place.text = (linesOf source.toList).getLastD [] ∧ width shown ≤ column

/-- The report of any error of a parser shows the line of the error under its
number, trimmed, and points at the blamed token, or behind the last line. -/
theorem exists_pointsAt_of_parseWith_eq_error {g : Grammar} {source : String}
    {file : Option String} {error : ParseError}
    (h : parseWith g source file = .error error) :
    ∃ place shown marked column,
      placeAt source.toList error.position.offset = place ∧
      error.PointsAt source place shown marked column := by
  obtain ⟨i, hblames⟩ := exists_blames_of_parseWith_eq_error h
  cases hfound : error.fault.found? with
  | none =>
    obtain ⟨-, hoffset⟩ := hblames.ending hfound
    have hle : width source.toList ≤ error.position.offset := by
      rw [hoffset, width_toList]
    obtain ⟨hremoved, hcolumn⟩ := width_sourceLine_le_caretColumn hle
    refine ⟨_, _, _, _, rfl, isExcerpt_report rfl, hremoved, ?_, ?_⟩
    · intro word hword
      rw [hfound] at hword
      cases hword
    · intro _
      rw [placeAt_of_le hle] at hcolumn ⊢
      exact ⟨rfl, rfl, hcolumn⟩
  | some word =>
    obtain ⟨token, hget, rfl, hoffset⟩ := hblames.token word hfound
    have htokens := isTokenization_tokenize source file
    have hmem := List.mem_of_getElem? hget
    obtain ⟨-, front, back, hsource, hfront, -⟩ := htokens.slices token hmem
    obtain ⟨hne, hblank⟩ := htokens.notBlank token hmem
    obtain ⟨place, lead, hplace, hremoved, hshows⟩ :=
      exists_showsAt hne hblank front back
    rw [← hsource, hfront, ← hoffset] at hplace hshows
    refine ⟨place, _, _, _, hplace, isExcerpt_report hplace, hremoved, ?_, ?_⟩
    · intro other hother
      obtain rfl := Option.some.inj (hfound.symm.trans hother)
      exact ⟨lead, hshows⟩
    · intro hnone
      rw [hfound] at hnone
      cases hnone

/-- A token of the tenth line behind wider ones, and the end of a source whose
last line is blank. -/
theorem exists_pointsAt_tenthLine_and_end :
    (∃ place shown marked column,
      placeAt "a +\n\n\n\n\n\n\n\n\n  (β + é 3) x".toList 23 = place ∧
      ParseError.PointsAt ⟨.mismatchedDelimiter ")" (some "3"), ⟨23, "wide"⟩⟩
        "a +\n\n\n\n\n\n\n\n\n  (β + é 3) x" place shown marked column) ∧
    ∃ place shown marked column,
      placeAt "1 +\n  (2 * 3 -\n   \n  \n".toList 22 = place ∧
      ParseError.PointsAt ⟨.unexpectedEnd, ⟨22, "shell"⟩⟩
        "1 +\n  (2 * 3 -\n   \n  \n" place shown marked column := by
  have htoken :
      parseWith .arithmetic "a +\n\n\n\n\n\n\n\n\n  (β + é 3) x" (some "wide") =
        .error ⟨.mismatchedDelimiter ")" (some "3"), ⟨23, "wide"⟩⟩ := by
    decide +kernel
  have hend :
      parseWith .arithmetic "1 +\n  (2 * 3 -\n   \n  \n" =
        .error ⟨.unexpectedEnd, ⟨22, "shell"⟩⟩ := by
    decide +kernel
  exact ⟨exists_pointsAt_of_parseWith_eq_error htoken,
    exists_pointsAt_of_parseWith_eq_error hend⟩

example : ParseError.report ⟨.mismatchedDelimiter ")" (some "3"), ⟨23, "wide"⟩⟩
    "a +\n\n\n\n\n\n\n\n\n  (β + é 3) x" =
      "Error: MismatchedDelimiter (Expected \x60)\x60 here, found \x603\x60)\n" ++
      "-> wide\n   |\n10 | (β + é 3) x\n   | ---------^\n" := by
  decide +kernel

end Pratt
