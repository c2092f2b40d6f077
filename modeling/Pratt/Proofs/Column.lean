import Pratt.Proofs.Report

set_option autoImplicit false

/-!
# Columns as they are seen

The caret of a report is placed by bytes, but its column is seen in characters,
and so is that of the token in the line above it (`ParseError.SeenAt`). The
caret is as far behind the start of the token as the characters in front of the
token in its line have bytes that are not the first one of a character. So it is
under the token exactly if each of these characters is one byte wide
(`seenAt_of_parseWith_eq_error`).
-/

namespace Pratt

/-! ## Borders -/

section

variable {α : Type} {c : α} {front back front' back' : List α}

theorem eq_nil_or_mem_of_cons_eq_append {mid : List α}
    (h : c :: back = mid ++ c :: back') :
    mid = [] ∧ back = back' ∨ c ∈ mid ∧ c ∈ back := by
  cases mid with
  | nil => exact .inl ⟨rfl, List.tail_eq_of_cons_eq h⟩
  | cons d mid =>
    obtain ⟨rfl, rfl⟩ := List.cons.inj h
    exact .inr ⟨List.mem_cons_self, List.mem_append_right mid List.mem_cons_self⟩

/-- A list is cut in one way only at the first of some members, and at the last
one. -/
theorem append_cons_inj (h : front ++ c :: back = front' ++ c :: back')
    (hborder : c ∉ front ∧ c ∉ front' ∨ c ∉ back ∧ c ∉ back') :
    front = front' ∧ back = back' := by
  rcases List.append_eq_append_iff.mp h with ⟨mid, rfl, hmid⟩ | ⟨mid, rfl, hmid⟩
  · rcases eq_nil_or_mem_of_cons_eq_append hmid with ⟨rfl, hback⟩ | ⟨hmem, hmem'⟩
    · exact ⟨(List.append_nil front).symm, hback⟩
    · rcases hborder with ⟨-, hfront⟩ | ⟨hback, -⟩
      · exact absurd (List.mem_append_right front hmem) hfront
      · exact absurd hmem' hback
  · rcases eq_nil_or_mem_of_cons_eq_append hmid with ⟨rfl, hback⟩ | ⟨hmem, hmem'⟩
    · exact ⟨List.append_nil front', hback.symm⟩
    · rcases hborder with ⟨hfront, -⟩ | ⟨-, hback⟩
      · exact absurd (List.mem_append_right front' hmem) hfront
      · exact absurd hmem' hback

end

/-! ## Bytes and characters -/

theorem width_eq_length_iff {text : List Char} :
    width text = text.length ↔ ∀ c ∈ text, c.utf8Size = 1 := by
  refine ⟨fun h => ?_, width_eq_length⟩
  induction text with
  | nil => exact nofun
  | cons c rest ih =>
    have hpos := c.utf8Size_pos
    have hle := length_le_width rest
    rw [width_cons, List.length_cons] at h
    exact List.forall_mem_cons.mpr ⟨by omega, ih (by omega)⟩

open ParseError

theorem ParseError.length_eq_indentation_add (line : List Char) :
    line.length = indentation line + (trimSpaces line).length := by
  have h := congrArg List.length (replicate_append_trimSpaces line)
  rw [List.length_append, List.length_replicate] at h
  exact h.symm

/-! ## Tokens and carets -/

/-- The report of an error on a source ends with a line that shows a
word from a column on and a line with a caret in a column. Columns are
counted in characters. -/
structure ParseError.SeenAt (error : ParseError) (source : String)
    (word lead shown marked : List Char) (column caret : Nat) : Prop where
  /-- The word stands at the place of the error, and the lead is what its line
  has in front of it. -/
  stands : ∃ before rest after,
    linesOf source.toList = before ++ (lead ++ (word ++ rest)) :: after ∧
    width before.flatten + width lead = error.position.offset
  /-- The two lines end the report. -/
  ends : ∃ above,
    (error.report source).toList =
      above ++ '\n' :: (shown ++ '\n' :: (marked ++ ['\n']))
  /-- Each of them is a single line. -/
  single : '\n' ∉ shown ∧ '\n' ∉ marked
  /-- The word is shown behind a number, a bar and the lead without its spaces. -/
  token : ∃ number : Nat, ∃ left rest,
    shown = left ++ (word ++ rest) ∧ left.length = column ∧
    left = (toString number).toList ++ (" | ".toList ++ trimSpaces lead)
  /-- The caret is the first one of its line. -/
  points : ∃ left right,
    marked = left ++ '^' :: right ∧ '^' ∉ left ∧ left.length = caret

namespace ParseError

section

variable {error : ParseError} {source : String}
  {word lead shown marked lead' shown' marked' : List Char}
  {column caret column' caret' : Nat}

theorem SeenAt.lead_eq
    (h : error.SeenAt source word lead shown marked column caret)
    (h' : error.SeenAt source word lead' shown' marked' column' caret')
    (hne : word ≠ []) : lead = lead' := by
  obtain ⟨before, rest, after, hlines, hoffset⟩ := h.stands
  obtain ⟨before', rest', after', hlines', hoffset'⟩ := h'.stands
  have hplace := placeAt_of_linesOf_eq hne hlines
  rw [hoffset, ← hoffset', placeAt_of_linesOf_eq hne hlines',
    LinePlace.mk.injEq] at hplace
  obtain ⟨-, hline, hwidth⟩ := hplace
  exact (append_inj_of_width_eq hline hwidth).1.symm

theorem SeenAt.lines_eq
    (h : error.SeenAt source word lead shown marked column caret)
    (h' : error.SeenAt source word lead' shown' marked' column' caret') :
    shown = shown' ∧ marked = marked' := by
  obtain ⟨above, hends⟩ := h.ends
  obtain ⟨above', hends'⟩ := h'.ends
  have hlast : ∀ front first second : List Char,
      front ++ '\n' :: (first ++ '\n' :: (second ++ ['\n'])) =
        (front ++ '\n' :: first) ++ '\n' :: second ++ ['\n'] := by simp
  rw [hends, hlast, hlast] at hends'
  obtain ⟨habove, hmarked⟩ :=
    append_cons_inj (List.append_cancel_right hends')
      (.inr ⟨h.single.2, h'.single.2⟩)
  exact ⟨(append_cons_inj habove (.inr ⟨h.single.1, h'.single.1⟩)).2, hmarked⟩

/-- A report shows a word at the place of its error in one column only, and its
caret in one column only. -/
theorem SeenAt.unique
    (h : error.SeenAt source word lead shown marked column caret)
    (h' : error.SeenAt source word lead' shown' marked' column' caret')
    (hne : word ≠ []) :
    lead = lead' ∧ column = column' ∧ caret = caret' := by
  have hlead := h.lead_eq h' hne
  obtain ⟨hshown, hmarked⟩ := h.lines_eq h'
  subst hlead hshown hmarked
  refine ⟨rfl, ?_, ?_⟩
  · obtain ⟨number, _, rest, hshown, rfl, rfl⟩ := h.token
    obtain ⟨number', _, rest', hshown', rfl, rfl⟩ := h'.token
    have hnumbers :
        (toString number).toList ++ ' ' ::
            ("| ".toList ++ trimSpaces lead ++ (word ++ rest)) =
          (toString number').toList ++ ' ' ::
            ("| ".toList ++ trimSpaces lead ++ (word ++ rest')) := by
      have heq := hshown.symm.trans hshown'
      simpa using heq
    obtain ⟨hnumber, -⟩ := append_cons_inj hnumbers
      (.inl ⟨notMem_toString (by decide) number,
        notMem_toString (by decide) number'⟩)
    rw [hnumber]
  · obtain ⟨left, right, hmarked, hleft, rfl⟩ := h.points
    obtain ⟨left', right', hmarked', hleft', rfl⟩ := h'.points
    rw [(append_cons_inj (hmarked.symm.trans hmarked') (.inl ⟨hleft, hleft'⟩)).1]

end

/-- Where a report shows a word, its caret is behind the start of the word by
the bytes that the lead has more than characters. -/
theorem exists_seenAt {error : ParseError} {source : String} {place : LinePlace}
    {word lead : List Char}
    (hplace : placeAt source.toList error.position.offset = place)
    (h : ShowsAt source.toList word error.position.offset place.number
      place.text lead (sourceLine place) (caretColumn place)) :
    ∃ column,
      error.SeenAt source word lead (sourceLine place) (caretLine place) column
        (column + (width lead - lead.length)) := by
  have hexcerpt := isExcerpt_report hplace
  obtain ⟨before, after, hlines, -, hoffset⟩ := h.stands
  obtain ⟨rest, hline⟩ := h.continues
  obtain ⟨left, trimmed, hshown, hcolumn, hleft⟩ := h.shows
  obtain ⟨dashes, hmarked, hdashes, -, hcaret⟩ := exists_caretLine_eq place
  have hbehind : dashes.length = left.length + (width lead - lead.length) := by
    have hbar : width " | ".toList = 3 ∧ " | ".length = 3 := by decide
    have hwidth := width_eq_indentation_add lead
    have hlength := length_eq_indentation_add lead
    have hle := length_le_width (trimSpaces lead)
    rw [hcaret, ← hcolumn, hleft]
    simp only [width_append, List.length_append, width_toString,
      String.length_toList]
    omega
  refine ⟨left.length, ?_⟩
  constructor
  · exact ⟨before, rest, after, hline ▸ hlines, hoffset⟩
  · exact hexcerpt.ends
  · exact hexcerpt.single
  · exact ⟨place.number, left, trimmed, hshown, rfl, hleft⟩
  · exact ⟨dashes, [], hmarked, hdashes, hbehind⟩

end ParseError

/-- The report of an error of a parser shows the token that is blamed. -/
theorem exists_showsAt_of_parseWith_eq_error {g : Grammar} {source : String}
    {file : Option String} {error : ParseError} {word : String}
    (h : parseWith g source file = .error error)
    (hfound : error.fault.found? = some word) :
    word.toList ≠ [] ∧
    ∃ place lead,
      placeAt source.toList error.position.offset = place ∧
      ShowsAt source.toList word.toList error.position.offset place.number
        place.text lead (sourceLine place) (caretColumn place) := by
  obtain ⟨i, hblames⟩ := exists_blames_of_parseWith_eq_error h
  obtain ⟨token, hget, rfl, hoffset⟩ := hblames.token word hfound
  have htokens := isTokenization_tokenize source file
  have hmem := List.mem_of_getElem? hget
  obtain ⟨-, front, back, hsource, hfront, -⟩ := htokens.slices token hmem
  obtain ⟨hne, hblank⟩ := htokens.notBlank token hmem
  obtain ⟨place, lead, hplace, -, hshows⟩ := exists_showsAt hne hblank front back
  rw [← hsource, hfront, ← hoffset] at hplace hshows
  exact ⟨hne, place, lead, hplace, hshows⟩

/-- The report of an error of a parser shows the token that is blamed, and the
caret is behind the start of the token by the bytes that the characters in front
of it in its line have more than one. So it is under the token exactly if all
these characters are one byte wide. -/
theorem seenAt_of_parseWith_eq_error {g : Grammar} {source : String}
    {file : Option String} {error : ParseError} {word : String}
    (h : parseWith g source file = .error error)
    (hfound : error.fault.found? = some word) :
    (∃ lead shown marked column caret,
      error.SeenAt source word.toList lead shown marked column caret) ∧
      ∀ lead shown marked column caret,
        error.SeenAt source word.toList lead shown marked column caret →
        caret = column + (width lead - lead.length) ∧
        (caret = column ↔ ∀ c ∈ lead, c.utf8Size = 1) := by
  obtain ⟨hne, place, lead, hplace, hshows⟩ :=
    exists_showsAt_of_parseWith_eq_error h hfound
  obtain ⟨column, hseen⟩ := exists_seenAt hplace hshows
  refine ⟨⟨_, _, _, _, _, hseen⟩, fun other shown marked column' caret hother => ?_⟩
  obtain ⟨rfl, rfl, rfl⟩ := hseen.unique hother hne
  refine ⟨rfl, ?_⟩
  have hle := length_le_width lead
  rw [← width_eq_length_iff]
  omega

/-- A report on ASCII characters, and one on a letter of two bytes in
front of the token. -/
theorem seenAt_ascii_and_wide :
    ((∃ lead shown marked column caret,
      ParseError.SeenAt ⟨.mismatchedDelimiter ")" (some "1"), ⟨5, "shell"⟩⟩
        "2*(3 1)" "1".toList lead shown marked column caret) ∧
      ∀ lead shown marked column caret,
        ParseError.SeenAt ⟨.mismatchedDelimiter ")" (some "1"), ⟨5, "shell"⟩⟩
          "2*(3 1)" "1".toList lead shown marked column caret →
        caret = column + (width lead - lead.length) ∧
        (caret = column ↔ ∀ c ∈ lead, c.utf8Size = 1)) ∧
    (∃ lead shown marked column caret,
      ParseError.SeenAt ⟨.unexpectedToken "1", ⟨3, "shell"⟩⟩ "é 1" "1".toList
        lead shown marked column caret) ∧
      ∀ lead shown marked column caret,
        ParseError.SeenAt ⟨.unexpectedToken "1", ⟨3, "shell"⟩⟩ "é 1" "1".toList
          lead shown marked column caret →
        caret = column + (width lead - lead.length) ∧
        (caret = column ↔ ∀ c ∈ lead, c.utf8Size = 1) := by
  have hascii :
      parseWith .arithmetic "2*(3 1)" =
        .error ⟨.mismatchedDelimiter ")" (some "1"), ⟨5, "shell"⟩⟩ := by
    decide +kernel
  have hwide :
      parseWith .arithmetic "é 1" =
        .error ⟨.unexpectedToken "1", ⟨3, "shell"⟩⟩ := by
    decide +kernel
  exact ⟨seenAt_of_parseWith_eq_error hascii rfl,
    seenAt_of_parseWith_eq_error hwide rfl⟩

/-- The caret need not be under the token: in the report on `é 1` it is in
the column behind. -/
theorem not_forall_seenAt_eq :
    ¬ ∀ (source : String) (error : ParseError) (word : String)
      (lead shown marked : List Char) (column caret : Nat),
      parse source = .error error →
      error.fault.found? = some word →
      error.SeenAt source word.toList lead shown marked column caret →
      caret = column := by
  intro h
  have hparse : parse "é 1" = .error ⟨.unexpectedToken "1", ⟨3, "shell"⟩⟩ := by
    decide +kernel
  have hplace : placeAt "é 1".toList 3 = ⟨1, "é 1".toList, 3⟩ := by decide
  have hshown : sourceLine ⟨1, "é 1".toList, 3⟩ = "1 | é 1".toList := by decide
  have hmarked : caretLine ⟨1, "é 1".toList, 3⟩ = "  | ---^".toList := by decide
  have hexcerpt :
      IsExcerpt
        (ParseError.report ⟨.unexpectedToken "1", ⟨3, "shell"⟩⟩ "é 1").toList _ _
        (sourceLine ⟨1, "é 1".toList, 3⟩) (caretLine ⟨1, "é 1".toList, 3⟩) _ :=
    isExcerpt_report hplace
  rw [hshown, hmarked] at hexcerpt
  have hseen :
      ParseError.SeenAt ⟨.unexpectedToken "1", ⟨3, "shell"⟩⟩ "é 1" "1".toList
        "é ".toList "1 | é 1".toList "  | ---^".toList 6 7 := by
    constructor
    · exact ⟨[], [], [], by decide, by decide⟩
    · exact hexcerpt.ends
    · exact hexcerpt.single
    · exact ⟨1, "1 | é ".toList, [], rfl, rfl, by decide⟩
    · exact ⟨"  | ---".toList, [], rfl, by decide, rfl⟩
  cases h _ _ _ _ _ _ _ _ hparse rfl hseen

end Pratt
