import Mathlib.Data.Prod.Lex
import Mathlib.Order.Monotone.Defs
import Pratt.Proofs.Lines

set_option autoImplicit false

/-!
# Every place in a text

A place is told by the number of a line and an offset in this line.
`placeAt_tells` says for all offsets into a text which line and which offset
these are: inside the text, the line is numbered by the line feeds that start in
front of the place, and the lines in front of it and the offset in it add up to
the place; behind the text, it is the end of the last line. So places are in the
order of their offsets.

An offset may lie inside a character of several bytes. The line feeds in front
of it are therefore counted among the characters that start there
(`startingBefore`); a line feed takes one byte, so no offset lies inside one.
-/

namespace Pratt

/-! ## Cutting after line feeds -/

/-- The pieces are those of a text that is cut after each line feed. -/
structure AreLines (text : List Char) (lines : List (List Char)) : Prop where
  /-- Nothing is lost. -/
  flatten : lines.flatten = text
  ne_nil : ∀ line ∈ lines, line ≠ []
  /-- It is cut after each line feed. -/
  inside : ∀ line ∈ lines, '\n' ∉ line.dropLast
  /-- It is cut nowhere else. -/
  ended : ∀ line ∈ lines.dropLast, line.getLast? = some '\n'

theorem ne_nil_of_mem_linesOf {text line : List Char}
    (h : line ∈ linesOf text) : line ≠ [] := by
  induction text generalizing line with
  | nil => cases h
  | cons c rest ih =>
    by_cases hc : c = '\n'
    · rw [linesOf, if_pos hc] at h
      rcases List.mem_cons.mp h with rfl | hmem
      · exact List.cons_ne_nil c []
      · exact ih hmem
    · rw [linesOf_cons_of_ne hc] at h
      rcases List.mem_cons.mp h with rfl | hmem
      · exact List.cons_ne_nil c _
      · exact ih (List.mem_of_mem_tail hmem)

/-- Every line but the last one ends with a line feed. -/
theorem getLast?_of_mem_dropLast_linesOf {text line : List Char}
    (h : line ∈ (linesOf text).dropLast) :
    line.getLast? = some '\n' := by
  induction text generalizing line with
  | nil => cases h
  | cons c rest ih =>
    rw [linesOf] at h
    split at h
    · next hc =>
      cases hlines : linesOf rest with
      | nil => simp [hlines] at h
      | cons first lines =>
        rw [hlines, List.dropLast_cons_cons, ← hlines] at h
        rcases List.mem_cons.mp h with rfl | hmem
        · rw [hc, List.getLast?_singleton]
        · exact ih hmem
    · split at h
      · simp at h
      · next first lines hlines =>
        cases lines with
        | nil => simp at h
        | cons second lines =>
          rw [List.dropLast_cons_cons] at h
          rcases List.mem_cons.mp h with rfl | hmem
          · have hfirst : first.getLast? = some '\n' := by
              apply ih
              rw [hlines, List.dropLast_cons_cons]
              exact List.mem_cons_self
            rw [List.getLast?_cons, hfirst, Option.getD_some]
          · apply ih
            rw [hlines, List.dropLast_cons_cons]
            exact List.mem_cons_of_mem first hmem

theorem areLines_linesOf (text : List Char) : AreLines text (linesOf text) where
  flatten := flatten_linesOf text
  ne_nil _ := ne_nil_of_mem_linesOf
  inside _ := newline_notMem_dropLast
  ended _ := getLast?_of_mem_dropLast_linesOf

/-- As many lines as end with line feeds hold as many of them. -/
theorem count_newline_flatten {lines : List (List Char)}
    (hinside : ∀ line ∈ lines, '\n' ∉ line.dropLast)
    (hended : ∀ line ∈ lines, line.getLast? = some '\n') :
    lines.flatten.count '\n' = lines.length := by
  induction lines with
  | nil => rfl
  | cons line lines ih =>
    obtain ⟨hline, hinside⟩ := List.forall_mem_cons.mp hinside
    obtain ⟨hlast, hended⟩ := List.forall_mem_cons.mp hended
    have hcount : line.count '\n' = 1 := by
      obtain ⟨front, rfl⟩ := List.getLast?_eq_some_iff.mp hlast
      rw [List.dropLast_concat] at hline
      rw [List.count_append, List.count_eq_zero_of_not_mem hline,
        List.count_singleton_self]
    rw [List.flatten_cons, List.count_append, hcount, ih hinside hended,
      List.length_cons, Nat.add_comm]

/-- A line without the line feed at its end. -/
def withoutLineFeed (line : List Char) : List Char :=
  if line.getLast? = some '\n' then line.dropLast else line

theorem filter_ne_newline {line : List Char} (h : '\n' ∉ line.dropLast) :
    line.filter (· ≠ '\n') = withoutLineFeed line := by
  rcases List.eq_nil_or_concat line with rfl | ⟨front, c, rfl⟩
  · rfl
  · rw [List.concat_eq_append] at h ⊢
    rw [List.dropLast_concat] at h
    have hfront : front.filter (· ≠ '\n') = front := by
      rw [List.filter_eq_self]
      intro d hd
      exact decide_eq_true fun heq => h (heq ▸ hd)
    rw [withoutLineFeed, List.getLast?_concat, List.dropLast_concat,
      List.filter_append, hfront]
    by_cases hc : c = '\n'
    · simp [hc]
    · simp [hc]

theorem le_width_withoutLineFeed {line : List Char} {offset : Nat}
    (h : offset < width line) :
    offset ≤ width (withoutLineFeed line) := by
  rw [withoutLineFeed]
  split
  · next hlast =>
    obtain ⟨front, rfl⟩ := List.getLast?_eq_some_iff.mp hlast
    rw [width_append] at h
    rw [List.dropLast_concat]
    exact Nat.le_of_lt_succ h
  · exact Nat.le_of_lt h

/-! ## What starts in front of an offset -/

/-- The characters of a text that start in front of an offset. -/
def startingBefore : Nat → List Char → List Char
  | _, [] => []
  | position, c :: rest =>
    if position = 0 then []
    else c :: startingBefore (position - c.utf8Size) rest

theorem startingBefore_zero (text : List Char) : startingBefore 0 text = [] := by
  cases text with
  | nil => rfl
  | cons c rest => rfl

theorem startingBefore_append (front back : List Char) (offset : Nat) :
    startingBefore (width front + offset) (front ++ back) =
      front ++ startingBefore offset back := by
  induction front with
  | nil => rw [width_nil, Nat.zero_add, List.nil_append, List.nil_append]
  | cons c front ih =>
    have hpos := c.utf8Size_pos
    have hrest :
        width (c :: front) + offset - c.utf8Size = width front + offset := by
      rw [width_cons]
      omega
    rw [List.cons_append, startingBefore, if_neg (by rw [width_cons]; omega),
      hrest, ih, List.cons_append]

/-- What starts in front of an offset starts in front of any larger one. -/
theorem startingBefore_mono {position later : Nat} (h : position ≤ later)
    (text : List Char) :
    startingBefore position text <+: startingBefore later text := by
  induction text generalizing position later with
  | nil => exact List.prefix_refl []
  | cons c rest ih =>
    by_cases hzero : position = 0
    · rw [hzero, startingBefore_zero]
      exact List.nil_prefix
    · rw [startingBefore, startingBefore, if_neg hzero, if_neg (by omega)]
      exact List.cons_prefix_cons.mpr ⟨rfl, ih (by omega)⟩

/-- In a line, no line feed starts in front of an offset. -/
theorem newline_notMem_startingBefore {line : List Char}
    (hline : '\n' ∉ line.dropLast) {offset : Nat} (h : offset < width line)
    (back : List Char) : '\n' ∉ startingBefore offset (line ++ back) := by
  induction line generalizing offset with
  | nil => cases h
  | cons c line ih =>
    rw [List.cons_append, startingBefore]
    split
    · exact List.not_mem_nil
    · next hpos =>
      cases line with
      | nil =>
        -- the offset lies inside the only character, which is no line feed then
        have hc : c ≠ '\n' := by
          rintro rfl
          exact hpos (Nat.lt_one_iff.mp h)
        have hzero : offset - c.utf8Size = 0 :=
          Nat.sub_eq_zero_of_le (Nat.le_of_lt h)
        rw [hzero, startingBefore_zero]
        exact List.not_mem_cons_of_ne_of_not_mem hc.symm List.not_mem_nil
      | cons d line =>
        rw [List.dropLast_cons_cons] at hline
        refine List.not_mem_cons_of_ne_of_not_mem (List.ne_of_not_mem_cons hline)
          (ih (List.not_mem_of_not_mem_cons hline) ?_)
        rw [width_cons] at h
        have := d.utf8Size_pos
        have : 0 < width (d :: line) :=
          Nat.lt_of_lt_of_le this (Nat.le_add_right _ _)
        omega

/-! ## Places in a text and behind it -/

/-- The place is told for an offset inside a text. -/
structure LinePlace.IsInside (place : LinePlace) (text : List Char)
    (position : Nat) : Prop where
  /-- The line feeds that start in front of the offset number the line. -/
  number : place.number = 1 + (startingBefore position text).count '\n'
  line : (linesOf text)[place.number - 1]? = some place.text
  offset_lt : place.offset < width place.text
  /-- The lines in front of the place and the offset in its line lead up to it. -/
  sum : width ((linesOf text).take (place.number - 1)).flatten + place.offset =
    position

/-- The place is told for the end of a text. -/
structure LinePlace.IsAtEnd (place : LinePlace) (text : List Char) : Prop where
  /-- Empty text counts as one empty line. -/
  empty : text = [] → place = ⟨1, [], 0⟩
  number : text ≠ [] → place.number = (linesOf text).length
  line : text ≠ [] → (linesOf text).getLast? = some place.text
  /-- The place is in front of the line feed that the text may end with. -/
  offset : place.offset = width (withoutLineFeed place.text)

/-- An offset into some lines lies in one of them. -/
theorem exists_eq_append_of_lt_width {lines : List (List Char)} {position : Nat}
    (h : position < width lines.flatten) : ∃ before line after offset,
      lines = before ++ line :: after ∧ offset < width line ∧
      position = width before.flatten + offset := by
  induction lines generalizing position with
  | nil => cases h
  | cons first lines ih =>
    rcases Nat.lt_or_ge position (width first) with hlt | hle
    · exact ⟨[], first, lines, position, rfl, hlt, (Nat.zero_add _).symm⟩
    · rw [List.flatten_cons, width_append] at h
      have hrest : position - width first < width lines.flatten := by omega
      obtain ⟨before, line, after, offset, rfl, hlt, hposition⟩ := ih hrest
      refine ⟨first :: before, line, after, offset, rfl, hlt, ?_⟩
      rw [List.flatten_cons, width_append]
      omega

theorem isInside_placeAt {text : List Char} {position : Nat}
    (h : position < width text) :
    (placeAt text position).IsInside text position := by
  have hflatten := flatten_linesOf text
  rw [← hflatten] at h
  obtain ⟨before, line, after, offset, hlines, hlt, rfl⟩ :=
    exists_eq_append_of_lt_width h
  have hplace :
      placeAt text (width before.flatten + offset) =
        ⟨1 + before.length, line, offset⟩ := by
    rw [placeAt, hlines, placeIn_append_of_lt hlt]
  have hmem : ∀ part, part ∈ before ∨ part = line → part ∈ linesOf text := by
    rw [hlines]
    rintro part (hbefore | rfl)
    · exact List.mem_append_left _ hbefore
    · exact List.mem_append_right _ List.mem_cons_self
  -- all lines in front of this one end with a line feed, and it holds none in
  -- front of the offset
  have hended : ∀ part ∈ before, part.getLast? = some '\n' := by
    intro part hpart
    have hdropLast : part ∈ (linesOf text).dropLast := by
      rw [hlines, List.dropLast_append_of_ne_nil (List.cons_ne_nil line after)]
      exact List.mem_append_left _ hpart
    exact getLast?_of_mem_dropLast_linesOf hdropLast
  have hcount :
      (startingBefore (width before.flatten + offset) text).count '\n' =
        before.length := by
    have hnone := newline_notMem_startingBefore
      (newline_notMem_dropLast (hmem line (.inr rfl))) hlt after.flatten
    rw [← hflatten, hlines, List.flatten_append, List.flatten_cons,
      startingBefore_append, List.count_append,
      List.count_eq_zero_of_not_mem hnone, Nat.add_zero]
    exact count_newline_flatten
      (fun part hpart => newline_notMem_dropLast (hmem part (.inl hpart)))
      hended
  rw [hplace]
  refine ⟨?_, ?_, hlt, ?_⟩
  · rw [hcount]
  · simp only [hlines, Nat.add_sub_cancel_left,
      List.getElem?_append_right (Nat.le_refl before.length), Nat.sub_self,
      List.getElem?_cons_zero]
  · simp only [hlines, Nat.add_sub_cancel_left, List.take_left]

theorem linesOf_ne_nil {text : List Char} (h : text ≠ []) : linesOf text ≠ [] := by
  intro hnil
  have hflatten := flatten_linesOf text
  rw [hnil] at hflatten
  exact h hflatten.symm

theorem isAtEnd_placeAt {text : List Char} {position : Nat}
    (h : width text ≤ position) :
    (placeAt text position).IsAtEnd text := by
  have hline := newline_notMem_dropLast_placeAt text position
  rw [placeAt_of_le h] at hline ⊢
  refine ⟨?_, ?_, ?_, congrArg width (filter_ne_newline hline)⟩
  · rintro rfl
    rfl
  · intro hne
    exact Nat.max_eq_right (List.length_pos_iff.mpr (linesOf_ne_nil hne))
  · intro hne
    rw [List.getLast?_eq_some_getLast (linesOf_ne_nil hne),
      List.getLastD_eq_getLast?,
      List.getLast?_eq_some_getLast (linesOf_ne_nil hne), Option.getD_some]

/-! ## The order of places -/

theorem LinePlace.IsInside.le {text : List Char} {position later : Nat}
    {place next : LinePlace} (h : place.IsInside text position)
    (hnext : next.IsInside text later) (hle : position ≤ later) :
    place.number < next.number ∨
    place.number = next.number ∧ place.offset ≤ next.offset := by
  have hcount := (startingBefore_mono hle text).sublist.count_le '\n'
  have hnumber : place.number ≤ next.number := by
    rw [h.number, hnext.number]
    omega
  rcases Nat.lt_or_eq_of_le hnumber with hlt | heq
  · exact .inl hlt
  · have hsum := h.sum
    have hsum' := hnext.sum
    rw [heq] at hsum
    exact .inr ⟨heq, by omega⟩

/-- The end of a text is behind every place in it. -/
theorem LinePlace.IsInside.le_end {text : List Char} {position : Nat}
    {place last : LinePlace} (h : place.IsInside text position)
    (hlast : last.IsAtEnd text) :
    place.number < last.number ∨
    place.number = last.number ∧ place.offset ≤ last.offset := by
  obtain ⟨hlt, -⟩ := List.getElem?_eq_some_iff.mp h.line
  have hpos : 0 < place.number := by
    rw [h.number]
    omega
  have hne : text ≠ [] := by
    rintro rfl
    cases hlt
  have hlength := hlast.number hne
  rcases Nat.lt_or_ge place.number last.number with hbefore | hbehind
  · exact .inl hbefore
  · -- the place is in the last line
    have hnumber : place.number = last.number := by omega
    have htext : place.text = last.text := by
      have hline := h.line
      rw [hnumber, hlength, ← List.getLast?_eq_getElem?, hlast.line hne] at hline
      exact (Option.some.inj hline).symm
    refine .inr ⟨hnumber, ?_⟩
    rw [hlast.offset, ← htext]
    exact le_width_withoutLineFeed h.offset_lt

theorem placeAt_le {text : List Char} {position later : Nat}
    (h : position ≤ later) :
    (placeAt text position).number < (placeAt text later).number ∨
      (placeAt text position).number = (placeAt text later).number ∧
        (placeAt text position).offset ≤ (placeAt text later).offset := by
  rcases Nat.lt_or_ge later (width text) with hlater | hlater
  · exact (isInside_placeAt (Nat.lt_of_le_of_lt h hlater)).le
      (isInside_placeAt hlater) h
  · rcases Nat.lt_or_ge position (width text) with hposition | hposition
    · exact (isInside_placeAt hposition).le_end (isAtEnd_placeAt hlater)
    · rw [placeAt_of_le hposition, placeAt_of_le hlater]
      exact .inr ⟨rfl, Nat.le_refl _⟩

/-- Every offset is placed in a line: inside the text in the one that it lies
in, and behind the text at the end of the last one. Larger offsets are never
placed in front of smaller ones. -/
theorem placeAt_tells (text : List Char) :
    AreLines text (linesOf text) ∧
      (∀ position < width text, (placeAt text position).IsInside text position) ∧
      (∀ position ≥ width text, (placeAt text position).IsAtEnd text) ∧
      Monotone fun position =>
        toLex ((placeAt text position).number, (placeAt text position).offset) :=
  ⟨areLines_linesOf text, fun _ => isInside_placeAt, fun _ => isAtEnd_placeAt,
    fun _ _ h => Prod.Lex.toLex_le_toLex.mpr (placeAt_le h)⟩

/-- An offset inside the second character, which takes two bytes, and one far
behind the last line feed. -/
theorem placeAt_tells_wide_and_end :
    LinePlace.IsInside ⟨2, ['é', 'b', '\n'], 1⟩ ['\n', 'é', 'b', '\n'] 2 ∧
      LinePlace.IsAtEnd ⟨2, ['é', 'b', '\n'], 3⟩ ['\n', 'é', 'b', '\n'] := by
  obtain ⟨-, hinside, hend, -⟩ := placeAt_tells ['\n', 'é', 'b', '\n']
  exact ⟨hinside 2 (by decide), hend 4294967305 (by decide)⟩

end Pratt
