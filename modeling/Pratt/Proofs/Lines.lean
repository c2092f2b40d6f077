import Pratt.Text.Line

set_option autoImplicit false

/-!
# Where the lines of a text stand

A piece of a text that holds no line feed is inside one line. The lines in front
of it end with the line feeds in front of it, so its line is numbered by them
(`exists_linesOf_append`).

An offset inside a line is a place in this line (`placeIn_append_of_lt`), and
any offset behind the last line is at its end
(`placeIn_append_singleton_of_le`).
-/

namespace Pratt

/-! ## Cutting into lines -/

/-- A character that ends no line is in front of what the rest of its line
holds. -/
theorem linesOf_cons_of_ne {c : Char} (h : c ≠ '\n') (rest : List Char) :
    linesOf (c :: rest) =
      (c :: (linesOf rest).headD []) :: (linesOf rest).tail := by
  rw [linesOf, if_neg h]
  cases linesOf rest with
  | nil => rfl
  | cons line lines => rfl

theorem linesOf_append_of_notMem {part : List Char} (hne : part ≠ [])
    (hpart : '\n' ∉ part) (back : List Char) :
    linesOf (part ++ back) =
      (part ++ (linesOf back).headD []) :: (linesOf back).tail := by
  induction part with
  | nil => exact absurd rfl hne
  | cons c part ih =>
    have hc : c ≠ '\n' := (List.ne_of_not_mem_cons hpart).symm
    rw [List.cons_append, linesOf_cons_of_ne hc]
    cases part with
    | nil => rfl
    | cons d part =>
      rw [ih (List.cons_ne_nil d part) (List.not_mem_of_not_mem_cons hpart)]
      rfl

/-- A line feed is nowhere but at the end of a line. -/
theorem newline_notMem_dropLast {text line : List Char}
    (h : line ∈ linesOf text) : '\n' ∉ line.dropLast := by
  induction text generalizing line with
  | nil => cases h
  | cons c rest ih =>
    rw [linesOf] at h
    split at h
    · rcases List.mem_cons.mp h with rfl | hmem
      · exact List.not_mem_nil
      · exact ih hmem
    · next hc =>
      split at h
      · obtain rfl := List.mem_singleton.mp h
        exact List.not_mem_nil
      · next first lines heq =>
        rcases List.mem_cons.mp h with rfl | hmem
        · have hfirst : '\n' ∉ first.dropLast := ih (heq ▸ List.mem_cons_self)
          cases first with
          | nil => exact List.not_mem_nil
          | cons d first =>
            exact List.not_mem_cons_of_ne_of_not_mem (Ne.symm hc) hfirst
        · exact ih (heq ▸ List.mem_cons_of_mem first hmem)

/-- A part of a text that holds no line feed stands in one line. In front of
this line there are as many lines as there are line feeds. -/
theorem exists_linesOf_append {part : List Char} (hne : part ≠ [])
    (hpart : '\n' ∉ part) (front back : List Char) :
    ∃ before lead rest after,
      linesOf (front ++ (part ++ back)) =
        before ++ (lead ++ (part ++ rest)) :: after ∧
      before.flatten ++ lead = front ∧ before.length = front.count '\n' := by
  induction front with
  | nil =>
    refine ⟨[], [], (linesOf back).headD [], (linesOf back).tail, ?_, rfl, rfl⟩
    rw [List.nil_append, linesOf_append_of_notMem hne hpart]
    rfl
  | cons c front ih =>
    obtain ⟨before, lead, rest, after, hlines, hfront, hcount⟩ := ih
    by_cases hc : c = '\n'
    · refine ⟨[c] :: before, lead, rest, after, ?_, ?_, ?_⟩
      · rw [List.cons_append, linesOf, if_pos hc, hlines]
        rfl
      · rw [List.flatten_cons, List.append_assoc, hfront]
        rfl
      · rw [hc, List.count_cons_self, ← hcount]
        rfl
    · rw [List.cons_append, linesOf_cons_of_ne hc, hlines,
        List.count_cons_of_ne hc, ← hcount, ← hfront]
      -- the character belongs to the first line, which may be the one that
      -- the part stands in
      cases before with
      | nil => exact ⟨[], c :: lead, rest, after, rfl, rfl, rfl⟩
      | cons first before =>
        exact ⟨(c :: first) :: before, lead, rest, after, rfl, rfl, rfl⟩

/-! ## Places -/

theorem placeIn_cons_of_lt {position : Nat} {line : List Char}
    (h : position < width line) (number : Nat) (lines : List (List Char)) :
    placeIn number position (line :: lines) = ⟨number, line, position⟩ := by
  cases lines with
  | nil => exact if_pos h
  | cons next lines => exact if_pos h

theorem placeIn_cons_of_le {position : Nat} {line : List Char}
    (h : width line ≤ position) (number : Nat) {lines : List (List Char)}
    (hne : lines ≠ []) :
    placeIn number position (line :: lines) =
      placeIn (number + 1) (position - width line) lines := by
  cases lines with
  | nil => exact absurd rfl hne
  | cons next lines => exact if_neg (Nat.not_lt.mpr h)

/-- Lines are passed that end in front of the offset. -/
theorem placeIn_append (before : List (List Char)) {lines : List (List Char)}
    (hne : lines ≠ []) (number offset : Nat) :
    placeIn number (width before.flatten + offset) (before ++ lines) =
      placeIn (number + before.length) offset lines := by
  induction before generalizing number with
  | nil =>
    rw [List.flatten_nil, width_nil, Nat.zero_add, List.nil_append,
      List.length_nil, Nat.add_zero]
  | cons first before ih =>
    have hle : width first ≤ width (first :: before).flatten + offset := by
      rw [List.flatten_cons, width_append]
      omega
    have hrest :
        width (first :: before).flatten + offset - width first =
          width before.flatten + offset := by
      rw [List.flatten_cons, width_append]
      omega
    rw [List.cons_append, placeIn_cons_of_le hle number
      (List.append_ne_nil_of_right_ne_nil before hne), hrest, ih,
      List.length_cons, Nat.add_assoc, Nat.add_comm 1]

/-- An offset inside a line is a place in this line. -/
theorem placeIn_append_of_lt {line : List Char} {offset : Nat}
    (h : offset < width line) (before after : List (List Char)) (number : Nat) :
    placeIn number (width before.flatten + offset) (before ++ line :: after) =
      ⟨number + before.length, line, offset⟩ := by
  rw [placeIn_append before (List.cons_ne_nil line after), placeIn_cons_of_lt h]

/-- An offset behind all lines is at the end of the last one, in front of its
line feed. -/
theorem placeIn_append_singleton_of_le {before : List (List Char)}
    {last : List Char} {position : Nat}
    (h : width (before ++ [last]).flatten ≤ position) (number : Nat) :
    placeIn number position (before ++ [last]) =
      ⟨number + before.length, last, width (last.filter (· ≠ '\n'))⟩ := by
  rw [List.flatten_append, width_append, List.flatten_singleton] at h
  obtain ⟨offset, rfl⟩ := Nat.exists_eq_add_of_le (Nat.le_of_add_right_le h)
  rw [placeIn_append before (List.cons_ne_nil last [])]
  exact if_neg (by omega)

theorem text_placeIn_mem {lines : List (List Char)} (hne : lines ≠ [])
    (number position : Nat) :
    (placeIn number position lines).text ∈ lines := by
  induction lines generalizing number position with
  | nil => exact absurd rfl hne
  | cons line lines ih =>
    rcases Nat.lt_or_ge position (width line) with hlt | hle
    · rw [placeIn_cons_of_lt hlt]
      exact List.mem_cons_self
    · cases lines with
      | nil =>
        rw [placeIn, if_neg (Nat.not_lt.mpr hle)]
        exact List.mem_cons_self
      | cons next lines =>
        rw [placeIn_cons_of_le hle number (List.cons_ne_nil next lines)]
        exact List.mem_cons_of_mem line (ih (List.cons_ne_nil next lines) _ _)

/-- The line of a place holds no line feed but at its end. -/
theorem newline_notMem_dropLast_placeAt (text : List Char) (position : Nat) :
    '\n' ∉ (placeAt text position).text.dropLast := by
  rw [placeAt]
  cases hlines : linesOf text with
  | nil => exact List.not_mem_nil
  | cons line lines =>
    apply newline_notMem_dropLast
    rw [hlines]
    exact text_placeIn_mem (List.cons_ne_nil line lines) 1 position

/-- A part of a line is placed behind the characters that lead up to it. -/
theorem placeAt_of_linesOf_eq {text lead part rest : List Char}
    {before after : List (List Char)} (hne : part ≠ [])
    (hlines : linesOf text = before ++ (lead ++ (part ++ rest)) :: after) :
    placeAt text (width before.flatten + width lead) =
      ⟨1 + before.length, lead ++ (part ++ rest), width lead⟩ := by
  have hlt : width lead < width (lead ++ (part ++ rest)) := by
    have hpos := length_le_width part
    have := List.length_pos_iff.mpr hne
    simp only [width_append]
    omega
  rw [placeAt, hlines, placeIn_append_of_lt hlt]

/-- A part of a text that holds no line feed is placed in its line, behind the
characters that lead up to it. -/
theorem exists_placeAt_append {part : List Char} (hne : part ≠ [])
    (hpart : '\n' ∉ part) (front back : List Char) :
    ∃ before lead rest after,
      linesOf (front ++ (part ++ back)) =
        before ++ (lead ++ (part ++ rest)) :: after ∧
      before.flatten ++ lead = front ∧ before.length = front.count '\n' ∧
      placeAt (front ++ (part ++ back)) (width front) =
        ⟨1 + before.length, lead ++ (part ++ rest), width lead⟩ := by
  obtain ⟨before, lead, rest, after, hlines, rfl, hcount⟩ :=
    exists_linesOf_append hne hpart front back
  refine ⟨before, lead, rest, after, hlines, rfl, hcount, ?_⟩
  rw [width_append, placeAt_of_linesOf_eq hne hlines]

/-- The end of a text is placed at the end of its last line. Without lines it is
placed in an empty one. -/
theorem placeAt_of_le {text : List Char} {position : Nat}
    (h : width text ≤ position) :
    placeAt text position =
      ⟨max 1 (linesOf text).length, (linesOf text).getLastD [],
        width (((linesOf text).getLastD []).filter (· ≠ '\n'))⟩ := by
  have hflatten := flatten_linesOf text
  rw [placeAt]
  rcases List.eq_nil_or_concat (linesOf text) with hlines | ⟨before, last, hlines⟩
  · rw [hlines]
    rfl
  · rw [List.concat_eq_append] at hlines
    rw [hlines] at hflatten ⊢
    rw [placeIn_append_singleton_of_le (hflatten.symm ▸ h),
      List.getLastD_concat, List.length_append, List.length_singleton,
      Nat.add_comm 1, Nat.max_eq_right (Nat.le_add_left 1 _)]

end Pratt
