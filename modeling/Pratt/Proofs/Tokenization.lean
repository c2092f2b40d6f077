import Mathlib.Data.List.Chain
import Pratt.Proofs.Layout

set_option autoImplicit false

/-!
# Where the tokens of a text stand

`IsTokenization` says of some tokens that they are all the tokens of a
text, without a scanner: their stretches are in order, what stands
between them is blank, and each of them is one character or a whole
word. `tokenize_eq_iff_isTokenization` tells that a scanner gives these
tokens and no others.

A scanner goes through the text from front to back, so the conditions are taken
apart into those on the next token (`IsNext`) and those on the tokens behind it
(`isTokenization_cons_iff`). The next token is the one that is cut off
(`Scanner.fst_scan_eq_some_iff`).
-/

namespace Pratt

/-! ## Parts of a text -/

/-- The part stands in the text between two offsets. -/
def IsSlice (text : List Char) (start stop : Nat) (part : List Char) : Prop :=
  ∃ front back,
    text = front ++ (part ++ back) ∧ width front = start ∧
    start + width part = stop

/-- A text is divided at an offset in one way only. -/
theorem append_inj_of_width_eq {front front' back back' : List Char}
    (h : front ++ back = front' ++ back')
    (hwidth : width front = width front') : front = front' ∧ back = back' := by
  induction front generalizing front' with
  | nil =>
    cases front' with
    | nil => exact ⟨rfl, h⟩
    | cons c front' =>
      have := c.utf8Size_pos
      simp only [width_nil, width_cons] at hwidth
      omega
  | cons c front ih =>
    cases front' with
    | nil =>
      have := c.utf8Size_pos
      simp only [width_nil, width_cons] at hwidth
      omega
    | cons d front' =>
      obtain ⟨rfl, htail⟩ := List.cons.inj h
      obtain ⟨rfl, hback⟩ := ih htail (Nat.add_left_cancel hwidth)
      exact ⟨rfl, hback⟩

/-- What stands behind the front of a text is a front of what follows. -/
theorem isSlice_append_iff {front rest part : List Char} {stop : Nat} :
    IsSlice (front ++ rest) (width front) stop part ↔
      ∃ back, rest = part ++ back ∧ width front + width part = stop := by
  constructor
  · rintro ⟨front', back, htext, hwidth, hstop⟩
    obtain ⟨rfl, hrest⟩ := append_inj_of_width_eq htext hwidth.symm
    exact ⟨back, hrest, hstop⟩
  · rintro ⟨back, rfl, hstop⟩
    exact ⟨front, back, rfl, rfl, hstop⟩

/-- Nothing but white space stands between two offsets. -/
def IsGap (text : List Char) (start stop : Nat) : Prop :=
  ∃ gap, IsSlice text start stop gap ∧ ∀ c ∈ gap, isBlank c = true

theorem IsGap.le {text : List Char} {start stop : Nat}
    (h : IsGap text start stop) : start ≤ stop := by
  obtain ⟨gap, ⟨front, back, -, -, hstop⟩, -⟩ := h
  omega

/-- A text of one character that is neither white space nor part of a word. -/
def IsSymbol (part : List Char) : Prop :=
  ∃ c, part = [c] ∧ isBlank c = false ∧ isWordChar c = false

/-- A nonempty text of word characters. -/
def IsWord (part : List Char) : Prop := part ≠ [] ∧ ∀ c ∈ part, isWordChar c = true

/-- The part is a word, and the text has no word character right in front of it
or right behind it. -/
structure IsWholeWord (text : List Char) (start stop : Nat)
    (part : List Char) : Prop where
  word : IsWord part
  before : ∀ c offset, IsSlice text offset start [c] → isWordChar c = false
  behind : ∀ c offset, IsSlice text stop offset [c] → isWordChar c = false

/-! ## All tokens of a text -/

/-- The stretches that are left free by some tokens between two offsets. -/
def stretchesBetween (start stop : Nat) (tokens : List Token) : List (Nat × Nat) :=
  (start :: tokens.map fun token => token.span.stop).zip
    ((tokens.map fun token => token.span.start) ++ [stop])

/-- The tokens are all those of a text that stand behind an offset, and they
bear the name of its source. -/
structure IsTokenization (text : List Char) (file : String) (start : Nat)
    (tokens : List Token) : Prop where
  files : ∀ token ∈ tokens, token.span.file = file
  slices : ∀ token ∈ tokens,
    token.span.start < token.span.stop ∧
    IsSlice text token.span.start token.span.stop token.text.toList
  /-- The stretches are in order and do not overlap. -/
  ordered : tokens.Pairwise fun first second => first.span.stop ≤ second.span.start
  gaps : ∀ gap ∈ stretchesBetween start (width text) tokens, IsGap text gap.1 gap.2
  legal : ∀ token ∈ tokens, IsSymbol token.text.toList ∨
    IsWholeWord text token.span.start token.span.stop token.text.toList

/-- The token is the first one of a text behind an offset. -/
structure IsNext (text : List Char) (file : String) (start : Nat)
    (token : Token) : Prop where
  file : token.span.file = file
  lt : token.span.start < token.span.stop
  slice : IsSlice text token.span.start token.span.stop token.text.toList
  gap : IsGap text start token.span.start
  legal : IsSymbol token.text.toList ∨
    IsWholeWord text token.span.start token.span.stop token.text.toList

theorem isTokenization_nil_iff {text : List Char} {file : String} {start : Nat} :
    IsTokenization text file start [] ↔ IsGap text start (width text) := by
  constructor
  · intro h
    exact h.gaps (start, width text) (by simp [stretchesBetween])
  · intro h
    refine ⟨nofun, nofun, .nil, ?_, nofun⟩
    simpa [stretchesBetween] using h

/-- No token starts in front of the offset. -/
theorem IsTokenization.le_start {text : List Char} {file : String} {start : Nat}
    {tokens : List Token} (h : IsTokenization text file start tokens) :
    ∀ token ∈ tokens, start ≤ token.span.start := by
  cases tokens with
  | nil => nofun
  | cons first tokens =>
    have hfirst : start ≤ first.span.start :=
      (h.gaps (start, first.span.start) (by simp [stretchesBetween])).le
    have hlt := (h.slices first List.mem_cons_self).1
    intro token hmem
    rcases List.mem_cons.mp hmem with rfl | hmem
    · exact hfirst
    · have hle := (List.pairwise_cons.mp h.ordered).1 token hmem
      omega

/-- Each token starts behind the start of the one in front of it. -/
theorem IsTokenization.pairwise_start_lt {text : List Char} {file : String}
    {start : Nat} {tokens : List Token}
    (h : IsTokenization text file start tokens) :
    tokens.Pairwise fun first second => first.span.start < second.span.start := by
  refine h.ordered.imp_of_mem fun hmem _ hle => ?_
  have hlt := (h.slices _ hmem).1
  omega

/-- Each token starts in front of the end of the text. -/
theorem IsTokenization.start_lt_width {text : List Char} {file : String}
    {start : Nat} {tokens : List Token}
    (h : IsTokenization text file start tokens) :
    ∀ token ∈ tokens, token.span.start < width text := by
  intro token hmem
  obtain ⟨hlt, front, back, rfl, hstart, hstop⟩ := h.slices token hmem
  simp only [width_append]
  omega

theorem isTokenization_cons_iff {text : List Char} {file : String} {start : Nat}
    {token : Token} {tokens : List Token} :
    IsTokenization text file start (token :: tokens) ↔
      IsNext text file start token ∧
      IsTokenization text file token.span.stop tokens := by
  have hgaps :
      stretchesBetween start (width text) (token :: tokens) =
        (start, token.span.start) ::
          stretchesBetween token.span.stop (width text) tokens :=
    rfl
  constructor
  · intro h
    have hall := h.gaps
    rw [hgaps, List.forall_mem_cons] at hall
    obtain ⟨hfile, hfiles⟩ := List.forall_mem_cons.mp h.files
    obtain ⟨⟨hlt, hslice⟩, hslices⟩ := List.forall_mem_cons.mp h.slices
    obtain ⟨hlegal, hlegals⟩ := List.forall_mem_cons.mp h.legal
    exact ⟨⟨hfile, hlt, hslice, hall.1, hlegal⟩, hfiles, hslices,
      h.ordered.of_cons, hall.2, hlegals⟩
  · rintro ⟨hnext, hrest⟩
    refine ⟨?_, ?_, ?_, ?_, ?_⟩
    · exact List.forall_mem_cons.mpr ⟨hnext.file, hrest.files⟩
    · exact List.forall_mem_cons.mpr ⟨⟨hnext.lt, hnext.slice⟩, hrest.slices⟩
    · exact List.pairwise_cons.mpr ⟨hrest.le_start, hrest.ordered⟩
    · rw [hgaps, List.forall_mem_cons]
      exact ⟨hnext.gap, hrest.gaps⟩
    · exact List.forall_mem_cons.mpr ⟨hnext.legal, hrest.legal⟩

/-! ## Cutting off the next token -/

/-- The part is what a scanner cuts off a text that goes on with `back`. -/
def IsCut (part back : List Char) : Prop :=
  IsSymbol part ∨ IsWord part ∧ ∀ c, back.head? = some c → isWordChar c = false

theorem head?_dropWhile_eq_some {p : Char → Bool} {text : List Char} {c : Char}
    (h : (text.dropWhile p).head? = some c) : p c = false := by
  obtain ⟨rest, hrest⟩ := List.head?_eq_some_iff.mp h
  exact head_of_dropWhile_eq_cons hrest

theorem isCut_lexeme {c : Char} (h : isBlank c = false) (rest : List Char) :
    IsCut (lexeme (c :: rest)) (afterLexeme (c :: rest)) := by
  cases hword : isWordChar c with
  | false => exact .inl ⟨c, by simp [lexeme, hword], h, hword⟩
  | true =>
    have hall : ∀ d ∈ rest.takeWhile isWordChar, isWordChar d = true :=
      List.all_eq_true.mp List.all_takeWhile
    have hlexeme : lexeme (c :: rest) = c :: rest.takeWhile isWordChar := by
      simp [lexeme, hword]
    have hafter : afterLexeme (c :: rest) = rest.dropWhile isWordChar := by
      simp [afterLexeme, hword]
    rw [hlexeme, hafter]
    exact .inr ⟨⟨List.cons_ne_nil _ _, List.forall_mem_cons.mpr ⟨hword, hall⟩⟩,
      fun d hd => head?_dropWhile_eq_some hd⟩

/-- A word is taken as a whole. -/
theorem takeWhile_append_of_head? {p : Char → Bool} {word back : List Char}
    (hword : ∀ c ∈ word, p c = true)
    (hback : ∀ c, back.head? = some c → p c = false) :
    (word ++ back).takeWhile p = word ∧ (word ++ back).dropWhile p = back := by
  rw [List.takeWhile_append_of_pos hword, List.dropWhile_append_of_pos hword]
  cases back with
  | nil => simp
  | cons c back => simp [hback c rfl]

theorem IsCut.exists_eq_cons {part back : List Char} (h : IsCut part back) :
    ∃ c rest, part = c :: rest ∧ isBlank c = false := by
  rcases h with ⟨c, rfl, hblank, -⟩ | ⟨⟨hne, hall⟩, -⟩
  · exact ⟨c, [], rfl, hblank⟩
  · obtain ⟨c, rest, rfl⟩ := List.exists_cons_of_ne_nil hne
    exact ⟨c, rest, rfl, isBlank_eq_false_of_isWordChar (hall c List.mem_cons_self)⟩

theorem IsCut.not_forall_isBlank {part back : List Char} (h : IsCut part back)
    (gap : List Char) :
    ¬ ∀ c ∈ gap ++ (part ++ back), isBlank c = true := by
  obtain ⟨c, rest, rfl, hc⟩ := h.exists_eq_cons
  intro hblank
  rw [hblank c (by simp)] at hc
  cases hc

theorem IsCut.lexeme_append {part back : List Char} (h : IsCut part back) :
    lexeme (part ++ back) = part ∧ afterLexeme (part ++ back) = back := by
  rcases h with ⟨c, rfl, -, hword⟩ | ⟨⟨hne, hall⟩, hback⟩
  · simp [lexeme, afterLexeme, hword]
  · obtain ⟨c, rest, rfl⟩ := List.exists_cons_of_ne_nil hne
    obtain ⟨hc, hrest⟩ := List.forall_mem_cons.mp hall
    obtain ⟨htake, hdrop⟩ := takeWhile_append_of_head? hrest hback
    simp [lexeme, afterLexeme, hc, htake, hdrop]

/-- A text is blank, or a token can be cut off behind its blanks. -/
theorem forall_isBlank_or_exists_isCut (text : List Char) :
    (∀ c ∈ text, isBlank c = true) ∨
      ∃ gap part back,
        text = gap ++ (part ++ back) ∧
        (∀ c ∈ gap, isBlank c = true) ∧ IsCut part back := by
  have hall : ∀ c ∈ text.takeWhile isBlank, isBlank c = true :=
    List.all_eq_true.mp List.all_takeWhile
  have hsplit : text.takeWhile isBlank ++ text.dropWhile isBlank = text :=
    List.takeWhile_append_dropWhile
  cases hrest : text.dropWhile isBlank with
  | nil =>
    rw [hrest, List.append_nil] at hsplit
    exact .inl (hsplit ▸ hall)
  | cons c rest =>
    refine .inr
      ⟨_, _, _, ?_, hall, isCut_lexeme (head_of_dropWhile_eq_cons hrest) rest⟩
    rw [lexeme_append_afterLexeme, ← hrest, hsplit]

namespace Scanner

/-- Where blanks are all that is left, no token is cut off. -/
theorem scan_of_forall_isBlank {s : Scanner} (h : ∀ c ∈ s.rest, isBlank c = true) :
    s.scan = (none, s.skipBlanks) := by
  have hdrop : (s.rest ++ []).dropWhile isBlank = [] :=
    List.dropWhile_append_of_pos h
  rw [List.append_nil] at hdrop
  exact scan_of_rest_eq_nil hdrop

/-- The token behind the blanks is cut off. -/
theorem scan_of_isCut {s : Scanner} {gap part back : List Char}
    (h : s.rest = gap ++ (part ++ back)) (hgap : ∀ c ∈ gap, isBlank c = true)
    (hcut : IsCut part back) :
    s.scan = (some ⟨String.ofList part,
        ⟨s.file, s.offset + width gap, s.offset + width gap + width part⟩⟩,
      { s with offset := s.offset + width gap + width part, rest := back }) := by
  obtain ⟨c, rest, hpart, hblank⟩ := hcut.exists_eq_cons
  have hhead : ∀ d, (part ++ back).head? = some d → isBlank d = false := by
    rintro d hd
    obtain rfl : c = d := by simpa [hpart] using hd
    exact hblank
  obtain ⟨htake, hdrop⟩ := takeWhile_append_of_head? hgap hhead
  obtain ⟨hlexeme, hafter⟩ := hcut.lexeme_append
  have hrest : s.skipBlanks.rest = c :: (rest ++ back) := by
    rw [skipBlanks, h, hdrop, hpart, List.cons_append]
  have hoffset : s.skipBlanks.offset = s.offset + width gap := by
    rw [skipBlanks, h, htake]
  rw [hpart, List.cons_append] at hlexeme hafter
  rw [scan_of_rest_eq_cons hrest, hoffset, hlexeme, hafter, hpart]
  rfl

theorem fst_scan_eq_some_iff {s : Scanner} {token : Token} :
    s.scan.1 = some token ↔
      ∃ gap part back,
        s.rest = gap ++ (part ++ back) ∧
        (∀ c ∈ gap, isBlank c = true) ∧ IsCut part back ∧
        token = ⟨String.ofList part,
          ⟨s.file, s.offset + width gap, s.offset + width gap + width part⟩⟩ := by
  constructor
  · intro h
    rcases forall_isBlank_or_exists_isCut s.rest
      with hblank | ⟨gap, part, back, hrest, hgap, hcut⟩
    · rw [scan_of_forall_isBlank hblank] at h
      cases h
    · rw [scan_of_isCut hrest hgap hcut] at h
      exact ⟨gap, part, back, hrest, hgap, hcut, (Option.some.inj h).symm⟩
  · rintro ⟨gap, part, back, hrest, hgap, hcut, rfl⟩
    rw [scan_of_isCut hrest hgap hcut]

end Scanner

/-! ## The next token -/

/-- No word reaches over the place between two texts. -/
def Apart (front rest : List Char) : Prop :=
  ∀ c d,
    front.getLast? = some c → rest.head? = some d → isWordChar c = true →
    isWordChar d = false

theorem Apart.eq_false {front rest : List Char} {c d : Char}
    (h : Apart (front ++ [c]) (d :: rest)) (hd : isWordChar d = true) :
    isWordChar c = false := by
  cases hc : isWordChar c with
  | false => rfl
  | true => exact absurd hd (by simp [h c d (by simp) rfl hc])

/-- No word reaches over white space. -/
theorem Apart.append_gap {front gap rest : List Char}
    (h : Apart front (gap ++ rest)) (hgap : ∀ c ∈ gap, isBlank c = true) :
    Apart (front ++ gap) rest := by
  intro c d hc hd hword
  cases hlast : gap.getLast? with
  | none =>
    obtain rfl : gap = [] := List.getLast?_eq_none_iff.mp hlast
    rw [List.append_nil] at hc
    exact h c d hc hd hword
  | some e =>
    obtain rfl : e = c := by simpa [List.getLast?_append, hlast] using hc
    rw [isWordChar_eq_false_of_isBlank
      (hgap e (List.mem_of_getLast? hlast))] at hword
    cases hword

/-- What is cut off is apart from what follows it. -/
theorem IsCut.apart {part back : List Char} (h : IsCut part back)
    (front : List Char) :
    Apart (front ++ part) back := by
  intro c d hc hd hword
  rcases h with ⟨e, rfl, -, he⟩ | ⟨-, hback⟩
  · obtain rfl : e = c := by simpa using hc
    rw [he] at hword
    cases hword
  · exact hback d hd

theorem eq_nil_of_width_eq_zero {text : List Char}
    (h : width text = 0) : text = [] := by
  have := length_le_width text
  exact List.eq_nil_of_length_eq_zero (by omega)

/-- Nothing but white space is left behind an offset exactly if the rest is
blank. -/
theorem isGap_width_iff {front rest : List Char} :
    IsGap (front ++ rest) (width front) (width (front ++ rest)) ↔
      ∀ c ∈ rest, isBlank c = true := by
  constructor
  · rintro ⟨gap, hslice, hblank⟩
    obtain ⟨back, rfl, hstop⟩ := isSlice_append_iff.mp hslice
    have hback : back = [] := by
      apply eq_nil_of_width_eq_zero
      simp only [width_append] at hstop
      omega
    rwa [hback, List.append_nil]
  · intro hblank
    exact ⟨rest, isSlice_append_iff.mpr ⟨[], by simp, by simp⟩, hblank⟩

/-- The next token is cut off behind some blanks. -/
theorem IsNext.exists_isCut {front rest : List Char} {file : String} {token : Token}
    (h : IsNext (front ++ rest) file (width front) token) :
    ∃ gap part back,
      rest = gap ++ (part ++ back) ∧ (∀ c ∈ gap, isBlank c = true) ∧
      IsCut part back ∧
      token = ⟨String.ofList part,
        ⟨file, width front + width gap, width front + width gap + width part⟩⟩ := by
  obtain ⟨gap, hgap, hblank⟩ := h.gap
  obtain ⟨tail, rfl, hstart⟩ := isSlice_append_iff.mp hgap
  have hslice := h.slice
  rw [← List.append_assoc, ← hstart, ← width_append] at hslice
  obtain ⟨back, rfl, hstop⟩ := isSlice_append_iff.mp hslice
  refine ⟨gap, token.text.toList, back, rfl, hblank, ?_, ?_⟩
  · rcases h.legal with hsymbol | hwhole
    · exact .inl hsymbol
    · refine .inr ⟨hwhole.word, fun c hc => ?_⟩
      obtain ⟨back, rfl⟩ := List.head?_eq_some_iff.mp hc
      refine hwhole.behind c _
        ⟨front ++ gap ++ token.text.toList, back, by simp, ?_, rfl⟩
      rw [width_append, hstop]
  · rw [width_append, hstart] at hstop
    rw [String.ofList_toList, ← h.file, hstart, hstop]

/-- What is cut off behind some blanks is the next token, if no word reaches
into it. -/
theorem IsCut.isNext {front gap part back : List Char} (hcut : IsCut part back)
    (hgap : ∀ c ∈ gap, isBlank c = true)
    (hapart : Apart front (gap ++ (part ++ back))) (file : String) :
    IsNext (front ++ (gap ++ (part ++ back))) file (width front)
      ⟨String.ofList part,
        ⟨file, width front + width gap, width front + width gap + width part⟩⟩ := by
  have htext :
      front ++ (gap ++ (part ++ back)) = (front ++ gap) ++ (part ++ back) := by
    simp
  have hstart : width front + width gap = width (front ++ gap) :=
    (width_append ..).symm
  obtain ⟨c, rest, hpart, -⟩ := hcut.exists_eq_cons
  refine ⟨rfl, ?_, ?_, ?_, ?_⟩
  · have := c.utf8Size_pos
    simp only [hpart, width_cons]
    omega
  · simp only [hstart, htext, String.toList_ofList]
    exact isSlice_append_iff.mpr ⟨back, rfl, rfl⟩
  · exact ⟨gap, isSlice_append_iff.mpr ⟨part ++ back, rfl, rfl⟩, hgap⟩
  · simp only [String.toList_ofList]
    rcases hcut with hsymbol | ⟨hword, hback⟩
    · exact .inl hsymbol
    · refine .inr ⟨hword, ?_, ?_⟩
      · rintro d offset ⟨front', back', htext', rfl, hoffset⟩
        rw [htext, show front' ++ ([d] ++ back') = (front' ++ [d]) ++ back' by
          simp] at htext'
        obtain ⟨hfront, -⟩ :=
          append_inj_of_width_eq htext'
            (by rw [← hstart, ← hoffset, width_append])
        have happart := hapart.append_gap hgap
        rw [hfront, hpart, List.cons_append] at happart
        exact happart.eq_false (hword.2 c (by simp [hpart]))
      · rintro d offset ⟨front', back', htext', hfront', -⟩
        rw [htext, ← List.append_assoc] at htext'
        obtain ⟨-, hback'⟩ :=
          append_inj_of_width_eq htext'
            (by rw [hfront', width_append, ← hstart])
        exact hback d (by rw [hback']; rfl)

/-! ## What a scanner gives -/

namespace Scanner

/-- The scanner has the end of the text in front of it, and cut no word in two. -/
def Within (text : List Char) (s : Scanner) : Prop :=
  ∃ front, text = front ++ s.rest ∧ s.offset = width front ∧ Apart front s.rest

theorem within_ofSource (source : String) (file : Option String) :
    Within source.toList (ofSource source file) :=
  ⟨[], rfl, rfl, nofun⟩

namespace Within

variable {text : List Char} {s s' : Scanner}

theorem skipBlanks (h : Within text s) : Within text s.skipBlanks := by
  obtain ⟨front, rfl, hoffset, hapart⟩ := h
  have hgap : ∀ c ∈ s.rest.takeWhile isBlank, isBlank c = true :=
    List.all_eq_true.mp List.all_takeWhile
  have hsplit : s.rest.takeWhile isBlank ++ s.skipBlanks.rest = s.rest :=
    List.takeWhile_append_dropWhile
  refine ⟨front ++ s.rest.takeWhile isBlank, ?_, ?_, ?_⟩
  · rw [List.append_assoc, hsplit]
  · rw [width_append, ← hoffset]
    rfl
  · rw [← hsplit] at hapart
    exact hapart.append_gap hgap

/-- A scanner stays within its text. -/
theorem scan (h : Within text s) : Within text s.scan.2 := by
  rcases forall_isBlank_or_exists_isCut s.rest
    with hblank | ⟨gap, part, back, hrest, hgap, hcut⟩
  · rw [scan_of_forall_isBlank hblank]
    exact h.skipBlanks
  · obtain ⟨front, rfl, hoffset, -⟩ := h
    rw [scan_of_isCut hrest hgap hcut]
    refine ⟨front ++ gap ++ part, by simp [hrest], ?_, hcut.apart _⟩
    simp only [hoffset, width_append]

/-- The next token of the text is the one that is cut off. -/
theorem isNext_iff (h : Within text s) {token : Token} :
    IsNext text s.file s.offset token ↔ s.scan.1 = some token := by
  obtain ⟨front, rfl, hoffset, hapart⟩ := h
  rw [fst_scan_eq_some_iff, hoffset]
  constructor
  · exact IsNext.exists_isCut
  · rintro ⟨gap, part, back, hrest, hgap, hcut, rfl⟩
    rw [hrest] at hapart ⊢
    exact hcut.isNext hgap hapart s.file

/-- White space is all that is left exactly if no token is cut off. -/
theorem isGap_iff (h : Within text s) :
    IsGap text s.offset (width text) ↔ s.scan.1 = none := by
  obtain ⟨front, rfl, hoffset, -⟩ := h
  rw [hoffset, isGap_width_iff]
  rcases forall_isBlank_or_exists_isCut s.rest
    with hblank | ⟨gap, part, back, hrest, hgap, hcut⟩
  · rw [scan_of_forall_isBlank hblank]
    exact iff_of_true hblank rfl
  · rw [scan_of_isCut hrest hgap hcut, hrest]
    exact iff_of_false (hcut.not_forall_isBlank gap) nofun

end Within

theorem offset_of_scan {s s' : Scanner} {token : Token}
    (h : s.scan = (some token, s')) :
    s'.offset = token.span.stop := by
  cases hrest : s.skipBlanks.rest with
  | nil => simp [scan_of_rest_eq_nil hrest] at h
  | cons c rest =>
    rw [scan_of_rest_eq_cons hrest] at h
    obtain ⟨htoken, rfl⟩ := Prod.mk.inj h
    rw [← Option.some.inj htoken]

/-- What a scanner still gives are the tokens of its text behind its offset. -/
theorem toList_eq_iff_isTokenization {text : List Char} {s : Scanner}
    {tokens : List Token} (hqueue : s.queue = []) (h : Within text s) :
    s.toList = tokens ↔ IsTokenization text s.file s.offset tokens := by
  induction tokens generalizing s with
  | nil =>
    rw [isTokenization_nil_iff, h.isGap_iff, ← consume_of_queue_eq_nil hqueue,
      fst_consume, List.head?_eq_none_iff]
  | cons token tokens ih =>
    rw [isTokenization_cons_iff, h.isNext_iff]
    have hconsume := consume_of_queue_eq_nil hqueue
    cases hscan : s.scan with
    | mk found s' =>
      rw [hscan] at hconsume
      cases found with
      | none =>
        rw [toList_eq_nil_of_consume hconsume]
        exact iff_of_false nofun nofun
      | some first =>
        have hfile : s'.file = s.file := by rw [← file_snd_scan s, hscan]
        have hwithin : Within text s' := by simpa only [hscan] using h.scan
        have hrest := ih (by rw [queue_of_scan hscan, hqueue]) hwithin
        rw [toList_eq_cons_of_consume hconsume, List.cons_eq_cons, hrest, hfile,
          offset_of_scan hscan, Option.some_inj]
        constructor
        · rintro ⟨rfl, htokens⟩
          exact ⟨rfl, htokens⟩
        · rintro ⟨rfl, htokens⟩
          exact ⟨rfl, htokens⟩

end Scanner

theorem isTokenization_tokenize (source : String) (file : Option String) :
    IsTokenization source.toList (file.getD defaultFile) 0 (tokenize source file) :=
  (Scanner.toList_eq_iff_isTokenization rfl
    (Scanner.within_ofSource source file)).mp rfl

/-! ## Texts that are laid out -/

/-- The text of a token and the gap in front of it. -/
structure Piece where
  gap : List Char
  part : List Char
  deriving DecidableEq, Repr, Inhabited

/-- The pieces one after the other, and the gap behind them. -/
def layOut : List Piece → List Char → List Char
  | [], last => last
  | piece :: pieces, last => piece.gap ++ (piece.part ++ layOut pieces last)

/-- The tokens of the pieces where the first one stands behind an offset. -/
def tokensOf (file : String) : Nat → List Piece → List Token
  | _, [] => []
  | offset, piece :: pieces =>
    let start := offset + width piece.gap
    let stop := start + width piece.part
    ⟨String.ofList piece.part, ⟨file, start, stop⟩⟩ :: tokensOf file stop pieces

/-- The pieces can be told apart: gaps are blank, and two words have a gap
between them. -/
structure IsLayout (pieces : List Piece) (last : List Char) : Prop where
  legal : ∀ piece ∈ pieces, IsSymbol piece.part ∨ IsWord piece.part
  blank : ∀ piece ∈ pieces, ∀ c ∈ piece.gap, isBlank c = true
  blankLast : ∀ c ∈ last, isBlank c = true
  apart :
    pieces.IsChain fun first second =>
      IsWord first.part → IsWord second.part → second.gap ≠ []

theorem IsLayout.of_cons {piece : Piece} {pieces : List Piece} {last : List Char}
    (h : IsLayout (piece :: pieces) last) : IsLayout pieces last where
  legal other hmem := h.legal other (List.mem_cons_of_mem _ hmem)
  blank other hmem := h.blank other (List.mem_cons_of_mem _ hmem)
  blankLast := h.blankLast
  apart := h.apart.tail

theorem IsLayout.isCut {piece : Piece} {pieces : List Piece} {last : List Char}
    (h : IsLayout (piece :: pieces) last) :
    IsCut piece.part (layOut pieces last) := by
  rcases h.legal piece List.mem_cons_self with hsymbol | hword
  · exact .inl hsymbol
  · refine .inr ⟨hword, fun c hc => ?_⟩
    cases pieces with
    | nil =>
      exact isWordChar_eq_false_of_isBlank
        (h.blankLast c (List.mem_of_head? hc))
    | cons second pieces =>
      rw [layOut] at hc
      cases hgap : second.gap with
      | cons d gap =>
        obtain rfl : d = c := by simpa [hgap] using hc
        exact isWordChar_eq_false_of_isBlank
          (h.blank second (by simp) d (by simp [hgap]))
      | nil =>
        -- the second piece follows at once, so it is no word
        have hnot : ¬ IsWord second.part := fun hsecond =>
          (List.isChain_cons_cons.mp h.apart).1 hword hsecond hgap
        rcases h.legal second (by simp) with ⟨d, hd, -, hsymbol⟩ | hsecond
        · obtain rfl : d = c := by simpa [hgap, hd] using hc
          exact hsymbol
        · exact absurd hsecond hnot

namespace Scanner

/-- In front of a text that is laid out, a scanner gives the tokens of its
pieces. -/
theorem toList_of_isLayout {s : Scanner} {pieces : List Piece}
    {last : List Char} (hqueue : s.queue = [])
    (hrest : s.rest = layOut pieces last) (h : IsLayout pieces last) :
    s.toList = tokensOf s.file s.offset pieces := by
  induction pieces generalizing s with
  | nil =>
    have hconsume := consume_of_queue_eq_nil hqueue
    rw [scan_of_forall_isBlank (hrest ▸ h.blankLast)] at hconsume
    exact toList_eq_nil_of_consume hconsume
  | cons piece pieces ih =>
    have hconsume := consume_of_queue_eq_nil hqueue
    rw [scan_of_isCut hrest (h.blank piece List.mem_cons_self) h.isCut] at hconsume
    rw [toList_eq_cons_of_consume hconsume, tokensOf]
    exact congrArg _ (ih hqueue rfl h.of_cons)

end Scanner

/-- The tokens of a source are those pieces of it that are one character or a
whole word, in order and with nothing but white space around them. Token texts
that are laid out with white space between them, at least between two words, are
given back where they stand. -/
theorem tokenize_eq_iff_isTokenization (file : Option String) :
    (∀ source tokens,
      tokenize source file = tokens ↔
        IsTokenization source.toList (file.getD defaultFile) 0 tokens) ∧
    ∀ pieces last, IsLayout pieces last →
      tokenize (String.ofList (layOut pieces last)) file =
        tokensOf (file.getD defaultFile) 0 pieces := by
  constructor
  · intro source tokens
    exact Scanner.toList_eq_iff_isTokenization rfl
      (Scanner.within_ofSource source file)
  · intro pieces last h
    exact Scanner.toList_of_isLayout rfl String.toList_ofList h

/-- A character of two bytes, a word behind it, an ideographic space and two
tokens without a gap. -/
def widePieces : List Piece :=
  [⟨[], ['é']⟩, ⟨[], ['a', '_', '1']⟩, ⟨['\u3000'], ['2']⟩, ⟨[], ['+']⟩]

theorem isLayout_widePieces : IsLayout widePieces ['\n'] where
  legal := by
    simp only [widePieces, List.forall_mem_cons, List.not_mem_nil,
      false_imp_iff, implies_true, and_true]
    refine ⟨.inl ⟨'é', rfl, ?_, ?_⟩, .inr ⟨nofun, ?_⟩, .inr ⟨nofun, ?_⟩,
      .inl ⟨'+', rfl, ?_, ?_⟩⟩
    · decide
    · decide
    · exact List.all_eq_true.mp (by decide)
    · exact List.all_eq_true.mp (by decide)
    · decide
    · decide
  blank := by
    simp only [widePieces, List.forall_mem_cons, List.not_mem_nil,
      false_imp_iff, implies_true, and_true, true_and]
    decide
  blankLast := List.all_eq_true.mp (by decide)
  apart := by
    simp only [widePieces, List.isChain_cons_cons, List.isChain_singleton, and_true]
    refine ⟨fun h => ?_, nofun, fun _ h => ?_⟩
    · exact absurd (h.2 'é' List.mem_cons_self) (by decide)
    · exact absurd (h.2 '+' List.mem_cons_self) (by decide)

/-- Offsets count bytes, of which the ideographic space takes three. -/
theorem tokenize_widePieces :
    IsLayout widePieces ['\n'] ∧
    tokenize (String.ofList (layOut widePieces ['\n'])) none =
      [⟨"é", ⟨"shell", 0, 2⟩⟩, ⟨"a_1", ⟨"shell", 2, 5⟩⟩, ⟨"2", ⟨"shell", 8, 9⟩⟩,
        ⟨"+", ⟨"shell", 9, 10⟩⟩] := by
  refine ⟨isLayout_widePieces, ?_⟩
  rw [(tokenize_eq_iff_isTokenization none).2 widePieces ['\n'] isLayout_widePieces]
  decide

end Pratt
