set_option autoImplicit false

/-!
# Character classes and widths

The two classes by which text is cut into tokens, and the width of text in bytes
of UTF-8, the unit in which every offset of this library is counted. A character
is never in both classes, and widths add up.
-/

namespace Pratt

/-- Whether a character lies in one of some inclusive ranges of code points. -/
def inRanges (ranges : List (Nat × Nat)) (c : Char) : Bool :=
  ranges.any fun range => range.1 ≤ c.toNat && c.toNat ≤ range.2

/-- The code points of the Unicode property White_Space. -/
def blankRanges : List (Nat × Nat) :=
  [(0x09, 0x0D), (0x20, 0x20), (0x85, 0x85), (0xA0, 0xA0), (0x1680, 0x1680),
    (0x2000, 0x200A), (0x2028, 0x2029), (0x202F, 0x202F), (0x205F, 0x205F),
    (0x3000, 0x3000)]

/-- White space separates tokens and belongs to none. -/
def isBlank (c : Char) : Bool := inRanges blankRanges c

/-- Words are made of ASCII letters, ASCII digits and the underscore. -/
def isWordChar (c : Char) : Bool :=
  c.isAlphanum || c == '_'

/-- No character is of both classes. -/
theorem isBlank_eq_false_of_isWordChar {c : Char} (h : isWordChar c = true) :
    isBlank c = false := by
  have hrange : 48 ≤ c.toNat ∧ c.toNat ≤ 122 := by
    delta isWordChar Char.isAlphanum Char.isAlpha Char.isUpper Char.isLower
      Char.isDigit at h
    simp only [Bool.or_eq_true, Bool.and_eq_true, decide_eq_true_eq, beq_iff_eq,
      ge_iff_le, UInt32.le_iff_toNat_le, UInt32.reduceToNat,
      Char.reduceVal] at h
    rcases h with h | rfl
    · change 48 ≤ c.val.toNat ∧ c.val.toNat ≤ 122
      omega
    · decide
  simp only [isBlank, inRanges, blankRanges, List.any_cons, List.any_nil,
    Bool.or_false, Bool.or_eq_false_iff, Bool.and_eq_false_iff,
    decide_eq_false_iff_not]
  omega

theorem isWordChar_eq_false_of_isBlank {c : Char} (h : isBlank c = true) :
    isWordChar c = false := by
  cases hc : isWordChar c with
  | false => rfl
  | true =>
    rw [isBlank_eq_false_of_isWordChar hc] at h
    cases h

/-- The number of bytes that a text takes in UTF-8. -/
def width : List Char → Nat
  | [] => 0
  | c :: rest => c.utf8Size + width rest

@[simp] theorem width_nil : width [] = 0 := rfl

@[simp] theorem width_cons (c : Char) (rest : List Char) :
    width (c :: rest) = c.utf8Size + width rest := rfl

@[simp] theorem width_append (front back : List Char) :
    width (front ++ back) = width front + width back := by
  induction front with
  | nil => simp
  | cons c rest ih => simp [ih, Nat.add_assoc]

/-- No text is wider than empty text without holding a character. -/
theorem length_le_width (text : List Char) : text.length ≤ width text := by
  induction text with
  | nil => simp
  | cons c rest ih =>
    have := c.utf8Size_pos
    simp only [List.length_cons, width_cons]
    omega

theorem width_toList (text : String) : width text.toList = text.utf8ByteSize := by
  suffices h : ∀ characters,
      width characters = (String.ofList characters).utf8ByteSize by
    rw [h, String.ofList_toList]
  intro characters
  induction characters with
  | nil => rfl
  | cons c rest ih =>
    have hsplit :
        String.ofList (c :: rest) =
          String.singleton c ++ String.ofList rest := by
      apply String.toList_injective
      simp
    rw [hsplit, String.utf8ByteSize_append, String.utf8ByteSize_singleton,
      width_cons, ih]

/-- Text without its trailing white space. -/
def trimEnd (text : List Char) : List Char :=
  (text.reverse.dropWhile isBlank).reverse

end Pratt
