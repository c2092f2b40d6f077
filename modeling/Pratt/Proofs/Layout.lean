import Pratt.Scanner.View

set_option autoImplicit false

/-!
# The tokens of a text

`lexemes` cuts a text into the texts of its tokens, without offsets, names and
queues. It is what a scanner in front of the text still gives
(`map_text_tokenize`).

Where a text is cut depends on its characters only. In front of a character that
belongs to no word, two texts are cut apart (`lexemes_append_cons`), so a text
that is put together with such characters is cut into the tokens of its parts.
-/

namespace Pratt

/-! ## Cutting a text -/

/-- The texts of the tokens that a text is cut into. -/
def lexemes : List Char → List String
  | [] => []
  | c :: rest =>
    if isBlank c then lexemes rest
    else String.ofList (lexeme (c :: rest)) :: lexemes (afterLexeme (c :: rest))
termination_by text => text.length
decreasing_by
  · exact Nat.lt_succ_self _
  · exact length_afterLexeme_lt c rest

@[simp] theorem lexemes_nil : lexemes [] = [] := by
  rw [lexemes]

theorem lexemes_cons_of_isBlank {c : Char} (h : isBlank c = true)
    (rest : List Char) :
    lexemes (c :: rest) = lexemes rest := by
  rw [lexemes, if_pos h]

theorem lexemes_cons_of_not_isBlank {c : Char} (h : isBlank c = false)
    (rest : List Char) :
    lexemes (c :: rest) = String.ofList (lexeme (c :: rest)) ::
      lexemes (afterLexeme (c :: rest)) := by
  rw [lexemes, if_neg (by simp [h])]

/-- A character that is neither blank nor part of a word is a token by itself. -/
theorem lexemes_cons_of_not_isWordChar {c : Char} (hblank : isBlank c = false)
    (hword : isWordChar c = false) (rest : List Char) :
    lexemes (c :: rest) = String.singleton c :: lexemes rest := by
  rw [lexemes_cons_of_not_isBlank hblank]
  simp [lexeme, afterLexeme, hword]

theorem lexemes_dropWhile_isBlank (text : List Char) :
    lexemes (text.dropWhile isBlank) = lexemes text := by
  induction text with
  | nil => rfl
  | cons c rest ih =>
    cases h : isBlank c with
    | true => rw [List.dropWhile_cons_of_pos h, ih, lexemes_cons_of_isBlank h]
    | false => rw [List.dropWhile_cons_of_neg (by simp [h])]

theorem head_of_dropWhile_eq_cons {α : Type} {p : α → Bool} {text rest : List α}
    {c : α} (h : text.dropWhile p = c :: rest) : p c = false := by
  have hhead := List.head?_dropWhile_not p text
  rw [h] at hhead
  exact hhead

/-! ## What a scanner gives -/

namespace Scanner

/-- The texts of the tokens that are left. -/
def texts (s : Scanner) : List String := s.toList.map Token.text

theorem texts_snd_peek (n : Nat) (s : Scanner) : (s.peek n).2.texts = s.texts := by
  rw [texts, toList_snd_peek, texts]

/-- A scanner that was not looked ahead with gives the tokens of the
text in front of it. -/
theorem texts_of_queue_eq_nil {s : Scanner} (h : s.queue = []) :
    s.texts = lexemes s.rest := by
  induction hsize : s.rest.length using Nat.strongRecOn generalizing s with
  | ind size ih =>
    have hconsume := consume_of_queue_eq_nil h
    rw [← lexemes_dropWhile_isBlank]
    cases hrest : s.skipBlanks.rest with
    | nil =>
      have hdrop : s.rest.dropWhile isBlank = [] := hrest
      rw [scan_of_rest_eq_nil hrest] at hconsume
      rw [texts, toList_eq_nil_of_consume hconsume, hdrop, lexemes_nil,
        List.map_nil]
    | cons c rest =>
      have hdrop : s.rest.dropWhile isBlank = c :: rest := hrest
      have hlt := length_rest_lt_of_scan (scan_of_rest_eq_cons hrest)
      rw [scan_of_rest_eq_cons hrest] at hconsume
      rw [texts, toList_eq_cons_of_consume hconsume, List.map_cons, hdrop,
        lexemes_cons_of_not_isBlank (head_of_dropWhile_eq_cons hdrop)]
      exact congrArg _ (ih _ (hsize ▸ hlt) h rfl)

end Scanner

/-- The tokens of a source are those of its text. -/
theorem map_text_tokenize (source : String) (file : Option String) :
    (tokenize source file).map Token.text = lexemes source.toList :=
  Scanner.texts_of_queue_eq_nil (s := Scanner.ofSource source file) rfl

/-! ## Texts that are put together -/

theorem takeWhile_append_cons {α : Type} {p : α → Bool} {c : α}
    (h : p c = false) (front back : List α) :
    (front ++ c :: back).takeWhile p = front.takeWhile p := by
  induction front with
  | nil => simp [h]
  | cons a front ih => simp [List.takeWhile_cons, ih]

theorem dropWhile_append_cons {α : Type} {p : α → Bool} {c : α}
    (h : p c = false) (front back : List α) :
    (front ++ c :: back).dropWhile p = front.dropWhile p ++ c :: back := by
  induction front with
  | nil => simp [h]
  | cons a front ih =>
    cases ha : p a with
    | true => simp [ha, ih]
    | false => simp [ha]

/-- No token reaches over a character that belongs to no word. -/
theorem lexemes_append_cons {c : Char} (h : isWordChar c = false)
    (front back : List Char) :
    lexemes (front ++ c :: back) = lexemes front ++ lexemes (c :: back) := by
  induction hsize : front.length using Nat.strongRecOn generalizing front with
  | ind size ih =>
    cases front with
    | nil => rw [lexemes_nil, List.nil_append, List.nil_append]
    | cons a front =>
      cases ha : isBlank a with
      | true =>
        rw [List.cons_append, lexemes_cons_of_isBlank ha,
          lexemes_cons_of_isBlank ha]
        exact ih _ (by simp [← hsize]) front rfl
      | false =>
        have hlexeme :
            lexeme (a :: (front ++ c :: back)) = lexeme (a :: front) := by
          simp only [lexeme, takeWhile_append_cons h]
        have hafter :
            afterLexeme (a :: (front ++ c :: back)) =
              afterLexeme (a :: front) ++ c :: back := by
          simp only [afterLexeme, dropWhile_append_cons h]
          split <;> rfl
        have hlt := length_afterLexeme_lt a front
        rw [List.cons_append, lexemes_cons_of_not_isBlank ha,
          lexemes_cons_of_not_isBlank ha, hlexeme, hafter,
          ih _ (hsize ▸ hlt) _ rfl, List.cons_append]

/-! ## Single tokens -/

/-- The text is cut into one token, which is all of it. -/
def IsToken (text : String) : Prop := (tokenize text).map Token.text = [text]

instance (text : String) : Decidable (IsToken text) :=
  inferInstanceAs (Decidable (_ = _))

theorem isToken_iff {text : String} :
    IsToken text ↔ lexemes text.toList = [text] := by
  rw [IsToken, map_text_tokenize]

/-- The texts that a text is cut into are tokens. -/
theorem isToken_lexeme {c : Char} (h : isBlank c = false) (rest : List Char) :
    IsToken (String.ofList (lexeme (c :: rest))) := by
  rw [isToken_iff, String.toList_ofList]
  cases hword : isWordChar c with
  | true =>
    have hall : ∀ a ∈ rest.takeWhile isWordChar, isWordChar a = true :=
      List.all_eq_true.mp List.all_takeWhile
    have htake :
        (rest.takeWhile isWordChar ++ []).takeWhile isWordChar =
          rest.takeWhile isWordChar ++ [] :=
      List.takeWhile_append_of_pos hall
    have hdrop : (rest.takeWhile isWordChar ++ []).dropWhile isWordChar = [] :=
      List.dropWhile_append_of_pos hall
    rw [List.append_nil] at htake hdrop
    simp [lexeme, afterLexeme, lexemes_cons_of_not_isBlank h, hword, htake, hdrop]
  | false =>
    simp [lexeme, afterLexeme, lexemes_cons_of_not_isBlank h, hword]

theorem isToken_of_mem_lexemes {text : List Char} {token : String}
    (h : token ∈ lexemes text) :
    IsToken token := by
  induction hsize : text.length using Nat.strongRecOn generalizing text with
  | ind size ih =>
    cases text with
    | nil => simp at h
    | cons c rest =>
      cases hc : isBlank c with
      | true =>
        rw [lexemes_cons_of_isBlank hc] at h
        exact ih _ (by simp [← hsize]) h rfl
      | false =>
        rw [lexemes_cons_of_not_isBlank hc] at h
        rcases List.mem_cons.mp h with rfl | h
        · exact isToken_lexeme hc rest
        · exact ih _ (hsize ▸ length_afterLexeme_lt c rest) h rfl

/-- Tokens with a blank behind each of them are cut apart again. -/
theorem lexemes_separated {c : Char} (hc : isBlank c = true) {tokens : List String}
    (h : ∀ token ∈ tokens, IsToken token) :
    lexemes (tokens.flatMap fun token => token.toList ++ [c]) = tokens := by
  induction tokens with
  | nil => exact lexemes_nil
  | cons token tokens ih =>
    obtain ⟨htoken, htokens⟩ := List.forall_mem_cons.mp h
    rw [List.flatMap_cons, List.append_assoc, List.singleton_append,
      lexemes_append_cons (isWordChar_eq_false_of_isBlank hc),
      isToken_iff.mp htoken, lexemes_cons_of_isBlank hc, ih htokens,
      List.singleton_append]

end Pratt
