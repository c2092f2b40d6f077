import Pratt.Proofs.Demands.Parser
import Pratt.Proofs.Tokenization

set_option autoImplicit false

/-!
# What an error depends on

The place of an error tells which token is blamed, since no two tokens start at
one offset and none starts at the end of the source
(`eq_of_offset_position_skip`). And an error depends on nothing behind that
token: a source that begins with the same tokens up to it is refused with the
same fault at the same token (`exists_parseWith_eq_error_of_take_eq`).
-/

namespace Pratt

/-! ## Places and tokens -/

section

variable {source : String} {file : Option String} {n i : Nat} {token : Token}

/-- Behind some tokens of a source, a cursor is at the next one. -/
theorem position_skip_of_getElem? (h : (tokenize source file)[n]? = some token) :
    ((Cursor.ofSource source file).skip n).position = token.position := by
  rw [Cursor.position_skip (Scanner.follows_ofSource source file).files]
  simp only [Cursor.ofSource, List.drop_zero, h, Option.map_some, Option.getD_some]

/-- Behind all tokens of a source, a cursor is at its end. -/
theorem position_skip_length (source : String) (file : Option String) :
    ((Cursor.ofSource source file).skip (tokenize source file).length).position =
      ⟨source.utf8ByteSize, file.getD defaultFile⟩ := by
  rw [Cursor.position_skip (Scanner.follows_ofSource source file).files]
  simp only [Cursor.ofSource, List.drop_zero,
    List.getElem?_eq_none (Nat.le_refl _), Option.map_none, Option.getD_none]

theorem start_lt_start {other : Token}
    (hi : (tokenize source file)[i]? = some token)
    (hn : (tokenize source file)[n]? = some other) (h : i < n) :
    token.span.start < other.span.start := by
  have hpairwise := (isTokenization_tokenize source file).pairwise_start_lt
  obtain ⟨hilt, rfl⟩ := List.getElem?_eq_some_iff.mp hi
  obtain ⟨hnlt, rfl⟩ := List.getElem?_eq_some_iff.mp hn
  exact List.pairwise_iff_getElem.mp hpairwise i n hilt hnlt h

theorem eq_of_start_eq {other : Token}
    (hi : (tokenize source file)[i]? = some token)
    (hn : (tokenize source file)[n]? = some other)
    (h : token.span.start = other.span.start) : i = n := by
  rcases Nat.lt_trichotomy i n with hlt | heq | hlt
  · exact absurd h (Nat.ne_of_lt (start_lt_start hi hn hlt))
  · exact heq
  · exact absurd h.symm (Nat.ne_of_lt (start_lt_start hn hi hlt))

theorem start_lt_of_getElem? (h : (tokenize source file)[i]? = some token) :
    token.span.start < source.utf8ByteSize := by
  rw [← width_toList]
  exact (isTokenization_tokenize source file).start_lt_width token
    (List.mem_of_getElem? h)

/-- The place of a cursor tells how many tokens are in front of it. -/
theorem eq_of_offset_position_skip (hn : n ≤ (tokenize source file).length)
    (hi : (tokenize source file)[i]? = some token)
    (h : ((Cursor.ofSource source file).skip n).position.offset =
      token.span.start) :
    n = i := by
  cases hget : (tokenize source file)[n]? with
  | some other =>
    rw [position_skip_of_getElem? hget] at h
    exact eq_of_start_eq hget hi h
  | none =>
    obtain rfl : n = (tokenize source file).length :=
      Nat.le_antisymm hn (List.getElem?_eq_none_iff.mp hget)
    rw [position_skip_length] at h
    have hlt := start_lt_of_getElem? hi
    simp only at h
    omega

/-- At the end of a source, all its tokens are in front of a cursor. -/
theorem eq_length_of_offset_position_skip
    (hn : n ≤ (tokenize source file).length)
    (h : ((Cursor.ofSource source file).skip n).position.offset =
      source.utf8ByteSize) :
    n = (tokenize source file).length := by
  cases hget : (tokenize source file)[n]? with
  | some other =>
    rw [position_skip_of_getElem? hget] at h
    have hlt := start_lt_of_getElem? hget
    exact absurd h (Nat.ne_of_lt hlt)
  | none => exact Nat.le_antisymm hn (List.getElem?_eq_none_iff.mp hget)

end

/-! ## Sources that begin alike -/

/-- A source that begins with the same tokens up to the one that is blamed is
refused with the same fault, and the same token of it is blamed, whatever
follows and however it is laid out. -/
theorem exists_parseWith_eq_error_of_take_eq {g : Grammar} {source : String}
    {file : Option String} {error : ParseError} {i : Nat} {token : Token}
    (herror : parseWith g source file = .error error)
    (htoken : (tokenize source file)[i]? = some token)
    (hplace : error.position.offset = token.span.start) (source' : String)
    (file' : Option String)
    (htake : ((tokenize source' file').map Token.text).take (i + 1) =
      ((tokenize source file).map Token.text).take (i + 1)) :
    ∃ token',
      (tokenize source' file')[i]? = some token' ∧
      parseWith g source' file' = .error ⟨error.fault, token'.position⟩ := by
  obtain ⟨n, hn, hruns, hposition⟩ := parseWith_eq_error_iff.mp herror
  obtain rfl : n = i :=
    eq_of_offset_position_skip hn htoken (by rw [← hposition, hplace])
  have hget : ((tokenize source' file').map Token.text)[n]? = some token.text := by
    simpa [List.getElem?_take, htoken] using congrArg (·[n]?) htake
  rw [List.getElem?_map, Option.map_eq_some_iff] at hget
  obtain ⟨token', htoken', -⟩ := hget
  refine ⟨token', htoken',
    parseWith_eq_error_iff.mpr ⟨n, ?_, hruns.of_take_eq htake, ?_⟩⟩
  · exact Nat.le_of_lt (List.getElem?_eq_some_iff.mp htoken').1
  · exact (position_skip_of_getElem? htoken').symm

/-- A `]` where a conditional inside of a call has its `:`. -/
theorem parse_bracketInCall :
    parse "f(a, (b ? -c ] d" =
      .error ⟨.mismatchedDelimiter ":" (some "]"), ⟨13, "shell"⟩⟩ := by
  decide +kernel

/-- The same tokens in another file, with other blanks and another end. -/
theorem parseWith_bracketInCall :
    parseWith .arithmetic "f(a, (b ? -c ] d" none =
      .error ⟨.mismatchedDelimiter ":" (some "]"), ⟨13, "shell"⟩⟩ ∧
    ∃ token,
      (tokenize "f(a,(b?-c] ):\n1" (some "notes"))[9]? = some token ∧
      parseWith .arithmetic "f(a,(b?-c] ):\n1" (some "notes") =
        .error ⟨.mismatchedDelimiter ":" (some "]"), token.position⟩ := by
  have htoken :
      (tokenize "f(a, (b ? -c ] d" none)[9]? =
        some ⟨"]", ⟨"shell", 13, 14⟩⟩ := by
    decide
  have htake :
      ((tokenize "f(a,(b?-c] ):\n1" (some "notes")).map Token.text).take 10 =
        ((tokenize "f(a, (b ? -c ] d" none).map Token.text).take 10 := by
    decide
  exact ⟨parse_bracketInCall,
    exists_parseWith_eq_error_of_take_eq parse_bracketInCall htoken rfl _ _ htake⟩

end Pratt
