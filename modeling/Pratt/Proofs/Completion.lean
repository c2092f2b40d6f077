import Pratt.Proofs.Arithmetic
import Pratt.Proofs.Blame

set_option autoImplicit false

/-!
# What was read can be completed

An error comes as early as it can. Whatever is in front of the token that is
blamed could go on: the demands that are open there are met by an operand for
each missing expression and by the tokens that close what is open
(`Pending.runs_completion`). So no token is blamed that stands behind the one
that made the source hopeless (`exists_parse_eq_ok_of_parse_eq_error`).
-/

namespace Pratt

open Grammar (arithmetic)

/-! ## Open demands of arithmetic -/

/-- The demands that can be open inside of an expression of arithmetic:
arguments are closed by `)`, and what is demanded by name is a `)` or a `:`. -/
inductive Pending : List Demand → Prop
  | done : Pending []
  | ending : Pending [.ending]
  | operand (power : Power) {demands : List Demand} (h : Pending demands) :
      Pending (.operand power :: demands)
  | extension (power : Power) {demands : List Demand} (h : Pending demands) :
      Pending (.extension power :: demands)
  | token {text : String} {demands : List Demand}
      (htext : text = ")" ∨ text = ":") (h : Pending demands) :
      Pending (.token text :: demands)
  | arguments {demands : List Demand} (h : Pending demands) :
      Pending (.arguments "," ")" :: .token ")" :: demands)
  | others {demands : List Demand} (h : Pending demands) :
      Pending (.others "," ")" :: .token ")" :: demands)

theorem pending_whole : Pending Demand.whole := .operand _ .ending

/-- Whatever is demanded behind a move, in front of other demands, are
demands of arithmetic. -/
def Move.Leaves (demands : List Demand) : Move → Prop
  | .take new | .settle new => Pending (new ++ demands)
  | .refuse _ => True

namespace Pending

variable {demand : Demand} {demands : List Demand} {next : Option String}
  {word : String}

theorem prefixRule (h : Pending demands) (word : String) :
    Pending ((arithmetic.prefixRule word).demands ++ demands) := by
  cases hrule : arithmetic.prefixRule word with
  | value => exact h
  | unary power => exact .operand power h
  | group close =>
    obtain ⟨-, rfl⟩ := Grammar.prefixRule_arithmetic_eq_group hrule
    exact .operand _ (.token (.inl rfl) h)

theorem infixRule {rule : InfixRule} (h : Pending demands)
    (hrule : arithmetic.infixRule? word = some rule) :
    Pending (rule.demands ++ demands) := by
  cases rule with
  | binary power associativity => exact .operand _ h
  | conditional power separator =>
    obtain ⟨-, -, rfl⟩ := Grammar.infixRule?_arithmetic_eq_conditional hrule
    exact .operand _ (.token (.inr rfl) (.operand _ h))
  | call power separator close =>
    obtain ⟨-, -, rfl, rfl⟩ := Grammar.infixRule?_arithmetic_eq_call hrule
    exact .arguments h

/-- What is left after a step are demands of arithmetic again. -/
theorem leaves_move (h : Pending (demand :: demands)) (next : Option String) :
    (demand.move arithmetic next).Leaves demands := by
  cases h with
  | ending =>
    cases next with
    | none => exact .done
    | some word => trivial
  | operand power h =>
    cases next with
    | none => trivial
    | some word =>
      rw [Demand.move, Move.Leaves, List.append_assoc]
      exact prefixRule (.extension power h) word
  | extension power h =>
    rw [Demand.move]
    split
    · exact h
    · next rule hrule =>
      obtain ⟨word, -, hword⟩ := Option.bind_eq_some_iff.mp hrule
      rw [Move.Leaves, List.append_assoc]
      exact infixRule (.extension power h)
        (Grammar.continuation?_eq_some_iff.mp hword).1
  | token htext h =>
    rw [Demand.move]
    split
    · exact h
    · trivial
  | arguments h =>
    rw [Demand.move]
    split
    · exact .token (.inl rfl) h
    · exact .operand _ (.others h)
  | others h =>
    rw [Demand.move]
    split
    · exact .arguments h
    · exact .token (.inl rfl) h

/-- The same of the demands that a known move leaves. -/
theorem leaves (h : Pending (demand :: demands)) {move : Move}
    (hmove : demand.move arithmetic next = move) :
    move.Leaves demands :=
  hmove ▸ h.leaves_move next

end Pending

/-! ## Completions -/

/-- The fewest tokens that meet a demand where nothing else follows. -/
def Demand.completion : Demand → List String
  | .operand _ => ["x"]
  | .token text => [text]
  | .extension _ | .arguments _ _ | .others _ _ | .ending => []

/-- The fewest tokens that meet some demands. -/
def completion (demands : List Demand) : List String :=
  demands.flatMap Demand.completion

namespace Pending

variable {demands : List Demand} {input rest : List String} {verdict : Verdict}

/-- A completion consists of operands, `)` and `:`. -/
theorem of_mem_completion (h : Pending demands) {word : String}
    (hword : word ∈ completion demands) :
    word = "x" ∨ word = ")" ∨ word = ":" := by
  induction h with
  | done => cases hword
  | ending => cases hword
  | operand power _ ih =>
    rcases List.mem_cons.mp hword with rfl | hword
    · exact .inl rfl
    · exact ih hword
  | extension power _ ih => exact ih hword
  | token htext _ ih =>
    rcases List.mem_cons.mp hword with rfl | hword
    · exact .inr htext
    · exact ih hword
  | arguments _ ih | others _ ih =>
    rcases List.mem_cons.mp hword with rfl | hword
    · exact .inr (.inl rfl)
    · exact ih hword

theorem isToken_of_mem_completion (h : Pending demands) {word : String}
    (hword : word ∈ completion demands) : IsToken word := by
  rcases h.of_mem_completion hword with rfl | rfl | rfl <;> decide

/-- No completion begins with a token that extends an expression. -/
theorem move_extension_completion (h : Pending demands) (power : Power) :
    (Demand.extension power).move arithmetic (completion demands).head? =
      .settle [] := by
  cases hhead : (completion demands).head? with
  | none => rfl
  | some word =>
    have hnone : arithmetic.infixRule? word = none := by
      rcases h.of_mem_completion (List.mem_of_head? hhead)
        with rfl | rfl | rfl <;> decide
    simp [Demand.move, Grammar.continuation?, hnone]

/-- A completion meets the demands. -/
theorem runs_completion (h : Pending demands) :
    Runs arithmetic demands (completion demands) .met [] := by
  induction h with
  | done => exact .met
  | ending => exact .settle rfl .met
  | operand power h ih =>
    have hvalue :
        (Demand.operand power).move arithmetic (some "x") =
          .take [.extension power] := by
      rw [Demand.move, show arithmetic.prefixRule "x" = .value by decide]
      rfl
    exact .take hvalue (.settle (h.move_extension_completion power) ih)
  | extension power h ih => exact .settle (h.move_extension_completion power) ih
  | token htext _ ih => exact .take (if_pos rfl) ih
  | arguments _ ih | others _ ih => exact .settle rfl (.take rfl ih)

/-- What a run has taken can be completed. -/
theorem exists_completion (h : Pending demands)
    (hruns : Runs arithmetic demands input verdict rest) :
    ∃ front words,
      input = front ++ rest ∧
      (∀ word ∈ words, IsToken word) ∧
      Runs arithmetic demands (front ++ words) .met [] := by
  induction hruns with
  | met => exact ⟨[], [], rfl, nofun, .met⟩
  | refuse hmove =>
    exact ⟨[], _, rfl, fun word => h.isToken_of_mem_completion,
      h.runs_completion⟩
  | take hmove _ ih =>
    obtain ⟨front, words, rfl, hwords, hruns⟩ := ih (h.leaves hmove)
    exact ⟨_ :: front, words, rfl, hwords, .take hmove hruns⟩
  | @settle _ _ _ input _ _ hmove _ ih =>
    obtain ⟨front, words, heq, hwords, hruns⟩ := ih (h.leaves hmove)
    cases front with
    | nil =>
      -- nothing was taken since, so the demand that gave way can still be met
      -- by its own completion
      exact ⟨[], _, heq, fun word => h.isToken_of_mem_completion, h.runs_completion⟩
    | cons token front =>
      subst heq
      exact ⟨token :: front, words, rfl, hwords, .settle hmove hruns⟩

end Pending

/-! ## Hopeless sources -/

theorem exists_tokenize_eq {tokens : List String}
    (h : ∀ token ∈ tokens, IsToken token) (file : Option String) :
    ∃ source, (tokenize source file).map Token.text = tokens := by
  refine ⟨String.ofList (tokens.flatMap fun token => token.toList ++ [' ']), ?_⟩
  have hspace : isBlank ' ' = true := by decide
  rw [map_text_tokenize, String.toList_ofList, lexemes_separated hspace h]

/-- A source whose demands are met is parsed. -/
theorem exists_parseWith_eq_ok {g : Grammar} {source : String}
    {file : Option String} {rest : List String}
    (h : Runs g Demand.whole ((tokenize source file).map Token.text) .met rest) :
    ∃ tree, parseWith g source file = .ok tree := by
  cases hparse : parseWith g source file with
  | ok tree => exact ⟨tree, rfl⟩
  | error error =>
    obtain ⟨n, -, hruns, -⟩ := exists_runs_of_parseWith_eq_error hparse
    cases (h.unique hruns).1

/-- What is in front of the token that is blamed begins a source that is parsed. -/
theorem exists_parse_eq_ok_of_runs {source : String} {file : Option String}
    {n : Nat} {verdict : Verdict}
    (h : Runs arithmetic Demand.whole ((tokenize source file).map Token.text)
      verdict (((tokenize source file).map Token.text).drop n)) :
    ∃ source' tree,
      ((tokenize source file).map Token.text).take n <+:
        (tokenize source' file).map Token.text ∧
      parse source' file = .ok tree := by
  obtain ⟨front, words, heq, hwords, hruns⟩ := pending_whole.exists_completion h
  obtain rfl : front = ((tokenize source file).map Token.text).take n :=
    (List.append_cancel_right ((List.take_append_drop n _).trans heq)).symm
  have htokens :
      ∀ token ∈ ((tokenize source file).map Token.text).take n ++ words,
        IsToken token := by
    rw [List.forall_mem_append]
    refine ⟨fun token htoken => ?_, hwords⟩
    have hmem := List.mem_of_mem_take htoken
    rw [map_text_tokenize] at hmem
    exact isToken_of_mem_lexemes hmem
  obtain ⟨source', hsource'⟩ := exists_tokenize_eq htokens file
  rw [← hsource'] at hruns
  obtain ⟨tree, htree⟩ := exists_parseWith_eq_ok hruns
  exact ⟨source', tree, ⟨words, hsource'.symm⟩, htree⟩

/-- The token that is blamed makes the source hopeless. -/
theorem parseWith_ne_ok_of_take_prefix {g : Grammar} {source source' : String}
    {file file' : Option String} {error : ParseError} {i : Nat} {token : Token}
    (herror : parseWith g source file = .error error)
    (htoken : (tokenize source file)[i]? = some token)
    (hplace : error.position.offset = token.span.start)
    (htake : ((tokenize source file).map Token.text).take (i + 1) <+:
      (tokenize source' file').map Token.text) (tree : Expr) :
    parseWith g source' file' ≠ .ok tree := by
  intro htree
  obtain ⟨n, hn, hruns, hposition⟩ := exists_runs_of_parseWith_eq_error herror
  obtain rfl : n = i :=
    eq_of_offset_position_skip hn htoken (by rw [← hposition, hplace])
  have hlt : n < (tokenize source file).length :=
    (List.getElem?_eq_some_iff.mp htoken).1
  have hlength :
      (((tokenize source file).map Token.text).take (n + 1)).length =
        n + 1 := by
    rw [List.length_take, List.length_map]
    omega
  rw [List.prefix_iff_eq_take, hlength] at htake
  obtain ⟨rest, hmet⟩ := exists_runs_of_parseWith_eq_ok htree
  cases ((hruns.of_take_eq htake.symm).unique hmet).1

/-- What is in front of the token that is blamed could go on, and so could all
of a source whose end is blamed. A token that makes a source hopeless is blamed,
or one in front of it is. -/
theorem exists_parse_eq_ok_of_parse_eq_error {source : String}
    {file : Option String} {error : ParseError}
    (h : parse source file = .error error) :
    (∀ i token, (tokenize source file)[i]? = some token →
      error.position.offset = token.span.start →
      ∃ source' tree,
        ((tokenize source file).map Token.text).take i <+:
          (tokenize source' file).map Token.text ∧
        parse source' file = .ok tree) ∧
    (error.position.offset = source.utf8ByteSize →
      ∃ source' tree,
        (tokenize source file).map Token.text <+:
          (tokenize source' file).map Token.text ∧
        parse source' file = .ok tree) ∧
    (∀ i token, (tokenize source file)[i]? = some token →
      (∀ source' tree,
        ((tokenize source file).map Token.text).take (i + 1) <+:
          (tokenize source' file).map Token.text →
        parse source' file ≠ .ok tree) →
      error.position.offset ≤ token.span.start) := by
  obtain ⟨n, hn, hruns, hposition⟩ := exists_runs_of_parseWith_eq_error h
  have hcompleted := exists_parse_eq_ok_of_runs hruns
  refine ⟨fun i token htoken hplace => ?_, fun hplace => ?_,
    fun i token htoken hhopeless => ?_⟩
  · obtain rfl : n = i :=
      eq_of_offset_position_skip hn htoken (by rw [← hposition, hplace])
    exact hcompleted
  · obtain rfl : n = (tokenize source file).length :=
      eq_length_of_offset_position_skip hn (by rw [← hposition, hplace])
    rwa [List.take_of_length_le (by rw [List.length_map])] at hcompleted
  · have hle : n ≤ i := by
      -- otherwise the hopeless token was taken, and what was taken can be
      -- completed
      refine Nat.le_of_not_lt fun hlt => ?_
      obtain ⟨source', tree, htake, htree⟩ := hcompleted
      exact hhopeless source' tree
        ((List.take_prefix_take_left hlt).trans htake) htree
    obtain ⟨hilt, -⟩ := List.getElem?_eq_some_iff.mp htoken
    obtain ⟨blamed, hblamed⟩ : ∃ blamed, (tokenize source file)[n]? = some blamed :=
      ⟨_, List.getElem?_eq_getElem (Nat.lt_of_le_of_lt hle hilt)⟩
    rw [hposition, position_skip_of_getElem? hblamed]
    rcases Nat.lt_or_eq_of_le hle with hlt | rfl
    · exact Nat.le_of_lt (start_lt_start hblamed htoken hlt)
    · rw [hblamed] at htoken
      cases htoken
      exact Nat.le_refl _

/-- The tokens in front of a `]` can be completed, with it they cannot. So can a
sum without its right operand. -/
theorem exists_completion_bracketInCall :
    parse "f(a, (b ? -c ] d" =
      .error ⟨.mismatchedDelimiter ":" (some "]"), ⟨13, "shell"⟩⟩ ∧
    (∃ source tree,
      ["f", "(", "a", ",", "(", "b", "?", "-", "c"] <+:
        (tokenize source).map Token.text ∧
      parse source = .ok tree) ∧
    (∀ source tree,
      ["f", "(", "a", ",", "(", "b", "?", "-", "c", "]"] <+:
        (tokenize source).map Token.text →
      parse source ≠ .ok tree) ∧
    parse "(1 + " = .error ⟨.unexpectedEnd, ⟨5, "shell"⟩⟩ ∧
    ∃ source tree,
      ["(", "1", "+"] <+: (tokenize source).map Token.text ∧
      parse source = .ok tree := by
  have htoken :
      (tokenize "f(a, (b ? -c ] d")[9]? = some ⟨"]", ⟨"shell", 13, 14⟩⟩ := by
    decide
  have hend : parse "(1 + " = .error ⟨.unexpectedEnd, ⟨5, "shell"⟩⟩ := by
    decide +kernel
  refine ⟨parse_bracketInCall, ?_, fun source tree h => ?_, hend, ?_⟩
  · exact (exists_parse_eq_ok_of_parse_eq_error parse_bracketInCall).1 9 _
      htoken rfl
  · exact parseWith_ne_ok_of_take_prefix parse_bracketInCall htoken rfl h tree
  · exact (exists_parse_eq_ok_of_parse_eq_error hend).2.1 rfl

end Pratt
