import Pratt.Proofs.Blame
import Pratt.Proofs.Session

set_option autoImplicit false

/-!
# Where errors are placed

An error tells what was found: the text of a token, or that the source ends. It
is placed where this is so, at the start of that token or at the end of the
source (`ParseError.Blames`), and a parser that fails has taken the tokens up to
and including the one that it blames (`Session.FailsAt`).

Both are read off the demands. A demand is refused for what stands in front of
it (`Runs.describes`), and only the end of the input is ever demanded of a token
that nothing else is wrong with (`Runs.not_isLeftover`).
-/

namespace Pratt

/-! ## Faults and what was found -/

namespace Fault

/-- What was found, by what a fault tells: the text of a token, or nothing at
the end of the source. -/
def found? : Fault → Option String
  | .unexpectedEnd => none
  | .unexpectedToken token => some token
  | .mismatchedDelimiter _ found => found
  | .trailingInput token => some token

/-- A whole expression was read, and a token is left behind it. -/
def IsLeftover : Fault → Prop
  | .unexpectedToken _ | .trailingInput _ => True
  | .unexpectedEnd | .mismatchedDelimiter _ _ => False

theorem not_isLeftover_iff {fault : Fault} :
    ¬ fault.IsLeftover ↔
      fault = .unexpectedEnd ∨
      ∃ expected found, fault = .mismatchedDelimiter expected found := by
  cases fault <;> simp [IsLeftover]

/-- The fault is true of what stands in front of a parser. -/
structure Describes (fault : Fault) (next : Option String) : Prop where
  /-- What the fault tells was found. -/
  found : fault.found? = next
  /-- It is not what was expected. -/
  differs : ∀ expected found,
    fault = .mismatchedDelimiter expected found → found ≠ some expected

end Fault

/-- The fault of a token that is left over. -/
def Grammar.leftover (g : Grammar) (word : String) : Fault :=
  if g.isTerminator word then .trailingInput word else .unexpectedToken word

theorem Grammar.isLeftover_leftover (g : Grammar) (word : String) :
    (g.leftover word).IsLeftover := by
  unfold leftover
  split <;> trivial

theorem Grammar.found?_leftover (g : Grammar) (word : String) :
    (g.leftover word).found? = some word := by
  unfold leftover
  split <;> rfl

theorem PrefixRule.ending_notMem_demands (rule : PrefixRule) :
    Demand.ending ∉ rule.demands := by
  cases rule <;> simp [demands]

theorem InfixRule.ending_notMem_demands (rule : InfixRule) :
    Demand.ending ∉ rule.demands := by
  cases rule <;> simp [demands]

/-- What is demanded behind a move. -/
def Move.demands : Move → List Demand
  | .take new | .settle new => new
  | .refuse _ => []

namespace Demand

variable {g : Grammar} {demand : Demand} {next : Option String} {fault : Fault}

/-- There are three ways to be refused. -/
theorem cases_of_move_eq_refuse (h : demand.move g next = .refuse fault) :
    (∃ power, demand = .operand power ∧ next = none ∧ fault = .unexpectedEnd) ∨
      (∃ text, demand = .token text ∧ next ≠ some text ∧
        fault = .mismatchedDelimiter text next) ∨
      ∃ word, demand = .ending ∧ next = some word ∧ fault = g.leftover word := by
  cases demand with
  | operand power =>
    cases next with
    | none => exact .inl ⟨power, rfl, rfl, (Move.refuse.inj h).symm⟩
    | some word => cases h
  | token text =>
    rw [move] at h
    split at h
    · cases h
    · next hne => exact .inr (.inl ⟨text, rfl, hne, (Move.refuse.inj h).symm⟩)
  | ending =>
    cases next with
    | none => cases h
    | some word => exact .inr (.inr ⟨word, rfl, rfl, (Move.refuse.inj h).symm⟩)
  | extension power | arguments separator close | others separator close =>
    rw [move] at h
    split at h <;> cases h

/-- A demand is refused for what stands in front of it. -/
theorem describes_of_move (h : demand.move g next = .refuse fault) :
    fault.Describes next := by
  rcases cases_of_move_eq_refuse h
    with ⟨power, -, rfl, rfl⟩ | ⟨text, -, hne, rfl⟩ | ⟨word, -, rfl, rfl⟩
  · exact ⟨rfl, nofun⟩
  · constructor
    · rfl
    · intro expected found heq
      obtain ⟨rfl, rfl⟩ := Fault.mismatchedDelimiter.inj heq
      exact hne
  · constructor
    · exact g.found?_leftover word
    · intro expected found heq
      have hleftover := g.isLeftover_leftover word
      rw [heq] at hleftover
      exact hleftover.elim

/-- A token is left over only where the end of the input is demanded. -/
theorem not_isLeftover_of_move (h : demand.move g next = .refuse fault)
    (hdemand : demand ≠ .ending) :
    ¬ fault.IsLeftover := by
  rcases cases_of_move_eq_refuse h
    with ⟨power, -, -, rfl⟩ | ⟨text, -, -, rfl⟩ | ⟨word, heq, -, -⟩
  · exact id
  · exact id
  · exact absurd heq hdemand

/-- The end of the input is not demanded on the way. -/
theorem ending_notMem_demands_move (g : Grammar) (demand : Demand)
    (next : Option String) :
    ending ∉ (demand.move g next).demands := by
  cases demand with
  | operand power =>
    cases next with
    | none => exact List.not_mem_nil
    | some word =>
      simpa [move, Move.demands] using (g.prefixRule word).ending_notMem_demands
  | extension power =>
    rw [move]
    split
    · exact List.not_mem_nil
    · next rule _ => simpa [Move.demands] using rule.ending_notMem_demands
  | token text | arguments separator close | others separator close =>
    rw [move]
    split <;> simp [Move.demands]
  | ending => cases next <;> exact List.not_mem_nil

end Demand

namespace Runs

variable {g : Grammar} {demands : List Demand} {input rest : List String}
  {verdict : Verdict} {fault : Fault}

/-- The fault of a run is true of what stands behind the tokens that were taken. -/
theorem describes (h : Runs g demands input verdict rest)
    (hverdict : verdict = .refused fault) :
    fault.Describes rest.head? := by
  induction h with
  | met => cases hverdict
  | refuse hmove =>
    obtain rfl := Verdict.refused.inj hverdict
    exact Demand.describes_of_move hmove
  | take _ _ ih => exact ih hverdict
  | settle _ _ ih => exact ih hverdict

/-- Where the end of the input is not demanded, no token is left over. -/
theorem not_isLeftover (h : Runs g demands input verdict rest)
    (hverdict : verdict = .refused fault) (hending : .ending ∉ demands) :
    ¬ fault.IsLeftover := by
  induction h with
  | met => cases hverdict
  | refuse hmove =>
    obtain rfl := Verdict.refused.inj hverdict
    exact Demand.not_isLeftover_of_move hmove (List.ne_of_not_mem_cons hending).symm
  | @take demand _ _ token _ _ _ hmove _ ih =>
    -- the end of the input is in no list of demands that a move leads to
    have hnew := Demand.ending_notMem_demands_move g demand (some token)
    rw [hmove] at hnew
    exact ih hverdict
      (List.not_mem_append hnew (List.not_mem_of_not_mem_cons hending))
  | @settle demand _ _ input _ _ hmove _ ih =>
    have hnew := Demand.ending_notMem_demands_move g demand input.head?
    rw [hmove] at hnew
    exact ih hverdict
      (List.not_mem_append hnew (List.not_mem_of_not_mem_cons hending))

end Runs

/-! ## Errors and their places -/

/-- The error blames the token of a source with the number `i`, or the end
of the source if there is no such token. Its place is there, and it tells
what stands there. -/
structure ParseError.Blames (error : ParseError) (source : String)
    (file : Option String) (i : Nat) : Prop where
  /-- The place bears the name of the source. -/
  name : error.position.file = file.getD "shell"
  /-- Where nothing was found, all tokens are in front of the place, which is
  the end of the source. -/
  ending : error.fault.found? = none →
    i = (tokenize source file).length ∧ error.position.offset = source.utf8ByteSize
  /-- Where a text was found, it is that of the token, and the place is
  where the token starts. -/
  token : ∀ text, error.fault.found? = some text →
    ∃ token, (tokenize source file)[i]? = some token ∧
      token.text = text ∧ error.position.offset = token.span.start
  /-- What was found is not what was expected. -/
  differs : ∀ expected found,
    error.fault = .mismatchedDelimiter expected (some found) → found ≠ expected

/-- A fault that is true of what stands behind some tokens of a source, at the
place of a cursor there. -/
theorem Fault.Describes.blames {source : String} {file : Option String}
    {fault : Fault} {i : Nat}
    (h : fault.Describes (((tokenize source file).map Token.text).drop i).head?)
    (hi : i ≤ (tokenize source file).length) :
    ParseError.Blames ⟨fault, ((Cursor.ofSource source file).skip i).position⟩
      source file i := by
  rw [List.head?_drop, List.getElem?_map] at h
  have hdiffers : ∀ expected found,
      fault = .mismatchedDelimiter expected (some found) →
      found ≠ expected := by
    intro expected found heq hfound
    exact h.differs expected _ heq (congrArg some hfound)
  cases hget : (tokenize source file)[i]? with
  | none =>
    have hfound : fault.found? = none := by rw [h.found, hget, Option.map_none]
    obtain rfl : i = (tokenize source file).length :=
      Nat.le_antisymm hi (List.getElem?_eq_none_iff.mp hget)
    rw [position_skip_length]
    refine ⟨rfl, ?_, ?_, hdiffers⟩
    · intro _
      exact ⟨rfl, rfl⟩
    · intro text htext
      rw [hfound] at htext
      cases htext
  | some token =>
    have hfound : fault.found? = some token.text := by
      rw [h.found, hget, Option.map_some]
    rw [position_skip_of_getElem? hget]
    refine ⟨?_, ?_, ?_, hdiffers⟩
    · exact (isTokenization_tokenize source file).files token
        (List.mem_of_getElem? hget)
    · intro hnone
      rw [hfound] at hnone
      cases hnone
    · intro text htext
      exact ⟨token, hget, Option.some.inj (hfound.symm.trans htext), rfl⟩

/-! ## Calls that fail -/

/-- At the end a cursor does not move, so it need not be moved further
than there are tokens. -/
theorem Cursor.exists_skip_eq (n : Nat) (c : Cursor) :
    ∃ m ≤ c.remaining, c.skip m = c.skip n := by
  induction n generalizing c with
  | zero => exact ⟨0, Nat.zero_le _, rfl⟩
  | succ n ih =>
    cases hcurrent : c.current with
    | none =>
      obtain ⟨m, hm, heq⟩ := ih c
      exact ⟨m, hm, by rw [skip_succ, advance_of_current_eq_none hcurrent, heq]⟩
    | some token =>
      obtain ⟨m, hm, heq⟩ := ih c.advance
      have hlt := remaining_advance_lt hcurrent
      exact ⟨m + 1, by omega, heq⟩

namespace Session

/-- A call of a parser in use ended with an error and left a scanner: a token
that was still to come is blamed, or the end of the source, and it is the last
one that was taken. -/
structure StopsAt (g : Grammar) (u : Session) (error : ParseError) (s : Scanner)
    (i : Nat) : Prop where
  /-- The token was not taken before. -/
  suffix : (tokenize u.source u.file).drop i <:+ u.tokens g
  /-- The error is at the token, or at the end. -/
  blames : error.Blames u.source u.file i
  /-- The token was taken, and none behind it. -/
  tokens : s.toList = (tokenize u.source u.file).drop (i + 1)

/-- The call ended since something is missing. -/
structure FailsAt (g : Grammar) (u : Session) (error : ParseError) (s : Scanner)
    (i : Nat) : Prop extends StopsAt g u error s i where
  /-- An expression is missing, or a delimiter is. -/
  fault : error.fault = .unexpectedEnd ∨
    ∃ expected found, error.fault = .mismatchedDelimiter expected found

/-- Whatever is demanded of a parser in use, an error blames what stands behind
some more tokens of its source, and these and the one that is blamed are taken. -/
theorem exists_stopsAt {α : Type} {g : Grammar} {u : Session}
    {demands : List Demand} {parser : Parser α} {error : ParseError}
    {s : Scanner} (h : ∀ c, parser.Performs g demands c)
    (hrun : parser (u.scanner g) = .error error s) :
    ∃ i,
      u.StopsAt g error s i ∧
      ∃ input rest, Runs g demands input (.refused error.fault) rest := by
  obtain ⟨k, hfollows⟩ := u.exists_follows g
  -- a session may have asked for more tokens than there are, so `k` need not be
  -- a number of one
  obtain ⟨m, hm, heq⟩ := (Cursor.ofSource u.source u.file).exists_skip_eq k
  rw [← heq] at hfollows
  obtain ⟨n, hn, hruns, hplace, hs⟩ := (h _).error hfollows hrun
  have hdescribes := hruns.describes rfl
  rw [← Cursor.skip_add] at hplace hs
  rw [Cursor.remaining_skip] at hn
  rw [Cursor.texts_skip, List.drop_drop] at hdescribes
  have hremaining :
      (Cursor.ofSource u.source u.file).remaining =
        (tokenize u.source u.file).length :=
    rfl
  obtain ⟨fault, place⟩ := error
  obtain rfl : place = _ := hplace
  refine ⟨m + n, ⟨?_, hdescribes.blames (by omega), ?_⟩, _, _, hruns⟩
  · have htokens : u.tokens g = (tokenize u.source u.file).drop m :=
      hfollows.toList.trans (Cursor.tokens_drop_skip m _)
    rw [htokens, ← List.drop_drop]
    exact List.drop_suffix n _
  · rw [hs.toList, Nat.add_assoc, Cursor.tokens_drop_skip]
    rfl

theorem exists_failsAt {α : Type} {g : Grammar} {u : Session}
    {demands : List Demand} {parser : Parser α} {error : ParseError}
    {s : Scanner} (h : ∀ c, parser.Performs g demands c)
    (hending : .ending ∉ demands)
    (hrun : parser (u.scanner g) = .error error s) :
    ∃ i, u.FailsAt g error s i := by
  obtain ⟨i, hstops, input, rest, hruns⟩ := exists_stopsAt h hrun
  exact ⟨i, hstops, Fault.not_isLeftover_iff.mp (hruns.not_isLeftover rfl hending)⟩

/-- Whatever a parser in use is asked to read, an error blames what is in the
way. -/
structure BlamesFailures (g : Grammar) (u : Session) : Prop where
  expect : ∀ {expected : String} {error : ParseError} {s : Scanner},
    Parser.expect expected (u.scanner g) = .error error s →
    ∃ i, u.FailsAt g error s i
  expr : ∀ {power : Power} {error : ParseError} {s : Scanner},
    Parser.expr g power (u.scanner g) = .error error s → ∃ i, u.FailsAt g error s i
  starts : ∀ {rule : PrefixRule} {token : Token} {error : ParseError} {s : Scanner},
    rule.parse g token (u.scanner g) = .error error s → ∃ i, u.FailsAt g error s i
  continues : ∀ {rule : InfixRule} {left : Expr} {token : Token}
      {error : ParseError} {s : Scanner},
    rule.parse g left token (u.scanner g) = .error error s →
    ∃ i, u.FailsAt g error s i
  /-- Here a token may be left over. -/
  whole : ∀ {error : ParseError} {s : Scanner},
    Parser.whole g (u.scanner g) = .error error s → ∃ i, u.StopsAt g error s i

theorem blamesFailures (u : Session) (g : Grammar) : u.BlamesFailures g where
  expect := exists_failsAt (Parser.performs_expect g _) (by simp)
  expr := exists_failsAt (Parser.performs_expr g _) (by simp)
  starts {rule token _ _} :=
    exists_failsAt (rule.performs_parse g token) rule.ending_notMem_demands
  continues {rule left token _ _} :=
    exists_failsAt (rule.performs_parse g left token) rule.ending_notMem_demands
  whole hrun := by
    obtain ⟨i, hstops, -⟩ := exists_stopsAt (Parser.performs_whole g) hrun
    exact ⟨i, hstops⟩

end Session

/-- A source is parsed by a parser that was not used yet. -/
theorem exists_blames_of_parseWith_eq_error {g : Grammar} {source : String}
    {file : Option String} {error : ParseError}
    (h : parseWith g source file = .error error) :
    ∃ i, error.Blames source file i := by
  obtain ⟨s, hrun⟩ := Parser.outcome_eq_error_iff.mp h
  obtain ⟨i, hstops⟩ := ((Session.fresh source file).blamesFailures g).whole hrun
  exact ⟨i, hstops.blames⟩

/-- An error tells what was found, and is at the start of the token with this
text or at the end of the source. A parser in use that fails has taken the
tokens up to and including the blamed one. Except for tokens that are left over
behind a whole expression, only an expression or a delimiter is ever missing. -/
theorem errors_blame_what_was_found (g : Grammar) :
    (∀ (source : String) (file : Option String) (error : ParseError),
      parseWith g source file = .error error → ∃ i, error.Blames source file i) ∧
    ∀ u : Session, u.BlamesFailures g := by
  constructor
  · intro source file error herror
    exact exists_blames_of_parseWith_eq_error herror
  · intro u
    exact u.blamesFailures g

/-- A conditional in a call that meets a `]`, and a group that meets the end of
its source after another one failed. -/
theorem errors_blame_bracket_and_end :
    (∃ i,
      ParseError.Blames ⟨.mismatchedDelimiter ":" (some "]"), ⟨13, "shell"⟩⟩
        "f(a, (b ? -c ] d" none i) ∧
    ∃ s i, Session.FailsAt .arithmetic ⟨"(a ] (b + ", some "notes", [.expr .lowest]⟩
      ⟨.unexpectedEnd, ⟨10, "notes"⟩⟩ s i := by
  have ⟨hparse, hsessions⟩ := errors_blame_what_was_found .arithmetic
  have hfails : (Parser.expr .arithmetic .lowest).outcome
      (Session.scanner .arithmetic ⟨"(a ] (b + ", some "notes", [.expr .lowest]⟩) =
        .error ⟨.unexpectedEnd, ⟨10, "notes"⟩⟩ := by decide +kernel
  obtain ⟨s, hrun⟩ := Parser.outcome_eq_error_iff.mp hfails
  exact ⟨hparse _ _ _ parse_bracketInCall, s, (hsessions _).expr hrun⟩

end Pratt
