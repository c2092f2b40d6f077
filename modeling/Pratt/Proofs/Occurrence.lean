import Pratt.Proofs.Alike
import Pratt.Proofs.Placement

set_option autoImplicit false

/-!
# Only rules of tokens that occur matter

Two grammars that say the same of the tokens of a source parse it alike: as the
same tree, or with the same error at the same place. They need not have the same
terminators. Where a token is left over, each grammar tells by its own ones how
it is called, and nothing else depends on them
(`parseWith_eq_mapError_inTermsOf`).

A rule of power 0 continues nothing, since no expression is read at a
power below 0. So what a token continues is told by
`Grammar.continuation?` at the lowest power.
-/

namespace Pratt

/-! ## Faults in terms of a grammar -/

/-- The fault in terms of a grammar, whose terminators tell how a token that is
left over is called. -/
def Fault.inTermsOf (g : Grammar) : Fault → Fault
  | .unexpectedToken word | .trailingInput word => g.leftover word
  | .unexpectedEnd => .unexpectedEnd
  | .mismatchedDelimiter expected found => .mismatchedDelimiter expected found

/-- The error in terms of a grammar, at the same place. -/
def ParseError.inTermsOf (g : Grammar) (error : ParseError) : ParseError :=
  { error with fault := error.fault.inTermsOf g }

theorem Fault.inTermsOf_leftover (g g' : Grammar) (word : String) :
    (g.leftover word).inTermsOf g' = g'.leftover word := by
  unfold Grammar.leftover
  split <;> rfl

/-- Where an expression or a delimiter is missing, all grammars say it
in the same terms. -/
theorem ParseError.inTermsOf_eq_self {g : Grammar} {error : ParseError}
    (h : ¬ error.fault.IsLeftover) :
    error.inTermsOf g = error := by
  obtain ⟨fault, place⟩ := error
  rcases Fault.not_isLeftover_iff.mp h with heq | ⟨expected, found, heq⟩
  · obtain rfl : fault = .unexpectedEnd := heq
    rfl
  · obtain rfl : fault = .mismatchedDelimiter expected found := heq
    rfl

/-! ## Grammars that say the same of some words -/

theorem PrefixRule.alike_self (rule : PrefixRule) : rule.Alike Eq rule := by
  cases rule with
  | value => exact .value
  | unary power => exact .unary rfl
  | group close => exact .group close

theorem InfixRule.alike_self (rule : InfixRule) : rule.Alike Eq rule := by
  cases rule with
  | binary power associativity => exact .binary rfl
  | conditional power separator => exact .conditional power power separator
  | call power separator close => exact .call power power separator close

namespace Grammar

variable {g g' : Grammar}

/-- What continues an expression at some power is what continues a whole
expression, if it binds tighter. -/
theorem continuation?_eq_filter (g : Grammar) (power : Power) (word : String) :
    g.continuation? power word =
      (g.continuation? .lowest word).filter fun rule => power < rule.power := by
  unfold continuation?
  rw [Option.filter_filter]
  congr 1
  funext rule
  have hpos : power < rule.power → Power.lowest < rule.power :=
    Nat.lt_of_le_of_lt (Nat.zero_le _)
  simpa using fun hlt => hpos hlt

/-- The grammars say the same of each of the words, where rules of power 0 do
not count. -/
def SameRules (g g' : Grammar) (words : List String) : Prop :=
  ∀ word ∈ words, g.prefixRule word = g'.prefixRule word ∧
    g.continuation? .lowest word = g'.continuation? .lowest word

theorem SameRules.alike {words : List String} (h : g.SameRules g' words) :
    g.Alike g' words Eq where
  lowest := rfl
  starts word hword := by
    rw [(h word hword).1]
    exact PrefixRule.alike_self _
  continues word hword power power' hpower := by
    rw [continuation?_eq_filter g, continuation?_eq_filter g', (h word hword).2,
      hpower]
    cases (g'.continuation? .lowest word).filter
        fun rule => power' < rule.power with
    | none => exact .none
    | some rule => exact .some (InfixRule.alike_self rule)

end Grammar

/-! ## Rules that do not matter -/

/-- The rule does not matter for some words: it is for another word, it only
says what the grammar says anyway, or it is about terminators. -/
def Rule.IsIdle (g : Grammar) (words : List String) : Rule → Prop
  | .starts word rule => word ∉ words ∨ rule = .value ∧ g.prefixRule word = .value
  | .continues word rule =>
    word ∉ words ∨ rule.power = 0 ∧ g.continuation? .lowest word = none
  | .terminates _ => True

instance (g : Grammar) (words : List String) : DecidablePred (Rule.IsIdle g words)
  | .starts _ _ | .continues _ _ => inferInstanceAs (Decidable (_ ∨ _))
  | .terminates _ => inferInstanceAs (Decidable True)

theorem Rule.IsIdle.sameRules_add {g : Grammar} {words : List String}
    {rule : Rule} (h : rule.IsIdle g words) :
    (g.add rule).SameRules g words := by
  intro word hword
  unfold Grammar.continuation?
  rw [Grammar.prefixRule_add, Grammar.infixRule?_add]
  cases rule with
  | starts other rule =>
    refine ⟨?_, rfl⟩
    by_cases heq : word = other
    · subst heq
      rcases h with hne | ⟨rfl, hvalue⟩
      · exact absurd hword hne
      · simp only [if_true, hvalue]
    · simp only [if_neg heq]
  | continues other rule =>
    refine ⟨rfl, ?_⟩
    by_cases heq : word = other
    · subst heq
      rcases h with hne | ⟨hpower, hnone⟩
      · exact absurd hword hne
      · unfold Grammar.continuation? at hnone
        rw [hnone]
        simp [hpower, Power.lowest]
    · simp only [if_neg heq]
  | terminates other => exact ⟨rfl, rfl⟩

theorem Rule.IsIdle.of_sameRules {g g' : Grammar} {words : List String}
    {rule : Rule} (h : rule.IsIdle g words) (hsame : g'.SameRules g words) :
    rule.IsIdle g' words := by
  cases rule with
  | starts word rule =>
    by_cases hword : word ∈ words
    · exact h.imp_right fun hvalue =>
        ⟨hvalue.1, (hsame word hword).1.trans hvalue.2⟩
    · exact .inl hword
  | continues word rule =>
    by_cases hword : word ∈ words
    · exact h.imp_right fun hnone => ⟨hnone.1, (hsame word hword).2.trans hnone.2⟩
    · exact .inl hword
  | terminates word => trivial

theorem Grammar.sameRules_addAll {g : Grammar} {words : List String}
    {rules : List Rule} (h : ∀ rule ∈ rules, rule.IsIdle g words) :
    (g.addAll rules).SameRules g words := by
  induction rules generalizing g with
  | nil => exact fun _ _ => ⟨rfl, rfl⟩
  | cons rule rules ih =>
    obtain ⟨hrule, hrules⟩ := List.forall_mem_cons.mp h
    have hfirst := hrule.sameRules_add
    have hothers := ih fun other hother => (hrules other hother).of_sameRules hfirst
    intro word hword
    exact ⟨(hothers word hword).1.trans (hfirst word hword).1,
      (hothers word hword).2.trans (hfirst word hword).2⟩

/-! ## Sources -/

/-- Where no expression can be read, the grammar is not asked how a token is
called. -/
theorem Parser.not_isLeftover_of_expr {g : Grammar} {power : Power}
    {source : String} {file : Option String} {error : ParseError} {s : Scanner}
    (h : expr g power (.ofSource source file) = .error error s) :
    ¬ error.fault.IsLeftover := by
  obtain ⟨i, hfails⟩ := ((Session.fresh source file).blamesFailures g).expr h
  exact Fault.not_isLeftover_iff.mpr hfails.fault

/-- A whole source is one expression, behind which no token may be left. -/
theorem Parser.whole_apply (g : Grammar) (s : Scanner) :
    whole g s =
      match expr g .lowest s with
      | .error error s' => .error error s'
      | .ok tree s' =>
        match s'.consume with
        | (none, s'') => .ok tree s''
        | (some token, s'') => .error ⟨g.leftover token.text, s'.position⟩ s'' := by
  unfold whole
  rw [bind_apply]
  cases expr g .lowest s with
  | error error s' => rfl
  | ok tree s' =>
    simp only [bind_apply, position, advance_apply]
    obtain ⟨found, s''⟩ := s'.consume
    cases found with
    | none => rfl
    | some token =>
      unfold Grammar.leftover
      cases hterminator : g.isTerminator token.text <;>
        simp only [hterminator] <;> rfl

theorem Grammar.SameRules.parseWith_eq {g g' : Grammar} {source : String}
    {file : Option String}
    (h : g.SameRules g' ((tokenize source file).map Token.text)) :
    parseWith g' source file =
      (parseWith g source file).mapError (ParseError.inTermsOf g') := by
  have hexpr :
      Parser.expr g .lowest (.ofSource source file) =
        Parser.expr g' .lowest (.ofSource source file) :=
    (h.alike.agree_expr rfl).same (List.Subset.refl _)
  unfold parseWith Parser.outcome
  rw [Parser.whole_apply, Parser.whole_apply, ← hexpr]
  cases hrun : Parser.expr g .lowest (.ofSource source file) with
  | error error s =>
    exact congrArg Except.error
      (ParseError.inTermsOf_eq_self (Parser.not_isLeftover_of_expr hrun)).symm
  | ok tree s =>
    simp only
    obtain ⟨found, s'⟩ := s.consume
    cases found with
    | none => rfl
    | some token =>
      have hleftover := Fault.inTermsOf_leftover g g' token.text
      simp only [Except.mapError, ParseError.inTermsOf, hleftover]

/-- Grammars that say the same of each token of a source, where rules of
power 0 do not count, parse it as the same tree or with the same error at the
same place, up to how each calls a token that is left over. So it does not
matter what rules are added or replaced for other tokens, nor what is added
that says nothing new. -/
theorem parseWith_eq_mapError_inTermsOf (source : String) (file : Option String) :
    (∀ g g' : Grammar,
      (∀ token ∈ tokenize source file,
        g.prefixRule token.text = g'.prefixRule token.text ∧
          g.continuation? .lowest token.text =
            g'.continuation? .lowest token.text) →
      parseWith g' source file =
        (parseWith g source file).mapError (ParseError.inTermsOf g')) ∧
    ∀ (g : Grammar) (rules : List Rule),
      (∀ rule ∈ rules, rule.IsIdle g ((tokenize source file).map Token.text)) →
      parseWith (g.addAll rules) source file =
        (parseWith g source file).mapError
          (ParseError.inTermsOf (g.addAll rules)) := by
  constructor
  · intro g g' h
    refine Grammar.SameRules.parseWith_eq fun word hword => ?_
    obtain ⟨token, htoken, rfl⟩ := List.mem_map.mp hword
    exact h token htoken
  · intro g rules h
    refine Grammar.SameRules.parseWith_eq fun word hword => ?_
    have hsame := Grammar.sameRules_addAll h word hword
    exact ⟨hsame.1.symm, hsame.2.symm⟩

/-- Sums, groups and calls, and a bracket that closes something. -/
def sums : Grammar :=
  Grammar.empty.addAll
    [.starts "+" (.unary 150), .continues "+" (.binary 120 .left),
      .starts "(" (.group ")"), .continues "(" (.call 170 "," ")"),
      .terminates "]"]

/-- Rules that say nothing new of the tokens of a sum, the last one that a
bracket closes something. -/
def idleRules : List Rule :=
  [.starts "!" (.unary 150), .starts "a" .value,
    .continues "b" (.binary 0 .left), .continues "-" (.binary 7 .right),
    .terminates "]"]

/-- A bracket is left over behind a sum in all three grammars, and closes
something in two of them. -/
theorem parseWith_sums_and_idleRules :
    parseWith .arithmetic "(a + b) ] c" none =
        .error ⟨.unexpectedToken "]", ⟨8, "shell"⟩⟩ ∧
      parseWith sums "(a + b) ] c" none =
        .error ⟨.trailingInput "]", ⟨8, "shell"⟩⟩ ∧
      (∀ rule ∈ idleRules,
        rule.IsIdle .arithmetic
          ((tokenize "(a + b) ] c" none).map Token.text)) ∧
      parseWith (Grammar.arithmetic.addAll idleRules) "(a + b) ] c" none =
        .error ⟨.trailingInput "]", ⟨8, "shell"⟩⟩ := by
  have ⟨hgrammars, hrules⟩ := parseWith_eq_mapError_inTermsOf "(a + b) ] c" none
  have hparse :
      parseWith .arithmetic "(a + b) ] c" none =
        .error ⟨.unexpectedToken "]", ⟨8, "shell"⟩⟩ := by
    decide +kernel
  have hidle : ∀ rule ∈ idleRules,
      rule.IsIdle .arithmetic
        ((tokenize "(a + b) ] c" none).map Token.text) := by
    decide
  refine ⟨hparse, ?_, hidle, ?_⟩
  · rw [hgrammars .arithmetic sums (by decide), hparse]
    rfl
  · rw [hrules .arithmetic idleRules hidle, hparse]
    rfl

end Pratt
