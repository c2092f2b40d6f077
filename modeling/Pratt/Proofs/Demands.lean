import Pratt.Grammar
import Pratt.ParseError

set_option autoImplicit false

/-!
# What a parser still has to find

A parser that reads tokens from front to back is told at each moment by what it
still has to find: the rest of a group, the second branch of a conditional, the
arguments of a call. These are its demands, the most urgent one first, and one
look at the next token tells what becomes of the first of them (`Demand.move`):
the token is taken, the demand gives way to others, or the token is refused.

`Runs` follows the demands through an input. It forgets the trees that are
built, and keeps which tokens are taken and which one is refused with which
fault. No step looks behind the next token, so neither do runs
(`Runs.exists_front`).
-/

namespace Pratt

/-! ## Demands -/

/-- Something that has to be found in the input. -/
inductive Demand where
  /-- An expression that is read at `power`. -/
  | operand (power : Power)
  /-- Tokens that extend an expression read at `power`, as many as there are. -/
  | extension (power : Power)
  /-- A token of the given text. -/
  | token (text : String)
  /-- Arguments with `separator` between them, up to but without `close`. -/
  | arguments (separator close : String)
  /-- What stands behind an argument: a separator and other arguments, or
  nothing. -/
  | others (separator close : String)
  /-- The end of the input. -/
  | ending
  deriving DecidableEq, Repr, Inhabited

/-- What becomes of a demand. -/
inductive Move where
  /-- The next token is taken, and the given demands come next. -/
  | take (demands : List Demand)
  /-- Nothing is taken, and the given demands come instead. -/
  | settle (demands : List Demand)
  /-- The demand cannot be met. -/
  | refuse (fault : Fault)
  deriving DecidableEq, Repr, Inhabited

/-- What is demanded behind a token that starts an expression, before the
expression is extended. -/
def PrefixRule.demands : PrefixRule → List Demand
  | .value => []
  | .unary power => [.operand power]
  | .group close => [.operand .lowest, .token close]

/-- What is demanded behind a token that continues an expression. -/
def InfixRule.demands : InfixRule → List Demand
  | .binary power associativity => [.operand (associativity.rightPower power)]
  | .conditional _ separator =>
    [.operand .lowest, .token separator, .operand .lowest]
  | .call _ separator close => [.arguments separator close, .token close]

/-- What becomes of a demand in front of a token, or of the end of the input. -/
def Demand.move (g : Grammar) (next : Option String) : Demand → Move
  | .operand power =>
    match next with
    | none => .refuse .unexpectedEnd
    | some word => .take ((g.prefixRule word).demands ++ [.extension power])
  | .extension power =>
    match next.bind (g.continuation? power) with
    | none => .settle []
    | some rule => .take (rule.demands ++ [.extension power])
  | .token text =>
    if next = some text then .take [] else .refuse (.mismatchedDelimiter text next)
  | .arguments separator close =>
    if next = some close then .settle []
    else .settle [.operand .lowest, .others separator close]
  | .others separator close =>
    if next = some separator then .take [.arguments separator close] else .settle []
  | .ending =>
    match next with
    | none => .settle []
    | some word =>
      .refuse
        (if g.isTerminator word then .trailingInput word else .unexpectedToken word)

/-! ## Runs -/

/-- How a run ends. -/
inductive Verdict where
  /-- All demands were met. -/
  | met
  /-- A demand could not be met. -/
  | refused (fault : Fault)
  deriving DecidableEq, Repr, Inhabited

/-- The demands are followed through the input, and the rest of it is left. -/
inductive Runs (g : Grammar) :
    List Demand → List String → Verdict → List String → Prop
  /-- Nothing is demanded any more. -/
  | met {input : List String} : Runs g [] input .met input
  /-- The first demand cannot be met. -/
  | refuse {demand : Demand} {demands : List Demand} {input : List String}
      {fault : Fault} (hmove : demand.move g input.head? = .refuse fault) :
      Runs g (demand :: demands) input (.refused fault) input
  /-- The next token is taken. -/
  | take {demand : Demand} {demands new : List Demand} {token : String}
      {input rest : List String} {verdict : Verdict}
      (hmove : demand.move g (some token) = .take new)
      (hrest : Runs g (new ++ demands) input verdict rest) :
      Runs g (demand :: demands) (token :: input) verdict rest
  /-- The first demand gives way to others. -/
  | settle {demand : Demand} {demands new : List Demand}
      {input rest : List String} {verdict : Verdict}
      (hmove : demand.move g input.head? = .settle new)
      (hrest : Runs g (new ++ demands) input verdict rest) :
      Runs g (demand :: demands) input verdict rest

namespace Runs

variable {g : Grammar} {demands later : List Demand}
  {input middle rest rest' : List String} {verdict verdict' : Verdict}
  {fault : Fault}

/-- Later demands wait until the earlier ones are met, and do not help where
these are refused. -/
theorem append_cases (h : Runs g demands input verdict middle)
    (later : List Demand) :
    (verdict = .met → ∀ verdict' rest, Runs g later middle verdict' rest →
      Runs g (demands ++ later) input verdict' rest) ∧
    (verdict ≠ .met → Runs g (demands ++ later) input verdict middle) := by
  induction h with
  | met => exact ⟨fun _ _ _ hlater => hlater, fun hne => absurd rfl hne⟩
  | refuse hmove => exact ⟨nofun, fun _ => .refuse hmove⟩
  | take hmove _ ih =>
    rw [List.append_assoc] at ih
    exact ⟨fun hmet _ _ hlater => .take hmove (ih.1 hmet _ _ hlater),
      fun hne => .take hmove (ih.2 hne)⟩
  | settle hmove _ ih =>
    rw [List.append_assoc] at ih
    exact ⟨fun hmet _ _ hlater => .settle hmove (ih.1 hmet _ _ hlater),
      fun hne => .settle hmove (ih.2 hne)⟩

theorem append (h : Runs g demands input .met middle)
    (hlater : Runs g later middle verdict rest) :
    Runs g (demands ++ later) input verdict rest :=
  (h.append_cases later).1 rfl _ _ hlater

theorem append_of_refused (h : Runs g demands input (.refused fault) rest)
    (later : List Demand) :
    Runs g (demands ++ later) input (.refused fault) rest :=
  (h.append_cases later).2 nofun

/-- A run is divided between its first demands and the later ones, or ends where
the first are refused. -/
theorem split (h : Runs g (demands ++ later) input verdict rest) :
    (∃ middle, Runs g demands input .met middle ∧
        Runs g later middle verdict rest) ∨
      Runs g demands input verdict rest ∧ verdict ≠ .met := by
  generalize hall : demands ++ later = all at h
  induction h generalizing demands with
  | met =>
    obtain ⟨rfl, rfl⟩ := List.append_eq_nil_iff.mp hall
    exact .inl ⟨_, .met, .met⟩
  | refuse hmove =>
    cases demands with
    | nil =>
      obtain rfl : later = _ := hall
      exact .inl ⟨_, .met, .refuse hmove⟩
    | cons demand demands =>
      obtain ⟨rfl, -⟩ := List.cons.inj hall
      exact .inr ⟨.refuse hmove, nofun⟩
  | take hmove hrest ih =>
    cases demands with
    | nil =>
      obtain rfl : later = _ := hall
      exact .inl ⟨_, .met, .take hmove hrest⟩
    | cons demand demands =>
      obtain ⟨rfl, rfl⟩ := List.cons.inj hall
      rcases ih (List.append_assoc ..) with ⟨middle, hfirst, hlater⟩ | ⟨hfirst, hne⟩
      · exact .inl ⟨middle, .take hmove hfirst, hlater⟩
      · exact .inr ⟨.take hmove hfirst, hne⟩
  | settle hmove hrest ih =>
    cases demands with
    | nil =>
      obtain rfl : later = _ := hall
      exact .inl ⟨_, .met, .settle hmove hrest⟩
    | cons demand demands =>
      obtain ⟨rfl, rfl⟩ := List.cons.inj hall
      rcases ih (List.append_assoc ..) with ⟨middle, hfirst, hlater⟩ | ⟨hfirst, hne⟩
      · exact .inl ⟨middle, .settle hmove hfirst, hlater⟩
      · exact .inr ⟨.settle hmove hfirst, hne⟩

/-- An input is followed in one way only. -/
theorem unique (h : Runs g demands input verdict rest)
    (h' : Runs g demands input verdict' rest') :
    verdict = verdict' ∧ rest = rest' := by
  induction h with
  | met =>
    cases h'
    exact ⟨rfl, rfl⟩
  | refuse hmove =>
    cases h' with
    | refuse hmove' =>
      cases hmove.symm.trans hmove'
      exact ⟨rfl, rfl⟩
    | take hmove' _ => cases hmove.symm.trans hmove'
    | settle hmove' _ => cases hmove.symm.trans hmove'
  | take hmove _ ih =>
    cases h' with
    | refuse hmove' => cases hmove.symm.trans hmove'
    | take hmove' hrest' =>
      cases hmove.symm.trans hmove'
      exact ih hrest'
    | settle hmove' _ => cases hmove.symm.trans hmove'
  | settle hmove _ ih =>
    cases h' with
    | refuse hmove' => cases hmove.symm.trans hmove'
    | take hmove' _ => cases hmove.symm.trans hmove'
    | settle hmove' hrest' =>
      cases hmove.symm.trans hmove'
      exact ih hrest'

theorem unique_of_drop {n m : Nat}
    (h : Runs g demands input verdict (input.drop n))
    (h' : Runs g demands input verdict' (input.drop m)) (hn : n ≤ input.length)
    (hm : m ≤ input.length) :
    verdict = verdict' ∧ n = m := by
  obtain ⟨hverdict, hrest⟩ := h.unique h'
  have hlength := congrArg List.length hrest
  rw [List.length_drop, List.length_drop] at hlength
  exact ⟨hverdict, by omega⟩

theorem head?_append_of_head?_eq (front : List String)
    (h : rest'.head? = rest.head?) :
    (front ++ rest').head? = (front ++ rest).head? := by
  cases front with
  | nil => exact h
  | cons token front => rfl

/-- A run takes the front of its input. It is the same in front of any input
that goes on with the same token, or that ends there as well. -/
theorem exists_front (h : Runs g demands input verdict rest) :
    ∃ front, input = front ++ rest ∧
      ∀ rest' : List String, rest'.head? = rest.head? →
        Runs g demands (front ++ rest') verdict rest' := by
  induction h with
  | met => exact ⟨[], rfl, fun rest' _ => .met⟩
  | refuse hmove =>
    refine ⟨[], rfl, fun rest' hhead => .refuse ?_⟩
    rwa [List.nil_append, hhead]
  | take hmove _ ih =>
    obtain ⟨front, rfl, hruns⟩ := ih
    exact ⟨_ :: front, rfl, fun rest' hhead => .take hmove (hruns rest' hhead)⟩
  | settle hmove _ ih =>
    obtain ⟨front, rfl, hruns⟩ := ih
    refine ⟨front, rfl, fun rest' hhead => .settle ?_ (hruns rest' hhead)⟩
    rwa [head?_append_of_head?_eq front hhead]

/-- A run that takes `n` tokens depends on these and on the next one only. -/
theorem of_take_eq {input' : List String} {n : Nat}
    (h : Runs g demands input verdict (input.drop n))
    (htake : input'.take (n + 1) = input.take (n + 1)) :
    Runs g demands input' verdict (input'.drop n) := by
  have hhead : (input'.drop n).head? = (input.drop n).head? := by
    simpa [List.getElem?_take] using congrArg (·[n]?) htake
  have hfront : input'.take n = input.take n := by
    simpa [List.take_take] using congrArg (List.take n) htake
  obtain ⟨front, heq, hsame⟩ := h.exists_front
  obtain rfl : front = input'.take n := by
    rw [hfront]
    exact (List.append_cancel_right
      ((List.take_append_drop n input).trans heq)).symm
  have hruns := hsame _ hhead
  rwa [List.take_append_drop] at hruns

end Runs

end Pratt
