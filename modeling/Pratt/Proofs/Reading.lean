import Pratt.Expr
import Pratt.Grammar

set_option autoImplicit false

/-!
# Readings

What a parser reads when it succeeds, said without a scanner: `Reads g power
input tree rest` relates the texts of the tokens in front of a parser, the tree
it returns and the texts it leaves. The relation has one constructor for each
way in which an expression, its extension or a list of arguments can be read.

What is read is a nonempty front of the input (`Reads.length_lt`), and where it
ends nothing pulls harder than the power it was read at (`Reads.pull_le`).
-/

namespace Pratt

/-! ## How far the next token reaches -/

namespace Grammar

/-- The power of a token that continues an expression, 0 if it cannot. -/
def infixPower (g : Grammar) (token : String) : Power :=
  ((g.infixRule? token).map InfixRule.power).getD 0

theorem infixPower_of_infixRule? {g : Grammar} {token : String} {rule : InfixRule}
    (h : g.infixRule? token = some rule) : g.infixPower token = rule.power := by
  unfold infixPower
  rw [h, Option.map_some, Option.getD_some]

theorem infixPower_of_infixRule?_eq_none {g : Grammar} {token : String}
    (h : g.infixRule? token = none) :
    g.infixPower token = 0 := by
  unfold infixPower
  rw [h, Option.map_none, Option.getD_none]

/-- How tightly the token in front pulls on the expression that ended
before it. A token that cannot continue an expression does not pull, nor
does the end of the input. -/
def pull (g : Grammar) : List String → Power
  | [] => 0
  | token :: _ => g.infixPower token

@[simp] theorem pull_nil (g : Grammar) : g.pull [] = 0 := rfl

@[simp] theorem pull_cons (g : Grammar) (token : String) (rest : List String) :
    g.pull (token :: rest) = g.infixPower token := rfl

theorem continuation?_eq_some_iff {g : Grammar} {power : Power} {token : String}
    {rule : InfixRule} :
    g.continuation? power token = some rule ↔
    g.infixRule? token = some rule ∧ power < rule.power := by
  simp only [continuation?, Option.filter_eq_some_iff, decide_eq_true_eq]

/-- An expression that is read at `power` ends exactly where nothing pulls
harder. -/
theorem bind_continuation?_eq_none_iff {g : Grammar} {power : Power}
    {input : List String} :
    input.head?.bind (g.continuation? power) = none ↔ g.pull input ≤ power := by
  cases input with
  | nil => simp
  | cons token rest =>
    cases h : g.infixRule? token with
    | none => simp [continuation?, h, infixPower]
    | some rule => simp [continuation?, h, infixPower]

/-- What pulls harder than a power is a token that continues an expression
read at that power. -/
theorem exists_rule_of_lt_pull {g : Grammar} {power : Power} {input : List String}
    (h : power < g.pull input) :
    ∃ token rest rule, input = token :: rest ∧
      g.infixRule? token = some rule ∧ power < rule.power := by
  cases input with
  | nil => exact absurd h (Nat.not_lt_zero _)
  | cons token rest =>
    cases hrule : g.infixRule? token with
    | none =>
      rw [pull_cons, infixPower_of_infixRule?_eq_none hrule] at h
      exact absurd h (Nat.not_lt_zero _)
    | some rule =>
      rw [pull_cons, infixPower_of_infixRule? hrule] at h
      exact ⟨token, rest, rule, rfl, hrule, h⟩

end Grammar

/-! ## The relation -/

mutual

/-- An expression is read at `power` from the front of the input. -/
inductive Reads (g : Grammar) : Power → List String → Expr → List String → Prop
  /-- The first token is a value. -/
  | value {power : Power} {token : String} {input rest : List String} {tree : Expr}
      (hrule : g.prefixRule token = .value)
      (hextends : Extends g power (.value token) input tree rest) :
      Reads g power (token :: input) tree rest
  /-- The first token is an operator on the operand behind it. -/
  | unary {power own : Power} {token : String} {input middle rest : List String}
      {operand tree : Expr} (hrule : g.prefixRule token = .unary own)
      (hoperand : Reads g own input operand middle)
      (hextends : Extends g power (.unary token operand) middle tree rest) :
      Reads g power (token :: input) tree rest
  /-- The first token opens a group. -/
  | group {power : Power} {token close : String}
      {input middle rest : List String} {inner tree : Expr}
      (hrule : g.prefixRule token = .group close)
      (hinner : Reads g .lowest input inner (close :: middle))
      (hextends : Extends g power inner middle tree rest) :
      Reads g power (token :: input) tree rest

/-- An expression that was read at `power` is extended by what stands behind it. -/
inductive Extends (g : Grammar) :
    Power → Expr → List String → Expr → List String → Prop
  /-- Nothing pulls harder than `power`. -/
  | stop {power : Power} {left : Expr} {input : List String}
      (hpull : g.pull input ≤ power) :
      Extends g power left input left input
  /-- The next token is an operator between two operands. -/
  | binary {power own : Power} {associativity : Associativity} {token : String}
      {input middle rest : List String} {left right tree : Expr}
      (hrule : g.infixRule? token = some (.binary own associativity))
      (hpower : power < own)
      (hright : Reads g (associativity.rightPower own) input right middle)
      (hextends : Extends g power (.binary token left right) middle tree rest) :
      Extends g power left (token :: input) tree rest
  /-- The next token starts two branches. -/
  | conditional {power own : Power} {token separator : String}
      {input middle after rest : List String}
      {left whenTrue whenFalse tree : Expr}
      (hrule : g.infixRule? token = some (.conditional own separator))
      (hpower : power < own)
      (htrue : Reads g .lowest input whenTrue (separator :: middle))
      (hfalse : Reads g .lowest middle whenFalse after)
      (hextends :
        Extends g power (.conditional left whenTrue whenFalse) after tree rest) :
      Extends g power left (token :: input) tree rest
  /-- The next token opens the arguments of a call. -/
  | call {power own : Power} {token separator close : String}
      {input middle rest : List String} {left tree : Expr} {arguments : List Expr}
      (hrule : g.infixRule? token = some (.call own separator close))
      (hpower : power < own)
      (harguments :
        ReadsArguments g separator close input arguments (close :: middle))
      (hextends : Extends g power (.call left arguments) middle tree rest) :
      Extends g power left (token :: input) tree rest

/-- Arguments are read, up to but without the token that closes them. -/
inductive ReadsArguments (g : Grammar) :
    String → String → List String → List Expr → List String → Prop
  /-- The next token closes the arguments. -/
  | closed {separator close : String} {input : List String}
      (hclose : input.head? = some close) :
      ReadsArguments g separator close input [] input
  /-- No separator follows an argument, which is the last one. -/
  | last {separator close : String} {input rest : List String} {first : Expr}
      (hclose : input.head? ≠ some close)
      (hfirst : Reads g .lowest input first rest)
      (hseparator : rest.head? ≠ some separator) :
      ReadsArguments g separator close input [first] rest
  /-- A separator follows an argument, and more arguments may follow. -/
  | more {separator close : String} {input middle rest : List String}
      {first : Expr} {others : List Expr} (hclose : input.head? ≠ some close)
      (hfirst : Reads g .lowest input first (separator :: middle))
      (hothers : ReadsArguments g separator close middle others rest) :
      ReadsArguments g separator close input (first :: others) rest

end

/-! ## What is left -/

mutual

/-- Reading an expression takes a token. -/
theorem Reads.length_lt {g : Grammar} {power : Power} {input rest : List String}
    {tree : Expr} :
    Reads g power input tree rest → rest.length < input.length
  | .value _ hextends => Nat.lt_succ_of_le hextends.length_le
  | .unary _ hoperand hextends => by
    have h₁ := hoperand.length_lt
    have h₂ := hextends.length_le
    simp only [List.length_cons]
    omega
  | .group _ hinner hextends => by
    have h₁ := hinner.length_lt
    have h₂ := hextends.length_le
    simp only [List.length_cons] at h₁ ⊢
    omega

theorem Extends.length_le {g : Grammar} {power : Power} {left tree : Expr}
    {input rest : List String} :
    Extends g power left input tree rest → rest.length ≤ input.length
  | .stop _ => Nat.le_refl _
  | .binary _ _ hright hextends => by
    have h₁ := hright.length_lt
    have h₂ := hextends.length_le
    simp only [List.length_cons]
    omega
  | .conditional _ _ htrue hfalse hextends => by
    have h₁ := htrue.length_lt
    have h₂ := hfalse.length_lt
    have h₃ := hextends.length_le
    simp only [List.length_cons] at h₁ ⊢
    omega
  | .call _ _ harguments hextends => by
    have h₁ := harguments.length_le
    have h₂ := hextends.length_le
    simp only [List.length_cons] at h₁ ⊢
    omega

theorem ReadsArguments.length_le {g : Grammar} {separator close : String}
    {input rest : List String} {arguments : List Expr} :
    ReadsArguments g separator close input arguments rest →
    rest.length ≤ input.length
  | .closed _ => Nat.le_refl _
  | .last _ hfirst _ => Nat.le_of_lt hfirst.length_lt
  | .more _ hfirst hothers => by
    have h₁ := hfirst.length_lt
    have h₂ := hothers.length_le
    simp only [List.length_cons] at h₁
    omega

end

/-- An extension goes on as long as something pulls harder than its power. -/
theorem Extends.pull_le {g : Grammar} {power : Power} {left tree : Expr}
    {input rest : List String} :
    Extends g power left input tree rest → g.pull rest ≤ power
  | .stop hpull => hpull
  | .binary _ _ _ hextends => hextends.pull_le
  | .conditional _ _ _ _ hextends => hextends.pull_le
  | .call _ _ _ hextends => hextends.pull_le

/-- An expression goes on as long as something pulls harder than its power. -/
theorem Reads.pull_le {g : Grammar} {power : Power} {input rest : List String}
    {tree : Expr} (h : Reads g power input tree rest) :
    g.pull rest ≤ power := by
  cases h with
  | value _ hextends => exact hextends.pull_le
  | unary _ _ hextends => exact hextends.pull_le
  | group _ _ hextends => exact hextends.pull_le

end Pratt
