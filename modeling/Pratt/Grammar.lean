import Pratt.Table

set_option autoImplicit false

/-!
# Operator grammars

A grammar says for each token how it starts an expression, how it continues one,
and whether it closes a construct. Operators are ranked by binding power: the
operand of an operator holds those operators only that bind tighter. A token
without a prefix rule is a value.
-/

namespace Pratt

/-- How tightly an operator holds on to its operands; higher binds tighter. -/
abbrev Power := Nat

/-- One step less, so that an equal operator to the right is taken in; 0 stays
0. -/
def Power.weaker (power : Power) : Power := power - 1

/-- The power of a whole expression: every operator of positive power may occur
in it. -/
def Power.lowest : Power := 0

/-- To which side operators of one power are grouped. -/
inductive Associativity where
  /-- The first operator is taken first. -/
  | left
  /-- The last operator is taken first. -/
  | right
  deriving DecidableEq, Repr, Inhabited

/-- The power that the right operand of a binary operator is read at. -/
def Associativity.rightPower (associativity : Associativity)
    (power : Power) : Power :=
  match associativity with
  | .left => power
  | .right => power.weaker

/-- How a token starts an expression. -/
inductive PrefixRule where
  /-- The token is an expression by itself. -/
  | value
  /-- The token is an operator on an operand that is read at `power`. -/
  | unary (power : Power)
  /-- The token opens an expression that `close` ends. -/
  | group (close : String)
  deriving DecidableEq, Repr, Inhabited

/-- How a token continues an expression that stands to its left. -/
inductive InfixRule where
  /-- The token is an operator with an operand to its right. -/
  | binary (power : Power) (associativity : Associativity)
  /-- The token starts two branches with `separator` between them. -/
  | conditional (power : Power) (separator : String)
  /-- The token opens arguments with `separator` between them, which `close`
  ends. -/
  | call (power : Power) (separator close : String)
  deriving DecidableEq, Repr, Inhabited

/-- How tightly the token of a rule holds on to what stands to its left. -/
def InfixRule.power : InfixRule → Power
  | .binary power _ => power
  | .conditional power _ => power
  | .call power _ _ => power

/-- The rules of a language of expressions. The terminators are the tokens that
close some construct. -/
structure Grammar where
  prefixRules : Table PrefixRule
  infixRules : Table InfixRule
  terminators : Table Unit
  deriving DecidableEq, Repr, Inhabited

/-- What may be said of a token in a grammar. -/
inductive Rule where
  /-- The token starts an expression. -/
  | starts (token : String) (rule : PrefixRule)
  /-- The token continues an expression. -/
  | continues (token : String) (rule : InfixRule)
  /-- The token closes some construct. -/
  | terminates (token : String)
  deriving DecidableEq, Repr, Inhabited

namespace Grammar

/-- The grammar without rules. Every token is a value. -/
def empty : Grammar := ⟨.empty, .empty, .empty⟩

/-- Adds a rule, which replaces an earlier rule of its kind for its token. -/
def add (g : Grammar) : Rule → Grammar
  | .starts token rule => { g with prefixRules := g.prefixRules.insert token rule }
  | .continues token rule => { g with infixRules := g.infixRules.insert token rule }
  | .terminates token => { g with terminators := g.terminators.insert token () }

/-- Adds rules in order. -/
def addAll (g : Grammar) (rules : List Rule) : Grammar := rules.foldl add g

/-- How a token starts an expression. -/
def prefixRule (g : Grammar) (token : String) : PrefixRule :=
  (g.prefixRules.find? token).getD .value

/-- How a token continues an expression, if it can. -/
def infixRule? (g : Grammar) (token : String) : Option InfixRule :=
  g.infixRules.find? token

/-- How a token continues an expression that is read at `power`, if it can. -/
def continuation? (g : Grammar) (power : Power) (token : String) :
    Option InfixRule :=
  (g.infixRule? token).filter fun rule => power < rule.power

/-- Whether a token closes some construct. -/
def isTerminator (g : Grammar) (token : String) : Bool :=
  (g.terminators.find? token).isSome

/-- The rules of arithmetic with conditionals and calls, from the weakest
operator to the tightest. -/
def arithmeticRules : List Rule :=
  [ .continues "?" (.conditional 30 ":"),
    .continues "+" (.binary 120 .left),
    .continues "-" (.binary 120 .left),
    .continues "*" (.binary 130 .left),
    .continues "/" (.binary 130 .left),
    .continues "^" (.binary 140 .right),
    .starts "+" (.unary 150),
    .starts "-" (.unary 150),
    .starts "(" (.group ")"),
    .continues "(" (.call 170 "," ")"),
    .terminates ")",
    .terminates ":",
    .terminates "," ]

/-- Arithmetic with conditionals and calls. -/
def arithmetic : Grammar := empty.addAll arithmeticRules

/-! ## Look-ups after a rule was added -/

theorem prefixRule_add (g : Grammar) (rule : Rule) (token : String) :
    (g.add rule).prefixRule token =
      match rule with
      | .starts other found => if token = other then found else g.prefixRule token
      | _ => g.prefixRule token := by
  cases rule with
  | starts other found =>
    simp only [prefixRule, add, Table.find?_insert]
    split <;> rfl
  | _ => rfl

theorem infixRule?_add (g : Grammar) (rule : Rule) (token : String) :
    (g.add rule).infixRule? token =
      match rule with
      | .continues other found =>
        if token = other then some found else g.infixRule? token
      | _ => g.infixRule? token := by
  cases rule with
  | continues other found => exact Table.find?_insert ..
  | _ => rfl

theorem isTerminator_add (g : Grammar) (rule : Rule) (token : String) :
    (g.add rule).isTerminator token =
      match rule with
      | .terminates other => token == other || g.isTerminator token
      | _ => g.isTerminator token := by
  cases rule with
  | terminates other =>
    simp only [isTerminator, add, Table.find?_insert]
    by_cases h : token = other <;> simp [h]
  | _ => rfl

end Grammar

end Pratt
