import Pratt.Proofs.Reading
import Pratt.Proofs.Session

set_option autoImplicit false

/-!
# How trees are spelled

`Spells g words tree` says that the words, one after the other, are the tokens
of the tree. Where parentheses stand and whether a separator closes the
arguments of a call is not in the tree, so a tree has many spellings. Powers do
not matter here: they decide which of the trees with one spelling is read.

The tokens that a parser takes spell the tree that it returns
(`Reads.exists_spells`), in any grammar: none is lost, doubled, moved or made
up.
-/

namespace Pratt

mutual

/-- The words spell the tree, with the rules of a grammar. -/
inductive Spells (g : Grammar) : List String → Expr → Prop
  /-- A value is its own spelling. -/
  | value {token : String} (hrule : g.prefixRule token = .value) :
      Spells g [token] (.value token)
  /-- An operator stands in front of its operand. -/
  | unary {power : Power} {token : String} {words : List String} {operand : Expr}
      (hrule : g.prefixRule token = .unary power)
      (hoperand : Spells g words operand) :
      Spells g (token :: words) (.unary token operand)
  /-- Any tree may be enclosed. -/
  | group {token close : String} {words : List String} {inner : Expr}
      (hrule : g.prefixRule token = .group close) (hinner : Spells g words inner) :
      Spells g (token :: (words ++ [close])) inner
  /-- An operator stands between its operands. -/
  | binary {power : Power} {associativity : Associativity} {token : String}
      {first second : List String} {left right : Expr}
      (hrule : g.infixRule? token = some (.binary power associativity))
      (hleft : Spells g first left) (hright : Spells g second right) :
      Spells g (first ++ token :: second) (.binary token left right)
  /-- A condition stands in front of its branches, which a separator keeps
  apart. -/
  | conditional {power : Power} {token separator : String}
      {first second third : List String} {condition whenTrue whenFalse : Expr}
      (hrule : g.infixRule? token = some (.conditional power separator))
      (hcondition : Spells g first condition) (htrue : Spells g second whenTrue)
      (hfalse : Spells g third whenFalse) :
      Spells g (first ++ token :: (second ++ separator :: third))
        (.conditional condition whenTrue whenFalse)
  /-- A callee stands in front of its arguments, which are enclosed. -/
  | call {power : Power} {token separator close : String}
      {first words : List String} {callee : Expr} {arguments : List Expr}
      (hrule : g.infixRule? token = some (.call power separator close))
      (hcallee : Spells g first callee)
      (harguments : SpellsArguments g separator words arguments) :
      Spells g (first ++ token :: (words ++ [close])) (.call callee arguments)

/-- The words spell the arguments of a call, with a separator between them. -/
inductive SpellsArguments (g : Grammar) : String → List String → List Expr → Prop
  /-- There are no arguments. -/
  | none {separator : String} : SpellsArguments g separator [] []
  /-- The last argument may stand without a separator. -/
  | last {separator : String} {words : List String} {first : Expr}
      (hfirst : Spells g words first) :
      SpellsArguments g separator words [first]
  /-- A separator stands behind an argument, the last one included. -/
  | more {separator : String} {words after : List String} {first : Expr}
      {others : List Expr} (hfirst : Spells g words first)
      (hothers : SpellsArguments g separator after others) :
      SpellsArguments g separator (words ++ separator :: after) (first :: others)

end

/-! ## Readings spell their trees -/

-- An extension is not spelled on its own: the words in front of it, which spell
-- the left part, are given to it.
mutual

/-- What is read spells the tree. -/
theorem Reads.exists_spells {g : Grammar} {power : Power}
    {input rest : List String} {tree : Expr} :
    Reads g power input tree rest →
    ∃ words, input = words ++ rest ∧ Spells g words tree
  | .value hrule hextends => by
    obtain ⟨words, rfl, hwords⟩ := hextends.exists_spells (.value hrule)
    exact ⟨_, rfl, hwords⟩
  | .unary hrule hoperand hextends => by
    obtain ⟨front, rfl, hfront⟩ := hoperand.exists_spells
    obtain ⟨words, rfl, hwords⟩ := hextends.exists_spells (.unary hrule hfront)
    exact ⟨_, by simp, hwords⟩
  | .group hrule hinner hextends => by
    obtain ⟨front, rfl, hfront⟩ := hinner.exists_spells
    obtain ⟨words, rfl, hwords⟩ := hextends.exists_spells (.group hrule hfront)
    exact ⟨_, by simp, hwords⟩

/-- What extends an expression is spelled behind it. -/
theorem Extends.exists_spells {g : Grammar} {power : Power} {left tree : Expr}
    {first input rest : List String} (hleft : Spells g first left) :
    Extends g power left input tree rest →
    ∃ words, input = words ++ rest ∧ Spells g (first ++ words) tree
  | .stop _ => ⟨[], rfl, by rwa [List.append_nil]⟩
  | .binary hrule _ hright hextends => by
    obtain ⟨second, rfl, hsecond⟩ := hright.exists_spells
    obtain ⟨words, rfl, hwords⟩ :=
      hextends.exists_spells (.binary hrule hleft hsecond)
    rw [List.append_assoc] at hwords
    exact ⟨_, by simp, hwords⟩
  | .conditional hrule _ htrue hfalse hextends => by
    obtain ⟨second, rfl, hsecond⟩ := htrue.exists_spells
    obtain ⟨third, rfl, hthird⟩ := hfalse.exists_spells
    obtain ⟨words, rfl, hwords⟩ :=
      hextends.exists_spells (.conditional hrule hleft hsecond hthird)
    rw [List.append_assoc] at hwords
    exact ⟨_, by simp, hwords⟩
  | .call hrule _ harguments hextends => by
    obtain ⟨between, rfl, hbetween⟩ := harguments.exists_spells
    obtain ⟨words, rfl, hwords⟩ :=
      hextends.exists_spells (.call hrule hleft hbetween)
    rw [List.append_assoc] at hwords
    exact ⟨_, by simp, hwords⟩

theorem ReadsArguments.exists_spells {g : Grammar} {separator close : String}
    {input rest : List String} {arguments : List Expr} :
    ReadsArguments g separator close input arguments rest →
      ∃ words, input = words ++ rest ∧ SpellsArguments g separator words arguments
  | .closed _ => ⟨[], rfl, .none⟩
  | .last _ hfirst _ => by
    obtain ⟨words, rfl, hwords⟩ := hfirst.exists_spells
    exact ⟨words, rfl, .last hwords⟩
  | .more _ hfirst hothers => by
    obtain ⟨words, rfl, hwords⟩ := hfirst.exists_spells
    obtain ⟨after, rfl, hafter⟩ := hothers.exists_spells
    exact ⟨_, by simp, .more hwords hafter⟩

end

/-! ## Parsers take what they return -/

/-- A parser in use that succeeds has taken some tokens from the front, and left
the others as they are. -/
theorem Session.exists_taken_of_performs {α : Type} {g : Grammar} {u : Session}
    {demands : List Demand} {parser : Parser α} {result : α} {s : Scanner}
    (h : ∀ c, parser.Performs g demands c)
    (hrun : parser (u.scanner g) = .ok result s) :
    ∃ taken, u.tokens g = taken ++ s.toList := by
  obtain ⟨c, hc⟩ := u.exists_stands g
  obtain ⟨n, -, -, hs⟩ := (h c).ok hc.follows hrun
  exact ⟨(u.tokens g).take n, by rw [hc.toList_skip hs, List.take_append_drop]⟩

/-- The tokens of a source spell the tree that it is parsed as, and what a
parser in use takes spells the expression that it returns. -/
theorem taken_tokens_spell (g : Grammar) :
    (∀ (source : String) (file : Option String) (tree : Expr),
      parseWith g source file = .ok tree →
      Spells g ((tokenize source file).map Token.text) tree) ∧
    ∀ (u : Session) (power : Power) (tree : Expr) (s : Scanner),
      Parser.expr g power (u.scanner g) = .ok tree s →
      ∃ taken,
        u.tokens g = taken ++ s.toList ∧
        Spells g (taken.map Token.text) tree := by
  constructor
  · intro source file tree hparse
    obtain ⟨words, heq, hwords⟩ := (parseWith_eq_ok_iff.mp hparse).exists_spells
    rwa [heq, List.append_nil]
  · intro u power tree s hrun
    obtain ⟨taken, htaken⟩ :=
      Session.exists_taken_of_performs (Parser.performs_expr g power) hrun
    obtain ⟨words, htexts, hwords⟩ := (Parser.reads_of_expr hrun).exists_spells
    have hcancel : taken.map Token.text ++ s.texts = words ++ s.texts := by
      rw [← htexts, Scanner.texts, ← List.map_append, ← htaken]
      rfl
    exact ⟨taken, htaken, List.append_cancel_right hcancel ▸ hwords⟩

/-- Arguments that end with a separator, and a call that is read behind an
operator and in front of a weaker one. -/
theorem spells_trailingSeparator :
    Spells .arithmetic ["f", "(", "a", ",", "-", "(", "b", ")", ",", ")"]
      (.call (.value "f") [.value "a", .unary "-" (.value "b")]) ∧
    ∃ taken s,
      Session.tokens .arithmetic
          ⟨"2 ^ f(x) * 3", none, [.advance, .expect "^"]⟩ =
        taken ++ Scanner.toList s ∧
      Spells .arithmetic (taken.map Token.text)
        (.call (.value "f") [.value "x"]) := by
  have ⟨hparse, hsessions⟩ := taken_tokens_spell .arithmetic
  have hcall :
      parseWith .arithmetic "f(a, -(b),)" none =
        .ok (.call (.value "f") [.value "a", .unary "-" (.value "b")]) := by
    decide +kernel
  have hexpr :
      (Parser.expr .arithmetic 139).outcome
          (Session.scanner .arithmetic
            ⟨"2 ^ f(x) * 3", none, [.advance, .expect "^"]⟩) =
        .ok (.call (.value "f") [.value "x"]) := by
    decide +kernel
  obtain ⟨s, hrun⟩ := Parser.outcome_eq_ok_iff.mp hexpr
  obtain ⟨taken, htaken⟩ := hsessions _ _ _ _ hrun
  exact ⟨hparse _ _ _ hcall, taken, s, htaken⟩

end Pratt
