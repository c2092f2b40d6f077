import Pratt.Proofs.RoundTrip

set_option autoImplicit false

/-!
# What can be parsed

Every tree of arithmetic is parsed from some text, and no other tree is
(`exists_parse_eq_ok_iff`). The printed text of a tree need not be one, since an
argument that starts with `)` closes its call. In a guarded text all arguments
are enclosed, so none starts with `)`, and all tokens are kept apart
(`Expr.guarded`). It is parsed as its tree (`Expr.parse_guarded`).
-/

namespace Pratt

namespace Expr

/-! ## Guarded texts -/

mutual

/-- The tokens of a tree, with parentheses around all operators and all
arguments. -/
def guardedTokens : Expr → List String
  | .value text => [text]
  | .unary operator operand => "(" :: (operator :: operand.guardedTokens ++ [")"])
  | .binary operator left right =>
    "(" :: (left.guardedTokens ++ operator :: right.guardedTokens ++ [")"])
  | .conditional condition whenTrue whenFalse =>
    "(" :: (condition.guardedTokens ++ "?" ::
      (whenTrue.guardedTokens ++ ":" :: whenFalse.guardedTokens) ++ [")"])
  | .call callee arguments =>
    callee.guardedTokens ++ "(" :: (guardedArguments arguments ++ [")"])

/-- The tokens of arguments, each in parentheses and with a separator behind it. -/
def guardedArguments : List Expr → List String
  | [] => []
  | argument :: others =>
    "(" :: (argument.guardedTokens ++ [")"]) ++ "," :: guardedArguments others

end

/-- A text with the guarded tokens of a tree, and with spaces between them. -/
def guarded (tree : Expr) : String :=
  String.ofList (tree.guardedTokens.flatMap fun token => token.toList ++ [' '])

theorem isToken_symbols :
    IsToken "(" ∧ IsToken ")" ∧ IsToken "," ∧ IsToken "?" ∧ IsToken ":" := by
  decide

theorem isToken_of_mem_operators : ∀ operator ∈ operators, IsToken operator := by
  decide

theorem isToken_of_mem_guardedArguments {arguments : List Expr}
    (h : ∀ argument ∈ arguments, ∀ token ∈ argument.guardedTokens, IsToken token) :
    ∀ token ∈ guardedArguments arguments, IsToken token := by
  obtain ⟨hopen, hclose, hcomma, -⟩ := isToken_symbols
  induction arguments with
  | nil => exact nofun
  | cons argument others ih =>
    obtain ⟨hfirst, hothers⟩ := List.forall_mem_cons.mp h
    simp only [guardedArguments, List.forall_mem_cons, List.forall_mem_append,
      List.cons_append]
    exact ⟨hopen, ⟨hfirst, hclose, nofun⟩, hcomma, ih hothers⟩

/-- Guarded tokens are tokens. -/
theorem isToken_of_mem_guardedTokens {tree : Expr} (h : tree.OfArithmetic) :
    ∀ token ∈ tree.guardedTokens, IsToken token := by
  obtain ⟨hopen, hclose, -, hquestion, hcolon⟩ := isToken_symbols
  induction tree using inductionOnChildren with
  | step tree ih =>
    obtain ⟨hroot, hchildren⟩ := ofArithmetic_iff.mp h
    have htokens : ∀ child ∈ tree.children,
        ∀ token ∈ child.guardedTokens, IsToken token :=
      fun child hchild => ih child hchild (hchildren child hchild)
    cases tree with
    | value text => exact List.forall_mem_singleton.mpr hroot.1
    | unary operator operand =>
      have hoperator : IsToken operator := by
        rcases hroot with rfl | rfl <;> decide
      have hoperand := htokens operand (List.mem_cons_self ..)
      simp only [guardedTokens, List.forall_mem_cons, List.forall_mem_append,
        List.cons_append]
      exact ⟨hopen, hoperator, hoperand, hclose, nofun⟩
    | binary operator left right =>
      simp only [children, List.forall_mem_cons] at htokens
      obtain ⟨hleft, hright, -⟩ := htokens
      simp only [guardedTokens, List.forall_mem_cons, List.forall_mem_append]
      exact ⟨hopen, ⟨hleft, isToken_of_mem_operators operator hroot, hright⟩,
        hclose, nofun⟩
    | conditional condition whenTrue whenFalse =>
      simp only [children, List.forall_mem_cons] at htokens
      obtain ⟨hcondition, htrue, hfalse, -⟩ := htokens
      simp only [guardedTokens, List.forall_mem_cons, List.forall_mem_append]
      exact ⟨hopen, ⟨hcondition, hquestion, htrue, hcolon, hfalse⟩, hclose, nofun⟩
    | call callee arguments =>
      obtain ⟨hcallee, harguments⟩ := List.forall_mem_cons.mp htokens
      simp only [guardedTokens, List.forall_mem_cons, List.forall_mem_append]
      exact ⟨hcallee, hopen, isToken_of_mem_guardedArguments harguments, hclose,
        nofun⟩

theorem lexemes_guarded {tree : Expr} (h : tree.OfArithmetic) :
    lexemes tree.guarded.toList = tree.guardedTokens := by
  have hspace : isBlank ' ' = true := by decide
  rw [guarded, String.toList_ofList,
    lexemes_separated hspace (isToken_of_mem_guardedTokens h)]

/-! ## Guarded tokens are derived -/

theorem derivesArguments_guardedArguments {arguments : List Expr}
    (h : ∀ argument ∈ arguments,
      Derives .suffixed argument.guardedTokens argument) :
    DerivesArguments (guardedArguments arguments) arguments := by
  induction arguments with
  | nil => exact .none
  | cons argument others ih =>
    obtain ⟨hfirst, hothers⟩ := List.forall_mem_cons.mp h
    have hgroup :
        Derives .primary ("(" :: (argument.guardedTokens ++ [")"])) argument :=
      .group hfirst.toExpr
    -- the opening bracket keeps a `)` away from the start of the argument
    exact .more (by simp) hgroup.toExpr (ih hothers)

/-- The guarded tokens of a tree of arithmetic derive the tree. -/
theorem derives_guardedTokens {tree : Expr} (h : tree.OfArithmetic) :
    Derives .suffixed tree.guardedTokens tree := by
  induction tree using inductionOnChildren with
  | step tree ih =>
    obtain ⟨hroot, hchildren⟩ := ofArithmetic_iff.mp h
    have hderives : ∀ child ∈ tree.children,
        Derives .suffixed child.guardedTokens child :=
      fun child hchild => ih child hchild (hchildren child hchild)
    cases tree with
    | value text =>
      obtain ⟨-, hplus, hminus, hbracket⟩ := hroot
      exact .primary (.value hplus hminus hbracket)
    | unary operator operand =>
      exact derives_enclosed_unary hroot (hderives operand (by simp [children]))
    | binary operator left right =>
      exact derives_enclosed_binary hroot (hderives left (by simp [children]))
        (hderives right (by simp [children]))
    | conditional condition whenTrue whenFalse =>
      exact derives_enclosed_conditional (hderives condition (by simp [children]))
        (hderives whenTrue (by simp [children]))
        (hderives whenFalse (by simp [children]))
    | call callee arguments =>
      obtain ⟨hcallee, harguments⟩ := List.forall_mem_cons.mp hderives
      exact .call hcallee (derivesArguments_guardedArguments harguments)

/-- A guarded text is parsed as its tree. -/
theorem parse_guarded {tree : Expr} (h : tree.OfArithmetic) (file : Option String) :
    parse tree.guarded file = .ok tree := by
  rw [parse_eq_ok_iff, map_text_tokenize, lexemes_guarded h]
  exact (derives_guardedTokens h).toExpr

end Expr

/-- The trees that are parsed from some text are those of arithmetic. Every
value is one token that starts no other expression, and every operator is
one of arithmetic; any tokens else may be values, and conditionals and calls
may be of any shape. -/
theorem exists_parse_eq_ok_iff (file : Option String) (tree : Expr) :
    (∃ source, parse source file = .ok tree) ↔ tree.OfArithmetic := by
  constructor
  · rintro ⟨source, hparse⟩
    exact ofArithmetic_of_parse_eq_ok hparse
  · intro h
    exact ⟨tree.guarded, Expr.parse_guarded h file⟩

/-- Closing brackets and separators may be arguments, and callees. -/
example :
    (Expr.call (.value ",") [.value ")", .value ":"]).guarded =
      ", ( ( ) ) , ( : ) , ) " := by
  decide

end Pratt
