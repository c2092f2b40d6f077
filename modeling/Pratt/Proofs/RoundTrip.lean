import Pratt.Proofs.Brackets
import Pratt.Proofs.Subtree

set_option autoImplicit false

/-!
# Printing and parsing back

The text of a tree is cut into the tokens that the printer had in mind
(`Expr.lexemes_print`), and these derive the tree, with one exception: the
arguments of a call stand bare, so an argument that starts with `)` closes its
call too early. No later token makes up for that, since the text then closes
more brackets than it opens (`Expr.leads_printTokens`), and it is refused.
-/

namespace Pratt

namespace Expr

/-! ## Trees of arithmetic -/

/-- The operators that arithmetic has between two operands. -/
def operators : List String := ["+", "-", "*", "/", "^"]

theorem mem_operators {operator : String} :
    operator ∈ operators ↔
      operator = "+" ∨ operator = "-" ∨ operator = "*" ∨ operator = "/" ∨
      operator = "^" := by
  unfold operators
  simp only [List.mem_cons, List.not_mem_nil, or_false]

/-- The root is one that parsing can build: its value is a token that starts no
other expression, or its operator is one of arithmetic. -/
def ArithmeticRoot : Expr → Prop
  | .value text => IsToken text ∧ text ≠ "+" ∧ text ≠ "-" ∧ text ≠ "("
  | .unary operator _ => operator = "+" ∨ operator = "-"
  | .binary operator _ _ => operator ∈ operators
  | .conditional .. | .call .. => True

instance : DecidablePred ArithmeticRoot
  | .value _ => inferInstanceAs (Decidable (_ ∧ _))
  | .unary _ _ => inferInstanceAs (Decidable (_ ∨ _))
  | .binary _ _ _ => inferInstanceAs (Decidable (_ ∈ _))
  | .conditional _ _ _ | .call _ _ => inferInstanceAs (Decidable True)

/-- All parts of the tree are made of values and operators of arithmetic. -/
def OfArithmetic (tree : Expr) : Prop := tree.Everywhere ArithmeticRoot

instance (tree : Expr) : Decidable tree.OfArithmetic :=
  inferInstanceAs (Decidable (tree.Everywhere _))

theorem ofArithmetic_iff {tree : Expr} :
    tree.OfArithmetic ↔
      ArithmeticRoot tree ∧ ∀ child ∈ tree.children, child.OfArithmetic :=
  everywhere_iff

theorem ofArithmetic_binary_iff {operator : String} {left right : Expr} :
    OfArithmetic (.binary operator left right) ↔
      operator ∈ operators ∧ left.OfArithmetic ∧ right.OfArithmetic := by
  rw [ofArithmetic_iff]
  simp only [ArithmeticRoot, children, List.forall_mem_cons, List.not_mem_nil,
    false_imp_iff, implies_true, and_true]

/-- The root is no call with an argument whose text starts with `)`. -/
def OpenRoot : Expr → Prop
  | .call _ arguments =>
    ∀ argument ∈ arguments, argument.print.toList.head? ≠ some ')'
  | .value _ | .unary .. | .binary .. | .conditional .. => True

instance : DecidablePred OpenRoot
  | .call _ arguments => inferInstanceAs (Decidable (∀ argument ∈ arguments, _ ≠ _))
  | .value _ | .unary _ _ | .binary _ _ _ | .conditional _ _ _ =>
    inferInstanceAs (Decidable True)

/-- No argument of a call inside the tree has a text that starts with `)`. -/
def KeepsOpen (tree : Expr) : Prop := tree.Everywhere OpenRoot

instance (tree : Expr) : Decidable tree.KeepsOpen :=
  inferInstanceAs (Decidable (tree.Everywhere _))

theorem keepsOpen_iff {tree : Expr} :
    tree.KeepsOpen ↔ OpenRoot tree ∧ ∀ child ∈ tree.children, child.KeepsOpen :=
  everywhere_iff

/-! ## Printed tokens -/

mutual

/-- The tokens that an expression is printed as. -/
def printTokens : Expr → List String
  | .value text => [text]
  | .unary operator operand => "(" :: (operator :: operand.printTokens ++ [")"])
  | .binary operator left right =>
    "(" :: (left.printTokens ++ operator :: right.printTokens ++ [")"])
  | .conditional condition whenTrue whenFalse =>
    "(" :: (condition.printTokens ++ "?" ::
      (whenTrue.printTokens ++ ":" :: whenFalse.printTokens) ++ [")"])
  | .call callee arguments =>
    callee.printTokens ++ "(" :: (argumentTokens arguments ++ [")"])

/-- The tokens that arguments are printed as. -/
def argumentTokens : List Expr → List String
  | [] => []
  | [argument] => argument.printTokens
  | argument :: others => argument.printTokens ++ "," :: argumentTokens others

end

theorem lexemes_open (text : List Char) :
    lexemes ('(' :: text) = "(" :: lexemes text :=
  lexemes_cons_of_not_isWordChar rfl rfl text

theorem lexemes_close (text : List Char) :
    lexemes (text ++ [')']) = lexemes text ++ [")"] := by
  rw [lexemes_append_cons (by decide),
    lexemes_cons_of_not_isWordChar (by decide) (by decide), lexemes_nil]
  rfl

/-- A character between two spaces is a token. -/
theorem lexemes_between {c : Char} (hblank : isBlank c = false)
    (hword : isWordChar c = false) (front back : List Char) :
    lexemes (front ++ ' ' :: c :: ' ' :: back) =
      lexemes front ++ String.singleton c :: lexemes back := by
  rw [lexemes_append_cons (by decide), lexemes_cons_of_isBlank (by decide),
    lexemes_cons_of_not_isWordChar hblank hword,
    lexemes_cons_of_isBlank (by decide)]

theorem lexemes_comma (front back : List Char) :
    lexemes (front ++ ',' :: ' ' :: back) =
      lexemes front ++ "," :: lexemes back := by
  rw [lexemes_append_cons (by decide),
    lexemes_cons_of_not_isWordChar (by decide) (by decide),
    lexemes_cons_of_isBlank (by decide)]
  rfl

theorem lexemes_prints {arguments : List Expr}
    (h : ∀ argument ∈ arguments,
      lexemes argument.print.toList = argument.printTokens) :
    lexemes (", ".intercalate (prints arguments)).toList =
      argumentTokens arguments := by
  induction arguments with
  | nil => exact lexemes_nil
  | cons argument others ih =>
    have hfirst := h argument (List.mem_cons_self ..)
    have hothers := ih fun other hother => h other (List.mem_cons_of_mem _ hother)
    cases others with
    | nil =>
      simpa only [prints, String.intercalate_singleton,
        argumentTokens] using hfirst
    | cons other others =>
      rw [argumentTokens, ← hfirst, ← hothers, ← lexemes_comma]
      · simp [prints, String.intercalate_cons_cons]
      · exact List.cons_ne_nil other others

/-- The operators of arithmetic are single characters that belong to no word. -/
theorem exists_singleton_of_operator {operator : String}
    (h : operator ∈ operators) :
    ∃ c,
      operator = String.singleton c ∧ isBlank c = false ∧
      isWordChar c = false := by
  rcases mem_operators.mp h with rfl | rfl | rfl | rfl | rfl
  · exact ⟨'+', rfl, by decide, by decide⟩
  · exact ⟨'-', rfl, by decide, by decide⟩
  · exact ⟨'*', rfl, by decide, by decide⟩
  · exact ⟨'/', rfl, by decide, by decide⟩
  · exact ⟨'^', rfl, by decide, by decide⟩

/-- The text of a tree is cut into the tokens that it was printed as. -/
theorem lexemes_print {tree : Expr} (h : tree.OfArithmetic) :
    lexemes tree.print.toList = tree.printTokens := by
  induction tree using inductionOnChildren with
  | step tree ih =>
    obtain ⟨hroot, hchildren⟩ := ofArithmetic_iff.mp h
    have hprint : ∀ child ∈ tree.children,
        lexemes child.print.toList = child.printTokens :=
      fun child hchild => ih child hchild (hchildren child hchild)
    cases tree with
    | value text => exact isToken_iff.mp hroot.1
    | unary operator operand =>
      have hoperator : operator ∈ operators := by
        rcases hroot with rfl | rfl <;> decide
      obtain ⟨c, rfl, hblank, hword⟩ := exists_singleton_of_operator hoperator
      have htext : (print (.unary (String.singleton c) operand)).toList =
          '(' :: (c :: operand.print.toList ++ [')']) := by
        simp [print]
      rw [htext, lexemes_open, lexemes_close,
        lexemes_cons_of_not_isWordChar hblank hword,
        hprint operand (by simp [children]), printTokens]
    | binary operator left right =>
      obtain ⟨c, rfl, hblank, hword⟩ := exists_singleton_of_operator hroot
      have htext : (print (.binary (String.singleton c) left right)).toList =
          '(' :: (left.print.toList ++ ' ' :: c :: ' ' :: right.print.toList ++
            [')']) := by
        simp [print]
      rw [htext, lexemes_open, lexemes_close, lexemes_between hblank hword,
        hprint left (by simp [children]), hprint right (by simp [children]),
        printTokens]
    | conditional condition whenTrue whenFalse =>
      have htext : (print (.conditional condition whenTrue whenFalse)).toList =
          '(' :: (condition.print.toList ++ ' ' :: '?' :: ' ' ::
            (whenTrue.print.toList ++ ' ' :: ':' :: ' ' ::
              whenFalse.print.toList) ++ [')']) := by
        simp [print]
      rw [htext, lexemes_open, lexemes_close,
        lexemes_between (by decide) (by decide),
        lexemes_between (by decide) (by decide),
        hprint condition (by simp [children]),
        hprint whenTrue (by simp [children]),
        hprint whenFalse (by simp [children]), printTokens]
      rfl
    | call callee arguments =>
      have htext : (print (.call callee arguments)).toList =
          callee.print.toList ++ '(' ::
            ((", ".intercalate (prints arguments)).toList ++ [')']) := by
        simp [print]
      have harguments := lexemes_prints fun argument hargument =>
        hprint argument (List.mem_cons_of_mem _ hargument)
      rw [htext, lexemes_append_cons (by decide), lexemes_open, lexemes_close,
        harguments, hprint callee (List.mem_cons_self ..), printTokens]

/-- A text starts with `)` exactly if its first token does. -/
theorem head?_print_eq_close_iff {tree : Expr} (h : tree.OfArithmetic) :
    tree.print.toList.head? = some ')' ↔ tree.printTokens.head? = some ")" := by
  induction tree using inductionOnChildren with
  | step tree ih =>
    obtain ⟨hroot, hchildren⟩ := ofArithmetic_iff.mp h
    cases tree with
    | value text =>
      have htoken : lexemes text.toList = [text] := isToken_iff.mp hroot.1
      rw [print, printTokens, List.head?_cons, Option.some.injEq]
      constructor
      · intro hhead
        obtain ⟨rest, hrest⟩ := List.head?_eq_some_iff.mp hhead
        rw [hrest, lexemes_cons_of_not_isWordChar (by decide) (by decide)] at htoken
        exact (List.cons.inj htoken).1.symm
      · rintro rfl
        rfl
    | unary operator operand => simp [print, printTokens]
    | binary operator left right => simp [print, printTokens]
    | conditional condition whenTrue whenFalse => simp [print, printTokens]
    | call callee arguments =>
      have hcallee :=
        ih callee (List.mem_cons_self ..)
          (hchildren callee (List.mem_cons_self ..))
      have hfirst : (print (.call callee arguments)).toList.head? = some ')' ↔
          callee.print.toList.head? = some ')' := by
        cases hhead : callee.print.toList.head? <;> simp [print, hhead]
      have hsecond : (printTokens (.call callee arguments)).head? = some ")" ↔
          callee.printTokens.head? = some ")" := by
        cases hhead : callee.printTokens.head? <;> simp [printTokens, hhead]
      rw [hfirst, hsecond, hcallee]

/-! ## Open trees are derived -/

theorem derivesArguments_argumentTokens {arguments : List Expr}
    (hclose : ∀ argument ∈ arguments, argument.printTokens.head? ≠ some ")")
    (h : ∀ argument ∈ arguments, Derives .suffixed argument.printTokens argument) :
    DerivesArguments (argumentTokens arguments) arguments := by
  induction arguments with
  | nil => exact .none
  | cons argument others ih =>
    have hfirst := hclose argument (List.mem_cons_self ..)
    have hderives : Derives .expr argument.printTokens argument :=
      (h argument (List.mem_cons_self ..)).toExpr
    have hothers :=
      ih (fun other hother => hclose other (List.mem_cons_of_mem _ hother))
        fun other hother => h other (List.mem_cons_of_mem _ hother)
    cases others with
    | nil => exact .last hfirst hderives
    | cons other others => exact .more hfirst hderives hothers

section

variable {operator : String} {first second third words : List String}
  {operand left right condition whenTrue whenFalse : Expr}

theorem derives_enclosed_unary (hoperator : operator = "+" ∨ operator = "-")
    (hoperand : Derives .suffixed words operand) :
    Derives .suffixed ("(" :: (operator :: words ++ [")"]))
      (.unary operator operand) := by
  have hsigned : Derives .signed words operand := hoperand.mono (by decide)
  exact .primary (.group (Derives.sign hoperator hsigned).toExpr)

/-- What an operator stands between derives their expression. -/
theorem derives_binary (hoperator : operator ∈ operators)
    (hleft : Derives .suffixed first left)
    (hright : Derives .suffixed second right) :
    Derives .expr (first ++ operator :: second) (.binary operator left right) := by
  have hadd (h : operator = "+" ∨ operator = "-") :
      Derives .expr (first ++ operator :: second) (.binary operator left right) :=
    (Derives.add h (hleft.mono (by decide)) (hright.mono (by decide))).toExpr
  have hmultiply (h : operator = "*" ∨ operator = "/") :
      Derives .expr (first ++ operator :: second) (.binary operator left right) :=
    (Derives.multiply h (hleft.mono (by decide)) (hright.mono (by decide))).toExpr
  rcases mem_operators.mp hoperator with h | h | h | h | rfl
  · exact hadd (.inl h)
  · exact hadd (.inr h)
  · exact hmultiply (.inl h)
  · exact hmultiply (.inr h)
  · exact (Derives.raise (hleft.mono (by decide)) (hright.mono (by decide))).toExpr

theorem derives_enclosed_binary (hoperator : operator ∈ operators)
    (hleft : Derives .suffixed first left)
    (hright : Derives .suffixed second right) :
    Derives .suffixed ("(" :: (first ++ operator :: second ++ [")"]))
      (.binary operator left right) :=
  .primary (.group (derives_binary hoperator hleft hright))

theorem derives_enclosed_conditional
    (hcondition : Derives .suffixed first condition)
    (htrue : Derives .suffixed second whenTrue)
    (hfalse : Derives .suffixed third whenFalse) :
    Derives .suffixed ("(" :: (first ++ "?" :: (second ++ ":" :: third) ++ [")"]))
      (.conditional condition whenTrue whenFalse) :=
  .primary (.group
    (.conditional (hcondition.mono (by decide)) htrue.toExpr hfalse.toExpr))

end

/-- The tokens of a tree that keeps its calls open derive the tree. -/
theorem derives_printTokens {tree : Expr} (h : tree.OfArithmetic)
    (hopen : tree.KeepsOpen) :
    Derives .suffixed tree.printTokens tree := by
  induction tree using inductionOnChildren with
  | step tree ih =>
    obtain ⟨hroot, hchildren⟩ := ofArithmetic_iff.mp h
    obtain ⟨hopenRoot, hopenChildren⟩ := keepsOpen_iff.mp hopen
    have hderives : ∀ child ∈ tree.children,
        Derives .suffixed child.printTokens child :=
      fun child hchild =>
        ih child hchild (hchildren child hchild) (hopenChildren child hchild)
    cases tree with
    | value text =>
      obtain ⟨-, hplus, hminus, hbracket⟩ := hroot
      exact .primary (.value hplus hminus hbracket)
    | unary operator operand =>
      exact derives_enclosed_unary hroot (hderives operand (by simp [children]))
    | binary operator left right =>
      exact derives_enclosed_binary hroot (hderives left (by simp [children]))
        (hderives right (by simp [children]))
    | conditional condition whenTrue whenFalse =>
      exact derives_enclosed_conditional (hderives condition (by simp [children]))
        (hderives whenTrue (by simp [children]))
        (hderives whenFalse (by simp [children]))
    | call callee arguments =>
      have hcallee := hderives callee (List.mem_cons_self ..)
      refine .call hcallee (derivesArguments_argumentTokens
        (fun argument hargument => ?_) fun argument hargument =>
        hderives argument (List.mem_cons_of_mem _ hargument))
      have harithmetic := hchildren argument (List.mem_cons_of_mem _ hargument)
      exact (not_congr (head?_print_eq_close_iff harithmetic)).mp
        (hopenRoot argument hargument)

/-! ## Other trees close too much -/

theorem leads_argumentTokens {arguments : List Expr}
    (h : ∀ argument ∈ arguments,
      ∃ depth ≤ 0,
        Leads argument.printTokens .operand .operator depth ∧
        (depth = 0 → argument.KeepsOpen)) :
    ∃ stop ≠ Phase.operand, ∃ depth ≤ 0,
      Leads (argumentTokens arguments) .argument stop depth ∧
      (depth = 0 → ∀ argument ∈ arguments,
        argument.KeepsOpen ∧ argument.printTokens.head? ≠ some ")") := by
  induction arguments with
  | nil => exact ⟨.argument, by decide, 0, Int.le_refl 0, Leads.nil _, by simp⟩
  | cons argument others ih =>
    obtain ⟨own, hown, hleads, hkeeps⟩ := h argument (List.mem_cons_self ..)
    obtain ⟨first, hfirst, hargument, hzero⟩ :
        ∃ first ≤ 0,
          Leads argument.printTokens .argument .operator first ∧
          (first = 0 →
            argument.KeepsOpen ∧ argument.printTokens.head? ≠ some ")") := by
      refine ⟨_, ?_, hleads.argument, fun hzero => ?_⟩
      · split <;> omega
      · split at hzero
        · omega
        · next hhead => exact ⟨hkeeps hzero, hhead⟩
    obtain ⟨stop, hstop, rest, hrest, hothers, hall⟩ :=
      ih fun other hother => h other (List.mem_cons_of_mem _ hother)
    cases others with
    | nil =>
      exact ⟨.operator, by decide, first, hfirst, hargument,
        by simpa using hzero⟩
    | cons other others =>
      refine ⟨stop, hstop, first + rest, by omega, hargument.more hothers,
        fun hsum => ?_⟩
      exact List.forall_mem_cons.mpr ⟨hzero (by omega), hall (by omega)⟩

theorem next_of_operator {operator : String} (h : operator ∈ operators) :
    Phase.operator.next operator = .operand ∧
    Phase.operator.opened operator = 0 := by
  rcases mem_operators.mp h with rfl | rfl | rfl | rfl | rfl <;> exact ⟨rfl, rfl⟩

/-- The tokens of a tree close as many brackets as they open, and more if the
tree does not keep its calls open. -/
theorem leads_printTokens {tree : Expr} (h : tree.OfArithmetic) :
    ∃ depth ≤ 0,
      Leads tree.printTokens .operand .operator depth ∧
      (depth = 0 → tree.KeepsOpen) := by
  induction tree using inductionOnChildren with
  | step tree ih =>
    obtain ⟨hroot, hchildren⟩ := ofArithmetic_iff.mp h
    have hleads : ∀ child ∈ tree.children,
        ∃ depth ≤ 0,
          Leads child.printTokens .operand .operator depth ∧
          (depth = 0 → child.KeepsOpen) :=
      fun child hchild => ih child hchild (hchildren child hchild)
    cases tree with
    | value text =>
      obtain ⟨-, hplus, hminus, hbracket⟩ := hroot
      exact ⟨0, Int.le_refl 0, .value hplus hminus hbracket,
        fun _ => keepsOpen_iff.mpr ⟨trivial, nofun⟩⟩
    | unary operator operand =>
      obtain ⟨depth, hdepth, hoperand, hkeeps⟩ :=
        hleads operand (by simp [children])
      have hsigned :
          Leads (operator :: operand.printTokens) .operand .operator depth := by
        rcases hroot with rfl | rfl
        · exact hoperand.cons_of_operand rfl rfl
        · exact hoperand.cons_of_operand rfl rfl
      refine ⟨depth, hdepth, hsigned.enclose (by decide), fun hzero => ?_⟩
      exact keepsOpen_iff.mpr
        ⟨trivial, List.forall_mem_singleton.mpr (hkeeps hzero)⟩
    | binary operator left right =>
      obtain ⟨first, hfirst, hleft, hkeepsLeft⟩ := hleads left (by simp [children])
      obtain ⟨second, hsecond, hright, hkeepsRight⟩ :=
        hleads right (by simp [children])
      obtain ⟨hnext, hopened⟩ := next_of_operator hroot
      refine ⟨first + second, by omega,
        (hleft.between hnext hopened hright).enclose (by decide),
        fun hsum => ?_⟩
      refine keepsOpen_iff.mpr ⟨trivial, ?_⟩
      simpa [children] using ⟨hkeepsLeft (by omega), hkeepsRight (by omega)⟩
    | conditional condition whenTrue whenFalse =>
      obtain ⟨first, hfirst, hcondition, hkeepsCondition⟩ :=
        hleads condition (by simp [children])
      obtain ⟨second, hsecond, htrue, hkeepsTrue⟩ :=
        hleads whenTrue (by simp [children])
      obtain ⟨third, hthird, hfalse, hkeepsFalse⟩ :=
        hleads whenFalse (by simp [children])
      refine ⟨first + (second + third), by omega,
        (hcondition.between rfl rfl (htrue.between rfl rfl hfalse)).enclose
          (by decide),
        fun hsum => ?_⟩
      refine keepsOpen_iff.mpr ⟨trivial, ?_⟩
      simpa [children] using ⟨hkeepsCondition (by omega), hkeepsTrue (by omega),
        hkeepsFalse (by omega)⟩
    | call callee arguments =>
      obtain ⟨first, hfirst, hcallee, hkeepsCallee⟩ :=
        hleads callee (List.mem_cons_self ..)
      obtain ⟨stop, hstop, second, hsecond, harguments, hkeepsAll⟩ :=
        leads_argumentTokens fun argument hargument =>
          hleads argument (List.mem_cons_of_mem _ hargument)
      refine ⟨first + second, by omega, hcallee.call harguments hstop,
        fun hsum => ?_⟩
      have hall := hkeepsAll (by omega)
      have hchildrenKeep : ∀ child ∈ callee :: arguments, child.KeepsOpen :=
        List.forall_mem_cons.mpr ⟨hkeepsCallee (by omega),
          fun argument hargument => (hall argument hargument).1⟩
      refine keepsOpen_iff.mpr ⟨fun argument hargument => ?_, hchildrenKeep⟩
      have harithmetic := hchildren argument (List.mem_cons_of_mem _ hargument)
      exact (not_congr (head?_print_eq_close_iff harithmetic)).mpr
        (hall argument hargument).2

end Expr

/-! ## Parsed trees are of arithmetic -/

mutual

/-- Tokens derive trees of arithmetic only. -/
theorem Derives.ofArithmetic {layer : Layer} {words : List String} {tree : Expr} :
    Derives layer words tree → (∀ word ∈ words, IsToken word) → tree.OfArithmetic
  | .sum h, htokens => h.ofArithmetic htokens
  | .conditional hcondition htrue hfalse, htokens => by
    have hfirst :=
      hcondition.ofArithmetic fun word hword => htokens word (by simp [hword])
    have hsecond :=
      htrue.ofArithmetic fun word hword => htokens word (by simp [hword])
    have hthird :=
      hfalse.ofArithmetic fun word hword => htokens word (by simp [hword])
    exact Expr.ofArithmetic_iff.mpr
      ⟨trivial, by simpa [Expr.children] using ⟨hfirst, hsecond, hthird⟩⟩
  | .product h, htokens => h.ofArithmetic htokens
  | .add hoperator hleft hright, htokens => by
    have hfirst :=
      hleft.ofArithmetic fun word hword => htokens word (by simp [hword])
    have hsecond :=
      hright.ofArithmetic fun word hword => htokens word (by simp [hword])
    refine Expr.ofArithmetic_binary_iff.mpr ⟨?_, hfirst, hsecond⟩
    rcases hoperator with rfl | rfl <;> decide
  | .power h, htokens => h.ofArithmetic htokens
  | .multiply hoperator hleft hright, htokens => by
    have hfirst :=
      hleft.ofArithmetic fun word hword => htokens word (by simp [hword])
    have hsecond :=
      hright.ofArithmetic fun word hword => htokens word (by simp [hword])
    refine Expr.ofArithmetic_binary_iff.mpr ⟨?_, hfirst, hsecond⟩
    rcases hoperator with rfl | rfl <;> decide
  | .signed h, htokens => h.ofArithmetic htokens
  | .raise hleft hright, htokens => by
    have hfirst :=
      hleft.ofArithmetic fun word hword => htokens word (by simp [hword])
    have hsecond :=
      hright.ofArithmetic fun word hword => htokens word (by simp [hword])
    exact Expr.ofArithmetic_binary_iff.mpr ⟨by decide, hfirst, hsecond⟩
  | .sign hoperator hoperand, htokens => by
    have hchild :=
      hoperand.ofArithmetic fun word hword => htokens word (by simp [hword])
    exact Expr.ofArithmetic_iff.mpr
      ⟨hoperator, List.forall_mem_singleton.mpr hchild⟩
  | .suffixed h, htokens => h.ofArithmetic htokens
  | .primary h, htokens => h.ofArithmetic htokens
  | .call hcallee harguments, htokens => by
    have hfirst :=
      hcallee.ofArithmetic fun word hword => htokens word (by simp [hword])
    have hothers :=
      harguments.ofArithmetic fun word hword => htokens word (by simp [hword])
    exact Expr.ofArithmetic_iff.mpr
      ⟨trivial, List.forall_mem_cons.mpr ⟨hfirst, hothers⟩⟩
  | .group h, htokens =>
    h.ofArithmetic fun word hword => htokens word (by simp [hword])
  | .value hplus hminus hopen, htokens =>
    Expr.ofArithmetic_iff.mpr
      ⟨⟨htokens _ (List.mem_cons_self ..), hplus, hminus, hopen⟩, nofun⟩

theorem DerivesArguments.ofArithmetic {words : List String}
    {arguments : List Expr} :
    DerivesArguments words arguments → (∀ word ∈ words, IsToken word) →
      ∀ argument ∈ arguments, argument.OfArithmetic
  | .none, _ => nofun
  | .last _ htree, htokens => by
    have hfirst := htree.ofArithmetic htokens
    simpa using hfirst
  | .more _ htree hothers, htokens => by
    have hfirst :=
      htree.ofArithmetic fun word hword => htokens word (by simp [hword])
    have hrest :=
      hothers.ofArithmetic fun word hword => htokens word (by simp [hword])
    exact List.forall_mem_cons.mpr ⟨hfirst, hrest⟩

end

/-- Every tree that is parsed is one of arithmetic. -/
theorem ofArithmetic_of_parse_eq_ok {source : String} {file : Option String}
    {tree : Expr} (h : parse source file = .ok tree) : tree.OfArithmetic := by
  rw [parse_eq_ok_iff, map_text_tokenize] at h
  exact h.ofArithmetic fun word hword => isToken_of_mem_lexemes hword

/-! ## The round trip -/

/-- What a text printed from a tree of arithmetic is parsed as. -/
theorem parse_print_eq_ok_iff {tree other : Expr} (h : tree.OfArithmetic)
    (file : Option String) :
    parse tree.print file = .ok other ↔ other = tree ∧ tree.KeepsOpen := by
  have hself : tree.KeepsOpen → parse tree.print file = .ok tree := by
    intro hopen
    rw [parse_eq_ok_iff, map_text_tokenize, Expr.lexemes_print h]
    exact (Expr.derives_printTokens h hopen).toExpr
  constructor
  · intro hparse
    have hderives := hparse
    rw [parse_eq_ok_iff, map_text_tokenize, Expr.lexemes_print h] at hderives
    obtain ⟨depth, -, hleads, hkeeps⟩ := Expr.leads_printTokens h
    have hopen := hkeeps (hleads.depth_unique hderives.leads)
    exact ⟨Except.ok.inj (hparse.symm.trans (hself hopen)), hopen⟩
  · rintro ⟨rfl, hopen⟩
    exact hself hopen

/-- Printing and parsing back gives every tree of arithmetic again, except that
a tree with an argument whose text starts with `)` is refused. No text of a tree
is parsed as another tree, and all trees that are parsed are of arithmetic. -/
theorem parse_print (file : Option String) :
    (∀ tree : Expr, tree.OfArithmetic →
      (tree.KeepsOpen → parse tree.print file = .ok tree) ∧
      (¬ tree.KeepsOpen → ∃ error, parse tree.print file = .error error) ∧
      ∀ other, parse tree.print file = .ok other → other = tree) ∧
    ∀ source tree, parse source file = .ok tree → tree.OfArithmetic := by
  constructor
  · intro tree h
    refine ⟨?_, ?_, ?_⟩
    · intro hopen
      exact (parse_print_eq_ok_iff h file).mpr ⟨rfl, hopen⟩
    · intro hshut
      cases hparse : parse tree.print file with
      | error error => exact ⟨error, rfl⟩
      | ok other =>
        obtain ⟨-, hopen⟩ := (parse_print_eq_ok_iff h file).mp hparse
        exact absurd hopen hshut
    · intro other hparse
      obtain ⟨hother, -⟩ := (parse_print_eq_ok_iff h file).mp hparse
      exact hother
  · exact fun source tree => ofArithmetic_of_parse_eq_ok

/-- The text `f(1, -x)` is parsed back. The text `f())` of a call with the
argument `)` is refused. -/
theorem parse_print_call :
    parse (Expr.call (.value "f") [.value "1", .unary "-" (.value "x")]).print
        none =
      .ok (.call (.value "f") [.value "1", .unary "-" (.value "x")]) ∧
    ∃ error,
      parse (Expr.call (.value "f") [.value ")"]).print none = .error error := by
  obtain ⟨htrees, -⟩ := parse_print none
  obtain ⟨hopen, -⟩ :=
    htrees (.call (.value "f") [.value "1", .unary "-" (.value "x")])
      (by decide)
  obtain ⟨-, hshut, -⟩ := htrees (.call (.value "f") [.value ")"]) (by decide)
  exact ⟨hopen (by decide), hshut (by decide)⟩

end Pratt
