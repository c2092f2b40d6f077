import Pratt.Proofs.Reading.Parser

set_option autoImplicit false

/-!
# Grammars that are alike

Two grammars are alike on some words if they say the same of each of them, up to
powers that compare alike (`Grammar.Alike`). A parser compares the power it
reads at with that of the next token, and does nothing else with either. So over
these words parsers of both grammars are the same functions, with the same
trees, errors and scanners (`Grammar.Alike.agree_expr`).

Parsers that agree are put together from parsers that agree
(`Parser.Agree.bind`), so each is described by its parts. Terminators are left
out of the comparison, since they are looked up for a token that is left over
and nowhere else (`Grammar.Alike.agree_whole`).
-/

namespace Pratt

/-! ## Rules and grammars -/

/-- The rules are the same, up to powers for operands. -/
inductive PrefixRule.Alike (compared : Power → Power → Prop) :
    PrefixRule → PrefixRule → Prop
  /-- Both make a value of the token. -/
  | value : Alike compared .value .value
  /-- Both read an operand. -/
  | unary {power power' : Power} (hpower : compared power power') :
      Alike compared (.unary power) (.unary power')
  /-- Both read a group with the same end. -/
  | group (close : String) : Alike compared (.group close) (.group close)

/-- The rules are the same, up to powers for operands. -/
inductive InfixRule.Alike (compared : Power → Power → Prop) :
    InfixRule → InfixRule → Prop
  /-- Both read an operand to the right. -/
  | binary {power power' : Power} {associativity : Associativity}
      (hpower : compared (associativity.rightPower power)
      (associativity.rightPower power')) :
      Alike compared (.binary power associativity) (.binary power' associativity)
  /-- Both read branches with the same separator. -/
  | conditional (power power' : Power) (separator : String) :
      Alike compared (.conditional power separator) (.conditional power' separator)
  /-- Both read arguments with the same separator and the same end. -/
  | call (power power' : Power) (separator close : String) :
      Alike compared (.call power separator close) (.call power' separator close)

/-- The grammars say the same of each of the words. Powers that are `compared`
with each other are those that expressions are read at, and the same words
continue these expressions. -/
structure Grammar.Alike (g g' : Grammar) (words : List String)
    (compared : Power → Power → Prop) : Prop where
  /-- A whole expression is read at the same power. -/
  lowest : compared .lowest .lowest
  /-- A word starts the same. -/
  starts : ∀ word ∈ words, (g.prefixRule word).Alike compared (g'.prefixRule word)
  /-- A word continues the same, or nothing. -/
  continues : ∀ word ∈ words, ∀ power power', compared power power' →
    Option.Rel (InfixRule.Alike compared) (g.continuation? power word)
      (g'.continuation? power' word)

namespace Parser

variable {α β : Type}

/-! ## Parsers that agree -/

/-- Over some words, both parsers do the same, and what they leave is over these
words. -/
structure Agree (words : List String) (parser parser' : Parser α) : Prop where
  /-- They have the same results, errors and scanners. -/
  same : ∀ {s : Scanner}, s.texts ⊆ words → parser s = parser' s
  /-- They leave words of those that they found. -/
  within : ∀ {s s' : Scanner} {a : α},
    s.texts ⊆ words → parser s = .ok a s' → s'.texts ⊆ words

variable {words : List String}

namespace Agree

theorem pure (a : α) : Agree words (Pure.pure a : Parser α) (Pure.pure a) where
  same _ := rfl
  within hs hrun := by
    injection hrun with _ heq
    exact heq ▸ hs

theorem fail (fault : Fault) (place : Position) :
    Agree words (Parser.fail fault place : Parser α) (Parser.fail fault place) where
  same _ := rfl
  within _ hrun := by cases hrun

/-- What runs behind parsers that agree need agree only on what these can
return. -/
theorem bind_of_returns {parser parser' : Parser α} {next next' : α → Parser β}
    (returned : α → Prop) (h : Agree words parser parser')
    (hreturned : ∀ {s s' : Scanner} {a : α},
      s.texts ⊆ words → parser s = .ok a s' → returned a)
    (hnext : ∀ a, returned a → Agree words (next a) (next' a)) :
    Agree words (parser >>= next) (parser' >>= next') where
  same hs := bind_congr_apply (h.same hs) fun a _ hrun =>
    (hnext a (hreturned hs hrun)).same (h.within hs hrun)
  within hs hrun := by
    rw [bind_apply] at hrun
    split at hrun
    · next a s₁ heq =>
        exact (hnext a (hreturned hs heq)).within (h.within hs heq) hrun
    · cases hrun

theorem bind {parser parser' : Parser α} {next next' : α → Parser β}
    (h : Agree words parser parser')
    (hnext : ∀ a, Agree words (next a) (next' a)) :
    Agree words (parser >>= next) (parser' >>= next') :=
  h.bind_of_returns (fun _ => True) (fun _ _ => trivial) fun a _ => hnext a

theorem position : Agree words position position where
  same _ := rfl
  within hs hrun := by
    injection hrun with _ heq
    exact heq ▸ hs

/-- A word that is looked at is one of those that are left. -/
theorem bind_current {next next' : Option String → Parser α}
    (h : ∀ found : Option String, (∀ word, found = some word → word ∈ words) →
      Agree words (next found) (next' found)) :
    Agree words (current >>= next) (current >>= next') := by
  have hcurrent : Agree words current current := by
    refine ⟨fun _ => rfl, fun {s s' found} hs hrun => ?_⟩
    obtain ⟨t, heq, htexts⟩ := current_eq s
    rw [heq] at hrun
    injection hrun with _ ht
    rwa [← ht, htexts]
  refine hcurrent.bind_of_returns _ (fun {s s' found} hs hrun word hword => ?_) h
  obtain ⟨t, heq, -⟩ := current_eq s
  rw [heq] at hrun
  injection hrun with hfound _
  exact hs (List.mem_of_head? (hfound.trans hword))

/-- A token that is taken bears one of the words. -/
theorem bind_advance {next next' : Option Token → Parser α}
    (h : ∀ found : Option Token,
      (∀ token, found = some token → token.text ∈ words) →
      Agree words (next found) (next' found)) :
    Agree words (advance >>= next) (advance >>= next') := by
  have hadvance : Agree words advance advance := by
    refine ⟨fun _ => rfl, fun {s s' found} hs hrun => ?_⟩
    rw [advance_apply] at hrun
    injection hrun with _ heq
    rw [← heq, Scanner.texts, Scanner.toList_snd_consume, List.map_tail]
    exact List.Subset.trans (List.tail_sublist _).subset hs
  refine hadvance.bind_of_returns _ (fun {s s' found} hs hrun token htoken => ?_) h
  rw [advance_apply] at hrun
  injection hrun with hfound _
  have hhead : s.toList.head? = some token := by
    rw [← Scanner.fst_consume, hfound, htoken]
  exact hs (List.mem_map_of_mem (List.mem_of_head? hhead))

theorem expect (expected : String) :
    Agree words (expect expected) (expect expected) := by
  refine position.bind fun place => bind_advance fun found _ => ?_
  split
  · exact fail _ _
  · split
    · exact pure _
    · exact fail _ _

end Agree

/-! ## Parsers of grammars that are alike -/

/-- Readers of operands agree at powers that are compared with each other. -/
def AgreeAt (words : List String) (compared : Power → Power → Prop)
    (operand operand' : Power → Parser Expr) : Prop :=
  ∀ {power power' : Power},
    compared power power' → Agree words (operand power) (operand' power')

end Parser

namespace Grammar.Alike

open Pratt.Parser

variable {g g' : Grammar} {words : List String} {compared : Power → Power → Prop}
  {operand operand' : Power → Parser Expr}

theorem agree_prefixRule (h : g.Alike g' words compared)
    (hoperand : AgreeAt words compared operand operand')
    {rule rule' : PrefixRule} (hrule : rule.Alike compared rule')
    (token : Token) :
    Agree words (rule.run operand token) (rule'.run operand' token) := by
  cases hrule with
  | value => exact .pure _
  | unary hpower => exact (hoperand hpower).bind fun _ => .pure _
  | group close =>
    exact (hoperand h.lowest).bind fun _ =>
      (Agree.expect close).bind fun _ => .pure _

theorem agree_arguments (h : g.Alike g' words compared)
    (hoperand : AgreeAt words compared operand operand')
    (separator close : String) (bound : Nat) :
    Agree words (arguments operand separator close bound)
      (arguments operand' separator close bound) := by
  induction bound with
  | zero => exact .pure _
  | succ bound ih =>
    refine .bind_current fun found _ => ?_
    split
    · exact .pure _
    · refine (hoperand h.lowest).bind fun first => .bind_current fun after _ => ?_
      split
      · exact .bind_advance fun _ _ => ih.bind fun _ => .pure _
      · exact .pure _

theorem agree_infixRule (h : g.Alike g' words compared)
    (hoperand : AgreeAt words compared operand operand')
    {rule rule' : InfixRule} (hrule : rule.Alike compared rule') (bound : Nat)
    (left : Expr) (token : Token) :
    Agree words (rule.run operand bound left token)
      (rule'.run operand' bound left token) := by
  cases hrule with
  | binary hpower => exact (hoperand hpower).bind fun _ => .pure _
  | conditional power power' separator =>
    exact (hoperand h.lowest).bind fun _ => (Agree.expect separator).bind fun _ =>
      (hoperand h.lowest).bind fun _ => .pure _
  | call power power' separator close =>
    exact (h.agree_arguments hoperand separator close bound).bind fun _ =>
      (Agree.expect close).bind fun _ => .pure _

/-- Both grammars extend an expression by the same tokens. -/
theorem agree_extendWithin (h : g.Alike g' words compared)
    (hoperand : AgreeAt words compared operand operand') {power power' : Power}
    (hpower : compared power power') (bound : Nat) (left : Expr) :
    Agree words (extendWithin g operand power bound left)
      (extendWithin g' operand' power' bound left) := by
  induction bound generalizing left with
  | zero => exact .pure _
  | succ bound ih =>
    refine .bind_current fun found hfound => ?_
    have hrel :
        Option.Rel (InfixRule.Alike compared)
          (found.bind (g.continuation? power))
          (found.bind (g'.continuation? power')) := by
      cases found with
      | none => exact .none
      | some word => exact h.continues word (hfound word rfl) power power' hpower
    revert hrel
    generalize found.bind (g.continuation? power) = rule?
    generalize found.bind (g'.continuation? power') = rule?'
    rintro (hrule | _)
    · refine .bind_advance fun found _ => ?_
      cases found with
      | none => exact .pure _
      | some token =>
        exact (h.agree_infixRule hoperand hrule bound left token).bind ih
    · exact .pure _

theorem agree_exprWithin (h : g.Alike g' words compared) (bound : Nat) :
    AgreeAt words compared (exprWithin g bound) (exprWithin g' bound) := by
  induction bound with
  | zero => exact fun _ => Agree.position.bind fun place => .fail _ place
  | succ bound ih =>
    intro power power' hpower
    refine Agree.position.bind fun place => .bind_advance fun found hfound => ?_
    cases found with
    | none => exact .fail _ place
    | some token =>
      have hrule := h.starts token.text (hfound token rfl)
      exact (h.agree_prefixRule ih hrule token).bind
        (h.agree_extendWithin ih hpower bound)

/-- Over the words, expressions of both grammars are read by the same function. -/
theorem agree_expr (h : g.Alike g' words compared) :
    AgreeAt words compared (expr g) (expr g') := by
  intro power power' hpower
  exact ⟨fun {s} hs => (h.agree_exprWithin (bound s) hpower).same hs,
    fun {s _ _} hs hrun => (h.agree_exprWithin (bound s) hpower).within hs hrun⟩

/-! ## Whole sources -/

/-- Where the grammars have the same terminators, too, nothing tells them apart. -/
theorem agree_whole (h : g.Alike g' words compared)
    (hterminators : ∀ word ∈ words, g.isTerminator word = g'.isTerminator word) :
    Agree words (whole g) (whole g') := by
  refine (h.agree_expr h.lowest).bind fun tree =>
    Agree.position.bind fun place => .bind_advance fun found hfound => ?_
  cases found with
  | none => exact .pure tree
  | some token =>
    simp only [hterminators token.text (hfound token rfl)]
    split
    · exact .fail _ place
    · exact .fail _ place

end Grammar.Alike

end Pratt
