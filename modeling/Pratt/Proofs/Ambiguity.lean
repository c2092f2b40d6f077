import Mathlib.Data.List.Basic
import Pratt.Proofs.Image

set_option autoImplicit false

/-!
# Texts of several trees

A text that is parsed back is the text of one tree only, so it tells this tree
from all others (`print_ne_of_parse_ne`). A text that is refused tells less:
since arguments stand bare, a `)` that is an argument looks like the end of its
call, and a call of a call looks like a call with an argument
(`Expr.print_bracketBehind_eq`). So every tree that is parsed is a part of two
such trees with one text (`exists_parse_print_eq`).
-/

namespace Pratt

namespace Expr

/-- The callee is called, and the result is called with a bracket. -/
def bracketBehind (callee : Expr) : Expr := .call (.call callee []) [.value ")"]

/-- The callee is called with a call of a bracket. -/
def bracketInside (callee : Expr) : Expr := .call callee [.call (.value ")") []]

/-- In the text, the brackets that are called and the brackets of the
calls look the same. -/
theorem print_bracketBehind_eq (callee : Expr) :
    callee.bracketBehind.print = callee.bracketInside.print := by
  apply String.toList_injective
  simp [bracketBehind, bracketInside, print, prints]

theorem bracketBehind_ne (callee : Expr) :
    callee.bracketBehind ≠ callee.bracketInside := by
  intro heq
  have hvalue : Expr.value ")" = .call (.value ")") [] :=
    List.head_eq_of_cons_eq (Expr.call.inj heq).2
  cases hvalue

theorem OfArithmetic.call {callee : Expr} {arguments : List Expr}
    (hcallee : callee.OfArithmetic)
    (harguments : ∀ argument ∈ arguments, argument.OfArithmetic) :
    OfArithmetic (.call callee arguments) :=
  ofArithmetic_iff.mpr ⟨trivial, List.forall_mem_cons.mpr ⟨hcallee, harguments⟩⟩

theorem ofArithmetic_bracket : OfArithmetic (.value ")") := by decide

theorem OfArithmetic.bracketBehind {callee : Expr} (h : callee.OfArithmetic) :
    callee.bracketBehind.OfArithmetic :=
  (h.call (List.forall_mem_nil _)).call
    (List.forall_mem_singleton.mpr ofArithmetic_bracket)

theorem OfArithmetic.bracketInside {callee : Expr} (h : callee.OfArithmetic) :
    callee.bracketInside.OfArithmetic :=
  h.call (List.forall_mem_singleton.mpr
    (ofArithmetic_bracket.call (List.forall_mem_nil _)))

end Expr

/-- Whatever a source is parsed as, there are sources of two trees with this
part that are printed as one text. -/
theorem exists_parse_print_eq {source : String} {file : Option String} {part : Expr}
    (h : parse source file = .ok part) :
    ∃ first second a b,
      parse first file = .ok a ∧ parse second file = .ok b ∧ a ≠ b ∧
      a.print = b.print ∧
      part ∈ a.parts ∧ part ∈ b.parts := by
  have hpart := ofArithmetic_of_parse_eq_ok h
  have hself : part ∈ part.parts := Expr.mem_parts.mpr (.inl rfl)
  refine ⟨part.bracketBehind.guarded, part.bracketInside.guarded, _, _,
    Expr.parse_guarded hpart.bracketBehind file,
    Expr.parse_guarded hpart.bracketInside file, part.bracketBehind_ne,
    part.print_bracketBehind_eq, ?_, ?_⟩
  · simp [Expr.bracketBehind, Expr.parts, hself]
  · simp [Expr.bracketInside, Expr.parts, hself]

/-- The text of a tree that is parsed tells it from another one, unless both
have an argument that starts with `)`. Then they may have the same text, but it
is refused, whatever it is called. -/
theorem print_ne_of_parse_ne {first second : String}
    {file called : Option String} {a b : Expr}
    (hfirst : parse first file = .ok a) (hsecond : parse second called = .ok b)
    (hne : a ≠ b) :
    a.print ≠ b.print ∨
      ¬ a.KeepsOpen ∧ ¬ b.KeepsOpen ∧
      ∀ name, ∃ error, parse a.print name = .error error := by
  have ha := ofArithmetic_of_parse_eq_ok hfirst
  have hb := ofArithmetic_of_parse_eq_ok hsecond
  by_cases hprint : a.print = b.print
  case neg => exact .inl hprint
  have hrefused : ∀ name other, parse a.print name ≠ .ok other := by
    intro name other hother
    -- the text would be that of both trees, and it is parsed as one
    have hself := ((parse_print_eq_ok_iff ha name).mp hother).1
    rw [hprint] at hother
    exact hne (hself.symm.trans ((parse_print_eq_ok_iff hb name).mp hother).1)
  refine .inr ⟨fun hopen => ?_, fun hopen => ?_, fun name => ?_⟩
  · exact hrefused none a ((parse_print_eq_ok_iff ha none).mpr ⟨rfl, hopen⟩)
  · have hother := (parse_print_eq_ok_iff hb none).mpr ⟨rfl, hopen⟩
    rw [← hprint] at hother
    exact hrefused none b hother
  · cases hparse : parse a.print name with
    | error error => exact ⟨error, rfl⟩
    | ok other => exact absurd hparse (hrefused name other)

/-- Differences are told apart by their parentheses. The text of two calls that
are not told apart is refused. -/
theorem print_ne_differences :
    (Expr.binary "-" (.binary "-" (.value "a") (.value "b")) (.value "c")).print ≠
        (Expr.binary "-" (.value "a")
          (.binary "-" (.value "b") (.value "c"))).print ∧
      ∀ name, ∃ error,
        parse (Expr.value "a").bracketBehind.print name = .error error := by
  have hleft :
      parse "a - b - c" = .ok
        (.binary "-" (.binary "-" (.value "a") (.value "b")) (.value "c")) := by
    decide +kernel
  have hright :
      parse "a - (b - c)" = .ok
        (.binary "-" (.value "a") (.binary "-" (.value "b") (.value "c"))) := by
    decide +kernel
  have hbehind : parse "a()(()))" = .ok (Expr.value "a").bracketBehind := by
    decide +kernel
  have hinside : parse "a(())())" = .ok (Expr.value "a").bracketInside := by
    decide +kernel
  constructor
  · rcases print_ne_of_parse_ne hleft hright (by decide) with hne | ⟨hshut, -⟩
    · exact hne
    · exact absurd (by decide) hshut
  · rcases print_ne_of_parse_ne hbehind hinside (Expr.bracketBehind_ne _)
      with hne | ⟨-, -, hrefused⟩
    · exact absurd (Expr.print_bracketBehind_eq _) hne
    · exact hrefused

/-- Texts do not tell all parsed trees apart: `a()(()))` and `a(())())` are both
printed as `a()())`. -/
theorem not_forall_print_ne : ¬ ∀ (first second : String) (a b : Expr),
    parse first = .ok a → parse second = .ok b → a ≠ b → a.print ≠ b.print := by
  intro h
  have hbehind : parse "a()(()))" = .ok (Expr.value "a").bracketBehind := by
    decide +kernel
  have hinside : parse "a(())())" = .ok (Expr.value "a").bracketInside := by
    decide +kernel
  exact h _ _ _ _ hbehind hinside (Expr.bracketBehind_ne _)
    (Expr.print_bracketBehind_eq _)

end Pratt
