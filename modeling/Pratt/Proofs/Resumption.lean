import Mathlib.Data.List.Basic
import Pratt.Proofs.Reading.Parser

set_option autoImplicit false

/-!
# Reading on at a weaker power

An expression that is read at some power ends in front of an operator that is
too weak. At a weaker power it is read in the same way up to there, and is
then extended (`expr_resumes`). Nothing is read again, and an error is made
before the two part.

The two loops take the same steps as long as the next token continues the
expression at the tighter power. The first token that does not is where the one
stops and the other one starts again, and both only looked at it.
-/

namespace Pratt

/-- What continues an expression at a power continues it at all weaker powers. -/
theorem Grammar.bind_continuation?_of_le {g : Grammar} {weaker tighter : Power}
    (h : weaker ≤ tighter) {found : Option String} {rule : InfixRule}
    (hrule : found.bind (g.continuation? tighter) = some rule) :
    found.bind (g.continuation? weaker) = some rule := by
  obtain ⟨token, rfl, htoken⟩ := Option.bind_eq_some_iff.mp hrule
  obtain ⟨hlookup, hpower⟩ := continuation?_eq_some_iff.mp htoken
  exact continuation?_eq_some_iff.mpr ⟨hlookup, Nat.lt_of_le_of_lt h hpower⟩

theorem InfixRule.keeps_parse (g : Grammar) (rule : InfixRule) (left : Expr)
    (token : Token) :
    Parser.Keeps (rule.parse g left token) :=
  fun s => rule.keeps_run (Parser.consumes_expr g) (Parser.bound s) left token s

namespace Parser

/-! ## One step of the loop -/

/-- How the next token continues an expression that is read at a power, if it
does. -/
def nextRule? (g : Grammar) (power : Power) (s : Scanner) : Option InfixRule :=
  ((s.peek 0).1.map Token.text).bind (g.continuation? power)

variable {g : Grammar} {power weaker tighter : Power} {s : Scanner}
  {rule : InfixRule}

/-- A token that was seen is there to be taken. -/
theorem exists_advance_of_peek_eq_some {token : Token}
    (h : (s.peek 0).1 = some token) :
    ∃ s',
      advance (s.peek 0).2 = .ok (some token) s' ∧
      s'.remaining < s.remaining := by
  have hadvance :
      advance (s.peek 0).2 = .ok (some token) (s.peek 0).2.consume.2 := by
    rw [advance_apply, Scanner.fst_consume, Scanner.toList_snd_peek,
      List.head?_eq_getElem?, ← Scanner.fst_peek, h]
  have hlt := remaining_lt_of_advance hadvance
  rw [Scanner.remaining_snd_peek] at hlt
  exact ⟨_, hadvance, hlt⟩

/-- In front of a token that does not continue it, an expression is not
extended, and the token was only looked at. -/
theorem extend_of_nextRule?_eq_none (h : nextRule? g power s = none) (left : Expr) :
    extend g power left s = .ok left (s.peek 0).2 := by
  rw [nextRule?] at h
  rw [extend_eq, bind_apply, current_apply]
  simp only [h]
  rfl

/-- A token that continues an expression is taken, and the expression is
extended by its rule and then further. This is the same step at all powers that
the token has this rule at. -/
theorem exists_extend_of_nextRule?_eq_some (h : nextRule? g power s = some rule) :
    ∃ (token : Token) (s' : Scanner),
      s'.remaining < s.remaining ∧
      ∀ other, nextRule? g other s = some rule →
        ∀ left,
          extend g other left s =
            (rule.parse g left token >>= extend g other) s' := by
  obtain ⟨text, htext, -⟩ := Option.bind_eq_some_iff.mp h
  obtain ⟨token, htoken, -⟩ := Option.map_eq_some_iff.mp htext
  obtain ⟨s', hadvance, hlt⟩ := exists_advance_of_peek_eq_some htoken
  refine ⟨token, s', hlt, fun other hother left => ?_⟩
  rw [nextRule?] at hother
  rw [extend_eq, bind_apply, current_apply]
  simp only [hother]
  rw [bind_apply, hadvance]

/-- Whether the next token was looked at before makes no difference. -/
theorem extend_snd_peek (g : Grammar) (power : Power) (left : Expr) (s : Scanner) :
    extend g power left (s.peek 0).2 = extend g power left s := by
  rw [extend_eq, bind_apply, bind_apply, current_apply, current_apply,
    Scanner.peek_snd_peek]

/-! ## Two powers -/

/-- Extending an expression at a weaker power is extending it at a
tighter one first. -/
theorem extend_eq_extend_bind_extend (g : Grammar) (h : weaker ≤ tighter)
    (left : Expr) :
    extend g weaker left = extend g tighter left >>= extend g weaker := by
  funext s
  -- both loops take a token in each step, until the tighter one stops
  induction hremaining : s.remaining using Nat.strongRecOn generalizing s left with
  | ind remaining ih =>
    cases hrule : nextRule? g tighter s with
    | none =>
      rw [bind_apply, extend_of_nextRule?_eq_none hrule]
      exact (extend_snd_peek g weaker left s).symm
    | some rule =>
      obtain ⟨token, s', hlt, hextend⟩ := exists_extend_of_nextRule?_eq_some hrule
      have hweaker : nextRule? g weaker s = some rule :=
        g.bind_continuation?_of_le h hrule
      calc extend g weaker left s
          = (rule.parse g left token >>= extend g weaker) s' :=
            hextend weaker hweaker left
        _ = (rule.parse g left token >>=
              fun tree => extend g tighter tree >>= extend g weaker) s' := by
            refine bind_congr_apply rfl fun tree s'' hparse => ?_
            have hle := rule.keeps_parse g left token _ _ _ hparse
            exact ih s''.remaining (by omega) tree s'' rfl
        _ = ((rule.parse g left token >>= extend g tighter) >>=
              extend g weaker) s' := by
            rw [bind_assoc]
        _ = (extend g tighter left >>= extend g weaker) s := by
            rw [bind_apply _ _ s, hextend tighter hrule left,
              bind_apply (rule.parse g left token >>= extend g tighter)]

/-- Reading an expression at a weaker power is reading it at a tighter one and
then extending it. -/
theorem expr_eq_expr_bind_extend (g : Grammar) (h : weaker ≤ tighter) :
    expr g weaker = expr g tighter >>= extend g weaker := by
  funext s
  rw [expr_eq, expr_eq, bind_assoc]
  refine bind_congr_apply rfl fun place s₁ _ => ?_
  rw [bind_assoc]
  refine bind_congr_apply rfl fun found s₂ _ => ?_
  cases found with
  | none => rfl
  | some token =>
    simp only [bind_assoc]
    exact bind_congr_apply rfl fun left s₃ _ =>
      congrFun (extend_eq_extend_bind_extend g h left) s₃

/-- Whatever a parser was used for before, an expression at a weaker power is
the one at a tighter power, extended from where that one ended. Where there is
none at the tighter power, there is none at the weaker one, for the same reason
and with the same tokens taken. -/
theorem expr_resumes (g : Grammar) {weaker tighter : Power}
    (h : weaker ≤ tighter) (s : Scanner) :
    (∀ tree s', expr g tighter s = .ok tree s' →
      expr g weaker s = extend g weaker tree s') ∧
    ∀ error s', expr g tighter s = .error error s' →
      expr g weaker s = .error error s' := by
  have hexpr := congrFun (expr_eq_expr_bind_extend g h) s
  rw [bind_apply] at hexpr
  constructor
  · intro tree s' hrun
    rw [hexpr, hrun]
  · intro error s' hrun
    rw [hexpr, hrun]

/-- A product in front of a difference and a conditional, and a product whose
last factor does not end. -/
theorem expr_resumes_product :
    (∃ s,
      expr .arithmetic 120 (.ofSource "a * b - c ? d : e") =
        .ok (.binary "*" (.value "a") (.value "b")) s ∧
      expr .arithmetic .lowest (.ofSource "a * b - c ? d : e") =
        extend .arithmetic .lowest (.binary "*" (.value "a") (.value "b")) s) ∧
    ∃ s,
      expr .arithmetic 120 (.ofSource "a * (b") =
        .error ⟨.mismatchedDelimiter ")" none, ⟨6, "shell"⟩⟩ s ∧
      expr .arithmetic .lowest (.ofSource "a * (b") =
        .error ⟨.mismatchedDelimiter ")" none, ⟨6, "shell"⟩⟩ s := by
  have hle : Power.lowest ≤ 120 := Nat.zero_le _
  have hproduct :
      (expr .arithmetic 120).outcome (.ofSource "a * b - c ? d : e") =
        .ok (.binary "*" (.value "a") (.value "b")) := by
    decide +kernel
  have hopen :
      (expr .arithmetic 120).outcome (.ofSource "a * (b") =
        .error ⟨.mismatchedDelimiter ")" none, ⟨6, "shell"⟩⟩ := by
    decide +kernel
  obtain ⟨s, hrun⟩ := outcome_eq_ok_iff.mp hproduct
  obtain ⟨t, hfail⟩ := outcome_eq_error_iff.mp hopen
  exact ⟨⟨s, hrun, (expr_resumes .arithmetic hle _).1 _ _ hrun⟩, t, hfail,
    (expr_resumes .arithmetic hle _).2 _ _ hfail⟩

end Parser

end Pratt
