import Pratt.Parser
import Pratt.Scanner.View

set_option autoImplicit false

/-!
# The bound of the recursion

Every expression takes a token, so the bound on nested expressions is never
reached (`exprWithin_eq_expr`), and readers satisfy the equations that one would
write without it: `expr_eq`, `extend_eq` and those of the rules.
-/

namespace Pratt

namespace Parser

variable {α β : Type}

/-! ## Runs -/

theorem bind_apply (parser : Parser α) (next : α → Parser β) (s : Scanner) :
    (parser >>= next) s =
      match parser s with
      | .ok a s' => next a s'
      | .error e s' => .error e s' := by
  simp only [bind, EStateM.bind]
  cases parser s <;> rfl

theorem pure_apply (a : α) (s : Scanner) : (pure a : Parser α) s = .ok a s := rfl

theorem current_apply (s : Scanner) :
    current s = .ok ((s.peek 0).1.map Token.text) (s.peek 0).2 := rfl

theorem advance_apply (s : Scanner) : advance s = .ok s.consume.1 s.consume.2 := rfl

theorem bind_congr_apply {parser other : Parser α} {next after : α → Parser β}
    {s : Scanner} (h : parser s = other s)
    (hnext : ∀ a s', parser s = .ok a s' → next a s' = after a s') :
    (parser >>= next) s = (other >>= after) s := by
  rw [bind_apply, bind_apply, ← h]
  split
  · next heq => exact hnext _ _ heq
  · rfl

/-- Every successful run leaves fewer tokens than there were. -/
def Consumes (parser : Parser α) : Prop :=
  ∀ (s : Scanner) (a : α) (s' : Scanner),
    parser s = .ok a s' → s'.remaining < s.remaining

/-- No successful run leaves more tokens than there were. -/
def Keeps (parser : Parser α) : Prop :=
  ∀ (s : Scanner) (a : α) (s' : Scanner),
    parser s = .ok a s' → s'.remaining ≤ s.remaining

theorem Consumes.keeps {parser : Parser α} (h : Consumes parser) : Keeps parser :=
  fun _ _ _ hrun => Nat.le_of_lt (h _ _ _ hrun)

theorem keeps_pure (a : α) : Keeps (pure a : Parser α) := by
  intro s b s' h
  rw [pure_apply] at h
  injection h with _ hs
  exact hs ▸ Nat.le_refl _

theorem keeps_fail (fault : Fault) (place : Position) :
    Keeps (fail fault place : Parser α) :=
  nofun

theorem Keeps.bind {parser : Parser α} {next : α → Parser β} (h : Keeps parser)
    (hnext : ∀ a, Keeps (next a)) : Keeps (parser >>= next) := by
  intro s b s' hrun
  rw [bind_apply] at hrun
  split at hrun
  · next heq => exact Nat.le_trans (hnext _ _ _ _ hrun) (h _ _ _ heq)
  · cases hrun

theorem keeps_position : Keeps position := by
  intro s a s' h
  injection h with _ hs
  exact hs ▸ Nat.le_refl _

theorem keeps_current : Keeps current := by
  intro s a s' h
  rw [current_apply] at h
  injection h with _ hs
  rw [← hs]
  exact Nat.le_of_eq (Scanner.remaining_snd_peek 0 s)

theorem remaining_lt_of_advance {s s' : Scanner} {token : Token}
    (h : advance s = .ok (some token) s') :
    s'.remaining < s.remaining := by
  rw [advance_apply] at h
  injection h with ha hs
  exact Scanner.remaining_lt_of_consume (Prod.ext ha hs)

theorem keeps_advance : Keeps advance := by
  intro s a s' h
  cases a with
  | some token => exact Nat.le_of_lt (remaining_lt_of_advance h)
  | none =>
    rw [advance_apply] at h
    injection h with _ hs
    exact hs ▸ Scanner.remaining_snd_consume_le s

theorem keeps_expect (expected : String) : Keeps (expect expected) := by
  refine keeps_position.bind fun place => keeps_advance.bind fun found => ?_
  cases found with
  | none => exact keeps_fail _ _
  | some token =>
    simp only
    split
    · exact keeps_pure _
    · exact keeps_fail _ _

/-! ## Expressions take tokens -/

theorem keeps_arguments {operand : Power → Parser Expr}
    (h : ∀ power, Consumes (operand power)) (separator close : String)
    (bound : Nat) :
    Keeps (arguments operand separator close bound) := by
  induction bound with
  | zero => exact keeps_pure _
  | succ bound ih =>
    refine keeps_current.bind fun next => ?_
    split
    · exact keeps_pure _
    · refine (h _).keeps.bind fun first => keeps_current.bind fun after => ?_
      split
      · exact keeps_advance.bind fun _ => ih.bind fun _ => keeps_pure _
      · exact keeps_pure _

end Parser

open Pratt.Parser in
theorem PrefixRule.keeps_run {operand : Power → Parser Expr}
    (h : ∀ power, Consumes (operand power)) (token : Token)
    (rule : PrefixRule) : Keeps (rule.run operand token) := by
  cases rule with
  | value => exact keeps_pure _
  | unary power => exact (h _).keeps.bind fun _ => keeps_pure _
  | group close =>
    exact (h _).keeps.bind fun _ => (keeps_expect _).bind fun _ => keeps_pure _

open Pratt.Parser in
theorem InfixRule.keeps_run {operand : Power → Parser Expr}
    (h : ∀ power, Consumes (operand power)) (bound : Nat) (left : Expr)
    (token : Token) (rule : InfixRule) :
    Keeps (rule.run operand bound left token) := by
  cases rule with
  | binary power associativity => exact (h _).keeps.bind fun _ => keeps_pure _
  | conditional power separator =>
    exact (h _).keeps.bind fun _ =>
      (keeps_expect _).bind fun _ => (h _).keeps.bind fun _ => keeps_pure _
  | call power separator close =>
    exact (keeps_arguments h _ _ _).bind fun _ =>
      (keeps_expect _).bind fun _ => keeps_pure _

namespace Parser

theorem keeps_extendWithin {operand : Power → Parser Expr}
    (h : ∀ power, Consumes (operand power)) (g : Grammar) (power : Power)
    (bound : Nat) (left : Expr) :
    Keeps (extendWithin g operand power bound left) := by
  induction bound generalizing left with
  | zero => exact keeps_pure _
  | succ bound ih =>
    refine keeps_current.bind fun next => ?_
    split
    · exact keeps_pure _
    · refine keeps_advance.bind fun found => ?_
      split
      · exact keeps_pure _
      · exact (InfixRule.keeps_run h _ _ _ _).bind fun left => ih left

/-- Reading an expression takes at least one token. -/
theorem consumes_exprWithin (g : Grammar) (bound : Nat) (power : Power) :
    Consumes (exprWithin g bound power) := by
  induction bound generalizing power with
  | zero =>
    intro s e s' h
    simp only [exprWithin, bind_apply] at h
    cases h
  | succ bound ih =>
    intro s e s' h
    simp only [exprWithin] at h
    rw [bind_apply] at h
    split at h
    · next place s₁ hplace =>
      have hs₁ := keeps_position _ _ _ hplace
      rw [bind_apply] at h
      split at h
      · next found s₂ hfound =>
        cases found with
        | none => cases h
        | some token =>
          have hs₂ := remaining_lt_of_advance hfound
          have hrest : Keeps (do
              let left ← (g.prefixRule token.text).run (exprWithin g bound) token
              extendWithin g (exprWithin g bound) power bound left) :=
            (PrefixRule.keeps_run (fun _ => ih _) _ _).bind fun left =>
              keeps_extendWithin (fun _ => ih _) g power bound left
          have := hrest _ _ _ h
          omega
      · cases h
    · cases h

/-! ## Larger bounds change nothing -/

/-- Two readers of operands that cannot be told apart where at most
`size` tokens are left. -/
def AgreeUpTo (size : Nat) (operand other : Power → Parser Expr) : Prop :=
  ∀ (power : Power) (s : Scanner),
    s.remaining ≤ size → operand power s = other power s

theorem arguments_congr {operand other : Power → Parser Expr} {size : Nat}
    (hc : ∀ power, Consumes (operand power)) (h : AgreeUpTo size operand other)
    (separator close : String) {bound limit : Nat} {s : Scanner}
    (hsize : s.remaining ≤ size) (hbound : s.remaining < bound)
    (hlimit : s.remaining < limit) :
    arguments operand separator close bound s =
      arguments other separator close limit s := by
  induction bound generalizing s limit with
  | zero => omega
  | succ bound ih =>
    obtain ⟨limit, rfl⟩ : ∃ k, limit = k + 1 := ⟨limit - 1, by omega⟩
    refine bind_congr_apply rfl fun found s₁ h₁ => ?_
    have hs₁ := keeps_current _ _ _ h₁
    split
    · rfl
    · refine bind_congr_apply (h _ _ (by omega)) fun first s₂ h₂ => ?_
      have hs₂ := hc _ _ _ _ h₂
      refine bind_congr_apply rfl fun after s₃ h₃ => ?_
      have hs₃ := keeps_current _ _ _ h₃
      split
      · refine bind_congr_apply rfl fun _ s₄ h₄ => ?_
        have hs₄ := keeps_advance _ _ _ h₄
        exact bind_congr_apply (ih (by omega) (by omega) (by omega))
          fun _ _ _ => rfl
      · rfl

end Parser

open Pratt.Parser in
theorem PrefixRule.run_congr {operand other : Power → Parser Expr} {size : Nat}
    (h : AgreeUpTo size operand other) (token : Token) (rule : PrefixRule)
    {s : Scanner} (hsize : s.remaining ≤ size) :
    rule.run operand token s = rule.run other token s := by
  cases rule with
  | value => rfl
  | unary power => exact bind_congr_apply (h _ _ hsize) fun _ _ _ => rfl
  | group close => exact bind_congr_apply (h _ _ hsize) fun _ _ _ => rfl

open Pratt.Parser in
theorem InfixRule.run_congr {operand other : Power → Parser Expr} {size : Nat}
    (hc : ∀ power, Consumes (operand power)) (h : AgreeUpTo size operand other)
    (left : Expr) (token : Token) (rule : InfixRule) {bound limit : Nat}
    {s : Scanner} (hsize : s.remaining ≤ size) (hbound : s.remaining < bound)
    (hlimit : s.remaining < limit) :
    rule.run operand bound left token s = rule.run other limit left token s := by
  cases rule with
  | binary power associativity =>
    exact bind_congr_apply (h _ _ hsize) fun _ _ _ => rfl
  | conditional power separator =>
    refine bind_congr_apply (h _ _ hsize) fun whenTrue s₁ h₁ => ?_
    have hs₁ := hc _ _ _ _ h₁
    refine bind_congr_apply rfl fun _ s₂ h₂ => ?_
    have hs₂ := keeps_expect _ _ _ _ h₂
    exact bind_congr_apply (h _ _ (by omega)) fun _ _ _ => rfl
  | call power separator close =>
    exact bind_congr_apply
      (arguments_congr hc h separator close hsize hbound hlimit)
      fun _ _ _ => rfl

namespace Parser

theorem extendWithin_congr {operand other : Power → Parser Expr} {size : Nat}
    (hc : ∀ power, Consumes (operand power)) (h : AgreeUpTo size operand other)
    (g : Grammar) (power : Power) (left : Expr) {bound limit : Nat}
    {s : Scanner} (hsize : s.remaining ≤ size) (hbound : s.remaining < bound)
    (hlimit : s.remaining < limit) :
    extendWithin g operand power bound left s =
      extendWithin g other power limit left s := by
  induction bound generalizing s limit left with
  | zero => omega
  | succ bound ih =>
    obtain ⟨limit, rfl⟩ : ∃ k, limit = k + 1 := ⟨limit - 1, by omega⟩
    refine bind_congr_apply rfl fun found s₁ h₁ => ?_
    have hs₁ := keeps_current _ _ _ h₁
    cases found.bind (g.continuation? power) with
    | none => rfl
    | some rule =>
      refine bind_congr_apply rfl fun found s₂ h₂ => ?_
      cases found with
      | none => rfl
      | some token =>
        have hs₂ := remaining_lt_of_advance h₂
        refine bind_congr_apply
          (InfixRule.run_congr hc h _ _ _ (by omega) (by omega) (by omega))
          fun left s₃ h₃ => ?_
        have hs₃ := InfixRule.keeps_run hc _ _ _ _ _ _ _ h₃
        exact ih left (by omega) (by omega) (by omega)

theorem exprWithin_congr (g : Grammar) (power : Power) {bound limit : Nat}
    {s : Scanner} (hbound : s.remaining < bound)
    (hlimit : s.remaining < limit) :
    exprWithin g bound power s = exprWithin g limit power s := by
  induction bound generalizing s limit power with
  | zero => omega
  | succ bound ih =>
    obtain ⟨limit, rfl⟩ : ∃ k, limit = k + 1 := ⟨limit - 1, by omega⟩
    refine bind_congr_apply rfl fun place s₁ h₁ => ?_
    have hs₁ := keeps_position _ _ _ h₁
    refine bind_congr_apply rfl fun found s₂ h₂ => ?_
    cases found with
    | none => rfl
    | some token =>
      have hs₂ := remaining_lt_of_advance h₂
      have hc := consumes_exprWithin g bound
      have hagree :
          AgreeUpTo s₂.remaining (exprWithin g bound) (exprWithin g limit) :=
        fun power t ht => ih power (by omega) (by omega)
      refine bind_congr_apply (PrefixRule.run_congr hagree _ _ (Nat.le_refl _))
        fun left s₃ h₃ => ?_
      have hs₃ := PrefixRule.keeps_run hc _ _ _ _ _ h₃
      exact extendWithin_congr hc hagree g power left hs₃ (by omega) (by omega)

theorem remaining_lt_bound (s : Scanner) : s.remaining < bound s :=
  Nat.lt_succ_of_le s.length_toList_le_size

/-- A bound above the number of tokens that are left is not reached. -/
theorem exprWithin_eq_expr (g : Grammar) (power : Power) {bound : Nat} {s : Scanner}
    (h : s.remaining < bound) : exprWithin g bound power s = expr g power s :=
  exprWithin_congr g power h (remaining_lt_bound s)

theorem agreeUpTo_expr (g : Grammar) {size bound : Nat} (h : size < bound) :
    AgreeUpTo size (exprWithin g bound) (expr g) :=
  fun power _ hs => exprWithin_eq_expr g power (Nat.lt_of_le_of_lt hs h)

theorem consumes_expr (g : Grammar) (power : Power) : Consumes (expr g power) :=
  fun s => consumes_exprWithin g (bound s) power s

theorem extendWithin_eq_extend (g : Grammar) (power : Power) (left : Expr)
    {bound limit : Nat} {s : Scanner} (hbound : s.remaining < bound)
    (hlimit : s.remaining < limit) :
    extendWithin g (exprWithin g limit) power bound left s =
      extend g power left s :=
  extendWithin_congr (consumes_exprWithin g limit)
    (fun power _ ht => exprWithin_congr g power (Nat.lt_of_le_of_lt ht hlimit)
      (Nat.lt_of_le_of_lt ht (remaining_lt_bound s)))
    g power left (Nat.le_refl _) hbound (remaining_lt_bound s)

/-! ## Equations without a bound -/

/-- An expression is what its first token starts, extended by the tokens behind
it. -/
theorem expr_eq (g : Grammar) (power : Power) :
    expr g power = (do
      let place ← position
      match ← advance with
      | none => fail .unexpectedEnd place
      | some token => do
        let left ← (g.prefixRule token.text).parse g token
        extend g power left) := by
  funext s
  have hs : s.remaining ≤ s.size := s.length_toList_le_size
  refine bind_congr_apply rfl fun place s₁ h₁ => ?_
  have hs₁ := keeps_position _ _ _ h₁
  refine bind_congr_apply rfl fun found s₂ h₂ => ?_
  cases found with
  | none => rfl
  | some token =>
    have hs₂ := remaining_lt_of_advance h₂
    refine bind_congr_apply
      (PrefixRule.run_congr (agreeUpTo_expr g (by omega)) _ _ (Nat.le_refl _))
      fun left s₃ h₃ => ?_
    have hs₃ := PrefixRule.keeps_run (consumes_exprWithin g s.size) _ _ _ _ _ h₃
    exact extendWithin_eq_extend g power left (by omega) (by omega)

/-- An expression is extended as long as its next token continues it at the
power it is read at. -/
theorem extend_eq (g : Grammar) (power : Power) (left : Expr) :
    extend g power left = (do
      match (← current).bind (g.continuation? power) with
      | none => return left
      | some rule =>
        match ← advance with
        | none => return left
        | some token => do
          let left ← rule.parse g left token
          extend g power left) := by
  funext s
  have hs : s.remaining ≤ s.size := s.length_toList_le_size
  refine bind_congr_apply rfl fun found s₁ h₁ => ?_
  have hs₁ := keeps_current _ _ _ h₁
  cases found.bind (g.continuation? power) with
  | none => rfl
  | some rule =>
    refine bind_congr_apply rfl fun found s₂ h₂ => ?_
    cases found with
    | none => rfl
    | some token =>
      have hs₂ := remaining_lt_of_advance h₂
      have hc := consumes_exprWithin g (bound s)
      refine bind_congr_apply
        (InfixRule.run_congr hc (agreeUpTo_expr g (remaining_lt_bound s)) _ _ _
          (by omega) (by omega) (remaining_lt_bound s₂)) fun left s₃ h₃ => ?_
      have hs₃ := InfixRule.keeps_run hc _ _ _ _ _ _ _ h₃
      exact extendWithin_eq_extend g power left (by omega)
        (Nat.lt_of_le_of_lt (by omega) (remaining_lt_bound s))

/-- Arguments are read until the token that closes the call, or until no
separator follows. -/
theorem argumentList_eq (g : Grammar) (separator close : String) :
    argumentList g separator close = (do
      if (← current) = some close then return []
      let first ← expr g .lowest
      if (← current) = some separator then
        let _ ← advance
        return first :: (← argumentList g separator close)
      else return [first]) := by
  funext s
  have hs : s.remaining ≤ s.size := s.length_toList_le_size
  refine bind_congr_apply rfl fun found s₁ h₁ => ?_
  have hs₁ := keeps_current _ _ _ h₁
  split
  · rfl
  · refine bind_congr_apply rfl fun first s₂ h₂ => ?_
    have hs₂ := consumes_expr g _ _ _ _ h₂
    refine bind_congr_apply rfl fun after s₃ h₃ => ?_
    have hs₃ := keeps_current _ _ _ h₃
    split
    · refine bind_congr_apply rfl fun _ s₄ h₄ => ?_
      have hs₄ := keeps_advance _ _ _ h₄
      refine bind_congr_apply ?_ fun _ _ _ => rfl
      exact arguments_congr (consumes_expr g) (fun _ _ _ => rfl) separator close
        (Nat.le_refl _) (by omega) (remaining_lt_bound s₄)
    · rfl

end Parser

/-- A call reads arguments and the token that closes it. -/
theorem InfixRule.parse_call (g : Grammar) (power : Power)
    (separator close : String) (left : Expr) (token : Token) :
    (InfixRule.call power separator close).parse g left token = (do
      let arguments ← Parser.argumentList g separator close
      let _ ← Parser.expect close
      return .call left arguments) := rfl

end Pratt
