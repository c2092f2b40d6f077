import Pratt.Proofs.Spelling
import Pratt.Proofs.Trace

set_option autoImplicit false

/-!
# How much work parsing is

Whatever the grammar, reading an expression starts at most as many expressions
as tokens are left, or one more, and ends (`expr_works_linearly`). An expression
that is read has taken at least one token for each of its nodes, and at least
one for each expression that was started on the way.

The number of starts is read off the record, in which each expression is paid
for by its first token. The number of nodes is that of the words which spell
them.
-/

namespace Pratt

/-! ## Nodes and words -/

mutual

/-- Each node of a tree has a word of its own in a spelling. -/
theorem Spells.size_le {g : Grammar} {words : List String} {tree : Expr} :
    Spells g words tree → tree.size ≤ words.length
  | .value _ => Nat.le_refl 1
  | .unary _ hoperand => by
    have hle := hoperand.size_le
    simp only [Expr.size, List.length_cons]
    omega
  | .group _ hinner => by
    have hle := hinner.size_le
    simp only [List.length_cons, List.length_append]
    omega
  | .binary _ hleft hright => by
    have hle := hleft.size_le
    have hle' := hright.size_le
    simp only [Expr.size, List.length_append, List.length_cons]
    omega
  | .conditional _ hcondition htrue hfalse => by
    have hle := hcondition.size_le
    have hle' := htrue.size_le
    have hle'' := hfalse.size_le
    simp only [Expr.size, List.length_append, List.length_cons]
    omega
  | .call _ hcallee harguments => by
    have hle := hcallee.size_le
    have hle' := harguments.sizes_le
    simp only [Expr.size, List.length_append, List.length_cons]
    omega

theorem SpellsArguments.sizes_le {g : Grammar} {separator : String}
    {words : List String} {arguments : List Expr} :
    SpellsArguments g separator words arguments →
    Expr.sizes arguments ≤ words.length
  | .none => Nat.le_refl 0
  | .last hfirst => hfirst.size_le
  | .more hfirst hothers => by
    have hle := hfirst.size_le
    have hle' := hothers.sizes_le
    simp only [Expr.sizes, List.length_append, List.length_cons]
    omega

end

/-! ## Tokens that are taken -/

namespace Scanner

/-- A request takes the next token or none. -/
theorem exists_toList_ask (s : Scanner) (request : Request) :
    ∃ n, (s.ask request).2.toList = s.toList.drop n := by
  cases request with
  | peek n => exact ⟨0, toList_snd_peek n s⟩
  | consume => exact ⟨1, by rw [List.drop_one]; exact toList_snd_consume s⟩
  | next => exact ⟨1, by rw [List.drop_one]; exact toList_snd_consume s⟩
  | position => exact ⟨0, rfl⟩

theorem exists_toList_afterAll (s : Scanner) (requests : List Request) :
    ∃ n, (s.afterAll requests).toList = s.toList.drop n := by
  induction requests generalizing s with
  | nil => exact ⟨0, rfl⟩
  | cons request requests ih =>
    obtain ⟨n, hn⟩ := s.exists_toList_ask request
    obtain ⟨m, hm⟩ := ih (s.ask request).2
    exact ⟨n + m, by rw [← List.drop_drop, ← hn]; exact hm⟩

/-- On the way to another scanner, some of the tokens that are left are
taken from the front. -/
theorem MovedBy.exists_taken {s s' : Scanner} {events : List Event}
    (h : s.MovedBy events s') :
    ∃ taken, s.toList = taken ++ s'.toList := by
  obtain ⟨n, hn⟩ := s.exists_toList_afterAll (Event.requests events)
  rw [h.scanner] at hn
  exact ⟨s.toList.take n, by rw [hn, List.take_append_drop]⟩

end Scanner

/-- An expression that is read takes at least as many tokens as its tree has
nodes. -/
theorem Parser.size_le_of_expr {g : Grammar} {power : Power} {s s' : Scanner}
    {tree : Expr} (h : expr g power s = .ok tree s') :
    tree.size + s'.remaining ≤ s.remaining := by
  obtain ⟨words, htexts, hspells⟩ := (reads_of_expr h).exists_spells
  have hlength := congrArg List.length htexts
  have hle := hspells.size_le
  simp only [Scanner.texts, List.length_append, List.length_map] at hlength
  unfold Scanner.remaining
  omega

/-- Wherever an expression is read, whatever the grammar, the recursion ends: a
bound of one more than the number of tokens that are left is enough, and so is
any larger one. The expressions that are started are no more than the tokens
that are left and one, this one included. If it is read, then it has taken at
least one token, at least one for each expression that was started and at least
one for each node of its tree. -/
theorem expr_works_linearly (g : Grammar) (power : Power) (s : Scanner)
    (more : Nat) :
    Parser.exprWithin g (s.remaining + 1 + more) power s = Parser.expr g power s ∧
    ∃ events,
      Recorder.expr g (s.remaining + 1 + more) power (s, []) =
        Recorder.withRecord events (Parser.expr g power s) ∧
      Event.readings events ≤ s.remaining + 1 ∧
      ∀ tree s', Parser.expr g power s = .ok tree s' →
        ∃ taken,
          s.toList = taken ++ s'.toList ∧
          1 ≤ taken.length ∧
          Event.readings events ≤ taken.length ∧
          tree.size ≤ taken.length := by
  have hbound : s.remaining < s.remaining + 1 + more :=
    Nat.lt_of_lt_of_le (Nat.lt_succ_self _) (Nat.le_add_right _ _)
  obtain ⟨events, hrecounts, hrecord⟩ := Parser.recordedBy_expr g power hbound
  refine ⟨Parser.exprWithin_eq_expr g power hbound, events, hrecord [], ?_⟩
  cases hrun : Parser.expr g power s with
  | error error s' =>
    rw [hrun] at hrecounts
    cases hrecounts with
    | error _ hpaid => exact ⟨hpaid, nofun⟩
  | ok tree s' =>
    have hconsumed := Parser.consumes_expr g power s tree s' hrun
    have hsize := Parser.size_le_of_expr hrun
    rw [hrun] at hrecounts
    cases hrecounts with
    | ok hmoved hpaid =>
      obtain ⟨taken, htaken⟩ := hmoved.exists_taken
      have hlength : s.remaining = taken.length + s'.remaining := by
        rw [Scanner.remaining, htaken, List.length_append, Scanner.remaining]
      refine ⟨by omega, fun tree' t heq => ?_⟩
      obtain ⟨rfl, rfl⟩ := EStateM.Result.ok.inj heq
      exact ⟨taken, htaken, by omega, by omega, by omega⟩

/-- Calls whose arguments are separated by what closes them, so that one bracket
is not enough behind an argument. -/
def closingSeparator : Grammar :=
  Grammar.empty.add (.continues "(" (.call 170 ")" ")"))

theorem expr_works_linearly_closingSeparator :
    (∃ s',
      Parser.expr closingSeparator .lowest (.ofSource "f(a))") =
        .ok (.call (.value "f") [.value "a"]) s' ∧
      ∃ taken,
        (Scanner.ofSource "f(a))").toList = taken ++ s'.toList ∧
        3 ≤ taken.length) ∧
    ∃ events,
      Recorder.expr closingSeparator 5 .lowest (.ofSource "f(a)", []) =
        Recorder.withRecord events
          (Parser.expr closingSeparator .lowest (.ofSource "f(a)")) ∧
      Event.readings events ≤ 5 := by
  constructor
  · have hread :
        (Parser.expr closingSeparator .lowest).outcome (.ofSource "f(a))") =
          .ok (.call (.value "f") [.value "a"]) := by
      decide +kernel
    obtain ⟨s', hrun⟩ := Parser.outcome_eq_ok_iff.mp hread
    obtain ⟨-, events, -, -, hok⟩ :=
      expr_works_linearly closingSeparator .lowest (.ofSource "f(a))") 0
    obtain ⟨taken, htaken, -, -, hsize⟩ := hok _ s' hrun
    exact ⟨s', hrun, taken, htaken, hsize⟩
  · have hremaining : (Scanner.ofSource "f(a)").remaining = 4 := by decide +kernel
    obtain ⟨-, events, hrecord, hreadings, -⟩ :=
      expr_works_linearly closingSeparator .lowest (.ofSource "f(a)") 0
    rw [hremaining] at hrecord hreadings
    exact ⟨events, hrecord, hreadings⟩

end Pratt
