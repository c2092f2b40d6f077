import Pratt.Parser.Bound
import Pratt.Proofs.Cursor
import Pratt.Proofs.Demands

set_option autoImplicit false

/-!
# Parsers do what the demands say

`Performs g demands parser c` describes a parser whose scanner follows the
cursor `c`: which tokens it takes, which token it blames and with which fault,
and where it leaves the scanner, on success and on failure. The demands of an
expression, of a rule and of a whole source say all of this (`performs_expr`,
`PrefixRule.performs_parse`, `InfixRule.performs_parse`, `performs_whole`).

Parsers that run one after the other perform their demands one after the other
(`Performs.bind`), so each parser is described by what it is put together from.
-/

namespace Pratt

/-! ## Cursors -/

namespace Cursor

/-- The texts of the tokens behind the cursor. -/
def texts (c : Cursor) : List String := (c.tokens.drop c.index).map Token.text

/-- The number of tokens behind the cursor. -/
def remaining (c : Cursor) : Nat := c.tokens.length - c.index

/-- The cursor behind the next `n` tokens, or at the end if fewer are left. -/
def skip : Nat → Cursor → Cursor
  | 0, c => c
  | n + 1, c => skip n c.advance

@[simp] theorem skip_zero (c : Cursor) : c.skip 0 = c := rfl

theorem skip_succ (n : Nat) (c : Cursor) : c.skip (n + 1) = c.advance.skip n := rfl

theorem skip_add (m n : Nat) (c : Cursor) : c.skip (m + n) = (c.skip m).skip n := by
  induction m generalizing c with
  | zero => rw [Nat.zero_add, skip_zero]
  | succ m ih => rw [Nat.add_right_comm, skip_succ, ih, skip_succ]

theorem length_texts (c : Cursor) : c.texts.length = c.remaining := by
  simp [texts, remaining]

theorem head?_texts (c : Cursor) : c.texts.head? = c.current.map Token.text := by
  rw [texts, List.head?_map, List.head?_drop, current]

theorem head?_texts_of_current_eq_none {c : Cursor} (h : c.current = none) :
    c.texts.head? = none := by
  rw [head?_texts, h, Option.map_none]

theorem head?_texts_of_current_eq_some {c : Cursor} {token : Token}
    (h : c.current = some token) :
    c.texts.head? = some token.text := by
  rw [head?_texts, h, Option.map_some]

theorem tokens_drop_advance (c : Cursor) :
    c.advance.tokens.drop c.advance.index = (c.tokens.drop c.index).tail := by
  unfold advance
  split
  · rw [List.tail_drop]
  · next hlt =>
    have hle : c.tokens.length ≤ c.index := Nat.le_of_not_lt hlt
    rw [List.drop_of_length_le hle, List.tail_nil]

theorem texts_advance (c : Cursor) : c.advance.texts = c.texts.tail := by
  rw [texts, tokens_drop_advance, List.map_tail, texts]

/-- At the end a cursor does not move. -/
theorem advance_of_current_eq_none {c : Cursor} (h : c.current = none) :
    c.advance = c := by
  rw [current, List.getElem?_eq_none_iff] at h
  rw [advance, if_neg (Nat.not_lt_of_le h)]

/-- A cursor goes through the tokens behind it. -/
theorem tokens_drop_skip (n : Nat) (c : Cursor) :
    (c.skip n).tokens.drop (c.skip n).index = (c.tokens.drop c.index).drop n := by
  induction n generalizing c with
  | zero => rfl
  | succ n ih => rw [skip_succ, ih, tokens_drop_advance, List.drop_tail]

theorem current_skip (n : Nat) (c : Cursor) :
    (c.skip n).current = (c.tokens.drop c.index)[n]? := by
  rw [← List.head?_drop, ← tokens_drop_skip, List.head?_drop, current]

theorem texts_skip (n : Nat) (c : Cursor) : (c.skip n).texts = c.texts.drop n := by
  rw [texts, tokens_drop_skip, List.map_drop, texts]

/-- A cursor stays in its source. -/
theorem length_skip (n : Nat) (c : Cursor) : (c.skip n).length = c.length := by
  induction n generalizing c with
  | zero => rfl
  | succ n ih =>
    rw [skip_succ, ih, advance]
    split <;> rfl

theorem file_skip (n : Nat) (c : Cursor) : (c.skip n).file = c.file := by
  induction n generalizing c with
  | zero => rfl
  | succ n ih =>
    rw [skip_succ, ih, advance]
    split <;> rfl

/-- Behind `n` tokens, a cursor is at the next one or at the end of the source. -/
theorem position_skip {c : Cursor}
    (hfiles : ∀ token ∈ c.tokens, token.span.file = c.file) (n : Nat) :
    (c.skip n).position = ((c.tokens.drop c.index)[n]?.map Token.position).getD
      ⟨c.length, c.file⟩ := by
  rw [position, current_skip, file_skip, length_skip]
  cases htoken : (c.tokens.drop c.index)[n]? with
  | none => rfl
  | some token =>
    have hmem : token ∈ c.tokens :=
      List.mem_of_mem_drop (List.mem_of_getElem? htoken)
    rw [← hfiles token hmem]
    rfl

theorem remaining_skip (n : Nat) (c : Cursor) :
    (c.skip n).remaining = c.remaining - n := by
  rw [← length_texts, texts_skip, List.length_drop, length_texts]

theorem remaining_skip_le (n : Nat) (c : Cursor) :
    (c.skip n).remaining ≤ c.remaining := by
  rw [remaining_skip]
  exact Nat.sub_le _ _

/-- Behind a token there is one token less. -/
theorem remaining_advance_lt {c : Cursor} {token : Token}
    (h : c.current = some token) :
    c.advance.remaining < c.remaining := by
  have hlt : 0 < c.remaining := by
    rw [← length_texts]
    exact List.length_pos_of_mem
      (List.mem_of_head? (head?_texts_of_current_eq_some h))
  have hskip := remaining_skip 1 c
  rw [skip_succ, skip_zero] at hskip
  omega

theorem texts_eq_cons {c : Cursor} {token : Token} (h : c.current = some token) :
    c.texts = token.text :: c.advance.texts := by
  rw [texts_advance, List.cons_head?_tail (head?_texts_of_current_eq_some h)]

end Cursor

/-- What is demanded of a source as a whole: one expression and then the end. -/
def Demand.whole : List Demand := [.operand .lowest, .ending]

namespace Parser

variable {α β : Type}

/-! ## Single tokens -/

section

variable {s : Scanner} {c : Cursor}

theorem position_of_follows (h : s.Follows c) : position s = .ok c.position s := by
  rw [position, h.position]

theorem current_of_follows (h : s.Follows c) :
    ∃ s', s'.Follows c ∧ current s = .ok c.texts.head? s' := by
  obtain ⟨hfound, hafter⟩ := h.peek 0
  refine ⟨(s.peek 0).2, hafter, ?_⟩
  rw [current_apply, hfound, c.head?_texts, Cursor.current, Nat.add_zero]

theorem advance_of_follows (h : s.Follows c) :
    ∃ s', s'.Follows c.advance ∧ advance s = .ok c.current s' :=
  ⟨s.consume.2, h.consume, by rw [advance_apply, h.fst_consume]⟩

end

/-! ## Parsers and demands -/

/-- In front of a cursor, the parser does what the demands say. -/
structure Performs (g : Grammar) (demands : List Demand) (parser : Parser α)
    (c : Cursor) : Prop where
  /-- Where the parser succeeds, the demands are met by the tokens that were
  taken. -/
  ok : ∀ {s s' : Scanner} {a : α}, s.Follows c → parser s = .ok a s' →
    ∃ n ≤ c.remaining,
      Runs g demands c.texts .met (c.texts.drop n) ∧ s'.Follows (c.skip n)
  /-- Where the parser fails, a token is refused. It is taken, and the
  error is at its place. -/
  error : ∀ {s s' : Scanner} {error : ParseError},
    s.Follows c → parser s = .error error s' →
    ∃ n ≤ c.remaining,
      Runs g demands c.texts (.refused error.fault) (c.texts.drop n) ∧
      error.position = (c.skip n).position ∧ s'.Follows (c.skip (n + 1))

namespace Performs

variable {g : Grammar} {demands later new : List Demand} {demand : Demand}
  {parser : Parser α} {next : α → Parser β} {c : Cursor}

theorem pure (a : α) : Performs g [] (Pure.pure a : Parser α) c where
  ok hs hrun := by
    injection hrun with _ hs'
    exact ⟨0, Nat.zero_le _, .met, hs' ▸ hs⟩
  error _ hrun := by cases hrun

/-- What runs behind a parser performs the later demands. -/
theorem bind (h : Performs g demands parser c)
    (hnext : ∀ a n, Performs g later (next a) (c.skip n)) :
    Performs g (demands ++ later) (parser >>= next) c where
  ok hs hrun := by
    rw [bind_apply] at hrun
    split at hrun
    · next a s₁ heq =>
      obtain ⟨n, hn, hruns, hs₁⟩ := h.ok hs heq
      obtain ⟨m, hm, hruns', hs'⟩ := (hnext a n).ok hs₁ hrun
      rw [Cursor.texts_skip, List.drop_drop] at hruns'
      rw [Cursor.remaining_skip] at hm
      exact ⟨n + m, by omega, hruns.append hruns', by rwa [Cursor.skip_add]⟩
    · cases hrun
  error hs hrun := by
    rw [bind_apply] at hrun
    split at hrun
    · next a s₁ heq =>
      obtain ⟨n, hn, hruns, hs₁⟩ := h.ok hs heq
      obtain ⟨m, hm, hruns', hplace, hs'⟩ := (hnext a n).error hs₁ hrun
      rw [Cursor.texts_skip, List.drop_drop] at hruns'
      rw [Cursor.remaining_skip] at hm
      refine ⟨n + m, by omega, hruns.append hruns', by rwa [Cursor.skip_add], ?_⟩
      rwa [Nat.add_assoc, Cursor.skip_add]
    · next error s₁ heq =>
      obtain ⟨n, hn, hruns, hplace, hs₁⟩ := h.error hs heq
      injection hrun with herror hs'
      subst herror hs'
      exact ⟨n, hn, hruns.append_of_refused later, hplace, hs₁⟩

/-- A parser that looks at the next token without taking it lets a demand
give way to others. -/
theorem settle {parser' : Parser α}
    (hmove : demand.move g c.texts.head? = .settle new)
    (heq : ∀ s : Scanner,
      s.Follows c → ∃ s', s'.Follows c ∧ parser s = parser' s')
    (h : Performs g new parser' c) : Performs g [demand] parser c where
  ok hs hrun := by
    obtain ⟨s₁, hs₁, heq⟩ := heq _ hs
    obtain ⟨n, hn, hruns, hs'⟩ := h.ok hs₁ (heq ▸ hrun)
    exact ⟨n, hn, .settle hmove (by rwa [List.append_nil]), hs'⟩
  error hs hrun := by
    obtain ⟨s₁, hs₁, heq⟩ := heq _ hs
    obtain ⟨n, hn, hruns, hs'⟩ := h.error hs₁ (heq ▸ hrun)
    exact ⟨n, hn, .settle hmove (by rwa [List.append_nil]), hs'⟩

/-- A parser that takes the next token goes on with what is demanded behind it. -/
theorem take {parser' : Parser α} {token : Token}
    (hcurrent : c.current = some token)
    (hmove : demand.move g (some token.text) = .take new)
    (heq : ∀ s : Scanner,
      s.Follows c → ∃ s', s'.Follows c.advance ∧ parser s = parser' s')
    (h : Performs g new parser' c.advance) : Performs g [demand] parser c where
  ok hs hrun := by
    obtain ⟨s₁, hs₁, heq⟩ := heq _ hs
    obtain ⟨n, hn, hruns, hs'⟩ := h.ok hs₁ (heq ▸ hrun)
    have hlt := Cursor.remaining_advance_lt hcurrent
    rw [Cursor.texts_eq_cons hcurrent]
    exact ⟨n + 1, by omega, .take hmove (by rwa [List.append_nil]), hs'⟩
  error hs hrun := by
    obtain ⟨s₁, hs₁, heq⟩ := heq _ hs
    obtain ⟨n, hn, hruns, hplace, hs'⟩ := h.error hs₁ (heq ▸ hrun)
    have hlt := Cursor.remaining_advance_lt hcurrent
    rw [Cursor.texts_eq_cons hcurrent]
    exact ⟨n + 1, by omega, .take hmove (by rwa [List.append_nil]), hplace, hs'⟩

/-- A parser that cannot use the next token takes it and fails at its place. -/
theorem refuse {fault : Fault} (hmove : demand.move g c.texts.head? = .refuse fault)
    (heq : ∀ s : Scanner, s.Follows c →
      ∃ s', s'.Follows c.advance ∧ parser s = .error ⟨fault, c.position⟩ s') :
    Performs g [demand] parser c where
  ok hs hrun := by
    obtain ⟨s₁, hs₁, heq⟩ := heq _ hs
    rw [heq] at hrun
    cases hrun
  error hs hrun := by
    obtain ⟨s₁, hs₁, heq⟩ := heq _ hs
    rw [heq] at hrun
    injection hrun with herror hs'
    subst herror hs'
    exact ⟨0, Nat.zero_le _, .refuse hmove, rfl, hs₁⟩

end Performs

/-- A token that is expected performs the demand for it. -/
theorem performs_expect (g : Grammar) (expected : String) (c : Cursor) :
    Performs g [.token expected] (expect expected) c := by
  cases hcurrent : c.current with
  | none =>
    refine .refuse (by rw [Cursor.head?_texts_of_current_eq_none hcurrent]; rfl)
      fun s hs => ?_
    obtain ⟨s', hs', hadvance⟩ := advance_of_follows hs
    refine ⟨s', hs', ?_⟩
    rw [expect, bind_apply, position_of_follows hs]
    simp only
    rw [bind_apply, hadvance, hcurrent]
    rfl
  | some token =>
    have hexpect : ∀ s : Scanner, s.Follows c →
        ∃ s',
          s'.Follows c.advance ∧
          expect expected s =
            (if token.text = expected then return token
              else fail (.mismatchedDelimiter expected (some token.text))
                c.position : Parser Token) s' := by
      intro s hs
      obtain ⟨s', hs', hadvance⟩ := advance_of_follows hs
      refine ⟨s', hs', ?_⟩
      rw [expect, bind_apply, position_of_follows hs]
      simp only
      rw [bind_apply, hadvance, hcurrent]
    by_cases htext : token.text = expected
    · simp only [if_pos htext] at hexpect
      exact .take hcurrent (by simp [Demand.move, htext]) hexpect (.pure token)
    · simp only [if_neg htext] at hexpect
      exact .refuse (by
        simp [Cursor.head?_texts_of_current_eq_some hcurrent, Demand.move,
          htext]) hexpect

/-! ## Expressions -/

/-- Whatever is read where fewer than `size` tokens are left performs its
demands. -/
structure PerformsBelow (g : Grammar) (size : Nat) : Prop where
  expr : ∀ {c : Cursor} (power : Power), c.remaining < size →
    Performs g [.operand power] (expr g power) c
  extend : ∀ {c : Cursor} (power : Power) (left : Expr), c.remaining < size →
    Performs g [.extension power] (extend g power left) c
  arguments : ∀ {c : Cursor} (separator close : String), c.remaining < size →
    Performs g [.arguments separator close] (argumentList g separator close) c

variable {g : Grammar} {size : Nat} {c : Cursor}

theorem PerformsBelow.prefixRule (h : PerformsBelow g size)
    (hsize : c.remaining < size) (rule : PrefixRule) (token : Token) :
    Performs g rule.demands (rule.parse g token) c := by
  cases rule with
  | value => exact .pure _
  | unary power => exact (h.expr power hsize).bind fun _ _ => .pure _
  | group close =>
    exact (h.expr .lowest hsize).bind fun _ _ =>
      (performs_expect g close _).bind fun _ _ => .pure _

theorem PerformsBelow.infixRule (h : PerformsBelow g size)
    (hsize : c.remaining < size) (rule : InfixRule) (left : Expr)
    (token : Token) :
    Performs g rule.demands (rule.parse g left token) c := by
  have hsize' : ∀ n, (c.skip n).remaining < size := fun n =>
    Nat.lt_of_le_of_lt (c.remaining_skip_le n) hsize
  cases rule with
  | binary power associativity => exact (h.expr _ hsize).bind fun _ _ => .pure _
  | conditional power separator =>
    refine (h.expr .lowest hsize).bind fun _ n =>
      (performs_expect g separator _).bind fun _ m => ?_
    rw [← Cursor.skip_add]
    exact (h.expr .lowest (hsize' _)).bind fun _ _ => .pure _
  | call power separator close =>
    rw [InfixRule.parse_call]
    exact (h.arguments separator close hsize).bind fun _ _ =>
      (performs_expect g close _).bind fun _ _ => .pure _

theorem PerformsBelow.performs_expr (h : PerformsBelow g size)
    (hsize : c.remaining < size + 1) (power : Power) :
    Performs g [.operand power] (Parser.expr g power) c := by
  cases hcurrent : c.current with
  | none =>
    refine .refuse (by rw [Cursor.head?_texts_of_current_eq_none hcurrent]; rfl)
      fun s hs => ?_
    obtain ⟨s', hs', hadvance⟩ := advance_of_follows hs
    refine ⟨s', hs', ?_⟩
    rw [expr_eq, bind_apply, position_of_follows hs]
    simp only [bind_apply, hadvance, hcurrent]
    rfl
  | some token =>
    have hlt := Cursor.remaining_advance_lt hcurrent
    refine .take hcurrent rfl (fun s hs => ?_)
      ((h.prefixRule (by omega) (g.prefixRule token.text) token).bind
        fun left n => h.extend power left ?_)
    · obtain ⟨s', hs', hadvance⟩ := advance_of_follows hs
      refine ⟨s', hs', ?_⟩
      rw [expr_eq, bind_apply, position_of_follows hs]
      simp only
      rw [bind_apply, hadvance, hcurrent]
    · have hle := c.advance.remaining_skip_le n
      omega

theorem PerformsBelow.performs_extend (h : PerformsBelow g size)
    (hsize : c.remaining < size + 1) (power : Power) (left : Expr) :
    Performs g [.extension power] (Parser.extend g power left) c := by
  cases hrule : c.texts.head?.bind (g.continuation? power) with
  | none =>
    refine .settle (by simp only [Demand.move, hrule]) (fun s hs => ?_) (.pure left)
    obtain ⟨s', hs', hcurrent⟩ := current_of_follows hs
    refine ⟨s', hs', ?_⟩
    rw [extend_eq, bind_apply, hcurrent]
    simp only [hrule]
  | some rule =>
    cases hcurrent : c.current with
    | none => simp [Cursor.head?_texts_of_current_eq_none hcurrent] at hrule
    | some token =>
      have hlt := Cursor.remaining_advance_lt hcurrent
      have hrule' : (some token.text).bind (g.continuation? power) = some rule := by
        rw [← hrule, Cursor.head?_texts_of_current_eq_some hcurrent]
      refine .take hcurrent (by simp only [Demand.move, hrule']) (fun s hs => ?_)
        ((h.infixRule (by omega) rule left token).bind fun left n =>
          h.extend power left ?_)
      · obtain ⟨s₁, hs₁, hlook⟩ := current_of_follows hs
        obtain ⟨s₂, hs₂, hadvance⟩ := advance_of_follows hs₁
        refine ⟨s₂, hs₂, ?_⟩
        rw [extend_eq, bind_apply, hlook]
        simp only [hrule]
        rw [bind_apply, hadvance, hcurrent]
      · have hle := c.advance.remaining_skip_le n
        omega

/-- The other arguments stand behind a separator, so they are read at a smaller
size. -/
theorem PerformsBelow.performs_others (h : PerformsBelow g size)
    (hsize : c.remaining < size + 1) (first : Expr) (separator close : String) :
    Performs g [.others separator close] (do
      if (← current) = some separator then
        let _ ← advance
        return first :: (← argumentList g separator close)
      else return [first]) c := by
  cases hcurrent : c.current with
  | none =>
    have hhead := Cursor.head?_texts_of_current_eq_none hcurrent
    refine .settle (by simp [Demand.move, hhead]) (fun s hs => ?_) (.pure [first])
    obtain ⟨s', hs', hlook⟩ := current_of_follows hs
    exact ⟨s', hs', by simp [bind_apply, hlook, hhead]⟩
  | some token =>
    have hhead := Cursor.head?_texts_of_current_eq_some hcurrent
    by_cases htext : token.text = separator
    · have hlt := Cursor.remaining_advance_lt hcurrent
      refine .take hcurrent (by simp [Demand.move, htext]) (fun s hs => ?_)
        ((h.arguments separator close (by omega)).bind fun others _ =>
          .pure (first :: others))
      obtain ⟨s₁, hs₁, hlook⟩ := current_of_follows hs
      obtain ⟨s₂, hs₂, hadvance⟩ := advance_of_follows hs₁
      refine ⟨s₂, hs₂, ?_⟩
      rw [bind_apply, hlook]
      simp only [hhead, htext, if_true]
      rw [bind_apply, hadvance]
    · refine .settle (by simp [Demand.move, hhead, htext]) (fun s hs => ?_)
        (.pure [first])
      obtain ⟨s', hs', hlook⟩ := current_of_follows hs
      exact ⟨s', hs', by simp [bind_apply, hlook, hhead, htext]⟩

/-- The first argument may stand where the list does, so it is read at the full
size. -/
theorem PerformsBelow.performs_argumentList (h : PerformsBelow g size)
    (hsize : c.remaining < size + 1) (separator close : String) :
    Performs g [.arguments separator close] (argumentList g separator close) c := by
  have heq : ∀ s : Scanner, s.Follows c →
      ∃ s',
        s'.Follows c ∧
        argumentList g separator close s =
          (if c.texts.head? = some close then return [] else do
            let first ← Parser.expr g .lowest
            if (← current) = some separator then
              let _ ← advance
              return first :: (← argumentList g separator close)
            else return [first] : Parser (List Expr)) s' := by
    intro s hs
    obtain ⟨s', hs', hlook⟩ := current_of_follows hs
    refine ⟨s', hs', ?_⟩
    conv => lhs; rw [argumentList_eq, bind_apply, hlook]
  by_cases hclose : c.texts.head? = some close
  · simp only [if_pos hclose] at heq
    exact .settle (by simp only [Demand.move, if_pos hclose]) heq (.pure [])
  · simp only [if_neg hclose] at heq
    refine .settle (by rw [Demand.move, if_neg hclose]) heq ?_
    refine (h.performs_expr hsize .lowest).bind fun first n =>
      h.performs_others ?_ first separator close
    exact Nat.lt_of_le_of_lt (c.remaining_skip_le n) hsize

theorem performsBelow (g : Grammar) (size : Nat) : PerformsBelow g size := by
  induction size with
  | zero =>
    constructor
    all_goals
      intros
      omega
  | succ size ih =>
    exact ⟨fun power hsize => ih.performs_expr hsize power,
      fun power left hsize => ih.performs_extend hsize power left,
      fun separator close hsize => ih.performs_argumentList hsize separator close⟩

theorem performs_expr (g : Grammar) (power : Power) (c : Cursor) :
    Performs g [.operand power] (expr g power) c :=
  (performsBelow g _).expr power (Nat.lt_succ_self _)

theorem performs_whole (g : Grammar) (c : Cursor) :
    Performs g Demand.whole (whole g) c := by
  refine (performs_expr g .lowest c).bind fun tree n => ?_
  generalize c.skip n = d
  cases hcurrent : d.current with
  | none =>
    refine .settle (by rw [Cursor.head?_texts_of_current_eq_none hcurrent]; rfl)
      (fun s hs => ?_) (.pure tree)
    obtain ⟨s', hs', hadvance⟩ := advance_of_follows hs
    rw [Cursor.advance_of_current_eq_none hcurrent] at hs'
    refine ⟨s', hs', ?_⟩
    rw [bind_apply, position_of_follows hs]
    simp only
    rw [bind_apply, hadvance, hcurrent]
  | some token =>
    refine .refuse (by rw [Cursor.head?_texts_of_current_eq_some hcurrent]; rfl)
      fun s hs => ?_
    obtain ⟨s', hs', hadvance⟩ := advance_of_follows hs
    refine ⟨s', hs', ?_⟩
    rw [bind_apply, position_of_follows hs]
    simp only
    rw [bind_apply, hadvance, hcurrent]
    simp only
    split <;> rfl

end Parser

theorem PrefixRule.performs_parse (g : Grammar) (rule : PrefixRule)
    (token : Token) (c : Cursor) :
    Parser.Performs g rule.demands (rule.parse g token) c :=
  (Parser.performsBelow g _).prefixRule (Nat.lt_succ_self _) rule token

theorem InfixRule.performs_parse (g : Grammar) (rule : InfixRule) (left : Expr)
    (token : Token) (c : Cursor) :
    Parser.Performs g rule.demands (rule.parse g left token) c :=
  (Parser.performsBelow g _).infixRule (Nat.lt_succ_self _) rule left token

/-! ## Whole sources -/

section

variable {g : Grammar} {source : String} {file : Option String}

theorem exists_runs_of_parseWith_eq_ok {tree : Expr}
    (h : parseWith g source file = .ok tree) :
    ∃ rest, Runs g Demand.whole ((tokenize source file).map Token.text) .met
      rest := by
  have hwhole := Parser.performs_whole g (Cursor.ofSource source file)
  rw [parseWith, Parser.outcome] at h
  split at h
  · next hrun =>
    obtain ⟨n, -, hruns, -⟩ := hwhole.ok (Scanner.follows_ofSource source file) hrun
    exact ⟨_, hruns⟩
  · cases h

theorem exists_runs_of_parseWith_eq_error {error : ParseError}
    (h : parseWith g source file = .error error) :
    ∃ n ≤ (tokenize source file).length,
        Runs g Demand.whole ((tokenize source file).map Token.text)
          (.refused error.fault)
          (((tokenize source file).map Token.text).drop n) ∧
        error.position = ((Cursor.ofSource source file).skip n).position := by
  have hwhole := Parser.performs_whole g (Cursor.ofSource source file)
  rw [parseWith, Parser.outcome] at h
  split at h
  · cases h
  · next hrun =>
    obtain ⟨n, hn, hruns, hplace, -⟩ :=
      hwhole.error (Scanner.follows_ofSource source file) hrun
    exact ⟨n, hn, Except.error.inj h ▸ hruns, Except.error.inj h ▸ hplace⟩

/-- A source is refused exactly where its demands are, and the error is at the
place of the token that is refused. -/
theorem parseWith_eq_error_iff {error : ParseError} :
    parseWith g source file = .error error ↔ ∃ n ≤ (tokenize source file).length,
      Runs g Demand.whole ((tokenize source file).map Token.text)
        (.refused error.fault)
        (((tokenize source file).map Token.text).drop n) ∧
      error.position = ((Cursor.ofSource source file).skip n).position := by
  constructor
  · exact exists_runs_of_parseWith_eq_error
  · rintro ⟨n, hn, hruns, hplace⟩
    cases hparse : parseWith g source file with
    | ok tree =>
      obtain ⟨rest, hmet⟩ := exists_runs_of_parseWith_eq_ok hparse
      cases (hmet.unique hruns).1
    | error other =>
      obtain ⟨m, hm, hruns', hplace'⟩ := exists_runs_of_parseWith_eq_error hparse
      rw [← List.length_map Token.text] at hn hm
      obtain ⟨hverdict, rfl⟩ := hruns'.unique_of_drop hruns hm hn
      obtain ⟨fault, place⟩ := error
      obtain ⟨fault', place'⟩ := other
      obtain rfl : fault' = fault := Verdict.refused.inj hverdict
      obtain rfl : place' = place := hplace'.trans hplace.symm
      rfl

end

end Pratt
