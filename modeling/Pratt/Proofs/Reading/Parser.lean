import Pratt.Parser.Bound
import Pratt.Proofs.Layout
import Pratt.Proofs.Reading

set_option autoImplicit false

/-!
# Parsers read what readings say

A parser returns a tree exactly where a reading does, and leaves the same
texts: `reads_of_expr` is the one direction, `Reads.exists_run` the other,
and `parseWith_eq_ok_iff` both for a whole source. So what is proved of
readings holds of parsers, whatever the layout of the source and whatever
was looked at before.

Both directions go through the equations `expr_of_texts_eq_cons`,
`extend_of_pull_le`, `extend_of_infixRule?`, `argumentList_of_head?_eq`
and `argumentList_of_head?_ne`, which take one step of a parser on the
texts in front of it.
-/

namespace Pratt

/-! ## Single tokens -/

namespace Parser

variable {α β : Type}

theorem bind_eq_ok_iff {parser : Parser α} {next : α → Parser β}
    {s s' : Scanner} {b : β} :
    (parser >>= next) s = .ok b s' ↔
    ∃ a t, parser s = .ok a t ∧ next a t = .ok b s' := by
  rw [bind_apply]
  constructor
  · intro h
    split at h
    · next a t heq => exact ⟨a, t, heq, h⟩
    · cases h
  · rintro ⟨a, t, hparser, hnext⟩
    rw [hparser]
    exact hnext

theorem pure_eq_ok_iff {a b : α} {s s' : Scanner} :
    (pure a : Parser α) s = .ok b s' ↔ a = b ∧ s = s' := by
  rw [pure_apply, EStateM.Result.ok.injEq]

/-- Looking at the next token finds its text and takes nothing. -/
theorem current_eq (s : Scanner) :
    ∃ s', current s = .ok s.texts.head? s' ∧ s'.texts = s.texts := by
  refine ⟨(s.peek 0).2, ?_, Scanner.texts_snd_peek 0 s⟩
  rw [current_apply, Scanner.fst_peek, Scanner.texts, List.head?_map,
    List.head?_eq_getElem?]

/-- Taking a token leaves those behind it. -/
theorem advance_of_texts_eq_cons {s : Scanner} {text : String} {texts : List String}
    (h : s.texts = text :: texts) :
    ∃ token s',
      advance s = .ok (some token) s' ∧ token.text = text ∧
      s'.texts = texts := by
  rw [Scanner.texts, List.map_eq_cons_iff] at h
  obtain ⟨token, tokens, htokens, htext, htexts⟩ := h
  refine ⟨token, s.consume.2, ?_, htext, ?_⟩
  · rw [advance_apply, Scanner.fst_consume, htokens, List.head?_cons]
  · rw [Scanner.texts, Scanner.toList_snd_consume, htokens, List.tail_cons, htexts]

theorem advance_of_texts_eq_nil {s : Scanner} (h : s.texts = []) :
    ∃ s', advance s = .ok none s' := by
  rw [Scanner.texts, List.map_eq_nil_iff] at h
  exact ⟨s.consume.2, by rw [advance_apply, Scanner.fst_consume, h, List.head?_nil]⟩

/-- A token that is expected is taken exactly if it comes next. -/
theorem expect_of_texts_eq_cons {s : Scanner} {text : String} {texts : List String}
    (h : s.texts = text :: texts) (expected : String) :
    ∃ token s',
      s'.texts = texts ∧
      expect expected s =
        if text = expected then .ok token s'
        else .error ⟨.mismatchedDelimiter expected (some text), s.position⟩ s' := by
  obtain ⟨token, s', hadvance, rfl, htexts⟩ := advance_of_texts_eq_cons h
  refine ⟨token, s', htexts, ?_⟩
  simp only [expect, bind_apply, position, hadvance]
  split
  · rw [pure_apply]
  · rfl

theorem expect_of_texts_eq_nil {s : Scanner} (h : s.texts = [])
    (expected : String) :
    ∃ s',
      expect expected s =
        .error ⟨.mismatchedDelimiter expected none, s.position⟩ s' := by
  obtain ⟨s', hadvance⟩ := advance_of_texts_eq_nil h
  refine ⟨s', ?_⟩
  simp only [expect, bind_apply, position, hadvance]
  rfl

theorem expect_self {s : Scanner} {text : String} {texts : List String}
    (h : s.texts = text :: texts) :
    ∃ token s', expect text s = .ok token s' ∧ s'.texts = texts := by
  obtain ⟨token, s', htexts, hexpect⟩ := expect_of_texts_eq_cons h text
  exact ⟨token, s', by rw [hexpect, if_pos rfl], htexts⟩

theorem texts_of_expect {s s' : Scanner} {expected : String} {token : Token}
    (h : expect expected s = .ok token s') : s.texts = expected :: s'.texts := by
  cases htexts : s.texts with
  | nil =>
    obtain ⟨t, hexpect⟩ := expect_of_texts_eq_nil htexts expected
    simp [hexpect] at h
  | cons text texts =>
    obtain ⟨token, t, hrest, hexpect⟩ := expect_of_texts_eq_cons htexts expected
    rw [hexpect] at h
    split at h
    · next heq =>
      injection h with _ hs
      rw [heq, ← hs, hrest]
    · cases h

/-! ## One step of an expression -/

/-- An expression is what its first token starts, extended by what follows. -/
theorem expr_of_texts_eq_cons {s : Scanner} {text : String} {texts : List String}
    (h : s.texts = text :: texts) (g : Grammar) (power : Power) :
    ∃ (token : Token) (s' : Scanner), token.text = text ∧ s'.texts = texts ∧
      expr g power s =
        ((g.prefixRule text).parse g token >>= extend g power) s' := by
  obtain ⟨token, s', hadvance, rfl, htexts⟩ := advance_of_texts_eq_cons h
  refine ⟨token, s', rfl, htexts, ?_⟩
  rw [expr_eq, bind_apply]
  simp only [position]
  rw [bind_apply, hadvance]

theorem expr_of_texts_eq_nil {s : Scanner} (h : s.texts = []) (g : Grammar)
    (power : Power) :
    ∃ s', expr g power s = .error ⟨.unexpectedEnd, s.position⟩ s' := by
  obtain ⟨s', hadvance⟩ := advance_of_texts_eq_nil h
  refine ⟨s', ?_⟩
  rw [expr_eq, bind_apply]
  simp only [position]
  rw [bind_apply, hadvance]
  rfl

/-- An expression is complete where nothing pulls harder than its power. -/
theorem extend_of_pull_le {g : Grammar} {power : Power} {s : Scanner}
    (h : g.pull s.texts ≤ power) (left : Expr) :
    ∃ s', extend g power left s = .ok left s' ∧ s'.texts = s.texts := by
  obtain ⟨s', hcurrent, htexts⟩ := current_eq s
  refine ⟨s', ?_, htexts⟩
  rw [extend_eq, bind_apply, hcurrent]
  simp only [Grammar.bind_continuation?_eq_none_iff.mpr h, pure_apply]

/-- An expression is extended by a token that pulls harder than its power. -/
theorem extend_of_infixRule? {g : Grammar} {power : Power} {s : Scanner}
    {text : String} {texts : List String} {rule : InfixRule}
    (h : s.texts = text :: texts) (hrule : g.infixRule? text = some rule)
    (hpower : power < rule.power) (left : Expr) :
    ∃ (token : Token) (s' : Scanner), token.text = text ∧ s'.texts = texts ∧
      extend g power left s = (rule.parse g left token >>= extend g power) s' := by
  obtain ⟨s₁, hcurrent, hs₁⟩ := current_eq s
  obtain ⟨token, s₂, hadvance, htoken, hs₂⟩ :=
    advance_of_texts_eq_cons (hs₁.trans h)
  refine ⟨token, s₂, htoken, hs₂, ?_⟩
  rw [extend_eq, bind_apply, hcurrent, h]
  simp only [List.head?_cons, Option.bind_some,
    Grammar.continuation?_eq_some_iff.mpr ⟨hrule, hpower⟩]
  rw [bind_apply, hadvance]

/-- No argument is read where the token that closes the arguments comes next. -/
theorem argumentList_of_head?_eq {s : Scanner} {close : String}
    (h : s.texts.head? = some close) (g : Grammar) (separator : String) :
    ∃ s', argumentList g separator close s = .ok [] s' ∧ s'.texts = s.texts := by
  obtain ⟨s', hcurrent, htexts⟩ := current_eq s
  refine ⟨s', ?_, htexts⟩
  rw [argumentList_eq, bind_apply, hcurrent]
  simp only [h, if_true, pure_apply]

/-- Else an argument is read, and others if a separator follows it. -/
theorem argumentList_of_head?_ne {s : Scanner} {close : String}
    (h : s.texts.head? ≠ some close) (g : Grammar) (separator : String) :
    ∃ s', s'.texts = s.texts ∧ argumentList g separator close s = (do
      let first ← expr g .lowest
      if (← current) = some separator then
        let _ ← advance
        return first :: (← argumentList g separator close)
      else return [first]) s' := by
  obtain ⟨s', hcurrent, htexts⟩ := current_eq s
  refine ⟨s', htexts, ?_⟩
  conv => lhs; rw [argumentList_eq]
  rw [bind_apply, hcurrent]
  simp only [h, if_false]

/-! ## What a parser returns is a reading -/

/-- Whatever is returned where fewer than `size` tokens are left is a reading. -/
structure ReadsBelow (g : Grammar) (size : Nat) : Prop where
  expr : ∀ {power : Power} {s s' : Scanner} {tree : Expr}, s.texts.length < size →
    expr g power s = .ok tree s' → Reads g power s.texts tree s'.texts
  extend : ∀ {power : Power} {left : Expr} {s s' : Scanner} {tree : Expr},
    s.texts.length < size →
    extend g power left s = .ok tree s' → Extends g power left s.texts tree s'.texts
  arguments : ∀ {separator close : String} {s s' : Scanner} {arguments : List Expr},
    s.texts.length < size → argumentList g separator close s = .ok arguments s' →
    ReadsArguments g separator close s.texts arguments s'.texts

theorem ReadsBelow.reads_of_expr {g : Grammar} {size : Nat}
    (h : ReadsBelow g size) {power : Power} {s s' : Scanner} {tree : Expr}
    (hsize : s.texts.length < size + 1)
    (hrun : Parser.expr g power s = .ok tree s') :
    Reads g power s.texts tree s'.texts := by
  cases htexts : s.texts with
  | nil =>
    obtain ⟨t, heq⟩ := expr_of_texts_eq_nil htexts g power
    simp [heq] at hrun
  | cons text texts =>
    obtain ⟨token, s₁, rfl, rfl, heq⟩ := expr_of_texts_eq_cons htexts g power
    rw [htexts, List.length_cons] at hsize
    rw [heq, bind_eq_ok_iff] at hrun
    obtain ⟨left, s₂, hparse, hextend⟩ := hrun
    cases hrule : g.prefixRule token.text with
    | value =>
      rw [hrule] at hparse
      obtain ⟨rfl, rfl⟩ := pure_eq_ok_iff.mp hparse
      exact .value hrule (h.extend (by omega) hextend)
    | unary own =>
      rw [hrule] at hparse
      obtain ⟨operand, t, hoperand, hpure⟩ := bind_eq_ok_iff.mp hparse
      obtain ⟨rfl, rfl⟩ := pure_eq_ok_iff.mp hpure
      have hreads := h.expr (by omega) hoperand
      have hlt := hreads.length_lt
      exact .unary hrule hreads (h.extend (by omega) hextend)
    | group close =>
      rw [hrule] at hparse
      obtain ⟨inner, t, hinner, hrest⟩ := bind_eq_ok_iff.mp hparse
      obtain ⟨closing, u, hexpect, hpure⟩ := bind_eq_ok_iff.mp hrest
      obtain ⟨rfl, rfl⟩ := pure_eq_ok_iff.mp hpure
      have hreads := h.expr (by omega) hinner
      have hlt := hreads.length_lt
      rw [texts_of_expect hexpect, List.length_cons] at hlt
      rw [texts_of_expect hexpect] at hreads
      exact .group hrule hreads (h.extend (by omega) hextend)

theorem ReadsBelow.extends_of_extend {g : Grammar} {size : Nat}
    (h : ReadsBelow g size) {power : Power} {left : Expr} {s s' : Scanner}
    {tree : Expr} (hsize : s.texts.length < size + 1)
    (hrun : Parser.extend g power left s = .ok tree s') :
    Extends g power left s.texts tree s'.texts := by
  by_cases hpull : g.pull s.texts ≤ power
  · obtain ⟨s₁, heq, hs₁⟩ := extend_of_pull_le hpull left
    rw [heq] at hrun
    injection hrun with htree hs
    subst htree hs
    rw [hs₁]
    exact .stop hpull
  · obtain ⟨text, texts, rule, htexts, hrule, hpower⟩ :=
      Grammar.exists_rule_of_lt_pull (Nat.lt_of_not_le hpull)
    obtain ⟨token, s₁, rfl, rfl, heq⟩ :=
      extend_of_infixRule? htexts hrule hpower left
    rw [htexts, List.length_cons] at hsize
    rw [heq, bind_eq_ok_iff] at hrun
    obtain ⟨extended, s₂, hparse, hextend⟩ := hrun
    rw [htexts]
    cases rule with
    | binary own associativity =>
      obtain ⟨right, t, hright, hpure⟩ := bind_eq_ok_iff.mp hparse
      obtain ⟨rfl, rfl⟩ := pure_eq_ok_iff.mp hpure
      have hreads := h.expr (by omega) hright
      have hlt := hreads.length_lt
      exact .binary hrule hpower hreads (h.extend (by omega) hextend)
    | conditional own separator =>
      obtain ⟨whenTrue, t, htrue, hrest⟩ := bind_eq_ok_iff.mp hparse
      obtain ⟨token', u, hexpect, hrest⟩ := bind_eq_ok_iff.mp hrest
      obtain ⟨whenFalse, v, hfalse, hpure⟩ := bind_eq_ok_iff.mp hrest
      obtain ⟨rfl, rfl⟩ := pure_eq_ok_iff.mp hpure
      have htrue' := h.expr (by omega) htrue
      have hlt := htrue'.length_lt
      rw [texts_of_expect hexpect, List.length_cons] at hlt
      rw [texts_of_expect hexpect] at htrue'
      have hfalse' := h.expr (by omega) hfalse
      have hlt' := hfalse'.length_lt
      exact .conditional hrule hpower htrue' hfalse' (h.extend (by omega) hextend)
    | call own separator close =>
      rw [InfixRule.parse_call] at hparse
      obtain ⟨arguments, t, harguments, hrest⟩ := bind_eq_ok_iff.mp hparse
      obtain ⟨token', u, hexpect, hpure⟩ := bind_eq_ok_iff.mp hrest
      obtain ⟨rfl, rfl⟩ := pure_eq_ok_iff.mp hpure
      have hreads := h.arguments (by omega) harguments
      have hle := hreads.length_le
      rw [texts_of_expect hexpect, List.length_cons] at hle
      rw [texts_of_expect hexpect] at hreads
      exact .call hrule hpower hreads (h.extend (by omega) hextend)

/-- The first argument may start where the list does, so it is read at the full
size. -/
theorem ReadsBelow.readsArguments_of_argumentList {g : Grammar} {size : Nat}
    (h : ReadsBelow g size) {separator close : String} {s s' : Scanner}
    {arguments : List Expr} (hsize : s.texts.length < size + 1)
    (hrun : Parser.argumentList g separator close s = .ok arguments s') :
    ReadsArguments g separator close s.texts arguments s'.texts := by
  by_cases hclose : s.texts.head? = some close
  · obtain ⟨s₁, heq, hs₁⟩ := argumentList_of_head?_eq hclose g separator
    rw [heq] at hrun
    injection hrun with harguments hs
    subst harguments hs
    rw [hs₁]
    exact .closed hclose
  · obtain ⟨s₁, hs₁, heq⟩ := argumentList_of_head?_ne hclose g separator
    rw [heq, bind_eq_ok_iff] at hrun
    obtain ⟨first, s₂, hfirst, hrest⟩ := hrun
    have hreads := h.reads_of_expr (by rw [hs₁]; exact hsize) hfirst
    rw [hs₁] at hreads
    obtain ⟨s₃, hcurrent, hs₃⟩ := current_eq s₂
    rw [bind_apply, hcurrent] at hrest
    by_cases hseparator : s₂.texts.head? = some separator
    · simp only [hseparator, if_true] at hrest
      obtain ⟨found, s₄, hadvance, hrest⟩ := bind_eq_ok_iff.mp hrest
      obtain ⟨texts, htexts⟩ := List.head?_eq_some_iff.mp hseparator
      obtain ⟨token, t, hadvance', -, ht⟩ :=
        advance_of_texts_eq_cons (hs₃.trans htexts)
      rw [hadvance'] at hadvance
      injection hadvance with _ hs₄
      subst hs₄
      obtain ⟨others, u, hothers, hpure⟩ := bind_eq_ok_iff.mp hrest
      obtain ⟨rfl, rfl⟩ := pure_eq_ok_iff.mp hpure
      have hlt := hreads.length_lt
      rw [htexts, List.length_cons] at hlt
      rw [htexts, ← ht] at hreads
      exact .more hclose hreads (h.arguments (by rw [ht]; omega) hothers)
    · simp only [hseparator, if_false] at hrest
      obtain ⟨rfl, rfl⟩ := pure_eq_ok_iff.mp hrest
      rw [hs₃]
      exact .last hclose hreads hseparator

theorem readsBelow (g : Grammar) (size : Nat) : ReadsBelow g size := by
  induction size with
  | zero =>
    constructor
    all_goals
      intros
      omega
  | succ size ih =>
    exact ⟨ih.reads_of_expr, ih.extends_of_extend,
      ih.readsArguments_of_argumentList⟩

/-- What a parser returns as an expression is a reading. -/
theorem reads_of_expr {g : Grammar} {power : Power} {s s' : Scanner} {tree : Expr}
    (h : expr g power s = .ok tree s') : Reads g power s.texts tree s'.texts :=
  (readsBelow g _).expr (Nat.lt_succ_self _) h

/-! ## Every reading is returned by a parser -/

end Parser

open Pratt.Parser in
mutual

/-- An expression that can be read is returned. -/
theorem Reads.exists_run {g : Grammar} {power : Power}
    {input rest : List String} {tree : Expr} :
    Reads g power input tree rest → ∀ s : Scanner, s.texts = input →
      ∃ s', expr g power s = .ok tree s' ∧ s'.texts = rest
  | .value hrule hextends => by
    intro s hs
    obtain ⟨token, s₁, htoken, hs₁, heq⟩ := expr_of_texts_eq_cons hs g power
    obtain ⟨s₂, hextend, hs₂⟩ := hextends.exists_run _ hs₁
    refine ⟨s₂, ?_, hs₂⟩
    subst htoken
    rw [heq, hrule]
    exact bind_eq_ok_iff.mpr ⟨_, s₁, rfl, hextend⟩
  | .unary hrule hoperand hextends => by
    intro s hs
    obtain ⟨token, s₁, htoken, hs₁, heq⟩ := expr_of_texts_eq_cons hs g power
    obtain ⟨s₂, hexpr, hs₂⟩ := hoperand.exists_run _ hs₁
    obtain ⟨s₃, hextend, hs₃⟩ := hextends.exists_run _ hs₂
    refine ⟨s₃, ?_, hs₃⟩
    subst htoken
    rw [heq, hrule]
    exact bind_eq_ok_iff.mpr
      ⟨_, s₂, bind_eq_ok_iff.mpr ⟨_, s₂, hexpr, rfl⟩, hextend⟩
  | .group hrule hinner hextends => by
    intro s hs
    obtain ⟨token, s₁, htoken, hs₁, heq⟩ := expr_of_texts_eq_cons hs g power
    obtain ⟨s₂, hexpr, hs₂⟩ := hinner.exists_run _ hs₁
    obtain ⟨closing, s₃, hexpect, hs₃⟩ := expect_self hs₂
    obtain ⟨s₄, hextend, hs₄⟩ := hextends.exists_run _ hs₃
    refine ⟨s₄, ?_, hs₄⟩
    subst htoken
    rw [heq, hrule]
    refine bind_eq_ok_iff.mpr
      ⟨_, s₃, bind_eq_ok_iff.mpr ⟨_, s₂, hexpr, ?_⟩, hextend⟩
    exact bind_eq_ok_iff.mpr ⟨closing, s₃, hexpect, rfl⟩

theorem Extends.exists_run {g : Grammar} {power : Power} {left tree : Expr}
    {input rest : List String} :
    Extends g power left input tree rest → ∀ s : Scanner, s.texts = input →
      ∃ s', extend g power left s = .ok tree s' ∧ s'.texts = rest
  | .stop hpull => by
    rintro s rfl
    exact extend_of_pull_le hpull left
  | .binary hrule hpower hright hextends => by
    intro s hs
    obtain ⟨token, s₁, htoken, hs₁, heq⟩ :=
      extend_of_infixRule? hs hrule hpower left
    obtain ⟨s₂, hexpr, hs₂⟩ := hright.exists_run _ hs₁
    obtain ⟨s₃, hextend, hs₃⟩ := hextends.exists_run _ hs₂
    refine ⟨s₃, ?_, hs₃⟩
    subst htoken
    rw [heq]
    exact bind_eq_ok_iff.mpr
      ⟨_, s₂, bind_eq_ok_iff.mpr ⟨_, s₂, hexpr, rfl⟩, hextend⟩
  | .conditional hrule hpower htrue hfalse hextends => by
    intro s hs
    obtain ⟨token, s₁, htoken, hs₁, heq⟩ :=
      extend_of_infixRule? hs hrule hpower left
    obtain ⟨s₂, hexpr, hs₂⟩ := htrue.exists_run _ hs₁
    obtain ⟨between, s₃, hexpect, hs₃⟩ := expect_self hs₂
    obtain ⟨s₄, hexpr', hs₄⟩ := hfalse.exists_run _ hs₃
    obtain ⟨s₅, hextend, hs₅⟩ := hextends.exists_run _ hs₄
    refine ⟨s₅, ?_, hs₅⟩
    subst htoken
    rw [heq]
    refine bind_eq_ok_iff.mpr
      ⟨_, s₄, bind_eq_ok_iff.mpr ⟨_, s₂, hexpr, ?_⟩, hextend⟩
    refine bind_eq_ok_iff.mpr ⟨between, s₃, hexpect, ?_⟩
    exact bind_eq_ok_iff.mpr ⟨_, s₄, hexpr', rfl⟩
  | .call hrule hpower harguments hextends => by
    intro s hs
    obtain ⟨token, s₁, htoken, hs₁, heq⟩ :=
      extend_of_infixRule? hs hrule hpower left
    obtain ⟨s₂, hlist, hs₂⟩ := harguments.exists_run _ hs₁
    obtain ⟨closing, s₃, hexpect, hs₃⟩ := expect_self hs₂
    obtain ⟨s₄, hextend, hs₄⟩ := hextends.exists_run _ hs₃
    refine ⟨s₄, ?_, hs₄⟩
    subst htoken
    rw [heq, InfixRule.parse_call]
    refine bind_eq_ok_iff.mpr
      ⟨_, s₃, bind_eq_ok_iff.mpr ⟨_, s₂, hlist, ?_⟩, hextend⟩
    exact bind_eq_ok_iff.mpr ⟨closing, s₃, hexpect, rfl⟩

theorem ReadsArguments.exists_run {g : Grammar} {separator close : String}
    {input rest : List String} {arguments : List Expr} :
    ReadsArguments g separator close input arguments rest →
      ∀ s : Scanner, s.texts = input →
      ∃ s', argumentList g separator close s = .ok arguments s' ∧ s'.texts = rest
  | .closed hclose => by
    rintro s rfl
    exact argumentList_of_head?_eq hclose g separator
  | .last hclose hfirst hseparator => by
    intro s hs
    obtain ⟨s₁, hs₁, heq⟩ :=
      argumentList_of_head?_ne (s := s) (by rwa [hs]) g separator
    obtain ⟨s₂, hexpr, hs₂⟩ := hfirst.exists_run s₁ (hs₁.trans hs)
    obtain ⟨s₃, hcurrent, hs₃⟩ := current_eq s₂
    refine ⟨s₃, ?_, hs₃.trans hs₂⟩
    rw [heq, bind_apply, hexpr]
    simp only [bind_apply, hcurrent, hs₂, hseparator, if_false, pure_apply]
  | .more hclose hfirst hothers => by
    intro s hs
    obtain ⟨s₁, hs₁, heq⟩ :=
      argumentList_of_head?_ne (s := s) (by rwa [hs]) g separator
    obtain ⟨s₂, hexpr, hs₂⟩ := hfirst.exists_run s₁ (hs₁.trans hs)
    obtain ⟨s₃, hcurrent, hs₃⟩ := current_eq s₂
    obtain ⟨between, s₄, hadvance, -, hs₄⟩ :=
      advance_of_texts_eq_cons (hs₃.trans hs₂)
    obtain ⟨s₅, hlist, hs₅⟩ := hothers.exists_run _ hs₄
    refine ⟨s₅, ?_, hs₅⟩
    rw [heq, bind_apply, hexpr]
    simp only [bind_apply, hcurrent, hs₂, List.head?_cons, if_true, hadvance,
      hlist, pure_apply]

end

namespace Parser

/-! ## Whole sources -/

/-- A parser returns a tree as a whole if it can be read and nothing is left. -/
theorem whole_eq_ok_iff {g : Grammar} {s : Scanner} {tree : Expr} :
    (∃ s', whole g s = .ok tree s') ↔ Reads g .lowest s.texts tree [] := by
  constructor
  · rintro ⟨s', hrun⟩
    obtain ⟨found, s₁, hexpr, hrest⟩ := bind_eq_ok_iff.mp hrun
    have hreads := reads_of_expr hexpr
    obtain ⟨place, s₂, hplace, hrest⟩ := bind_eq_ok_iff.mp hrest
    injection hplace with _ hs₂
    subst hs₂
    cases htexts : s₁.texts with
    | nil =>
      obtain ⟨s₃, hadvance⟩ := advance_of_texts_eq_nil htexts
      rw [bind_apply, hadvance] at hrest
      obtain ⟨rfl, -⟩ := pure_eq_ok_iff.mp hrest
      rwa [htexts] at hreads
    | cons text texts =>
      obtain ⟨token, s₃, hadvance, -, -⟩ := advance_of_texts_eq_cons htexts
      rw [bind_apply, hadvance] at hrest
      simp only at hrest
      split at hrest
      · cases hrest
      · cases hrest
  · intro hreads
    obtain ⟨s₁, hexpr, hs₁⟩ := hreads.exists_run _ rfl
    obtain ⟨s₂, hadvance⟩ := advance_of_texts_eq_nil hs₁
    refine ⟨s₂,
      bind_eq_ok_iff.mpr ⟨tree, s₁, hexpr, bind_eq_ok_iff.mpr ⟨_, s₁, rfl, ?_⟩⟩⟩
    rw [bind_apply, hadvance]
    rfl

theorem outcome_eq_ok_iff {α : Type} {parser : Parser α} {s : Scanner}
    {result : α} :
    parser.outcome s = .ok result ↔ ∃ s', parser s = .ok result s' := by
  rw [outcome]
  cases parser s <;> simp

theorem outcome_eq_error_iff {α : Type} {parser : Parser α} {s : Scanner}
    {error : ParseError} :
    parser.outcome s = .error error ↔ ∃ s', parser s = .error error s' := by
  rw [outcome]
  cases parser s <;> simp

end Parser

/-- A source is parsed as a tree if the texts of its tokens can be read as the
tree and nothing is left. -/
theorem parseWith_eq_ok_iff {g : Grammar} {source : String}
    {file : Option String} {tree : Expr} :
    parseWith g source file = .ok tree ↔
      Reads g .lowest ((tokenize source file).map Token.text) tree [] := by
  rw [parseWith, Parser.outcome_eq_ok_iff, Parser.whole_eq_ok_iff,
    Scanner.texts, tokenize]

end Pratt
