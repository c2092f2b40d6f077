import Pratt.Proofs.Placement

set_option autoImplicit false

/-!
# What is left over

A token is left over if a whole expression was read in front of it. An
expression is read in the same way in front of anything that pulls no harder
than what follows it, so also in front of the end of the input
(`Reads.exists_front`). It ends in front of a token exactly if it is all that
stands there and the token does not continue it (`reads_append_iff`).

A text that is cut in front of a token keeps the tokens in front of that one
(`exists_tokenize_eq_take`). So the token that is left over is told by parsing
what stands in front of it (`exists_leftover_iff`).
-/

namespace Pratt

/-! ## Readings in front of other tokens -/

namespace Grammar

variable {g : Grammar}

/-- A token does not pull if it has no rule of positive power behind an
expression. -/
theorem infixPower_le_zero_iff {token : String} :
    g.infixPower token ≤ 0 ↔
    ∀ rule, g.infixRule? token = some rule → ¬ 0 < rule.power := by
  constructor
  · intro h rule hrule
    rw [infixPower_of_infixRule? hrule] at h
    exact Nat.not_lt.mpr h
  · intro h
    cases hrule : g.infixRule? token with
    | none => exact Nat.le_of_eq (infixPower_of_infixRule?_eq_none hrule)
    | some rule =>
      rw [infixPower_of_infixRule? hrule]
      exact Nat.not_lt.mp (h rule hrule)

theorem pull_of_head?_eq_some {rest : List String} {token : String}
    (h : rest.head? = some token) :
    g.pull rest = g.infixPower token := by
  obtain ⟨later, rfl⟩ := List.head?_eq_some_iff.mp h
  exact g.pull_cons token later

theorem pull_eq_of_head?_eq {rest rest' : List String}
    (h : rest'.head? = rest.head?) :
    g.pull rest' = g.pull rest := by
  cases rest with
  | nil => rw [List.head?_eq_none_iff.mp h]
  | cons token rest => rw [pull_of_head?_eq_some h, pull_cons]

theorem pull_append_le {rest rest' : List String} (front : List String)
    (h : g.pull rest' ≤ g.pull rest) :
    g.pull (front ++ rest') ≤ g.pull (front ++ rest) := by
  cases front with
  | nil => exact h
  | cons token front => exact Nat.le_refl _

end Grammar

open Runs (head?_append_of_head?_eq)
open Grammar (pull_append_le pull_eq_of_head?_eq)

-- An inner expression is followed by more of the reading, whose first token
-- stays the same. Where nothing more is read, it is followed by what is
-- changed, and only then does the bound on the pull matter.
mutual

/-- An expression is read in the same way in front of anything that does not
pull harder. -/
theorem Reads.exists_front {g : Grammar} {power : Power}
    {input rest : List String} {tree : Expr} :
    Reads g power input tree rest →
    ∃ front,
      input = front ++ rest ∧
      ∀ rest', g.pull rest' ≤ g.pull rest →
        Reads g power (front ++ rest') tree rest'
  | .value hrule hextends => by
    obtain ⟨front, rfl, hfront⟩ := hextends.exists_front
    exact ⟨_ :: front, rfl, fun rest' hpull => .value hrule (hfront rest' hpull)⟩
  | .unary hrule hoperand hextends => by
    obtain ⟨first, rfl, hfirst⟩ := hoperand.exists_front
    obtain ⟨second, rfl, hsecond⟩ := hextends.exists_front
    have hreads rest' (hpull : g.pull rest' ≤ g.pull rest) :=
      Reads.unary hrule (hfirst _ (pull_append_le second hpull))
        (hsecond rest' hpull)
    simp only [← List.append_assoc, ← List.cons_append] at hreads
    exact ⟨_, by simp, hreads⟩
  | .group hrule hinner hextends => by
    obtain ⟨first, rfl, hfirst⟩ := hinner.exists_front
    obtain ⟨second, rfl, hsecond⟩ := hextends.exists_front
    have hreads rest' (hpull : g.pull rest' ≤ g.pull rest) :=
      Reads.group hrule (hfirst (_ :: (second ++ rest')) (Nat.le_refl _))
        (hsecond rest' hpull)
    simp only [← List.append_assoc, ← List.cons_append] at hreads
    exact ⟨_, by simp, hreads⟩

theorem Extends.exists_front {g : Grammar} {power : Power} {left tree : Expr}
    {input rest : List String} :
    Extends g power left input tree rest →
    ∃ front,
      input = front ++ rest ∧
      ∀ rest', g.pull rest' ≤ g.pull rest →
        Extends g power left (front ++ rest') tree rest'
  | .stop hstop => ⟨[], rfl, fun rest' hpull => .stop (Nat.le_trans hpull hstop)⟩
  | .binary hrule hpower hright hextends => by
    obtain ⟨first, rfl, hfirst⟩ := hright.exists_front
    obtain ⟨second, rfl, hsecond⟩ := hextends.exists_front
    have hreads rest' (hpull : g.pull rest' ≤ g.pull rest) :=
      Extends.binary hrule hpower (hfirst _ (pull_append_le second hpull))
        (hsecond rest' hpull)
    simp only [← List.append_assoc, ← List.cons_append] at hreads
    exact ⟨_, by simp, hreads⟩
  | .conditional hrule hpower htrue hfalse hextends => by
    obtain ⟨first, rfl, hfirst⟩ := htrue.exists_front
    obtain ⟨second, rfl, hsecond⟩ := hfalse.exists_front
    obtain ⟨third, rfl, hthird⟩ := hextends.exists_front
    have hreads rest' (hpull : g.pull rest' ≤ g.pull rest) :=
      Extends.conditional hrule hpower
        (hfirst (_ :: (second ++ (third ++ rest'))) (Nat.le_refl _))
        (hsecond _ (pull_append_le third hpull)) (hthird rest' hpull)
    simp only [← List.append_assoc, ← List.cons_append] at hreads
    exact ⟨_, by simp, hreads⟩
  | .call hrule hpower harguments hextends => by
    obtain ⟨first, rfl, hfirst⟩ := harguments.exists_front
    obtain ⟨second, rfl, hsecond⟩ := hextends.exists_front
    have hreads rest' (hpull : g.pull rest' ≤ g.pull rest) :=
      Extends.call hrule hpower (hfirst (_ :: (second ++ rest')) rfl)
        (hsecond rest' hpull)
    simp only [← List.append_assoc, ← List.cons_append] at hreads
    exact ⟨_, by simp, hreads⟩

/-- Arguments are read in the same way in front of the same token. -/
theorem ReadsArguments.exists_front {g : Grammar} {separator close : String}
    {input rest : List String} {arguments : List Expr} :
    ReadsArguments g separator close input arguments rest →
    ∃ front,
      input = front ++ rest ∧
      ∀ rest' : List String, rest'.head? = rest.head? →
        ReadsArguments g separator close (front ++ rest') arguments rest'
  | .closed hclose => ⟨[], rfl, fun rest' hhead => .closed (hhead.trans hclose)⟩
  | .last hclose hfirst hseparator => by
    obtain ⟨front, rfl, hfront⟩ := hfirst.exists_front
    refine ⟨front, rfl, fun rest' hhead => .last ?_ ?_ (hhead ▸ hseparator)⟩
    · rwa [head?_append_of_head?_eq front hhead]
    · exact hfront rest' (Nat.le_of_eq (pull_eq_of_head?_eq hhead))
  | .more hclose hargument hothers => by
    obtain ⟨first, rfl, hfirst⟩ := hargument.exists_front
    obtain ⟨second, rfl, hsecond⟩ := hothers.exists_front
    refine ⟨first ++ separator :: second, by simp, fun rest' hhead => ?_⟩
    rw [List.append_assoc]
    have hsame : (first ++ separator :: (second ++ rest')).head? =
        (first ++ separator :: (second ++ rest)).head? :=
      head?_append_of_head?_eq first rfl
    exact .more (hsame.trans_ne hclose) (hfirst _ (Nat.le_refl _))
      (hsecond rest' hhead)

end

/-- An expression ends in front of some tokens exactly if it is all of what
stands in front of them, and they do not continue it. -/
theorem reads_append_iff {g : Grammar} {front rest : List String} {tree : Expr} :
    Reads g .lowest (front ++ rest) tree rest ↔
    Reads g .lowest front tree [] ∧ g.pull rest ≤ 0 := by
  constructor
  · intro h
    obtain ⟨front', heq, hfront⟩ := h.exists_front
    obtain rfl : front = front' := List.append_cancel_right heq
    have hreads := hfront [] (Nat.zero_le _)
    rw [List.append_nil] at hreads
    exact ⟨hreads, h.pull_le⟩
  · rintro ⟨h, hpull⟩
    obtain ⟨front', heq, hfront⟩ := h.exists_front
    rw [List.append_nil] at heq
    subst heq
    exact hfront rest hpull

/-! ## Leftover tokens -/

/-- An expression is demanded and found where one is read. -/
theorem runs_operand_iff {g : Grammar} {source : String} {file : Option String}
    {power : Power} {rest : List String} :
    Runs g [.operand power] ((tokenize source file).map Token.text) .met rest ↔
      ∃ tree, Reads g power ((tokenize source file).map Token.text) tree rest := by
  have hfollows := Scanner.follows_ofSource source file
  have hperforms := Parser.performs_expr g power (Cursor.ofSource source file)
  cases hrun : Parser.expr g power (Scanner.ofSource source file) with
  | ok tree s =>
    obtain ⟨n, -, hruns, hs⟩ := hperforms.ok hfollows hrun
    have hreads := Parser.reads_of_expr hrun
    have htexts : s.texts = ((tokenize source file).map Token.text).drop n := by
      rw [Scanner.texts, hs.toList, Cursor.tokens_drop_skip, List.map_drop]
      rfl
    constructor
    · intro h
      obtain ⟨-, rfl⟩ := hruns.unique h
      exact ⟨tree, htexts ▸ hreads⟩
    · rintro ⟨tree', hreads'⟩
      obtain ⟨s', heq, rfl⟩ := hreads'.exists_run _ rfl
      obtain ⟨-, rfl⟩ := EStateM.Result.ok.inj (hrun.symm.trans heq)
      exact htexts ▸ hruns
  | error error s =>
    obtain ⟨n, -, hruns, -⟩ := hperforms.error hfollows hrun
    constructor
    · intro h
      cases (hruns.unique h).1
    · rintro ⟨tree, hreads⟩
      obtain ⟨s', heq, -⟩ := hreads.exists_run _ rfl
      cases hrun.symm.trans heq

theorem runs_ending_refused_iff {g : Grammar} {input rest : List String}
    {fault : Fault} :
    Runs g [.ending] input (.refused fault) rest ↔
      input = rest ∧ ∃ word, rest.head? = some word ∧ fault = g.leftover word := by
  constructor
  · intro h
    cases h with
    | refuse hmove =>
      rcases Demand.cases_of_move_eq_refuse hmove
        with ⟨_, heq, -⟩ | ⟨_, heq, -⟩ | ⟨word, -, hhead, hfault⟩
      · cases heq
      · cases heq
      · exact ⟨rfl, word, hhead, hfault⟩
    | take hmove _ => cases hmove
    | settle hmove hrest =>
      cases hhead : input.head? with
      | none =>
        rw [hhead] at hmove
        obtain rfl := Move.settle.inj hmove
        cases hrest
      | some word =>
        rw [hhead] at hmove
        cases hmove
  · rintro ⟨rfl, word, hhead, rfl⟩
    refine .refuse ?_
    rw [hhead]
    rfl

/-- A token is left over exactly if an expression was found in front of it. -/
theorem runs_whole_leftover_iff {g : Grammar} {input rest : List String}
    {fault : Fault} :
    Runs g Demand.whole input (.refused fault) rest ∧ fault.IsLeftover ↔
      Runs g [.operand .lowest] input .met rest ∧
      ∃ word, rest.head? = some word ∧ fault = g.leftover word := by
  have hwhole : Demand.whole = [.operand .lowest] ++ [.ending] := rfl
  rw [hwhole]
  constructor
  · rintro ⟨h, hleftover⟩
    rcases h.split with ⟨middle, hmet, hending⟩ | ⟨hrefused, -⟩
    · obtain ⟨rfl, hword⟩ := runs_ending_refused_iff.mp hending
      exact ⟨hmet, hword⟩
    · exact absurd hleftover (hrefused.not_isLeftover rfl (by simp))
  · rintro ⟨hmet, word, hhead, rfl⟩
    exact ⟨hmet.append (runs_ending_refused_iff.mpr ⟨rfl, word, hhead, rfl⟩),
      g.isLeftover_leftover word⟩

/-! ## Texts that are cut -/

section

variable {front back part : List Char} {file : String} {start stop : Nat}
  {token : Token}

theorem IsSlice.append (h : IsSlice front start stop part) (back : List Char) :
    IsSlice (front ++ back) start stop part := by
  obtain ⟨before, behind, rfl, hstart, hstop⟩ := h
  exact ⟨before, behind ++ back, by simp, hstart, hstop⟩

/-- What stands in the front of a text stands there without the rest, too. -/
theorem IsSlice.of_append (h : IsSlice (front ++ back) start stop part)
    (hle : stop ≤ width front) :
    IsSlice front start stop part := by
  obtain ⟨before, behind, htext, hstart, hstop⟩ := h
  rw [← List.append_assoc] at htext
  rcases List.append_eq_append_iff.mp htext
    with ⟨tail, hpart, -⟩ | ⟨tail, hfront, -⟩
  · have hwidth := congrArg width hpart
    simp only [width_append] at hwidth
    obtain rfl : tail = [] := eq_nil_of_width_eq_zero (by omega)
    rw [List.append_nil] at hpart
    exact ⟨before, [], by rw [List.append_nil, hpart], hstart, hstop⟩
  · exact ⟨before, tail, by rw [hfront, List.append_assoc], hstart, hstop⟩

theorem IsGap.of_append (h : IsGap (front ++ back) start stop)
    (hle : stop ≤ width front) :
    IsGap front start stop := by
  obtain ⟨gap, hslice, hblank⟩ := h
  exact ⟨gap, hslice.of_append hle, hblank⟩

/-- A word that is whole in a text is whole in the front of it. -/
theorem IsWholeWord.of_append (h : IsWholeWord (front ++ back) start stop part) :
    IsWholeWord front start stop part where
  word := h.word
  before c offset hslice := h.before c offset (hslice.append back)
  behind c offset hslice := h.behind c offset (hslice.append back)

theorem IsNext.of_append (h : IsNext (front ++ back) file start token)
    (hle : token.span.stop ≤ width front) :
    IsNext front file start token where
  file := h.file
  lt := h.lt
  slice := h.slice.of_append hle
  gap := h.gap.of_append (Nat.le_trans (Nat.le_of_lt h.lt) hle)
  legal := h.legal.imp_right IsWholeWord.of_append

/-- A text that ends where a token started keeps the tokens in front of it. -/
theorem IsTokenization.of_append {tokens after : List Token}
    (h : IsTokenization (front ++ back) file start (tokens ++ token :: after))
    (hwidth : width front = token.span.start) :
    IsTokenization front file start tokens := by
  induction tokens generalizing start with
  | nil =>
    obtain ⟨hnext, -⟩ := isTokenization_cons_iff.mp h
    rw [isTokenization_nil_iff, hwidth]
    exact hnext.gap.of_append (Nat.le_of_eq hwidth.symm)
  | cons first tokens ih =>
    obtain ⟨hnext, hrest⟩ := isTokenization_cons_iff.mp h
    have hle : first.span.stop ≤ token.span.start := hrest.le_start token (by simp)
    exact isTokenization_cons_iff.mpr ⟨hnext.of_append (hwidth ▸ hle), ih hrest⟩

end

section

variable {g : Grammar} {source : String} {file : Option String} {i : Nat}
  {token : Token}

/-- The text in front of a token has the tokens in front of it. -/
theorem exists_tokenize_eq_take (htoken : (tokenize source file)[i]? = some token) :
    ∃ before : String, IsSlice source.toList 0 token.span.start before.toList ∧
      tokenize before file = (tokenize source file).take i := by
  have htokens := isTokenization_tokenize source file
  obtain ⟨-, front, back, htext, hstart, -⟩ :=
    htokens.slices token (List.mem_of_getElem? htoken)
  refine ⟨String.ofList front, ?_, ?_⟩
  · rw [String.toList_ofList, htext, ← hstart]
    exact ⟨[], token.text.toList ++ back, rfl, rfl, by simp⟩
  · have hsplit : tokenize source file =
        (tokenize source file).take i ++ token ::
          (tokenize source file).drop (i + 1) := by
      obtain ⟨hlt, rfl⟩ := List.getElem?_eq_some_iff.mp htoken
      rw [← List.drop_eq_getElem_cons hlt, List.take_append_drop]
    rw [htext, hsplit] at htokens
    have hfront := htokens.of_append hstart
    rw [← String.toList_ofList (l := front)] at hfront
    exact (Scanner.toList_eq_iff_isTokenization rfl
      (Scanner.within_ofSource (String.ofList front) file)).mpr hfront

/-! ## The tokens that are left over -/

theorem head?_drop_texts (htoken : (tokenize source file)[i]? = some token) :
    (((tokenize source file).map Token.text).drop i).head? = some token.text := by
  rw [List.head?_drop, List.getElem?_map, htoken, Option.map_some]

/-- A token is left over exactly if an expression is read in front of it. -/
theorem leftover_iff_reads (htoken : (tokenize source file)[i]? = some token)
    {error : ParseError} :
    parseWith g source file = .error error ∧ error.fault.IsLeftover ∧
        error.position.offset = token.span.start ↔
      error = ⟨g.leftover token.text, token.position⟩ ∧
        ∃ tree, Reads g .lowest ((tokenize source file).map Token.text) tree
          (((tokenize source file).map Token.text).drop i) := by
  constructor
  · rintro ⟨herror, hleftover, hplace⟩
    obtain ⟨n, hn, hruns, hposition⟩ := exists_runs_of_parseWith_eq_error herror
    obtain rfl : n = i :=
      eq_of_offset_position_skip hn htoken (by rw [← hposition, hplace])
    obtain ⟨hmet, word, hword, hfault⟩ :=
      runs_whole_leftover_iff.mp ⟨hruns, hleftover⟩
    obtain rfl : word = token.text :=
      Option.some.inj (hword.symm.trans (head?_drop_texts htoken))
    rw [position_skip_of_getElem? htoken] at hposition
    obtain ⟨fault, place⟩ := error
    obtain rfl : fault = g.leftover token.text := hfault
    obtain rfl : place = token.position := hposition
    exact ⟨rfl, runs_operand_iff.mp hmet⟩
  · rintro ⟨rfl, hreads⟩
    have hmet := runs_operand_iff.mpr hreads
    obtain ⟨hruns, hleftover⟩ :=
      runs_whole_leftover_iff.mpr ⟨hmet, token.text, head?_drop_texts htoken, rfl⟩
    refine ⟨parseWith_eq_error_iff.mpr ⟨i, ?_, hruns, ?_⟩, hleftover, rfl⟩
    · exact Nat.le_of_lt (List.getElem?_eq_some_iff.mp htoken).1
    · exact (position_skip_of_getElem? htoken).symm

/-- An expression is read in front of a token exactly if what stands there is
parsed on its own, and the token does not continue an expression. -/
theorem exists_reads_drop_iff {before : String}
    (htoken : (tokenize source file)[i]? = some token)
    (hbefore : tokenize before file = (tokenize source file).take i) :
    (∃ tree,
      Reads g .lowest ((tokenize source file).map Token.text) tree
        (((tokenize source file).map Token.text).drop i)) ↔
      (∃ tree, parseWith g before file = .ok tree) ∧
      ∀ rule, g.infixRule? token.text = some rule → ¬ 0 < rule.power := by
  rw [← Grammar.infixPower_le_zero_iff,
    ← Grammar.pull_of_head?_eq_some (head?_drop_texts htoken),
    ← exists_and_right]
  refine exists_congr fun tree => ?_
  rw [parseWith_eq_ok_iff, hbefore, List.map_take, ← reads_append_iff,
    List.take_append_drop]

/-- A token is left over exactly if the text in front of it is parsed on its own
and the token does not continue an expression. The error tells whether the token
closes some construct, and what its text is. -/
theorem exists_leftover_iff (htoken : (tokenize source file)[i]? = some token) :
    ∃ before : String,
      IsSlice source.toList 0 token.span.start before.toList ∧
      ((∃ error,
        parseWith g source file = .error error ∧
        error.fault.IsLeftover ∧
        error.position.offset = token.span.start) ↔
          (∃ tree, parseWith g before file = .ok tree) ∧
          ∀ rule, g.infixRule? token.text = some rule → ¬ 0 < rule.power) ∧
      ∀ error, parseWith g source file = .error error →
        error.fault.IsLeftover →
        error.position.offset = token.span.start →
        error =
          ⟨if g.isTerminator token.text then .trailingInput token.text
            else .unexpectedToken token.text, token.position⟩ := by
  obtain ⟨before, hslice, hbefore⟩ := exists_tokenize_eq_take htoken
  refine ⟨before, hslice, ?_, ?_⟩
  · rw [← exists_reads_drop_iff htoken hbefore]
    constructor
    · rintro ⟨error, h⟩
      exact ((leftover_iff_reads htoken).mp h).2
    · intro h
      exact ⟨_, (leftover_iff_reads htoken).mpr ⟨rfl, h⟩⟩
  · intro error herror hleftover hplace
    exact ((leftover_iff_reads htoken).mp ⟨herror, hleftover, hplace⟩).1

end

/-- A bracket closes nothing behind a sum, which is parsed on its own. -/
theorem exists_leftover_bracket :
    (tokenize "f(a) + b ) * c" none)[6]? = some ⟨")", ⟨"shell", 9, 10⟩⟩ ∧
    ∃ before : String,
      IsSlice "f(a) + b ) * c".toList 0 9 before.toList ∧
      ∃ tree, parseWith .arithmetic before none = .ok tree := by
  have htoken :
      (tokenize "f(a) + b ) * c" none)[6]? = some ⟨")", ⟨"shell", 9, 10⟩⟩ := by
    decide
  have herror :
      parseWith .arithmetic "f(a) + b ) * c" none =
        .error ⟨.trailingInput ")", ⟨9, "shell"⟩⟩ := by
    decide +kernel
  obtain ⟨before, hslice, hiff, -⟩ := exists_leftover_iff (g := .arithmetic) htoken
  exact ⟨htoken, before, hslice, (hiff.mp ⟨_, herror, trivial, rfl⟩).1⟩

end Pratt
