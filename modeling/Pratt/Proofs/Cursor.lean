import Mathlib.Data.List.Forall2
import Pratt.Scanner.View

set_option autoImplicit false

/-!
# Scanners and cursors

A scanner answers as a plain cursor over the list of all tokens does, whatever
it is asked and in whatever order. A scanner may be copied at any time, and each
copy then goes its own way: a run is about several copies, and an action names
the one that it is for.

One answer is `Scanner.Follows.ask`, and whole runs follow for all machines that
are related as the two are (`Action.answers_of_forall₂`). The relation
`Scanner.Follows` speaks of the view of a scanner only, so neither the queue nor
how far the scanner has read ahead shows in an answer.
-/

namespace Pratt

/-! ## Asking and copying -/

/-- What a scanner can be asked for. -/
inductive Request where
  /-- The token some places ahead. -/
  | peek (n : Nat)
  /-- The next token, to be taken. -/
  | consume
  /-- The next token, to be taken by a loop over all of them. -/
  | next
  /-- The place of the next token. -/
  | position
  deriving DecidableEq, Repr, Inhabited

/-- What it answers. -/
inductive Answer where
  /-- A token, or that the source ends before. -/
  | token (found : Option Token)
  /-- A place. -/
  | place (position : Position)
  deriving DecidableEq, Repr, Inhabited

/-- What is done with one of several copies, which are numbered from 0 on. -/
inductive Action where
  /-- Asks the copy. -/
  | ask (copy : Nat) (request : Request)
  /-- Makes one more copy of the copy as it is. -/
  | clone (copy : Nat)
  deriving DecidableEq, Repr, Inhabited

namespace Action

/-- Whether an action only looks ahead. -/
def isPeek : Action → Bool
  | .ask _ (.peek _) => true
  | .ask _ _ | .clone _ => false

section

variable {σ : Type} (ask : σ → Request → Answer × σ)

/-- The answer to an action, if it asks a copy that there is. -/
def answer (copies : List σ) : Action → Option Answer
  | .ask copy request => copies[copy]?.map fun state => (ask state request).1
  | .clone _ => none

/-- The copies behind an action. A new copy comes last. -/
def perform (copies : List σ) : Action → List σ
  | .ask copy request =>
    match copies[copy]? with
    | some state => copies.set copy (ask state request).2
    | none => copies
  | .clone copy => copies ++ copies[copy]?.toList

/-- The answers to some actions, one after the other. -/
def answers : List σ → List Action → List (Option Answer)
  | _, [] => []
  | copies, action :: actions =>
    action.answer ask copies :: answers (action.perform ask copies) actions

/-- The copies behind some actions. -/
def performAll (copies : List σ) (actions : List Action) : List σ :=
  actions.foldl (perform ask) copies

end

/-! ## Simulation -/

section

variable {α β : Type}

/-- Whatever they are asked, related states give the same answer and stay
related. -/
def Simulates (R : α → β → Prop) (ask : α → Request → Answer × α)
    (ask' : β → Request → Answer × β) : Prop :=
  ∀ a b request, R a b →
    (ask a request).1 = (ask' b request).1 ∧
      R (ask a request).2 (ask' b request).2

variable {R : α → β → Prop} {as : List α} {bs : List β}

theorem getElem?_of_forall₂ (h : List.Forall₂ R as bs) (i : Nat) :
    as[i]? = none ∧ bs[i]? = none ∨
    ∃ a b, as[i]? = some a ∧ bs[i]? = some b ∧ R a b := by
  induction h generalizing i with
  | nil => exact .inl ⟨rfl, rfl⟩
  | cons hab _ ih =>
    cases i with
    | zero => exact .inr ⟨_, _, rfl, rfl, hab⟩
    | succ i => simpa only [List.getElem?_cons_succ] using ih i

theorem forall₂_set (h : List.Forall₂ R as bs) {a : α} {b : β} (hab : R a b)
    (i : Nat) :
    List.Forall₂ R (as.set i a) (bs.set i b) := by
  induction h generalizing i with
  | nil => exact .nil
  | cons hfirst hrest ih =>
    cases i with
    | zero => exact .cons hab hrest
    | succ i => exact .cons hfirst (ih i)

variable {ask : α → Request → Answer × α} {ask' : β → Request → Answer × β}

/-- Related copies give the same answer to an action and stay related. -/
theorem answer_perform_of_forall₂ (hstep : Simulates R ask ask')
    (h : List.Forall₂ R as bs) (action : Action) :
    action.answer ask as = action.answer ask' bs ∧
      List.Forall₂ R (action.perform ask as) (action.perform ask' bs) := by
  cases action with
  | ask copy request =>
    rcases getElem?_of_forall₂ h copy with ⟨ha, hb⟩ | ⟨a, b, ha, hb, hab⟩
    · simp only [answer, perform, ha, hb]
      exact ⟨rfl, h⟩
    · obtain ⟨hanswer, hafter⟩ := hstep a b request hab
      simp only [answer, perform, ha, hb, Option.map_some, hanswer]
      exact ⟨trivial, forall₂_set h hafter copy⟩
  | clone copy =>
    rcases getElem?_of_forall₂ h copy with ⟨ha, hb⟩ | ⟨a, b, ha, hb, hab⟩
    · simp only [answer, perform, ha, hb, Option.toList_none, List.append_nil]
      exact ⟨trivial, h⟩
    · simp only [answer, perform, ha, hb, Option.toList_some]
      exact ⟨trivial, List.rel_append h (.cons hab .nil)⟩

/-- Related copies stay related. -/
theorem performAll_of_forall₂ (hstep : Simulates R ask ask')
    (h : List.Forall₂ R as bs) (actions : List Action) :
    List.Forall₂ R (performAll ask as actions) (performAll ask' bs actions) := by
  induction actions generalizing as bs with
  | nil => exact h
  | cons action actions ih => exact ih (answer_perform_of_forall₂ hstep h action).2

/-- Related copies give the same answers. -/
theorem answers_of_forall₂ (hstep : Simulates R ask ask') (h : List.Forall₂ R as bs)
    (actions : List Action) : answers ask as actions = answers ask' bs actions := by
  induction actions generalizing as bs with
  | nil => rfl
  | cons action actions ih =>
    obtain ⟨hanswer, hafter⟩ := answer_perform_of_forall₂ hstep h action
    rw [answers, answers, hanswer, ih hafter]

end

end Action

/-! ## Scanners -/

namespace Scanner

/-- What a scanner answers, and the scanner behind that. -/
def ask (s : Scanner) : Request → Answer × Scanner
  | .peek n => (.token (s.peek n).1, (s.peek n).2)
  | .consume | .next => (.token s.consume.1, s.consume.2)
  | .position => (.place s.position, s)

/-- Tokens bear the name of the source that they are cut off. -/
theorem file_of_scan {s s' : Scanner} {token : Token}
    (h : s.scan = (some token, s')) :
    token.span.file = s.file := by
  cases hrest : s.skipBlanks.rest with
  | nil => simp [scan_of_rest_eq_nil hrest] at h
  | cons c rest =>
    rw [scan_of_rest_eq_cons hrest] at h
    rw [← Option.some.inj (congrArg Prod.fst h)]

theorem file_of_mem_toList {s : Scanner} (hqueue : s.queue = []) {token : Token}
    (h : token ∈ s.toList) :
    token.span.file = s.file := by
  induction hsize : s.size using Nat.strongRecOn generalizing s with
  | ind size ih =>
    have hconsume := consume_of_queue_eq_nil hqueue
    cases hscan : s.scan with
    | mk found s' =>
      rw [hscan] at hconsume
      have hfile : s'.file = s.file := by rw [← file_snd_scan s, hscan]
      cases found with
      | none => rw [toList_eq_nil_of_consume hconsume] at h; cases h
      | some first =>
        rw [toList_eq_cons_of_consume hconsume] at h
        rcases List.mem_cons.mp h with rfl | h
        · exact file_of_scan hscan
        · rw [← hfile]
          exact ih _ (hsize ▸ size_lt_of_consume hconsume)
            (by rw [queue_of_scan hscan, hqueue]) h rfl

end Scanner

/-! ## Cursors -/

/-- A place in the list of all tokens of a source, told by the number of tokens
in front of it. The length of the source is counted in bytes. -/
structure Cursor where
  tokens : List Token
  index : Nat
  length : Nat
  file : String
  deriving DecidableEq, Repr, Inhabited

namespace Cursor

/-- A cursor in front of all tokens of a source. -/
def ofSource (source : String) (file : Option String := none) : Cursor :=
  ⟨tokenize source file, 0, source.utf8ByteSize, file.getD defaultFile⟩

/-- The token at the cursor, if one is left. -/
def current (c : Cursor) : Option Token := c.tokens[c.index]?

/-- The cursor behind the token that it is at. Where none is left, it does not
move. -/
def advance (c : Cursor) : Cursor :=
  if c.index < c.tokens.length then { c with index := c.index + 1 } else c

/-- The place where the token at the cursor starts, or the end of the source. -/
def position (c : Cursor) : Position :=
  match c.current with
  | some token => ⟨token.span.start, c.file⟩
  | none => ⟨c.length, c.file⟩

/-- What a cursor answers, and the cursor behind that. Only taking a token moves
it. -/
def ask (c : Cursor) : Request → Answer × Cursor
  | .peek n => (.token c.tokens[c.index + n]?, c)
  | .consume | .next => (.token c.current, c.advance)
  | .position => (.place c.position, c)

/-- Looking ahead moves no cursor. -/
theorem perform_of_isPeek {action : Action} (h : action.isPeek = true)
    (copies : List Cursor) : action.perform ask copies = copies := by
  cases action with
  | clone copy => cases h
  | ask copy request =>
    cases request with
    | consume | next | position => cases h
    | peek n =>
      rw [Action.perform]
      split
      · next c hcopy =>
        obtain ⟨hlt, hget⟩ := List.getElem?_eq_some_iff.mp hcopy
        unfold ask
        rw [← hget, List.set_getElem_self]
      · rfl

theorem performAll_filter_not_isPeek (copies : List Cursor)
    (actions : List Action) :
    Action.performAll ask copies (actions.filter fun action => !action.isPeek) =
      Action.performAll ask copies actions := by
  induction actions generalizing copies with
  | nil => rfl
  | cons action actions ih =>
    cases h : action.isPeek with
    | true =>
      rw [List.filter_cons_of_neg (by simp [h]), ih]
      exact congrArg (fun copies => Action.performAll ask copies actions)
        (perform_of_isPeek h copies).symm
    | false =>
      rw [List.filter_cons_of_pos (by simp [h])]
      exact ih _

end Cursor

/-! ## Scanners follow cursors -/

namespace Scanner

/-- The scanner stands where the cursor does: the tokens left are those
behind the cursor. -/
structure Follows (s : Scanner) (c : Cursor) : Prop where
  toList : s.toList = c.tokens.drop c.index
  stop : s.stop = c.length
  file : s.file = c.file
  /-- All tokens bear the name of the source. -/
  files : ∀ token ∈ c.tokens, token.span.file = c.file

theorem follows_ofSource (source : String) (file : Option String) :
    Follows (.ofSource source file) (.ofSource source file) where
  toList := rfl
  stop := by rw [stop_ofSource, width_toList]; rfl
  file := rfl
  files := fun _ hmem => file_of_mem_toList (s := ofSource source file) rfl hmem

namespace Follows

variable {s : Scanner} {c : Cursor}

theorem peek (h : Follows s c) (n : Nat) :
    (s.peek n).1 = c.tokens[c.index + n]? ∧ Follows (s.peek n).2 c := by
  refine ⟨by rw [fst_peek, h.toList, List.getElem?_drop], ?_, ?_, ?_, h.files⟩
  · rw [toList_snd_peek, h.toList]
  · rw [stop_snd_peek, h.stop]
  · rw [file_snd_peek, h.file]

theorem head?_toList (h : Follows s c) : s.toList.head? = c.current := by
  rw [h.toList, List.head?_drop, Cursor.current]

theorem fst_consume (h : Follows s c) : s.consume.1 = c.current := by
  rw [Scanner.fst_consume, h.head?_toList]

/-- Taking a token moves both. Where none is left, the scanner may skip blanks
but gives no more than before. -/
theorem consume (h : Follows s c) : Follows s.consume.2 c.advance := by
  have htail : s.consume.2.toList = c.tokens.drop (c.index + 1) := by
    rw [toList_snd_consume, h.toList, List.tail_drop]
  have hstop : s.consume.2.stop = c.length := by rw [stop_snd_consume, h.stop]
  have hfile : s.consume.2.file = c.file := by rw [file_snd_consume, h.file]
  unfold Cursor.advance
  split
  · exact ⟨htail, hstop, hfile, h.files⟩
  · next hlt =>
    have hle : c.tokens.length ≤ c.index := Nat.le_of_not_lt hlt
    refine ⟨?_, hstop, hfile, h.files⟩
    rw [htail, List.drop_of_length_le hle,
      List.drop_of_length_le (Nat.le_succ_of_le hle)]

theorem position (h : Follows s c) : s.position = c.position := by
  have hhead := h.head?_toList
  unfold Cursor.position
  split
  · next token hsome =>
    rw [hsome] at hhead
    obtain ⟨rest, hrest⟩ := List.head?_eq_some_iff.mp hhead
    rw [position_of_toList_eq_cons hrest,
      ← h.files token (List.mem_of_getElem? hsome)]
    rfl
  · next hnone =>
    rw [hnone] at hhead
    rw [position_of_toList_eq_nil (List.head?_eq_none_iff.mp hhead), h.stop, h.file]

/-- A scanner that follows a cursor answers as the cursor does and
follows it further. -/
theorem ask (h : Follows s c) (request : Request) :
    (s.ask request).1 = (c.ask request).1 ∧
    Follows (s.ask request).2 (c.ask request).2 := by
  cases request with
  | peek n =>
    obtain ⟨hfound, hafter⟩ := h.peek n
    exact ⟨congrArg Answer.token hfound, hafter⟩
  | consume => exact ⟨congrArg Answer.token h.fst_consume, h.consume⟩
  | next => exact ⟨congrArg Answer.token h.fst_consume, h.consume⟩
  | position => exact ⟨congrArg Answer.place h.position, h⟩

end Follows

end Scanner

/-- Whatever a scanner and its copies are asked, in whatever order, they answer
as cursors over all tokens of the source do. What they looked ahead for before
changes no later answer. -/
theorem answers_scanner (source : String) (file : Option String) :
    (∀ actions, Action.answers Scanner.ask [.ofSource source file] actions =
      Action.answers Cursor.ask [.ofSource source file] actions) ∧
    ∀ earlier later,
      Action.answers Scanner.ask
          (Action.performAll Scanner.ask [.ofSource source file] earlier) later =
        Action.answers Scanner.ask
          (Action.performAll Scanner.ask [.ofSource source file]
            (earlier.filter fun action => !action.isPeek)) later := by
  have hstep : Action.Simulates Scanner.Follows Scanner.ask Cursor.ask :=
    fun _ _ request h => h.ask request
  have hstart : List.Forall₂ Scanner.Follows
      [.ofSource source file] [.ofSource source file] :=
    .cons (Scanner.follows_ofSource source file) .nil
  refine ⟨Action.answers_of_forall₂ hstep hstart, ?_⟩
  intro earlier later
  have hpeeked := Action.performAll_of_forall₂ hstep hstart earlier
  have hplain :=
    Action.performAll_of_forall₂ hstep hstart
      (earlier.filter fun action => !action.isPeek)
  rw [Action.answers_of_forall₂ hstep hpeeked,
    Action.answers_of_forall₂ hstep hplain, Cursor.performAll_filter_not_isPeek]

example : Action.answers Scanner.ask [.ofSource "a  b "]
    [.ask 0 (.peek 2), .clone 0, .ask 1 .consume, .ask 1 .consume,
      .ask 1 .position, .ask 0 .position] =
    [some (.token none), none, some (.token (some ⟨"a", ⟨"shell", 0, 1⟩⟩)),
      some (.token (some ⟨"b", ⟨"shell", 3, 4⟩⟩)), some (.place ⟨5, "shell"⟩),
      some (.place ⟨0, "shell"⟩)] := by
  decide

end Pratt
