import Pratt.Proofs.Buffer
import Pratt.Proofs.Session

set_option autoImplicit false

/-!
# What a parser does on its way

A recorder reads tokens as a parser does and writes down what happens: that an
expression starts to be read, and what the scanner is asked for (`Event`).
Unlike the bounded parser it also tells when its bound runs out (`Halt`), in the
recursion or in one of the loops, so a record that ends with a tree or an error
is that of the unbounded recursion.

A parser is recorded if the recorder comes to the same result with the same
scanner (`Parser.RecordedBy`) and the record accounts for that: the requests
lead to this scanner and look at no token behind the next one, and no more
expressions were started than tokens were taken, or than were left and one where
the run failed (`Parser.Recounts`). Runs that follow each other have their
records put together (`RecordedBy.bind`), and each expression pays for its own
start with its first token.
-/

namespace Pratt

/-! ## Records -/

/-- Something that happens while tokens are read. -/
inductive Event where
  /-- An expression starts to be read at a power. -/
  | reads (power : Power)
  /-- The scanner is asked for something. -/
  | asks (request : Request)
  deriving DecidableEq, Repr, Inhabited

namespace Event

/-- What the scanner is asked for, if it is asked. -/
def request? : Event → Option Request
  | .reads _ => none
  | .asks request => some request

/-- What the scanner was asked for, first to last. -/
def requests (events : List Event) : List Request := events.filterMap request?

/-- Whether an expression is started. -/
def isReading : Event → Bool
  | .reads _ => true
  | .asks _ => false

/-- The number of expressions that were started. -/
def readings (events : List Event) : Nat := events.countP isReading

/-- What happens where an expression starts: its place is asked for and its
first token is taken. -/
def opening (power : Power) : List Event :=
  [.reads power, .asks .position, .asks .consume]

theorem requests_append (events others : List Event) :
    requests (events ++ others) = requests events ++ requests others :=
  List.filterMap_append

theorem readings_append (events others : List Event) :
    readings (events ++ others) = readings events + readings others :=
  List.countP_append

theorem readings_opening (power : Power) : readings (opening power) = 1 := rfl

end Event

/-- Why a recorder comes to no result. -/
inductive Halt where
  /-- Something else is in the source than was expected. -/
  | failed (error : ParseError)
  /-- The bound of the recursion ran out. -/
  | exhausted
  deriving DecidableEq, Repr, Inhabited

/-- A reader of tokens that records what happens. The record is kept as it
is after a failure. -/
abbrev Recorder := EStateM Halt (Scanner × List Event)

namespace Recorder

/-! ## Single tokens -/

variable {α β : Type}

/-- Writes an event down. -/
def record (event : Event) : Recorder Unit :=
  fun (s, events) => .ok () (s, events ++ [event])

/-- Does what a parser does that asks its scanner once. -/
def asking (request : Request) (parser : Parser α) :
    Recorder α := fun (s, events) =>
  match parser s with
  | .ok a s => .ok a (s, events ++ [.asks request])
  | .error error s => .error (.failed error) (s, events ++ [.asks request])

/-- The place of the next token, or of the end of the source. -/
def position : Recorder Position := asking .position Parser.position

/-- The text of the next token. -/
def current : Recorder (Option String) := asking (.peek 0) Parser.current

/-- Takes the next token. -/
def advance : Recorder (Option Token) := asking .consume Parser.advance

/-- Fails with a fault at a place. -/
def fail (fault : Fault) (position : Position) : Recorder α :=
  throw (.failed ⟨fault, position⟩)

/-- Takes the next token, which has to have the given text. -/
def expect (expected : String) : Recorder Token := do
  let place ← position
  match ← advance with
  | none => fail (.mismatchedDelimiter expected none) place
  | some token =>
    if token.text = expected then return token
    else fail (.mismatchedDelimiter expected (some token.text)) place

end Recorder

/-! ## Rules and expressions -/

/-- Reads what a token starts. -/
def PrefixRule.recorded (operand : Power → Recorder Expr) (token : Token) :
    PrefixRule → Recorder Expr
  | .value => return .value token.text
  | .unary power => return .unary token.text (← operand power)
  | .group close => do
    let inner ← operand .lowest
    let _ ← Recorder.expect close
    return inner

/-- Reads the arguments of a call, up to but without the token that closes it,
in fewer than `bound` turns. -/
def Recorder.arguments (operand : Power → Recorder Expr)
    (separator close : String) :
    Nat → Recorder (List Expr)
  | 0 => throw .exhausted
  | bound + 1 => do
    if (← current) = some close then return []
    let first ← operand .lowest
    if (← current) = some separator then
      let _ ← advance
      return first :: (← arguments operand separator close bound)
    else return [first]

/-- Reads what a token continues, `left` being what stands before it. -/
def InfixRule.recorded (operand : Power → Recorder Expr) (bound : Nat)
    (left : Expr) (token : Token) :
    InfixRule → Recorder Expr
  | .binary power associativity =>
    return .binary token.text left (← operand (associativity.rightPower power))
  | .conditional _ separator => do
    let whenTrue ← operand .lowest
    let _ ← Recorder.expect separator
    let whenFalse ← operand .lowest
    return .conditional left whenTrue whenFalse
  | .call _ separator close => do
    let arguments ← Recorder.arguments operand separator close bound
    let _ ← Recorder.expect close
    return .call left arguments

namespace Recorder

/-- Extends `left` by the tokens that bind tighter than `power`, in fewer
than `bound` turns. -/
def extend (g : Grammar) (operand : Power → Recorder Expr) (power : Power) :
    Nat → Expr → Recorder Expr
  | 0, _ => throw .exhausted
  | bound + 1, left => do
    match (← current).bind (g.continuation? power) with
    | none => return left
    | some rule =>
      match ← advance with
      | none => return left
      | some token =>
        extend g operand power bound (← rule.recorded operand bound left token)

/-- Reads an expression whose operators bind tighter than a power, nesting fewer
than `bound` others. -/
def expr (g : Grammar) : Nat → Power → Recorder Expr
  | 0, _ => throw .exhausted
  | bound + 1, power => do
    record (.reads power)
    let place ← position
    match ← advance with
    | none => fail .unexpectedEnd place
    | some token =>
      let left ← (g.prefixRule token.text).recorded (expr g bound) token
      extend g (expr g bound) power bound left

/-- Reads one expression, after which no token may be left. -/
def whole (g : Grammar) (bound : Nat) : Recorder Expr := do
  let tree ← expr g bound .lowest
  let place ← position
  match ← advance with
  | none => return tree
  | some token =>
    if g.isTerminator token.text then fail (.trailingInput token.text) place
    else fail (.unexpectedToken token.text) place

/-! ## Runs -/

variable {α β : Type}

/-- What a parser comes to, with a record of what happened. -/
def withRecord (events : List Event) :
    EStateM.Result ParseError Scanner α →
    EStateM.Result Halt (Scanner × List Event) α
  | .ok a s => .ok a (s, events)
  | .error error s => .error (.failed error) (s, events)

theorem bind_of_ok {recorder : Recorder α} {next : α → Recorder β}
    {state state' : Scanner × List Event} {a : α}
    (h : recorder state = .ok a state') :
    (recorder >>= next) state = next a state' := by
  simp only [bind, EStateM.bind, h]

theorem bind_of_error {recorder : Recorder α} {next : α → Recorder β}
    {state state' : Scanner × List Event} {halt : Halt}
    (h : recorder state = .error halt state') :
    (recorder >>= next) state = .error halt state' := by
  simp only [bind, EStateM.bind, h]

theorem record_apply (event : Event) (s : Scanner) (events : List Event) :
    record event (s, events) = .ok () (s, events ++ [event]) := rfl

theorem position_apply (s : Scanner) (events : List Event) :
    position (s, events) = .ok s.position (s, events ++ [.asks .position]) := rfl

theorem advance_apply (s : Scanner) (events : List Event) :
    advance (s, events) =
      .ok s.consume.1 (s.consume.2, events ++ [.asks .consume]) :=
  rfl

/-- An expression starts with its first token, if there is one. -/
theorem expr_succ_apply (g : Grammar) (bound : Nat) (power : Power)
    (s : Scanner) (events : List Event) :
    expr g (bound + 1) power (s, events) =
      (match s.consume.1 with
        | none => fail .unexpectedEnd s.position
        | some token =>
          (g.prefixRule token.text).recorded (expr g bound) token >>=
            extend g (expr g bound) power bound)
        (s.consume.2, events ++ Event.opening power) := by
  rw [expr, bind_of_ok (record_apply _ s events),
    bind_of_ok (position_apply s _), bind_of_ok (advance_apply s _)]
  simp only [List.append_assoc, List.cons_append, List.nil_append]
  cases s.consume.1 <;> rfl

end Recorder

/-! ## Parsers that are recorded -/

/-- The events lead from one scanner to the other, and no token behind the next
one is looked at on the way. -/
structure Scanner.MovedBy (s : Scanner) (events : List Event)
    (s' : Scanner) : Prop where
  scanner : s.afterAll (Event.requests events) = s'
  near : ∀ request ∈ Event.requests events, request.isNear = true

theorem Scanner.MovedBy.refl (s : Scanner) : s.MovedBy [] s := ⟨rfl, nofun⟩

theorem Scanner.MovedBy.append {s s' s'' : Scanner} {events others : List Event}
    (h : s.MovedBy events s') (hothers : s'.MovedBy others s'') :
    s.MovedBy (events ++ others) s'' where
  scanner := by
    rw [Event.requests_append, afterAll_append, h.scanner, hothers.scanner]
  near := by
    rw [Event.requests_append]
    exact fun request hmem =>
      (List.mem_append.mp hmem).elim (h.near request) (hothers.near request)

/-- One request moves a scanner to where it leaves it. -/
theorem Scanner.movedBy_asks {request : Request} (hnear : request.isNear = true)
    (s : Scanner) :
    s.MovedBy [.asks request] (s.ask request).2 where
  scanner := rfl
  near := List.forall_mem_singleton.mpr hnear

theorem Scanner.movedBy_opening (power : Power) {s s' : Scanner}
    {found : Option Token} (hconsume : s.consume = (found, s')) :
    s.MovedBy (Event.opening power) s' where
  scanner := congrArg Prod.snd hconsume
  near := List.all_eq_true.mp rfl

namespace Parser

variable {α β : Type}

/-- The events recount a run from a scanner to a result: they lead to the
scanner that is left, and the tokens that were taken pay for the expressions
that were started. The last one may have been started where no token was left. -/
inductive Recounts (s : Scanner) (events : List Event) :
    EStateM.Result ParseError Scanner α → Prop
  | ok {a : α} {s' : Scanner} (hmoved : s.MovedBy events s')
      (hpaid : Event.readings events + s'.remaining ≤ s.remaining) :
      Recounts s events (.ok a s')
  | error {error : ParseError} {s' : Scanner} (hmoved : s.MovedBy events s')
      (hpaid : Event.readings events ≤ s.remaining + 1) :
      Recounts s events (.error error s')

/-- What happens before a run is put in front of its record, if it is paid for. -/
theorem Recounts.append {s s' : Scanner} {events others : List Event}
    {result : EStateM.Result ParseError Scanner α}
    (h : Recounts s' others result) (hmoved : s.MovedBy events s')
    (hpaid : Event.readings events + s'.remaining ≤ s.remaining) :
    Recounts s (events ++ others) result := by
  cases h with
  | ok hmoved' hpaid' =>
    refine .ok (hmoved.append hmoved') ?_
    rw [Event.readings_append]
    omega
  | error hmoved' hpaid' =>
    refine .error (hmoved.append hmoved') ?_
    rw [Event.readings_append]
    omega

/-- From a scanner on, the recorder comes to what the parser comes to, and adds
a record of it to what it recorded earlier. -/
def RecordedBy (parser : Parser α) (recorder : Recorder α) (s : Scanner) : Prop :=
  ∃ events, Recounts s events (parser s) ∧
    ∀ earlier,
      recorder (s, earlier) = Recorder.withRecord (earlier ++ events) (parser s)

namespace RecordedBy

variable {parser : Parser α} {recorder : Recorder α} {s : Scanner}

theorem pure (a : α) (s : Scanner) : RecordedBy (pure a) (pure a) s := by
  refine ⟨[], .ok (.refl s) (Nat.le_of_eq (Nat.zero_add _)), fun earlier => ?_⟩
  rw [List.append_nil]
  rfl

theorem fail (fault : Fault) (place : Position) (s : Scanner) :
    RecordedBy (Parser.fail fault place : Parser α) (Recorder.fail fault place)
      s := by
  refine ⟨[], .error (.refl s) (Nat.zero_le _), fun earlier => ?_⟩
  rw [List.append_nil]
  rfl

/-- The records of two runs are put together. -/
theorem bind {next : α → Parser β} {after : α → Recorder β}
    (h : parser.RecordedBy recorder s)
    (hnext : ∀ a s', parser s = .ok a s' → (next a).RecordedBy (after a) s') :
    RecordedBy (parser >>= next) (recorder >>= after) s := by
  obtain ⟨events, hrecounts, hrecord⟩ := h
  unfold RecordedBy
  rw [bind_apply]
  cases hrun : parser s with
  | ok a s₁ =>
    rw [hrun] at hrecounts hrecord
    cases hrecounts with
    | ok hmoved hpaid =>
      obtain ⟨others, hrecounts', hrecord'⟩ := hnext a s₁ hrun
      refine ⟨events ++ others, hrecounts'.append hmoved hpaid, fun earlier => ?_⟩
      rw [Recorder.bind_of_ok (hrecord earlier), hrecord', List.append_assoc]
  | error error s₁ =>
    rw [hrun] at hrecounts hrecord
    cases hrecounts with
    | error hmoved hpaid =>
      exact ⟨events, .error hmoved hpaid,
        fun earlier => Recorder.bind_of_error (hrecord earlier)⟩

/-- A parser that asks its scanner once and never fails is recorded with its
request. -/
theorem asking {request : Request} (hnear : request.isNear = true)
    (h : ∃ a, parser s = .ok a (s.ask request).2)
    (hremaining : (s.ask request).2.remaining ≤ s.remaining) :
    parser.RecordedBy (Recorder.asking request parser) s := by
  obtain ⟨a, hrun⟩ := h
  have hpaid :
      Event.readings [.asks request] + (s.ask request).2.remaining ≤
        s.remaining :=
    Nat.le_trans (Nat.le_of_eq (Nat.zero_add _)) hremaining
  refine ⟨[.asks request], ?_, fun earlier => ?_⟩
  · rw [hrun]
    exact .ok (Scanner.movedBy_asks hnear s) hpaid
  · simp only [Recorder.asking, hrun, Recorder.withRecord]

theorem position (s : Scanner) : Parser.position.RecordedBy Recorder.position s :=
  asking rfl ⟨s.position, rfl⟩ (Nat.le_refl _)

theorem current (s : Scanner) : Parser.current.RecordedBy Recorder.current s :=
  asking rfl ⟨_, current_apply s⟩ (Nat.le_of_eq (Scanner.remaining_snd_peek 0 s))

theorem advance (s : Scanner) : Parser.advance.RecordedBy Recorder.advance s :=
  asking rfl ⟨_, advance_apply s⟩ (Scanner.remaining_snd_consume_le s)

theorem expect (expected : String) (s : Scanner) :
    (Parser.expect expected).RecordedBy (Recorder.expect expected) s := by
  refine (position s).bind fun place s₁ _ => (advance s₁).bind fun found s₂ _ => ?_
  cases found with
  | none => exact .fail _ _ s₂
  | some token =>
    simp only
    split
    · exact .pure token s₂
    · exact .fail _ _ s₂

/-- An expression that starts with a token is paid for by this token. -/
theorem reading {parser' : Parser α} {recorder' : Recorder α} {token : Token}
    {s' : Scanner} (power : Power) (hconsume : s.consume = (some token, s'))
    (h : parser'.RecordedBy recorder' s') (hparser : parser s = parser' s')
    (hrecorder : ∀ earlier,
      recorder (s, earlier) = recorder' (s', earlier ++ Event.opening power)) :
    parser.RecordedBy recorder s := by
  obtain ⟨events, hrecounts, hrecord⟩ := h
  have hremaining := Scanner.remaining_of_consume hconsume
  have hpaid :
      Event.readings (Event.opening power) + s'.remaining ≤ s.remaining := by
    rw [Event.readings_opening]
    omega
  unfold RecordedBy
  rw [hparser]
  refine ⟨_, hrecounts.append (Scanner.movedBy_opening power hconsume) hpaid,
    fun earlier => ?_⟩
  rw [hrecorder, hrecord, List.append_assoc]

/-- An expression that starts where no token is left fails there. -/
theorem reading_end {s' : Scanner} {error : ParseError} (power : Power)
    (hconsume : s.consume = (none, s')) (hparser : parser s = .error error s')
    (hrecorder : ∀ earlier,
      recorder (s, earlier) =
        .error (.failed error) (s', earlier ++ Event.opening power)) :
    parser.RecordedBy recorder s := by
  unfold RecordedBy
  rw [hparser]
  exact ⟨_,
    .error (Scanner.movedBy_opening power hconsume) (Nat.le_add_left 1 _),
    hrecorder⟩

/-- Where a parser is recorded, its record leads to the scanner that it leaves. -/
theorem exists_withRecord (h : parser.RecordedBy recorder s) :
    ∃ events,
      recorder (s, []) = Recorder.withRecord events (parser s) ∧
      s.MovedBy events (parser.after s) := by
  obtain ⟨events, hrecounts, hrecord⟩ := h
  refine ⟨events, hrecord [], ?_⟩
  unfold Parser.after
  generalize parser s = result at hrecounts
  cases hrecounts with
  | ok hmoved _ => exact hmoved
  | error hmoved _ => exact hmoved

end RecordedBy

/-! ## Expressions are recorded -/

/-- The recorder records expressions that are read where at most `size` tokens
are left. -/
def RecordedUpTo (g : Grammar) (size : Nat)
    (operand : Power → Recorder Expr) : Prop :=
  ∀ (power : Power) (s : Scanner),
    s.remaining ≤ size → (expr g power).RecordedBy (operand power) s

variable {g : Grammar} {size : Nat} {operand : Power → Recorder Expr} {s : Scanner}

theorem RecordedUpTo.prefixRule (h : RecordedUpTo g size operand)
    (hsize : s.remaining ≤ size) (rule : PrefixRule) (token : Token) :
    (rule.parse g token).RecordedBy (rule.recorded operand token) s := by
  cases rule with
  | value => exact .pure _ s
  | unary power => exact (h power s hsize).bind fun _ s₁ _ => .pure _ s₁
  | group close =>
    exact (h .lowest s hsize).bind fun _ s₁ _ =>
      (RecordedBy.expect close s₁).bind fun _ s₂ _ => .pure _ s₂

/-- The turns of the loop take tokens, so its bound does not run out either. -/
theorem RecordedUpTo.arguments (h : RecordedUpTo g size operand)
    (separator close : String) {bound : Nat} (hsize : s.remaining ≤ size)
    (hbound : s.remaining < bound) :
    (argumentList g separator close).RecordedBy
      (Recorder.arguments operand separator close bound) s := by
  induction bound generalizing s with
  | zero => omega
  | succ bound ih =>
    rw [argumentList_eq]
    refine (RecordedBy.current s).bind fun found s₁ h₁ => ?_
    have hs₁ := keeps_current _ _ _ h₁
    split
    · exact .pure _ s₁
    · refine (h .lowest s₁ (by omega)).bind fun first s₂ h₂ => ?_
      have hs₂ := consumes_expr g _ _ _ _ h₂
      refine (RecordedBy.current s₂).bind fun after s₃ h₃ => ?_
      have hs₃ := keeps_current _ _ _ h₃
      split
      · refine (RecordedBy.advance s₃).bind fun _ s₄ h₄ => ?_
        have hs₄ := keeps_advance _ _ _ h₄
        exact (ih (by omega) (by omega)).bind fun _ s₅ _ => .pure _ s₅
      · exact .pure _ s₃

theorem RecordedUpTo.infixRule (h : RecordedUpTo g size operand) {bound : Nat}
    (hsize : s.remaining ≤ size) (hbound : s.remaining < bound)
    (rule : InfixRule) (left : Expr) (token : Token) :
    (rule.parse g left token).RecordedBy
      (rule.recorded operand bound left token) s := by
  cases rule with
  | binary power associativity => exact (h _ s hsize).bind fun _ s₁ _ => .pure _ s₁
  | conditional power separator =>
    refine (h .lowest s hsize).bind fun whenTrue s₁ h₁ => ?_
    have hs₁ := consumes_expr g _ _ _ _ h₁
    refine (RecordedBy.expect separator s₁).bind fun _ s₂ h₂ => ?_
    have hs₂ := keeps_expect _ _ _ _ h₂
    exact (h .lowest s₂ (by omega)).bind fun _ s₃ _ => .pure _ s₃
  | call power separator close =>
    rw [InfixRule.parse_call]
    exact (h.arguments separator close hsize hbound).bind fun _ s₁ _ =>
      (RecordedBy.expect close s₁).bind fun _ s₂ _ => .pure _ s₂

theorem RecordedUpTo.extend (h : RecordedUpTo g size operand) (power : Power)
    (left : Expr) {bound : Nat} (hsize : s.remaining ≤ size)
    (hbound : s.remaining < bound) :
    (extend g power left).RecordedBy
      (Recorder.extend g operand power bound left) s := by
  induction bound generalizing s left with
  | zero => omega
  | succ bound ih =>
    rw [extend_eq]
    refine (RecordedBy.current s).bind fun found s₁ h₁ => ?_
    have hs₁ := keeps_current _ _ _ h₁
    cases found.bind (g.continuation? power) with
    | none => exact .pure left s₁
    | some rule =>
      refine (RecordedBy.advance s₁).bind fun found s₂ h₂ => ?_
      cases found with
      | none => exact .pure left s₂
      | some token =>
        have hs₂ := remaining_lt_of_advance h₂
        refine (h.infixRule (by omega) (by omega) rule left token).bind
          fun left s₃ h₃ => ?_
        have hs₃ :=
          rule.keeps_run (consumes_expr g) (Parser.bound s₂) _ token s₂ _ _ h₃
        exact ih left (by omega) (by omega)

/-- A bound above the number of tokens that are left does not run out, and the
expression is recorded. -/
theorem recordedBy_expr (g : Grammar) (power : Power) {bound : Nat}
    {s : Scanner} (hbound : s.remaining < bound) :
    (expr g power).RecordedBy (Recorder.expr g bound power) s := by
  induction bound generalizing power s with
  | zero => omega
  | succ bound ih =>
    cases hconsume : s.consume with
    | mk found s' =>
      have hadvance : advance s = .ok found s' := by rw [advance_apply, hconsume]
      cases found with
      | none =>
        have hparser : expr g power s = .error ⟨.unexpectedEnd, s.position⟩ s' := by
          rw [expr_eq, bind_apply, position]
          simp only
          rw [bind_apply, hadvance]
          rfl
        refine .reading_end power hconsume hparser fun earlier => ?_
        rw [Recorder.expr_succ_apply, hconsume]
        rfl
      | some token =>
        have hremaining := Scanner.remaining_of_consume hconsume
        have hoperand : RecordedUpTo g s'.remaining (Recorder.expr g bound) :=
          fun power t ht => ih power (by omega)
        have hrest :
            ((g.prefixRule token.text).parse g token >>=
              extend g power).RecordedBy
              ((g.prefixRule token.text).recorded (Recorder.expr g bound)
                token >>= Recorder.extend g (Recorder.expr g bound) power bound)
              s' := by
          refine (hoperand.prefixRule (Nat.le_refl _) _ token).bind
            fun left t hrun => ?_
          have ht := PrefixRule.keeps_run (consumes_expr g) token _ _ _ _ hrun
          exact hoperand.extend power left ht (by omega)
        refine .reading power hconsume hrest ?_ fun earlier => ?_
        · rw [expr_eq, bind_apply, position]
          simp only
          rw [bind_apply, hadvance]
        · rw [Recorder.expr_succ_apply, hconsume]

theorem recordedBy_whole (g : Grammar) {bound : Nat} {s : Scanner}
    (hbound : s.remaining < bound) :
    (whole g).RecordedBy (Recorder.whole g bound) s := by
  refine (recordedBy_expr g .lowest hbound).bind fun tree s₁ _ =>
    (RecordedBy.position s₁).bind fun place s₂ _ =>
    (RecordedBy.advance s₂).bind fun found s₃ _ => ?_
  cases found with
  | none => exact .pure tree s₃
  | some token =>
    simp only
    split
    · exact .fail _ _ s₃
    · exact .fail _ _ s₃

end Parser

end Pratt
