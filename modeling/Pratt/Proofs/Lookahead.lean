import Pratt.Proofs.Trace

set_option autoImplicit false

/-!
# How far ahead is looked

However a scanner is used, its queue holds the next tokens of its source, and
its offset is where these end (`Usage.IsSound`). This holds of each copy of a
scanner, and of the scanners of parsers: whatever is done with a parser, its
scanner is asked for some things (`Session.exists_requests`).

Only a parser that is asked to look further ahead does so. All that reads
expressions looks at no token behind the next one, and so keeps at most one
token in its queue, at its end and at each moment before (`Parser.BuffersOne`).
-/

namespace Pratt

/-! ## A scanner in use -/

/-- The scanner represents its source, of which some tokens were taken and
some more cut off. -/
structure Usage.IsSound (source : String) (file : Option String)
    (u : Usage) : Prop where
  /-- What was taken and what is left are the tokens of the source. -/
  left : u.taken ++ u.scanner.toList = tokenize source file
  /-- In the queue are the next tokens, with none left out between them. -/
  queue : u.scanner.queue <+: (tokenize source file).drop u.taken.length
  /-- What was cut off was taken or is in the queue. -/
  cut : u.cut = u.taken ++ u.scanner.queue
  /-- Tokens are cut off in order. -/
  ordered : u.cut <+: tokenize source file
  /-- No token is cut off twice. -/
  nodup : u.cut.Nodup
  offset_le : u.scanner.offset ≤ source.utf8ByteSize
  /-- The source is divided between two characters. -/
  boundary :
    IsSlice source.toList u.scanner.offset source.utf8ByteSize u.scanner.rest
  /-- The last token that was cut off ends at the offset, or in front of the
  white space that leads to it. -/
  stands : u.scanner.Stands source.toList (endOf u.cut)

theorem Usage.Accounts.isSound {source : String} {file : Option String}
    {u : Usage} (h : u.Accounts source file) :
    u.IsSound source file := by
  have hqueue : u.scanner.queue <+: u.scanner.toList := by
    have htake := Scanner.queue_enqueue 0 u.scanner
    rw [Nat.add_zero] at htake
    exact htake ▸ List.take_prefix u.scanner.queue.length u.scanner.toList
  have hcut : u.cut <+: tokenize source file := by
    rw [h.cut, ← h.left]
    exact (List.prefix_append_right_inj u.taken).mpr hqueue
  have hslice :
      IsSlice source.toList u.scanner.offset source.utf8ByteSize
        u.scanner.rest :=
    width_toList source ▸ h.stands.isSlice
  refine ⟨h.left, ?_, h.cut, hcut,
    hcut.sublist.nodup (nodup_tokenize source file), ?_, hslice, h.stands⟩
  · rw [← h.left, List.drop_left]
    exact hqueue
  · obtain ⟨front, back, -, -, hstop⟩ := hslice
    omega

/-! ## Parsers ask their scanners -/

/-- Whether the operation is one that looks at no token behind the next one. -/
def Operation.isNear : Operation → Bool
  | .peek n => n == 0
  | .current | .advance | .expect _ | .expr _ | .starts _ _
  | .continues _ _ _ => true

/-- A parser that is recorded asks for nothing behind the next token. -/
theorem Parser.RecordedBy.exists_near {α : Type} {parser : Parser α}
    {recorder : Recorder α} {s : Scanner} (h : parser.RecordedBy recorder s) :
    ∃ requests,
      parser.after s = s.afterAll requests ∧
      ∀ request ∈ requests, request.isNear = true := by
  obtain ⟨events, -, hmoved⟩ := h.exists_withRecord
  exact ⟨Event.requests events, hmoved.scanner.symm, hmoved.near⟩

theorem Parser.recordedUpTo_remaining (g : Grammar) (s : Scanner) :
    RecordedUpTo g s.remaining (Recorder.expr g (s.remaining + 1)) :=
  fun power _ ht => recordedBy_expr g power (Nat.lt_succ_of_le ht)

theorem PrefixRule.recordedBy_parse (g : Grammar) (rule : PrefixRule)
    (token : Token) (s : Scanner) :
    (rule.parse g token).RecordedBy
      (rule.recorded (Recorder.expr g (s.remaining + 1)) token) s :=
  (Parser.recordedUpTo_remaining g s).prefixRule (Nat.le_refl _) rule token

theorem InfixRule.recordedBy_parse (g : Grammar) (rule : InfixRule)
    (left : Expr) (token : Token) (s : Scanner) :
    (rule.parse g left token).RecordedBy
      (rule.recorded (Recorder.expr g (s.remaining + 1)) (s.remaining + 1) left
        token) s :=
  (Parser.recordedUpTo_remaining g s).infixRule (Nat.le_refl _)
    (Nat.lt_succ_self _) rule left token

/-- An operation that looks at no token behind the next one asks for none. -/
theorem Operation.exists_near (g : Grammar) {operation : Operation}
    (hnear : operation.isNear = true) (s : Scanner) :
    ∃ requests,
      operation.after g s = s.afterAll requests ∧
      ∀ request ∈ requests, request.isNear = true := by
  cases operation with
  | peek n => exact ⟨[.peek n], rfl, List.forall_mem_singleton.mpr hnear⟩
  | current => exact (Parser.RecordedBy.current s).exists_near
  | advance => exact (Parser.RecordedBy.advance s).exists_near
  | expect text => exact (Parser.RecordedBy.expect text s).exists_near
  | expr power =>
    exact (Parser.recordedBy_expr g power (Nat.lt_succ_self _)).exists_near
  | starts rule token => exact (rule.recordedBy_parse g token s).exists_near
  | continues rule left token =>
    exact (rule.recordedBy_parse g left token s).exists_near

/-- Whatever is done with a parser, its scanner is asked for some things. -/
theorem Operation.exists_requests (g : Grammar) (operation : Operation)
    (s : Scanner) :
    ∃ requests, operation.after g s = s.afterAll requests := by
  by_cases hnear : operation.isNear = true
  · obtain ⟨requests, heq, -⟩ := exists_near g hnear s
    exact ⟨requests, heq⟩
  · cases operation with
    | peek n => exact ⟨[.peek n], rfl⟩
    | _ => exact absurd rfl hnear

/-- The scanner of a session is one that was asked for some things. -/
theorem Session.exists_requests (g : Grammar) (u : Session) :
    ∃ requests, u.scanner g = (Usage.after u.source u.file requests).scanner := by
  suffices h : ∀ s : Scanner,
      ∃ requests, u.history.foldl (Operation.after g) s = s.afterAll requests by
    obtain ⟨requests, heq⟩ := h (.ofSource u.source u.file)
    exact ⟨requests, heq.trans (Usage.scanner_after u.source u.file requests).symm⟩
  induction u.history with
  | nil => exact fun s => ⟨[], rfl⟩
  | cons operation history ih =>
    intro s
    obtain ⟨requests, heq⟩ := operation.exists_requests g s
    obtain ⟨others, heq'⟩ := ih (operation.after g s)
    exact ⟨requests ++ others,
      by rw [List.foldl_cons, heq', heq, Scanner.afterAll_append]⟩

/-! ## One token is enough -/

/-- The recorder comes to what the parser comes to, its record leads to the
scanner that the parser leaves, and at no moment on the way there is more than
one token in the queue. -/
def Parser.BuffersOne {α : Type} (parser : Parser α) (recorder : Recorder α)
    (s : Scanner) : Prop :=
  ∃ events,
    recorder (s, []) = Recorder.withRecord events (parser s) ∧
    parser.after s = s.afterAll (Event.requests events) ∧
    ∀ requests, requests <+: Event.requests events →
      (s.afterAll requests).queue.length ≤ 1

theorem Parser.RecordedBy.buffersOne {α : Type} {parser : Parser α}
    {recorder : Recorder α} {s : Scanner} (h : parser.RecordedBy recorder s)
    (hqueue : s.queue.length ≤ 1) : parser.BuffersOne recorder s := by
  obtain ⟨events, hrecord, hmoved⟩ := h.exists_withRecord
  refine ⟨events, hrecord, hmoved.scanner.symm, fun requests hfront => ?_⟩
  exact Scanner.length_queue_afterAll_le
    (fun request hmem => hmoved.near request (hfront.subset hmem)) hqueue

/-- All that reads expressions keeps at most one token in the queue of a
scanner, where it succeeds and where it fails. This holds of what it leaves, and
of each moment on the way. -/
structure Scanner.IsReadNear (g : Grammar) (s : Scanner) : Prop where
  /-- Looking at the next token, taking it, and all of what follows. -/
  after : ∀ operation : Operation, operation.isNear = true →
    (operation.after g s).queue.length ≤ 1
  expect : ∀ text, (Parser.expect text).BuffersOne (Recorder.expect text) s
  expr : ∀ power,
    (Parser.expr g power).BuffersOne (Recorder.expr g (s.remaining + 1) power) s
  starts : ∀ (rule : PrefixRule) (token : Token),
    (rule.parse g token).BuffersOne
      (rule.recorded (Recorder.expr g (s.remaining + 1)) token) s
  continues : ∀ (rule : InfixRule) (left : Expr) (token : Token),
    (rule.parse g left token).BuffersOne
      (rule.recorded (Recorder.expr g (s.remaining + 1)) (s.remaining + 1) left
        token) s
  whole : (Parser.whole g).BuffersOne (Recorder.whole g (s.remaining + 1)) s

theorem Scanner.isReadNear {s : Scanner} (g : Grammar)
    (hqueue : s.queue.length ≤ 1) : s.IsReadNear g where
  after operation hnear := by
    obtain ⟨requests, heq, hrequests⟩ := operation.exists_near g hnear s
    rw [heq]
    exact length_queue_afterAll_le hrequests hqueue
  expect text := (Parser.RecordedBy.expect text s).buffersOne hqueue
  expr power :=
    (Parser.recordedBy_expr g power (Nat.lt_succ_self _)).buffersOne hqueue
  starts rule token := (rule.recordedBy_parse g token s).buffersOne hqueue
  continues rule left token :=
    (rule.recordedBy_parse g left token s).buffersOne hqueue
  whole := (Parser.recordedBy_whole g (Nat.lt_succ_self _)).buffersOne hqueue

/-- Whatever a scanner is asked, it represents its source, and so do its copies
and the scanners of parsers. Where there is at most one token in the queue, all
that reads expressions leaves it at that, whatever the grammar. -/
theorem scanner_represents_source (source : String) (file : Option String) :
    (∀ requests, (Usage.after source file requests).IsSound source file) ∧
    (∀ actions,
      ∀ copy ∈ Action.performAll Scanner.ask [.ofSource source file] actions,
        ∃ requests, copy = (Usage.after source file requests).scanner) ∧
    (∀ g history,
      ∃ requests,
        Session.scanner g ⟨source, file, history⟩ =
          (Usage.after source file requests).scanner) ∧
    ∀ (g : Grammar) (s : Scanner), s.queue.length ≤ 1 → s.IsReadNear g := by
  refine ⟨fun requests => (Usage.accounts_after source file requests).isSound,
    fun actions copy hmem => ?_,
    fun g history => Session.exists_requests g ⟨source, file, history⟩,
    fun g s => s.isReadNear g⟩
  obtain ⟨requests, heq⟩ := Scanner.exists_eq_afterAll_of_mem_performAll hmem
  exact ⟨requests, heq.trans (Usage.scanner_after source file requests).symm⟩

/-- One of two copies of a scanner has looked past the end of its source and
taken the bracket. -/
def openGroup : Usage := .after "(a  " none [.peek 7, .consume]

theorem scanner_represents_source_openGroup :
    (openGroup.scanner.offset = 4 ∧
      endOf openGroup.cut = 2 ∧
      openGroup.IsSound "(a  " none) ∧
    (∃ requests,
      openGroup.scanner = (Usage.after "(a  " none requests).scanner) ∧
    openGroup.scanner.queue.length ≤ 1 ∧
    openGroup.scanner.IsReadNear .arithmetic := by
  obtain ⟨hsound, hcopies, -, hnear⟩ := scanner_represents_source "(a  " none
  have hcopy :
      openGroup.scanner ∈ Action.performAll Scanner.ask [.ofSource "(a  " none]
        [.ask 0 (.peek 7), .clone 0, .ask 1 .consume] := by
    decide +kernel
  have hqueue : openGroup.scanner.queue.length ≤ 1 := by decide +kernel
  exact ⟨⟨by decide +kernel, by decide +kernel, hsound _⟩, hcopies _ _ hcopy,
    hqueue, hnear _ _ hqueue⟩

end Pratt
