import Pratt.Proofs.Cursor
import Pratt.Proofs.Tokenization

set_option autoImplicit false

/-!
# What a scanner keeps

Between two requests a scanner keeps an offset and a queue. Whatever it was
asked, the tokens that it gave away and those in its queue are the ones that it
has cut off, each of them once, and they are the first tokens of its source
(`Usage.Accounts`). The offset is right behind the last one of them. Only where
no other token follows may it also be behind the white space at the end of the
source (`Scanner.Stands`).

Each request cuts tokens off one at a time, so there are three steps to look at:
a token is cut off and queued, the source turns out to hold no other token, and
the first token of the queue is given away.
-/

namespace Pratt

/-! ## Tokens that are cut off and taken -/

namespace Scanner

/-- The tokens that are cut off when up to `n` more are queued. -/
def cutOff : Nat → Scanner → List Token
  | 0, _ => []
  | n + 1, s =>
    match s.scan with
    | (none, _) => []
    | (some token, s) => token :: cutOff n { s with queue := s.queue ++ [token] }

/-- The scanner behind some requests. -/
def afterAll (s : Scanner) (requests : List Request) : Scanner :=
  requests.foldl (fun s request => (s.ask request).2) s

theorem afterAll_append (s : Scanner) (requests others : List Request) :
    s.afterAll (requests ++ others) = (s.afterAll requests).afterAll others :=
  List.foldl_append

end Scanner

namespace Request

/-- The tokens that a scanner gives away when it is asked. -/
def taken (s : Scanner) : Request → List Token
  | .consume | .next => s.consume.1.toList
  | .peek _ | .position => []

/-- The tokens that a scanner cuts off its source when it is asked. -/
def cut (s : Scanner) : Request → List Token
  | .peek n => s.cutOff (n + 1 - s.queue.length)
  | .consume | .next => if s.queue = [] then s.scan.1.toList else []
  | .position => []

end Request

/-- A scanner with all the tokens that it gave away and cut off since it was
made, first to last. -/
structure Usage where
  scanner : Scanner
  taken : List Token
  cut : List Token
  deriving DecidableEq, Repr, Inhabited

namespace Usage

/-- A scanner that was not asked for anything yet. -/
def start (source : String) (file : Option String) : Usage :=
  ⟨.ofSource source file, [], []⟩

/-- The scanner is asked for something. -/
def ask (u : Usage) (request : Request) : Usage :=
  ⟨(u.scanner.ask request).2, u.taken ++ request.taken u.scanner,
    u.cut ++ request.cut u.scanner⟩

/-- A scanner of a source behind some requests. -/
def after (source : String) (file : Option String)
    (requests : List Request) : Usage :=
  requests.foldl ask (start source file)

theorem scanner_after (source : String) (file : Option String)
    (requests : List Request) :
    (after source file requests).scanner =
      (Scanner.ofSource source file).afterAll requests := by
  suffices h : ∀ u : Usage,
      (requests.foldl ask u).scanner = u.scanner.afterAll requests from h _
  induction requests with
  | nil => exact fun u => rfl
  | cons request requests ih => exact fun u => ih (u.ask request)

end Usage

/-! ## Where a scanner stands -/

/-- The bytes of a source up to the end of the last one of some tokens. -/
def endOf (tokens : List Token) : Nat :=
  (tokens.getLast?.map fun token => token.span.stop).getD 0

theorem endOf_concat (tokens : List Token) (token : Token) :
    endOf (tokens ++ [token]) = token.span.stop := by
  rw [endOf, List.getLast?_concat, Option.map_some, Option.getD_some]

/-- The scanner has the end of the text in front of it. It stands right behind
an offset, or behind white space that reaches from there to the end of the text. -/
def Scanner.Stands (text : List Char) (stop : Nat) (s : Scanner) : Prop :=
  ∃ front gap,
    text = front ++ (gap ++ s.rest) ∧ width front = stop ∧
    s.offset = stop + width gap ∧
    (∀ c ∈ gap, isBlank c = true) ∧ (gap = [] ∨ s.rest = [])

theorem Scanner.stands_ofSource (source : String) (file : Option String) :
    Stands source.toList 0 (ofSource source file) :=
  ⟨[], [], rfl, rfl, rfl, nofun, .inl rfl⟩

/-- The offset is between two characters, and no further than the end. -/
theorem Scanner.Stands.isSlice {text : List Char} {stop : Nat} {s : Scanner}
    (h : Stands text stop s) :
    IsSlice text s.offset (width text) s.rest := by
  obtain ⟨front, gap, rfl, rfl, hoffset, -, -⟩ := h
  refine ⟨front ++ gap, [], by simp, ?_, ?_⟩
  · rw [width_append, hoffset]
  · rw [hoffset, width_append, width_append, Nat.add_assoc]

/-- Behind a token that was cut off, a scanner stands at the end of the token. -/
theorem Scanner.Within.stands_of_scan {text : List Char} {s s' : Scanner}
    {token : Token} (h : Within text s) (hscan : s.scan = (some token, s')) :
    Stands text token.span.stop s' := by
  have hwithin := h.scan
  rw [hscan] at hwithin
  obtain ⟨front, htext, hoffset, -⟩ := hwithin
  rw [← offset_of_scan hscan]
  exact ⟨front, [], htext, hoffset.symm, rfl, nofun, .inl rfl⟩

/-- Where no token is left, a scanner skips what white space there is. -/
theorem Scanner.Stands.of_scan_eq_none {text : List Char} {stop : Nat}
    {s s' : Scanner} (h : Stands text stop s) (hscan : s.scan = (none, s')) :
    Stands text stop s' := by
  obtain ⟨front, gap, htext, hfront, hoffset, hgap, -⟩ := h
  rcases forall_isBlank_or_exists_isCut s.rest
    with hblank | ⟨blanks, part, back, hrest, hblanks, hcut⟩
  · rw [scan_of_forall_isBlank hblank] at hscan
    obtain rfl := (Prod.mk.inj hscan).2
    have htake : (s.rest ++ []).takeWhile isBlank = s.rest ++ [] :=
      List.takeWhile_append_of_pos hblank
    have hdrop : (s.rest ++ []).dropWhile isBlank = [] :=
      List.dropWhile_append_of_pos hblank
    rw [List.append_nil] at htake hdrop
    refine ⟨front, gap ++ s.rest, ?_, hfront, ?_, ?_, .inr hdrop⟩
    · rw [htext, skipBlanks, hdrop, List.append_nil]
    · rw [skipBlanks, htake, hoffset, width_append, Nat.add_assoc]
    · exact fun c hc => (List.mem_append.mp hc).elim (hgap c) (hblank c)
  · rw [scan_of_isCut hrest hblanks hcut] at hscan
    cases hscan

/-! ## Keeping account -/

namespace Usage

/-- The tokens that were given away and those that are left are all tokens of
the source. Those that were given away or are in the queue are the ones that
were cut off, and the scanner stands behind them. -/
structure Accounts (source : String) (file : Option String) (u : Usage) : Prop where
  left : u.taken ++ u.scanner.toList = tokenize source file
  cut : u.cut = u.taken ++ u.scanner.queue
  within : Scanner.Within source.toList u.scanner
  stands : Scanner.Stands source.toList (endOf u.cut) u.scanner

variable {source : String} {file : Option String} {s s' : Scanner}
  {taken cut : List Token}

theorem accounts_start (source : String) (file : Option String) :
    (start source file).Accounts source file where
  left := rfl
  cut := rfl
  within := Scanner.within_ofSource source file
  stands := Scanner.stands_ofSource source file

namespace Accounts

/-- A token that is cut off comes behind those in the queue. -/
theorem of_scan_eq_some {token : Token} (h : Accounts source file ⟨s, taken, cut⟩)
    (hscan : s.scan = (some token, s')) :
    Accounts source file
      ⟨{ s' with queue := s'.queue ++ [token] }, taken, cut ++ [token]⟩ where
  left := by
    rw [Scanner.toList_of_scan_eq_some hscan]
    exact h.left
  cut := by
    have hcut : cut = taken ++ s.queue := h.cut
    simp only [Scanner.queue_of_scan hscan, hcut, List.append_assoc]
  within := by
    have hwithin : Scanner.Within source.toList s.scan.2 :=
      Scanner.Within.scan h.within
    rwa [hscan] at hwithin
  stands := by
    have hstands : Scanner.Stands source.toList token.span.stop s' :=
      Scanner.Within.stands_of_scan h.within hscan
    rwa [endOf_concat]

/-- Where no token is left, no token is cut off. -/
theorem of_scan_eq_none (h : Accounts source file ⟨s, taken, cut⟩)
    (hscan : s.scan = (none, s')) :
    Accounts source file ⟨s', taken, cut⟩ where
  left := by
    rw [(Scanner.toList_of_scan_eq_none hscan).1]
    exact h.left
  cut := by
    rw [Scanner.queue_of_scan hscan]
    exact h.cut
  within := by
    have hwithin : Scanner.Within source.toList s.scan.2 :=
      Scanner.Within.scan h.within
    rwa [hscan] at hwithin
  stands := h.stands.of_scan_eq_none hscan

/-- The first token of the queue is given away. -/
theorem of_queue_eq_cons {token : Token} {queue : List Token}
    (h : Accounts source file ⟨s, taken, cut⟩)
    (hqueue : s.queue = token :: queue) :
    Accounts source file ⟨{ s with queue }, taken ++ [token], cut⟩ where
  left := by
    rw [← h.left, Scanner.toList_eq_cons_of_consume
      (Scanner.consume_of_queue_eq_cons hqueue), List.append_assoc,
      List.singleton_append]
  cut := by
    rw [h.cut, hqueue, List.append_assoc, List.singleton_append]
  within := h.within
  stands := h.stands

theorem enqueue (n : Nat) (h : Accounts source file ⟨s, taken, cut⟩) :
    Accounts source file ⟨s.enqueue n, taken, cut ++ s.cutOff n⟩ := by
  induction n generalizing s cut with
  | zero => simpa only [Scanner.enqueue, Scanner.cutOff, List.append_nil] using h
  | succ n ih =>
    cases hscan : s.scan with
    | mk found s' =>
      cases found with
      | none =>
        simpa only [Scanner.enqueue, Scanner.cutOff, hscan, List.append_nil]
          using h.of_scan_eq_none hscan
      | some token =>
        have hqueued := ih (h.of_scan_eq_some hscan)
        rw [List.append_assoc, List.singleton_append] at hqueued
        simpa only [Scanner.enqueue, Scanner.cutOff, hscan] using hqueued

/-- A token is given away from the queue, or cut off and given away at once. -/
theorem consume (h : Accounts source file ⟨s, taken, cut⟩) :
    Accounts source file ⟨s.consume.2, taken ++ s.consume.1.toList,
      cut ++ if s.queue = [] then s.scan.1.toList else []⟩ := by
  cases hqueue : s.queue with
  | cons token queue =>
    rw [Scanner.consume_of_queue_eq_cons hqueue,
      if_neg (List.cons_ne_nil token queue), List.append_nil]
    exact h.of_queue_eq_cons hqueue
  | nil =>
    rw [Scanner.consume_of_queue_eq_nil hqueue, if_pos rfl]
    cases hscan : s.scan with
    | mk found s' =>
      cases found with
      | none =>
        simpa only [Option.toList_none, List.append_nil]
          using h.of_scan_eq_none hscan
      | some token =>
        have hnil : s'.queue = [] := by rw [Scanner.queue_of_scan hscan, hqueue]
        have hlast : s'.queue ++ [token] = [token] := by rw [hnil, List.nil_append]
        have htaken :
            Accounts source file
              ⟨{ s' with queue := [] }, taken ++ [token], cut ++ [token]⟩ :=
          (h.of_scan_eq_some hscan).of_queue_eq_cons hlast
        have hsame : { s' with queue := [] } = s' := by rw [← hnil]
        rwa [hsame] at htaken

/-- A request leaves the account right. -/
theorem ask {u : Usage} (h : u.Accounts source file) (request : Request) :
    (u.ask request).Accounts source file := by
  cases request with
  | peek n =>
    have henqueue := h.enqueue (n + 1 - u.scanner.queue.length)
    rwa [← List.append_nil u.taken] at henqueue
  | consume => exact h.consume
  | next => exact h.consume
  | position =>
    rw [Usage.ask, Request.taken, Request.cut, List.append_nil, List.append_nil]
    exact h

end Accounts

/-- Whatever a scanner is asked, the account is right. -/
theorem accounts_after (source : String) (file : Option String)
    (requests : List Request) :
    (after source file requests).Accounts source file := by
  suffices h : ∀ u : Usage,
      u.Accounts source file → (requests.foldl ask u).Accounts source file from
    h _ (accounts_start source file)
  induction requests with
  | nil => exact fun u h => h
  | cons request requests ih => exact fun u h => ih _ (h.ask request)

end Usage

/-- No token of a source is there twice. -/
theorem nodup_tokenize (source : String) (file : Option String) :
    (tokenize source file).Nodup := by
  refine (isTokenization_tokenize source file).pairwise_start_lt.imp
    fun hlt heq => ?_
  rw [heq] at hlt
  exact Nat.lt_irrefl _ hlt

/-! ## Copies -/

/-- A copy of a scanner goes on from all that was asked before the copy was
made. -/
theorem Scanner.exists_eq_afterAll_of_mem_performAll {s copy : Scanner}
    {actions : List Action} (h : copy ∈ Action.performAll ask [s] actions) :
    ∃ requests, copy = s.afterAll requests := by
  suffices hall : ∀ copies : List Scanner,
      (∀ t ∈ copies, ∃ requests, t = s.afterAll requests) →
      ∀ t ∈ Action.performAll ask copies actions,
        ∃ requests, t = s.afterAll requests by
    exact hall [s] (fun t ht => ⟨[], List.mem_singleton.mp ht⟩) copy h
  clear h
  induction actions with
  | nil => exact fun copies hcopies => hcopies
  | cons action actions ih =>
    intro copies hcopies
    refine ih (action.perform ask copies) fun t ht => ?_
    cases action with
    | clone i =>
      rcases List.mem_append.mp ht with ht | ht
      · exact hcopies t ht
      · exact hcopies t (List.mem_of_getElem? (Option.mem_toList.mp ht))
    | ask i request =>
      rw [Action.perform] at ht
      split at ht
      · next state hstate =>
        rcases List.mem_or_eq_of_mem_set ht with ht | rfl
        · exact hcopies t ht
        · obtain ⟨requests, rfl⟩ := hcopies state (List.mem_of_getElem? hstate)
          exact ⟨requests ++ [request], (afterAll_append s requests [request]).symm⟩
      · exact hcopies t ht

/-! ## Looking at the next token only -/

/-- Whether the request looks at no token behind the next one. -/
def Request.isNear : Request → Bool
  | .peek n => n == 0
  | .consume | .next | .position => true

namespace Scanner

/-- A queue of at most one token stays so, if nothing behind the next
token is looked at. -/
theorem length_queue_ask_le {s : Scanner} {request : Request}
    (hnear : request.isNear = true) (h : s.queue.length ≤ 1) :
    (s.ask request).2.queue.length ≤ 1 := by
  have hconsume : s.consume.2.queue.length ≤ 1 := by
    cases hqueue : s.queue with
    | nil =>
      rw [consume_of_queue_eq_nil hqueue, queue_snd_scan, hqueue]
      exact Nat.zero_le 1
    | cons token queue =>
      rw [hqueue, List.length_cons] at h
      rw [consume_of_queue_eq_cons hqueue]
      exact Nat.le_of_succ_le h
  cases request with
  | peek n =>
    obtain rfl : n = 0 := by simpa [Request.isNear] using hnear
    have hqueue :
        (s.peek 0).2.queue =
          s.toList.take (s.queue.length + (0 + 1 - s.queue.length)) :=
      queue_enqueue _ s
    have hle :=
      List.length_take_le (s.queue.length + (0 + 1 - s.queue.length)) s.toList
    rw [← hqueue] at hle
    exact Nat.le_trans hle (by omega)
  | consume => exact hconsume
  | next => exact hconsume
  | position => exact h

theorem length_queue_afterAll_le {s : Scanner} {requests : List Request}
    (hnear : ∀ request ∈ requests, request.isNear = true) (h : s.queue.length ≤ 1) :
    (s.afterAll requests).queue.length ≤ 1 := by
  induction requests generalizing s with
  | nil => exact h
  | cons request requests ih =>
    obtain ⟨hfirst, hrest⟩ := List.forall_mem_cons.mp hnear
    exact ih hrest (length_queue_ask_le hfirst h)

end Scanner

end Pratt
