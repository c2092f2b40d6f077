import Pratt.Scanner

set_option autoImplicit false

/-!
# The view of a scanner

A scanner is a cursor over the tokens that are left. Taking the next token gives
the head of the view and leaves its tail (`fst_consume`, `toList_snd_consume`),
and looking ahead reads the view without changing it (`fst_peek`,
`toList_snd_peek`). The place of a scanner is that of the next token, or the end
of the source (`position_of_toList_eq_cons`, `position_of_toList_eq_nil`).
-/

namespace Pratt.Scanner

/-! ## Cutting off one token -/

@[simp] theorem queue_skipBlanks (s : Scanner) : s.skipBlanks.queue = s.queue := rfl

@[simp] theorem file_skipBlanks (s : Scanner) : s.skipBlanks.file = s.file := rfl

theorem length_rest_skipBlanks_le (s : Scanner) :
    s.skipBlanks.rest.length ≤ s.rest.length :=
  length_dropWhile_le isBlank s.rest

theorem skipBlanks_of_rest_eq_nil {s : Scanner} (h : s.rest = []) :
    s.skipBlanks = s := by
  obtain ⟨file, offset, rest, queue⟩ := s
  obtain rfl : rest = [] := h
  rfl

/-- Where blanks are all that is left, no token is cut off. -/
theorem scan_of_rest_eq_nil {s : Scanner} (h : s.skipBlanks.rest = []) :
    s.scan = (none, s.skipBlanks) := by
  simp only [scan]
  split
  · rfl
  · next heq => simp [h] at heq

/-- Where a character other than a blank is left, a token is cut off. -/
theorem scan_of_rest_eq_cons {s : Scanner} {c : Char} {rest : List Char}
    (h : s.skipBlanks.rest = c :: rest) :
    s.scan =
      (some ⟨String.ofList (lexeme (c :: rest)),
          ⟨s.file, s.skipBlanks.offset,
            s.skipBlanks.offset + width (lexeme (c :: rest))⟩⟩,
        { s.skipBlanks with
          offset := s.skipBlanks.offset + width (lexeme (c :: rest))
          rest := afterLexeme (c :: rest) }) := by
  simp only [scan]
  split
  · next heq => simp [h] at heq
  · next heq =>
    rw [h] at heq
    injection heq with hc hrest
    subst hc hrest
    rfl

/-- Cutting a token off changes the offset and the rest only. -/
theorem exists_snd_scan_eq (s : Scanner) :
    ∃ offset rest, s.scan.2 = { s with offset, rest } := by
  cases h : s.skipBlanks.rest with
  | nil => exact ⟨_, _, by rw [scan_of_rest_eq_nil h]; rfl⟩
  | cons c rest => exact ⟨_, _, by rw [scan_of_rest_eq_cons h]; rfl⟩

@[simp] theorem queue_snd_scan (s : Scanner) : s.scan.2.queue = s.queue := by
  obtain ⟨offset, rest, h⟩ := s.exists_snd_scan_eq
  rw [h]

@[simp] theorem file_snd_scan (s : Scanner) : s.scan.2.file = s.file := by
  obtain ⟨offset, rest, h⟩ := s.exists_snd_scan_eq
  rw [h]

/-- A token takes at least one character off the rest. -/
theorem length_rest_lt_of_scan {s s' : Scanner} {token : Token}
    (h : s.scan = (some token, s')) :
    s'.rest.length < s.rest.length := by
  cases hrest : s.skipBlanks.rest with
  | nil => simp [scan_of_rest_eq_nil hrest] at h
  | cons c rest =>
    have hle := length_rest_skipBlanks_le s
    have hlt := length_afterLexeme_lt c rest
    rw [scan_of_rest_eq_cons hrest] at h
    obtain ⟨_, rfl⟩ := Prod.mk.inj h
    rw [hrest] at hle
    exact Nat.lt_of_lt_of_le hlt hle

theorem queue_of_scan {s s' : Scanner} {found : Option Token}
    (h : s.scan = (found, s')) :
    s'.queue = s.queue := by
  rw [← queue_snd_scan s, h]

/-- A scanner without a token left stays so. -/
theorem scan_of_scan_eq_none {s s' : Scanner} (h : s.scan = (none, s')) :
    s'.rest = [] ∧ s'.scan = (none, s') := by
  cases hrest : s.skipBlanks.rest with
  | nil =>
    rw [scan_of_rest_eq_nil hrest] at h
    obtain ⟨_, rfl⟩ := Prod.mk.inj h
    have hskip : s.skipBlanks.skipBlanks = s.skipBlanks :=
      skipBlanks_of_rest_eq_nil hrest
    refine ⟨hrest, ?_⟩
    rw [scan_of_rest_eq_nil (by rw [hskip, hrest]), hskip]
  | cons c rest => simp [scan_of_rest_eq_cons hrest] at h

/-! ## Taking tokens -/

theorem consume_of_queue_eq_cons {s : Scanner} {token : Token}
    {queue : List Token} (h : s.queue = token :: queue) :
    s.consume = (some token, { s with queue }) := by
  simp only [consume, h]

theorem consume_of_queue_eq_nil {s : Scanner} (h : s.queue = []) :
    s.consume = s.scan := by
  simp only [consume, h]

/-- Taking a token brings a scanner closer to the end. -/
theorem size_lt_of_consume {s s' : Scanner} {token : Token}
    (h : s.consume = (some token, s')) :
    s'.size < s.size := by
  cases hq : s.queue with
  | nil =>
    rw [consume_of_queue_eq_nil hq] at h
    have := length_rest_lt_of_scan h
    simp only [size, queue_of_scan h, hq]
    omega
  | cons token queue =>
    rw [consume_of_queue_eq_cons hq] at h
    obtain ⟨_, rfl⟩ := Prod.mk.inj h
    simp only [size, hq, List.length_cons]
    omega

theorem take_of_consume_eq_none {s s' : Scanner} (h : s.consume = (none, s'))
    (n : Nat) :
    s.take n = [] := by
  cases n with
  | zero => rfl
  | succ n => simp only [take, h]

theorem take_succ_of_consume_eq_some {s s' : Scanner} {token : Token}
    (h : s.consume = (some token, s')) (n : Nat) :
    s.take (n + 1) = token :: s'.take n := by
  simp only [take, h]

theorem take_eq_take {s : Scanner} {n m : Nat} (hn : s.size ≤ n) (hm : s.size ≤ m) :
    s.take n = s.take m := by
  induction n generalizing s m with
  | zero =>
    cases m with
    | zero => rfl
    | succ m =>
      cases hc : s.consume with
      | mk found s' =>
        cases found with
        | none => rw [take_of_consume_eq_none hc, take_of_consume_eq_none hc]
        | some token => exact absurd (size_lt_of_consume hc) (by omega)
  | succ n ih =>
    cases hc : s.consume with
    | mk found s' =>
      cases found with
      | none => rw [take_of_consume_eq_none hc, take_of_consume_eq_none hc]
      | some token =>
        have hlt := size_lt_of_consume hc
        obtain ⟨k, rfl⟩ : ∃ k, m = k + 1 := ⟨m - 1, by omega⟩
        rw [take_succ_of_consume_eq_some hc, take_succ_of_consume_eq_some hc,
          ih (m := k) (by omega) (by omega)]

/-- No more tokens are left than the size tells. -/
theorem take_of_size_le {s : Scanner} {n : Nat} (h : s.size ≤ n) :
    s.take n = s.toList :=
  take_eq_take h (Nat.le_refl _)

/-- Taking the next token takes the head of the view. -/
theorem toList_eq_cons_of_consume {s s' : Scanner} {token : Token}
    (h : s.consume = (some token, s')) : s.toList = token :: s'.toList := by
  have hlt := size_lt_of_consume h
  rw [← take_of_size_le (Nat.le_succ s.size), take_succ_of_consume_eq_some h,
    take_of_size_le (by omega)]

theorem toList_eq_nil_of_consume {s s' : Scanner}
    (h : s.consume = (none, s')) : s.toList = [] :=
  take_of_consume_eq_none h _

/-- The next token is the head of the view. -/
theorem fst_consume (s : Scanner) : s.consume.1 = s.toList.head? := by
  cases h : s.consume with
  | mk found s' =>
    cases found with
    | none => rw [toList_eq_nil_of_consume h]; rfl
    | some token => rw [toList_eq_cons_of_consume h]; rfl

theorem consume_eq_none {s s' : Scanner} (h : s.consume = (none, s')) :
    s.queue = [] ∧ s.scan = (none, s') := by
  cases hq : s.queue with
  | nil => exact ⟨rfl, by rw [← consume_of_queue_eq_nil hq, h]⟩
  | cons token queue => simp [consume_of_queue_eq_cons hq] at h

/-- Taking the next token leaves the tail of the view. -/
theorem toList_snd_consume (s : Scanner) : s.consume.2.toList = s.toList.tail := by
  cases h : s.consume with
  | mk found s' =>
    cases found with
    | none =>
      obtain ⟨hq, hs⟩ := consume_eq_none h
      have hq' : s'.queue = [] := by rw [queue_of_scan hs, hq]
      have hs' := (scan_of_scan_eq_none hs).2
      rw [← consume_of_queue_eq_nil hq'] at hs'
      rw [toList_eq_nil_of_consume h, toList_eq_nil_of_consume hs', List.tail_nil]
    | some token => rw [toList_eq_cons_of_consume h, List.tail_cons]

/-- No more tokens are left than the size tells. -/
theorem length_toList_le_size (s : Scanner) : s.toList.length ≤ s.size := by
  suffices h : ∀ n, ∀ s : Scanner, (s.take n).length ≤ n from h s.size s
  intro n
  induction n with
  | zero => intro s; exact Nat.le_refl 0
  | succ n ih =>
    intro s
    cases hc : s.consume with
    | mk found s' =>
      cases found with
      | none => rw [take_of_consume_eq_none hc]; exact Nat.zero_le _
      | some token =>
        rw [take_succ_of_consume_eq_some hc]
        exact Nat.succ_le_succ (ih s')

/-- The number of tokens that are left. -/
def remaining (s : Scanner) : Nat := s.toList.length

/-- Taking a token leaves one token less. -/
theorem remaining_of_consume {s s' : Scanner} {token : Token}
    (h : s.consume = (some token, s')) :
    s.remaining = s'.remaining + 1 := by
  rw [remaining, toList_eq_cons_of_consume h, List.length_cons, remaining]

theorem remaining_lt_of_consume {s s' : Scanner} {token : Token}
    (h : s.consume = (some token, s')) : s'.remaining < s.remaining := by
  rw [remaining_of_consume h]
  exact Nat.lt_succ_self _

theorem remaining_snd_consume_le (s : Scanner) :
    s.consume.2.remaining ≤ s.remaining := by
  rw [remaining, toList_snd_consume, List.length_tail]
  exact Nat.sub_le _ _

/-- Dropping tokens drops them from the view. -/
theorem toList_drop (n : Nat) (s : Scanner) :
    (s.drop n).toList = s.toList.drop n := by
  induction n generalizing s with
  | zero => rfl
  | succ n ih => rw [drop, ih, toList_snd_consume, List.drop_tail]

/-! ## Looking ahead -/

/-- The tokens in the queue come first, then those that were not cut off yet. -/
theorem toList_eq_queue_append (s : Scanner) :
    s.toList = s.queue ++ { s with queue := [] }.toList := by
  obtain ⟨file, offset, rest, queue⟩ := s
  induction queue with
  | nil => rfl
  | cons token queue ih =>
    rw [toList_eq_cons_of_consume (consume_of_queue_eq_cons rfl), List.cons_append]
    exact congrArg _ ih

/-- Cutting a token off and queueing it does not change the view. -/
theorem toList_of_scan_eq_some {s s' : Scanner} {token : Token}
    (h : s.scan = (some token, s')) :
    { s' with queue := s'.queue ++ [token] }.toList = s.toList := by
  rw [toList_eq_queue_append, toList_eq_queue_append s]
  have hconsume :
      { s with queue := [] }.consume =
        (some token, { s' with queue := [] }) := by
    rw [consume_of_queue_eq_nil rfl]
    cases hrest : s.skipBlanks.rest with
    | nil => simp [scan_of_rest_eq_nil hrest] at h
    | cons c rest =>
      rw [scan_of_rest_eq_cons hrest] at h
      obtain ⟨htoken, rfl⟩ := Prod.mk.inj h
      rw [← htoken]
      exact scan_of_rest_eq_cons (s := { s with queue := [] }) hrest
  rw [toList_eq_cons_of_consume hconsume, queue_of_scan h]
  simp

/-- A failed attempt to cut a token off does not change the view. -/
theorem toList_of_scan_eq_none {s s' : Scanner} (h : s.scan = (none, s')) :
    s'.toList = s.toList ∧ s.toList = s.queue := by
  have hempty : ∀ t : Scanner, t.scan.1 = none → t.toList = t.queue := by
    intro t ht
    have hnil : { t with queue := [] }.toList = [] := by
      have hfound : { t with queue := [] }.scan.1 = none := by
        cases hrest : t.skipBlanks.rest with
        | nil => rw [scan_of_rest_eq_nil (s := { t with queue := [] }) hrest]
        | cons c rest => simp [scan_of_rest_eq_cons hrest] at ht
      rw [← consume_of_queue_eq_nil (s := { t with queue := [] }) rfl,
        fst_consume] at hfound
      exact List.head?_eq_none_iff.mp hfound
    rw [toList_eq_queue_append, hnil, List.append_nil]
  have hs := hempty s (by rw [h])
  have hs' := hempty s' (by rw [(scan_of_scan_eq_none h).2])
  exact ⟨by rw [hs', hs, queue_of_scan h], hs⟩

@[simp] theorem toList_enqueue (n : Nat) (s : Scanner) :
    (s.enqueue n).toList = s.toList := by
  induction n generalizing s with
  | zero => rfl
  | succ n ih =>
    cases h : s.scan with
    | mk found s' =>
      cases found with
      | none =>
        simp only [enqueue, h]
        exact (toList_of_scan_eq_none h).1
      | some token =>
        simp only [enqueue, h]
        rw [ih, toList_of_scan_eq_some h]

/-- After queueing, the queue holds as many more tokens as were asked for, or
all. -/
theorem queue_enqueue (n : Nat) (s : Scanner) :
    (s.enqueue n).queue = s.toList.take (s.queue.length + n) := by
  induction n generalizing s with
  | zero => rw [enqueue, toList_eq_queue_append, Nat.add_zero, List.take_left]
  | succ n ih =>
    cases h : s.scan with
    | mk found s' =>
      cases found with
      | none =>
        simp only [enqueue, h]
        rw [(toList_of_scan_eq_none h).2, queue_of_scan h,
          List.take_of_length_le (by omega)]
      | some token =>
        simp only [enqueue, h]
        rw [ih, toList_of_scan_eq_some h]
        simp [queue_of_scan h, Nat.add_assoc, Nat.add_comm 1 n]

/-- Looking ahead reads the view. -/
theorem fst_peek (n : Nat) (s : Scanner) : (s.peek n).1 = s.toList[n]? := by
  simp only [peek, queue_enqueue, List.getElem?_take]
  rw [if_pos (by omega)]

/-- Looking ahead does not change the view. -/
theorem toList_snd_peek (n : Nat) (s : Scanner) : (s.peek n).2.toList = s.toList :=
  toList_enqueue _ s

theorem remaining_snd_peek (n : Nat) (s : Scanner) :
    (s.peek n).2.remaining = s.remaining :=
  congrArg List.length (toList_snd_peek n s)

theorem enqueue_of_scan_eq_none {s : Scanner} (h : s.scan = (none, s))
    (n : Nat) : s.enqueue n = s := by
  cases n with
  | zero => rfl
  | succ n => simp only [enqueue, h]

/-- Queueing makes the queue longer by as many tokens as were asked for, or no
other token can be cut off. -/
theorem length_queue_enqueue_or (n : Nat) (s : Scanner) :
    (s.enqueue n).queue.length = s.queue.length + n ∨
    (s.enqueue n).scan = (none, s.enqueue n) := by
  induction n generalizing s with
  | zero => exact .inl rfl
  | succ n ih =>
    cases h : s.scan with
    | mk found s' =>
      cases found with
      | none =>
        simp only [enqueue, h]
        exact .inr (scan_of_scan_eq_none h).2
      | some token =>
        simp only [enqueue, h]
        refine (ih _).imp_left fun hlength => ?_
        rw [hlength, List.length_append, queue_of_scan h, List.length_singleton,
          Nat.add_assoc, Nat.add_comm 1]

/-- Looking ahead once more finds the same and changes nothing. -/
theorem peek_snd_peek (n : Nat) (s : Scanner) : (s.peek n).2.peek n = s.peek n := by
  have henqueue :
      (s.peek n).2.enqueue (n + 1 - (s.peek n).2.queue.length) =
        (s.peek n).2 := by
    rcases length_queue_enqueue_or (n + 1 - s.queue.length) s with hlength | hscan
    · have hfull : n + 1 - (s.peek n).2.queue.length = 0 := by
        simp only [peek]
        omega
      rw [hfull]
      rfl
    · exact enqueue_of_scan_eq_none hscan _
  exact Prod.ext (congrArg (fun t : Scanner => t.queue[n]?) henqueue) henqueue

/-! ## What stays -/

section

variable {α : Type} {f : Scanner → α} (hscan : ∀ s : Scanner, f s.scan.2 = f s)
  (hqueue : ∀ (s : Scanner) (queue : List Token), f { s with queue } = f s)

include hscan hqueue

/-- What neither cutting a token off nor the queue has to do with stays
when a token is taken. -/
theorem apply_snd_consume (s : Scanner) : f s.consume.2 = f s := by
  cases h : s.queue with
  | nil => rw [consume_of_queue_eq_nil h, hscan]
  | cons token queue => rw [consume_of_queue_eq_cons h, hqueue]

/-- It stays as well when tokens are queued. -/
theorem apply_enqueue (n : Nat) (s : Scanner) : f (s.enqueue n) = f s := by
  induction n generalizing s with
  | zero => rfl
  | succ n ih =>
    have hcut := hscan s
    cases h : s.scan with
    | mk found s' =>
      rw [h] at hcut
      cases found with
      | none => simpa only [enqueue, h] using hcut
      | some token =>
        simp only [enqueue, h]
        rw [ih, hqueue, hcut]

end

@[simp] theorem file_snd_consume (s : Scanner) : s.consume.2.file = s.file :=
  apply_snd_consume file_snd_scan (fun _ _ => rfl) s

@[simp] theorem file_snd_peek (n : Nat) (s : Scanner) :
    (s.peek n).2.file = s.file :=
  apply_enqueue file_snd_scan (fun _ _ => rfl) _ s

/-! ## Places -/

/-- Bytes of the source up to its end. -/
def stop (s : Scanner) : Nat := s.offset + width s.rest

@[simp] theorem stop_ofSource (source : String) (file : Option String) :
    (ofSource source file).stop = width source.toList := Nat.zero_add _

theorem stop_skipBlanks (s : Scanner) : s.skipBlanks.stop = s.stop := by
  have h :
      width s.rest =
        width (s.rest.takeWhile isBlank) + width (s.rest.dropWhile isBlank) := by
    rw [← width_append, List.takeWhile_append_dropWhile]
  simp only [stop, skipBlanks, h]
  omega

theorem stop_snd_scan (s : Scanner) : s.scan.2.stop = s.stop := by
  cases h : s.skipBlanks.rest with
  | nil => rw [scan_of_rest_eq_nil h, stop_skipBlanks]
  | cons c rest =>
    have hwidth :
        width (c :: rest) =
          width (lexeme (c :: rest)) + width (afterLexeme (c :: rest)) := by
      rw [← width_append, lexeme_append_afterLexeme]
    have hstop := stop_skipBlanks s
    simp only [stop, h, hwidth] at hstop
    rw [scan_of_rest_eq_cons h]
    simp only [stop]
    omega

@[simp] theorem stop_snd_consume (s : Scanner) : s.consume.2.stop = s.stop :=
  apply_snd_consume stop_snd_scan (fun _ _ => rfl) s

@[simp] theorem stop_snd_peek (n : Nat) (s : Scanner) :
    (s.peek n).2.stop = s.stop :=
  apply_enqueue stop_snd_scan (fun _ _ => rfl) _ s

/-- The place of a scanner is that of the next token. -/
theorem position_of_toList_eq_cons {s : Scanner} {token : Token}
    {tokens : List Token} (h : s.toList = token :: tokens) :
    s.position = token.position := by
  have hfound : s.consume.1 = some token := by rw [fst_consume, h]; rfl
  cases hq : s.queue with
  | nil =>
    rw [consume_of_queue_eq_nil hq] at hfound
    simp only [position, hq]
    cases hrest : s.skipBlanks.rest with
    | nil => simp [scan_of_rest_eq_nil hrest] at hfound
    | cons c rest =>
      rw [scan_of_rest_eq_cons hrest] at hfound
      rw [← Option.some.inj hfound]
      rfl
  | cons first queue =>
    rw [consume_of_queue_eq_cons hq] at hfound
    rw [← Option.some.inj hfound]
    simp only [position, hq]

/-- Where no token is left, the place of a scanner is the end of the source. -/
theorem position_of_toList_eq_nil {s : Scanner} (h : s.toList = []) :
    s.position = ⟨s.stop, s.file⟩ := by
  have hfound : s.consume.1 = none := by rw [fst_consume, h]; rfl
  cases hq : s.queue with
  | nil =>
    rw [consume_of_queue_eq_nil hq] at hfound
    cases hrest : s.skipBlanks.rest with
    | nil =>
      have hstop := stop_skipBlanks s
      simp only [stop, hrest, width_nil, Nat.add_zero] at hstop
      simp only [position, hq, stop, hstop]
    | cons c rest => simp [scan_of_rest_eq_cons hrest] at hfound
  | cons first queue => simp [consume_of_queue_eq_cons hq] at hfound

end Pratt.Scanner
