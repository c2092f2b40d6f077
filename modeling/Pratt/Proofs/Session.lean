import Pratt.Proofs.Demands.Parser
import Pratt.Proofs.Reading.Parser
import Pratt.Proofs.Tokenization

set_option autoImplicit false

/-!
# Parsers in use

A parser may be used for a while, and some of its calls may fail, before it is
asked to read something. A session is a parser with all that was done with it.
What it reads next depends on nothing but the texts of the tokens that are left:
two sessions with the same ones left are interchangeable
(`interchangeable_sessions`), whatever their sources, layouts and histories.

The demands say how many tokens a call takes and which one it blames, and
`Runs.unique` that these are the same ones in both sessions. That the trees are
the same is read off the readings.
-/

namespace Pratt

/-! ## Sessions -/

/-- The scanner that a parser leaves, also where it fails. -/
def Parser.after {α : Type} (parser : Parser α) (s : Scanner) : Scanner :=
  match parser s with
  | .ok _ s' | .error _ s' => s'

/-- What can be done with a parser. -/
inductive Operation where
  /-- Looks at the token `n` places ahead. -/
  | peek (n : Nat)
  /-- Looks at the text of the next token. -/
  | current
  /-- Takes the next token. -/
  | advance
  /-- Takes the next token, which has to have the given text. -/
  | expect (text : String)
  /-- Reads an expression. -/
  | expr (power : Power)
  /-- Reads what a token starts. -/
  | starts (rule : PrefixRule) (token : Token)
  /-- Reads what a token continues. -/
  | continues (rule : InfixRule) (left : Expr) (token : Token)
  deriving Repr, Inhabited

/-- The scanner behind an operation, which may have failed. -/
def Operation.after (g : Grammar) (s : Scanner) : Operation → Scanner
  | .peek n => (Parser.peek n).after s
  | .current => Parser.current.after s
  | .advance => Parser.advance.after s
  | .expect text => (Parser.expect text).after s
  | .expr power => (Parser.expr g power).after s
  | .starts rule token => (rule.parse g token).after s
  | .continues rule left token => (rule.parse g left token).after s

/-- A parser in use: its source, and what was done with it since, first to last. -/
structure Session where
  source : String
  file : Option String
  history : List Operation
  deriving Repr, Inhabited

namespace Session

/-- A parser that was not used yet. -/
def fresh (source : String) (file : Option String) : Session := ⟨source, file, []⟩

/-- The scanner behind all that was done. -/
def scanner (g : Grammar) (u : Session) : Scanner :=
  u.history.foldl (Operation.after g) (.ofSource u.source u.file)

/-- The tokens that are left. -/
def tokens (g : Grammar) (u : Session) : List Token := (u.scanner g).toList

/-- Their texts. -/
def texts (g : Grammar) (u : Session) : List String := (u.tokens g).map Token.text

/-- Where the `n`th of the tokens that are left starts. Behind the last one,
this is the end of the source. -/
def place (g : Grammar) (u : Session) (n : Nat) : Position :=
  ((u.tokens g)[n]?.map Token.position).getD
    ⟨u.source.utf8ByteSize, u.file.getD defaultFile⟩

/-- Reading all that is left leads no further than reading an expression and
perhaps a token does, so it need not be among the operations. -/
theorem exists_scanner_eq_after_whole (g : Grammar) (u : Session) :
    ∃ history : List Operation,
      scanner g ⟨u.source, u.file, u.history ++ history⟩ =
        (Parser.whole g).after (u.scanner g) := by
  unfold scanner
  simp only [List.foldl_append]
  generalize u.history.foldl (Operation.after g) (.ofSource u.source u.file) = s
  unfold Parser.whole Parser.after
  cases hexpr : Parser.expr g .lowest s with
  | error error s' =>
    refine ⟨[.expr .lowest], ?_⟩
    simp only [List.foldl_cons, List.foldl_nil, Operation.after, Parser.after,
      Parser.bind_apply, hexpr]
  | ok tree s' =>
    refine ⟨[.expr .lowest, .advance], ?_⟩
    simp only [List.foldl_cons, List.foldl_nil, Operation.after, Parser.after,
      Parser.bind_apply, hexpr, Parser.position, Parser.advance_apply]
    cases s'.consume.1 with
    | none => rfl
    | some token =>
      cases hterminator : g.isTerminator token.text
      all_goals
        simp only [hterminator]
        rfl

end Session

/-! ## Sessions that correspond -/

/-- What two sessions come to corresponds: values that are the same, or
errors with the same fault at corresponding places, with as many tokens taken
in both. An error is at the place of the last token that was taken, or at the
end of the source. -/
inductive Corresponds (g : Grammar) (u v : Session) {α β : Type}
    (same : α → β → Prop) :
    EStateM.Result ParseError Scanner α → EStateM.Result ParseError Scanner β → Prop
  /-- Both succeed. -/
  | ok {a : α} {b : β} {s t : Scanner} (n : Nat) (hn : n ≤ (u.tokens g).length)
      (hsame : same a b) (hs : s.toList = (u.tokens g).drop n)
      (ht : t.toList = (v.tokens g).drop n) :
      Corresponds g u v same (.ok a s) (.ok b t)
  /-- Both fail. -/
  | error {fault : Fault} {s t : Scanner} (n : Nat) (hn : n ≤ (u.tokens g).length)
      (hs : s.toList = (u.tokens g).drop (n + 1))
      (ht : t.toList = (v.tokens g).drop (n + 1)) :
      Corresponds g u v same (.error ⟨fault, u.place g n⟩ s)
        (.error ⟨fault, v.place g n⟩ t)

/-- Whatever two sessions are asked to read, they come to the same: a token that
is expected, an expression at some power, what a rule reads for tokens of one
text, and all that is left. -/
structure Interchangeable (g : Grammar) (u v : Session) : Prop where
  expect : ∀ expected : String,
    Corresponds g u v (fun token token' => token.text = token'.text)
      (Parser.expect expected (u.scanner g))
      (Parser.expect expected (v.scanner g))
  expr : ∀ power : Power,
    Corresponds g u v Eq (Parser.expr g power (u.scanner g))
      (Parser.expr g power (v.scanner g))
  starts : ∀ (rule : PrefixRule) (token token' : Token), token.text = token'.text →
    Corresponds g u v Eq (rule.parse g token (u.scanner g))
      (rule.parse g token' (v.scanner g))
  continues : ∀ (rule : InfixRule) (left : Expr) (token token' : Token),
    token.text = token'.text →
    Corresponds g u v Eq (rule.parse g left token (u.scanner g))
      (rule.parse g left token' (v.scanner g))
  whole :
    Corresponds g u v Eq (Parser.whole g (u.scanner g))
      (Parser.whole g (v.scanner g))

/-! ## The cursor of a session -/

theorem Parser.Performs.exists_follows_after {α : Type} {g : Grammar}
    {demands : List Demand} {parser : Parser α} {s : Scanner} {c : Cursor}
    (h : parser.Performs g demands c) (hs : s.Follows c) :
    ∃ n, (parser.after s).Follows (c.skip n) := by
  unfold after
  split
  · next hrun =>
    obtain ⟨n, -, -, hs'⟩ := h.ok hs hrun
    exact ⟨n, hs'⟩
  · next hrun =>
    obtain ⟨n, -, -, -, hs'⟩ := h.error hs hrun
    exact ⟨n + 1, hs'⟩

/-- Nothing that is done with a parser moves it back or out of its source. -/
theorem Operation.exists_follows_after (g : Grammar) (operation : Operation)
    {s : Scanner} {c : Cursor} (hs : s.Follows c) :
    ∃ n, (operation.after g s).Follows (c.skip n) := by
  cases operation with
  | peek n => exact ⟨0, (hs.peek n).2⟩
  | current => exact ⟨0, (hs.peek 0).2⟩
  | advance => exact ⟨1, hs.consume⟩
  | expect text => exact (Parser.performs_expect g text c).exists_follows_after hs
  | expr power => exact (Parser.performs_expr g power c).exists_follows_after hs
  | starts rule token =>
    exact (rule.performs_parse g token c).exists_follows_after hs
  | continues rule left token =>
    exact (rule.performs_parse g left token c).exists_follows_after hs

/-- Whatever is done, some tokens are taken. -/
theorem Operation.exists_follows_foldl (g : Grammar) (history : List Operation)
    {s : Scanner} {c : Cursor} (hs : s.Follows c) :
    ∃ n, (history.foldl (after g) s).Follows (c.skip n) := by
  induction history generalizing s c with
  | nil => exact ⟨0, hs⟩
  | cons operation history ih =>
    obtain ⟨n, hn⟩ := operation.exists_follows_after g hs
    obtain ⟨m, hm⟩ := ih hn
    exact ⟨n + m, by rwa [Cursor.skip_add]⟩

/-- The cursor stands where a session does. -/
structure Session.Stands (g : Grammar) (u : Session) (c : Cursor) : Prop where
  follows : (u.scanner g).Follows c
  length : c.length = u.source.utf8ByteSize
  file : c.file = u.file.getD defaultFile

namespace Session

/-- A session stands behind some of the tokens of its source. -/
theorem exists_follows (g : Grammar) (u : Session) :
    ∃ n, (u.scanner g).Follows ((Cursor.ofSource u.source u.file).skip n) :=
  Operation.exists_follows_foldl g u.history
    (Scanner.follows_ofSource u.source u.file)

theorem exists_stands (g : Grammar) (u : Session) : ∃ c, u.Stands g c := by
  obtain ⟨n, hfollows⟩ := u.exists_follows g
  exact ⟨_, hfollows, by rw [Cursor.length_skip]; rfl,
    by rw [Cursor.file_skip]; rfl⟩

namespace Stands

variable {g : Grammar} {u : Session} {c : Cursor}

theorem texts (h : u.Stands g c) : u.texts g = c.texts :=
  congrArg (List.map Token.text) h.follows.toList

theorem length_tokens (h : u.Stands g c) :
    (u.tokens g).length = c.texts.length := by
  rw [← h.texts, Session.texts, List.length_map]

theorem toList_skip (h : u.Stands g c) {s : Scanner} {n : Nat}
    (hs : s.Follows (c.skip n)) :
    s.toList = (u.tokens g).drop n := by
  rw [hs.toList, Cursor.tokens_drop_skip, ← h.follows.toList, tokens]

theorem position_skip (h : u.Stands g c) (n : Nat) :
    (c.skip n).position = u.place g n := by
  rw [Cursor.position_skip h.follows.files, place, tokens, h.follows.toList,
    h.length, h.file]

end Stands

end Session

/-! ## The same outcome -/

namespace Parser

variable {g : Grammar} {s s' t t' : Scanner}

/-- The tree that is read depends on the texts only, and so do the texts that
are left. -/
theorem expr_unique {power : Power} {tree tree' : Expr} (htexts : s.texts = t.texts)
    (h : expr g power s = .ok tree s') (h' : expr g power t = .ok tree' t') :
    tree = tree' ∧ s'.texts = t'.texts := by
  have hreads := reads_of_expr h
  rw [htexts] at hreads
  obtain ⟨t'', heq, hrest⟩ := hreads.exists_run t rfl
  obtain ⟨rfl, rfl⟩ := EStateM.Result.ok.inj (heq.symm.trans h')
  exact ⟨rfl, hrest.symm⟩

theorem argumentList_unique {separator close : String}
    {arguments arguments' : List Expr} (htexts : s.texts = t.texts)
    (h : argumentList g separator close s = .ok arguments s')
    (h' : argumentList g separator close t = .ok arguments' t') :
    arguments = arguments' := by
  have hreads := (readsBelow g _).arguments (Nat.lt_succ_self _) h
  rw [htexts] at hreads
  obtain ⟨t'', heq, -⟩ := hreads.exists_run t rfl
  exact (EStateM.Result.ok.inj (heq.symm.trans h')).1

theorem text_of_expect {expected : String} {token : Token}
    (h : expect expected s = .ok token s') :
    token.text = expected := by
  obtain ⟨place, s₁, -, h⟩ := bind_eq_ok_iff.mp h
  obtain ⟨found, s₂, -, h⟩ := bind_eq_ok_iff.mp h
  cases found with
  | none => cases h
  | some found =>
    simp only at h
    split at h
    · next htext =>
      obtain ⟨rfl, -⟩ := pure_eq_ok_iff.mp h
      exact htext
    · cases h

end Parser

open Pratt.Parser in
theorem PrefixRule.parse_unique {g : Grammar} {rule : PrefixRule}
    {token token' : Token} {s s' t t' : Scanner} {tree tree' : Expr}
    (htoken : token.text = token'.text) (htexts : s.texts = t.texts)
    (h : rule.parse g token s = .ok tree s')
    (h' : rule.parse g token' t = .ok tree' t') : tree = tree' := by
  cases rule with
  | value =>
    obtain ⟨rfl, -⟩ := pure_eq_ok_iff.mp h
    obtain ⟨rfl, -⟩ := pure_eq_ok_iff.mp h'
    rw [htoken]
  | unary power =>
    obtain ⟨operand, s₁, hoperand, h⟩ := bind_eq_ok_iff.mp h
    obtain ⟨operand', t₁, hoperand', h'⟩ := bind_eq_ok_iff.mp h'
    obtain ⟨rfl, -⟩ := pure_eq_ok_iff.mp h
    obtain ⟨rfl, -⟩ := pure_eq_ok_iff.mp h'
    rw [htoken, (expr_unique htexts hoperand hoperand').1]
  | group close =>
    obtain ⟨inner, s₁, hinner, h⟩ := bind_eq_ok_iff.mp h
    obtain ⟨inner', t₁, hinner', h'⟩ := bind_eq_ok_iff.mp h'
    obtain ⟨closing, s₂, -, h⟩ := bind_eq_ok_iff.mp h
    obtain ⟨closing', t₂, -, h'⟩ := bind_eq_ok_iff.mp h'
    obtain ⟨rfl, -⟩ := pure_eq_ok_iff.mp h
    obtain ⟨rfl, -⟩ := pure_eq_ok_iff.mp h'
    exact (expr_unique htexts hinner hinner').1

open Pratt.Parser in
theorem InfixRule.parse_unique {g : Grammar} {rule : InfixRule} {left : Expr}
    {token token' : Token} {s s' t t' : Scanner} {tree tree' : Expr}
    (htoken : token.text = token'.text) (htexts : s.texts = t.texts)
    (h : rule.parse g left token s = .ok tree s')
    (h' : rule.parse g left token' t = .ok tree' t') : tree = tree' := by
  cases rule with
  | binary power associativity =>
    obtain ⟨right, s₁, hright, h⟩ := bind_eq_ok_iff.mp h
    obtain ⟨right', t₁, hright', h'⟩ := bind_eq_ok_iff.mp h'
    obtain ⟨rfl, -⟩ := pure_eq_ok_iff.mp h
    obtain ⟨rfl, -⟩ := pure_eq_ok_iff.mp h'
    rw [htoken, (expr_unique htexts hright hright').1]
  | conditional power separator =>
    obtain ⟨whenTrue, s₁, htrue, h⟩ := bind_eq_ok_iff.mp h
    obtain ⟨whenTrue', t₁, htrue', h'⟩ := bind_eq_ok_iff.mp h'
    obtain ⟨between, s₂, hexpect, h⟩ := bind_eq_ok_iff.mp h
    obtain ⟨between', t₂, hexpect', h'⟩ := bind_eq_ok_iff.mp h'
    obtain ⟨whenFalse, s₃, hfalse, h⟩ := bind_eq_ok_iff.mp h
    obtain ⟨whenFalse', t₃, hfalse', h'⟩ := bind_eq_ok_iff.mp h'
    obtain ⟨rfl, -⟩ := pure_eq_ok_iff.mp h
    obtain ⟨rfl, -⟩ := pure_eq_ok_iff.mp h'
    obtain ⟨rfl, hbranch⟩ := expr_unique htexts htrue htrue'
    rw [texts_of_expect hexpect, texts_of_expect hexpect'] at hbranch
    rw [(expr_unique (List.cons.inj hbranch).2 hfalse hfalse').1]
  | call power separator close =>
    rw [InfixRule.parse_call] at h h'
    obtain ⟨arguments, s₁, harguments, h⟩ := bind_eq_ok_iff.mp h
    obtain ⟨arguments', t₁, harguments', h'⟩ := bind_eq_ok_iff.mp h'
    obtain ⟨closing, s₂, -, h⟩ := bind_eq_ok_iff.mp h
    obtain ⟨closing', t₂, -, h'⟩ := bind_eq_ok_iff.mp h'
    obtain ⟨rfl, -⟩ := pure_eq_ok_iff.mp h
    obtain ⟨rfl, -⟩ := pure_eq_ok_iff.mp h'
    rw [argumentList_unique htexts harguments harguments']

theorem Parser.whole_unique {g : Grammar} {s s' t t' : Scanner}
    {tree tree' : Expr} (htexts : s.texts = t.texts)
    (h : whole g s = .ok tree s') (h' : whole g t = .ok tree' t') :
    tree = tree' := by
  have hreads := whole_eq_ok_iff.mp ⟨s', h⟩
  rw [htexts] at hreads
  obtain ⟨t'', heq⟩ := whole_eq_ok_iff.mpr hreads
  exact (EStateM.Result.ok.inj (heq.symm.trans h')).1

/-- Parsers that perform the same demands correspond, if they return the same
values. -/
theorem corresponds_of_performs {α β : Type} {g : Grammar} {u v : Session}
    {same : α → β → Prop} {demands : List Demand} {parser : Parser α}
    {parser' : Parser β} (htexts : u.texts g = v.texts g)
    (h : ∀ c, parser.Performs g demands c)
    (h' : ∀ c, parser'.Performs g demands c)
    (hsame : ∀ {a b s t},
      parser (u.scanner g) = .ok a s → parser' (v.scanner g) = .ok b t →
      same a b) :
    Corresponds g u v same (parser (u.scanner g)) (parser' (v.scanner g)) := by
  obtain ⟨c, hc⟩ := u.exists_stands g
  obtain ⟨d, hd⟩ := v.exists_stands g
  have heq : c.texts = d.texts := by rw [← hc.texts, ← hd.texts, htexts]
  cases hrun : parser (u.scanner g) with
  | ok a s =>
    obtain ⟨n, hn, hruns, hs⟩ := (h c).ok hc.follows hrun
    cases hrun' : parser' (v.scanner g) with
    | ok b t =>
      obtain ⟨m, hm, hruns', ht⟩ := (h' d).ok hd.follows hrun'
      rw [← Cursor.length_texts] at hn hm
      rw [← heq] at hruns' hm
      obtain ⟨-, rfl⟩ := hruns.unique_of_drop hruns' hn hm
      exact .ok n (hc.length_tokens ▸ hn) (hsame hrun hrun') (hc.toList_skip hs)
        (hd.toList_skip ht)
    | error error t =>
      obtain ⟨m, -, hruns', -⟩ := (h' d).error hd.follows hrun'
      rw [← heq] at hruns'
      cases (hruns.unique hruns').1
  | error error s =>
    obtain ⟨n, hn, hruns, hplace, hs⟩ := (h c).error hc.follows hrun
    cases hrun' : parser' (v.scanner g) with
    | ok b t =>
      obtain ⟨m, -, hruns', -⟩ := (h' d).ok hd.follows hrun'
      rw [← heq] at hruns'
      cases (hruns.unique hruns').1
    | error error' t =>
      obtain ⟨m, hm, hruns', hplace', ht⟩ := (h' d).error hd.follows hrun'
      rw [← Cursor.length_texts] at hn hm
      rw [← heq] at hruns' hm
      obtain ⟨hverdict, rfl⟩ := hruns.unique_of_drop hruns' hn hm
      obtain ⟨fault, place⟩ := error
      obtain ⟨fault', place'⟩ := error'
      obtain rfl : fault = fault' := Verdict.refused.inj hverdict
      obtain rfl : place = u.place g n := hplace.trans (hc.position_skip n)
      obtain rfl : place' = v.place g n := hplace'.trans (hd.position_skip n)
      exact .error n (hc.length_tokens ▸ hn) (hc.toList_skip hs) (hd.toList_skip ht)

theorem Corresponds.mapError_outcome {α : Type} {g : Grammar} {u v : Session}
    {parser parser' : Parser α} {s t : Scanner}
    (h : Corresponds g u v Eq (parser s) (parser' t)) :
    (parser.outcome s).mapError ParseError.fault =
      (parser'.outcome t).mapError ParseError.fault := by
  unfold Parser.outcome
  generalize parser s = result at h
  generalize parser' t = result' at h
  cases h with
  | ok n hn hsame hs ht =>
    subst hsame
    rfl
  | error n hn hs ht => rfl

/-- Sessions with the same texts left are interchangeable. -/
theorem interchangeable_of_texts_eq {g : Grammar} {u v : Session}
    (h : u.texts g = v.texts g) :
    Interchangeable g u v where
  expect expected := corresponds_of_performs h (Parser.performs_expect g expected)
    (Parser.performs_expect g expected) fun hu hv => by
      rw [Parser.text_of_expect hu, Parser.text_of_expect hv]
  expr power :=
    corresponds_of_performs h (Parser.performs_expr g power)
      (Parser.performs_expr g power) fun hu hv => (Parser.expr_unique h hu hv).1
  starts rule token token' htoken :=
    corresponds_of_performs h (rule.performs_parse g token)
      (rule.performs_parse g token')
      fun hu hv => PrefixRule.parse_unique htoken h hu hv
  continues rule left token token' htoken :=
    corresponds_of_performs h (rule.performs_parse g left token)
      (rule.performs_parse g left token')
      fun hu hv => InfixRule.parse_unique htoken h hu hv
  whole :=
    corresponds_of_performs h (Parser.performs_whole g)
      (Parser.performs_whole g) fun hu hv => Parser.whole_unique h hu hv

/-! ## The rest of a source -/

namespace Scanner

theorem Follows.drop {s : Scanner} {c : Cursor} (h : s.Follows c) (n : Nat) :
    (s.drop n).Follows (c.skip n) := by
  induction n generalizing s c with
  | zero => exact h
  | succ n ih => exact ih h.consume

/-- A scanner that never looked ahead stays within its text. -/
theorem Within.drop {text : List Char} {s : Scanner} (h : Within text s)
    (hqueue : s.queue = []) (n : Nat) :
    Within text (s.drop n) ∧ (s.drop n).queue = [] := by
  induction n generalizing s with
  | zero => exact ⟨h, hqueue⟩
  | succ n ih =>
    have hconsume := consume_of_queue_eq_nil hqueue
    rw [Scanner.drop, hconsume]
    exact ih h.scan (by rw [queue_snd_scan, hqueue])

end Scanner

/-- The text from the place of a session on is cut into the tokens that
the session has left. -/
theorem Session.exists_isSlice (g : Grammar) (u : Session) :
    ∃ rest,
      IsSlice u.source.toList (u.scanner g).position.offset
        u.source.utf8ByteSize rest ∧
      lexemes rest = u.texts g := by
  obtain ⟨n, hfollows⟩ := u.exists_follows g
  -- taking the same tokens without looking ahead leads to the same place
  have hdrop := (Scanner.follows_ofSource u.source u.file).drop n
  obtain ⟨hwithin, hqueue⟩ := (Scanner.within_ofSource u.source u.file).drop rfl n
  generalize (Scanner.ofSource u.source u.file).drop n = s at hdrop hwithin hqueue
  have hplace : (u.scanner g).position.offset = s.skipBlanks.offset := by
    rw [hfollows.position, ← hdrop.position, Scanner.position, hqueue]
  have htexts : u.texts g = lexemes s.rest := by
    rw [← Scanner.texts_of_queue_eq_nil hqueue]
    exact congrArg (List.map Token.text) (hfollows.toList.trans hdrop.toList.symm)
  obtain ⟨front, htext, hoffset, -⟩ := hwithin.skipBlanks
  refine ⟨s.skipBlanks.rest, ⟨front, [], ?_, ?_, ?_⟩, ?_⟩
  · rw [List.append_nil, ← htext]
  · rw [hplace, hoffset]
  · rw [hplace, hoffset, ← width_append, ← htext, width_toList]
  · rw [htexts, ← lexemes_dropWhile_isBlank s.rest]
    rfl

/-- A parser depends on nothing but the texts of the tokens that are left: not
on the source, its layout and name, and not on what was done before. A parser
that was used is as good as a fresh one on the rest of its source, and sources
with the same token texts are parsed alike. -/
theorem interchangeable_sessions (g : Grammar) :
    (∀ u v : Session, u.texts g = v.texts g → Interchangeable g u v) ∧
    (∀ (u : Session) (file : Option String),
      ∃ rest,
        IsSlice u.source.toList (u.scanner g).position.offset
          u.source.utf8ByteSize rest ∧
        Interchangeable g u (.fresh (String.ofList rest) file)) ∧
    (∀ (source source' : String) (file file' : Option String),
      (tokenize source file).map Token.text =
        (tokenize source' file').map Token.text →
      (parseWith g source file).mapError ParseError.fault =
        (parseWith g source' file').mapError ParseError.fault) := by
  refine ⟨fun u v => interchangeable_of_texts_eq, fun u file => ?_,
    fun source source' file file' h => ?_⟩
  · obtain ⟨rest, hslice, htexts⟩ := u.exists_isSlice g
    refine ⟨rest, hslice, interchangeable_of_texts_eq ?_⟩
    have hfresh := map_text_tokenize (String.ofList rest) file
    rw [String.toList_ofList, htexts] at hfresh
    exact hfresh.symm
  · have hsessions :
        Interchangeable g (.fresh source file) (.fresh source' file') :=
      interchangeable_of_texts_eq h
    exact hsessions.whole.mapError_outcome

/-- A group that was not closed has taken a bracket, and one token was looked
at. -/
def failedGroup : Session := ⟨"(a ] b * c", none, [.peek 1, .expr .lowest, .peek 0]⟩

theorem interchangeable_failedGroup :
    failedGroup.texts .arithmetic =
      (Session.fresh "b\n*c" (some "notes")).texts .arithmetic ∧
    Interchangeable .arithmetic failedGroup (.fresh "b\n*c" (some "notes")) := by
  have htexts :
      failedGroup.texts .arithmetic =
        (Session.fresh "b\n*c" (some "notes")).texts .arithmetic := by
    decide +kernel
  exact ⟨htexts, (interchangeable_sessions .arithmetic).1 _ _ htexts⟩

end Pratt
