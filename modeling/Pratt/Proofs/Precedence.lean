import Pratt.Proofs.Reading.Parser

set_option autoImplicit false

/-!
# Operator precedence

Grammars whose rules are all operators: a token is a value, an operator in
front of its operand, or an operator between two operands. Groups are missing,
so a tree has one text only, and which of the trees of a text is parsed is
decided by the powers alone.

`Expr.Ranked` says this of a tree, without an order of reading: along the
left edge of an operand operators bind tighter than the operator that the
operand belongs to, and along the right edge of a left operand they hold on
to what they have. A source is parsed as the tree of its text that respects
the powers in this sense.

The proof goes through `Fits`, which says of a tree and what stands behind it
that the tree is complete where an expression is read at a power. Reading keeps
it (`Reads.fits`), and a tree that fits is read (`Fits.reads`).
-/

namespace Pratt

/-! ## Edges of a tree -/

/-- An operator of a tree: its token, and whether it stands in front of an
operand or between two. -/
inductive Operator where
  /-- An operator in front of its operand. -/
  | unary (token : String)
  /-- An operator between its operands. -/
  | binary (token : String)
  deriving DecidableEq, Repr, Inhabited

namespace Expr

/-- The tokens of a tree of operators in the order of its text. Conditionals and
calls have none here. -/
def inorder : Expr → List String
  | .value text => [text]
  | .unary operator operand => operator :: operand.inorder
  | .binary operator left right => left.inorder ++ operator :: right.inorder
  | .conditional _ _ _ => []
  | .call _ _ => []

/-- The binary operators from the root down to the leftmost value, as far as no
other operator stands in front. -/
def leftSpine : Expr → List String
  | .binary operator left _ => operator :: left.leftSpine
  | _ => []

/-- The operators from the root down to the rightmost value. -/
def rightSpine : Expr → List Operator
  | .unary operator operand => .unary operator :: operand.rightSpine
  | .binary operator _ right => .binary operator :: right.rightSpine
  | _ => []

end Expr

/-! ## Trees that respect the powers -/

namespace Grammar

/-- The grammar has rules for values and for operators only. -/
structure OperatorsOnly (g : Grammar) : Prop where
  /-- A token that starts an expression is a value or an operator. -/
  starts : ∀ token,
    g.prefixRule token = .value ∨ ∃ power, g.prefixRule token = .unary power
  /-- A token that continues an expression is an operator between two operands. -/
  continues : ∀ token rule, g.infixRule? token = some rule →
    ∃ power associativity, rule = .binary power associativity

theorem OperatorsOnly.prefixRule_ne_group {g : Grammar} (hg : g.OperatorsOnly)
    (token close : String) :
    g.prefixRule token ≠ .group close := by
  intro hrule
  rcases hg.starts token with h | ⟨own, h⟩
  · cases hrule.symm.trans h
  · cases hrule.symm.trans h

/-- The power that the operand of an operator in front is read at. -/
def prefixPower (g : Grammar) (token : String) : Power :=
  match g.prefixRule token with
  | .unary power => power
  | _ => 0

/-- To which side an operator between two operands is grouped. -/
def associativity (g : Grammar) (token : String) : Associativity :=
  match g.infixRule? token with
  | some (.binary _ associativity) => associativity
  | _ => .left

/-- An operator keeps its right operand although an operator of the
given power follows. -/
def Holds (g : Grammar) (power : Power) : Operator → Prop
  | .unary token => power ≤ g.prefixPower token
  | .binary token =>
    match g.associativity token with
    | .left => power ≤ g.infixPower token
    | .right => power < g.infixPower token

/-- An operator between two operands takes an operator into its right operand. -/
def Takes (g : Grammar) (token inner : String) : Prop :=
  match g.associativity token with
  | .left => g.infixPower token < g.infixPower inner
  | .right => g.infixPower token ≤ g.infixPower inner

end Grammar

namespace Expr

/-- Values and operators have the rules that their place asks for, and every
operand stands with the operator that is entitled to it. -/
def Ranked (g : Grammar) : Expr → Prop
  | .value text => g.prefixRule text = .value
  | .unary operator operand =>
    (∃ power, g.prefixRule operator = .unary power) ∧ operand.Ranked g ∧
      ∀ token ∈ operand.leftSpine, g.prefixPower operator < g.infixPower token
  | .binary operator left right =>
    (∃ power associativity,
      g.infixRule? operator = some (.binary power associativity)) ∧
      left.Ranked g ∧ right.Ranked g ∧
      (∀ token ∈ right.leftSpine, g.Takes operator token) ∧
      ∀ inner ∈ left.rightSpine, g.Holds (g.infixPower operator) inner
  | .conditional _ _ _ => False
  | .call _ _ => False

/-- A tree is correct as a whole if moreover the operators of its left edge bind
at all. -/
def PrecedenceCorrect (g : Grammar) (tree : Expr) : Prop :=
  tree.Ranked g ∧ ∀ token ∈ tree.leftSpine, 0 < g.infixPower token

end Expr

/-! ## The power an operand is read at -/

theorem Power.le_weaker_iff {power own : Nat} (h : 0 < power) :
    power ≤ Power.weaker own ↔ power < own := by
  change power ≤ own - 1 ↔ power < own
  omega

theorem Power.weaker_lt_iff {power own : Nat} (h : 0 < own) :
    Power.weaker own < power ↔ own ≤ power := by
  change own - 1 < power ↔ own ≤ power
  omega

namespace Grammar

/-- The power that the right operand of an operator is read at. -/
def operandPower (g : Grammar) : Operator → Power
  | .unary token => g.prefixPower token
  | .binary token => (g.associativity token).rightPower (g.infixPower token)

theorem prefixPower_of_prefixRule {g : Grammar} {token : String} {power : Power}
    (h : g.prefixRule token = .unary power) : g.prefixPower token = power := by
  unfold prefixPower
  rw [h]

theorem associativity_of_infixRule? {g : Grammar} {token : String}
    {power : Power} {associativity : Associativity}
    (h : g.infixRule? token = some (.binary power associativity)) :
    g.associativity token = associativity := by
  unfold Grammar.associativity
  rw [h]

theorem operandPower_binary_of_infixRule? {g : Grammar} {token : String}
    {power : Power} {associativity : Associativity}
    (h : g.infixRule? token = some (.binary power associativity)) :
    g.operandPower (.binary token) = associativity.rightPower power := by
  simp only [operandPower, associativity_of_infixRule? h,
    infixPower_of_infixRule? h, InfixRule.power]

/-- An operator keeps its right operand exactly if that operand is read at no
less than the power behind. -/
theorem holds_iff {g : Grammar} {power : Power} (hpower : 0 < power)
    (operator : Operator) :
    g.Holds power operator ↔ power ≤ g.operandPower operator := by
  cases operator with
  | unary token => rfl
  | binary token =>
    simp only [Holds, operandPower]
    cases g.associativity token with
    | left => rfl
    | right => exact (Power.le_weaker_iff hpower).symm

/-- An operator is taken into the right operand exactly if it binds tighter than
that operand is read at. -/
theorem takes_iff {g : Grammar} {token : String}
    (hpower : 0 < g.infixPower token) (inner : String) :
    g.Takes token inner ↔ g.operandPower (.binary token) < g.infixPower inner := by
  simp only [Takes, operandPower]
  cases g.associativity token with
  | left => rfl
  | right => exact (Power.weaker_lt_iff hpower).symm

end Grammar

/-! ## Trees in front of what follows them -/

/-- A tree is complete where an expression is read at `power` and `rest`
follows. -/
structure Fits (g : Grammar) (power : Power) (tree : Expr)
    (rest : List String) : Prop where
  /-- The tree respects the powers. -/
  ranked : tree.Ranked g
  /-- The operators of its left edge bind tighter than the expression is read
  at. -/
  above : ∀ token ∈ tree.leftSpine, power < g.infixPower token
  /-- What follows does not pull an operand out of its right edge. -/
  holds : ∀ operator ∈ tree.rightSpine, g.pull rest ≤ g.operandPower operator

namespace Fits

variable {g : Grammar} {power own : Power} {token : String}
  {rest middle : List String}

theorem value (hrule : g.prefixRule token = .value) (power : Power)
    (rest : List String) :
    Fits g power (.value token) rest :=
  ⟨hrule, by simp [Expr.leftSpine], by simp [Expr.rightSpine]⟩

/-- An operator in front of an operand that was read at its power. -/
theorem unary {operand : Expr} (hrule : g.prefixRule token = .unary own)
    (hfits : Fits g own operand rest) (hpull : g.pull rest ≤ own)
    (power : Power) : Fits g power (.unary token operand) rest := by
  have hown := Grammar.prefixPower_of_prefixRule hrule
  refine ⟨⟨⟨own, hrule⟩, hfits.ranked, ?_⟩, by simp [Expr.leftSpine], ?_⟩
  · rw [hown]
    exact hfits.above
  · intro operator hmem
    rcases List.mem_cons.mp hmem with rfl | hmem
    · simpa only [Grammar.operandPower, hown] using hpull
    · exact hfits.holds operator hmem

/-- An operator between an operand that it was able to follow and one that was
read at its right power. -/
theorem binary {associativity : Associativity} {left right : Expr}
    (hrule : g.infixRule? token = some (.binary own associativity))
    (hpower : power < own) (hleft : Fits g power left (token :: middle))
    (hright : Fits g (associativity.rightPower own) right rest)
    (hpull : g.pull rest ≤ associativity.rightPower own) :
    Fits g power (.binary token left right) rest := by
  have hown : g.infixPower token = own := Grammar.infixPower_of_infixRule? hrule
  have hoperand := Grammar.operandPower_binary_of_infixRule? hrule
  have hpos : 0 < g.infixPower token := by
    rw [hown]
    exact Nat.lt_of_le_of_lt (Nat.zero_le power) hpower
  refine ⟨⟨⟨own, associativity, hrule⟩, hleft.ranked, hright.ranked, ?_, ?_⟩,
    ?_, ?_⟩
  · intro inner hmem
    rw [Grammar.takes_iff hpos, hoperand]
    exact hright.above inner hmem
  · intro inner hmem
    rw [Grammar.holds_iff hpos]
    exact hleft.holds inner hmem
  · intro other hmem
    rcases List.mem_cons.mp hmem with rfl | hmem
    · rwa [hown]
    · exact hleft.above other hmem
  · intro operator hmem
    rcases List.mem_cons.mp hmem with rfl | hmem
    · rwa [hoperand]
    · exact hright.holds operator hmem

end Fits

/-! ## What is read fits -/

mutual

/-- What is read is the text of the tree, and the tree fits where it was read. -/
theorem Reads.fits {g : Grammar} (hg : g.OperatorsOnly) {power : Power}
    {input rest : List String} {tree : Expr} :
    Reads g power input tree rest →
    input = tree.inorder ++ rest ∧ Fits g power tree rest
  | .value hrule hextends => hextends.fits hg (.value hrule _ _)
  | .unary hrule hoperand hextends => by
    obtain ⟨hinput, hfits⟩ := hoperand.fits hg
    obtain ⟨hmiddle, hresult⟩ :=
      hextends.fits hg (.unary hrule hfits hoperand.pull_le _)
    refine ⟨?_, hresult⟩
    rw [← hmiddle, hinput, Expr.inorder, List.cons_append]
  | .group hrule _ _ => absurd hrule (hg.prefixRule_ne_group _ _)

/-- Extending a tree adds what is read to its text, and keeps it fitting. -/
theorem Extends.fits {g : Grammar} (hg : g.OperatorsOnly) {power : Power}
    {left tree : Expr} {input rest : List String} :
    Extends g power left input tree rest → Fits g power left input →
      left.inorder ++ input = tree.inorder ++ rest ∧ Fits g power tree rest
  | .stop _, hleft => ⟨rfl, hleft⟩
  | .binary hrule hpower hright hextends, hleft => by
    obtain ⟨hinput, hfits⟩ := hright.fits hg
    obtain ⟨hmiddle, hresult⟩ :=
      hextends.fits hg (.binary hrule hpower hleft hfits hright.pull_le)
    refine ⟨?_, hresult⟩
    rw [← hmiddle, hinput, Expr.inorder, List.append_assoc, List.cons_append]
  | .conditional hrule _ _ _ _, _ => by
    obtain ⟨_, _, h⟩ := hg.continues _ _ hrule
    cases h
  | .call hrule _ _ _, _ => by
    obtain ⟨_, _, h⟩ := hg.continues _ _ hrule
    cases h

end

/-! ## What fits is read -/

/-- A tree that fits is read from its text, and then extended by what follows. -/
theorem Fits.reads {g : Grammar} {power : Power} {rest after : List String}
    {result : Expr} :
    ∀ {tree : Expr}, Fits g power tree rest →
      Extends g power tree rest result after →
      Reads g power (tree.inorder ++ rest) result after
  | .value _, hfits, hextends => .value hfits.ranked hextends
  | .unary operator operand, hfits, hextends => by
    obtain ⟨⟨own, hrule⟩, hranked, habove⟩ := hfits.ranked
    rw [Grammar.prefixPower_of_prefixRule hrule] at habove
    have hpull := hfits.holds _ List.mem_cons_self
    rw [Grammar.operandPower, Grammar.prefixPower_of_prefixRule hrule] at hpull
    have hoperand : Fits g own operand rest :=
      ⟨hranked, habove,
        fun inner hmem => hfits.holds inner (List.mem_cons_of_mem _ hmem)⟩
    exact .unary hrule (hoperand.reads (.stop hpull)) hextends
  | .binary operator left right, hfits, hextends => by
    obtain ⟨⟨own, associativity, hrule⟩, hleft, hright, htakes, hholds⟩ :=
      hfits.ranked
    have hpower : power < own := by
      have := hfits.above _ List.mem_cons_self
      rwa [Grammar.infixPower_of_infixRule? hrule] at this
    have hoperand := Grammar.operandPower_binary_of_infixRule? hrule
    have hpos : 0 < g.infixPower operator := by
      rw [Grammar.infixPower_of_infixRule? hrule]
      exact Nat.lt_of_le_of_lt (Nat.zero_le _) hpower
    have hpull := hfits.holds _ List.mem_cons_self
    rw [hoperand] at hpull
    have hfitsRight : Fits g (associativity.rightPower own) right rest := by
      refine ⟨hright, fun inner hmem => ?_, fun inner hmem => ?_⟩
      · rw [← hoperand, ← Grammar.takes_iff hpos]
        exact htakes inner hmem
      · exact hfits.holds inner (List.mem_cons_of_mem _ hmem)
    have hfitsLeft : Fits g power left (operator :: (right.inorder ++ rest)) := by
      refine ⟨hleft, fun inner hmem => ?_, fun inner hmem => ?_⟩
      · exact hfits.above inner (List.mem_cons_of_mem _ hmem)
      · rw [Grammar.pull_cons, ← Grammar.holds_iff hpos]
        exact hholds inner hmem
    have hreads := hfitsLeft.reads
      (.binary hrule hpower (hfitsRight.reads (.stop hpull)) hextends)
    rwa [Expr.inorder, List.append_assoc, List.cons_append]
  | .conditional _ _ _, hfits, _ => hfits.ranked.elim
  | .call _ _, hfits, _ => hfits.ranked.elim

/-! ## Whole sources -/

/-- At the end of a source, what fits at the lowest power is what is
correct as a whole. -/
theorem fits_lowest_iff {g : Grammar} {tree : Expr} :
    Fits g .lowest tree [] ↔ tree.PrecedenceCorrect g := by
  constructor
  · intro h
    exact ⟨h.ranked, h.above⟩
  · rintro ⟨hranked, habove⟩
    exact ⟨hranked, habove, fun _ _ => Nat.zero_le _⟩

/-- With a grammar of operators a source is parsed as a tree exactly if its
tokens are the text of the tree and the tree respects the powers. -/
theorem parseWith_eq_ok_iff_precedenceCorrect {g : Grammar}
    (hg : g.OperatorsOnly) (source : String) (file : Option String)
    (tree : Expr) :
    parseWith g source file = .ok tree ↔
      tree.inorder = (tokenize source file).map Token.text ∧
      tree.PrecedenceCorrect g := by
  rw [parseWith_eq_ok_iff, ← fits_lowest_iff]
  constructor
  · intro hreads
    obtain ⟨htexts, hfits⟩ := hreads.fits hg
    exact ⟨by rw [htexts, List.append_nil], hfits⟩
  · rintro ⟨htexts, hfits⟩
    rw [← htexts, ← List.append_nil tree.inorder]
    exact hfits.reads (.stop (Nat.zero_le _))

/-- An operator in front that binds loosely, and two between operands that share
a power and group to different sides. -/
def mixedOperators : Grammar :=
  Grammar.empty.addAll
    [.starts "-" (.unary 1), .continues "+" (.binary 2 .left),
      .continues "^" (.binary 2 .right)]

theorem operatorsOnly_mixedOperators : mixedOperators.OperatorsOnly where
  starts token := by
    unfold mixedOperators Grammar.addAll
    simp only [List.foldl_cons, List.foldl_nil, Grammar.prefixRule_add]
    split
    · exact .inr ⟨1, rfl⟩
    · exact .inl rfl
  continues token rule h := by
    unfold mixedOperators Grammar.addAll at h
    simp only [List.foldl_cons, List.foldl_nil, Grammar.infixRule?_add] at h
    split at h
    · exact ⟨2, .right, (Option.some.inj h).symm⟩
    · split at h
      · exact ⟨2, .left, (Option.some.inj h).symm⟩
      · cases h

/-- The loose operator in front takes all that follows into its operand, inside
a tighter operator. -/
theorem parseWith_mixedOperators :
    mixedOperators.OperatorsOnly ∧
      parseWith mixedOperators "a ^ - b + c" =
        .ok (.binary "^" (.value "a")
          (.unary "-" (.binary "+" (.value "b") (.value "c")))) := by
  refine ⟨operatorsOnly_mixedOperators, ?_⟩
  rw [parseWith_eq_ok_iff_precedenceCorrect operatorsOnly_mixedOperators]
  refine ⟨by decide, ?_⟩
  unfold Expr.PrecedenceCorrect
  simp only [Expr.Ranked, Expr.leftSpine, Expr.rightSpine]
  refine ⟨⟨⟨2, .right, by decide⟩, by decide, ⟨⟨1, by decide⟩, ?_, by decide⟩,
    by simp, by simp⟩, by decide⟩
  exact ⟨⟨2, .left, by decide⟩, by decide, by decide, by simp, by simp⟩

end Pratt
