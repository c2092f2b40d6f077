import Pratt.Proofs.Reading.Parser

set_option autoImplicit false

/-!
# The language of arithmetic

The grammar of arithmetic as it is written down in books: seven layers from
whole expressions down to single tokens, each with its productions, and no
powers. `Derives layer words tree` says that the words derive the tree in a
layer.

Parsing with the powers of `Grammar.arithmetic` accepts this language and builds
these trees (`parse_eq_ok_iff`). The two meet in two numbers for each layer: an
expression of a layer is whole where it is read at a power below `Layer.floor`,
and it stays as it is where what follows pulls no harder than `Layer.ceiling`.
-/

namespace Pratt

/-! ## Rules of arithmetic -/

namespace Grammar

theorem prefixRule_arithmetic (token : String) :
    arithmetic.prefixRule token =
      if token = "(" then .group ")"
      else if token = "-" then .unary 150
      else if token = "+" then .unary 150
      else .value := by
  unfold arithmetic addAll arithmeticRules
  simp only [List.foldl_cons, List.foldl_nil, prefixRule_add]
  rfl

theorem infixRule?_arithmetic (token : String) :
    arithmetic.infixRule? token =
      if token = "(" then some (.call 170 "," ")")
      else if token = "^" then some (.binary 140 .right)
      else if token = "/" then some (.binary 130 .left)
      else if token = "*" then some (.binary 130 .left)
      else if token = "-" then some (.binary 120 .left)
      else if token = "+" then some (.binary 120 .left)
      else if token = "?" then some (.conditional 30 ":")
      else none := by
  unfold arithmetic addAll arithmeticRules
  simp only [List.foldl_cons, List.foldl_nil, infixRule?_add]
  rfl

theorem prefixRule_arithmetic_eq_value_iff {token : String} :
    arithmetic.prefixRule token = .value ↔
    token ≠ "+" ∧ token ≠ "-" ∧ token ≠ "(" := by
  rw [prefixRule_arithmetic]
  split
  · simp_all
  · split
    · simp_all
    · split <;> simp_all

theorem prefixRule_arithmetic_eq_unary {token : String} {own : Power}
    (h : arithmetic.prefixRule token = .unary own) :
    (token = "+" ∨ token = "-") ∧ own = 150 := by
  rw [prefixRule_arithmetic] at h
  split at h
  · cases h
  · split at h
    · next heq => exact ⟨.inr heq, (PrefixRule.unary.inj h).symm⟩
    · split at h
      · next heq => exact ⟨.inl heq, (PrefixRule.unary.inj h).symm⟩
      · cases h

theorem prefixRule_arithmetic_eq_group {token close : String}
    (h : arithmetic.prefixRule token = .group close) :
    token = "(" ∧ close = ")" := by
  rw [prefixRule_arithmetic] at h
  split at h
  · next heq => exact ⟨heq, (PrefixRule.group.inj h).symm⟩
  · split at h
    · cases h
    · split at h <;> cases h

theorem infixRule?_arithmetic_eq_binary {token : String} {own : Power}
    {associativity : Associativity}
    (h : arithmetic.infixRule? token = some (.binary own associativity)) :
    (token = "+" ∨ token = "-") ∧ own = 120 ∧ associativity = .left ∨
      (token = "*" ∨ token = "/") ∧ own = 130 ∧ associativity = .left ∨
      token = "^" ∧ own = 140 ∧ associativity = .right := by
  rw [infixRule?_arithmetic] at h
  repeat' split at h
  all_goals simp_all

theorem infixRule?_arithmetic_eq_conditional {token separator : String}
    {own : Power}
    (h : arithmetic.infixRule? token = some (.conditional own separator)) :
    token = "?" ∧ own = 30 ∧ separator = ":" := by
  rw [infixRule?_arithmetic] at h
  repeat' split at h
  all_goals simp_all

theorem infixRule?_arithmetic_eq_call {token separator close : String} {own : Power}
    (h : arithmetic.infixRule? token = some (.call own separator close)) :
    token = "(" ∧ own = 170 ∧ separator = "," ∧ close = ")" := by
  rw [infixRule?_arithmetic] at h
  repeat' split at h
  all_goals simp_all

theorem prefixRule_arithmetic_of_sign {token : String}
    (h : token = "+" ∨ token = "-") :
    arithmetic.prefixRule token = .unary 150 := by
  rcases h with rfl | rfl <;> decide

theorem infixRule?_arithmetic_of_additive {token : String}
    (h : token = "+" ∨ token = "-") :
    arithmetic.infixRule? token = some (.binary 120 .left) := by
  rcases h with rfl | rfl <;> decide

theorem infixRule?_arithmetic_of_multiplicative {token : String}
    (h : token = "*" ∨ token = "/") :
    arithmetic.infixRule? token = some (.binary 130 .left) := by
  rcases h with rfl | rfl <;> decide

theorem rightPower_arithmetic_lt {token : String} {own : Power}
    {associativity : Associativity}
    (h : arithmetic.infixRule? token = some (.binary own associativity)) :
    associativity.rightPower own < 170 := by
  rcases infixRule?_arithmetic_eq_binary h
    with ⟨-, rfl, rfl⟩ | ⟨-, rfl, rfl⟩ | ⟨-, rfl, rfl⟩ <;> decide

/-- Nothing pulls harder than the arguments of a call. -/
theorem pull_arithmetic_le (input : List String) : arithmetic.pull input ≤ 170 := by
  cases input with
  | nil => exact Nat.zero_le _
  | cons token rest =>
    rw [pull_cons, infixPower, infixRule?_arithmetic]
    repeat' split
    all_goals decide

end Grammar

/-! ## The language -/

/-- The layers of the language, from the loosest to the tightest. -/
inductive Layer where
  /-- Whole expressions: sums and conditionals. -/
  | expr
  /-- Products with `+` and `-` between them. -/
  | sum
  /-- Powers with `*` and `/` between them. -/
  | product
  /-- Signed expressions with `^` between them. -/
  | power
  /-- Expressions with `+` or `-` in front. -/
  | signed
  /-- Primaries with calls behind them. -/
  | suffixed
  /-- Groups and single tokens. -/
  | primary
  deriving DecidableEq, Repr, Inhabited

mutual

/-- The words derive the tree in a layer. -/
inductive Derives : Layer → List String → Expr → Prop
  | sum {words : List String} {tree : Expr} (h : Derives .sum words tree) :
      Derives .expr words tree
  | conditional {first second third : List String}
      {condition whenTrue whenFalse : Expr}
      (hcondition : Derives .sum first condition)
      (htrue : Derives .expr second whenTrue)
      (hfalse : Derives .expr third whenFalse) :
      Derives .expr (first ++ "?" :: (second ++ ":" :: third))
        (.conditional condition whenTrue whenFalse)
  | product {words : List String} {tree : Expr} (h : Derives .product words tree) :
      Derives .sum words tree
  | add {operator : String} {first second : List String} {left right : Expr}
      (hoperator : operator = "+" ∨ operator = "-")
      (hleft : Derives .sum first left)
      (hright : Derives .product second right) :
      Derives .sum (first ++ operator :: second) (.binary operator left right)
  | power {words : List String} {tree : Expr} (h : Derives .power words tree) :
      Derives .product words tree
  | multiply {operator : String} {first second : List String} {left right : Expr}
      (hoperator : operator = "*" ∨ operator = "/")
      (hleft : Derives .product first left)
      (hright : Derives .power second right) :
      Derives .product (first ++ operator :: second) (.binary operator left right)
  | signed {words : List String} {tree : Expr} (h : Derives .signed words tree) :
      Derives .power words tree
  | raise {first second : List String} {left right : Expr}
      (hleft : Derives .signed first left)
      (hright : Derives .power second right) :
      Derives .power (first ++ "^" :: second) (.binary "^" left right)
  | sign {operator : String} {words : List String} {operand : Expr}
      (hoperator : operator = "+" ∨ operator = "-")
      (hoperand : Derives .signed words operand) :
      Derives .signed (operator :: words) (.unary operator operand)
  | suffixed {words : List String} {tree : Expr}
      (h : Derives .suffixed words tree) :
      Derives .signed words tree
  | primary {words : List String} {tree : Expr} (h : Derives .primary words tree) :
      Derives .suffixed words tree
  | call {first second : List String} {callee : Expr} {arguments : List Expr}
      (hcallee : Derives .suffixed first callee)
      (harguments : DerivesArguments second arguments) :
      Derives .suffixed (first ++ "(" :: (second ++ [")"])) (.call callee arguments)
  | group {words : List String} {tree : Expr} (h : Derives .expr words tree) :
      Derives .primary ("(" :: (words ++ [")"])) tree
  | value {token : String} (hplus : token ≠ "+") (hminus : token ≠ "-")
      (hopen : token ≠ "(") :
      Derives .primary [token] (.value token)

/-- The words derive the arguments of a call: none, or expressions with `,`
between them. Nothing need follow the last `,`. No argument begins with the
token that closes the call. -/
inductive DerivesArguments : List String → List Expr → Prop
  | none : DerivesArguments [] []
  | last {words : List String} {tree : Expr} (hclose : words.head? ≠ some ")")
      (htree : Derives .expr words tree) : DerivesArguments words [tree]
  | more {first second : List String} {tree : Expr} {others : List Expr}
      (hclose : first.head? ≠ some ")") (htree : Derives .expr first tree)
      (hothers : DerivesArguments second others) :
      DerivesArguments (first ++ "," :: second) (tree :: others)

end

/-! ## Layers and powers -/

namespace Layer

/-- How tight a layer is. -/
def rank : Layer → Nat
  | .expr => 0
  | .sum => 1
  | .product => 2
  | .power => 3
  | .signed => 4
  | .suffixed => 5
  | .primary => 6

/-- The layer that a layer is included in by a production of its own. -/
def looser : Layer → Layer
  | .expr => .expr
  | .sum => .expr
  | .product => .sum
  | .power => .product
  | .signed => .power
  | .suffixed => .signed
  | .primary => .suffixed

/-- The power below which a whole expression of a layer is read. -/
def floor : Layer → Power
  | .expr => 30
  | .sum => 120
  | .product => 130
  | .power => 140
  | .signed | .suffixed | .primary => 170

/-- The hardest pull under which an expression of a layer stays as it is. -/
def ceiling : Layer → Power
  | .expr => 0
  | .sum => 120
  | .product => 130
  | .power => 139
  | .signed => 150
  | .suffixed | .primary => 170

theorem floor_looser_le (layer : Layer) : layer.looser.floor ≤ layer.floor := by
  cases layer <;> decide

theorem ceiling_looser_le (layer : Layer) :
    layer.looser.ceiling ≤ layer.ceiling := by
  cases layer <;> decide

theorem rank_looser (layer : Layer) : layer.looser.rank = layer.rank - 1 := by
  cases layer <;> rfl

theorem eq_of_rank_eq {layer target : Layer} (h : layer.rank = target.rank) :
    layer = target := by
  cases layer <;> cases target <;> first | rfl | cases h

/-- An expression that withstands more than the next looser layer does is of the
layer. -/
theorem rank_le_of_ceiling_lt {layer target : Layer} :
    target.looser.ceiling < layer.ceiling → target.rank ≤ layer.rank := by
  cases layer <;> cases target <;> decide

/-- An expression that is read at a higher power than the next looser
layer is of the layer. -/
theorem rank_le_of_floor_lt {layer target : Layer} :
    target.looser.floor < layer.floor → target.rank ≤ layer.rank := by
  cases layer <;> cases target <;> decide

/-- An operator between expressions of two layers makes one of a third: it is
read wherever that is, it leaves its left operand as it is, and what stays
outside the third layer stays outside its right operand. -/
structure Joins (target left right : Layer) (own : Power)
    (associativity : Associativity) : Prop where
  /-- The left operand can be read. -/
  floorLeft : target.floor ≤ left.floor
  /-- The operator can be read. -/
  floorOwn : target.floor ≤ own
  /-- The operator leaves the left operand as it is. -/
  ceilingLeft : own ≤ left.ceiling
  /-- The right operand can be read. -/
  floorRight : associativity.rightPower own < right.floor
  /-- What follows leaves the right operand as it is. -/
  ceilingRight : target.ceiling ≤ right.ceiling
  /-- What follows is not read into the right operand. -/
  ceilingOwn : target.ceiling ≤ associativity.rightPower own

theorem joins_additive : Joins .sum .sum .product 120 .left := by
  constructor <;> decide

theorem joins_multiplicative : Joins .product .product .power 130 .left := by
  constructor <;> decide

theorem joins_raise : Joins .power .signed .power 140 .right := by
  constructor <;> decide

end Layer

theorem Derives.looser {layer : Layer} {words : List String} {tree : Expr}
    (h : Derives layer words tree) : Derives layer.looser words tree := by
  cases layer with
  | expr => exact h
  | sum => exact .sum h
  | product => exact .product h
  | power => exact .power h
  | signed => exact .signed h
  | suffixed => exact .suffixed h
  | primary => exact .primary h

/-- Each layer is included in all looser ones. -/
theorem Derives.mono {layer target : Layer} {words : List String} {tree : Expr}
    (h : Derives layer words tree) (hrank : target.rank ≤ layer.rank) :
    Derives target words tree := by
  induction hsteps : layer.rank - target.rank generalizing layer with
  | zero =>
    obtain rfl :=
      Layer.eq_of_rank_eq (Nat.le_antisymm (Nat.le_of_sub_eq_zero hsteps) hrank)
    exact h
  | succ steps ih =>
    have hlooser := Layer.rank_looser layer
    exact ih h.looser (by omega) (by omega)

theorem Derives.toExpr {layer : Layer} {words : List String} {tree : Expr}
    (h : Derives layer words tree) :
    Derives .expr words tree :=
  h.mono (Nat.zero_le _)

/-! ## What is derived is read -/

open Grammar (arithmetic)

/-- The words are read as the tree wherever an expression of the layer may
stand, and what follows may then extend it. -/
def ReadsIn (layer : Layer) (words : List String) (tree : Expr) : Prop :=
  ∀ (power : Power) (rest after : List String) (result : Expr),
    power < layer.floor →
    arithmetic.pull rest ≤ layer.ceiling →
    Extends arithmetic power tree rest result after →
    Reads arithmetic power (words ++ rest) result after

namespace ReadsIn

variable {layer target leftLayer rightLayer : Layer}
  {words first second third : List String} {tree left right : Expr}

/-- The tree itself is read where nothing extends it. -/
theorem reads_self (h : ReadsIn layer words tree) {power : Power}
    {rest : List String} (hfloor : power < layer.floor)
    (hceiling : arithmetic.pull rest ≤ layer.ceiling)
    (hstop : arithmetic.pull rest ≤ power) :
    Reads arithmetic power (words ++ rest) tree rest :=
  h power rest rest tree hfloor hceiling (.stop hstop)

theorem looser (h : ReadsIn layer words tree) :
    ReadsIn layer.looser words tree := by
  intro power rest after result hpower hpull hextends
  have hfloor : power < layer.floor :=
    Nat.lt_of_lt_of_le hpower layer.floor_looser_le
  have hceiling : arithmetic.pull rest ≤ layer.ceiling :=
    Nat.le_trans hpull layer.ceiling_looser_le
  exact h power rest after result hfloor hceiling hextends

theorem value {token : String} (hrule : arithmetic.prefixRule token = .value) :
    ReadsIn .primary [token] (.value token) := by
  intro power rest after result _ _ hextends
  exact .value hrule hextends

theorem group (h : ReadsIn .expr words tree) :
    ReadsIn .primary ("(" :: (words ++ [")"])) tree := by
  intro power rest after result _ _ hextends
  have hinner :
      Reads arithmetic .lowest (words ++ ")" :: rest) tree (")" :: rest) :=
    h.reads_self (by decide) (Nat.le_refl 0) (Nat.le_refl 0)
  have hrule : arithmetic.prefixRule "(" = .group ")" := by decide
  have hgroup := Reads.group hrule hinner hextends
  simpa only [List.append_assoc, List.cons_append, List.nil_append] using hgroup

/-- An operator in front of an operand that is read at its power. -/
theorem unary {operator : String} {own : Power}
    (hrule : arithmetic.prefixRule operator = .unary own)
    (h : ReadsIn layer words tree) (hfloor : own < layer.floor)
    (hceiling : target.ceiling ≤ layer.ceiling) (hown : target.ceiling ≤ own) :
    ReadsIn target (operator :: words) (.unary operator tree) := by
  intro power rest after result _ hpull hextends
  have hoperand : Reads arithmetic own (words ++ rest) tree rest :=
    h.reads_self hfloor (Nat.le_trans hpull hceiling) (Nat.le_trans hpull hown)
  exact .unary hrule hoperand hextends

/-- An operator behind a left operand that it leaves as it is, in front of one
that is read at its right power. -/
theorem binary {operator : String} {own : Power} {associativity : Associativity}
    (hrule : arithmetic.infixRule? operator = some (.binary own associativity))
    (hjoins : target.Joins leftLayer rightLayer own associativity)
    (hleft : ReadsIn leftLayer first left)
    (hright : ReadsIn rightLayer second right) :
    ReadsIn target (first ++ operator :: second) (.binary operator left right) := by
  intro power rest after result hpower hpull hextends
  have hoperand :
      Reads arithmetic (associativity.rightPower own) (second ++ rest) right
        rest :=
    hright.reads_self hjoins.floorRight (Nat.le_trans hpull hjoins.ceilingRight)
      (Nat.le_trans hpull hjoins.ceilingOwn)
  have hown : arithmetic.pull (operator :: (second ++ rest)) = own := by
    rw [Grammar.pull_cons, Grammar.infixPower_of_infixRule? hrule]
    rfl
  have hwhole := hleft power (operator :: (second ++ rest)) after result
    (Nat.lt_of_lt_of_le hpower hjoins.floorLeft)
    (by rw [hown]; exact hjoins.ceilingLeft)
    (.binary hrule (Nat.lt_of_lt_of_le hpower hjoins.floorOwn) hoperand hextends)
  rwa [List.append_assoc, List.cons_append]

theorem conditional {condition whenTrue whenFalse : Expr}
    (hcondition : ReadsIn .sum first condition)
    (htrue : ReadsIn .expr second whenTrue)
    (hfalse : ReadsIn .expr third whenFalse) :
    ReadsIn .expr (first ++ "?" :: (second ++ ":" :: third))
      (.conditional condition whenTrue whenFalse) := by
  intro power rest after result hpower hpull hextends
  have hthird : Reads arithmetic .lowest (third ++ rest) whenFalse rest :=
    hfalse.reads_self (by decide) hpull hpull
  have hsecond :
      Reads arithmetic .lowest (second ++ ":" :: (third ++ rest)) whenTrue
        (":" :: (third ++ rest)) :=
    htrue.reads_self (by decide) (Nat.le_refl 0) (Nat.le_refl 0)
  have hwhole :=
    hcondition power ("?" :: (second ++ ":" :: (third ++ rest))) after result
      (Nat.lt_trans hpower (by decide)) (show (30 : Nat) ≤ 120 by decide)
    (.conditional (by decide) hpower hsecond hthird hextends)
  simpa only [List.append_assoc, List.cons_append] using hwhole

theorem call {callee : Expr} {arguments : List Expr}
    (hcallee : ReadsIn .suffixed first callee)
    (harguments : ∀ rest : List String,
      ReadsArguments arithmetic "," ")" (second ++ ")" :: rest) arguments
        (")" :: rest)) :
    ReadsIn .suffixed (first ++ "(" :: (second ++ [")"]))
      (.call callee arguments) := by
  intro power rest after result hpower _ hextends
  have hwhole := hcallee power ("(" :: (second ++ ")" :: rest)) after result hpower
    (show (170 : Nat) ≤ 170 by decide)
    (.call (by decide) hpower (harguments rest) hextends)
  simpa only [List.append_assoc, List.cons_append, List.nil_append] using hwhole

/-- What is read in front of something is not empty. -/
theorem head?_append (h : ReadsIn .expr words tree) (rest : List String) :
    (words ++ rest).head? = words.head? := by
  have hreads : Reads arithmetic .lowest (words ++ []) tree [] :=
    h.reads_self (by decide) (Nat.le_refl 0) (Nat.le_refl 0)
  cases words with
  | nil => exact absurd hreads.length_lt (Nat.lt_irrefl 0)
  | cons token words => rfl

end ReadsIn

mutual

/-- Words that derive a tree are read as the tree. -/
theorem Derives.readsIn {layer : Layer} {words : List String} {tree : Expr} :
    Derives layer words tree → ReadsIn layer words tree
  | .sum h => h.readsIn.looser
  | .conditional hcondition htrue hfalse =>
    .conditional hcondition.readsIn htrue.readsIn hfalse.readsIn
  | .product h => h.readsIn.looser
  | .add hoperator hleft hright =>
    .binary (Grammar.infixRule?_arithmetic_of_additive hoperator)
      Layer.joins_additive hleft.readsIn hright.readsIn
  | .power h => h.readsIn.looser
  | .multiply hoperator hleft hright =>
    .binary (Grammar.infixRule?_arithmetic_of_multiplicative hoperator)
      Layer.joins_multiplicative hleft.readsIn hright.readsIn
  | .signed h => h.readsIn.looser
  | .raise hleft hright => by
    have hrule : arithmetic.infixRule? "^" = some (.binary 140 .right) := by decide
    exact .binary hrule Layer.joins_raise hleft.readsIn hright.readsIn
  | .sign hoperator hoperand =>
    .unary (Grammar.prefixRule_arithmetic_of_sign hoperator) hoperand.readsIn
      (by decide) (by decide) (by decide)
  | .suffixed h => h.readsIn.looser
  | .primary h => h.readsIn.looser
  | .call hcallee harguments => .call hcallee.readsIn harguments.reads
  | .group h => .group h.readsIn
  | .value hplus hminus hopen =>
    .value (Grammar.prefixRule_arithmetic_eq_value_iff.mpr ⟨hplus, hminus, hopen⟩)

/-- Words that derive arguments are read as the arguments in front of what
closes them. -/
theorem DerivesArguments.reads {words : List String} {arguments : List Expr} :
    DerivesArguments words arguments → ∀ rest : List String,
      ReadsArguments arithmetic "," ")" (words ++ ")" :: rest) arguments
        (")" :: rest)
  | .none, _ => .closed rfl
  | .last hclose htree, rest => by
    have hreads := htree.readsIn
    refine .last ?_
      (hreads.reads_self (by decide) (Nat.le_refl 0) (Nat.le_refl 0)) (by simp)
    rwa [hreads.head?_append]
  | .more hclose htree hothers, rest => by
    have hreads := htree.readsIn
    rw [List.append_assoc, List.cons_append]
    refine .more ?_
      (hreads.reads_self (by decide) (Nat.le_refl 0) (Nat.le_refl 0))
      (hothers.reads rest)
    rwa [hreads.head?_append]

end

/-! ## What is read is derived -/

/-- The words derive the tree in a layer that suits the power it was read at
and what follows it. -/
def Formed (power : Power) (words : List String) (tree : Expr)
    (rest : List String) : Prop :=
  ∃ layer,
    Derives layer words tree ∧ power < layer.floor ∧
    arithmetic.pull rest ≤ layer.ceiling

namespace Formed

variable {power own : Power} {token operator : String}
  {words first second third input rest : List String} {tree left right : Expr}

/-- Where it was read tells the layer of a tree. -/
theorem derives_of_floor_le (h : Formed power words tree rest) {target : Layer}
    (hpower : target.looser.floor ≤ power) : Derives target words tree := by
  obtain ⟨layer, hderives, hfloor, -⟩ := h
  exact hderives.mono (Layer.rank_le_of_floor_lt (Nat.lt_of_le_of_lt hpower hfloor))

/-- What follows it tells the layer of a tree. -/
theorem derives_of_ceiling_lt (h : Formed power words tree rest)
    {target : Layer} (hpull : target.looser.ceiling < arithmetic.pull rest) :
    Derives target words tree := by
  obtain ⟨layer, hderives, -, hceiling⟩ := h
  exact hderives.mono
    (Layer.rank_le_of_ceiling_lt (Nat.lt_of_lt_of_le hpull hceiling))

theorem derives_expr (h : Formed power words tree rest) :
    Derives .expr words tree := by
  obtain ⟨layer, hderives, -⟩ := h
  exact hderives.toExpr

theorem primary (h : Derives .primary words tree) (hpower : power < 170)
    (rest : List String) :
    Formed power words tree rest :=
  ⟨.primary, h, hpower, Grammar.pull_arithmetic_le rest⟩

theorem unary (hrule : arithmetic.prefixRule operator = .unary own)
    (hoperand : Formed own words tree rest) (hpull : arithmetic.pull rest ≤ own)
    (hpower : power < 170) :
    Formed power (operator :: words) (.unary operator tree) rest := by
  obtain ⟨hoperator, rfl⟩ := Grammar.prefixRule_arithmetic_eq_unary hrule
  have hsigned : Derives .signed words tree :=
    hoperand.derives_of_floor_le (by decide)
  exact ⟨.signed, .sign hoperator hsigned, hpower, hpull⟩

/-- The operator tells the layer of its left operand, and the power it reads its
right operand at the layer of that. -/
theorem binary {associativity : Associativity}
    (hrule : arithmetic.infixRule? operator = some (.binary own associativity))
    (hpower : power < own) (hleft : Formed power first left (operator :: input))
    (hright : Formed (associativity.rightPower own) second right rest)
    (hpull : arithmetic.pull rest ≤ associativity.rightPower own) :
    Formed power (first ++ operator :: second) (.binary operator left right)
      rest := by
  have hown : arithmetic.pull (operator :: input) = own :=
    Grammar.infixPower_of_infixRule? hrule
  rcases Grammar.infixRule?_arithmetic_eq_binary hrule with
    ⟨hoperator, rfl, rfl⟩ | ⟨hoperator, rfl, rfl⟩ | ⟨rfl, rfl, rfl⟩
  · have hsum : Derives .sum first left :=
      hleft.derives_of_ceiling_lt (by rw [hown]; decide)
    have hproduct : Derives .product second right :=
      hright.derives_of_floor_le (by decide)
    exact ⟨.sum, .add hoperator hsum hproduct, hpower, hpull⟩
  · have hproduct : Derives .product first left :=
      hleft.derives_of_ceiling_lt (by rw [hown]; decide)
    have hpow : Derives .power second right :=
      hright.derives_of_floor_le (by decide)
    exact ⟨.product, .multiply hoperator hproduct hpow, hpower, hpull⟩
  · have hsigned : Derives .signed first left :=
      hleft.derives_of_ceiling_lt (by rw [hown]; decide)
    have hpow : Derives .power second right :=
      hright.derives_of_floor_le (by decide)
    exact ⟨.power, .raise hsigned hpow, hpower, hpull⟩

theorem conditional {separator : String} {condition whenTrue whenFalse : Expr}
    {after : List String}
    (hrule : arithmetic.infixRule? operator = some (.conditional own separator))
    (hpower : power < own)
    (hcondition : Formed power first condition (operator :: input))
    (htrue : Formed .lowest second whenTrue after)
    (hfalse : Formed .lowest third whenFalse rest)
    (hpull : arithmetic.pull rest ≤ .lowest) :
    Formed power (first ++ operator :: (second ++ separator :: third))
      (.conditional condition whenTrue whenFalse) rest := by
  obtain ⟨rfl, rfl, rfl⟩ := Grammar.infixRule?_arithmetic_eq_conditional hrule
  have hsum : Derives .sum first condition :=
    hcondition.derives_of_ceiling_lt (show (0 : Nat) < 30 by decide)
  exact ⟨.expr, .conditional hsum htrue.derives_expr hfalse.derives_expr,
    hpower, hpull⟩

theorem call {separator close : String} {callee : Expr} {arguments : List Expr}
    (hrule : arithmetic.infixRule? operator = some (.call own separator close))
    (hpower : power < 170)
    (hcallee : Formed power first callee (operator :: input))
    (harguments : DerivesArguments second arguments) (rest : List String) :
    Formed power (first ++ operator :: (second ++ [close]))
      (.call callee arguments) rest := by
  obtain ⟨rfl, rfl, rfl, rfl⟩ := Grammar.infixRule?_arithmetic_eq_call hrule
  have hsuffixed : Derives .suffixed first callee :=
    hcallee.derives_of_ceiling_lt (show (150 : Nat) < 170 by decide)
  exact ⟨.suffixed, .call hsuffixed harguments, hpower,
    Grammar.pull_arithmetic_le rest⟩

end Formed

mutual

/-- What is read as an expression derives it. -/
theorem Reads.formed {power : Power} {input rest : List String} {tree : Expr} :
    Reads arithmetic power input tree rest → power < 170 →
      ∃ words, input = words ++ rest ∧ Formed power words tree rest
  | .value hrule hextends, hpower => by
    obtain ⟨hplus, hminus, hopen⟩ :=
      Grammar.prefixRule_arithmetic_eq_value_iff.mp hrule
    exact hextends.formed hpower _ (.primary (.value hplus hminus hopen) hpower _)
  | .unary hrule hoperand hextends, hpower => by
    have hown := (Grammar.prefixRule_arithmetic_eq_unary hrule).2
    obtain ⟨words, hinput, hformed⟩ := hoperand.formed (by rw [hown]; decide)
    obtain ⟨result, hresult, htree⟩ :=
      hextends.formed hpower _ (.unary hrule hformed hoperand.pull_le hpower)
    exact ⟨result, by rw [← hresult, hinput, List.cons_append], htree⟩
  | .group hrule hinner hextends, hpower => by
    obtain ⟨words, hinput, hformed⟩ := hinner.formed (by decide)
    obtain ⟨result, hresult, htree⟩ :=
      hextends.formed hpower _ (.primary (.group hformed.derives_expr) hpower _)
    obtain ⟨rfl, rfl⟩ := Grammar.prefixRule_arithmetic_eq_group hrule
    refine ⟨result, ?_, htree⟩
    rw [← hresult, hinput]
    simp only [List.cons_append, List.append_assoc, List.nil_append]

/-- What extends a derived expression derives the extended one with it. -/
theorem Extends.formed {power : Power} {left tree : Expr}
    {input rest : List String} :
    Extends arithmetic power left input tree rest → power < 170 →
      ∀ first, Formed power first left input →
        ∃ words, first ++ input = words ++ rest ∧ Formed power words tree rest
  | .stop _, _, first, hleft => ⟨first, rfl, hleft⟩
  | .binary hrule hbinds hright hextends, hpower, first, hleft => by
    obtain ⟨second, hinput, hformed⟩ :=
      hright.formed (Grammar.rightPower_arithmetic_lt hrule)
    obtain ⟨result, hresult, htree⟩ :=
      hextends.formed hpower _ (.binary hrule hbinds hleft hformed hright.pull_le)
    refine ⟨result, ?_, htree⟩
    rw [← hresult, hinput, List.append_assoc, List.cons_append]
  | .conditional hrule hbinds htrue hfalse hextends, hpower, first, hleft => by
    obtain ⟨second, hsecond, htrue'⟩ := htrue.formed (by decide)
    obtain ⟨third, hthird, hfalse'⟩ := hfalse.formed (by decide)
    obtain ⟨result, hresult, htree⟩ :=
      hextends.formed hpower _
        (.conditional hrule hbinds hleft htrue' hfalse' hfalse.pull_le)
    refine ⟨result, ?_, htree⟩
    rw [← hresult, hsecond, hthird]
    simp only [List.append_assoc, List.cons_append]
  | .call hrule hbinds harguments hextends, hpower, first, hleft => by
    obtain ⟨-, -, hseparator, hclose⟩ := Grammar.infixRule?_arithmetic_eq_call hrule
    obtain ⟨second, hsecond, hderives⟩ := harguments.derives hseparator hclose
    obtain ⟨result, hresult, htree⟩ :=
      hextends.formed hpower _ (.call hrule hpower hleft hderives _)
    refine ⟨result, ?_, htree⟩
    rw [← hresult, hsecond]
    simp only [List.append_assoc, List.cons_append, List.nil_append]

theorem ReadsArguments.derives {separator close : String} {input rest : List String}
    {arguments : List Expr} :
    ReadsArguments arithmetic separator close input arguments rest →
      separator = "," → close = ")" →
      ∃ words, input = words ++ rest ∧ DerivesArguments words arguments
  | .closed _, _, _ => ⟨[], rfl, .none⟩
  | .last hclose hfirst _, hseparator, hcloses => by
    obtain ⟨words, hinput, hformed⟩ := hfirst.formed (by decide)
    have hderives := hformed.derives_expr
    rw [hinput, hderives.readsIn.head?_append, hcloses] at hclose
    exact ⟨words, hinput, .last hclose hderives⟩
  | .more hclose hfirst hothers, hseparator, hcloses => by
    obtain ⟨first, hinput, hformed⟩ := hfirst.formed (by decide)
    obtain ⟨second, hmiddle, harguments⟩ := hothers.derives hseparator hcloses
    have hderives := hformed.derives_expr
    rw [hinput, hderives.readsIn.head?_append, hcloses] at hclose
    refine ⟨first ++ "," :: second, ?_, .more hclose hderives harguments⟩
    rw [hinput, hmiddle, hseparator, List.append_assoc, List.cons_append]

end

/-! ## Whole sources -/

/-- A tree is read from words with nothing left exactly if the words derive it. -/
theorem reads_lowest_iff {words : List String} {tree : Expr} :
    Reads arithmetic .lowest words tree [] ↔ Derives .expr words tree := by
  constructor
  · intro hreads
    obtain ⟨all, hwords, hformed⟩ := hreads.formed (by decide)
    rw [hwords, List.append_nil]
    exact hformed.derives_expr
  · intro hderives
    have hreads : Reads arithmetic .lowest (words ++ []) tree [] :=
      hderives.readsIn.reads_self (by decide) (Nat.le_refl 0) (Nat.le_refl 0)
    rwa [List.append_nil] at hreads

/-- A source is parsed as a tree exactly if its tokens derive the tree. -/
theorem parse_eq_ok_iff {source : String} {file : Option String} {tree : Expr} :
    parse source file = .ok tree ↔
    Derives .expr ((tokenize source file).map Token.text) tree := by
  rw [parse, parseWith_eq_ok_iff, reads_lowest_iff]

/-- Parsing recognizes the language and builds its trees: the tokens of a source
derive the tree that it is parsed as and no other, and a source whose tokens
derive none is refused. -/
theorem parse_eq_ok_iff_derives_expr (source : String) (file : Option String) :
    (∀ tree,
      parse source file = .ok tree ↔
      Derives .expr ((tokenize source file).map Token.text) tree) ∧
    (∀ tree other, Derives .expr ((tokenize source file).map Token.text) tree →
      Derives .expr ((tokenize source file).map Token.text) other → tree = other) ∧
    ((∀ tree, ¬ Derives .expr ((tokenize source file).map Token.text) tree) →
      ∃ error, parse source file = .error error) := by
  refine ⟨fun tree => parse_eq_ok_iff, ?_, ?_⟩
  · intro tree other htree hother
    rw [← parse_eq_ok_iff] at htree hother
    exact Except.ok.inj (htree.symm.trans hother)
  · intro hnone
    cases hparse : parse source file with
    | error error => exact ⟨error, rfl⟩
    | ok tree => exact absurd (parse_eq_ok_iff.mp hparse) (hnone tree)

end Pratt
