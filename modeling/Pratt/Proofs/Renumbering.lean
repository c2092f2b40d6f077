import Mathlib.Order.Monotone.Basic
import Pratt.Proofs.Alike

set_option autoImplicit false

/-!
# Only the order of powers matters

The powers of a grammar may be renumbered: spread out, moved up or pressed
together, as long as their order is kept and 0 stays 0. Nothing that is parsed
changes (`parseWith_mapPower`).

A renumbering does not keep powers that are one step weaker, at which
operators that group to the right read their operands. But of a power no more
than its comparisons with the powers of the grammar is ever used
(`Grammar.Weighs`), and these are kept.
-/

namespace Pratt

/-! ## Grammars with other powers -/

/-- The table with all values replaced. -/
def Table.map {α β : Type} (f : α → β) (table : Table α) : Table β :=
  ⟨table.entries.map fun entry => (entry.1, f entry.2),
    List.pairwise_map.mpr table.sorted⟩

theorem Table.lookup_map {α β : Type} (f : α → β) (entries : List (String × α))
    (key : String) :
    (entries.map fun entry => (entry.1, f entry.2)).lookup key =
      (entries.lookup key).map f := by
  induction entries with
  | nil => rfl
  | cons entry entries ih =>
    simp only [List.map_cons, lookup_cons_eq_ite, ih]
    split <;> rfl

theorem Table.find?_map {α β : Type} (f : α → β) (table : Table α) (key : String) :
    (table.map f).find? key = (table.find? key).map f :=
  lookup_map f table.entries key

theorem Table.mem_entries_of_find? {α : Type} {table : Table α} {key : String}
    {value : α} (h : table.find? key = some value) :
    (key, value) ∈ table.entries := by
  obtain ⟨before, behind, hentries, -⟩ := List.lookup_eq_some_iff.mp h
  rw [hentries]
  exact List.mem_append_right _ List.mem_cons_self

/-- The rule with its power replaced. -/
def PrefixRule.mapPower (f : Power → Power) : PrefixRule → PrefixRule
  | .value => .value
  | .unary power => .unary (f power)
  | .group close => .group close

/-- The rule with its power replaced. -/
def InfixRule.mapPower (f : Power → Power) : InfixRule → InfixRule
  | .binary power associativity => .binary (f power) associativity
  | .conditional power separator => .conditional (f power) separator
  | .call power separator close => .call (f power) separator close

@[simp] theorem InfixRule.power_mapPower (f : Power → Power) (rule : InfixRule) :
    (rule.mapPower f).power = f rule.power := by
  cases rule <;> rfl

/-- The powers of a rule: that of the operand of an operator in front of it. -/
def PrefixRule.powers : PrefixRule → List Power
  | .value | .group _ => []
  | .unary power => [power]

namespace Grammar

/-- The grammar with all powers replaced. -/
def mapPower (f : Power → Power) (g : Grammar) : Grammar where
  prefixRules := g.prefixRules.map (PrefixRule.mapPower f)
  infixRules := g.infixRules.map (InfixRule.mapPower f)
  terminators := g.terminators

/-- The powers that occur in a grammar. -/
def powers (g : Grammar) : List Power :=
  (g.prefixRules.entries.flatMap fun entry => entry.2.powers) ++
    g.infixRules.entries.map fun entry => entry.2.power

variable {g : Grammar}

theorem prefixRule_mapPower (f : Power → Power) (g : Grammar) (word : String) :
    (g.mapPower f).prefixRule word = (g.prefixRule word).mapPower f := by
  unfold prefixRule mapPower
  rw [Table.find?_map]
  cases g.prefixRules.find? word <;> rfl

theorem infixRule?_mapPower (f : Power → Power) (g : Grammar) (word : String) :
    (g.mapPower f).infixRule? word =
      (g.infixRule? word).map (InfixRule.mapPower f) :=
  Table.find?_map (InfixRule.mapPower f) g.infixRules word

theorem mem_powers_of_prefixRule {word : String} {power : Power}
    (h : g.prefixRule word = .unary power) :
    power ∈ g.powers := by
  unfold prefixRule at h
  cases hfind : g.prefixRules.find? word with
  | none => simp [hfind] at h
  | some rule =>
    obtain rfl : rule = .unary power := by simpa [hfind] using h
    refine List.mem_append_left _
      (List.mem_flatMap.mpr ⟨_, Table.mem_entries_of_find? hfind, ?_⟩)
    exact List.mem_singleton_self power

theorem mem_powers_of_infixRule? {word : String} {rule : InfixRule}
    (h : g.infixRule? word = some rule) :
    rule.power ∈ g.powers :=
  List.mem_append_right _ (List.mem_map.mpr ⟨_, Table.mem_entries_of_find? h, rfl⟩)

/-! ## Powers that weigh the same -/

end Grammar

/-- One step below a power is everything from the power upwards, 0 excepted. -/
theorem Power.weaker_lt_iff_le_and_lt {power own : Nat} :
    Power.weaker power < own ↔ power ≤ own ∧ Power.lowest < own := by
  change power - 1 < own ↔ power ≤ own ∧ 0 < own
  omega

namespace Grammar

variable {g : Grammar}

/-- Expressions that are read at one of the powers, with the one or the other
grammar, go on behind the same rules. -/
def Weighs (g : Grammar) (f : Power → Power) (power power' : Power) : Prop :=
  ∀ own ∈ g.powers, power < own ↔ power' < f own

variable {f : Power → Power}

/-- The order of the powers of a grammar is kept, and 0 stays 0. -/
structure Renumbers (g : Grammar) (f : Power → Power) : Prop where
  lowest : f .lowest = .lowest
  increasing : StrictMonoOn f {power | power ∈ Power.lowest :: g.powers}

theorem Renumbers.weighs (h : g.Renumbers f) {power : Power}
    (hpower : power ∈ Power.lowest :: g.powers) :
    g.Weighs f power (f power) := by
  intro own hown
  exact (h.increasing.lt_iff_lt hpower (List.mem_cons_of_mem _ hown)).symm

/-- Where an operator groups to the right, its operand goes on behind operators
of the same power, too, also if the power is 0. -/
theorem Renumbers.weighs_rightPower (h : g.Renumbers f) {power : Power}
    (hpower : power ∈ g.powers) (associativity : Associativity) :
    g.Weighs f (associativity.rightPower power)
      (associativity.rightPower (f power)) := by
  have hmem : power ∈ Power.lowest :: g.powers := List.mem_cons_of_mem _ hpower
  cases associativity with
  | left => exact h.weighs hmem
  | right =>
    intro own hown
    have hmem' : own ∈ Power.lowest :: g.powers := List.mem_cons_of_mem _ hown
    have hle : f power ≤ f own ↔ power ≤ own := h.increasing.le_iff_le hmem hmem'
    have hpos : f .lowest < f own ↔ .lowest < own :=
      h.increasing.lt_iff_lt List.mem_cons_self hmem'
    rw [h.lowest] at hpos
    unfold Associativity.rightPower
    rw [Power.weaker_lt_iff_le_and_lt, Power.weaker_lt_iff_le_and_lt, hle, hpos]

theorem Renumbers.alike (h : g.Renumbers f) (words : List String) :
    g.Alike (g.mapPower f) words (g.Weighs f) where
  lowest := by simpa only [h.lowest] using h.weighs List.mem_cons_self
  starts word _ := by
    rw [prefixRule_mapPower]
    cases hrule : g.prefixRule word with
    | value => exact .value
    | unary power =>
      exact .unary (h.weighs
        (List.mem_cons_of_mem _ (mem_powers_of_prefixRule hrule)))
    | group close => exact .group close
  continues word _ power power' hweighs := by
    unfold continuation?
    rw [infixRule?_mapPower]
    cases hrule : g.infixRule? word with
    | none => exact .none
    | some rule =>
      have hmem := mem_powers_of_infixRule? hrule
      have hiff := hweighs rule.power hmem
      simp only [Option.map_some, Option.filter_some, InfixRule.power_mapPower,
        decide_eq_true_eq, ← hiff]
      split
      · refine .some ?_
        cases rule with
        | binary own associativity =>
          exact .binary (h.weighs_rightPower hmem associativity)
        | conditional own separator => exact .conditional own (f own) separator
        | call own separator close => exact .call own (f own) separator close
      · exact .none

end Grammar

/-! ## Parsing with other powers -/

/-- Powers may be renumbered freely as long as their order is kept, and which of
them are 0: every source is parsed as the same tree, or refused with the same
error at the same place. -/
theorem parseWith_mapPower {g : Grammar} {f : Power → Power} (h : g.Renumbers f)
    (source : String) (file : Option String) :
    parseWith (g.mapPower f) source file = parseWith g source file := by
  have hagree :=
    (h.alike (Scanner.ofSource source file).texts).agree_whole fun _ _ => rfl
  unfold parseWith Parser.outcome
  rw [hagree.same (List.Subset.refl _)]

/-- The powers of arithmetic pressed together at the bottom, and that of calls
at the top of 32 bits. -/
def pressed : Power → Power
  | 0 => 0
  | 30 => 1
  | 120 => 2
  | 130 => 3
  | 140 => 4
  | 150 => 5
  | _ => 0xFFFFFFFF

theorem renumbers_pressed : Grammar.arithmetic.Renumbers pressed where
  lowest := rfl
  increasing := by
    have hincreasing : ∀ power ∈ Power.lowest :: Grammar.arithmetic.powers,
        ∀ own ∈ Power.lowest :: Grammar.arithmetic.powers,
          power < own → pressed power < pressed own := by
      decide
    intro power hpower own hown
    exact hincreasing power hpower own hown

/-- Operators that group to the right and signs next to them, with powers one
apart. -/
theorem parseWith_pressed :
    Grammar.arithmetic.Renumbers pressed ∧
      parseWith (Grammar.arithmetic.mapPower pressed)
        "a ^ -b ^ f(c * d) ? x : y" none =
        .ok (.conditional
          (.binary "^" (.value "a") (.binary "^" (.unary "-" (.value "b"))
            (.call (.value "f") [.binary "*" (.value "c") (.value "d")])))
          (.value "x") (.value "y")) := by
  refine ⟨renumbers_pressed, ?_⟩
  rw [parseWith_mapPower renumbers_pressed]
  decide +kernel

end Pratt
