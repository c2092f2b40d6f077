import Pratt.Proofs.Arithmetic

set_option autoImplicit false

/-!
# Open and closed brackets

Where an operand may stand, `)` is a value like any other and closes nothing.
What a token means is told by the tokens in front of it, and a reader that knows
three phases (`Phase`) can tell it: it needs no stack, since only the number of
brackets that are still open grows.

Words that derive a tree close all brackets that they open (`Derives.leads`).
Words that close more brackets than they open derive nothing, whatever
follows inside them.
-/

namespace Pratt

/-- What the next token may be. -/
inductive Phase where
  /-- The start of an expression. -/
  | operand
  /-- The start of an argument, or the bracket behind the arguments. -/
  | argument
  /-- What stands behind an expression. -/
  | operator
  deriving DecidableEq, Repr, Inhabited

namespace Phase

/-- The phase behind a token. -/
def next : Phase → String → Phase
  | .operand, token | .argument, token =>
    if token = "(" ∨ token = "+" ∨ token = "-" then .operand else .operator
  | .operator, token =>
    if token = ")" then .operator
    else if token = "(" ∨ token = "," then .argument
    else .operand

/-- The number of brackets that a token opens. It is negative if the token
closes one. -/
def opened : Phase → String → Int
  | .operand, token => if token = "(" then 1 else 0
  | .argument, token | .operator, token =>
    if token = "(" then 1 else if token = ")" then -1 else 0

/-- The phase behind some words, and the number of brackets that they leave
open. -/
def run : Phase → List String → Phase × Int
  | phase, [] => (phase, 0)
  | phase, token :: words =>
    let after := run (phase.next token) words
    (after.1, phase.opened token + after.2)

/-- In all phases, `(` opens a bracket. -/
theorem opened_open (phase : Phase) : phase.opened "(" = 1 := by
  cases phase <;> rfl

/-- In all phases but one, `)` closes a bracket. -/
theorem close_of_ne_operand {phase : Phase} (h : phase ≠ .operand) :
    phase.next ")" = .operator ∧ phase.opened ")" = -1 := by
  cases phase with
  | operand => exact absurd rfl h
  | argument => exact ⟨rfl, rfl⟩
  | operator => exact ⟨rfl, rfl⟩

end Phase

/-- The words lead from one phase to another and leave so many brackets open. -/
def Leads (words : List String) (start stop : Phase) (depth : Int) : Prop :=
  start.run words = (stop, depth)

namespace Leads

variable {first second words : List String} {start middle stop : Phase}
  {depth other : Int} {token : String}

theorem nil (phase : Phase) : Leads [] phase phase 0 := rfl

theorem cons (h : Leads words (start.next token) stop depth) :
    Leads (token :: words) start stop (start.opened token + depth) := by
  unfold Leads at h ⊢
  rw [Phase.run, h]

theorem single (phase : Phase) (token : String) :
    Leads [token] phase (phase.next token) (phase.opened token) := by
  have h := (nil (phase.next token)).cons
  rwa [Int.add_zero] at h

theorem append (hfirst : Leads first start middle depth)
    (hsecond : Leads second middle stop other) :
    Leads (first ++ second) start stop (depth + other) := by
  induction first generalizing start depth with
  | nil =>
    obtain ⟨rfl, rfl⟩ := Prod.mk.inj hfirst
    rwa [Int.zero_add]
  | cons token first ih =>
    obtain ⟨hmiddle, hdepth⟩ := Prod.mk.inj hfirst
    have htail :
        Leads first (start.next token) middle
          ((start.next token).run first).2 :=
      Prod.ext hmiddle rfl
    have hwhole := (ih htail).cons
    rwa [← Int.add_assoc, hdepth] at hwhole

/-- The words tell how many brackets they leave open. -/
theorem depth_unique {phase : Phase} (h : Leads words start stop depth)
    (h' : Leads words start phase other) :
    depth = other :=
  congrArg Prod.snd (h.symm.trans h')

/-- A token that opens no bracket and does not end an expression leaves
the depth as it is. -/
theorem cons_of_operand (hnext : start.next token = .operand)
    (hopened : start.opened token = 0) (h : Leads words .operand stop depth) :
    Leads (token :: words) start stop depth := by
  rw [← hnext] at h
  have hwhole := h.cons
  rwa [hopened, Int.zero_add] at hwhole

theorem between (hnext : Phase.operator.next token = .operand)
    (hopened : Phase.operator.opened token = 0)
    (hfirst : Leads first .operand .operator depth)
    (hsecond : Leads second .operand .operator other) :
    Leads (first ++ token :: second) .operand .operator (depth + other) :=
  hfirst.append (cons_of_operand hnext hopened hsecond)

/-- A token that is a value is all of an expression. -/
theorem value (hplus : token ≠ "+") (hminus : token ≠ "-") (hopen : token ≠ "(") :
    Leads [token] .operand .operator 0 := by
  have h := single .operand token
  rwa [Phase.next, Phase.opened, if_neg (by simp [hplus, hminus, hopen]),
    if_neg hopen] at h

/-- A bracket is closed by the one behind what it encloses, unless an operand is
still to come there. -/
theorem enclose (h : Leads words (start.next "(") stop depth)
    (hstop : stop ≠ .operand) :
    Leads ("(" :: (words ++ [")"])) start .operator depth := by
  obtain ⟨hnext, hclosed⟩ := Phase.close_of_ne_operand hstop
  have hclose := single stop ")"
  rw [hnext, hclosed] at hclose
  have hwhole := (h.append hclose).cons
  rwa [Phase.opened_open, Int.add_left_comm, Int.add_right_neg,
    Int.add_zero] at hwhole

theorem call (hfirst : Leads first .operand .operator depth)
    (hsecond : Leads second .argument stop other) (hstop : stop ≠ .operand) :
    Leads (first ++ "(" :: (second ++ [")"])) .operand .operator (depth + other) :=
  hfirst.append (enclose hsecond hstop)

theorem more (hfirst : Leads first .argument .operator depth)
    (hsecond : Leads second .argument stop other) :
    Leads (first ++ "," :: second) .argument stop (depth + other) := by
  have hcomma : Leads ("," :: second) .operator stop (0 + other) := cons hsecond
  rw [Int.zero_add] at hcomma
  exact hfirst.append hcomma

/-- An argument is an expression, except that `)` in front of it closes the
call and is no value. -/
theorem argument (h : Leads words .operand .operator depth) :
    Leads words .argument .operator
      (if words.head? = some ")" then depth - 1 else depth) := by
  cases words with
  | nil => cases h
  | cons token words =>
    obtain ⟨hstop, hdepth⟩ := Prod.mk.inj h
    refine Prod.ext hstop ?_
    rw [← hdepth]
    by_cases hclose : token = ")"
    · subst hclose
      exact (Int.add_comm _ _).trans (congrArg (· - 1) (Int.zero_add _).symm)
    · rw [if_neg (by simpa using hclose)]
      simp only [Phase.run, Phase.next, Phase.opened, if_neg hclose]

end Leads

mutual

/-- Words that derive a tree close what they open. -/
theorem Derives.leads {layer : Layer} {words : List String} {tree : Expr} :
    Derives layer words tree → Leads words .operand .operator 0
  | .sum h => h.leads
  | .conditional hcondition htrue hfalse =>
    hcondition.leads.between rfl rfl (htrue.leads.between rfl rfl hfalse.leads)
  | .product h => h.leads
  | .add hoperator hleft hright => by
    rcases hoperator with rfl | rfl
    · exact hleft.leads.between rfl rfl hright.leads
    · exact hleft.leads.between rfl rfl hright.leads
  | .power h => h.leads
  | .multiply hoperator hleft hright => by
    rcases hoperator with rfl | rfl
    · exact hleft.leads.between rfl rfl hright.leads
    · exact hleft.leads.between rfl rfl hright.leads
  | .signed h => h.leads
  | .raise hleft hright => hleft.leads.between rfl rfl hright.leads
  | .sign hoperator hoperand => by
    rcases hoperator with rfl | rfl
    · exact hoperand.leads.cons_of_operand rfl rfl
    · exact hoperand.leads.cons_of_operand rfl rfl
  | .suffixed h => h.leads
  | .primary h => h.leads
  | .call hcallee harguments => by
    obtain ⟨stop, hstop, hleads⟩ := harguments.leads
    exact hcallee.leads.call hleads hstop
  | .group h => h.leads.enclose nofun
  | .value hplus hminus hopen => Leads.value hplus hminus hopen

/-- Words that derive arguments close what they open. -/
theorem DerivesArguments.leads {words : List String} {arguments : List Expr} :
    DerivesArguments words arguments →
    ∃ stop, stop ≠ .operand ∧ Leads words .argument stop 0
  | .none => ⟨.argument, nofun, Leads.nil .argument⟩
  | .last hclose htree => by
    have hleads := htree.leads.argument
    rw [if_neg hclose] at hleads
    exact ⟨.operator, nofun, hleads⟩
  | .more hclose htree hothers => by
    have hfirst := htree.leads.argument
    rw [if_neg hclose] at hfirst
    obtain ⟨stop, hstop, hleads⟩ := hothers.leads
    exact ⟨stop, hstop, hfirst.more hleads⟩

end

end Pratt
