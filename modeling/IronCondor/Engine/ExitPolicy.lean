import IronCondor.Config
import IronCondor.Engine.TradeLog

/-! # Exit policies

The decision whether an open leg is to be closed. The crate composes the policies itself and
leaves the scalar leaves to the upstream check, which the proofs leave open. -/
namespace IronCondor

open Checked

/-- The upstream amount, which is never negative. -/
structure Positive where
  toDec : Decimal
  nonneg : toDec.isNegative = false

namespace Positive

def zero : Positive := ⟨.ofInt 0, rfl⟩

def newDecimal (d : Decimal) : Option Positive :=
  if h : d.isNegative = false then some ⟨d, h⟩ else none

end Positive

/-- The exact dollar value of a price. -/
def toDecimalDollars (price : PriceCents) : Decimal := ⟨price.value, 2⟩

@[simp] theorem isNegative_toDecimalDollars (price : PriceCents) :
    (toDecimalDollars price).isNegative = false :=
  decide_eq_false (not_lt.2 price.nonneg)

/-- The price of a dollar amount, rounded to whole cents with midpoints to even. -/
def fromDecimalDollars [DecimalArith] (d : Decimal) : Outcome PriceCents := do
  require (¬ d.isNegative) (.Conversion
    s!"negative dollar amount {d.mantissa}e-{d.scale} cannot be a price")
  let cents ← okOr (DecimalArith.checkedMul d (.ofInt 100)) .ArithmeticOverflow
  narrow u64 (.Conversion s!"dollar amount {d.mantissa}e-{d.scale} out of range for u64 cents")
    cents.roundHalfEven

/-- `positive_from_price`. -/
def positiveFromPrice (field : String) (price : PriceCents) : Outcome Positive :=
  okOr (Positive.newDecimal (toDecimalDollars price))
    (.Conversion s!"{field} {price.value} is not a valid positive dollar amount")

theorem positiveFromPrice_eq_ok (field : String) (price : PriceCents) :
    ∃ p, positiveFromPrice field price = .ok p ∧ p.toDec = toDecimalDollars price :=
  ⟨⟨toDecimalDollars price, isNegative_toDecimalDollars price⟩, by
    simp [positiveFromPrice, Positive.newDecimal, okOr], rfl⟩

/-- The upstream exit policies; `Other` stands for the leaves the crate never names. -/
inductive ExitPolicy where
  | ProfitPercent (percent : Decimal)
  | LossPercent (percent : Decimal)
  | FixedPrice (price : Positive)
  | MinPrice (price : Positive)
  | MaxPrice (price : Positive)
  | TimeSteps (steps : Nat)
  | DaysToExpiration (days : Positive)
  | DeltaThreshold (delta : Decimal)
  | Expiration
  | And (policies : List ExitPolicy)
  | Or (policies : List ExitPolicy)
  | Other (leaf : String)

/-- The upstream leaf check, and the written form of a policy. -/
class ExitChecks where
  checkExitPolicy : (policy : ExitPolicy) → (initialPremium currentPremium : Decimal) →
    (stepNum : Nat) → (daysLeft underlyingPrice : Positive) → (isLong : Bool) → Option ExitReason
  display : ExitPolicy → String

section Decision

variable [ExitChecks] (initialPremium currentPremium : Decimal) (stepNum : Nat)
  (daysLeft underlyingPrice : Positive) (isLong : Bool)

mutual

/-- `policy_triggered`: an expiry triggers when no day is left, a delta threshold never does. -/
def policyTriggered : ExitPolicy → Bool
  | .And policies => allTriggered policies
  | .Or policies => anyTriggered policies
  | .Expiration => daysLeft.toDec.mantissa = 0
  | .DeltaThreshold _ => false
  | leaf => (ExitChecks.checkExitPolicy leaf initialPremium currentPremium stepNum daysLeft
      underlyingPrice isLong).isSome

def allTriggered : List ExitPolicy → Bool
  | [] => true
  | policy :: policies => policyTriggered policy && allTriggered policies

def anyTriggered : List ExitPolicy → Bool
  | [] => false
  | policy :: policies => policyTriggered policy || anyTriggered policies

end

end Decision

mutual

/-- `policy_reads_inner`: whether the policy reads the repriced upstream strategy. -/
def policyReadsInner : ExitPolicy → Bool
  | .And policies => anyReadsInner policies
  | .Or policies => anyReadsInner policies
  | _ => false

def anyReadsInner : List ExitPolicy → Bool
  | [] => false
  | policy :: policies => policyReadsInner policy || anyReadsInner policies

end

mutual

/-- No policy reads the repriced strategy, however it is composed. -/
@[simp] theorem policyReadsInner_eq_false : ∀ policy, policyReadsInner policy = false
  | .And policies => anyReadsInner_eq_false policies
  | .Or policies => anyReadsInner_eq_false policies
  | .ProfitPercent _ | .LossPercent _ | .FixedPrice _ | .MinPrice _ | .MaxPrice _ | .TimeSteps _
  | .DaysToExpiration _ | .DeltaThreshold _ | .Expiration | .Other _ => by simp [policyReadsInner]

theorem anyReadsInner_eq_false : ∀ policies, anyReadsInner policies = false
  | [] => rfl
  | policy :: policies => by
    simp [anyReadsInner, policyReadsInner_eq_false policy, anyReadsInner_eq_false policies]

end

/-- `exit_policy_to_reason`: what the trade log records of a close the policy triggered. -/
def exitPolicyToReason [ExitChecks] : ExitPolicy → ExitReason
  | .ProfitPercent _ => .TargetReached
  | .LossPercent _ => .StopLoss
  | .Expiration | .DaysToExpiration _ => .Expiration
  | .TimeSteps _ => .Other "time_steps"
  | .MinPrice _ => .StopLoss
  | .MaxPrice _ | .FixedPrice _ => .TargetReached
  | other => .Other (ExitChecks.display other)

end IronCondor
