import IronCondor.Config
import IronCondor.Engine.Substrate

/-! # Attribution by Greek

The post-run decomposition of every step's mark-to-market result into its Greek terms, the
spread capture and the fees, closed by an exact residual. -/
namespace IronCondor

open Checked ExceptRun

structure GreeksAttributionRow where
  step : StepIndex
  ts : SimTime
  thetaPnlCents : Cents
  deltaPnlCents : Cents
  vegaPnlCents : Cents
  spreadCaptureCents : Cents
  feesCents : Cents
  residualCents : Cents
deriving DecidableEq

/-- The terms of a row, added up as the identity adds them. -/
def GreeksAttributionRow.total (row : GreeksAttributionRow) : Int :=
  row.thetaPnlCents.value + row.deltaPnlCents.value + row.vegaPnlCents.value +
    row.spreadCaptureCents.value - row.feesCents.value + row.residualCents.value

section Terms

variable [DecimalArith] [DecimalSums]

/-- Nanoseconds in one calendar day. -/
def nanosPerDay : Int := 86400000000000

def dollarsToCents : Decimal := .ofInt 100

def ivDecimalToPp : Decimal := .ofInt 100

def mul3 (a b c : Decimal) : Outcome Decimal :=
  okOr ((DecimalArith.checkedMul a b).bind (DecimalArith.checkedMul · c)) .ArithmeticOverflow

def mul4 (a b c d : Decimal) : Outcome Decimal := do
  let abc ← mul3 a b c
  okOr (DecimalArith.checkedMul abc d) .ArithmeticOverflow

/-- The elapsed calendar days since the previous snapshot. -/
def stepDeltaTDays (step : StepAttributionScalars) : Outcome Decimal := do
  let diff ← checked i64 (step.ts.value - step.priorTs.value)
  okOr (DecimalArith.checkedDiv (.ofInt diff.value) (.ofInt nanosPerDay)) .ArithmeticOverflow

/-- The move of the underlying in cents. -/
def stepDeltaSCents (step : StepAttributionScalars) : Outcome Decimal := do
  let now ← checked i64 step.underlyingCents.value
  let prior ← checked i64 step.priorUnderlyingCents.value
  let diff ← checked i64 (now.value - prior.value)
  return .ofInt diff.value

/-- The move of the implied volatility of a leg in percentage points. -/
def legDeltaIvPp (leg : LegAttributionSample) (greeks : UnitGreeks) : Outcome Decimal :=
  okOr ((DecimalSums.checkedSub leg.currentIv greeks.impliedVolatility).bind
    (DecimalArith.checkedMul · ivDecimalToPp)) .ArithmeticOverflow

/-- The one weight of a leg: its quantity, multiplier and side. -/
def signedWeight (leg : LegAttributionSample) : Outcome Decimal := do
  let weight ← checked u64 (leg.quantity.value * leg.contractMultiplier.value)
  return match leg.side with
    | .Long => .ofInt weight.value
    | .Short => .ofInt (-weight.value)

/-- The accumulated theta, delta and vega terms of a step. -/
structure GreekTerms where
  theta : Decimal
  delta : Decimal
  vega : Decimal

/-- Add the terms of one leg; a leg without prior Greeks adds nothing. -/
def GreekTerms.addLeg (deltaTDays deltaSCents : Decimal) (terms : GreekTerms)
    (leg : LegAttributionSample) : Outcome GreekTerms :=
  match leg.priorGreeks with
  | none => .ok terms
  | some greeks => do
    let weight ← signedWeight leg
    let thetaLeg ← mul4 greeks.theta deltaTDays dollarsToCents weight
    let theta ← okOr (DecimalSums.checkedAdd terms.theta thetaLeg) .ArithmeticOverflow
    let deltaLeg ← mul3 greeks.delta deltaSCents weight
    let delta ← okOr (DecimalSums.checkedAdd terms.delta deltaLeg) .ArithmeticOverflow
    let deltaIvPp ← legDeltaIvPp leg greeks
    let vegaLeg ← mul4 greeks.vega deltaIvPp dollarsToCents weight
    let vega ← okOr (DecimalSums.checkedAdd terms.vega vegaLeg) .ArithmeticOverflow
    return ⟨theta, delta, vega⟩

/-- Rounding to whole cents, midpoints to the nearest even one. -/
def roundToCents (value : Decimal) : Outcome Cents := checked i64 value.roundHalfEven

/-- The row of one step. The rounding of the Greek terms is a parameter; the source rounds with
`roundToCents`. -/
def attributeStep (round : Decimal → Outcome Cents) (step : StepAttributionScalars)
    (legs : List LegAttributionSample) : Outcome GreeksAttributionRow := do
  let deltaTDays ← stepDeltaTDays step
  let deltaSCents ← stepDeltaSCents step
  let terms ← legs.foldlM (GreekTerms.addLeg deltaTDays deltaSCents) ⟨⟨0, 0⟩, ⟨0, 0⟩, ⟨0, 0⟩⟩
  let thetaCents ← round terms.theta
  let deltaCents ← round terms.delta
  let vegaCents ← round terms.vega
  let attributed ← checked i64 (thetaCents.value + deltaCents.value)
  let attributed ← checked i64 (attributed.value + vegaCents.value)
  let attributed ← checked i64 (attributed.value + step.spreadCaptureCents.value)
  let attributed ← checked i64 (attributed.value - step.feesCents.value)
  let residualCents ← checked i64 (step.stepPnlCents.value - attributed.value)
  return {
    step := step.step
    ts := step.ts
    thetaPnlCents := thetaCents
    deltaPnlCents := deltaCents
    vegaPnlCents := vegaCents
    spreadCaptureCents := step.spreadCaptureCents
    feesCents := step.feesCents
    residualCents }

/-- One step of the walk over the flat leg buffer, with the rows so far and the offset. -/
def attributeNext (round : Decimal → Outcome Cents) (legs : List LegAttributionSample)
    (acc : List GreeksAttributionRow × Nat) (step : StepAttributionScalars) :
    Outcome (List GreeksAttributionRow × Nat) := do
  let (rows, offset) := acc
  let stop := offset + step.legCount
  require (stop ≤ legs.length) (.Bundle
    (s!"attribution substrate leg slice {offset}..{stop} is out of range for step " ++
      s!"{step.step.value}"))
  let row ← attributeStep round step ((legs.drop offset).take step.legCount)
  return (rows ++ [row], stop)

/-- `attribute`: one row per step, in step order. -/
def attributeSubstrate (round : Decimal → Outcome Cents) (steps : List StepAttributionScalars)
    (legs : List LegAttributionSample) : Outcome (List GreeksAttributionRow) := do
  let (rows, _) ← steps.foldlM (attributeNext round legs) ([], 0)
  return rows

end Terms

end IronCondor
