import IronCondor.Engine.Ledger

/-! # Clock and attribution substrate

The simulation clock, and the per-step, per-leg inputs the post-run attribution consumes. -/
namespace IronCondor

open Checked

/-- Simulated time moves only forward; the first timestamp is checked against `i64::MIN`. -/
structure SimClock where
  step : StepIndex
  ts : SimTime

namespace SimClock

def new : SimClock := ⟨⟨0, u32.contains_zero⟩, ⟨i64.min, by decide⟩⟩

def advanceTo (clock : SimClock) (ts : SimTime) (step : StepIndex) : Outcome SimClock := do
  require (clock.ts.value < ts.value) (.DataOutOfOrder step.value ts.value clock.ts.value)
  require (clock.step.value ≤ step.value) (.Data (s!"step index regressed: step {step.value} " ++
    s!"is before the previous step {clock.step.value} at ts {ts.value}"))
  return ⟨step, ts⟩

end SimClock

structure LegAttributionSample where
  priorGreeks : Option UnitGreeks
  currentIv : Decimal
  quantity : Quantity
  contractMultiplier : Bounded u32
  side : Side
deriving DecidableEq

structure StepAttributionScalars where
  step : StepIndex
  ts : SimTime
  priorTs : SimTime
  underlyingCents : PriceCents
  priorUnderlyingCents : PriceCents
  spreadCaptureCents : Cents
  feesCents : Cents
  stepPnlCents : Cents
  legCount : Nat
deriving DecidableEq

structure AttributionCollector where
  steps : List StepAttributionScalars
  legs : List LegAttributionSample
  prevTs : Option SimTime
  prevUnderlying : Option PriceCents

namespace AttributionCollector

def empty : AttributionCollector := ⟨[], [], none, none⟩

/-- A leg's sample; an absent quote carries the prior implied volatility forward. -/
def sample (snapshot : ChainSnapshot) (mark : PositionMark) : LegAttributionSample where
  priorGreeks := mark.priorGreeks
  currentIv := ((snapshot.quotes[mark.contract]?.map QuoteView.impliedVolatility).or
    (mark.priorGreeks.map UnitGreeks.impliedVolatility)).getD ⟨0, 0⟩
  quantity := mark.quantity
  contractMultiplier := mark.contractMultiplier
  side := mark.side

def collect (c : AttributionCollector) (snapshot : ChainSnapshot) (marks : List PositionMark)
    (spreadCapture fees stepPnl : Cents) : AttributionCollector where
  legs := c.legs ++ marks.map (sample snapshot)
  steps := c.steps ++ [
    { step := snapshot.step
      ts := snapshot.ts
      priorTs := c.prevTs.getD snapshot.ts
      underlyingCents := snapshot.underlyingPrice
      priorUnderlyingCents := c.prevUnderlying.getD snapshot.underlyingPrice
      spreadCaptureCents := spreadCapture
      feesCents := fees
      stepPnlCents := stepPnl
      legCount := marks.length }]
  prevTs := some snapshot.ts
  prevUnderlying := some snapshot.underlyingPrice

end AttributionCollector

end IronCondor
