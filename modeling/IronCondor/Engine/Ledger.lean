import IronCondor.Domain.Execution

/-! # The mark-to-market ledger

Cash moves only in `applyFill`; `settle` re-marks the open legs and emits the equity point
of the step. -/
namespace IronCondor

open Checked ExceptRun

/-- One equity point per step. The drawdown is the exact ratio; the source rounds it to a
float. -/
structure EquityPoint where
  step : StepIndex
  ts : SimTime
  cashCents : Cents
  positionValueCents : Cents
  equityCents : Cents
  drawdown : ℚ
deriving DecidableEq

/-- Per-contract unit Greeks and the implied volatility they were observed with. -/
structure UnitGreeks where
  delta : Decimal
  gamma : Decimal
  theta : Decimal
  vega : Decimal
  impliedVolatility : Decimal
deriving DecidableEq

def QuoteView.unitGreeks (quote : QuoteView) : UnitGreeks where
  delta := quote.delta
  gamma := quote.gamma
  theta := quote.theta
  vega := quote.vega
  impliedVolatility := quote.impliedVolatility

/-- The valuation of one leg at the step just settled. -/
structure PositionMark where
  positionId : PositionId
  contract : ContractKey
  side : Side
  quantity : Quantity
  contractMultiplier : Bounded u32
  mark : PriceCents
  staleMark : Bool
  priorGreeks : Option UnitGreeks
deriving DecidableEq

namespace PositionMark

/-- The marked value of a leg. -/
def value (m : PositionMark) : Int :=
  sideSign m.side * m.mark.value * m.quantity.value * m.contractMultiplier.value

/-- A mark shows its leg's identity and size. -/
structure Shows (contractMultiplier : Bounded u32) (m : PositionMark)
    (leg : OpenPosition) : Prop where
  positionId : m.positionId = leg.positionId
  contract : m.contract = leg.contract
  side : m.side = leg.side
  quantity : m.quantity = leg.quantity
  multiplier : m.contractMultiplier = contractMultiplier

end PositionMark

structure Ledger where
  cash : Cents
  runningPeak : Cents
  marks : Std.TreeMap ContractKey PriceCents
  positionMarks : List PositionMark
  attributionMarks : List PositionMark
  greeks : Std.TreeMap ContractKey UnitGreeks
  prevEquity : Cents
  stepSlippage : Bounded i128
  stepFees : Bounded i128
  lastSpreadCapture : Cents
  lastFees : Cents
  lastStepPnl : Cents

namespace Ledger

def new (initialCapital : Cents) : Ledger where
  cash := initialCapital
  runningPeak := initialCapital
  marks := ∅
  positionMarks := []
  attributionMarks := []
  greeks := ∅
  prevEquity := initialCapital
  stepSlippage := ⟨0, i128.contains_zero⟩
  stepFees := ⟨0, i128.contains_zero⟩
  lastSpreadCapture := .zero
  lastFees := .zero
  lastStepPnl := .zero

/-- The beginning-of-step hand-off: the legs open before this step's fills. -/
def collectAttributionMarks (l : Ledger) (beginOfStep : List OpenPosition)
    (contractMultiplier : Bounded u32) : Ledger :=
  { l with
    attributionMarks := beginOfStep.map fun leg =>
      { positionId := leg.positionId
        contract := leg.contract
        side := leg.side
        quantity := leg.quantity
        contractMultiplier
        mark := leg.entryPremium
        staleMark := false
        priorGreeks := l.greeks[leg.contract]? } }

/-- The only place cash moves: a credit for a sell, a debit for a buy, minus the fee. -/
def applyFill (l : Ledger) (fill : Fill) (contractMultiplier : Bounded u32) :
    Outcome Ledger := do
  let gross ← checkedProduct fill.price.value [fill.quantity.value, contractMultiplier.value]
  let signedFlow ← checked i128 (gross.value * -sideSign fill.side)
  let net ← checked i128 (signedFlow.value - fill.fees.value)
  let net ← checked i64 net.value
  let cash ← l.cash.checkedAdd net
  let scaledSlippage ← checked i128 (fill.slippage.value * contractMultiplier.value)
  let stepSlippage ← checked i128 (l.stepSlippage.value + scaledSlippage.value)
  let stepFees ← checked i128 (l.stepFees.value + fill.fees.value)
  return { l with cash, stepSlippage, stepFees }

/-- The mark of a leg and whether it was carried forward. Carrying is legal only before the
contract's own expiry. -/
def resolveMark (l : Ledger) (leg : OpenPosition) (snapshot : ChainSnapshot) :
    Outcome (Ledger × PriceCents × Bool) :=
  match snapshot.quotes[leg.contract]? with
  | some quote => .ok ({ l with marks := l.marks.insert leg.contract quote.mid }, quote.mid, false)
  | none => do
    let expirationNs ← leg.contract.expirationNs
    require (snapshot.ts.value < expirationNs.value)
      (.DataOutOfOrder snapshot.step.value expirationNs.value snapshot.ts.value)
    return (l, l.marks[leg.contract]?.getD leg.entryPremium, true)

/-- One leg of the settlement loop, with the position value so far. -/
def settleLeg (snapshot : ChainSnapshot) (acc : Ledger × Bounded i128) (leg : OpenPosition) :
    Outcome (Ledger × Bounded i128) := do
  let (l, positionValue) := acc
  let (l, mark, staleMark) ← l.resolveMark leg snapshot
  let positionMark : PositionMark :=
    { positionId := leg.positionId
      contract := leg.contract
      side := leg.side
      quantity := leg.quantity
      contractMultiplier := snapshot.spec.contractMultiplier
      mark
      staleMark
      priorGreeks := l.greeks[leg.contract]? }
  let legValue ← checkedProduct mark.value
    [leg.quantity.value, snapshot.spec.contractMultiplier.value, sideSign leg.side]
  let positionValue ← checked i128 (positionValue.value + legValue.value)
  return ({ l with positionMarks := l.positionMarks ++ [positionMark] }, positionValue)

/-- `(equity - peak) / peak`, never clamped. -/
def drawdownOf (peak equity : Int) : ℚ :=
  if peak ≤ 0 then 0 else ((equity : ℚ) - peak) / peak

/-- Advance the retained Greek endpoint of every leg quoted this step. -/
def refreshGreeks (snapshot : ChainSnapshot) (greeks : Std.TreeMap ContractKey UnitGreeks)
    (leg : OpenPosition) : Std.TreeMap ContractKey UnitGreeks :=
  match snapshot.quotes[leg.contract]? with
  | some quote => greeks.insert leg.contract quote.unitGreeks
  | none => greeks

def settle (l : Ledger) (step : StepIndex) (ts : SimTime) (openLegs : List OpenPosition)
    (snapshot : ChainSnapshot) : Outcome (Ledger × EquityPoint) := do
  let start : Ledger × Bounded i128 := ({ l with positionMarks := [] }, ⟨0, i128.contains_zero⟩)
  let (l, positionValue) ← openLegs.foldlM (settleLeg snapshot) start
  let positionValueCents ← checked i64 positionValue.value
  let equityCents ← checked i64 (l.cash.value + positionValueCents.value)
  let runningPeak := if l.runningPeak.value < equityCents.value then equityCents else l.runningPeak
  let lastStepPnl ← checked i64 (equityCents.value - l.prevEquity.value)
  let spreadCapture ← checked i128 (-l.stepSlippage.value)
  let lastSpreadCapture ← checked i64 spreadCapture.value
  let lastFees ← checked i64 l.stepFees.value
  let point : EquityPoint :=
    { step, ts, cashCents := l.cash, positionValueCents, equityCents
      drawdown := drawdownOf runningPeak.value equityCents.value }
  return ({ l with
    runningPeak, lastStepPnl, lastSpreadCapture, lastFees
    prevEquity := equityCents
    stepSlippage := ⟨0, i128.contains_zero⟩
    stepFees := ⟨0, i128.contains_zero⟩
    greeks := openLegs.foldl (refreshGreeks snapshot) l.greeks }, point)

/-- What a fill takes out of the cash: its signed value and its fee. -/
def outflow (contractMultiplier : Bounded u32) (fill : Fill) : Int :=
  sideSign fill.side * fill.price.value * fill.quantity.value * contractMultiplier.value +
    fill.fees.value

theorem applyFill_eq_ok {l l' : Ledger} {fill : Fill} {contractMultiplier : Bounded u32}
    (h : l.applyFill fill contractMultiplier = .ok l') :
    l'.cash.value = l.cash.value - outflow contractMultiplier fill ∧
      l'.runningPeak = l.runningPeak := by
  simp only [applyFill, bind_ok_iff, narrow_eq_ok, pure_ok_iff, Cents.checkedAdd] at h
  obtain ⟨gross, hgross, flow, hflow, net, hnet, net', hnet', cash, hcash, _, -, _, -, _, -, rfl⟩ :=
    h
  refine ⟨?_, rfl⟩
  rw [hcash, hnet', hnet, hflow, checkedProduct_eq_ok hgross, outflow]
  simp only [List.prod_cons, List.prod_nil]
  ring

theorem resolveMark_eq_ok {l l' : Ledger} {leg : OpenPosition} {snapshot : ChainSnapshot}
    {mark : PriceCents} {stale : Bool} (h : l.resolveMark leg snapshot = .ok (l', mark, stale)) :
    l'.cash = l.cash ∧ l'.runningPeak = l.runningPeak ∧ l'.positionMarks = l.positionMarks := by
  unfold resolveMark at h
  split at h
  · cases h
    exact ⟨rfl, rfl, rfl⟩
  · simp only [bind_ok_iff, require_eq_ok, pure_ok_iff, Prod.mk.injEq] at h
    obtain ⟨_, -, _, -, rfl, -⟩ := h
    exact ⟨rfl, rfl, rfl⟩

theorem settleLeg_eq_ok {l l' : Ledger} {value value' : Bounded i128} {leg : OpenPosition}
    {snapshot : ChainSnapshot} (h : settleLeg snapshot (l, value) leg = .ok (l', value')) :
    l'.cash = l.cash ∧ l'.runningPeak = l.runningPeak ∧
      ∃ m : PositionMark, m.Shows snapshot.spec.contractMultiplier leg ∧
        l'.positionMarks = l.positionMarks ++ [m] ∧ value'.value = value.value + m.value := by
  simp only [settleLeg, bind_ok_iff, narrow_eq_ok, pure_ok_iff, Prod.exists, Prod.mk.injEq] at h
  obtain ⟨l₁, mark, stale, hmark, legValue, hvalue, total, htotal, rfl, rfl⟩ := h
  obtain ⟨hcash, hpeak, hmarks⟩ := resolveMark_eq_ok hmark
  refine ⟨hcash, hpeak, _, ⟨rfl, rfl, rfl, rfl, rfl⟩, congrArg (· ++ _) hmarks, ?_⟩
  rw [htotal, checkedProduct_eq_ok hvalue, PositionMark.value]
  simp only [List.prod_cons, List.prod_nil]
  ring

theorem settleLegs_eq_ok {l l' : Ledger} {value value' : Bounded i128}
    {openLegs : List OpenPosition} {snapshot : ChainSnapshot}
    (h : openLegs.foldlM (settleLeg snapshot) (l, value) = .ok (l', value')) :
    l'.cash = l.cash ∧ l'.runningPeak = l.runningPeak ∧
      ∃ marks, List.Forall₂ (PositionMark.Shows snapshot.spec.contractMultiplier) marks openLegs ∧
        l'.positionMarks = l.positionMarks ++ marks ∧
        value'.value = value.value + (marks.map PositionMark.value).sum := by
  induction openLegs generalizing l value with
  | nil =>
    cases foldlM_nil_ok.1 h
    exact ⟨rfl, rfl, [], .nil, by simp, by simp⟩
  | cons leg legs ih =>
    obtain ⟨⟨l₁, value₁⟩, hleg, h⟩ := foldlM_cons_ok.1 h
    obtain ⟨hcash, hpeak, m, hshows, hmarks, hvalue⟩ := settleLeg_eq_ok hleg
    obtain ⟨hcash', hpeak', marks, hall, hmarks', hvalue'⟩ := ih h
    refine ⟨hcash'.trans hcash, hpeak'.trans hpeak, m :: marks, .cons hshows hall, ?_, ?_⟩
    · rw [hmarks', hmarks, List.append_assoc, List.singleton_append]
    · rw [hvalue', hvalue, List.map_cons, List.sum_cons, add_assoc]

/-- A settlement keeps the cash, marks every open leg once, and emits the point that the cash,
the marks and the running peak determine. -/
theorem settle_eq_ok {l l' : Ledger} {step : StepIndex} {ts : SimTime}
    {openLegs : List OpenPosition} {snapshot : ChainSnapshot} {point : EquityPoint}
    (h : l.settle step ts openLegs snapshot = .ok (l', point)) :
    l'.cash = l.cash ∧
      List.Forall₂ (PositionMark.Shows snapshot.spec.contractMultiplier) l'.positionMarks
        openLegs ∧
      point.step = step ∧ point.ts = ts ∧ point.cashCents = l.cash ∧
      point.positionValueCents.value = (l'.positionMarks.map PositionMark.value).sum ∧
      point.equityCents.value = point.cashCents.value + point.positionValueCents.value ∧
      l'.runningPeak.value = max l.runningPeak.value point.equityCents.value ∧
      point.drawdown = drawdownOf l'.runningPeak.value point.equityCents.value := by
  simp only [settle, bind_ok_iff, narrow_eq_ok, pure_ok_iff, Prod.exists, Prod.mk.injEq] at h
  obtain ⟨l₁, total, hlegs, value, hvalue, equity, hequity, _, -, _, -, _, -, _, -, rfl, rfl⟩ := h
  obtain ⟨hcash, hpeak, marks, hall, hmarks, htotal⟩ := settleLegs_eq_ok hlegs
  rw [List.nil_append] at hmarks
  subst hmarks
  refine ⟨hcash, hall, rfl, rfl, hcash, ?_, ?_, ?_, rfl⟩
  · rw [hvalue, htotal, zero_add]
  · exact hequity
  · simp only [hpeak]
    split_ifs <;> omega

end Ledger

end IronCondor
