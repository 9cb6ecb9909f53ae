import IronCondor.RunBacktest

/-! # Summary metrics

The realised statistics of a trade log and the premium of what a run opened, in integer cents.
What the summary makes of the equity curve in analytic floats is left to `CurveMetrics`. -/
namespace IronCondor

open Checked ExceptRun

def maxDrawdownRatioKey : String := "max_drawdown_ratio"
def maxDrawdownCentsKey : String := "max_drawdown_cents"
def netPremiumCentsKey : String := "net_premium_cents"
def realizedPnlCentsKey : String := "realized_pnl_cents"
def shortLegsRealizedCentsKey : String := "short_legs_realized_cents"
def longLegsRealizedCentsKey : String := "long_legs_realized_cents"

/-- What is computed of the equity curve: the return metrics, which take the total return in
cents, the dated drawdowns and the tail risk; and the worst ratio, when it is a decimal. -/
class CurveMetrics (C : outParam Type) where
  analyse : BacktestResult → List EquityPoint → Cents → Outcome C
  worstDrawdownRatio : List EquityPoint → Option Decimal

section Premium

/-- Premium on the cash basis. -/
def premiumCashCents (entryPremiumCents : PriceCents) (quantity : Quantity)
    (contractMultiplier : Bounded u32) : Outcome (Bounded i128) :=
  checkedProduct entryPremiumCents.value [quantity.value, contractMultiplier.value]

/-- A short leg received its premium, a long leg paid it. -/
def netAdd (net : Bounded i128) (side : Side) (premium : Bounded i128) : Outcome (Bounded i128) :=
  match side with
  | .Short => checked i128 (net.value + premium.value)
  | .Long => checked i128 (net.value - premium.value)

def netClosed (net : Bounded i128) (trade : ClosedTrade) : Outcome (Bounded i128) := do
  let premium ← premiumCashCents trade.entryPremium trade.quantity trade.contractMultiplier
  netAdd net trade.side premium

def netOpen (runMultiplier : Bounded u32) (net : Bounded i128) (leg : OpenPosition) :
    Outcome (Bounded i128) := do
  let premium ← premiumCashCents leg.entryPremium leg.quantity runMultiplier
  netAdd net leg.side premium

/-- The net entry premium; open legs take the multiplier of any closed one, else `1`. -/
def netPremiumCents (tradeLog : List ClosedTrade) (openAtEnd : List OpenPosition) :
    Outcome Cents := do
  let net ← tradeLog.foldlM netClosed ⟨0, i128.contains_zero⟩
  let runMultiplier := (tradeLog.head?.map ClosedTrade.contractMultiplier).getD ⟨1, u32.contains_one⟩
  let net ← openAtEnd.foldlM (netOpen runMultiplier) net
  checked i64 net.value

end Premium

/-- The aggregates of a trade log. -/
structure RealisedStats where
  winners : Nat
  losers : Nat
  breakEven : Nat
  grossProfitCents : Bounded i128
  grossLossCents : Bounded i128
  totalCents : Cents
  shortCents : Cents
  longCents : Cents
  longTrades : Nat
  shortTrades : Nat
  callTrades : Nat
  putTrades : Nat
  entryReceivedCents : Bounded i128
  entryPaidCents : Bounded i128

namespace RealisedStats

def empty : RealisedStats where
  winners := 0
  losers := 0
  breakEven := 0
  grossProfitCents := ⟨0, i128.contains_zero⟩
  grossLossCents := ⟨0, i128.contains_zero⟩
  totalCents := .zero
  shortCents := .zero
  longCents := .zero
  longTrades := 0
  shortTrades := 0
  callTrades := 0
  putTrades := 0
  entryReceivedCents := ⟨0, i128.contains_zero⟩
  entryPaidCents := ⟨0, i128.contains_zero⟩

/-- Count the sign of a row's profit. -/
def addOutcome (s : RealisedStats) (pnl : Cents) : Outcome RealisedStats :=
  if 0 < pnl.value then do
    let grossProfitCents ← checked i128 (s.grossProfitCents.value + pnl.value)
    return { s with winners := s.winners + 1, grossProfitCents }
  else if pnl.value < 0 then do
    let grossLossCents ← checked i128 (s.grossLossCents.value + pnl.value)
    return { s with losers := s.losers + 1, grossLossCents }
  else return { s with breakEven := s.breakEven + 1 }

/-- Book a row on the side of its leg. -/
def addSide (s : RealisedStats) (side : Side) (pnl : Cents) (premium : Bounded i128) :
    Outcome RealisedStats :=
  match side with
  | .Short => do
    let shortCents ← s.shortCents.checkedAdd pnl
    let entryReceivedCents ← checked i128 (s.entryReceivedCents.value + premium.value)
    return { s with shortTrades := s.shortTrades + 1, shortCents, entryReceivedCents }
  | .Long => do
    let longCents ← s.longCents.checkedAdd pnl
    let entryPaidCents ← checked i128 (s.entryPaidCents.value + premium.value)
    return { s with longTrades := s.longTrades + 1, longCents, entryPaidCents }

def addStyle (s : RealisedStats) : OptionStyle → RealisedStats
  | .Call => { s with callTrades := s.callTrades + 1 }
  | .Put => { s with putTrades := s.putTrades + 1 }

/-- One row of the log. -/
def add (s : RealisedStats) (trade : ClosedTrade) : Outcome RealisedStats := do
  let premium ← premiumCashCents trade.entryPremium trade.quantity trade.contractMultiplier
  let s ← s.addOutcome trade.realizedPnl
  let totalCents ← s.totalCents.checkedAdd trade.realizedPnl
  let s ← { s with totalCents }.addSide trade.side trade.realizedPnl premium
  return s.addStyle trade.contract.style

def fromLog (tradeLog : List ClosedTrade) : Outcome RealisedStats :=
  tradeLog.foldlM add empty

def numberOfTrades (s : RealisedStats) : Nat := s.winners + s.losers + s.breakEven

end RealisedStats

section Summary

/-- The upstream per-leg statistics, less the averages over the rows. -/
structure TradeStatistics where
  numberOfTrades : Nat
  winners : Nat
  losers : Nat
  breakEven : Nat
  longTrades : Nat
  shortTrades : Nat
  callTrades : Nat
  putTrades : Nat
deriving DecidableEq

def RealisedStats.tradeStatistics (s : RealisedStats) : TradeStatistics where
  numberOfTrades := s.numberOfTrades
  winners := s.winners
  losers := s.losers
  breakEven := s.breakEven
  longTrades := s.longTrades
  shortTrades := s.shortTrades
  callTrades := s.callTrades
  putTrades := s.putTrades

/-- The upstream premium flows, in dollars at scale 2. -/
structure CapitalUtilization where
  totalPremiumReceived : Decimal
  totalPremiumPaid : Decimal
  netPremium : Decimal
deriving DecidableEq

def RealisedStats.capitalUtilization (s : RealisedStats) : CapitalUtilization where
  totalPremiumReceived := ⟨s.entryReceivedCents.value, 2⟩
  totalPremiumPaid := ⟨s.entryPaidCents.value, 2⟩
  netPremium := ⟨s.entryReceivedCents.value - s.entryPaidCents.value, 2⟩

/-- The largest fall of the equity from its running peak. -/
def maxDrawdownCents (equityCurve : List EquityPoint) (initialCapitalCents : Cents) :
    Outcome Cents := do
  let (_, maxDecline) ← equityCurve.foldlM (fun acc point => do
    let peak := if acc.1.value < point.equityCents.value then point.equityCents else acc.1
    let decline ← peak.checkedSub point.equityCents
    return (peak, if acc.2.value < decline.value then decline else acc.2))
    (initialCapitalCents, Cents.zero)
  return maxDecline

/-- The projection that goes into a manifest. -/
structure Metrics (C : Type) where
  curve : C
  tradeStatistics : TradeStatistics
  capitalUtilization : CapitalUtilization
  customMetrics : Std.TreeMap String Decimal

variable {C : Type} [CurveMetrics C]

/-- `populate`. -/
def populate (result : BacktestResult) (equityCurve : List EquityPoint)
    (initialCapitalCents : Cents) (tradeLog : List ClosedTrade) (openAtEnd : List OpenPosition) :
    Outcome (Metrics C) := do
  let curve ← CurveMetrics.analyse result equityCurve initialCapitalCents
  let realised ← RealisedStats.fromLog tradeLog
  let drawdownCents ← maxDrawdownCents equityCurve initialCapitalCents
  let netPremium ← netPremiumCents tradeLog openAtEnd
  let ratios := match CurveMetrics.worstDrawdownRatio equityCurve with
    | some ratio => [(maxDrawdownRatioKey, ratio)]
    | none => []
  let cents := [(maxDrawdownCentsKey, drawdownCents), (realizedPnlCentsKey, realised.totalCents),
    (shortLegsRealizedCentsKey, realised.shortCents),
    (longLegsRealizedCentsKey, realised.longCents), (netPremiumCentsKey, netPremium)]
  return {
    curve
    tradeStatistics := realised.tradeStatistics
    capitalUtilization := realised.capitalUtilization
    customMetrics := (ratios ++ cents.map fun entry => (entry.1, Decimal.ofInt entry.2.value)).foldl
      (fun m entry => m.insert entry.1 entry.2) ∅ }

instance : SummaryMetrics (Metrics C) := ⟨populate⟩

end Summary

end IronCondor
