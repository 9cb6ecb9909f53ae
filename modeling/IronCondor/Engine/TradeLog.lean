import IronCondor.Domain.Execution

/-! # The realised-trade log

One `ClosedTrade` per realised close, paired with the opening premium and size of its leg. -/
namespace IronCondor

open Checked

/-- The upstream exit reason. -/
inductive ExitReason where
  | TargetReached
  | StopLoss
  | Expiration
  | RollOver
  | ManualClose
  | MarginCall
  | Other (text : String)
deriving DecidableEq, Repr

structure ClosedTrade where
  tradeId : TradeId
  positionId : PositionId
  contract : ContractKey
  side : Side
  quantity : Quantity
  contractMultiplier : Bounded u32
  entryPremium : PriceCents
  exitPrice : PriceCents
  closeFees : Cents
  closeSlippage : Cents
  realizedPnl : Cents
  entryTs : SimTime
  exitTs : SimTime
  exitReason : ExitReason
deriving DecidableEq

/-- What the log keeps of a live leg. -/
structure OpenLeg where
  tradeId : TradeId
  contract : ContractKey
  side : Side
  entryPremium : PriceCents
  entryTs : SimTime
  remaining : Bounded u32
deriving DecidableEq

structure TradeLogCollector where
  opens : Std.TreeMap PositionId OpenLeg
  closed : List ClosedTrade

/-- The signed premium round trip minus the closing fee. -/
def realizedPnlCents (side : Side) (entryPremium exitPrice : PriceCents) (quantity : Quantity)
    (contractMultiplier : Bounded u32) (closeFees : Cents) : Outcome Cents := do
  let perContract ← checked i128 (match side with
    | .Long => exitPrice.value - entryPremium.value
    | .Short => entryPremium.value - exitPrice.value)
  let gross ← checkedProduct perContract.value [quantity.value, contractMultiplier.value]
  let net ← checked i128 (gross.value - closeFees.value)
  checked i64 net.value

theorem realizedPnlCents_eq_ok {side : Side} {entryPremium exitPrice : PriceCents}
    {quantity : Quantity} {contractMultiplier : Bounded u32} {closeFees pnl : Cents}
    (h : realizedPnlCents side entryPremium exitPrice quantity contractMultiplier closeFees =
      .ok pnl) :
    pnl.value = sideSign side * (exitPrice.value - entryPremium.value) * quantity.value *
      contractMultiplier.value - closeFees.value := by
  simp only [realizedPnlCents, bind_ok_iff, narrow_eq_ok] at h
  obtain ⟨d, hd, g, hg, n, hn, hp⟩ := h
  rw [hp, hn, checkedProduct_eq_ok hg, hd]
  cases side <;> simp only [sideSign, List.prod_cons, List.prod_nil] <;> ring

namespace TradeLogCollector

def empty : TradeLogCollector := ⟨∅, []⟩

def recordOpen (t : TradeLogCollector) (positionId : PositionId) (tradeId : TradeId)
    (contract : ContractKey) (side : Side) (quantity : Quantity) (entryPremium : PriceCents)
    (entryTs : SimTime) : TradeLogCollector :=
  { t with
    opens := t.opens.insert positionId
      { tradeId, contract, side, entryPremium, entryTs, remaining := quantity.toU32 } }

/-- Grow an open leg by a carried fill run and replace its entry by the re-averaged one. -/
def recordOpenExtend (t : TradeLogCollector) (positionId : PositionId) (added : Quantity)
    (newEntryPremium : PriceCents) : Outcome TradeLogCollector := do
  let leg ← okOr t.opens[positionId]?
    (.Execution s!"open-extend targets position {positionId.value} which is not tracked")
  let remaining ← checked u32 (leg.remaining.value + added.value)
  return { t with
    opens := t.opens.insert positionId { leg with remaining, entryPremium := newEntryPremium } }

/-- A close at or past the remaining size removes the leg; a smaller one keeps the residual. -/
def recordClose (t : TradeLogCollector) (positionId : PositionId) (exitPrice : PriceCents)
    (closeFees closeSlippage : Cents) (exitTs : SimTime) (quantity : Quantity)
    (contractMultiplier : Bounded u32) (exitReason : ExitReason) :
    Outcome TradeLogCollector := do
  let leg ← okOr t.opens[positionId]?
    (.Execution s!"trade-log close targets position {positionId.value} which is not open")
  let realizedPnl ← realizedPnlCents leg.side leg.entryPremium exitPrice quantity
    contractMultiplier closeFees
  let trade : ClosedTrade :=
    { tradeId := leg.tradeId
      positionId
      contract := leg.contract
      side := leg.side
      quantity
      contractMultiplier
      entryPremium := leg.entryPremium
      exitPrice
      closeFees
      closeSlippage
      realizedPnl
      entryTs := leg.entryTs
      exitTs
      exitReason }
  let closed := t.closed ++ [trade]
  if leg.remaining.value ≤ quantity.value then
    return { opens := t.opens.erase positionId, closed }
  else
    let remaining ← checked u32 (leg.remaining.value - quantity.value)
    return { opens := t.opens.insert positionId { leg with remaining }, closed }

/-- A close appends one row and takes the closed quantity off the leg's remaining size. -/
theorem recordClose_eq_ok {t t' : TradeLogCollector} {positionId : PositionId}
    {exitPrice : PriceCents} {closeFees closeSlippage : Cents} {exitTs : SimTime}
    {quantity : Quantity} {contractMultiplier : Bounded u32} {exitReason : ExitReason}
    (h : t.recordClose positionId exitPrice closeFees closeSlippage exitTs quantity
      contractMultiplier exitReason = .ok t') :
    ∃ leg trade, t.opens[positionId]? = some leg ∧ t'.closed = t.closed ++ [trade] ∧
      trade.exitTs = exitTs ∧
      trade.realizedPnl.value = sideSign leg.side * (exitPrice.value - leg.entryPremium.value) *
        quantity.value * contractMultiplier.value - closeFees.value ∧
      ((leg.remaining.value ≤ quantity.value ∧ t'.opens = t.opens.erase positionId) ∨
        ∃ remaining, quantity.value < leg.remaining.value ∧
          remaining.value = leg.remaining.value - quantity.value ∧
          t'.opens = t.opens.insert positionId { leg with remaining }) := by
  simp only [recordClose, bind_ok_iff, okOr_eq_ok] at h
  obtain ⟨leg, hleg, pnl, hpnl, h⟩ := h
  split_ifs at h with hfull
  · cases h
    exact ⟨leg, _, hleg, rfl, rfl, realizedPnlCents_eq_ok hpnl, .inl ⟨hfull, rfl⟩⟩
  · simp only [bind_ok_iff, narrow_eq_ok, pure_ok_iff] at h
    obtain ⟨remaining, hremaining, rfl⟩ := h
    exact ⟨leg, _, hleg, rfl, rfl, realizedPnlCents_eq_ok hpnl,
      .inr ⟨remaining, not_le.1 hfull, hremaining, rfl⟩⟩

end TradeLogCollector

end IronCondor
