import IronCondor.Engine.Ledger
import IronCondor.Engine.TradeLog

/-! # The bundle's fill and position streams

The collector pairs every executed fill with its lifecycle ids and takes one snapshot of
every open leg per step, plus one terminal row per full close. -/
namespace IronCondor

open Checked ExceptRun

structure FillRecord where
  fill : Fill
  tradeId : TradeId
  positionId : PositionId
  orderId : OrderId
  fillSeq : Bounded u32
deriving DecidableEq

structure PositionSnapshot where
  step : StepIndex
  ts : SimTime
  positionId : PositionId
  tradeId : TradeId
  contract : ContractKey
  side : Side
  quantity : Quantity
  avgPriceCents : PriceCents
  markCents : PriceCents
  unrealizedCents : Cents
  staleMark : Bool
  exitReason : Option ExitReason
  openAtEnd : Bool
deriving DecidableEq

structure LegMeta where
  tradeId : TradeId
  entryPremium : PriceCents
  side : Side
deriving DecidableEq

structure BundleCollector where
  fills : List FillRecord
  positions : List PositionSnapshot
  openLegs : Std.TreeMap PositionId LegMeta

/-- `(mark - entry) * quantity * contract_multiplier * side_sign`. -/
def unrealizedCents (mark entry : PriceCents) (quantity : Quantity)
    (contractMultiplier : Bounded u32) (side : Side) : Outcome Cents := do
  let diff ← checked i128 (mark.value - entry.value)
  let scaled ← checkedProduct diff.value
    [quantity.value, contractMultiplier.value, sideSign side]
  checked i64 scaled.value

theorem unrealizedCents_eq_ok {mark entry : PriceCents} {quantity : Quantity}
    {contractMultiplier : Bounded u32} {side : Side} {c : Cents}
    (h : unrealizedCents mark entry quantity contractMultiplier side = .ok c) :
    c.value = sideSign side * (mark.value - entry.value) * quantity.value *
      contractMultiplier.value := by
  simp only [unrealizedCents, bind_ok_iff, narrow_eq_ok] at h
  obtain ⟨d, hd, s, hs, hc⟩ := h
  rw [hc, checkedProduct_eq_ok hs, hd]
  simp only [List.prod_cons, List.prod_nil]
  ring

namespace BundleCollector

def empty : BundleCollector := ⟨[], [], ∅⟩

def registerOpenLeg (b : BundleCollector) (positionId : PositionId) (tradeId : TradeId)
    (avgPrice : PriceCents) (side : Side) : BundleCollector :=
  { b with openLegs := b.openLegs.insert positionId { tradeId, entryPremium := avgPrice, side } }

def recordOpenFill (b : BundleCollector) (fill : Fill) (orderId : OrderId) (tradeId : TradeId)
    (positionId : PositionId) (fillSeq : Bounded u32) : BundleCollector :=
  { b with fills := b.fills ++ [{ fill, tradeId, positionId, orderId, fillSeq }] }

def recordCloseFill (b : BundleCollector) (fill : Fill) (orderId : OrderId)
    (positionId : PositionId) (fillSeq : Bounded u32) : Outcome BundleCollector := do
  let leg ← okOr b.openLegs[positionId]?
    (.Execution s!"bundle close targets position {positionId.value} which is not open")
  return b.recordOpenFill fill orderId leg.tradeId positionId fillSeq

/-- The terminal row of a full close; the leg's bookkeeping is dropped. -/
def recordCloseTerminal (b : BundleCollector) (contract : ContractKey) (step : StepIndex)
    (ts : SimTime) (positionId : PositionId) (closedQuantity : Quantity)
    (snapshotMark : Option PriceCents) (contractMultiplier : Bounded u32)
    (exitReason : ExitReason) : Outcome BundleCollector := do
  let leg ← okOr b.openLegs[positionId]?
    (.Execution s!"bundle terminal-row for position {positionId.value} which is not open")
  let mark := snapshotMark.getD leg.entryPremium
  let unrealizedCents ← unrealizedCents mark leg.entryPremium closedQuantity contractMultiplier
    leg.side
  let row : PositionSnapshot :=
    { step
      ts
      positionId
      tradeId := leg.tradeId
      contract
      side := leg.side
      quantity := closedQuantity
      avgPriceCents := leg.entryPremium
      markCents := mark
      unrealizedCents
      staleMark := snapshotMark.isNone
      exitReason := some exitReason
      openAtEnd := false }
  return { b with positions := b.positions ++ [row], openLegs := b.openLegs.erase positionId }

/-- One open row from the ledger's mark of a leg. -/
def collectMark (step : StepIndex) (ts : SimTime) (openAtEnd : Bool) (b : BundleCollector)
    (mark : PositionMark) : Outcome BundleCollector := do
  let leg ← okOr b.openLegs[mark.positionId]?
    (.Execution s!"position snapshot for leg {mark.positionId.value} has no recorded open")
  let unrealizedCents ← unrealizedCents mark.mark leg.entryPremium mark.quantity
    mark.contractMultiplier mark.side
  let row : PositionSnapshot :=
    { step
      ts
      positionId := mark.positionId
      tradeId := leg.tradeId
      contract := mark.contract
      side := mark.side
      quantity := mark.quantity
      avgPriceCents := leg.entryPremium
      markCents := mark.mark
      unrealizedCents
      staleMark := mark.staleMark
      exitReason := none
      openAtEnd }
  return { b with positions := b.positions ++ [row] }

def collectStep (b : BundleCollector) (step : StepIndex) (ts : SimTime)
    (marks : List PositionMark) (openAtEnd : Bool) : Outcome BundleCollector :=
  marks.foldlM (collectMark step ts openAtEnd) b

/-- An open row shows its mark, priced from the entry the collector keeps of the leg. -/
structure Shows (openLegs : Std.TreeMap PositionId LegMeta) (step : StepIndex) (openAtEnd : Bool)
    (row : PositionSnapshot) (m : PositionMark) : Prop where
  step_eq : row.step = step
  openAtEnd : row.openAtEnd = openAtEnd
  positionId : row.positionId = m.positionId
  side : row.side = m.side
  quantity : row.quantity = m.quantity
  mark : row.markCents = m.mark
  exitReason : row.exitReason = none
  unrealized : ∃ leg : LegMeta, openLegs[m.positionId]? = some leg ∧
    row.unrealizedCents.value = sideSign m.side * (m.mark.value - leg.entryPremium.value) *
      m.quantity.value * m.contractMultiplier.value

/-- A step's collection appends one open row for every mark. -/
theorem collectStep_eq_ok {b b' : BundleCollector} {step : StepIndex} {ts : SimTime}
    {marks : List PositionMark} {openAtEnd : Bool}
    (h : b.collectStep step ts marks openAtEnd = .ok b') :
    ∃ rows, List.Forall₂ (Shows b.openLegs step openAtEnd) rows marks ∧
      b' = { b with positions := b.positions ++ rows } := by
  unfold collectStep at h
  induction marks generalizing b with
  | nil =>
    cases foldlM_nil_ok.1 h
    exact ⟨[], .nil, by simp⟩
  | cons mark marks ih =>
    obtain ⟨b₁, hmark, h⟩ := foldlM_cons_ok.1 h
    simp only [collectMark, bind_ok_iff, okOr_eq_ok, pure_ok_iff] at hmark
    obtain ⟨leg, hleg, unrealized, hunrealized, rfl⟩ := hmark
    obtain ⟨rows, hrows, rfl⟩ := ih h
    refine ⟨_ :: rows, ?_, by rw [List.append_assoc, List.singleton_append]⟩
    exact .cons ⟨rfl, rfl, rfl, rfl, rfl, rfl, rfl, leg, hleg, unrealizedCents_eq_ok hunrealized⟩
      hrows

end BundleCollector

end IronCondor
