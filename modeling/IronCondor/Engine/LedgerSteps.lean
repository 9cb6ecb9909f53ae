import IronCondor.Engine.Operations
import IronCondor.Engine.Run

/-! # What a step does to the ledger

The ledger sees the fills of a call one by one, in the order the model returned them, and
nothing else. The settlement reads the signals they left and clears them. -/
namespace IronCondor

open Checked ExceptRun

namespace Ledger

/-- The ledger after some fills. -/
def applyFills (l : Ledger) (contractMultiplier : Bounded u32) (fills : List Fill) :
    Outcome Ledger :=
  fills.foldlM (fun l fill => l.applyFill fill contractMultiplier) l

variable {l l' : Ledger} {contractMultiplier : Bounded u32} {fills : List Fill}

def slippageOf (contractMultiplier : Bounded u32) (fill : Fill) : Int :=
  fill.slippage.value * contractMultiplier.value

theorem applyFills_append {fills' : List Fill} :
    l.applyFills contractMultiplier (fills ++ fills') = .ok l' ↔
      ∃ mid, l.applyFills contractMultiplier fills = .ok mid ∧
        mid.applyFills contractMultiplier fills' = .ok l' :=
  foldlM_append_ok

/-- Fills move the cash and the two signals of the step, and nothing else. -/
theorem applyFills_eq_ok (h : l.applyFills contractMultiplier fills = .ok l') :
    l'.stepSlippage.value =
        l.stepSlippage.value + (fills.map (slippageOf contractMultiplier)).sum ∧
      l'.stepFees.value = l.stepFees.value + (fills.map fun fill => fill.fees.value).sum ∧
      l' = { l with
        cash := l'.cash, stepSlippage := l'.stepSlippage, stepFees := l'.stepFees } := by
  induction fills generalizing l with
  | nil =>
    cases foldlM_nil_ok.1 h
    simp
  | cons fill fills ih =>
    obtain ⟨mid, hmid, h⟩ := foldlM_cons_ok.1 h
    obtain ⟨hslippage, hfees, hframe⟩ := ih h
    simp only [applyFill, bind_ok_iff, narrow_eq_ok, pure_ok_iff] at hmid
    obtain ⟨_, -, _, -, _, -, _, -, cash, -, scaled, hscaled, slippage, hnew, fees, hnewFees, rfl⟩ :=
      hmid
    refine ⟨?_, ?_, ?_⟩
    · rw [hslippage, hnew, hscaled, List.map_cons, List.sum_cons, slippageOf]
      ring
    · rw [hfees, hnewFees, List.map_cons, List.sum_cons]
      ring
    · rw [hframe]

theorem resolveMark_frame {leg : OpenPosition} {snapshot : ChainSnapshot} {mark : PriceCents}
    {stale : Bool} (h : l.resolveMark leg snapshot = .ok (l', mark, stale)) :
    l' = { l with marks := l'.marks } := by
  unfold resolveMark at h
  split at h
  · cases h
    rfl
  · simp only [bind_ok_iff, require_eq_ok, pure_ok_iff, Prod.mk.injEq] at h
    obtain ⟨_, -, _, -, rfl, -⟩ := h
    rfl

theorem settleLegs_frame {value value' : Bounded i128} {openLegs : List OpenPosition}
    {snapshot : ChainSnapshot}
    (h : openLegs.foldlM (settleLeg snapshot) (l, value) = .ok (l', value')) :
    l' = { l with marks := l'.marks, positionMarks := l'.positionMarks } := by
  induction openLegs generalizing l value with
  | nil =>
    cases foldlM_nil_ok.1 h
    rfl
  | cons leg legs ih =>
    obtain ⟨⟨l₁, value₁⟩, hleg, h⟩ := foldlM_cons_ok.1 h
    simp only [settleLeg, bind_ok_iff, pure_ok_iff, Prod.exists, Prod.mk.injEq] at hleg
    obtain ⟨l₂, _, _, hmark, _, -, _, -, rfl, -⟩ := hleg
    rw [ih h, resolveMark_frame hmark]

/-- The settlement reports the change of equity and the signals of the fills, clears the
signals, and moves the Greek endpoint of every open leg quoted at the step. -/
theorem settle_sampled {step : StepIndex} {ts : SimTime} {openLegs : List OpenPosition}
    {snapshot : ChainSnapshot} {point : EquityPoint}
    (h : l.settle step ts openLegs snapshot = .ok (l', point)) :
    l'.lastStepPnl.value = point.equityCents.value - l.prevEquity.value ∧
      l'.lastSpreadCapture.value = -l.stepSlippage.value ∧
      l'.lastFees.value = l.stepFees.value ∧ l'.prevEquity = point.equityCents ∧
      l'.stepSlippage.value = 0 ∧ l'.stepFees.value = 0 ∧
      l'.attributionMarks = l.attributionMarks ∧
      l'.greeks = openLegs.foldl (refreshGreeks snapshot) l.greeks := by
  simp only [settle, bind_ok_iff, narrow_eq_ok, pure_ok_iff, Prod.exists, Prod.mk.injEq] at h
  obtain ⟨l₁, _, hlegs, _, -, equity, -, pnl, hpnl, spread, hspread, capture, hcapture, fees, hfees,
    rfl, rfl⟩ := h
  have hframe := settleLegs_frame hlegs
  refine ⟨?_, ?_, ?_, rfl, rfl, rfl, ?_, ?_⟩
  · rw [hpnl, hframe]
  · rw [hcapture, hspread, hframe]
  · rw [hfees, hframe]
  · rw [hframe]
  · rw [hframe]

end Ledger

section Operations

variable {st st' : EngineState} {orderId : OrderId} {tradeId : TradeId} {positionId : PositionId}
  {base multiplier : Bounded u32} {agg : FillAggregate} {first : Fill} {snapshot : ChainSnapshot}
  {reasons : CloseReasons} {orderFills : List Fill}

theorem openFill_ledger {e : Fill × Nat}
    (h : EngineState.openFill orderId tradeId positionId base multiplier st e = .ok st') :
    st.ledger.applyFill e.1 multiplier = .ok st'.ledger := by
  simp only [EngineState.openFill, bind_ok_iff, pure_ok_iff] at h
  obtain ⟨_, -, _, hledger, rfl⟩ := h
  exact hledger

theorem closeFill_ledger {e : Fill × Nat}
    (h : EngineState.closeFill orderId positionId base multiplier st e = .ok st') :
    st.ledger.applyFill e.1 multiplier = .ok st'.ledger := by
  simp only [EngineState.closeFill, bind_ok_iff, pure_ok_iff] at h
  obtain ⟨_, -, _, -, _, hledger, rfl⟩ := h
  exact hledger

theorem fills_ledger {f : EngineState → Fill × Nat → Outcome EngineState} {run : List Fill} {k : Nat}
    (hstep : ∀ s e t, f s e = .ok t → s.ledger.applyFill e.1 multiplier = .ok t.ledger)
    (h : (run.zipIdx k).foldlM f st = .ok st') :
    st.ledger.applyFills multiplier run = .ok st'.ledger := by
  induction run generalizing st k with
  | nil =>
    cases foldlM_nil_ok.1 h
    rfl
  | cons fill run ih =>
    rw [List.zipIdx_cons] at h
    obtain ⟨mid, hmid, h⟩ := foldlM_cons_ok.1 h
    exact foldlM_cons_ok.2 ⟨mid.ledger, hstep _ _ _ hmid, ih h⟩

theorem openLeg_ledger {ts : SimTime}
    (h : st.openLeg tradeId first agg ts = .ok (st', positionId)) : st'.ledger = st.ledger := by
  simp only [EngineState.openLeg, bind_ok_iff, pure_ok_iff, Prod.exists, Prod.mk.injEq] at h
  obtain ⟨_, _, -, rfl, -⟩ := h
  rfl

theorem carryOpenLeg_ledger {entry : PendingEntry} {ts : SimTime}
    (h : st.carryOpenLeg entry tradeId orderFills first agg ts = .ok (st', positionId)) :
    st'.ledger = st.ledger := by
  unfold EngineState.carryOpenLeg at h
  split at h
  · obtain ⟨_, hextend, h⟩ := bind_ok_iff.1 h
    cases h
    simp only [EngineState.extendLeg, bind_ok_iff, pure_ok_iff, Prod.exists] at hextend
    obtain ⟨_, _, -, _, -, rfl⟩ := hextend
    rfl
  · exact openLeg_ledger h

theorem settleEntry_ledger {entry : PendingEntry} {count : Nat} {filled : Quantity}
    (h : st.settleEntry orderId entry count filled = .ok st') : st'.ledger = st.ledger := by
  rcases settleEntry_cases h with ⟨-, rfl⟩ | ⟨_, _, -, -, rfl⟩ <;> rfl

theorem registerRemainder_ledger {stepTrade : Option TradeId} {idx produced : Nat}
    {intent : OrderIntent} {opened : Option PositionId} {filled : Quantity}
    (h : st.registerRemainder stepTrade idx orderId intent opened produced filled reasons =
      .ok st') : st'.ledger = st.ledger := by
  rcases registerRemainder_cases h with ⟨-, rfl⟩ | ⟨_, _, _, _, -, -, -, -, rfl⟩ <;> rfl

theorem closeLeg_ledger {reason : ExitReason}
    (h : st.closeLeg orderId positionId orderFills first agg base reason snapshot = .ok st') :
    st.ledger.applyFills snapshot.spec.contractMultiplier orderFills = .ok st'.ledger := by
  simp only [EngineState.closeLeg, bind_ok_iff, Prod.exists] at h
  obtain ⟨inventory, _, -, tradeLog, -, st₁, hfills, h⟩ := h
  have hledger := fills_ledger (fun _ _ _ h => closeFill_ledger h) hfills
  split_ifs at h
  · simp only [bind_ok_iff, pure_ok_iff] at h
    obtain ⟨_, -, rfl⟩ := h
    exact hledger
  · cases h
    exact hledger

/-- An event feeds its fills to the ledger, in order. -/
theorem applyEvent_ledger {s t : StepState} {ev : OrderEvent}
    (h : applyEvent reasons snapshot s ev = .ok t) :
    s.engine.ledger.applyFills snapshot.spec.contractMultiplier ev.fills = .ok t.engine.ledger := by
  cases ev with
  | carried orderId run =>
    obtain ⟨engine, happly, h⟩ := bind_ok_iff.1 h
    cases h
    obtain ⟨entry, agg, first, -, -, -, hcases⟩ := applyCarryGroup_cases happly
    rcases hcases with ⟨-, st₁, tradeId, st₂, positionId, st₃, htrade, hleg, hfills, hsettle⟩ |
      ⟨positionId, st₁, -, hclose, hsettle⟩
    · obtain ⟨⟨_, -, -, rfl⟩, -⟩ := tradeFor_eq_ok htrade
      have hledger := fills_ledger (fun _ _ _ h => openFill_ledger h) hfills
      rw [carryOpenLeg_ledger hleg] at hledger
      rw [settleEntry_ledger hsettle]
      exact hledger
    · rw [settleEntry_ledger hsettle]
      exact closeLeg_ledger hclose
  | withdrawn orderId =>
    cases h
    rfl
  | submitted idx orderId intent run =>
    obtain ⟨⟨engine, trade⟩, happly, h⟩ := bind_ok_iff.1 h
    cases h
    rcases applySubmit_cases happly with ⟨rfl, -, hrest⟩ | ⟨agg, first, -, -, hfilled⟩
    · rcases hrest with ⟨-, st₁, tradeId, htrade, -, rfl⟩ | ⟨-, -, rfl⟩
      · obtain ⟨⟨_, -, -, rfl⟩, -⟩ := tradeFor_eq_ok htrade
        rfl
      · rfl
    · rcases hfilled with ⟨-, st₁, tradeId, st₂, positionId, st₃, htrade, -, hleg, hfills,
        hregister⟩ | ⟨positionId, st₁, -, -, hclose, hregister⟩
      · obtain ⟨⟨_, -, -, rfl⟩, -⟩ := tradeFor_eq_ok htrade
        have hledger := fills_ledger (fun _ _ _ h => openFill_ledger h) hfills
        rw [openLeg_ledger hleg] at hledger
        rw [registerRemainder_ledger hregister]
        exact hledger
      · rw [registerRemainder_ledger hregister]
        exact closeLeg_ledger hclose

theorem applyEvents_ledger {s t : StepState} {events : List OrderEvent}
    (h : events.foldlM (applyEvent reasons snapshot) s = .ok t) :
    s.engine.ledger.applyFills snapshot.spec.contractMultiplier
      (events.flatMap OrderEvent.fills) = .ok t.engine.ledger := by
  induction events generalizing s with
  | nil =>
    cases foldlM_nil_ok.1 h
    rfl
  | cons ev events ih =>
    obtain ⟨mid, hmid, h⟩ := foldlM_cons_ok.1 h
    rw [List.flatMap_cons]
    exact Ledger.applyFills_append.2 ⟨mid.engine.ledger, applyEvent_ledger hmid, ih h⟩

end Operations

/-- A call feeds the fills it returned to the ledger, in order. -/
theorem Batch.Executed.ledger {X : Type} [ExecutionModel X] {b : Batch X} {after : EngineState}
    (h : b.Executed after) :
    b.before.ledger.applyFills b.snapshot.spec.contractMultiplier b.fills = .ok after.ledger := by
  obtain ⟨ids, -, hstart⟩ := h.minted
  obtain ⟨trade, hfold⟩ := h.applied
  rw [hstart] at hfold
  have hledger := applyEvents_ledger hfold
  rw [correlate_fills h.correlated] at hledger
  exact hledger

end IronCondor
