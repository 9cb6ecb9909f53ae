import IronCondor.Engine.Lifecycle
import IronCondor.Engine.ShippedStrategies
import IronCondor.Lib.Failure

/-! # What the engine can fail with

The books, the collectors and the ledger fail by their arithmetic. They refuse an order only when
the leg it closes is not the one they hold, which linked stores and full closes exclude. -/
namespace IronCondor

open Checked ExceptRun

/-- The error is not a refusal of the execution layer. -/
def NotExecution (e : BacktestError) : Prop := ∀ msg, e ≠ .Execution msg

section Arithmetic

variable {r : IntRange}

@[simp] theorem checked_notExecution (n : Int) : FailsIn NotExecution (checked r n) :=
  .narrow fun _ => nofun

@[simp] theorem checkedProduct_notExecution (x : Int) (ys : List Int) :
    FailsIn NotExecution (checkedProduct x ys) := by
  induction ys generalizing x with
  | nil => exact checked_notExecution x
  | cons y ys ih => simp [checkedProduct, ih]

@[simp] theorem quantity_new_notExecution (n : Bounded u32) :
    FailsIn NotExecution (Quantity.new n) := by
  unfold Quantity.new
  split_ifs
  · exact .error fun _ h => by cases h
  · exact .ok _

@[simp] theorem quantity_ofInt_notExecution (n : Int) :
    FailsIn NotExecution (Quantity.ofInt n) := by
  simp [Quantity.ofInt]

@[simp] theorem realizedPnl_notExecution (side : Side) (entry exit : PriceCents)
    (quantity : Quantity) (multiplier : Bounded u32) (fees : Cents) :
    FailsIn NotExecution (realizedPnlCents side entry exit quantity multiplier fees) := by
  simp [realizedPnlCents]

@[simp] theorem unrealized_notExecution (mark entry : PriceCents) (quantity : Quantity)
    (multiplier : Bounded u32) (side : Side) :
    FailsIn NotExecution (unrealizedCents mark entry quantity multiplier side) := by
  simp [unrealizedCents]

@[simp] theorem applyFill_notExecution (l : Ledger) (fill : Fill) (multiplier : Bounded u32) :
    FailsIn NotExecution (l.applyFill fill multiplier) := by
  simp [Ledger.applyFill, Cents.checkedAdd]

theorem vwapCents_notExecution (notional : Bounded u128) {total : Bounded u64}
    (h : total.value ≠ 0) : FailsIn NotExecution (vwapCents notional total) := by
  refine .bind (.require fun hzero => absurd h hzero) fun _ _ => ?_
  refine .bind (checked_notExecution _) fun twiceRem _ => ?_
  split_ifs <;> simp

/-- Only an empty run has no average. -/
theorem aggregateFills_notExecution {fills : List Fill} (h : fills ≠ []) :
    FailsIn NotExecution (aggregateFills fills) := by
  refine .bind (.foldlM_each fun t f _ => by simp [FillTotals.add, Cents.checkedAdd]) fun t ht => ?_
  have htotal := foldlM_sum (f := FillTotals.add) (fun t => t.quantity.value) _
    (fun _ _ _ h => (FillTotals.add_eq_ok h).1) ht
  have hpos : 0 < t.quantity.value := by
    rw [htotal]
    simpa [FillTotals.zero, totalQuantity] using totalQuantity_pos h
  refine .bind (quantity_ofInt_notExecution _) fun q _ => ?_
  exact .bind (vwapCents_notExecution _ hpos.ne') fun v _ => .pure _

end Arithmetic

section Books

variable {st : EngineState} {orderId : OrderId} {tradeId : TradeId} {positionId : PositionId}
  {first : Fill} {agg : FillAggregate} {base multiplier : Bounded u32} {snapshot : ChainSnapshot}

@[simp] theorem mint_notExecution {kind : IdKind} (counter : Bounded u64) :
    FailsIn NotExecution (IdCounters.mint counter : Outcome (Bounded u64 × Id kind)) := by
  simp [IdCounters.mint]

theorem mintSubmitIds_notExecution (ids : IdCounters) (cmds : List OrderCommand) :
    FailsIn NotExecution (mintSubmitIds ids cmds) := by
  induction cmds generalizing ids with
  | nil => exact .ok _
  | cons cmd cmds ih =>
    unfold mintSubmitIds
    cases cmd.intent? with
    | none => exact ih ids
    | some intent => simp [IdCounters.mintOrder, ih]

theorem tradeFor_notExecution (st : EngineState) (trade : Option TradeId) :
    FailsIn NotExecution (st.tradeFor trade) := by
  cases trade <;> simp [EngineState.tradeFor, IdCounters.mintTrade]

theorem openLeg_notExecution (st : EngineState) (tradeId : TradeId) (first : Fill)
    (agg : FillAggregate) (ts : SimTime) :
    FailsIn NotExecution (st.openLeg tradeId first agg ts) := by
  simp [EngineState.openLeg, IdCounters.mintPosition]

theorem openFill_notExecution (st : EngineState) (entry : Fill × Nat) :
    FailsIn NotExecution
      (EngineState.openFill orderId tradeId positionId base multiplier st entry) := by
  simp [EngineState.openFill]

/-- A close of the whole leg takes it out of the inventory. -/
theorem reduceLeg_full {inventory : List OpenPosition} {leg : OpenPosition} {quantity : Quantity}
    (hleg : findLeg inventory positionId = some leg) (hfull : quantity.value = leg.quantity.value) :
    reduceLeg inventory positionId quantity = .ok (removeLeg inventory positionId, true) := by
  simp only [reduceLeg, hleg, okOr, ok_bind, require, if_pos hfull.le, if_pos hfull]
  rfl

variable {leg : OpenPosition} {orderFills : List Fill} {reason : ExitReason}

/-- No store refuses the close of a whole leg that all three hold. -/
theorem closeLeg_notExecution (h : Linked st) (hleg : findLeg st.inventory positionId = some leg)
    (hfull : agg.quantity.value = leg.quantity.value) :
    FailsIn NotExecution
      (st.closeLeg orderId positionId orderFills first agg base reason snapshot) := by
  have hsome : (findLeg st.inventory positionId).isSome := by rw [hleg]; rfl
  obtain ⟨entry, hentry⟩ := Option.isSome_iff_exists.1 (h.opens_isSome.trans hsome)
  obtain ⟨held, hheld⟩ := Option.isSome_iff_exists.1 (h.openLegs_isSome.trans hsome)
  unfold EngineState.closeLeg
  rw [reduceLeg_full hleg hfull, ok_bind]
  refine .bind ?_ fun tradeLog _ => .bind ?_ fun closed hclosed => ?_
  · simp only [TradeLogCollector.recordClose, hentry, okOr, ok_bind]
    refine .bind (realizedPnl_notExecution _ _ _ _ _ _) fun pnl _ => ?_
    split_ifs <;> simp
  · refine .foldlM (fun _ s => s.bundle.openLegs = st.bundle.openLegs) rfl
      fun done entry rest s _ hs => ⟨?_, fun t ht => ?_⟩
    · simp [EngineState.closeFill, BundleCollector.recordCloseFill, hs, hheld, okOr]
    · exact (closeFill_sameLegs ht).openLegs.trans hs
  · have hkept : closed.bundle.openLegs[positionId]? = some held := by
      rw [(fills_sameLegs (fun _ _ _ h => closeFill_sameLegs h) hclosed).openLegs]
      exact hheld
    simp [BundleCollector.recordCloseTerminal, hkept, okOr]

theorem registerRemainder_ioc {stepTrade : Option TradeId} {idx produced : Nat}
    {intent : OrderIntent} {opened : Option PositionId} {filled : Quantity} {reasons : CloseReasons}
    (h : intent.tif = .Ioc) :
    st.registerRemainder stepTrade idx orderId intent opened produced filled reasons = .ok st := by
  simp only [EngineState.registerRemainder, h, reduceCtorEq, false_and, if_false]
  rfl

section Submit

variable {stepTrade : Option TradeId} {idx : Nat} {intent : OrderIntent} {fill : Fill}
  {reasons : CloseReasons}

/-- An immediate open that fills in full is refused by no store. -/
theorem applySubmit_open_notExecution (haction : intent.action = .Open) (htif : intent.tif = .Ioc) :
    FailsIn NotExecution
      (st.applySubmit stepTrade idx orderId intent [fill] reasons snapshot) := by
  simp only [EngineState.applySubmit, EngineState.fillOrder, haction]
  refine .bind (aggregateFills_notExecution (List.cons_ne_nil _ _)) fun agg _ => ?_
  refine .bind (tradeFor_notExecution _ _) fun _ _ => ?_
  refine .bind (openLeg_notExecution _ _ _ _ _) fun _ _ => ?_
  refine .bind (.foldlM_each fun s entry _ => openFill_notExecution s entry) fun _ _ => ?_
  rw [registerRemainder_ioc htif]
  exact .pure _

/-- Neither is an immediate close of the whole leg. -/
theorem applySubmit_close_notExecution (h : Linked st)
    (haction : intent.action = .Close positionId) (htif : intent.tif = .Ioc)
    (hleg : findLeg st.inventory positionId = some leg) (hfull : fill.quantity = leg.quantity) :
    FailsIn NotExecution
      (st.applySubmit stepTrade idx orderId intent [fill] reasons snapshot) := by
  simp only [EngineState.applySubmit, EngineState.fillOrder, haction]
  refine .bind (aggregateFills_notExecution (List.cons_ne_nil _ _)) fun agg hagg => ?_
  have htotal : agg.quantity.value = leg.quantity.value := by
    rw [(aggregateFills_eq_ok hagg).1, ← hfull]
    simp
  refine .bind (closeLeg_notExecution h hleg htotal) fun _ _ => ?_
  rw [registerRemainder_ioc htif]
  exact .pure _

end Submit

end Books

section Settlement

theorem expirationNs_notExecution (contract : ContractKey) :
    FailsIn NotExecution contract.expirationNs := by
  unfold ContractKey.expirationNs
  split
  · exact .narrow fun _ => nofun
  · exact .error nofun

theorem resolveMark_notExecution (l : Ledger) (leg : OpenPosition) (snapshot : ChainSnapshot) :
    FailsIn NotExecution (l.resolveMark leg snapshot) := by
  unfold Ledger.resolveMark
  split
  · exact .ok _
  · refine .bind (expirationNs_notExecution _) fun expiry _ => ?_
    exact .bind (.require fun _ => nofun) fun _ _ => .pure _

theorem settle_notExecution (l : Ledger) (step : StepIndex) (ts : SimTime)
    (openLegs : List OpenPosition) (snapshot : ChainSnapshot) :
    FailsIn NotExecution (l.settle step ts openLegs snapshot) := by
  refine .bind (.foldlM_each fun acc leg _ => ?_) fun acc _ => by simp
  exact .bind (resolveMark_notExecution _ _ _) fun _ _ => by simp

/-- The collector refuses no mark of a leg it holds. -/
theorem collectStep_notExecution {b : BundleCollector} {step : StepIndex} {ts : SimTime}
    {marks : List PositionMark} {openAtEnd : Bool}
    (h : ∀ mark ∈ marks, (b.openLegs[mark.positionId]?).isSome) :
    FailsIn NotExecution (b.collectStep step ts marks openAtEnd) := by
  refine .foldlM (fun _ s => s.openLegs = b.openLegs) rfl fun done mark rest s hsplit hs => ?_
  obtain ⟨held, hheld⟩ := Option.isSome_iff_exists.1 (h mark (by simp [hsplit]))
  constructor
  · simp [BundleCollector.collectMark, hs, hheld, okOr]
  · intro t ht
    simp only [BundleCollector.collectMark, bind_ok_iff, pure_ok_iff] at ht
    obtain ⟨_, -, _, -, rfl⟩ := ht
    exact hs

/-- The settlement of linked books is refused by no store. -/
theorem RunState.settle_notExecution {S X R : Type} {s : RunState S X R}
    {beginOfStep : List OpenPosition} {snapshot : ChainSnapshot} {isLast : Bool}
    (h : Linked s.engine) : FailsIn NotExecution (s.settle beginOfStep snapshot isLast) := by
  refine .bind (IronCondor.settle_notExecution _ _ _ _ _) fun settled hsettled => ?_
  have hshows := (Ledger.settle_eq_ok hsettled).2.1
  refine .bind (collectStep_notExecution fun mark hmark => ?_) fun _ _ => .pure _
  obtain ⟨leg, hleg, hshow⟩ := Pointwise.exists_right hshows hmark
  rw [hshow.positionId, h.openLegs_isSome, ← findLeg_isSome]
  exact List.mem_map_of_mem hleg

theorem SimClock.advanceTo_notExecution (clock : SimClock) (ts : SimTime) (step : StepIndex) :
    FailsIn NotExecution (clock.advanceTo ts step) :=
  .bind (.require fun _ => nofun) fun _ _ => .bind (.require fun _ => nofun) fun _ _ => .pure _

end Settlement

end IronCondor
