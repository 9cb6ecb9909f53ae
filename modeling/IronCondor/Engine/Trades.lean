import IronCondor.Engine.Inventory

/-! # What an order event does to the trade log

A close adds one row, priced from the log's own copy of its leg; nothing else adds one. -/
namespace IronCondor

open Checked ExceptRun

/-- What the fills `run` of an order add to the trade log. -/
inductive TradeStep (opens : Std.TreeMap PositionId OpenLeg) (snapshot : ChainSnapshot)
    (intent : OrderIntent) (run : List Fill) (trades : List ClosedTrade) :
    List ClosedTrade → Prop
  | kept (action : intent.action = .Open) : TradeStep opens snapshot intent run trades trades
  | closed (positionId : PositionId) (agg : FillAggregate) (leg : OpenLeg) (trade : ClosedTrade)
      (action : intent.action = .Close positionId) (average : aggregateFills run = .ok agg)
      (leg_eq : opens[positionId]? = some leg) (exit : trade.exitTs = snapshot.ts)
      (pnl : trade.realizedPnl.value = sideSign leg.side *
        (agg.vwap.value - leg.entryPremium.value) * agg.quantity.value *
        snapshot.spec.contractMultiplier.value - agg.fees.value) :
      TradeStep opens snapshot intent run trades (trades ++ [trade])

section Events

variable {st st' : EngineState} {orderId : OrderId} {tradeId : TradeId}
  {positionId : PositionId} {first : Fill} {agg : FillAggregate} {orderFills : List Fill}
  {base : Bounded u32} {snapshot : ChainSnapshot} {reasons : CloseReasons} {intent : OrderIntent}

theorem closeLeg_tradeStep {reason : ExitReason} (haction : intent.action = .Close positionId)
    (hagg : aggregateFills orderFills = .ok agg)
    (h : st.closeLeg orderId positionId orderFills first agg base reason snapshot = .ok st') :
    TradeStep st.tradeLog.opens snapshot intent orderFills st.tradeLog.closed
      st'.tradeLog.closed := by
  simp only [EngineState.closeLeg, bind_ok_iff, Prod.exists] at h
  obtain ⟨_, _, -, tradeLog, hrecord, st₁, hfills, h⟩ := h
  obtain ⟨leg, trade, hleg, hclosed, hexit, hpnl, -⟩ := TradeLogCollector.recordClose_eq_ok hrecord
  have hlog : st₁.tradeLog = tradeLog :=
    (fills_sameLegs (fun _ _ _ h => closeFill_sameLegs h) hfills).opens
  have htrades : st'.tradeLog.closed = st.tradeLog.closed ++ [trade] := by
    split_ifs at h
    · simp only [bind_ok_iff, pure_ok_iff] at h
      obtain ⟨_, -, rfl⟩ := h
      rw [hlog, hclosed]
    · cases h
      rw [hlog, hclosed]
  rw [htrades]
  exact .closed positionId agg leg trade haction hagg hleg hexit hpnl

theorem openLeg_closed {ts : SimTime}
    (h : st.openLeg tradeId first agg ts = .ok (st', positionId)) :
    st'.tradeLog.closed = st.tradeLog.closed := by
  simp only [EngineState.openLeg, bind_ok_iff, pure_ok_iff, Prod.exists, Prod.mk.injEq] at h
  obtain ⟨_, _, -, rfl, -⟩ := h
  rfl

theorem carryOpenLeg_closed {entry : PendingEntry} {ts : SimTime}
    (h : st.carryOpenLeg entry tradeId orderFills first agg ts = .ok (st', positionId)) :
    st'.tradeLog.closed = st.tradeLog.closed := by
  unfold EngineState.carryOpenLeg at h
  split at h
  · obtain ⟨_, hextend, h⟩ := bind_ok_iff.1 h
    cases h
    simp only [EngineState.extendLeg, TradeLogCollector.recordOpenExtend, bind_ok_iff, okOr_eq_ok,
      pure_ok_iff, Prod.exists] at hextend
    obtain ⟨_, _, -, _, ⟨_, -, _, -, rfl⟩, rfl⟩ := hextend
    rfl
  · exact openLeg_closed h

theorem settleEntry_tradeLog {entry : PendingEntry} {count : Nat} {filled : Quantity}
    (h : st.settleEntry orderId entry count filled = .ok st') : st'.tradeLog = st.tradeLog := by
  rcases settleEntry_cases h with ⟨-, rfl⟩ | ⟨_, _, -, -, rfl⟩ <;> rfl

theorem registerRemainder_tradeLog {stepTrade : Option TradeId} {idx produced : Nat}
    {opened : Option PositionId} {filled : Quantity}
    (h : st.registerRemainder stepTrade idx orderId intent opened produced filled reasons =
      .ok st') : st'.tradeLog = st.tradeLog := by
  rcases registerRemainder_cases h with ⟨-, rfl⟩ | ⟨_, _, _, _, -, -, -, -, rfl⟩ <;> rfl

/-- What one event adds to the trade log. -/
theorem applyEvent_tradeStep {s t : StepState} {ev : OrderEvent}
    (h : applyEvent reasons snapshot s ev = .ok t) :
    match ev with
    | .carried orderId run => ∃ entry, s.engine.pending[orderId]? = some entry ∧
        TradeStep s.engine.tradeLog.opens snapshot entry.pending.intent run
          s.engine.tradeLog.closed t.engine.tradeLog.closed
    | .withdrawn _ => t.engine.tradeLog.closed = s.engine.tradeLog.closed
    | .submitted _ _ intent run =>
        (run = [] ∧ t.engine.tradeLog.closed = s.engine.tradeLog.closed) ∨
        TradeStep s.engine.tradeLog.opens snapshot intent run s.engine.tradeLog.closed
          t.engine.tradeLog.closed := by
  cases ev with
  | carried orderId run =>
    obtain ⟨engine, happly, h⟩ := bind_ok_iff.1 h
    cases h
    obtain ⟨entry, agg, first, hentry, hagg, -, hcases⟩ := applyCarryGroup_cases happly
    refine ⟨entry, hentry, ?_⟩
    rcases hcases with ⟨haction, st₁, tradeId, st₂, positionId, st₃, htrade, hleg, hfills,
      hsettle⟩ | ⟨positionId, st₁, haction, hclose, hsettle⟩
    · obtain ⟨⟨_, -, -, rfl⟩, -⟩ := tradeFor_eq_ok htrade
      have hkept : engine.tradeLog.closed = s.engine.tradeLog.closed := by
        rw [settleEntry_tradeLog hsettle,
          (fills_sameLegs (fun _ _ _ h => openFill_sameLegs h) hfills).opens,
          carryOpenLeg_closed hleg]
      rw [hkept]
      exact .kept haction
    · rw [settleEntry_tradeLog hsettle]
      exact closeLeg_tradeStep haction hagg hclose
  | withdrawn orderId =>
    cases h
    rfl
  | submitted idx orderId intent run =>
    obtain ⟨⟨engine, trade⟩, happly, h⟩ := bind_ok_iff.1 h
    cases h
    rcases applySubmit_cases happly with ⟨hnone, -, hrest⟩ | ⟨agg, first, -, hagg, hfilled⟩
    · refine .inl ⟨hnone, ?_⟩
      rcases hrest with ⟨-, st₁, tradeId, htrade, -, rfl⟩ | ⟨-, -, rfl⟩
      · obtain ⟨⟨_, -, -, rfl⟩, -⟩ := tradeFor_eq_ok htrade
        rfl
      · rfl
    · refine .inr ?_
      rcases hfilled with ⟨haction, st₁, tradeId, st₂, positionId, st₃, htrade, -, hleg, hfills,
        hregister⟩ | ⟨positionId, st₁, haction, -, hclose, hregister⟩
      · obtain ⟨⟨_, -, -, rfl⟩, -⟩ := tradeFor_eq_ok htrade
        have hkept : engine.tradeLog.closed = s.engine.tradeLog.closed := by
          rw [registerRemainder_tradeLog hregister,
            (fills_sameLegs (fun _ _ _ h => openFill_sameLegs h) hfills).opens,
            openLeg_closed hleg]
        rw [hkept]
        exact .kept haction
      · rw [registerRemainder_tradeLog hregister]
        exact closeLeg_tradeStep haction hagg hclose

/-- The trade log only grows. -/
theorem applyEvent_closed {s t : StepState} {ev : OrderEvent}
    (h : applyEvent reasons snapshot s ev = .ok t) :
    s.engine.tradeLog.closed <+: t.engine.tradeLog.closed := by
  have hgrows : ∀ {opens intent run trades trades'},
      TradeStep opens snapshot intent run trades trades' → trades <+: trades' := by
    rintro _ _ _ _ _ (_ | _)
    · exact List.prefix_rfl
    · exact List.prefix_append _ _
  have hstep := applyEvent_tradeStep h
  cases ev with
  | carried orderId run =>
    obtain ⟨entry, -, hstep⟩ := hstep
    exact hgrows hstep
  | withdrawn orderId => exact hstep ▸ List.prefix_rfl
  | submitted idx orderId intent run =>
    rcases hstep with ⟨-, hkept⟩ | hstep
    · exact hkept ▸ List.prefix_rfl
    · exact hgrows hstep

end Events

end IronCondor
