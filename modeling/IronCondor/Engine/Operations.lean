import IronCondor.Engine.Events

/-! # What an order event can do to the books

One inversion lemma for each way an event is applied: the operations it performs and the stores
each of them touches. The invariants of a run are derived from these. -/
namespace IronCondor

open Checked ExceptRun

variable {st st' : EngineState} {orderId : OrderId} {tradeId : TradeId} {positionId : PositionId}
  {first : Fill} {agg : FillAggregate} {orderFills : List Fill} {base multiplier : Bounded u32}
  {snapshot : ChainSnapshot} {reasons : CloseReasons}

section Operations

theorem mint_eq_ok {kind : IdKind} {counter next : Bounded u64} {id : Id kind}
    (h : IdCounters.mint counter = .ok (next, id)) :
    id.raw = counter ∧ next.value = counter.value + 1 := by
  simp only [IdCounters.mint, bind_ok_iff, narrow_eq_ok, pure_ok_iff, Prod.mk.injEq] at h
  obtain ⟨_, hnext, rfl, rfl⟩ := h
  exact ⟨rfl, hnext⟩

/-- Minting a trade moves only its own counter. -/
theorem tradeFor_eq_ok {trade : Option TradeId} (h : st.tradeFor trade = .ok (st', tradeId)) :
    (∃ ids, ids.position = st.ids.position ∧ ids.order = st.ids.order ∧ st' = { st with ids }) ∧
      (trade = none ∨ trade = some tradeId) := by
  cases trade with
  | some existing =>
    cases h
    exact ⟨⟨st.ids, rfl, rfl, rfl⟩, .inr rfl⟩
  | none =>
    simp only [EngineState.tradeFor, IdCounters.mintTrade, bind_ok_iff, pure_ok_iff, Prod.exists,
      Prod.mk.injEq] at h
    obtain ⟨_, _, ⟨next, _, -, rfl, rfl⟩, rfl, rfl⟩ := h
    exact ⟨⟨{ st.ids with trade := next }, rfl, rfl, rfl⟩, .inl rfl⟩

/-- The stores that record the legs, and the registry, agree. -/
structure SameLegs (st st' : EngineState) : Prop where
  inventory : st'.inventory = st.inventory
  ids : st'.ids = st.ids
  opens : st'.tradeLog = st.tradeLog
  openLegs : st'.bundle.openLegs = st.bundle.openLegs
  pending : st'.pending = st.pending

theorem fills_sameLegs {f : EngineState → Fill × Nat → Outcome EngineState}
    {entries : List (Fill × Nat)} (hstep : ∀ s e t, f s e = .ok t → SameLegs s t)
    (h : entries.foldlM f st = .ok st') : SameLegs st st' := by
  refine foldlM_invariant (SameLegs st) (fun s e t hs ht => ?_) ⟨rfl, rfl, rfl, rfl, rfl⟩ h
  have ht := hstep s e t ht
  exact ⟨ht.inventory.trans hs.inventory, ht.ids.trans hs.ids, ht.opens.trans hs.opens,
    ht.openLegs.trans hs.openLegs, ht.pending.trans hs.pending⟩

theorem openFill_sameLegs {entry : Fill × Nat}
    (h : EngineState.openFill orderId tradeId positionId base multiplier st entry = .ok st') :
    SameLegs st st' := by
  simp only [EngineState.openFill, bind_ok_iff, pure_ok_iff] at h
  obtain ⟨_, -, _, -, rfl⟩ := h
  exact ⟨rfl, rfl, rfl, rfl, rfl⟩

theorem closeFill_sameLegs {entry : Fill × Nat}
    (h : EngineState.closeFill orderId positionId base multiplier st entry = .ok st') :
    SameLegs st st' := by
  simp only [EngineState.closeFill, BundleCollector.recordCloseFill, bind_ok_iff, okOr_eq_ok,
    pure_ok_iff] at h
  obtain ⟨_, -, _, ⟨_, -, rfl⟩, _, -, rfl⟩ := h
  exact ⟨rfl, rfl, rfl, rfl, rfl⟩

/-- A carried run takes its quantity off the entry, counts its fills, and drops it at zero. -/
theorem settleEntry_cases {entry : PendingEntry} {count : Nat} {filled : Quantity}
    (h : st.settleEntry orderId entry count filled = .ok st') :
    (filled.value = entry.remaining.value ∧
        st' = { st with pending := st.pending.erase orderId }) ∨
      ∃ fillsSoFar quantity, fillsSoFar.value = entry.fillsSoFar.value + count ∧
        quantity.value = entry.remaining.value - filled.value ∧
        st' = { st with
          pending := st.pending.insert orderId
            { entry with
              fillsSoFar
              pending := { entry.pending with intent := { entry.pending.intent with quantity } } } } := by
  simp only [EngineState.settleEntry, bind_ok_iff, narrow_eq_ok] at h
  obtain ⟨fillsSoFar, hcount, remaining, hremaining, h⟩ := h
  split_ifs at h with hzero
  · cases h
    exact .inl ⟨by omega, rfl⟩
  · simp only [bind_ok_iff, Quantity.new_eq_ok, pure_ok_iff] at h
    obtain ⟨quantity, hquantity, rfl⟩ := h
    exact .inr ⟨fillsSoFar, quantity, hcount, hquantity.trans hremaining, rfl⟩

/-- Only a good-till-cancelled order with something left is registered. -/
theorem registerRemainder_cases {stepTrade : Option TradeId} {idx produced : Nat}
    {intent : OrderIntent} {opened : Option PositionId} {filled : Quantity}
    (h : st.registerRemainder stepTrade idx orderId intent opened produced filled reasons =
      .ok st') :
    (¬ (intent.tif = .Gtc ∧ filled.value < intent.quantity.value) ∧ st' = st) ∨
      ∃ (remainder : Quantity) (count : Bounded u32) (trade : Option TradeId)
        (reason : Option ExitReason),
        intent.tif = .Gtc ∧ remainder.value = intent.quantity.value - filled.value ∧
        count.value = produced ∧ (intent.action = .Open → trade = stepTrade) ∧
        st' = { st with
          pending := registerPending st.pending orderId intent remainder count trade opened
            reason } := by
  unfold EngineState.registerRemainder at h
  split_ifs at h with hrest
  · simp only [bind_ok_iff, Quantity.ofInt_eq_ok, narrow_eq_ok, pure_ok_iff] at h
    obtain ⟨remainder, hremainder, count, hcount, rfl⟩ := h
    refine .inr ⟨remainder, count, _, _, hrest.1, hremainder, hcount, fun hopen => ?_, rfl⟩
    rw [hopen]
  · cases h
    exact .inl ⟨hrest, rfl⟩

end Operations

section Events

/-- What a carried run does: it continues the open it rests for, or closes the leg it targets. -/
theorem applyCarryGroup_cases (h : st.applyCarryGroup orderId orderFills snapshot = .ok st') :
    ∃ entry agg first, st.pending[orderId]? = some entry ∧ aggregateFills orderFills = .ok agg ∧
      orderFills.head? = some first ∧
      ((entry.pending.intent.action = .Open ∧ ∃ st₁ tradeId st₂ positionId st₃,
          st.tradeFor entry.tradeId = .ok (st₁, tradeId) ∧
          st₁.carryOpenLeg entry tradeId orderFills first agg snapshot.ts = .ok (st₂, positionId) ∧
          orderFills.zipIdx.foldlM (EngineState.openFill orderId tradeId positionId
            entry.fillsSoFar snapshot.spec.contractMultiplier) st₂ = .ok st₃ ∧
          st₃.settleEntry orderId
            { entry with tradeId := some tradeId, positionId := some positionId }
            orderFills.length agg.quantity = .ok st') ∨
        ∃ positionId st₁, entry.pending.intent.action = .Close positionId ∧
          st.closeLeg orderId positionId orderFills first agg entry.fillsSoFar
            (entry.reason.getD .ManualClose) snapshot = .ok st₁ ∧
          st₁.settleEntry orderId entry orderFills.length agg.quantity = .ok st') := by
  simp only [EngineState.applyCarryGroup, bind_ok_iff, okOr_eq_ok] at h
  obtain ⟨entry, hentry, agg, hagg, first, hfirst, _, -, h⟩ := h
  refine ⟨entry, agg, first, hentry, hagg, hfirst, ?_⟩
  split at h
  · rename_i haction
    simp only [bind_ok_iff, Prod.exists] at h
    obtain ⟨st₁, tradeId, htrade, st₂, positionId, hleg, st₃, hfills, hsettle⟩ := h
    exact .inl ⟨haction, st₁, tradeId, st₂, positionId, st₃, htrade, hleg, hfills, hsettle⟩
  · rename_i positionId haction
    obtain ⟨st₁, hclose, hsettle⟩ := bind_ok_iff.1 h
    exact .inr ⟨positionId, st₁, haction, hclose, hsettle⟩

/-- What a submitting command does: rest whole, open a leg, or close one. -/
theorem applySubmit_cases {stepTrade trade : Option TradeId} {idx : Nat} {intent : OrderIntent}
    (h : st.applySubmit stepTrade idx orderId intent orderFills reasons snapshot =
      .ok (st', trade)) :
    (orderFills = [] ∧ intent.tif = .Gtc ∧
        ((intent.action = .Open ∧ ∃ st₁ tradeId, st.tradeFor stepTrade = .ok (st₁, tradeId) ∧
            trade = some tradeId ∧
            st' = { st₁ with
              pending := registerPending st₁.pending orderId intent intent.quantity
                ⟨0, by decide⟩ (some tradeId) none none }) ∨
          (intent.action ≠ .Open ∧ trade = stepTrade ∧
            st' = { st with
              pending := registerPending st.pending orderId intent intent.quantity
                ⟨0, by decide⟩ none none (some (reasons.reasonFor idx)) }))) ∨
      ∃ agg first, orderFills.head? = some first ∧ aggregateFills orderFills = .ok agg ∧
        ((intent.action = .Open ∧ ∃ st₁ tradeId st₂ positionId st₃,
            st.tradeFor stepTrade = .ok (st₁, tradeId) ∧ trade = some tradeId ∧
            st₁.openLeg tradeId first agg snapshot.ts = .ok (st₂, positionId) ∧
            orderFills.zipIdx.foldlM (EngineState.openFill orderId tradeId positionId
              ⟨0, by decide⟩ snapshot.spec.contractMultiplier) st₂ = .ok st₃ ∧
            st₃.registerRemainder (some tradeId) idx orderId intent (some positionId)
              orderFills.length agg.quantity reasons = .ok st') ∨
          ∃ positionId st₁, intent.action = .Close positionId ∧ trade = stepTrade ∧
            st.closeLeg orderId positionId orderFills first agg ⟨0, by decide⟩
              (reasons.reasonFor idx) snapshot = .ok st₁ ∧
            st₁.registerRemainder stepTrade idx orderId intent none orderFills.length
              agg.quantity reasons = .ok st') := by
  unfold EngineState.applySubmit at h
  split at h
  · left
    split_ifs at h with hgtc
    unfold EngineState.restWhole at h
    split at h
    · rename_i haction
      simp only [bind_ok_iff, pure_ok_iff, Prod.exists, Prod.mk.injEq] at h
      obtain ⟨st₁, tradeId, htrade, rfl, rfl⟩ := h
      exact ⟨rfl, hgtc, .inl ⟨haction, st₁, tradeId, htrade, rfl, rfl⟩⟩
    · rename_i positionId haction
      cases h
      exact ⟨rfl, hgtc, .inr ⟨by rw [haction]; nofun, rfl, rfl⟩⟩
  · rename_i first rest
    right
    simp only [EngineState.fillOrder, bind_ok_iff] at h
    obtain ⟨agg, hagg, h⟩ := h
    refine ⟨agg, first, rfl, hagg, ?_⟩
    split at h
    · rename_i haction
      simp only [bind_ok_iff, pure_ok_iff, Prod.exists, Prod.mk.injEq] at h
      obtain ⟨st₁, tradeId, htrade, st₂, positionId, hleg, st₃, hfills, _, hregister, rfl, rfl⟩ := h
      exact .inl ⟨haction, st₁, tradeId, st₂, positionId, st₃, htrade, rfl, hleg, hfills,
        hregister⟩
    · rename_i positionId haction
      simp only [bind_ok_iff, pure_ok_iff, Prod.mk.injEq] at h
      obtain ⟨st₁, hclose, _, hregister, rfl, rfl⟩ := h
      exact .inr ⟨positionId, st₁, haction, rfl, hclose, hregister⟩

end Events

end IronCondor
