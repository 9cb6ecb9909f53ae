import IronCondor.Engine.Registry
import IronCondor.Lib.Numbering

/-! # What an order event does to the collector

The fills of an order are recorded under its id, with consecutive sequence numbers, one trade
and one leg. An open enters or re-prices its leg; a close that takes the whole leg writes the
terminal row and drops it. -/
namespace IronCondor

open Checked ExceptRun

/-- The records of the fills `run` of one order, numbered from `base`. -/
structure Tagged (orderId : OrderId) (tradeId : TradeId) (positionId : PositionId) (base : Int)
    (run : List Fill) (records : List FillRecord) : Prop where
  fills : records.map FillRecord.fill = run
  numbered : Numbered (fun record : FillRecord => record.fillSeq.value) base records
  tags : ∀ record ∈ records, record.orderId = orderId ∧ record.tradeId = tradeId ∧
    record.positionId = positionId

/-- The terminal row of a leg whose last `quantity` contracts are closed by a run that starts
with `first`. -/
structure Terminal (positionId : PositionId) (tradeId : TradeId) (first : Fill) (quantity : Int)
    (row : PositionSnapshot) : Prop where
  positionId : row.positionId = positionId
  tradeId : row.tradeId = tradeId
  step : row.step = first.step
  quantity : row.quantity.value = quantity
  closed : row.exitReason ≠ none
  openAtEnd : row.openAtEnd = false

/-- What the fills `run` of an order record: its trade, its leg, and the collector and the
position counter they leave. `held` is the leg an open has already built. -/
inductive Recorded (orderId : OrderId) (held : Option PositionId) (intent : OrderIntent)
    (base : Int) (run : List Fill) (inventory : List OpenPosition) (next : Int)
    (b : BundleCollector) (tradeId : TradeId) (positionId : PositionId) :
    Int → BundleCollector → Prop
  | opened (records : List FillRecord) (entry : LegMeta) (action : intent.action = .Open)
      (fresh : held = none) (minted : positionId.value = next) (trade : entry.tradeId = tradeId)
      (tagged : Tagged orderId tradeId positionId base run records) :
      Recorded orderId held intent base run inventory next b tradeId positionId (next + 1)
        { b with
          fills := b.fills ++ records, openLegs := b.openLegs.insert positionId entry }
  | extended (records : List FillRecord) (entry : LegMeta) (action : intent.action = .Open)
      (found : held = some positionId) (leg_some : (findLeg inventory positionId).isSome)
      (trade : entry.tradeId = tradeId)
      (tagged : Tagged orderId tradeId positionId base run records) :
      Recorded orderId held intent base run inventory next b tradeId positionId next
        { b with
          fills := b.fills ++ records, openLegs := b.openLegs.insert positionId entry }
  | reduced (records : List FillRecord) (leg : OpenPosition) (entry : LegMeta)
      (action : intent.action = .Close positionId)
      (leg_eq : findLeg inventory positionId = some leg)
      (entry_eq : b.openLegs[positionId]? = some entry) (trade : entry.tradeId = tradeId)
      (part : totalQuantity run < leg.quantity.value)
      (tagged : Tagged orderId tradeId positionId base run records) :
      Recorded orderId held intent base run inventory next b tradeId positionId next
        { b with fills := b.fills ++ records }
  | flattened (records : List FillRecord) (leg : OpenPosition) (entry : LegMeta)
      (row : PositionSnapshot) (first : Fill) (action : intent.action = .Close positionId)
      (leg_eq : findLeg inventory positionId = some leg)
      (entry_eq : b.openLegs[positionId]? = some entry) (trade : entry.tradeId = tradeId)
      (all : totalQuantity run = leg.quantity.value) (head : run.head? = some first)
      (tagged : Tagged orderId tradeId positionId base run records)
      (terminal : Terminal positionId tradeId first (totalQuantity run) row) :
      Recorded orderId held intent base run inventory next b tradeId positionId next
        { fills := b.fills ++ records, positions := b.positions ++ [row]
          openLegs := b.openLegs.erase positionId }

/-- A resting entry continues an order that has recorded `count` fills: an open keeps its trade
and its leg. -/
structure Continues (intent : OrderIntent) (count : Int) (tradeId : TradeId)
    (held : Option PositionId) (entry : PendingEntry) : Prop where
  action : entry.pending.intent.action = intent.action
  count : entry.fillsSoFar.value = count
  trade : intent.action = .Open → entry.tradeId = some tradeId
  held : intent.action = .Open → entry.positionId = held

section Fills

variable {st st' : EngineState} {orderId : OrderId} {tradeId : TradeId} {positionId : PositionId}
  {base multiplier : Bounded u32} {run : List Fill}

/-- Fills recorded one by one, each with the next number. -/
theorem fills_tagged {f : EngineState → Fill × Nat → Outcome EngineState}
    {legs : Std.TreeMap PositionId LegMeta}
    (hstep : ∀ s e s', s.bundle.openLegs = legs → f s e = .ok s' → ∃ record : FillRecord,
      record.fill = e.1 ∧ record.fillSeq.value = base.value + e.2 ∧ record.orderId = orderId ∧
        record.tradeId = tradeId ∧ record.positionId = positionId ∧
        s'.bundle = { s.bundle with fills := s.bundle.fills ++ [record] })
    (hlegs : st.bundle.openLegs = legs) {k : Nat}
    (h : (run.zipIdx k).foldlM f st = .ok st') :
    ∃ records, Tagged orderId tradeId positionId (base.value + k) run records ∧
      st'.bundle = { st.bundle with fills := st.bundle.fills ++ records } := by
  induction run generalizing st k with
  | nil =>
    cases foldlM_nil_ok.1 h
    exact ⟨[], ⟨rfl, .nil, List.forall_mem_nil _⟩, by simp⟩
  | cons fill run ih =>
    rw [List.zipIdx_cons] at h
    obtain ⟨mid, hmid, h⟩ := foldlM_cons_ok.1 h
    obtain ⟨record, hfill, hseq, ho, ht, hp, hbundle⟩ := hstep _ _ _ hlegs hmid
    obtain ⟨records, htagged, hrest⟩ := ih (by rw [hbundle]; exact hlegs) h
    have hnumbered := htagged.numbered
    push_cast at hnumbered
    rw [← add_assoc] at hnumbered
    refine ⟨record :: records, ⟨?_, .cons hseq hnumbered, ?_⟩, ?_⟩
    · rw [List.map_cons, hfill, htagged.fills]
    · exact List.forall_mem_cons.2 ⟨⟨ho, ht, hp⟩, htagged.tags⟩
    · rw [hrest, hbundle]
      simp

theorem openFill_record {e : Fill × Nat}
    (h : EngineState.openFill orderId tradeId positionId base multiplier st e = .ok st') :
    ∃ record : FillRecord, record.fill = e.1 ∧ record.fillSeq.value = base.value + e.2 ∧
      record.orderId = orderId ∧ record.tradeId = tradeId ∧ record.positionId = positionId ∧
      st'.bundle = { st.bundle with fills := st.bundle.fills ++ [record] } := by
  simp only [EngineState.openFill, bind_ok_iff, narrow_eq_ok, pure_ok_iff] at h
  obtain ⟨seq, hseq, _, -, rfl⟩ := h
  exact ⟨_, rfl, hseq, rfl, rfl, rfl, rfl⟩

theorem openFills_tagged
    (h : run.zipIdx.foldlM (EngineState.openFill orderId tradeId positionId base multiplier) st =
      .ok st') :
    ∃ records, Tagged orderId tradeId positionId base.value run records ∧
      st'.bundle = { st.bundle with fills := st.bundle.fills ++ records } := by
  obtain ⟨records, htagged, hbundle⟩ := fills_tagged (fun _ _ _ _ h => openFill_record h) rfl h
  exact ⟨records, by simpa using htagged, hbundle⟩

theorem closeFill_record {e : Fill × Nat}
    (h : EngineState.closeFill orderId positionId base multiplier st e = .ok st') :
    ∃ (entry : LegMeta) (record : FillRecord), st.bundle.openLegs[positionId]? = some entry ∧
      record.fill = e.1 ∧ record.fillSeq.value = base.value + e.2 ∧ record.orderId = orderId ∧
      record.tradeId = entry.tradeId ∧ record.positionId = positionId ∧
      st'.bundle = { st.bundle with fills := st.bundle.fills ++ [record] } := by
  simp only [EngineState.closeFill, BundleCollector.recordCloseFill, bind_ok_iff, okOr_eq_ok,
    narrow_eq_ok, pure_ok_iff] at h
  obtain ⟨seq, hseq, _, ⟨entry, hentry, rfl⟩, _, -, rfl⟩ := h
  exact ⟨entry, _, hentry, rfl, hseq, rfl, rfl, rfl, rfl⟩

theorem closeFills_tagged (hrun : run ≠ [])
    (h : run.zipIdx.foldlM (EngineState.closeFill orderId positionId base multiplier) st =
      .ok st') :
    ∃ (entry : LegMeta) (records : List FillRecord), st.bundle.openLegs[positionId]? = some entry ∧
      Tagged orderId entry.tradeId positionId base.value run records ∧
      st'.bundle = { st.bundle with fills := st.bundle.fills ++ records } := by
  obtain ⟨first, rest, rfl⟩ := List.exists_cons_of_ne_nil hrun
  have hfold := h
  rw [List.zipIdx_cons] at hfold
  obtain ⟨mid, hmid, -⟩ := foldlM_cons_ok.1 hfold
  obtain ⟨entry, -, hentry, -⟩ := closeFill_record hmid
  obtain ⟨records, htagged, hbundle⟩ := fills_tagged (fun s e s' hlegs h => by
    obtain ⟨found, record, hfound, hfill, hseq, ho, ht, hp, hs⟩ := closeFill_record h
    rw [hlegs, hentry] at hfound
    cases hfound
    exact ⟨record, hfill, hseq, ho, ht, hp, hs⟩) rfl h
  exact ⟨entry, records, hentry, by simpa using htagged, hbundle⟩

end Fills

section Orders

variable {st st' : EngineState} {orderId : OrderId} {tradeId : TradeId}
  {positionId : PositionId} {first : Fill} {agg : FillAggregate} {run : List Fill}
  {base multiplier : Bounded u32} {snapshot : ChainSnapshot} {reasons : CloseReasons}
  {intent : OrderIntent} {held : Option PositionId}

/-- A close records its fills on its leg, and writes the terminal row exactly when it takes the
whole leg. -/
theorem closeLeg_recorded {reason : ExitReason} (haction : intent.action = .Close positionId)
    (hfirst : run.head? = some first) (hagg : aggregateFills run = .ok agg)
    (h : st.closeLeg orderId positionId run first agg base reason snapshot = .ok st') :
    ∃ tradeId, Recorded orderId held intent base.value run st.inventory st.ids.position.value
      st.bundle tradeId positionId st'.ids.position.value st'.bundle := by
  have hquantity := (aggregateFills_eq_ok hagg).1
  have hrun : run ≠ [] := by
    rintro rfl
    cases hfirst
  simp only [EngineState.closeLeg, bind_ok_iff, Prod.exists] at h
  obtain ⟨inventory, full, hreduce, tradeLog, -, st₁, hfills, h⟩ := h
  have hids := (fills_sameLegs (fun _ _ _ h => closeFill_sameLegs h) hfills).ids
  obtain ⟨entry, records, hentry, htagged, hbundle⟩ := closeFills_tagged hrun hfills
  refine ⟨entry.tradeId, ?_⟩
  obtain ⟨leg, hleg, -, ⟨hall, rfl, -⟩ | ⟨quantity, hleft, rfl, -⟩⟩ := reduceLeg_eq_ok hreduce
  · simp only [if_true, BundleCollector.recordCloseTerminal, bind_ok_iff, okOr_eq_ok,
      pure_ok_iff] at h
    obtain ⟨_, ⟨found, hfound, _, -, rfl⟩, rfl⟩ := h
    rw [hbundle] at hfound
    cases hentry.symm.trans hfound
    simp only [hids, hbundle]
    exact .flattened records leg entry _ first haction hleg hentry rfl (hquantity.symm.trans hall)
      hfirst htagged ⟨rfl, rfl, rfl, hquantity, Option.some_ne_none _, rfl⟩
  · have hpos := quantity.pos
    cases h
    rw [hids, hbundle]
    exact .reduced records leg entry haction hleg hentry rfl (by omega) htagged

/-- A fresh leg and the records of the run that opens it. -/
theorem openLeg_recorded {ts : SimTime} {st₁ st₂ : EngineState}
    (haction : intent.action = .Open) (h : st.openLeg tradeId first agg ts = .ok (st₁, positionId))
    (hfills : run.zipIdx.foldlM (EngineState.openFill orderId tradeId positionId base multiplier)
      st₁ = .ok st₂) :
    Recorded orderId none intent base.value run st.inventory st.ids.position.value st.bundle tradeId
      positionId st₂.ids.position.value st₂.bundle := by
  obtain ⟨records, htagged, hbundle⟩ := openFills_tagged hfills
  have hids := (fills_sameLegs (fun _ _ _ h => openFill_sameLegs h) hfills).ids
  simp only [EngineState.openLeg, IdCounters.mintPosition, bind_ok_iff, pure_ok_iff, Prod.exists,
    Prod.mk.injEq] at h
  obtain ⟨_, _, ⟨next, _, hmint, rfl, rfl⟩, rfl, rfl⟩ := h
  obtain ⟨hid, hnext⟩ := mint_eq_ok hmint
  rw [hbundle, hids]
  change Recorded _ _ _ _ _ _ _ _ _ _ next.value _
  rw [hnext]
  exact .opened records ⟨tradeId, agg.vwap, first.side⟩ haction rfl (congrArg Bounded.value hid) rfl
    htagged

theorem carryOpenLeg_recorded {entry : PendingEntry} {ts : SimTime} {st₁ st₂ : EngineState}
    (haction : intent.action = .Open)
    (h : st.carryOpenLeg entry tradeId run first agg ts = .ok (st₁, positionId))
    (hfills : run.zipIdx.foldlM (EngineState.openFill orderId tradeId positionId base multiplier)
      st₁ = .ok st₂) :
    Recorded orderId entry.positionId intent base.value run st.inventory st.ids.position.value
      st.bundle tradeId positionId st₂.ids.position.value st₂.bundle := by
  unfold EngineState.carryOpenLeg at h
  split at h
  · rename_i hheld
    obtain ⟨_, hextend, h⟩ := bind_ok_iff.1 h
    cases h
    obtain ⟨records, htagged, hbundle⟩ := openFills_tagged hfills
    have hids := (fills_sameLegs (fun _ _ _ h => openFill_sameLegs h) hfills).ids
    simp only [EngineState.extendLeg, bind_ok_iff, pure_ok_iff, Prod.exists] at hextend
    obtain ⟨_, premium, hinventory, _, -, rfl⟩ := hextend
    obtain ⟨leg, _, hleg, -⟩ := extendOpenLeg_eq_ok hinventory
    rw [hbundle, hids]
    exact .extended records ⟨tradeId, premium, first.side⟩ haction hheld (by rw [hleg]; rfl) rfl
      htagged
  · rename_i hheld
    rw [hheld]
    exact openLeg_recorded haction h hfills

theorem settleEntry_continues (tradeId : TradeId) (held : Option PositionId) {entry : PendingEntry} {filled : Quantity}
    (haction : entry.pending.intent.action = .Open →
      entry.tradeId = some tradeId ∧ entry.positionId = held)
    (h : st.settleEntry orderId entry run.length filled = .ok st') :
    st'.bundle = st.bundle ∧ st'.ids = st.ids ∧
      (st'.pending = st.pending.erase orderId ∨
        ∃ left, st'.pending = st.pending.insert orderId left ∧
          Continues entry.pending.intent (entry.fillsSoFar.value + run.length) tradeId held left) := by
  rcases settleEntry_cases h with ⟨-, rfl⟩ | ⟨_, _, hcount, -, rfl⟩
  · exact ⟨rfl, rfl, .inl rfl⟩
  · exact ⟨rfl, rfl, .inr ⟨_, rfl, rfl, hcount, fun ho => (haction ho).1, fun ho => (haction ho).2⟩⟩

theorem registerRemainder_continues (tradeId : TradeId) {idx : Nat} {filled : Quantity} {stepTrade : Option TradeId}
    (haction : intent.action = .Open → stepTrade = some tradeId)
    (h : st.registerRemainder stepTrade idx orderId intent held run.length filled reasons =
      .ok st') :
    st'.bundle = st.bundle ∧ st'.ids = st.ids ∧
      (st'.pending = st.pending ∨ ∃ left, st'.pending = st.pending.insert orderId left ∧
        Continues intent run.length tradeId held left) := by
  rcases registerRemainder_cases h with ⟨-, rfl⟩ | ⟨_, _, _, _, -, -, hcount, htrade, rfl⟩
  · exact ⟨rfl, rfl, .inl rfl⟩
  · exact ⟨rfl, rfl, .inr ⟨_, rfl, rfl, hcount, fun ho => (htrade ho).trans (haction ho),
      fun _ => rfl⟩⟩

end Orders

section Events

variable {snapshot : ChainSnapshot} {reasons : CloseReasons} {s t : StepState} {orderId : OrderId}
  {run : List Fill}

/-- What a carried run records, and what is left of its registry entry. -/
structure CarriedStep (orderId : OrderId) (run : List Fill) (s t : StepState)
    (entry : PendingEntry) (tradeId : TradeId) (positionId : PositionId) : Prop where
  pending : s.engine.pending[orderId]? = some entry
  nonempty : run ≠ []
  trade : entry.pending.intent.action = .Open →
    entry.tradeId = none ∨ entry.tradeId = some tradeId
  recorded : Recorded orderId entry.positionId entry.pending.intent entry.fillsSoFar.value run
    s.engine.inventory s.engine.ids.position.value s.engine.bundle tradeId positionId
    t.engine.ids.position.value t.engine.bundle
  rests : t.engine.pending = s.engine.pending.erase orderId ∨
    ∃ left, t.engine.pending = s.engine.pending.insert orderId left ∧
      Continues entry.pending.intent (entry.fillsSoFar.value + run.length) tradeId
        (some positionId) left
  stepTrade : t.stepTrade = s.stepTrade

/-- What a submitted order records, and what of it is registered: the opens of a call share one
trade. `held` is the leg an open has built. -/
structure SubmittedStep (orderId : OrderId) (intent : OrderIntent) (run : List Fill)
    (s t : StepState) (tradeId : TradeId) (held : Option PositionId) : Prop where
  shared : intent.action = .Open →
    (s.stepTrade = none ∨ s.stepTrade = some tradeId) ∧ t.stepTrade = some tradeId
  stepTrade : intent.action ≠ .Open → t.stepTrade = s.stepTrade
  recorded : (run = [] ∧ held = none ∧ t.engine.bundle = s.engine.bundle ∧
      t.engine.ids.position = s.engine.ids.position) ∨
    (run ≠ [] ∧ ∃ positionId, held = some positionId ∧
      Recorded orderId none intent 0 run s.engine.inventory s.engine.ids.position.value
        s.engine.bundle tradeId positionId t.engine.ids.position.value t.engine.bundle)
  rests : t.engine.pending = s.engine.pending ∨
    ∃ left, t.engine.pending = s.engine.pending.insert orderId left ∧
      Continues intent run.length tradeId held left

theorem carried_recorded (h : applyEvent reasons snapshot s (.carried orderId run) = .ok t) :
    ∃ entry tradeId positionId, CarriedStep orderId run s t entry tradeId positionId := by
  obtain ⟨engine, happly, h⟩ := bind_ok_iff.1 h
  cases h
  obtain ⟨entry, agg, first, hentry, hagg, hfirst, hcases⟩ := applyCarryGroup_cases happly
  have hrun : run ≠ [] := by
    rintro rfl
    cases hfirst
  rcases hcases with ⟨haction, st₁, tradeId, st₂, positionId, st₃, htrade, hleg, hfills, hsettle⟩ |
    ⟨positionId, st₁, haction, hclose, hsettle⟩
  · obtain ⟨⟨ids, hids, -, rfl⟩, hsame⟩ := tradeFor_eq_ok htrade
    obtain ⟨hbundle, hids', hrests⟩ := settleEntry_continues tradeId
      (some positionId) (fun _ => ⟨rfl, rfl⟩) hsettle
    have hrecorded := carryOpenLeg_recorded haction hleg hfills
    have hpending : st₃.pending = s.engine.pending := by
      rw [(fills_sameLegs (fun _ _ _ h => openFill_sameLegs h) hfills).pending]
      exact (carryOpenLeg_keepsOrders hleg).pending
    refine ⟨entry, tradeId, positionId, hentry, hrun, fun _ => hsame, ?_, ?_, rfl⟩
    · rw [hbundle, hids', ← hids]
      exact hrecorded
    · rw [← hpending]
      exact hrests
  · obtain ⟨tradeId, hrecorded⟩ := closeLeg_recorded haction hfirst hagg hclose
    have hopen : entry.pending.intent.action ≠ .Open := by
      rw [haction]
      nofun
    obtain ⟨hbundle, hids, hrests⟩ := settleEntry_continues tradeId
      (some positionId) (fun ho => absurd ho hopen) hsettle
    refine ⟨entry, tradeId, positionId, hentry, hrun, fun ho => absurd ho hopen, ?_, ?_, rfl⟩
    · rw [hbundle, hids]
      exact hrecorded
    · rw [← (closeLeg_keepsOrders hclose).pending]
      exact hrests

theorem submitted_recorded {idx : Nat} {intent : OrderIntent}
    (h : applyEvent reasons snapshot s (.submitted idx orderId intent run) = .ok t) :
    ∃ tradeId held, SubmittedStep orderId intent run s t tradeId held := by
  obtain ⟨⟨engine, trade⟩, happly, h⟩ := bind_ok_iff.1 h
  cases h
  rcases applySubmit_cases happly with ⟨rfl, -, hrest⟩ | ⟨agg, first, hfirst, hagg, hfilled⟩
  · rcases hrest with ⟨haction, st₁, tradeId, htrade, rfl, rfl⟩ | ⟨haction, rfl, rfl⟩
    · obtain ⟨⟨ids, hids, -, rfl⟩, hsame⟩ := tradeFor_eq_ok htrade
      exact ⟨tradeId, none, fun _ => ⟨hsame, rfl⟩, fun ho => absurd haction ho,
        .inl ⟨rfl, rfl, rfl, hids⟩, .inr ⟨_, rfl, rfl, rfl, fun _ => rfl, fun _ => rfl⟩⟩
    · exact ⟨⟨s.engine.ids.trade⟩, none, fun ho => absurd ho haction, fun _ => rfl,
        .inl ⟨rfl, rfl, rfl, rfl⟩,
        .inr ⟨_, rfl, rfl, rfl, fun ho => absurd ho haction, fun _ => rfl⟩⟩
  · have hrun : run ≠ [] := by
      rintro rfl
      cases hfirst
    rcases hfilled with ⟨haction, st₁, tradeId, st₂, positionId, st₃, htrade, rfl, hleg, hfills,
      hregister⟩ | ⟨positionId, st₁, haction, rfl, hclose, hregister⟩
    · obtain ⟨⟨ids, hids, -, rfl⟩, hsame⟩ := tradeFor_eq_ok htrade
      obtain ⟨hbundle, hids', hrests⟩ := registerRemainder_continues tradeId (fun _ => rfl) hregister
      have hrecorded := openLeg_recorded haction hleg hfills
      have hpending : st₃.pending = s.engine.pending := by
        rw [(fills_sameLegs (fun _ _ _ h => openFill_sameLegs h) hfills).pending]
        exact (openLeg_keepsOrders hleg).pending
      refine ⟨tradeId, some positionId, fun _ => ⟨hsame, rfl⟩, fun ho => absurd haction ho,
        .inr ⟨hrun, positionId, rfl, ?_⟩, ?_⟩
      · rw [hbundle, hids', ← hids]
        exact hrecorded
      · rw [← hpending]
        exact hrests
    · have hopen : intent.action ≠ .Open := by
        rw [haction]
        nofun
      obtain ⟨tradeId, hrecorded⟩ := closeLeg_recorded haction hfirst hagg hclose
      obtain ⟨hbundle, hids, hrests⟩ := registerRemainder_continues tradeId
        (fun ho => absurd ho hopen) hregister
      refine ⟨tradeId, some positionId, fun ho => absurd ho hopen, fun _ => rfl,
        .inr ⟨hrun, positionId, rfl, ?_⟩, ?_⟩
      · rw [hbundle, hids]
        exact hrecorded
      · rw [← (closeLeg_keepsOrders hclose).pending]
        rcases hrests with hkept | ⟨left, hleft, hcontinues⟩
        · exact .inl hkept
        · exact .inr ⟨left, hleft, hcontinues.action, hcontinues.count,
            fun ho => absurd ho hopen, fun ho => absurd ho hopen⟩

end Events

end IronCondor
