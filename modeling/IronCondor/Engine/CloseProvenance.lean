import IronCondor.Engine.FillIdentity
import IronCondor.Engine.Lifecycle
import IronCondor.Engine.Phases
import IronCondor.Engine.Trades

/-! # Where the exit reason of a close comes from

A close that fills at once takes its reason from its place in the queue. One that rests keeps the
reason of its place with its registry entry, whatever part of it has filled, and the refresh that
fills it reads the reason from there. The trade row and the terminal row of a close share it. -/
namespace IronCondor

open Checked ExceptRun OrderBook

section Places

variable {fills : List Fill} {submitIds : List OrderId} {events : List OrderEvent} {idx : Nat}
  {orderId : OrderId} {intent : OrderIntent} {run : List Fill}

/-- The walk numbers every submission by the place of its command. -/
theorem walkEvents_places {entries : List (OrderCommand × Nat)} {c c' : Cursor}
    (h : walkEvents fills submitIds c entries = .ok (events, c'))
    (hev : .submitted idx orderId intent run ∈ events) :
    ∃ cmd, (orderId, cmd, idx) ∈ (submitIds.drop c.submitOrdinal).zip
      (entries.filter fun entry => entry.1.intent?.isSome) := by
  induction entries generalizing c events with
  | nil =>
    cases h
    cases hev
  | cons entry entries ih =>
    simp only [walkEvents, bind_ok_iff, pure_ok_iff, Prod.exists, Prod.mk.injEq] at h
    obtain ⟨mine, mid, hmine, rest, _, hrest, rfl, rfl⟩ := h
    have hnone : OrderEvent.submitted idx orderId intent run ∉ withdrawals entry.1 := by
      unfold withdrawals
      cases entry.1.target? <;> simp
    unfold commandEvents at hmine
    cases hintent : entry.1.intent? with
    | none =>
      rw [hintent] at hmine
      cases hmine
      rw [List.filter_cons, hintent]
      exact ih hrest ((List.mem_append.1 hev).resolve_left hnone)
    | some own =>
      rw [hintent] at hmine
      simp only [bind_ok_iff, pure_ok_iff, Prod.exists, Prod.mk.injEq] at hmine
      obtain ⟨ownId, ownRun, _, hnext, rfl, rfl⟩ := hmine
      rw [(Cursor.next_eq_ok hnext).1, List.filter_cons, hintent, Option.isSome_some, if_pos rfl,
        List.zip_cons_cons]
      rcases List.mem_append.1 hev with hhere | hlater
      · rcases List.mem_append.1 hhere with hin | hin
        · exact absurd hin hnone
        · cases List.mem_singleton.1 hin
          exact ⟨entry.1, List.mem_cons_self⟩
      · obtain ⟨cmd, hcmd⟩ := ih hrest hlater
        exact ⟨cmd, List.mem_cons_of_mem _ hcmd⟩

variable {X : Type} [ExecutionModel X] {b : Batch X} {after : EngineState}

/-- The reason the call applies to a submission is the one of its order. -/
theorem Batch.Executed.reason_mem (h : b.Executed after)
    (hev : .submitted idx orderId intent run ∈ b.events) :
    (orderId, b.reasons.reasonFor idx) ∈ b.orderReasons := by
  obtain ⟨carried, walked, stop, c, hevents, hcarried, hwalked, -⟩ := correlate_eq_ok h.correlated
  rw [hevents] at hev
  have hwalk : .submitted idx orderId intent run ∈ walked := by
    rcases List.mem_append.1 hev with hin | hin
    · obtain ⟨_, _, heq⟩ := carryEvents_carried hcarried _ hin
      cases heq
    · exact hin
  obtain ⟨cmd, hcmd⟩ := walkEvents_places hwalked hwalk
  refine List.mem_map.2 ⟨(orderId, cmd, b.reasons.reasonFor idx), ?_, rfl⟩
  unfold Batch.ordered CloseReasons.tag
  rw [List.filter_map, List.zip_map_right]
  exact List.mem_map.2 ⟨(orderId, cmd, idx), hcmd, rfl⟩

/-- The orders of a call and their reasons go by the same ids. -/
theorem Batch.Executed.orderReasons_ids (h : b.Executed after) :
    b.orderReasons.map Prod.fst = b.submissions.map Prod.fst := by
  obtain ⟨ids, hmint, -⟩ := h.minted
  obtain ⟨-, hlength, -⟩ := mintSubmitIds_eq_ok hmint
  have hcount : ((b.reasons.tag b.cmds.zipIdx).filter fun entry => entry.1.intent?.isSome).length =
      (b.cmds.filterMap (·.intent?)).length := by
    rw [List.length_filterMap_eq_countP, ← List.countP_eq_length_filter, CloseReasons.tag,
      List.countP_map, ← List.zipIdx_map_fst 0 b.cmds, List.countP_map, List.zipIdx_map_fst]
    rfl
  rw [Batch.submissions, List.map_fst_zip (by rw [hlength]), Batch.orderReasons, List.map_map]
  exact List.map_fst_zip (by rw [hcount, hlength])

end Places

section Steps

variable {st st' : EngineState} {orderId : OrderId} {tradeId : TradeId} {positionId : PositionId}
  {first : Fill} {agg : FillAggregate} {run : List Fill} {base : Bounded u32}
  {snapshot : ChainSnapshot} {reasons : CloseReasons} {intent : OrderIntent}
  {held : Option PositionId}

/-- The leg an action closes. -/
def PositionAction.closes? : PositionAction → Option PositionId
  | .Open => none
  | .Close positionId => some positionId

/-- What an event adds to the trade log and to the terminal rows: nothing, or the trade of one
close, with a terminal row of the same reason when the close takes the whole leg. -/
inductive CloseStep (st st' : EngineState) : Option (PositionId × ExitReason) → Prop
  | kept (trades : st'.tradeLog.closed = st.tradeLog.closed)
      (rows : st'.bundle.positions = st.bundle.positions)
      (next : st.ids.position.value ≤ st'.ids.position.value)
      (legs : ∀ other : PositionId,
        (st'.bundle.openLegs[other]?).isSome = (st.bundle.openLegs[other]?).isSome ∨
          st.ids.position.value ≤ other.value ∧ (st'.bundle.openLegs[other]?).isSome) :
      CloseStep st st' none
  | closed (positionId : PositionId) (reason : ExitReason) (trade : ClosedTrade)
      (leg_some : (st.bundle.openLegs[positionId]?).isSome) (leg : trade.positionId = positionId)
      (reason_eq : trade.exitReason = reason)
      (trades : st'.tradeLog.closed = st.tradeLog.closed ++ [trade])
      (next : st'.ids.position = st.ids.position)
      (rows : (st'.bundle.positions = st.bundle.positions ∧
          st'.bundle.openLegs = st.bundle.openLegs) ∨
        ∃ row, row.positionId = positionId ∧ row.exitReason = some reason ∧
          st'.bundle.positions = st.bundle.positions ++ [row] ∧
          st'.bundle.openLegs = st.bundle.openLegs.erase positionId) :
      CloseStep st st' (some (positionId, reason))

/-- What changes the registry alone, after a step, is no part of it. -/
theorem CloseStep.congr {close : Option (PositionId × ExitReason)} {st₁ : EngineState}
    (h : CloseStep st st₁ close) (htrades : st'.tradeLog = st₁.tradeLog)
    (hbundle : st'.bundle = st₁.bundle) (hids : st'.ids = st₁.ids) : CloseStep st st' close := by
  cases h with
  | kept trades rows next legs =>
    refine .kept ?_ ?_ ?_ ?_
    · rw [htrades, trades]
    · rw [hbundle, rows]
    · rw [hids]
      exact next
    · rw [hbundle]
      exact legs
  | closed positionId reason trade leg_some leg reason_eq trades next rows =>
    refine .closed positionId reason trade leg_some leg reason_eq ?_ ?_ ?_
    · rw [htrades, trades]
    · rw [hids, next]
    · rw [hbundle]
      exact rows

theorem recordClose_trade {t t' : TradeLogCollector} {exitPrice : PriceCents}
    {closeFees closeSlippage : Cents} {exitTs : SimTime} {quantity : Quantity}
    {contractMultiplier : Bounded u32} {exitReason : ExitReason}
    (h : t.recordClose positionId exitPrice closeFees closeSlippage exitTs quantity
      contractMultiplier exitReason = .ok t') :
    ∃ trade : ClosedTrade, trade.positionId = positionId ∧ trade.exitReason = exitReason ∧
      t'.closed = t.closed ++ [trade] := by
  simp only [TradeLogCollector.recordClose, bind_ok_iff] at h
  obtain ⟨leg, -, pnl, -, h⟩ := h
  split_ifs at h
  · cases h
    exact ⟨_, rfl, rfl, rfl⟩
  · obtain ⟨remaining, -, h⟩ := bind_ok_iff.1 h
    cases h
    exact ⟨_, rfl, rfl, rfl⟩

/-- A close records one reason, in its trade and in the terminal row it may write. -/
theorem closeLeg_closeStep {reason : ExitReason} (hfirst : run.head? = some first)
    (h : st.closeLeg orderId positionId run first agg base reason snapshot = .ok st') :
    CloseStep st st' (some (positionId, reason)) := by
  have hrun : run ≠ [] := by
    rintro rfl
    cases hfirst
  simp only [EngineState.closeLeg, bind_ok_iff, Prod.exists] at h
  obtain ⟨inventory, full, -, tradeLog, hrecord, st₁, hfills, h⟩ := h
  obtain ⟨trade, hleg, hreason, hclosed⟩ := recordClose_trade hrecord
  have hsame := fills_sameLegs (fun _ _ _ h => closeFill_sameLegs h) hfills
  obtain ⟨entry, records, hentry, -, hbundle⟩ := closeFills_tagged hrun hfills
  have hlog : st₁.tradeLog.closed = st.tradeLog.closed ++ [trade] := by
    rw [hsame.opens]
    exact hclosed
  have hopen : (st.bundle.openLegs[positionId]?).isSome := Option.isSome_of_eq_some hentry
  have hrows : st₁.bundle.positions = st.bundle.positions := by rw [hbundle]
  have hlegs : st₁.bundle.openLegs = st.bundle.openLegs := by rw [hbundle]
  have hnext : st₁.ids.position = st.ids.position := congrArg IdCounters.position hsame.ids
  split_ifs at h
  · simp only [BundleCollector.recordCloseTerminal, bind_ok_iff, okOr_eq_ok, pure_ok_iff] at h
    obtain ⟨_, ⟨found, hfound, _, -, rfl⟩, rfl⟩ := h
    refine .closed positionId reason trade hopen hleg hreason hlog hnext
      (.inr ⟨_, ?_, ?_, congrArg (· ++ [_]) hrows, congrArg (·.erase positionId) hlegs⟩)
    · rfl
    · rfl
  · cases h
    exact .closed positionId reason trade hopen hleg hreason hlog hnext (.inl ⟨hrows, hlegs⟩)

theorem TradeStep.open_kept {opens : Std.TreeMap PositionId OpenLeg}
    {trades trades' : List ClosedTrade} (h : TradeStep opens snapshot intent run trades trades')
    (haction : intent.action = .Open) : trades' = trades := by
  cases h with
  | kept => rfl
  | closed _ _ _ _ hclose => cases hclose.symm.trans haction

/-- An open writes neither a trade nor a terminal row. -/
theorem Recorded.closeStep {start : Int} (h : Recorded orderId held intent start run st.inventory
      st.ids.position.value st.bundle tradeId positionId st'.ids.position.value st'.bundle)
    (haction : intent.action = .Open)
    (hlegs : (findLeg st.inventory positionId).isSome →
      (st.bundle.openLegs[positionId]?).isSome)
    (htrades : st'.tradeLog.closed = st.tradeLog.closed) : CloseStep st st' none := by
  generalize hnext : st'.ids.position.value = next' at h
  generalize hbundle : st'.bundle = bundle' at h
  cases h with
  | opened records entry action fresh minted trade tagged =>
    refine .kept htrades (by rw [hbundle]) (by omega) fun other => ?_
    rw [hbundle, OrderedMap.getElem?_insert]
    split_ifs with heq
    · exact .inr ⟨by rw [heq, minted], rfl⟩
    · exact .inl rfl
  | extended records entry action found leg_some trade tagged =>
    refine .kept htrades (by rw [hbundle]) hnext.ge fun other => .inl ?_
    rw [hbundle, OrderedMap.getElem?_insert]
    split_ifs with heq
    · rw [heq, hlegs leg_some]
      rfl
    · rfl
  | reduced records leg entry action => cases action.symm.trans haction
  | flattened records leg entry row first action => cases action.symm.trans haction

/-- The reason of the close that an event realises: that of the registry entry it fills, or that
of the place of the command it submits. -/
theorem applyEvent_closeStep {s t : StepState} {ev : OrderEvent}
    (hlegs : ∀ positionId, (findLeg s.engine.inventory positionId).isSome →
      (s.engine.bundle.openLegs[positionId]?).isSome)
    (h : applyEvent reasons snapshot s ev = .ok t) :
    match ev with
    | .carried orderId run => run ≠ [] ∧ ∃ entry, s.engine.pending[orderId]? = some entry ∧
        CloseStep s.engine t.engine (entry.pending.intent.action.closes?.map
          (·, entry.reason.getD .ManualClose))
    | .withdrawn _ => CloseStep s.engine t.engine none
    | .submitted idx _ intent run => CloseStep s.engine t.engine
        (if run = [] then none else intent.action.closes?.map (·, reasons.reasonFor idx)) := by
  have htrades := applyEvent_tradeStep h
  cases ev with
  | carried orderId run =>
    obtain ⟨found, tradeId, positionId, hstep⟩ := carried_recorded h
    refine ⟨hstep.nonempty, found, hstep.pending, ?_⟩
    obtain ⟨engine, happly, h⟩ := bind_ok_iff.1 h
    cases h
    obtain ⟨entry, agg, first, hentry, -, hfirst, hcases⟩ := applyCarryGroup_cases happly
    cases hstep.pending.symm.trans hentry
    obtain ⟨_, hentry', htrade⟩ := htrades
    cases hentry.symm.trans hentry'
    rcases hcases with ⟨haction, -⟩ | ⟨closing, st₁, haction, hclose, hsettle⟩
    · rw [haction]
      exact hstep.recorded.closeStep haction (hlegs positionId) (htrade.open_kept haction)
    · rw [haction]
      rcases settleEntry_cases hsettle with ⟨-, rfl⟩ | ⟨_, _, -, -, rfl⟩
      · exact (closeLeg_closeStep hfirst hclose).congr rfl rfl rfl
      · exact (closeLeg_closeStep hfirst hclose).congr rfl rfl rfl
  | withdrawn orderId =>
    cases h
    exact .kept rfl rfl le_rfl fun _ => .inl rfl
  | submitted idx orderId intent run =>
    obtain ⟨tradeId, held, hstep⟩ := submitted_recorded h
    obtain ⟨⟨engine, trade⟩, happly, h⟩ := bind_ok_iff.1 h
    cases h
    rcases applySubmit_cases happly with ⟨rfl, -, hrest⟩ | ⟨agg, first, hfirst, -, hfilled⟩
    · change CloseStep s.engine engine (if _ then none else _)
      rw [if_pos rfl]
      rcases hrest with ⟨-, st₁, tradeId, htrade, -, rfl⟩ | ⟨-, -, rfl⟩
      · obtain ⟨⟨ids, hids, -, rfl⟩, -⟩ := tradeFor_eq_ok htrade
        exact .kept rfl rfl (congrArg Bounded.value hids).ge fun _ => .inl rfl
      · exact .kept rfl rfl le_rfl fun _ => .inl rfl
    · have hrun : run ≠ [] := by
        rintro rfl
        cases hfirst
      obtain ⟨-, positionId, -, hrecorded⟩ := hstep.recorded.resolve_left fun hnone => hrun hnone.1
      have htrade := htrades.resolve_left fun hnone => hrun hnone.1
      change CloseStep s.engine engine (if _ then none else _)
      rw [if_neg hrun]
      rcases hfilled with ⟨haction, -⟩ | ⟨closing, st₁, haction, -, hclose, hregister⟩
      · rw [haction]
        exact hrecorded.closeStep haction (hlegs positionId) (htrade.open_kept haction)
      · rw [haction]
        rcases registerRemainder_cases hregister with ⟨-, rfl⟩ | ⟨_, _, _, _, -, -, -, -, rfl⟩
        · exact closeLeg_closeStep hfirst hclose
        · exact (closeLeg_closeStep hfirst hclose).congr rfl rfl rfl

end Steps

section Registry

variable {st st' : EngineState} {orderId other : OrderId} {snapshot : ChainSnapshot}
  {reasons : CloseReasons} {kept : PendingEntry}

/-- The reason survives a partial fill. -/
theorem settleEntry_reason {entry entry₀ : PendingEntry} {count : Nat} {filled : Quantity}
    (hentry : st.pending[orderId]? = some entry₀) (hpending : entry.pending = entry₀.pending)
    (hreason : entry.reason = entry₀.reason)
    (h : st.settleEntry orderId entry count filled = .ok st')
    (hkept : st'.pending[other]? = some kept) :
    ∃ old, st.pending[other]? = some old ∧ old.reason = kept.reason ∧
      old.pending.intent.action = kept.pending.intent.action := by
  rcases settleEntry_cases h with ⟨-, rfl⟩ | ⟨_, _, -, -, rfl⟩
  · rw [OrderedMap.getElem?_erase] at hkept
    split_ifs at hkept
    exact ⟨kept, hkept, rfl, rfl⟩
  · rw [OrderedMap.getElem?_insert] at hkept
    split_ifs at hkept with heq
    · cases hkept
      rw [heq]
      exact ⟨entry₀, hentry, hreason.symm, by rw [← hpending]⟩
    · exact ⟨kept, hkept, rfl, rfl⟩

theorem registerPending_reason {pending : Std.TreeMap OrderId PendingEntry} {intent : OrderIntent}
    {remaining : Quantity} {fillsSoFar : Bounded u32} {tradeId : Option TradeId}
    {positionId : Option PositionId} {reason : Option ExitReason}
    (hkept : (registerPending pending orderId intent remaining fillsSoFar tradeId positionId
      reason)[other]? = some kept) :
    pending[other]? = some kept ∨
      other = orderId ∧ kept.reason = reason ∧ kept.pending.intent.action = intent.action := by
  rw [registerPending, OrderedMap.getElem?_insert] at hkept
  split_ifs at hkept with heq
  · cases hkept
    exact .inr ⟨heq, rfl, rfl⟩
  · exact .inl hkept

/-- A close that rests in part is registered with the reason of its place. -/
theorem registerRemainder_reason {stepTrade : Option TradeId} {idx produced : Nat}
    {intent : OrderIntent} {opened : Option PositionId} {filled : Quantity}
    (h : st.registerRemainder stepTrade idx orderId intent opened produced filled reasons =
      .ok st') (hkept : st'.pending[other]? = some kept)
    (hclose : kept.pending.intent.action ≠ .Open) :
    st.pending[other]? = some kept ∨
      other = orderId ∧ kept.reason = some (reasons.reasonFor idx) := by
  unfold EngineState.registerRemainder at h
  split_ifs at h
  · simp only [bind_ok_iff, pure_ok_iff] at h
    obtain ⟨_, -, _, -, rfl⟩ := h
    rcases registerPending_reason hkept with hold | ⟨heq, hreason, haction⟩
    · exact .inl hold
    · refine .inr ⟨heq, hreason.trans ?_⟩
      cases hintent : intent.action with
      | Open => exact absurd (haction.trans hintent) hclose
      | Close positionId => rfl
  · cases h
    exact .inl hkept

/-- Where the reason of a resting close comes from. -/
theorem applyEvent_reason {s t : StepState} {ev : OrderEvent}
    (h : applyEvent reasons snapshot s ev = .ok t) (hkept : t.engine.pending[other]? = some kept)
    (hclose : kept.pending.intent.action ≠ .Open) :
    (∃ old, s.engine.pending[other]? = some old ∧ old.reason = kept.reason ∧
        old.pending.intent.action = kept.pending.intent.action) ∨
      ∃ idx intent run, ev = .submitted idx other intent run ∧
        kept.reason = some (reasons.reasonFor idx) := by
  cases ev with
  | carried orderId run =>
    obtain ⟨engine, happly, h⟩ := bind_ok_iff.1 h
    cases h
    obtain ⟨entry, agg, first, hentry, -, -, hcases⟩ := applyCarryGroup_cases happly
    rcases hcases with ⟨-, st₁, tradeId, st₂, positionId, st₃, htrade, hleg, hfills, hsettle⟩ |
      ⟨positionId, st₁, -, hleg, hsettle⟩
    · have hkeeps := ((tradeFor_keepsOrders htrade).trans (carryOpenLeg_keepsOrders hleg)).trans
        (fills_sameLegs (fun _ _ _ h => openFill_sameLegs h) hfills).keepsOrders
      rw [← hkeeps.pending] at hentry ⊢
      refine .inl (settleEntry_reason hentry ?_ ?_ hsettle hkept)
      · rfl
      · rfl
    · have hkeeps := closeLeg_keepsOrders hleg
      rw [← hkeeps.pending] at hentry ⊢
      exact .inl (settleEntry_reason hentry rfl rfl hsettle hkept)
  | withdrawn orderId =>
    cases h
    simp only [EngineState.withdraw, OrderedMap.getElem?_erase] at hkept
    split_ifs at hkept
    exact .inl ⟨kept, hkept, rfl, rfl⟩
  | submitted idx orderId intent run =>
    obtain ⟨⟨engine, trade⟩, happly, h⟩ := bind_ok_iff.1 h
    cases h
    have hnew : ∀ st₁ : EngineState, st₁.pending = s.engine.pending →
        (st₁.pending[other]? = some kept ∨
          other = orderId ∧ kept.reason = some (reasons.reasonFor idx)) →
        (∃ old, s.engine.pending[other]? = some old ∧ old.reason = kept.reason ∧
            old.pending.intent.action = kept.pending.intent.action) ∨
          ∃ idx' intent' run', OrderEvent.submitted idx orderId intent run =
            .submitted idx' other intent' run' ∧ kept.reason = some (reasons.reasonFor idx') := by
      rintro st₁ hpending (hold | ⟨rfl, hreason⟩)
      · exact .inl ⟨kept, hpending ▸ hold, rfl, rfl⟩
      · exact .inr ⟨idx, intent, run, rfl, hreason⟩
    rcases applySubmit_cases happly with ⟨rfl, -, hrest⟩ | ⟨agg, first, -, -, hfilled⟩
    · rcases hrest with ⟨haction, st₁, tradeId, htrade, -, rfl⟩ | ⟨-, -, rfl⟩
      · refine hnew _ (tradeFor_keepsOrders htrade).pending
          ((registerPending_reason hkept).imp_right fun hnamed => ?_)
        exact absurd (hnamed.2.2.trans haction) hclose
      · refine hnew s.engine rfl
          ((registerPending_reason hkept).imp_right fun hnamed => ?_)
        exact ⟨hnamed.1, hnamed.2.1⟩
    · rcases hfilled with ⟨-, st₁, tradeId, st₂, positionId, st₃, htrade, -, hleg, hfills,
        hregister⟩ | ⟨positionId, st₁, -, -, hleg, hregister⟩
      · have hkeeps := ((tradeFor_keepsOrders htrade).trans (openLeg_keepsOrders hleg)).trans
          (fills_sameLegs (fun _ _ _ h => openFill_sameLegs h) hfills).keepsOrders
        exact hnew _ hkeeps.pending (registerRemainder_reason hregister hkept hclose)
      · exact hnew _ (closeLeg_keepsOrders hleg).pending
          (registerRemainder_reason hregister hkept hclose)

end Registry

section Invariant

/-- The exit reasons of the terminal rows of a leg. -/
def exitRows (positionId : PositionId) (rows : List PositionSnapshot) : List ExitReason :=
  (rowsOf positionId rows).filterMap PositionSnapshot.exitReason

/-- The exit reason of the last trade of a leg. -/
def lastExit (positionId : PositionId) (trades : List ClosedTrade) : Option ExitReason :=
  (trades.filter fun trade => trade.positionId = positionId).getLast?.map ClosedTrade.exitReason

/-- The close an event realises: the order whose fills close contracts, and the leg they close. -/
def realised? (orders : List (OrderId × OrderIntent)) (ev : OrderEvent) :
    Option (OrderId × PositionId) :=
  if ev.fills = [] then none
  else (orders.find? fun order => order.1 = ev.orderId).bind fun order =>
    order.2.action.closes?.map (ev.orderId, ·)

/-- The trade of a realised close: it closes the leg, and its reason is one of the order. -/
def ShowsReason (reasons : List (OrderId × ExitReason)) (close : OrderId × PositionId)
    (trade : ClosedTrade) : Prop :=
  trade.positionId = close.2 ∧ (close.1, trade.exitReason) ∈ reasons

/-- A leg that is gone has one terminal row, with the reason of its last trade; an open leg and
one that never was have none. -/
structure RowsAgree (st : EngineState) : Prop where
  rows : ∀ positionId, exitRows positionId st.bundle.positions =
    if (st.bundle.openLegs[positionId]?).isSome then []
    else (lastExit positionId st.tradeLog.closed).toList
  minted : ∀ row ∈ st.bundle.positions, row.exitReason ≠ none →
    row.positionId.value < st.ids.position.value

/-- Every resting close keeps the reason of its order, and every trade shows the reason of the
order that closed. -/
structure ReasonsKept (orders : List (OrderId × OrderIntent))
    (reasons : List (OrderId × ExitReason)) (events : List OrderEvent) (st : EngineState) :
    Prop where
  captured : ∀ (orderId : OrderId) (entry : PendingEntry), st.pending[orderId]? = some entry →
    entry.pending.intent.action ≠ .Open →
      ∃ reason, entry.reason = some reason ∧ (orderId, reason) ∈ reasons
  trades : List.Forall₂ (ShowsReason reasons) (events.filterMap (realised? orders))
    st.tradeLog.closed
  agree : RowsAgree st

variable {orders : List (OrderId × OrderIntent)} {reasons : List (OrderId × ExitReason)}
  {events : List OrderEvent} {ev : OrderEvent} {st st' : EngineState} {orderId : OrderId}
  {positionId : PositionId} {intent : OrderIntent}

theorem exitRows_append (rows : List PositionSnapshot) (row : PositionSnapshot) :
    exitRows positionId (rows ++ [row]) = exitRows positionId rows ++
      if row.positionId = positionId then row.exitReason.toList else [] := by
  unfold exitRows rowsOf
  rw [List.filter_append, List.filterMap_append]
  by_cases hrow : row.positionId = positionId
  · cases hreason : row.exitReason <;> simp [hrow, hreason]
  · simp [hrow]

theorem lastExit_append (trades : List ClosedTrade) (trade : ClosedTrade) :
    lastExit positionId (trades ++ [trade]) =
      if trade.positionId = positionId then some trade.exitReason
      else lastExit positionId trades := by
  unfold lastExit
  rw [List.filter_append]
  by_cases htrade : trade.positionId = positionId
  · simp [htrade]
  · simp [htrade]

theorem exitRows_eq_nil {rows : List PositionSnapshot}
    (h : ∀ row ∈ rows, row.exitReason ≠ none → row.positionId ≠ positionId) :
    exitRows positionId rows = [] := by
  refine List.filterMap_eq_nil_iff.2 fun row hrow => ?_
  obtain ⟨hmem, hid⟩ := List.mem_filter.1 hrow
  by_contra hreason
  exact h row hmem hreason (of_decide_eq_true hid)

/-- An event keeps the terminal rows in agreement with the trades. -/
theorem RowsAgree.step {close : Option (PositionId × ExitReason)} (h : RowsAgree st)
    (hminted : ∀ positionId : PositionId, (st.bundle.openLegs[positionId]?).isSome →
      positionId.value < st.ids.position.value)
    (hstep : CloseStep st st' close) : RowsAgree st' := by
  cases hstep with
  | kept trades rows next legs =>
    constructor
    · intro positionId
      rw [rows, trades]
      rcases legs positionId with hsame | ⟨hfresh, hopen⟩
      · rw [hsame]
        exact h.rows positionId
      · rw [if_pos hopen]
        apply exitRows_eq_nil
        rintro row hrow hreason rfl
        have hlt := h.minted row hrow hreason
        omega
    · intro row hrow hreason
      rw [rows] at hrow
      exact (h.minted row hrow hreason).trans_le next
  | closed closing reason trade leg_some leg reason_eq trades next rows =>
    rcases rows with ⟨rows, legs⟩ | ⟨row, hrow, hreason, rows, legs⟩
    · constructor
      · intro positionId
        rw [rows, legs, trades, h.rows positionId, lastExit_append]
        by_cases heq : trade.positionId = positionId
        · rw [leg] at heq
          rw [← heq, if_pos leg_some, if_pos leg_some]
        · rw [if_neg heq]
      · rw [rows, next]
        exact h.minted
    · constructor
      · intro positionId
        rw [rows, legs, trades, exitRows_append, lastExit_append, OrderedMap.getElem?_erase, hrow,
          leg, h.rows positionId, hreason, reason_eq]
        by_cases heq : closing = positionId
        · rw [← heq, if_pos leg_some]
          simp
        · simp [heq, Ne.symm heq]
      · rw [rows, next]
        refine List.forall_mem_append.2 ⟨h.minted, fun other hother _ => ?_⟩
        rw [List.mem_singleton.1 hother, hrow]
        exact hminted closing leg_some

theorem realised?_eq (ev : OrderEvent) (hinOrder : IssuedInOrder orders)
    (hmem : (ev.orderId, intent) ∈ orders) :
    realised? orders ev =
      if ev.fills = [] then none else intent.action.closes?.map (ev.orderId, ·) := by
  have hfound : orders.find? (fun order => order.1 = ev.orderId) = some (ev.orderId, intent) := by
    have hsome : (orders.find? fun order => order.1 = ev.orderId).isSome :=
      List.find?_isSome.2 ⟨_, hmem, decide_eq_true rfl⟩
    obtain ⟨order, horder⟩ := Option.isSome_iff_exists.1 hsome
    have hid : order.1 = ev.orderId := by simpa using List.find?_some horder
    obtain ⟨orderId, found⟩ := order
    subst hid
    rw [horder, hinOrder.unique (List.mem_of_find?_eq_some horder) hmem]
  rw [realised?, hfound, Option.bind_some]

/-- Nothing is attributed for an event that realises no close. -/
theorem CloseStep.unattributed (hstep : CloseStep st st' none) (hreal : realised? orders ev = none)
    (h : List.Forall₂ (ShowsReason reasons) (events.filterMap (realised? orders))
      st.tradeLog.closed) :
    List.Forall₂ (ShowsReason reasons) ((events ++ [ev]).filterMap (realised? orders))
      st'.tradeLog.closed := by
  rw [List.filterMap_append, List.filterMap_cons_none hreal, List.filterMap_nil, List.append_nil]
  cases hstep with
  | kept trades =>
    rw [trades]
    exact h

/-- The trade of an event, if it realises a close, is attributed to the order of the event. -/
theorem CloseStep.attributed {target : Option PositionId} {reason : ExitReason}
    (hstep : CloseStep st st' (target.map (·, reason)))
    (hreal : realised? orders ev = target.map (orderId, ·))
    (hreason : target ≠ none → (orderId, reason) ∈ reasons)
    (h : List.Forall₂ (ShowsReason reasons) (events.filterMap (realised? orders))
      st.tradeLog.closed) :
    List.Forall₂ (ShowsReason reasons) ((events ++ [ev]).filterMap (realised? orders))
      st'.tradeLog.closed := by
  cases target with
  | none => exact CloseStep.unattributed hstep hreal h
  | some positionId =>
    cases hstep with
    | closed _ _ trade _ leg reason_eq trades =>
      rw [List.filterMap_append, List.filterMap_cons_some hreal, List.filterMap_nil, trades]
      refine List.rel_append h (.cons ⟨leg, ?_⟩ .nil)
      rw [reason_eq]
      exact hreason nofun

/-- One event keeps the reasons. -/
theorem ReasonsKept.event {s t : StepState} {snapshot : ChainSnapshot} {ranges : CloseReasons}
    (hk : ReasonsKept orders reasons events s.engine) (hlinked : Linked s.engine)
    (hinOrder : IssuedInOrder orders) (hsourced : Sourced orders s.engine.pending)
    (hmem : ∀ sub, ev.submission? = some sub → sub ∈ orders)
    (hplaced : ∀ idx orderId intent run, ev = .submitted idx orderId intent run →
      (orderId, ranges.reasonFor idx) ∈ reasons)
    (h : applyEvent ranges snapshot s ev = .ok t) :
    ReasonsKept orders reasons (events ++ [ev]) t.engine := by
  have hlegs : ∀ positionId, (findLeg s.engine.inventory positionId).isSome →
      (s.engine.bundle.openLegs[positionId]?).isSome := fun positionId hsome => by
    rw [hlinked.openLegs_isSome]
    exact hsome
  have hminted : ∀ positionId : PositionId, (s.engine.bundle.openLegs[positionId]?).isSome →
      positionId.value < s.engine.ids.position.value := fun positionId hsome => by
    rw [hlinked.openLegs_isSome] at hsome
    exact hlinked.minted positionId (findLeg_isSome.2 hsome)
  have hcaptured : ∀ (orderId : OrderId) (entry : PendingEntry),
      t.engine.pending[orderId]? = some entry → entry.pending.intent.action ≠ .Open →
        ∃ reason, entry.reason = some reason ∧ (orderId, reason) ∈ reasons := by
    intro orderId entry hentry hclose
    rcases applyEvent_reason h hentry hclose with ⟨old, hold, hsame, haction⟩ |
      ⟨idx, intent, run, rfl, hreason⟩
    · obtain ⟨reason, hreason, hin⟩ := hk.captured orderId old hold (by rwa [haction])
      exact ⟨reason, hsame ▸ hreason, hin⟩
    · exact ⟨_, hreason, hplaced idx orderId intent run rfl⟩
  have hstep := applyEvent_closeStep hlegs h
  cases ev with
  | carried orderId run =>
    obtain ⟨hrun, entry, hentry, hclose⟩ := hstep
    obtain ⟨-, intent, hissued, hremains⟩ := hsourced orderId entry hentry
    have haction : intent.action = entry.pending.intent.action := by rw [hremains]
    refine ⟨hcaptured, ?_, hk.agree.step hminted hclose⟩
    have hreal := realised?_eq (.carried orderId run) hinOrder hissued
    rw [haction] at hreal
    refine hclose.attributed (hreal.trans (if_neg hrun)) ?_ hk.trades
    · intro htarget
      have hopen : entry.pending.intent.action ≠ .Open := fun hopen => htarget (by rw [hopen]; rfl)
      obtain ⟨reason, hreason, hin⟩ := hk.captured orderId entry hentry hopen
      rw [hreason]
      exact hin
  | withdrawn orderId =>
    refine ⟨hcaptured, ?_, hk.agree.step hminted hstep⟩
    exact CloseStep.unattributed hstep rfl hk.trades
  | submitted idx orderId intent run =>
    refine ⟨hcaptured, ?_, hk.agree.step hminted hstep⟩
    have hreal := realised?_eq (.submitted idx orderId intent run) hinOrder (hmem _ rfl)
    change CloseStep s.engine t.engine (if run = [] then none else _) at hstep
    change _ = if run = [] then none else _ at hreal
    by_cases hrun : run = []
    · rw [if_pos hrun] at hstep hreal
      exact CloseStep.unattributed hstep hreal hk.trades
    · rw [if_neg hrun] at hstep hreal
      exact hstep.attributed hreal (fun _ => hplaced idx orderId intent run rfl) hk.trades

end Invariant

section Runs

variable {S X R : Type} [ExecutionModel X] [TrackingModel X] [Strategy S R] [SeedableRng R]
  {r : Setup S X} {n : Nat} {log : List (Batch X)} {b : Batch X} {after : EngineState}
  {s : RunState S X R} {orders : List (OrderId × OrderIntent)}

theorem ReasonsKept.mono {reasons reasons' : List (OrderId × ExitReason)}
    {events : List OrderEvent} {st : EngineState} (h : ReasonsKept orders reasons events st)
    (hsub : reasons ⊆ reasons') : ReasonsKept orders reasons' events st where
  captured orderId entry hentry hclose := by
    obtain ⟨reason, hreason, hin⟩ := h.captured orderId entry hentry hclose
    exact ⟨reason, hreason, hsub hin⟩
  trades := h.trades.imp fun _ _ hshows => ⟨hshows.1, hsub hshows.2⟩
  agree := h.agree

/-- Every event of a log, in order. -/
def logEvents (log : List (Batch X)) : List OrderEvent := log.flatMap Batch.events

omit [Strategy S R] [SeedableRng R] in
/-- One call keeps the reasons. -/
theorem reasonsKept_call (ht : OrdersTracked log b.model b.before) (hlinked : Linked b.before)
    (ha : OpensAnchored (fun _ _ => True) b.before) (hinOrder : IssuedInOrder orders)
    (hissued : issued (log ++ [b]) ⊆ orders)
    (hk : ReasonsKept orders (orderReasons log) (logEvents log) b.before)
    (hexec : b.Executed after) :
    ReasonsKept orders (orderReasons (log ++ [b])) (logEvents (log ++ [b])) after := by
  obtain ⟨ids, hmint, hstart⟩ := hexec.minted
  obtain ⟨hposition, -⟩ := mintSubmitIds_eq_ok hmint
  have hgrown : orderReasons (log ++ [b]) = orderReasons log ++ b.orderReasons := by
    simp [orderReasons]
  have hevents : logEvents (log ++ [b]) = logEvents log ++ b.events := by
    simp [logEvents]
  have hrun := (ht.events_done hexec (fun _ => trivial) hexec.carriesOwn along_true
    (fun done st => Linked st ∧ OpensAnchored (fun _ _ => True) st ∧
      ReasonsKept orders (orderReasons (log ++ [b])) (logEvents log ++ done) st) ?_ ?_).1
  · rw [hevents]
    exact hrun.2.2
  · rintro done s t ev hev - hecho hsourced ⟨hlinked, ha, hk⟩ happly
    obtain ⟨hlinked', ha', -⟩ := applyEvent_linked hlinked ha hecho happly
    refine ⟨hlinked', ha', ?_⟩
    rw [← List.append_assoc]
    refine hk.event hlinked hinOrder (hsourced.mono hissued) (fun sub hsub => hissued ?_) ?_ happly
    · rw [issued_append]
      exact List.mem_append_right _ (hexec.submission_mem hev hsub)
    · rintro idx orderId intent run rfl
      rw [hgrown]
      exact List.mem_append_right _ (hexec.reason_mem hev)
  · rw [hstart, List.append_nil]
    have hkeeps : Keeps b.before { b.before with ids } := .frame hposition rfl
    refine ⟨hlinked.frame rfl hposition rfl rfl, hkeeps.opensAnchored rfl ha, ?_⟩
    have hsub : orderReasons log ⊆ orderReasons (log ++ [b]) := by
      rw [hgrown]
      exact List.subset_append_left _ _
    have hold := hk.mono hsub
    refine ⟨hold.captured, hold.trades, hold.agree.rows, fun row hrow hreason => ?_⟩
    change row.positionId.value < ids.position.value
    rw [hposition]
    exact hold.agree.minted row hrow hreason

theorem reasonsKept_new (initial : Cents) : ReasonsKept orders [] [] (.new initial) where
  captured orderId entry hentry := by simp [EngineState.new] at hentry
  trades := .nil
  agree := ⟨fun positionId => by simp [EngineState.new, BundleCollector.empty,
    TradeLogCollector.empty, exitRows, rowsOf, lastExit], List.forall_mem_nil _⟩

omit [ExecutionModel X] [TrackingModel X] [Strategy S R] [SeedableRng R] in
/-- The settlement adds open rows only. -/
theorem ReasonsKept.settle {reasons : List (OrderId × ExitReason)} {events : List OrderEvent}
    {st st' : EngineState} {snapshot : ChainSnapshot} {isLast : Bool} {point : EquityPoint}
    (hlinked : Linked st) (hk : ReasonsKept orders reasons events st)
    (h : st.Settled snapshot isLast point st') : ReasonsKept orders reasons events st' := by
  obtain ⟨rows, hbundle, hall, -⟩ := settled_kinds hlinked h
  have hsame := h.sameLegs
  have hrows : ∀ positionId, exitRows positionId st'.bundle.positions =
      exitRows positionId st.bundle.positions := by
    intro positionId
    have hnone : exitRows positionId rows = [] :=
      exitRows_eq_nil fun row hrow hreason => absurd (hall row hrow).2.1 hreason
    rw [hbundle, exitRows, rowsOf, List.filter_append, List.filterMap_append]
    exact (congrArg (exitRows positionId st.bundle.positions ++ ·) hnone).trans (List.append_nil _)
  refine ⟨?_, ?_, ⟨fun positionId => ?_, fun row hrow hreason => ?_⟩⟩
  · rw [hsame.pending]
    exact hk.captured
  · rw [hsame.opens]
    exact hk.trades
  · rw [hrows, hsame.openLegs, hsame.opens]
    exact hk.agree.rows positionId
  · rw [hbundle] at hrow
    rw [hsame.ids]
    exact hk.agree.minted row
      ((List.mem_append.1 hrow).resolve_right fun hnew => hreason (hall row hnew).2.1) hreason

/-- In every reachable state the trades and the terminal rows show the reasons of the orders. -/
theorem Setup.play_reasonsKept (hidle : Idle r.execution) (h : r.play n = .ok (log, s)) :
    (orderReasons log).map Prod.fst = (issued log).map Prod.fst ∧
      ReasonsKept (issued log) (orderReasons log) (logEvents log) s.engine := by
  suffices hrun : OrdersTracked log s.execution s.engine ∧ Linked s.engine ∧
      OpensAnchored (fun _ _ => True) s.engine ∧
      (orderReasons log).map Prod.fst = (issued log).map Prod.fst ∧
      ∀ orders, IssuedInOrder orders → issued log ⊆ orders →
        ReasonsKept orders (orderReasons log) (logEvents log) s.engine by
    obtain ⟨htracked, -, -, hids, hkept⟩ := hrun
    exact ⟨hids, hkept _ htracked.inOrder (List.Subset.refl _)⟩
  refine r.play_tracked hidle (fun log _ st => Linked st ∧ OpensAnchored (fun _ _ => True) st ∧
    (orderReasons log).map Prod.fst = (issued log).map Prod.fst ∧
    ∀ orders, IssuedInOrder orders → issued log ⊆ orders →
      ReasonsKept orders (orderReasons log) (logEvents log) st) ?_ ?_ ?_ h
  · exact fun initial _ => ⟨linked_new initial, opensAnchored_new initial, rfl,
      fun orders _ _ => reasonsKept_new initial⟩
  · rintro log b after ht ⟨hlinked, ha, hids, hk⟩ hexec -
    obtain ⟨hlinked', ha'⟩ := linked_call ht (fun _ => trivial) hexec.carriesOwn hlinked ha hexec
    have hprior : issued log ⊆ issued (log ++ [b]) := by
      rw [issued_append]
      exact List.subset_append_left _ _
    refine ⟨hlinked', ha', ?_, fun orders hsorted hissued => ?_⟩
    · rw [issued_append, List.map_append, ← hids, ← hexec.orderReasons_ids, ← List.map_append]
      simp [orderReasons]
    · exact reasonsKept_call ht hlinked ha hsorted hissued
        (hk orders hsorted (List.Subset.trans hprior hissued)) hexec
  · rintro log x st snapshot isLast point st' ⟨hlinked, ha, hids, hk⟩ hsettled
    obtain ⟨hlinked', hkeeps, hpending⟩ := hsettled.sameLegs.linked hlinked
    exact ⟨hlinked', hkeeps.opensAnchored hpending ha, hids, fun orders hsorted hissued =>
      (hk orders hsorted hissued).settle hlinked hsettled⟩

/-- The realised closes of a log, in order: the order whose fills close contracts, and the leg. -/
def closings (log : List (Batch X)) : List (OrderId × PositionId) :=
  (logEvents log).filterMap (realised? (issued log))

/-- Every realised close is recorded with the reason of the phase that issued its order: its trade
row, and the terminal row when the leg is gone. -/
structure ClosesByPhase (r : Setup S X) (log : List (Batch X)) (st : EngineState) : Prop where
  trades : List.Forall₂ (fun (close : OrderId × PositionId) (trade : ClosedTrade) =>
      trade.positionId = close.2 ∧ (∃ phase, r.IssuedIn log close.1 phase) ∧
        ∀ phase, r.IssuedIn log close.1 phase → trade.exitReason = phase.exitReason)
    (closings log) st.tradeLog.closed
  rows : ∀ positionId, exitRows positionId st.bundle.positions =
    if (findLeg st.inventory positionId).isSome then []
    else (lastExit positionId st.tradeLog.closed).toList

theorem Setup.play_closesByPhase (happends : AppendsOnly S) (hidle : Idle r.execution)
    (h : r.play n = .ok (log, s)) : ClosesByPhase r log s.engine := by
  obtain ⟨htracked, hlinked, -⟩ := r.play_linked hidle h
  obtain ⟨hids, hk⟩ := r.play_reasonsKept hidle h
  have hdistinct : ((orderReasons log).map Prod.fst).Nodup := by
    rw [hids]
    exact List.pairwise_map.2 (htracked.inOrder.imp fun hlt heq =>
      absurd (congrArg Id.value heq) (ne_of_lt hlt))
  constructor
  · refine hk.trades.imp fun close trade ⟨hleg, hreason⟩ => ⟨hleg, ?_, fun phase hissued => ?_⟩
    · obtain ⟨phase, hissued, -⟩ := Setup.exists_issuedIn happends h hreason
      exact ⟨phase, hissued⟩
    · exact congrArg Prod.snd (List.inj_on_of_nodup_map hdistinct hreason
        (Setup.IssuedIn.reason happends h hissued) rfl)
  · intro positionId
    rw [hk.agree.rows positionId, hlinked.openLegs_isSome]

end Runs

section Modes

variable {S R B : Type} [DecimalArith] [Book B ObOrderId] [Strategy S R] [SeedableRng R]

/-- Close provenance: in either mode, at every step of a run of a strategy that only appends, the
exit reason on record for a realised close is the policy's when its order was issued in the exits
phase, `end_of_data` when it was issued in the final closes, and a manual close otherwise. -/
theorem close_reasons_by_phase (happends : AppendsOnly S) (config : BacktestConfig)
    (feed : MaterialisedFeed) (strategy : S) (n : Nat) :
    (∀ log s, (Setup.naive config feed strategy).play n = .ok (log, s) →
        ClosesByPhase (Setup.naive config feed strategy) log s.engine) ∧
      ∀ log s, (Setup.realistic B config feed strategy).play n = .ok (log, s) →
        ClosesByPhase (Setup.realistic B config feed strategy) log s.engine :=
  ⟨fun _ _ h => Setup.play_closesByPhase happends (idle_naive config feed strategy) h,
    fun _ _ h => Setup.play_closesByPhase happends (idle_realistic config feed strategy) h⟩

end Modes

section Small

/-- A strategy with prepared commands for its startup, for the exits and the entries of every step,
and for the end, and one policy reason. -/
structure PhasedScript where
  opening : List OrderCommand
  closing : List (List OrderCommand)
  entering : List (List OrderCommand)
  ending : List OrderCommand
  policy : ExitReason

instance : Strategy PhasedScript Unit where
  onStart s ctx cmds := .ok (s, ctx.rng, cmds ++ s.opening)
  exits s _ cmds := .ok ({ s with closing := s.closing.tail }, cmds ++ s.closing.head?.getD [])
  onSnapshot s ctx cmds :=
    .ok ({ s with entering := s.entering.tail }, ctx.rng, cmds ++ s.entering.head?.getD [])
  onEnd s ctx cmds := .ok (s, ctx.rng, cmds ++ s.ending)
  exitReason s := s.policy

theorem appendsOnly_phasedScript : AppendsOnly PhasedScript := by
  constructor
  all_goals
    intros
    rename_i h
    cases h
    exact List.prefix_append _ _

open SmallMarket

/-- Three lots are bought at the start. One is offered above the market by the exits of the second
step, one is sold at the market by its entries, and the last one is sold by the final closes. -/
def threeCloses : PhasedScript where
  opening := takeAll
  closing := [[], [.Submit (order (.Close ⟨lit 1⟩) .Short (lot 1) (some (lit 95)) .Gtc)]]
  entering := [[], closeOne .Short]
  ending := closeOne .Short
  policy := .StopLoss

/-- The offer rests, and is filled by the refresh of the third step: its trade still shows the
policy reason, and the terminal row that of the final close. -/
theorem close_reasons_by_phase_threeCloses : ∃ log s,
    (Setup.realistic (ReferenceBook ObOrderId) (config .Realistic) dipFeed threeCloses).play 3 =
        .ok (log, s) ∧
      ClosesByPhase (Setup.realistic (ReferenceBook ObOrderId) (config .Realistic) dipFeed
        threeCloses) log s.engine ∧
      s.engine.tradeLog.closed.map ClosedTrade.exitReason =
        [.ManualClose, .StopLoss, .Other "end_of_data"] ∧
      exitRows ⟨⟨1, by decide⟩⟩ s.engine.bundle.positions = [.Other "end_of_data"] := by
  obtain ⟨⟨log, s⟩, h, hcheck⟩ := exists_ok_of_check
    (r := (Setup.realistic (ReferenceBook ObOrderId) (config .Realistic) dipFeed
      threeCloses).play 3)
    (fun run => decide (run.2.engine.tradeLog.closed.map ClosedTrade.exitReason =
        [.ManualClose, .StopLoss, .Other "end_of_data"] ∧
      exitRows ⟨⟨1, by decide⟩⟩ run.2.engine.bundle.positions = [.Other "end_of_data"]))
    (by decide +kernel)
  exact ⟨log, s, h, (close_reasons_by_phase appendsOnly_phasedScript _ _ _ 3).2 log s h,
    of_decide_eq_true hcheck⟩

end Small

end IronCondor
