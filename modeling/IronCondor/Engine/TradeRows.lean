import IronCondor.Engine.AssembledFills
import IronCondor.Engine.FillIdentity
import IronCondor.Engine.TerminalRow
import IronCondor.Engine.Trades

/-! # The trade log, read off the fills

The log keeps its own copy of every open leg. `Logged` is what one run of fills does to it: an
open enters its leg or grows it, a close writes one row and shrinks its leg. Over a run the log
is a function of the recorded fills and of the orders they belong to. -/
namespace IronCondor

open Checked ExceptRun OrderBook

/-- The row a close of `agg` writes for the leg `leg`. -/
structure ClosingRow (leg : OpenLeg) (positionId : PositionId) (agg : FillAggregate)
    (snapshot : ChainSnapshot) (trade : ClosedTrade) : Prop where
  tradeId : trade.tradeId = leg.tradeId
  positionId : trade.positionId = positionId
  contract : trade.contract = leg.contract
  side : trade.side = leg.side
  quantity : trade.quantity = agg.quantity
  contractMultiplier : trade.contractMultiplier = snapshot.spec.contractMultiplier
  entryPremium : trade.entryPremium = leg.entryPremium
  exitPrice : trade.exitPrice = agg.vwap
  closeFees : trade.closeFees = agg.fees
  closeSlippage : trade.closeSlippage = agg.slippage
  entryTs : trade.entryTs = leg.entryTs
  exitTs : trade.exitTs = snapshot.ts
  pnl : realizedPnlCents leg.side leg.entryPremium agg.vwap agg.quantity
    snapshot.spec.contractMultiplier agg.fees = .ok trade.realizedPnl

/-- What the fills `run` of an order do to the trade log; `held` is the leg an open has already
built, and `next` the next leg id. -/
inductive Logged (held : Option PositionId) (intent : OrderIntent) (run : List Fill)
    (snapshot : ChainSnapshot) (next : Int) (t : TradeLogCollector) (positionId : PositionId) :
    TradeLogCollector → Prop
  | opened (first : Fill) (leg : OpenLeg) (action : intent.action = .Open) (fresh : held = none)
      (minted : positionId.value = next) (head : run.head? = some first)
      (contract : leg.contract = first.contract) (side : leg.side = first.side)
      (entryTs : leg.entryTs = snapshot.ts) (size : leg.remaining.value = totalQuantity run) :
      Logged held intent run snapshot next t positionId
        { t with opens := t.opens.insert positionId leg }
  | extended (leg : OpenLeg) (remaining : Bounded u32) (entryPremium : PriceCents)
      (action : intent.action = .Open) (found : held = some positionId)
      (leg_eq : t.opens[positionId]? = some leg)
      (grown : remaining.value = leg.remaining.value + totalQuantity run) :
      Logged held intent run snapshot next t positionId
        { t with opens := t.opens.insert positionId { leg with remaining, entryPremium } }
  | reduced (leg : OpenLeg) (agg : FillAggregate) (trade : ClosedTrade) (remaining : Bounded u32)
      (action : intent.action = .Close positionId) (average : aggregateFills run = .ok agg)
      (leg_eq : t.opens[positionId]? = some leg) (row : ClosingRow leg positionId agg snapshot trade)
      (left : remaining.value = leg.remaining.value - totalQuantity run) :
      Logged held intent run snapshot next t positionId
        { opens := t.opens.insert positionId { leg with remaining }, closed := t.closed ++ [trade] }
  | flattened (leg : OpenLeg) (agg : FillAggregate) (trade : ClosedTrade)
      (action : intent.action = .Close positionId) (average : aggregateFills run = .ok agg)
      (leg_eq : t.opens[positionId]? = some leg) (row : ClosingRow leg positionId agg snapshot trade)
      (all : leg.remaining.value ≤ totalQuantity run) :
      Logged held intent run snapshot next t positionId
        { opens := t.opens.erase positionId, closed := t.closed ++ [trade] }

section Events

variable {st st' : EngineState} {orderId : OrderId} {tradeId : TradeId}
  {positionId : PositionId} {first : Fill} {agg : FillAggregate} {run : List Fill}
  {base : Bounded u32} {snapshot : ChainSnapshot} {reasons : CloseReasons} {intent : OrderIntent}
  {held : Option PositionId}

theorem recordClose_logged {t t' : TradeLogCollector} {reason : ExitReason} {next : Int}
    (haction : intent.action = .Close positionId) (hagg : aggregateFills run = .ok agg)
    (h : t.recordClose positionId agg.vwap agg.fees agg.slippage snapshot.ts agg.quantity
      snapshot.spec.contractMultiplier reason = .ok t') :
    Logged held intent run snapshot next t positionId t' := by
  have hquantity := (aggregateFills_eq_ok hagg).1
  simp only [TradeLogCollector.recordClose, bind_ok_iff, okOr_eq_ok] at h
  obtain ⟨leg, hleg, pnl, hpnl, h⟩ := h
  split_ifs at h with hfull
  · cases h
    exact .flattened leg agg _ haction hagg hleg ⟨rfl, rfl, rfl, rfl, rfl, rfl, rfl, rfl, rfl, rfl,
      rfl, rfl, hpnl⟩ (hquantity ▸ hfull)
  · simp only [bind_ok_iff, narrow_eq_ok, pure_ok_iff] at h
    obtain ⟨remaining, hremaining, rfl⟩ := h
    exact .reduced leg agg _ remaining haction hagg hleg ⟨rfl, rfl, rfl, rfl, rfl, rfl, rfl, rfl,
      rfl, rfl, rfl, rfl, hpnl⟩ (by rw [hremaining, hquantity])

theorem closeLeg_logged {reason : ExitReason} {next : Int}
    (haction : intent.action = .Close positionId) (hagg : aggregateFills run = .ok agg)
    (h : st.closeLeg orderId positionId run first agg base reason snapshot = .ok st') :
    Logged held intent run snapshot next st.tradeLog positionId st'.tradeLog := by
  simp only [EngineState.closeLeg, bind_ok_iff, Prod.exists] at h
  obtain ⟨_, _, -, tradeLog, hrecord, st₁, hfills, h⟩ := h
  have hlog : st₁.tradeLog = tradeLog :=
    (fills_sameLegs (fun _ _ _ h => closeFill_sameLegs h) hfills).opens
  have hkept : st'.tradeLog = tradeLog := by
    split_ifs at h
    · simp only [bind_ok_iff, pure_ok_iff] at h
      obtain ⟨_, -, rfl⟩ := h
      exact hlog
    · cases h
      exact hlog
  rw [hkept]
  exact recordClose_logged haction hagg hrecord

theorem openLeg_logged (haction : intent.action = .Open) (hfirst : run.head? = some first)
    (hagg : aggregateFills run = .ok agg)
    (h : st.openLeg tradeId first agg snapshot.ts = .ok (st', positionId)) :
    Logged none intent run snapshot st.ids.position.value st.tradeLog positionId
      st'.tradeLog := by
  simp only [EngineState.openLeg, IdCounters.mintPosition, bind_ok_iff, pure_ok_iff, Prod.exists,
    Prod.mk.injEq] at h
  obtain ⟨_, _, ⟨next, _, hmint, rfl, rfl⟩, rfl, rfl⟩ := h
  exact .opened first _ haction rfl (congrArg Bounded.value (mint_eq_ok hmint).1) hfirst rfl rfl rfl
    (aggregateFills_eq_ok hagg).1

theorem carryOpenLeg_logged {entry : PendingEntry} (haction : intent.action = .Open)
    (hfirst : run.head? = some first) (hagg : aggregateFills run = .ok agg)
    (h : st.carryOpenLeg entry tradeId run first agg snapshot.ts = .ok (st', positionId)) :
    Logged entry.positionId intent run snapshot st.ids.position.value st.tradeLog positionId
      st'.tradeLog := by
  unfold EngineState.carryOpenLeg at h
  split at h
  · rename_i hheld
    obtain ⟨_, hextend, h⟩ := bind_ok_iff.1 h
    cases h
    simp only [EngineState.extendLeg, TradeLogCollector.recordOpenExtend, bind_ok_iff, okOr_eq_ok,
      narrow_eq_ok, pure_ok_iff, Prod.exists] at hextend
    obtain ⟨_, premium, -, _, ⟨leg, hleg, remaining, hremaining, rfl⟩, rfl⟩ := hextend
    exact .extended leg remaining premium haction hheld hleg
      (by rw [hremaining, (aggregateFills_eq_ok hagg).1])
  · rename_i hheld
    rw [hheld]
    exact openLeg_logged haction hfirst hagg h

/-- What one event does to the trade log. -/
theorem applyEvent_logged {s t : StepState} {ev : OrderEvent}
    (h : applyEvent reasons snapshot s ev = .ok t) :
    match ev with
    | .carried orderId run => ∃ entry positionId, s.engine.pending[orderId]? = some entry ∧
        Logged entry.positionId entry.pending.intent run snapshot s.engine.ids.position.value
          s.engine.tradeLog positionId t.engine.tradeLog
    | .withdrawn _ => t.engine.tradeLog = s.engine.tradeLog
    | .submitted _ _ intent run => (run = [] ∧ t.engine.tradeLog = s.engine.tradeLog) ∨
        (run ≠ [] ∧ ∃ positionId, Logged none intent run snapshot s.engine.ids.position.value
          s.engine.tradeLog positionId t.engine.tradeLog) := by
  cases ev with
  | carried orderId run =>
    obtain ⟨engine, happly, h⟩ := bind_ok_iff.1 h
    cases h
    obtain ⟨entry, agg, first, hentry, hagg, hfirst, hcases⟩ := applyCarryGroup_cases happly
    rcases hcases with ⟨haction, st₁, tradeId, st₂, positionId, st₃, htrade, hleg, hfills,
      hsettle⟩ | ⟨positionId, st₁, haction, hclose, hsettle⟩
    · obtain ⟨⟨ids, hids, -, rfl⟩, -⟩ := tradeFor_eq_ok htrade
      refine ⟨entry, positionId, hentry, ?_⟩
      rw [settleEntry_tradeLog hsettle,
        (fills_sameLegs (fun _ _ _ h => openFill_sameLegs h) hfills).opens, ← hids]
      exact carryOpenLeg_logged haction hfirst hagg hleg
    · refine ⟨entry, positionId, hentry, ?_⟩
      rw [settleEntry_tradeLog hsettle]
      exact closeLeg_logged haction hagg hclose
  | withdrawn orderId =>
    cases h
    rfl
  | submitted idx orderId intent run =>
    obtain ⟨⟨engine, trade⟩, happly, h⟩ := bind_ok_iff.1 h
    cases h
    rcases applySubmit_cases happly with ⟨hnone, -, hrest⟩ | ⟨agg, first, hfirst, hagg, hfilled⟩
    · refine .inl ⟨hnone, ?_⟩
      rcases hrest with ⟨-, st₁, tradeId, htrade, -, rfl⟩ | ⟨-, -, rfl⟩
      · obtain ⟨⟨_, -, -, rfl⟩, -⟩ := tradeFor_eq_ok htrade
        rfl
      · rfl
    · have hrun : run ≠ [] := by
        rintro rfl
        cases hfirst
      refine .inr ⟨hrun, ?_⟩
      rcases hfilled with ⟨haction, st₁, tradeId, st₂, positionId, st₃, htrade, -, hleg, hfills,
        hregister⟩ | ⟨positionId, st₁, haction, -, hclose, hregister⟩
      · obtain ⟨⟨ids, hids, -, rfl⟩, -⟩ := tradeFor_eq_ok htrade
        refine ⟨positionId, ?_⟩
        rw [registerRemainder_tradeLog hregister,
          (fills_sameLegs (fun _ _ _ h => openFill_sameLegs h) hfills).opens, ← hids]
        exact openLeg_logged haction hfirst hagg hleg
      · refine ⟨positionId, ?_⟩
        rw [registerRemainder_tradeLog hregister]
        exact closeLeg_logged haction hagg hclose

/-- The log and the collector are told of the same leg. -/
theorem Logged.same_leg {t t' : TradeLogCollector} {other : PositionId} {start next next' : Int}
    {inventory : List OpenPosition} {b b' : BundleCollector}
    (h : Logged held intent run snapshot next t positionId t')
    (h' : Recorded orderId held intent start run inventory next b tradeId other next' b') :
    positionId = other := by
  have hclose : ∀ {p q : PositionId}, intent.action = .Close p → intent.action = .Close q →
      p = q := fun hp hq => PositionAction.Close.inj (hp.symm.trans hq)
  cases h with
  | opened _ _ action fresh minted =>
    cases h' with
    | opened _ _ _ _ minted' => exact Id.ext (Bounded.ext_iff.2 (minted.trans minted'.symm))
    | extended _ _ _ found => cases fresh.symm.trans found
    | reduced _ _ _ action' => cases action.symm.trans action'
    | flattened _ _ _ _ _ action' => cases action.symm.trans action'
  | extended _ _ _ action found =>
    cases h' with
    | opened _ _ _ fresh => cases fresh.symm.trans found
    | extended _ _ _ found' => exact Option.some.inj (found.symm.trans found')
    | reduced _ _ _ action' => cases action.symm.trans action'
    | flattened _ _ _ _ _ action' => cases action.symm.trans action'
  | reduced _ _ _ _ action =>
    cases h' with
    | opened _ _ action' => cases action.symm.trans action'
    | extended _ _ action' => cases action.symm.trans action'
    | reduced _ _ _ action' => exact hclose action action'
    | flattened _ _ _ _ _ action' => exact hclose action action'
  | flattened _ _ _ action =>
    cases h' with
    | opened _ _ action' => cases action.symm.trans action'
    | extended _ _ action' => cases action.symm.trans action'
    | reduced _ _ _ action' => exact hclose action action'
    | flattened _ _ _ _ _ action' => exact hclose action action'

end Events


/-- An order adds to its leg unless it closes it. -/
def legSign (orders : List (OrderId × OrderIntent)) (orderId : OrderId) (positionId : PositionId) :
    Int :=
  if ClosesOn orders orderId positionId then -1 else 1

/-- What a recorded fill adds to the size of its leg. -/
def legDelta (orders : List (OrderId × OrderIntent)) (record : FillRecord) : Int :=
  legSign orders record.orderId record.positionId * record.fill.quantity.value

/-- The size of a leg, by the fills recorded on it. -/
def heldSize (orders : List (OrderId × OrderIntent)) (positionId : PositionId)
    (records : List FillRecord) : Int :=
  ((fillsOn positionId records).map (legDelta orders)).sum

/-- The leg was entered by the first fill recorded on it. -/
def Entered (records : List FillRecord) (positionId : PositionId) (tradeId : TradeId)
    (contract : ContractKey) (side : Side) (entryTs : SimTime) : Prop :=
  ∃ first, (fillsOn positionId records).head? = some first ∧ first.tradeId = tradeId ∧
    first.fill.contract = contract ∧ first.fill.side = side ∧ first.fill.ts = entryTs

/-- An order event that closes contracts of a leg. -/
def Realising (orders : List (OrderId × OrderIntent)) (ev : OrderEvent) : Prop :=
  ev.fills ≠ [] ∧ ∃ sub ∈ orders, sub.1 = ev.orderId ∧ sub.2.action ≠ .Open

instance (orders : List (OrderId × OrderIntent)) (ev : OrderEvent) :
    Decidable (Realising orders ev) :=
  inferInstanceAs (Decidable (_ ∧ ∃ sub ∈ orders, _))

/-- The closing runs of some events, each with the snapshot it was filled against. -/
def realising (orders : List (OrderId × OrderIntent)) (events : List (ChainSnapshot × OrderEvent)) :
    List (ChainSnapshot × OrderEvent) :=
  events.filter fun entry => Realising orders entry.2

/-- The trade-log row of a closing run: everything it shows is in the fills table, under its own
leg and order. -/
structure TradeShows (orders : List (OrderId × OrderIntent)) (records : List FillRecord)
    (entry : ChainSnapshot × OrderEvent) (trade : ClosedTrade) : Prop where
  closes : ClosesOn orders entry.2.orderId trade.positionId
  recorded : ∀ fill ∈ entry.2.fills, ∃ record ∈ records, record.fill = fill ∧
    record.orderId = entry.2.orderId ∧ record.positionId = trade.positionId ∧
    record.tradeId = trade.tradeId
  entered : Entered records trade.positionId trade.tradeId trade.contract trade.side trade.entryTs
  averages : aggregateFills entry.2.fills =
    .ok ⟨trade.quantity, trade.exitPrice, trade.closeFees, trade.closeSlippage⟩
  contractMultiplier : trade.contractMultiplier = entry.1.spec.contractMultiplier
  exitTs : trade.exitTs = entry.1.ts ∧ ∀ fill ∈ entry.2.fills, fill.ts = trade.exitTs
  pnl : realizedPnlCents trade.side trade.entryPremium trade.exitPrice trade.quantity
    trade.contractMultiplier trade.closeFees = .ok trade.realizedPnl

/-- The trade log is the fills table seen leg by leg: the size and the entry of every open leg,
and one row for every closing run, in order. -/
structure LogShows (orders : List (OrderId × OrderIntent))
    (events : List (ChainSnapshot × OrderEvent)) (st : EngineState) : Prop where
  minted : ∀ record ∈ st.bundle.fills, record.positionId.value < st.ids.position.value
  size : ∀ positionId : PositionId, heldSize orders positionId st.bundle.fills =
    (st.tradeLog.opens[positionId]?.map fun leg => leg.remaining.value).getD 0
  entered : ∀ (positionId : PositionId) (leg : OpenLeg), st.tradeLog.opens[positionId]? = some leg →
    Entered st.bundle.fills positionId leg.tradeId leg.contract leg.side leg.entryTs
  rows : List.Forall₂ (TradeShows orders st.bundle.fills) (realising orders events)
    st.tradeLog.closed

section Record

variable {orders : List (OrderId × OrderIntent)} {events : List (ChainSnapshot × OrderEvent)}
  {records added : List FillRecord} {positionId other : PositionId} {tradeId : TradeId}
  {st st' : EngineState} {orderId : OrderId} {held : Option PositionId} {intent : OrderIntent}
  {base : Int} {run : List Fill} {snapshot : ChainSnapshot} {ev : OrderEvent}

theorem Entered.append {contract : ContractKey} {side : Side} {entryTs : SimTime}
    (h : Entered records positionId tradeId contract side entryTs) (added : List FillRecord) :
    Entered (records ++ added) positionId tradeId contract side entryTs := by
  obtain ⟨first, hhead, hfacts⟩ := h
  refine ⟨first, ?_, hfacts⟩
  rw [fillsOn_append, List.head?_append, hhead]
  rfl

theorem TradeShows.append {entry : ChainSnapshot × OrderEvent} {trade : ClosedTrade}
    (h : TradeShows orders records entry trade) (added : List FillRecord) :
    TradeShows orders (records ++ added) entry trade where
  closes := h.closes
  recorded fill hfill := by
    obtain ⟨record, hrecord, hfacts⟩ := h.recorded fill hfill
    exact ⟨record, List.mem_append_left _ hrecord, hfacts⟩
  entered := h.entered.append added
  averages := h.averages
  contractMultiplier := h.contractMultiplier
  exitTs := h.exitTs
  pnl := h.pnl

theorem heldSize_append (orders : List (OrderId × OrderIntent)) (positionId : PositionId)
    (records added : List FillRecord) :
    heldSize orders positionId (records ++ added) =
      heldSize orders positionId records + heldSize orders positionId added := by
  rw [heldSize, fillsOn_append, List.map_append, List.sum_append]
  rfl

theorem Tagged.heldSize_ne (h : Tagged orderId tradeId positionId base run added)
    (hne : other ≠ positionId) : heldSize orders other added = 0 := by
  rw [heldSize, h.fillsOn_ne hne]
  rfl

/-- The records of one run move their leg by the size of the run. -/
theorem Tagged.heldSize_self (h : Tagged orderId tradeId positionId base run added) :
    heldSize orders positionId added = legSign orders orderId positionId * totalQuantity run := by
  have hdelta : ∀ record ∈ added, legDelta orders record =
      legSign orders orderId positionId * record.fill.quantity.value := fun record hrecord => by
    obtain ⟨ho, -, hp⟩ := h.tags record hrecord
    rw [legDelta, ho, hp]
  rw [heldSize, h.fillsOn_self, List.map_congr_left hdelta, List.sum_map_mul_left, totalQuantity,
    ← h.fills, List.map_map]
  rfl

/-- A close records under the trade of its leg, and takes no more than is left of it. -/
theorem Recorded.closes_open {next' : Int} {b' : BundleCollector} {leg : OpenLeg} (hlinked : Linked st) (hleg : st.tradeLog.opens[positionId]? = some leg)
    (h : Recorded orderId held intent base run st.inventory st.ids.position.value st.bundle tradeId
      positionId next' b') (haction : intent.action = .Close positionId) :
    leg.tradeId = tradeId ∧ totalQuantity run ≤ leg.remaining.value := by
  have hmap := hlinked.bundle positionId
  have hsize := hlinked.tradeLog positionId
  rw [hleg] at hmap hsize
  cases h with
  | opened _ _ action => cases action.symm.trans haction
  | extended _ _ action => cases action.symm.trans haction
  | reduced _ found entry _ leg_eq entry_eq trade part =>
    rw [entry_eq] at hmap
    rw [leg_eq] at hsize
    simp only [Option.map_some, Option.some.injEq, Prod.mk.injEq] at hmap hsize
    exact ⟨hmap.1.symm.trans trade, by omega⟩
  | flattened _ found entry _ _ _ leg_eq entry_eq trade all =>
    rw [entry_eq] at hmap
    rw [leg_eq] at hsize
    simp only [Option.map_some, Option.some.injEq, Prod.mk.injEq] at hmap hsize
    exact ⟨hmap.1.symm.trans trade, by omega⟩

theorem realising_append (orders : List (OrderId × OrderIntent))
    (events : List (ChainSnapshot × OrderEvent)) (entry : ChainSnapshot × OrderEvent) :
    realising orders (events ++ [entry]) =
      realising orders events ++ if Realising orders entry.2 then [entry] else [] := by
  rw [realising, List.filter_append, List.filter_singleton, realising]
  by_cases h : Realising orders entry.2 <;> simp [h]

theorem legSign_open (horders : Orders orders orderId .Open) : legSign orders orderId other = 1 :=
  if_neg fun hcloses => by cases (horders other).1 hcloses

theorem legSign_close (horders : Orders orders orderId (.Close positionId)) :
    legSign orders orderId positionId = -1 :=
  if_pos ((horders positionId).2 rfl)

/-- The first fill of a leg that had none. -/
theorem Tagged.entered {records : List FillRecord} {first : Fill}
    (h : Tagged orderId tradeId positionId base run added)
    (hnone : fillsOn positionId records = []) (hfirst : run.head? = some first) :
    Entered (records ++ added) positionId tradeId first.contract first.side first.ts := by
  rw [← h.fills, List.head?_map] at hfirst
  obtain ⟨record, hrecord, rfl⟩ := Option.map_eq_some_iff.1 hfirst
  refine ⟨record, ?_, (h.tags record (List.mem_of_mem_head? hrecord)).2.1, rfl, rfl, rfl⟩
  rw [fillsOn_append, hnone, List.nil_append, h.fillsOn_self]
  exact hrecord

/-- The leg a run is recorded on has been minted by then. -/
theorem Recorded.minted {next' : Int} {b' : BundleCollector} (hlinked : Linked st)
    (h : Recorded orderId held intent base run st.inventory st.ids.position.value st.bundle tradeId
      positionId next' b') :
    positionId.value < next' ∧ st.ids.position.value ≤ next' := by
  cases h with
  | opened _ _ _ _ minted => exact ⟨by omega, by omega⟩
  | extended _ _ _ _ leg_some => exact ⟨hlinked.minted _ (findLeg_isSome.2 leg_some), le_rfl⟩
  | reduced _ _ _ _ leg_eq =>
    exact ⟨hlinked.minted _ (findLeg_isSome.2 (Option.isSome_of_eq_some leg_eq)), le_rfl⟩
  | flattened _ _ _ _ _ _ leg_eq =>
    exact ⟨hlinked.minted _ (findLeg_isSome.2 (Option.isSome_of_eq_some leg_eq)), le_rfl⟩

/-- An open is recorded under the trade of the leg it enters. -/
theorem Recorded.enters {opens : Std.TreeMap PositionId OpenLeg} {leg : OpenLeg} {next' : Int}
    {b b' : BundleCollector} {inventory : List OpenPosition} {next : Int}
    (h : Recorded orderId held intent base run inventory next b tradeId positionId next' b')
    (haction : intent.action = .Open)
    (hmap : (b'.openLegs[positionId]?.map fun leg => (leg.tradeId, leg.side, leg.entryPremium)) =
      opens[positionId]?.map fun leg => (leg.tradeId, leg.side, leg.entryPremium))
    (hleg : opens[positionId]? = some leg) : leg.tradeId = tradeId := by
  rw [hleg] at hmap
  cases h with
  | opened _ entry _ _ _ trade =>
    rw [OrderedMap.getElem?_insert, if_pos rfl] at hmap
    simp only [Option.map_some, Option.some.injEq, Prod.mk.injEq] at hmap
    exact hmap.1.symm.trans trade
  | extended _ entry _ _ _ trade =>
    rw [OrderedMap.getElem?_insert, if_pos rfl] at hmap
    simp only [Option.map_some, Option.some.injEq, Prod.mk.injEq] at hmap
    exact hmap.1.symm.trans trade
  | reduced _ _ _ action => cases action.symm.trans haction
  | flattened _ _ _ _ _ action => cases action.symm.trans haction

/-- An opening run keeps the log a view of the fills table. -/
theorem LogShows.record_open (hl : LogShows orders events st) (hlinked : Linked st)
    (hlinked' : Linked st')
    (hlogged : Logged held intent run snapshot st.ids.position.value st.tradeLog positionId
      st'.tradeLog)
    (h : Recorded orderId held intent base run st.inventory st.ids.position.value st.bundle tradeId
      positionId st'.ids.position.value st'.bundle)
    (haction : intent.action = .Open) (horders : Orders orders orderId .Open)
    (hnone : ¬ Realising orders ev) (htimes : ∀ fill ∈ run, fill.ts = snapshot.ts) :
    LogShows orders (events ++ [(snapshot, ev)]) st' := by
  obtain ⟨added, htagged, hfills⟩ := h.fills
  obtain ⟨hlt, hle⟩ := h.minted hlinked
  have hmap := hlinked'.bundle positionId
  have hother : ∀ other, other ≠ positionId →
      heldSize orders other st'.bundle.fills = heldSize orders other st.bundle.fills :=
    fun other hne => by rw [hfills, heldSize_append, htagged.heldSize_ne hne, add_zero]
  have hself : heldSize orders positionId st'.bundle.fills =
      heldSize orders positionId st.bundle.fills + totalQuantity run := by
    rw [hfills, heldSize_append, htagged.heldSize_self, legSign_open horders, one_mul]
  have hminted : ∀ record ∈ st'.bundle.fills,
      record.positionId.value < st'.ids.position.value := by
    rw [hfills]
    refine List.forall_mem_append.2 ⟨fun record hrecord => (hl.minted record hrecord).trans_le hle,
      fun record hrecord => ?_⟩
    rw [(htagged.tags record hrecord).2.2]
    exact hlt
  have hrows : List.Forall₂ (TradeShows orders st'.bundle.fills)
      (realising orders (events ++ [(snapshot, ev)])) st.tradeLog.closed := by
    rw [realising_append, if_neg hnone, List.append_nil, hfills]
    exact hl.rows.imp fun _ _ hshows => hshows.append added
  generalize hlog : st'.tradeLog = log' at hlogged hmap
  cases hlogged with
  | opened first leg action fresh minted head contract side entryTs size =>
    have hempty : fillsOn positionId st.bundle.fills = [] :=
      List.filter_eq_nil_iff.2 fun record hrecord heq => by
        have hbound := hl.minted record hrecord
        rw [of_decide_eq_true heq, minted] at hbound
        exact absurd hbound (lt_irrefl _)
    refine ⟨hminted, fun other => ?_, fun other found hfound => ?_, by rw [hlog]; exact hrows⟩
    · rw [hlog, OrderedMap.getElem?_insert]
      split_ifs with heq
      · rw [heq, hself, heldSize, hempty]
        simp [size]
      · rw [hother other heq]
        exact hl.size other
    · rw [hlog, OrderedMap.getElem?_insert] at hfound
      split_ifs at hfound with heq
      · obtain rfl := Option.some.inj hfound
        have htrade := h.enters action hmap (by rw [OrderedMap.getElem?_insert, if_pos rfl])
        have hentered := htagged.entered hempty head
        rw [heq, hfills, htrade, contract, side, entryTs, ← htimes first (List.mem_of_mem_head? head)]
        exact hentered
      · rw [hfills]
        exact (hl.entered other found hfound).append added
  | extended leg remaining entryPremium action found leg_eq grown =>
    refine ⟨hminted, fun other => ?_, fun other found hfound => ?_, by rw [hlog]; exact hrows⟩
    · rw [hlog, OrderedMap.getElem?_insert]
      split_ifs with heq
      · rw [heq, hself, hl.size, leg_eq]
        simp [grown]
      · rw [hother other heq]
        exact hl.size other
    · rw [hlog, OrderedMap.getElem?_insert] at hfound
      split_ifs at hfound with heq
      · obtain rfl := Option.some.inj hfound
        rw [heq, hfills]
        exact (hl.entered positionId leg leg_eq).append added
      · rw [hfills]
        exact (hl.entered other found hfound).append added
  | reduced _ _ _ _ action => cases action.symm.trans haction
  | flattened _ _ _ action => cases action.symm.trans haction

/-- A closing run writes its row, and keeps the log a view of the fills table. -/
theorem LogShows.record_close (hl : LogShows orders events st) (hlinked : Linked st)
    (hlogged : Logged held intent run snapshot st.ids.position.value st.tradeLog positionId
      st'.tradeLog)
    (h : Recorded orderId held intent base run st.inventory st.ids.position.value st.bundle tradeId
      positionId st'.ids.position.value st'.bundle)
    (haction : intent.action = .Close positionId)
    (horders : Orders orders orderId (.Close positionId)) (hev : ev.orderId = orderId ∧ ev.fills = run)
    (hrealising : Realising orders ev) (htimes : ∀ fill ∈ run, fill.ts = snapshot.ts) :
    LogShows orders (events ++ [(snapshot, ev)]) st' := by
  obtain ⟨added, htagged, hfills⟩ := h.fills
  obtain ⟨hlt, hle⟩ := h.minted hlinked
  have hother : ∀ other, other ≠ positionId →
      heldSize orders other st'.bundle.fills = heldSize orders other st.bundle.fills :=
    fun other hne => by rw [hfills, heldSize_append, htagged.heldSize_ne hne, add_zero]
  have hself : heldSize orders positionId st'.bundle.fills =
      heldSize orders positionId st.bundle.fills - totalQuantity run := by
    rw [hfills, heldSize_append, htagged.heldSize_self, legSign_close horders]
    ring
  have hminted : ∀ record ∈ st'.bundle.fills,
      record.positionId.value < st'.ids.position.value := by
    rw [hfills]
    refine List.forall_mem_append.2 ⟨fun record hrecord => (hl.minted record hrecord).trans_le hle,
      fun record hrecord => ?_⟩
    rw [(htagged.tags record hrecord).2.2]
    exact hlt
  have hentered : ∀ (other : PositionId) (leg : OpenLeg), st.tradeLog.opens[other]? = some leg →
      Entered st'.bundle.fills other leg.tradeId leg.contract leg.side leg.entryTs := by
    intro other leg hleg
    rw [hfills]
    exact (hl.entered other leg hleg).append added
  have hrows : ∀ {leg : OpenLeg} {agg : FillAggregate} {trade : ClosedTrade},
      st.tradeLog.opens[positionId]? = some leg → aggregateFills run = .ok agg →
      ClosingRow leg positionId agg snapshot trade →
      List.Forall₂ (TradeShows orders st'.bundle.fills)
        (realising orders (events ++ [(snapshot, ev)])) (st.tradeLog.closed ++ [trade]) := by
    intro leg agg trade hleg hagg hrow
    rw [realising_append, if_pos hrealising]
    refine List.rel_append (hfills ▸ hl.rows.imp fun _ _ hshows => hshows.append added)
      (.cons ?_ .nil)
    refine ⟨?_, fun fill hfill => ?_, ?_, ?_, hrow.contractMultiplier, ⟨hrow.exitTs, ?_⟩, ?_⟩
    · rw [hrow.positionId, hev.1]
      exact (horders positionId).2 rfl
    · rw [hev.2, ← htagged.fills] at hfill
      obtain ⟨record, hrecord, rfl⟩ := List.mem_map.1 hfill
      obtain ⟨ho, ht, hp⟩ := htagged.tags record hrecord
      refine ⟨record, ?_, rfl, ho.trans hev.1.symm, hp.trans hrow.positionId.symm, ?_⟩
      · rw [hfills]
        exact List.mem_append_right _ hrecord
      · rw [ht, hrow.tradeId, (h.closes_open hlinked hleg haction).1]
    · rw [hrow.positionId, hrow.tradeId, hrow.contract, hrow.side, hrow.entryTs]
      exact hentered positionId leg hleg
    · rw [hev.2, hagg, hrow.quantity, hrow.exitPrice, hrow.closeFees, hrow.closeSlippage]
    · rw [hev.2, hrow.exitTs]
      exact htimes
    · rw [hrow.side, hrow.entryPremium, hrow.exitPrice, hrow.quantity, hrow.contractMultiplier,
        hrow.closeFees]
      exact hrow.pnl
  generalize hlog : st'.tradeLog = log' at hlogged
  cases hlogged with
  | opened _ _ action => cases action.symm.trans haction
  | extended _ _ _ action => cases action.symm.trans haction
  | reduced leg agg trade remaining action average leg_eq row left =>
    refine ⟨hminted, fun other => ?_, fun other found hfound => ?_, ?_⟩
    · rw [hlog, OrderedMap.getElem?_insert]
      split_ifs with heq
      · rw [heq, hself, hl.size, leg_eq]
        simp [left]
      · rw [hother other heq]
        exact hl.size other
    · rw [hlog, OrderedMap.getElem?_insert] at hfound
      split_ifs at hfound with heq
      · obtain rfl := Option.some.inj hfound
        rw [heq]
        exact hentered positionId leg leg_eq
      · exact hentered other found hfound
    · rw [hlog]
      exact hrows leg_eq average row
  | flattened leg agg trade action average leg_eq row all =>
    refine ⟨hminted, fun other => ?_, fun other found hfound => ?_, ?_⟩
    · rw [hlog, OrderedMap.getElem?_erase]
      split_ifs with heq
      · have hwhole := (h.closes_open hlinked leg_eq haction).2
        rw [heq, hself, hl.size, leg_eq]
        simp only [Option.map_some, Option.map_none, Option.getD_some, Option.getD_none]
        omega
      · rw [hother other heq]
        exact hl.size other
    · rw [hlog, OrderedMap.getElem?_erase] at hfound
      split_ifs at hfound with heq
      exact hentered other found hfound
    · rw [hlog]
      exact hrows leg_eq average row

/-- What touches none of the three stores changes nothing the log shows. -/
theorem LogShows.congr (hl : LogShows orders events st) (hbundle : st'.bundle = st.bundle)
    (hlog : st'.tradeLog = st.tradeLog) (hids : st'.ids.position = st.ids.position) :
    LogShows orders events st' := by
  constructor <;> simp only [hbundle, hlog, hids]
  exacts [hl.minted, hl.size, hl.entered, hl.rows]

/-- An event that fills nothing realises nothing. -/
theorem LogShows.quiet (hl : LogShows orders events st) (hev : ev.fills = []) :
    LogShows orders (events ++ [(snapshot, ev)]) st := by
  have hnone : ¬ Realising orders ev := fun hrealising => hrealising.1 hev
  refine ⟨hl.minted, hl.size, hl.entered, ?_⟩
  rw [realising_append, if_neg hnone, List.append_nil]
  exact hl.rows

/-- The fills of one order keep the log a view of the fills table. -/
theorem LogShows.record (hl : LogShows orders events st) (hlinked : Linked st)
    (hlinked' : Linked st') {logged : PositionId}
    (hlogged : Logged held intent run snapshot st.ids.position.value st.tradeLog logged
      st'.tradeLog)
    (h : Recorded orderId held intent base run st.inventory st.ids.position.value st.bundle tradeId
      positionId st'.ids.position.value st'.bundle)
    (hinOrder : IssuedInOrder orders) {issue : OrderIntent} (hissue : (orderId, issue) ∈ orders)
    (haction : issue.action = intent.action) (hev : ev.orderId = orderId ∧ ev.fills = run)
    (hrun : run ≠ []) (htimes : ∀ fill ∈ run, fill.ts = snapshot.ts) :
    LogShows orders (events ++ [(snapshot, ev)]) st' := by
  obtain rfl := hlogged.same_leg h
  have horders : Orders orders orderId intent.action := .of_mem hinOrder hissue haction
  rcases h.leg with hopen | hclose
  · have hnone : ¬ Realising orders ev := by
      rintro ⟨-, ⟨other, found⟩, hfound, hid, hcloses⟩
      rw [hev.1] at hid
      subst hid
      rw [hinOrder.unique hfound hissue, haction] at hcloses
      exact hcloses hopen
    exact hl.record_open hlinked hlinked' hlogged h hopen (hopen ▸ horders) hnone htimes
  · have hrealising : Realising orders ev := by
      refine ⟨by rw [hev.2]; exact hrun, (orderId, issue), hissue, hev.1.symm, ?_⟩
      rw [haction, hclose]
      nofun
    exact hl.record_close hlinked hlogged h hclose (hclose ▸ horders) hev hrealising htimes

/-- One event keeps the log a view of the fills table. -/
theorem LogShows.event {reasons : CloseReasons} {s t : StepState}
    (hl : LogShows orders events s.engine) (hlinked : Linked s.engine) (hlinked' : Linked t.engine)
    (hinOrder : IssuedInOrder orders) (hsourced : Sourced orders s.engine.pending)
    (hmem : ∀ sub, ev.submission? = some sub → sub ∈ orders)
    (htimes : ∀ fill ∈ ev.fills, fill.ts = snapshot.ts)
    (h : applyEvent reasons snapshot s ev = .ok t) :
    LogShows orders (events ++ [(snapshot, ev)]) t.engine := by
  have hlogged := applyEvent_logged h
  cases ev with
  | carried orderId run =>
    obtain ⟨entry, logged, hentry, hlogged⟩ := hlogged
    obtain ⟨found, tradeId, positionId, hstep⟩ := carried_recorded h
    cases hentry.symm.trans hstep.pending
    obtain ⟨-, issue, hissue, hremains⟩ := hsourced orderId entry hentry
    have haction : issue.action = entry.pending.intent.action := by rw [hremains]
    exact hl.record hlinked hlinked' hlogged hstep.recorded hinOrder hissue haction ⟨rfl, rfl⟩
      hstep.nonempty htimes
  | withdrawn orderId =>
    cases h
    have hwithdrawn : LogShows orders events (s.engine.withdraw orderId) := hl.congr rfl rfl rfl
    exact hwithdrawn.quiet rfl
  | submitted idx orderId intent run =>
    obtain ⟨tradeId, held, hstep⟩ := submitted_recorded h
    rcases hstep.recorded with ⟨rfl, -, hbundle, hids⟩ | ⟨hrun, positionId, -, hrecorded⟩
    · have hlog := (hlogged.resolve_right fun hne => hne.1 rfl).2
      exact (hl.congr hbundle hlog hids).quiet rfl
    · obtain ⟨-, logged, hlogged⟩ := hlogged.resolve_left fun hnone => hrun hnone.1
      exact hl.record hlinked hlinked' hlogged hrecorded hinOrder (hmem _ rfl) rfl ⟨rfl, rfl⟩ hrun
        htimes

end Record

section Runs

variable {S X R : Type} [ExecutionModel X] [TrackingModel X] [Strategy S R] [SeedableRng R]
  {r : Setup S X} {n : Nat} {log : List (Batch X)} {b : Batch X} {after : EngineState}
  {s : RunState S X R} {orders : List (OrderId × OrderIntent)}

/-- The order events of a log, each with the snapshot it was filled against. -/
def quoted {X : Type} [ExecutionModel X] (log : List (Batch X)) :
    List (ChainSnapshot × OrderEvent) :=
  log.flatMap fun b => b.events.map (b.snapshot, ·)

omit [TrackingModel X] in
theorem quoted_append (log : List (Batch X)) (b : Batch X) :
    quoted (log ++ [b]) = quoted log ++ b.events.map (b.snapshot, ·) := by
  rw [quoted, List.flatMap_append, List.flatMap_singleton]
  rfl

omit [TrackingModel X] in
/-- The fills of an event of a call are fills of the call. -/
theorem Batch.Executed.event_fills (h : b.Executed after) {ev : OrderEvent} (hev : ev ∈ b.events) :
    ev.fills ⊆ b.fills := by
  rw [← correlate_fills h.correlated]
  exact fun fill hfill => List.mem_flatMap.2 ⟨ev, hev, hfill⟩

omit [Strategy S R] [SeedableRng R] in
/-- One call keeps the log a view of the fills table. -/
theorem logShows_call (hassembles : AssemblesFills X) (ht : OrdersTracked log b.model b.before)
    (hlinked : Linked b.before) (ha : OpensAnchored (fun _ _ => True) b.before)
    (hinOrder : IssuedInOrder orders) (hissued : issued (log ++ [b]) ⊆ orders)
    (hl : LogShows orders (quoted log) b.before) (hexec : b.Executed after) :
    LogShows orders (quoted (log ++ [b])) after := by
  obtain ⟨ids, hmint, hstart⟩ := hexec.minted
  obtain ⟨hposition, -⟩ := mintSubmitIds_eq_ok hmint
  have hrun := (ht.events_done hexec (fun _ => trivial) hexec.carriesOwn along_true
    (fun done st => Linked st ∧ OpensAnchored (fun _ _ => True) st ∧
      LogShows orders (quoted log ++ done.map (b.snapshot, ·)) st) ?_ ?_).1
  · rw [quoted_append]
    exact hrun.2.2
  · rintro done s t ev hev - hecho hsourced ⟨hlinked, ha, hl⟩ happly
    obtain ⟨hlinked', ha', -⟩ := applyEvent_linked hlinked ha hecho happly
    refine ⟨hlinked', ha', ?_⟩
    rw [List.map_append, ← List.append_assoc]
    refine hl.event hlinked hlinked' hinOrder (hsourced.mono hissued) (fun sub hsub => hissued ?_)
      (fun fill hfill => ?_) happly
    · rw [issued_append]
      exact List.mem_append_right _ (hexec.submission_mem hev hsub)
    · exact (hassembles _ _ _ _ _ _ hexec.filled fill (hexec.event_fills hev hfill)).ts
  · rw [hstart]
    have hkeeps : Keeps b.before { b.before with ids } := .frame hposition rfl
    refine ⟨hlinked.frame rfl hposition rfl rfl, hkeeps.opensAnchored rfl ha, ?_⟩
    rw [List.map_nil, List.append_nil]
    exact hl.congr rfl rfl hposition

/-- The settlement touches neither the fills nor the log. -/
theorem LogShows.settle {events : List (ChainSnapshot × OrderEvent)} {st st' : EngineState}
    {snapshot : ChainSnapshot} {isLast : Bool} {point : EquityPoint}
    (hl : LogShows orders events st) (h : st.Settled snapshot isLast point st') :
    LogShows orders events st' := by
  obtain ⟨rows, -, hbundle⟩ := BundleCollector.collectStep_eq_ok h.bundle
  have hfills : st'.bundle.fills = st.bundle.fills := by rw [hbundle]
  have hlog : st'.tradeLog = st.tradeLog := by rw [h.books]
  have hids : st'.ids = st.ids := by rw [h.books]
  constructor <;> simp only [hfills, hlog, hids]
  exacts [hl.minted, hl.size, hl.entered, hl.rows]

/-- The trade log of a run is the fills table seen leg by leg, whatever orders are issued later. -/
structure LogShown {X : Type} [ExecutionModel X] (log : List (Batch X)) (st : EngineState) :
    Prop where
  inOrder : IssuedInOrder (issued log)
  linked : Linked st
  shows : ∀ orders, IssuedInOrder orders → issued log ⊆ orders →
    LogShows orders (quoted log) st

omit [TrackingModel X] in
theorem LogShown.own {st : EngineState} (h : LogShown log st) :
    LogShows (issued log) (quoted log) st :=
  h.shows _ h.inOrder (List.Subset.refl _)

theorem Setup.play_logShown (hidle : Idle r.execution) (hassembles : AssemblesFills X)
    (h : r.play n = .ok (log, s)) : LogShown log s.engine := by
  suffices hrun : OrdersTracked log s.execution s.engine ∧ Linked s.engine ∧
      OpensAnchored (fun _ _ => True) s.engine ∧ ∀ orders, IssuedInOrder orders →
        issued log ⊆ orders → LogShows orders (quoted log) s.engine from
    ⟨hrun.1.inOrder, hrun.2.1, hrun.2.2.2⟩
  refine r.play_tracked hidle (fun log _ st => Linked st ∧
    OpensAnchored (fun _ _ => True) st ∧ ∀ orders, IssuedInOrder orders → issued log ⊆ orders →
      LogShows orders (quoted log) st) ?_ ?_ ?_ h
  · refine fun initial _ => ⟨linked_new initial, opensAnchored_new initial, fun orders _ _ => ?_⟩
    refine ⟨List.forall_mem_nil _, fun positionId => ?_, fun positionId leg hleg => ?_, .nil⟩
    · simp [EngineState.new, TradeLogCollector.empty, BundleCollector.empty, heldSize, fillsOn]
    · simp [EngineState.new, TradeLogCollector.empty] at hleg
  · rintro log b after ht ⟨hlinked, ha, hl⟩ hexec -
    obtain ⟨hlinked', ha'⟩ := linked_call ht (fun _ => trivial) hexec.carriesOwn hlinked ha hexec
    have hprior : issued log ⊆ issued (log ++ [b]) := by
      rw [issued_append]
      exact List.subset_append_left _ _
    refine ⟨hlinked', ha', fun orders hsorted hissued => ?_⟩
    exact logShows_call hassembles ht hlinked ha hsorted hissued
      (hl orders hsorted (List.Subset.trans hprior hissued)) hexec
  · rintro log x st snapshot isLast point st' ⟨hlinked, ha, hl⟩ hsettled
    obtain ⟨hlinked', hkeeps, hpending⟩ := hsettled.sameLegs.linked hlinked
    exact ⟨hlinked', hkeeps.opensAnchored hpending ha, fun orders hsorted hissued =>
      (hl orders hsorted hissued).settle hsettled⟩

end Runs

section Modes

variable {S R B : Type} [DecimalArith] [Book B ObOrderId] [Strategy S R] [SeedableRng R]

end Modes

end IronCondor
