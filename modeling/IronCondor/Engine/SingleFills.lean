import IronCondor.Engine.EntryPremium
import IronCondor.Engine.NetInventory
import IronCondor.Engine.Trades

/-! # Orders that fill in one piece

In naive mode an order fills whole or not at all. A leg is then entered at the price of its one
fill, and a row of the trade log closes the contracts of one fill. -/
namespace IronCondor

open Checked ExceptRun

section Steps

variable {st st' : EngineState} {orderId : OrderId} {tradeId : TradeId} {positionId : PositionId}
  {fill first : Fill} {agg : FillAggregate} {base : Bounded u32} {snapshot : ChainSnapshot}
  {reasons : CloseReasons} {intent : OrderIntent}

/-- The average of one fill is the fill. -/
theorem aggregateFills_singleton (h : aggregateFills [fill] = .ok agg) :
    agg.quantity = fill.quantity ∧ agg.vwap = fill.price ∧ agg.fees.value = fill.fees.value := by
  obtain ⟨hquantity, hfees, -⟩ := aggregateFills_eq_ok h
  obtain ⟨hlow, hhigh⟩ := aggregateFills_between h (List.forall_mem_singleton.2
    ⟨le_refl fill.price.value, le_refl fill.price.value⟩)
  refine ⟨Quantity.ext ?_, Bounded.ext (le_antisymm hhigh hlow), by simpa using hfees⟩
  simpa using hquantity

/-- The row of a close: the leg as it was open, and what its closed contracts realised. -/
structure ClosesPart (snapshot : ChainSnapshot) (fill : Fill) (leg : OpenPosition)
    (trade : ClosedTrade) : Prop where
  side : trade.side = leg.side
  entry : trade.entryPremium = leg.entryPremium
  quantity : trade.quantity = fill.quantity
  multiplier : trade.contractMultiplier = snapshot.spec.contractMultiplier
  exit : trade.exitTs = snapshot.ts
  pnl : trade.realizedPnl.value = sideSign leg.side *
    (fill.price.value - leg.entryPremium.value) * fill.quantity.value *
      snapshot.spec.contractMultiplier.value - fill.fees.value

/-- What the one fill of an order does to the legs and to the trade log. -/
inductive SingleStep (snapshot : ChainSnapshot) (intent : OrderIntent) (fill : Fill)
    (inventory : List OpenPosition) (trades : List ClosedTrade) :
    List OpenPosition → List ClosedTrade → Prop
  | opened (leg : OpenPosition) (action : intent.action = .Open) (side : leg.side = fill.side)
      (quantity : leg.quantity = fill.quantity) (entry : leg.entryPremium = fill.price) :
      SingleStep snapshot intent fill inventory trades (inventory ++ [leg]) trades
  | reduced (positionId : PositionId) (leg : OpenPosition) (trade : ClosedTrade)
      (quantity : Quantity) (action : intent.action = .Close positionId)
      (leg_eq : findLeg inventory positionId = some leg) (row : ClosesPart snapshot fill leg trade)
      (left : quantity.value = leg.quantity.value - fill.quantity.value) :
      SingleStep snapshot intent fill inventory trades
        (updateLeg positionId (fun leg => { leg with quantity }) inventory) (trades ++ [trade])
  | flattened (positionId : PositionId) (leg : OpenPosition) (trade : ClosedTrade)
      (action : intent.action = .Close positionId)
      (leg_eq : findLeg inventory positionId = some leg) (row : ClosesPart snapshot fill leg trade)
      (all : fill.quantity.value = leg.quantity.value) :
      SingleStep snapshot intent fill inventory trades (removeLeg inventory positionId)
        (trades ++ [trade])

/-- A close writes down the leg the log holds. -/
theorem recordClose_row {t t' : TradeLogCollector} {leg : OpenPosition} {entry : OpenLeg}
    {slippage : Cents} {reason : ExitReason} (hagg : aggregateFills [fill] = .ok agg)
    (hentry : t.opens[positionId]? = some entry) (hside : entry.side = leg.side)
    (hpremium : entry.entryPremium = leg.entryPremium)
    (h : t.recordClose positionId agg.vwap agg.fees slippage snapshot.ts agg.quantity
      snapshot.spec.contractMultiplier reason = .ok t') :
    ∃ trade, t'.closed = t.closed ++ [trade] ∧ ClosesPart snapshot fill leg trade := by
  obtain ⟨hquantity, hvwap, hfees⟩ := aggregateFills_singleton hagg
  simp only [TradeLogCollector.recordClose, bind_ok_iff, okOr_eq_ok] at h
  obtain ⟨found, hfound, pnl, hpnl, h⟩ := h
  cases hentry.symm.trans hfound
  have hvalue := realizedPnlCents_eq_ok hpnl
  rw [hside, hpremium, hquantity, hvwap, hfees] at hvalue
  have hrow : ∀ trade : ClosedTrade, trade.side = entry.side →
      trade.entryPremium = entry.entryPremium → trade.quantity = agg.quantity →
      trade.contractMultiplier = snapshot.spec.contractMultiplier → trade.exitTs = snapshot.ts →
      trade.realizedPnl = pnl → ClosesPart snapshot fill leg trade := by
    intro trade hs hp hq hm ht hr
    exact ⟨hs.trans hside, hp.trans hpremium, hq.trans hquantity, hm, ht, by rw [hr, hvalue]⟩
  split_ifs at h
  · cases h
    exact ⟨_, rfl, hrow _ rfl rfl rfl rfl rfl rfl⟩
  · simp only [bind_ok_iff, pure_ok_iff] at h
    obtain ⟨_, -, rfl⟩ := h
    exact ⟨_, rfl, hrow _ rfl rfl rfl rfl rfl rfl⟩

theorem closeLeg_single {reason : ExitReason} (hlinked : Linked st)
    (haction : intent.action = .Close positionId) (hagg : aggregateFills [fill] = .ok agg)
    (h : st.closeLeg orderId positionId [fill] first agg base reason snapshot = .ok st') :
    SingleStep snapshot intent fill st.inventory st.tradeLog.closed st'.inventory
      st'.tradeLog.closed := by
  obtain ⟨hquantity, -, -⟩ := aggregateFills_singleton hagg
  simp only [EngineState.closeLeg, bind_ok_iff, Prod.exists] at h
  obtain ⟨inventory, full, hreduce, tradeLog, hrecord, st₁, hfills, h⟩ := h
  have hsame := fills_sameLegs (fun _ _ _ h => closeFill_sameLegs h) hfills
  have hkept : st'.inventory = inventory ∧ st'.tradeLog = tradeLog := by
    split_ifs at h
    · simp only [bind_ok_iff, pure_ok_iff] at h
      obtain ⟨_, -, rfl⟩ := h
      exact ⟨hsame.inventory, hsame.opens⟩
    · cases h
      exact ⟨hsame.inventory, hsame.opens⟩
  obtain ⟨leg, hleg, -, hcases⟩ := reduceLeg_eq_ok hreduce
  obtain ⟨entry, hentry, -, hside, hpremium, -⟩ := hlinked.opens_of_findLeg hleg
  obtain ⟨trade, htrades, hrow⟩ := recordClose_row hagg hentry hside hpremium hrecord
  rw [hkept.1, hkept.2, htrades]
  rcases hcases with ⟨hall, -, rfl⟩ | ⟨quantity, hleft, -, rfl⟩
  · exact .flattened positionId leg trade haction hleg hrow (hquantity ▸ hall)
  · exact .reduced positionId leg trade quantity haction hleg hrow (hquantity ▸ hleft)

/-- The one fill of a submitted order opens a leg at its price, or closes contracts at it. -/
theorem applyEvent_single {s t : StepState} {idx : Nat} (hlinked : Linked s.engine)
    (h : applyEvent reasons snapshot s (.submitted idx orderId intent [fill]) = .ok t) :
    SingleStep snapshot intent fill s.engine.inventory s.engine.tradeLog.closed t.engine.inventory
      t.engine.tradeLog.closed := by
  obtain ⟨⟨engine, trade⟩, happly, h⟩ := bind_ok_iff.1 h
  cases h
  rcases applySubmit_cases happly with ⟨hnone, -⟩ | ⟨agg, first, hfirst, hagg, hfilled⟩
  · cases hnone
  · rcases hfilled with ⟨haction, st₁, tradeId, st₂, positionId, st₃, htrade, -, hleg, hfills,
      hregister⟩ | ⟨positionId, st₁, haction, -, hclose, hregister⟩
    · obtain ⟨⟨_, -, -, rfl⟩, -⟩ := tradeFor_eq_ok htrade
      cases hfirst
      obtain ⟨hquantity, hvwap, -⟩ := aggregateFills_singleton hagg
      have hsame := fills_sameLegs (fun _ _ _ h => openFill_sameLegs h) hfills
      simp only [EngineState.openLeg, bind_ok_iff, pure_ok_iff, Prod.exists, Prod.mk.injEq] at hleg
      obtain ⟨_, _, -, rfl, rfl⟩ := hleg
      simp only [registerRemainder_inventory hregister, registerRemainder_tradeLog hregister,
        hsame.inventory, hsame.opens]
      exact .opened _ haction rfl hquantity hvwap
    · rw [registerRemainder_inventory hregister, registerRemainder_tradeLog hregister]
      exact closeLeg_single hlinked haction hagg hclose

end Steps

section Sums

variable {orders orders' : List (OrderId × OrderIntent)} {multiplier : Bounded u32}

/-- What a fill cost, without its fees. -/
def fillCost (multiplier : Bounded u32) (fill : Fill) : Int :=
  sideSign fill.side * fill.price.value * fill.quantity.value * multiplier.value

/-- What the contracts of an open leg cost. -/
def legCost (multiplier : Bounded u32) (leg : OpenPosition) : Int :=
  sideSign leg.side * leg.entryPremium.value * leg.quantity.value * multiplier.value

/-- What the contracts of a closed row had cost. -/
def rowCost (trade : ClosedTrade) : Int :=
  sideSign trade.side * trade.entryPremium.value * trade.quantity.value *
    trade.contractMultiplier.value

def realisedPnl (trades : List ClosedTrade) : Int :=
  (trades.map fun trade => trade.realizedPnl.value).sum

theorem realisedPnl_append (trades trades' : List ClosedTrade) :
    realisedPnl (trades ++ trades') = realisedPnl trades + realisedPnl trades' := by
  simp [realisedPnl]

/-- A weight of the fills of the opening orders, summed over some records. -/
def openingSum (orders : List (OrderId × OrderIntent)) (weight : Fill → Int)
    (records : List FillRecord) : Int :=
  ((records.filter fun record => OpensIn orders record.orderId).map
    fun record => weight record.fill).sum

theorem openingSum_append (weight : Fill → Int) (records records' : List FillRecord) :
    openingSum orders weight (records ++ records') =
      openingSum orders weight records + openingSum orders weight records' := by
  simp [openingSum]

/-- A fill weighs when its order opens. -/
theorem openingSum_entry (weight : Fill → Int) {records : List FillRecord} {orderId : OrderId}
    {fill : Fill} (h : records.map (fun r => (r.orderId, r.fill)) = [(orderId, fill)]) :
    openingSum orders weight records = if OpensIn orders orderId then weight fill else 0 := by
  obtain ⟨record, rfl, hentry⟩ := List.map_eq_singleton_iff.1 h
  obtain ⟨rfl, rfl⟩ := Prod.mk.inj hentry
  by_cases hopens : OpensIn orders record.orderId
  · simp [openingSum, hopens]
  · simp [openingSum, hopens]

/-- Later orders do not change which of the earlier ones open. -/
theorem openingSum_mono (weight : Fill → Int) {records : List FillRecord}
    (h : ∀ record ∈ records, OpensIn orders record.orderId ↔ OpensIn orders' record.orderId) :
    openingSum orders weight records = openingSum orders' weight records := by
  have hsame : records.filter (fun record => OpensIn orders record.orderId) =
      records.filter fun record => OpensIn orders' record.orderId :=
    List.filter_congr fun record hrecord => by simp [h record hrecord]
  rw [openingSum, hsame, openingSum]

theorem OpensIn.of_mem (hinOrder : IssuedInOrder orders) {orderId : OrderId} {intent : OrderIntent}
    (hmem : (orderId, intent) ∈ orders) : OpensIn orders orderId ↔ intent.action = .Open := by
  constructor
  · rintro ⟨⟨other, found⟩, hfound, rfl, hopen⟩
    rw [hinOrder.unique hmem hfound]
    exact hopen
  · exact fun hopen => ⟨_, hmem, rfl, hopen⟩

variable {snapshot : ChainSnapshot} {intent : OrderIntent} {fill : Fill}
  {inventory inventory' : List OpenPosition} {trades trades' : List ClosedTrade}

/-- What the opening fills cost is in the rows and in the open legs. -/
theorem SingleStep.cost (h : SingleStep snapshot intent fill inventory trades inventory' trades')
    (hmultiplier : snapshot.spec.contractMultiplier = multiplier) :
    (trades'.map rowCost).sum + legSum (legCost multiplier) inventory' =
      (trades.map rowCost).sum + legSum (legCost multiplier) inventory +
        if intent.action = .Open then fillCost multiplier fill else 0 := by
  cases h with
  | opened leg action side quantity entry =>
    rw [if_pos action, legSum_append, legSum_singleton]
    simp only [legCost, fillCost, side, quantity, entry]
    ring
  | reduced positionId leg trade quantity action leg_eq row left =>
    rw [if_neg (by rw [action]; nofun), legSum_updateLeg _ _ leg_eq]
    simp only [List.map_append, List.sum_append, List.map_singleton, List.sum_singleton, rowCost,
      legCost, row.side, row.entry, row.quantity, row.multiplier, left, hmultiplier]
    ring
  | flattened positionId leg trade action leg_eq row all =>
    rw [if_neg (by rw [action]; nofun), legSum_removeLeg _ leg_eq]
    simp only [List.map_append, List.sum_append, List.map_singleton, List.sum_singleton, rowCost,
      legCost, row.side, row.entry, row.quantity, row.multiplier, all, hmultiplier]
    ring

theorem SingleStep.rows (h : SingleStep snapshot intent fill inventory trades inventory' trades')
    {p : ClosedTrade → Prop} (hrow : ∀ leg trade, ClosesPart snapshot fill leg trade → p trade)
    (hp : ∀ trade ∈ trades, p trade) : ∀ trade ∈ trades', p trade := by
  cases h with
  | opened => exact hp
  | reduced _ _ _ _ _ _ row =>
    exact List.forall_mem_append.2 ⟨hp, List.forall_mem_singleton.2 (hrow _ _ row)⟩
  | flattened _ _ _ _ _ row =>
    exact List.forall_mem_append.2 ⟨hp, List.forall_mem_singleton.2 (hrow _ _ row)⟩

end Sums

section Calls

variable [DecimalArith] {log : List (Batch NaiveFill)} {b : Batch NaiveFill} {after : EngineState}

/-- The call rule of a naive run: what every single fill keeps, and the counters and the registry
do not matter to, a call keeps. -/
theorem Batch.Executed.singles (ht : OrdersTracked log b.model b.before)
    (hlinked : Linked b.before) (hanchored : OpensAnchored (fun _ _ => True) b.before)
    (hexec : b.Executed after) {C : StepState → OrderEvent → Prop}
    (hC : Along (applyEvent b.reasons b.snapshot) C ⟨b.start, none⟩ b.events)
    (P : EngineState → Prop) (hframe : ∀ (st : EngineState) ids pending, P st →
      P { st with ids, pending })
    (hsingle : ∀ (s t : StepState) idx orderId intent fill, (orderId, intent) ∈ b.submissions →
      C s (.submitted idx orderId intent [fill]) → fill.side = intent.side →
      SingleStep b.snapshot intent fill s.engine.inventory s.engine.tradeLog.closed
        t.engine.inventory t.engine.tradeLog.closed →
      Booked b.snapshot.spec.contractMultiplier [(orderId, fill)] s.engine t.engine →
      P s.engine → P t.engine) (hstart : P b.before) : P after := by
  obtain ⟨ids, hmint, hbegin⟩ := hexec.minted
  obtain ⟨hposition, -⟩ := mintSubmitIds_eq_ok hmint
  have hrun := (ht.events_along hexec (fun _ => trivial) hexec.carriesOwn hC
    (fun st => Linked st ∧ OpensAnchored (fun _ _ => True) st ∧ P st) ?_ ?_).1
  · exact hrun.2.2
  · rintro s t ev hev hmeets hecho ⟨hl, ha, hP⟩ happly
    obtain ⟨hl', ha', -⟩ := applyEvent_linked hl ha hecho happly
    refine ⟨hl', ha', ?_⟩
    rcases naive_events hexec.filled hexec.correlated ev hev with ⟨orderId, rfl⟩ |
      ⟨idx, orderId, intent, fill, rfl, hfill⟩
    · cases happly
      exact hframe _ s.engine.ids _ hP
    · obtain ⟨-, -, -, hside, -⟩ := NaiveFill.fillIntent_eq_ok hfill
      exact hsingle s t idx orderId intent fill (hexec.submission_mem hev rfl) hmeets hside
        (applyEvent_single hl happly) (applyEvent_booked happly) hP
  · rw [hbegin]
    have hkeeps : Keeps b.before { b.before with ids } := .frame hposition rfl
    exact ⟨hlinked.frame rfl hposition rfl rfl, hkeeps.opensAnchored rfl hanchored,
      hframe _ ids b.before.pending hstart⟩

/-- What the opening fills cost is in the rows of the log and in the open legs, and every row
carries the multiplier. -/
structure CostKept (orders : List (OrderId × OrderIntent)) (multiplier : Bounded u32)
    (st : EngineState) : Prop where
  cost : openingSum orders (fillCost multiplier) st.bundle.fills =
    (st.tradeLog.closed.map rowCost).sum + legSum (legCost multiplier) st.inventory
  rows : ∀ trade ∈ st.tradeLog.closed, trade.contractMultiplier = multiplier

variable {multiplier : Bounded u32}

omit [DecimalArith] in
/-- The recorded fills are of known orders, so later orders do not make more of them opening. -/
theorem RunIdentified.openingSum_later {st : EngineState} (h : RunIdentified log st)
    (hinOrder : IssuedInOrder (issued (log ++ [b]))) (weight : Fill → Int) :
    openingSum (issued log) weight st.bundle.fills =
      openingSum (issued (log ++ [b])) weight st.bundle.fills := by
  refine openingSum_mono weight fun record hrecord => ?_
  obtain ⟨intent, hmem⟩ := h.known record.orderId (.inl ⟨record, hrecord, rfl⟩)
  have hlater : (record.orderId, intent) ∈ issued (log ++ [b]) := by
    rw [issued_append]
    exact List.mem_append_left _ hmem
  rw [OpensIn.of_mem h.inOrder hmem, OpensIn.of_mem hinOrder hlater]

/-- One naive call keeps the cost. -/
theorem CostKept.call (h : CostKept (issued log) multiplier b.before)
    (hidentified : RunIdentified log b.before) (ht : OrdersTracked log b.model b.before)
    (hlinked : Linked b.before) (hanchored : OpensAnchored (fun _ _ => True) b.before)
    (hexec : b.Executed after) (hmultiplier : b.snapshot.spec.contractMultiplier = multiplier) :
    CostKept (issued (log ++ [b])) multiplier after := by
  obtain ⟨hinOrder, -⟩ := ht.fresh hexec
  refine hexec.singles ht hlinked hanchored along_true (CostKept (issued (log ++ [b])) multiplier)
    (fun _ _ _ hkept => ⟨hkept.cost, hkept.rows⟩) ?_ ⟨?_, h.rows⟩
  · intro s t idx orderId intent fill hsub _ _ hstep hbooked hkept
    obtain ⟨records, hrecords, hentry⟩ := hbooked.table
    have hopens : OpensIn (issued (log ++ [b])) orderId ↔ intent.action = .Open :=
      OpensIn.of_mem hinOrder (by rw [issued_append]; exact List.mem_append_right _ hsub)
    refine ⟨?_, hstep.rows (fun _ _ row => row.multiplier.trans hmultiplier) hkept.rows⟩
    rw [hstep.cost hmultiplier, hrecords, openingSum_append, openingSum_entry _ hentry, hkept.cost]
    simp only [hopens]
  · rw [← hidentified.openingSum_later hinOrder]
    exact h.cost

end Calls

section Runs

variable [DecimalArith] {S R : Type} [Strategy S R] [SeedableRng R] {r : Setup S NaiveFill}
  {n : Nat} {log : List (Batch NaiveFill)} {s : RunState S NaiveFill R} {multiplier : Bounded u32}

/-- A naive run on a tape of one multiplier keeps the cost of what it opened. -/
theorem Setup.play_costKept
    (hmultiplier : ∀ snapshot ∈ r.feed.tape, snapshot.spec.contractMultiplier = multiplier)
    (h : r.play n = .ok (log, s)) : CostKept (issued log) multiplier s.engine := by
  refine (r.play_tracked (fun _ _ _ h => h) (fun log _ st => RunIdentified log st ∧ Linked st ∧
    OpensAnchored (fun _ _ => True) st ∧ CostKept (issued log) multiplier st) ?_ ?_ ?_ h).2.2.2.2
  · exact fun initial _ => ⟨.start initial, linked_new initial, opensAnchored_new initial, rfl,
      List.forall_mem_nil _⟩
  · rintro log b after ht ⟨hidentified, hlinked, hanchored, hkept⟩ hexec hmem
    obtain ⟨hlinked', hanchored'⟩ :=
      linked_call ht (fun _ => trivial) hexec.carriesOwn hlinked hanchored hexec
    exact ⟨hidentified.call hexec, hlinked', hanchored',
      hkept.call hidentified ht hlinked hanchored hexec (hmultiplier _ hmem)⟩
  · rintro log x st snapshot isLast point st' ⟨hidentified, hlinked, hanchored, hkept⟩ hsettled
    obtain ⟨hlinked', hkeeps, hpending⟩ := hsettled.sameLegs.linked hlinked
    refine ⟨hidentified.settle hsettled, hlinked', hkeeps.opensAnchored hpending hanchored, ?_⟩
    obtain ⟨rows, -, hbundle⟩ := BundleCollector.collectStep_eq_ok hsettled.bundle
    have hfills : st'.bundle.fills = st.bundle.fills := by rw [hbundle]
    constructor
    · rw [hfills, hsettled.books]
      exact hkept.cost
    · rw [hsettled.books]
      exact hkept.rows

end Runs

end IronCondor
