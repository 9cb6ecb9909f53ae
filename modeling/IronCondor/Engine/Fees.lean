import IronCondor.Engine.FillIdentity
import IronCondor.Engine.Remaining

/-! # Fees per order

The once-per-order fee is charged on the first fill of an order. In the realistic model the flag
that says so travels with the resting order, from the submit to the refreshes of later steps; it
agrees with what the collector has recorded of the order. -/
namespace IronCondor

open Checked ExceptRun OrderBook RealisticFill

section Charges

variable {schedule : FeeSchedule} {charge : FeeCharge} {run later : List Fill}

theorem feeForFill_eq_ok {quantity : Quantity} {fees : Cents}
    (h : feeForFill schedule quantity charge = .ok fees) :
    fees.value = schedule.perContractCents.value * quantity.value +
      if charge = .FirstFill then schedule.perOrderCents.value else 0 := by
  cases charge with
  | FirstFill =>
    simp only [feeForFill, bind_ok_iff, narrow_eq_ok] at h
    obtain ⟨perContract, hper, total, htotal, hfees⟩ := h
    simp [hfees, htotal, hper]
  | LaterFill =>
    simp only [feeForFill, bind_ok_iff, narrow_eq_ok, Except.ok.injEq] at h
    obtain ⟨perContract, hper, total, rfl, hfees⟩ := h
    simp [hfees, hper]

/-- The fees of consecutive fills of one order: the first pays `charge`, the others are later
fills. -/
def Charged (schedule : FeeSchedule) : FeeCharge → List Fill → Prop
  | _, [] => True
  | charge, fill :: run =>
    feeForFill schedule fill.quantity charge = .ok fill.fees ∧ Charged schedule .LaterFill run

/-- What the next fill of an order is charged, after the fills it has had. -/
def nextCharge : List Fill → FeeCharge
  | [] => .FirstFill
  | _ :: _ => .LaterFill

theorem Charged.append_later (h : Charged schedule charge run)
    (hlater : Charged schedule .LaterFill later) (hrun : run ≠ []) :
    Charged schedule charge (run ++ later) := by
  induction run generalizing charge with
  | nil => exact absurd rfl hrun
  | cons fill run ih =>
    refine ⟨h.1, ?_⟩
    by_cases hempty : run = []
    · rw [hempty]
      exact hlater
    · exact ih h.2 hempty

theorem Charged.append (h : Charged schedule .FirstFill run)
    (hlater : Charged schedule (nextCharge run) later) :
    Charged schedule .FirstFill (run ++ later) := by
  cases run with
  | nil => exact hlater
  | cons fill run => exact h.append_later hlater (List.cons_ne_nil _ _)

/-- The fees of an order add up to the per-contract part of all its fills and at most one
once-per-order part. -/
theorem Charged.total (h : Charged schedule charge run) :
    (run.map fun fill => fill.fees.value).sum =
      schedule.perContractCents.value * totalQuantity run +
        if run ≠ [] ∧ charge = .FirstFill then schedule.perOrderCents.value else 0 := by
  induction run generalizing charge with
  | nil => simp
  | cons fill run ih =>
    have hfirst := feeForFill_eq_ok h.1
    have hrest := ih h.2
    simp only [reduceCtorEq, and_false, if_false, add_zero] at hrest
    rw [List.map_cons, List.sum_cons, hfirst, hrest, totalQuantity_cons, mul_add]
    simp only [ne_eq, List.cons_ne_nil, not_false_eq_true, true_and]
    ring

end Charges

section History

variable {orderId other : OrderId} {history later : List (OrderId × Fill)} {run : List Fill}

/-- The fills of one order among the fills of many. -/
def fillsFor (orderId : OrderId) (history : List (OrderId × Fill)) : List Fill :=
  (history.filter fun entry => entry.1 = orderId).map Prod.snd

theorem fillsFor_append (orderId : OrderId) (history later : List (OrderId × Fill)) :
    fillsFor orderId (history ++ later) = fillsFor orderId history ++ fillsFor orderId later := by
  rw [fillsFor, List.filter_append, List.map_append, ← fillsFor, ← fillsFor]

/-- The fills of an order, under its id. -/
def tagged (orderId : OrderId) (run : List Fill) : List (OrderId × Fill) := run.map (orderId, ·)

theorem fillsFor_tagged (orderId : OrderId) (run : List Fill) :
    fillsFor orderId (tagged orderId run) = run := by
  simp [fillsFor, tagged, List.filter_map, Function.comp_def]

theorem fillsFor_tagged_ne (h : other ≠ orderId) (run : List Fill) :
    fillsFor other (tagged orderId run) = [] := by
  simp [fillsFor, tagged, List.filter_map, Function.comp_def, Ne.symm h]

/-- What the collector has recorded, fill by fill, with its order. -/
def recorded (st : EngineState) : List (OrderId × Fill) :=
  st.bundle.fills.map fun record => (record.orderId, record.fill)

theorem fillsFor_recorded (orderId : OrderId) (st : EngineState) :
    fillsFor orderId (recorded st) = (recordsOf orderId st.bundle.fills).map FillRecord.fill := by
  rw [fillsFor, recorded, List.filter_map, List.map_map, recordsOf]
  rfl

theorem fillsFor_unknown {st : EngineState} (h : ¬ Known st orderId) :
    fillsFor orderId (recorded st) = [] := by
  rw [fillsFor_recorded, List.map_eq_nil_iff, recordsOf, List.filter_eq_nil_iff]
  intro record hrecord heq
  exact h (.inl ⟨record, hrecord, of_decide_eq_true heq⟩)

/-- The fills of an event, under the order it is about. -/
def OrderEvent.tagged (ev : OrderEvent) : List (OrderId × Fill) :=
  IronCondor.tagged ev.orderId ev.fills

/-- Every order of a history was charged its once-per-order fee on its first fill only. -/
def AllCharged (schedule : FeeSchedule) (history : List (OrderId × Fill)) : Prop :=
  ∀ orderId, Charged schedule .FirstFill (fillsFor orderId history)

variable {schedule : FeeSchedule}

theorem AllCharged.append (h : AllCharged schedule history)
    (hrun : Charged schedule (nextCharge (fillsFor orderId history)) run) :
    AllCharged schedule (history ++ tagged orderId run) := by
  intro other
  rw [fillsFor_append]
  by_cases hother : other = orderId
  · rw [hother, fillsFor_tagged]
    exact (h orderId).append hrun
  · rw [fillsFor_tagged_ne hother, List.append_nil]
    exact h other

end History

section Engine

variable {reasons : CloseReasons} {snapshot : ChainSnapshot} {s t : StepState} {ev : OrderEvent}

theorem Tagged.recorded {orderId : OrderId} {tradeId : TradeId} {positionId : PositionId}
    {base : Int} {run : List Fill} {records : List FillRecord}
    (h : Tagged orderId tradeId positionId base run records) :
    records.map (fun record => (record.orderId, record.fill)) = tagged orderId run := by
  rw [tagged, ← h.fills, List.map_map]
  exact List.map_congr_left fun record hrecord => Prod.ext (h.tags record hrecord).1 rfl

/-- An event records its fills under its order. -/
theorem applyEvent_tagged (h : applyEvent reasons snapshot s ev = .ok t) :
    recorded t.engine = recorded s.engine ++ ev.tagged := by
  cases ev with
  | carried orderId run =>
    obtain ⟨entry, tradeId, positionId, hstep⟩ := carried_recorded h
    obtain ⟨records, htagged, hfills⟩ := hstep.recorded.fills
    rw [recorded, hfills, List.map_append, htagged.recorded]
    rfl
  | withdrawn orderId =>
    cases h
    exact (List.append_nil _).symm
  | submitted idx orderId intent run =>
    obtain ⟨tradeId, held, hstep⟩ := submitted_recorded h
    rcases hstep.recorded with ⟨rfl, -, hbundle, -⟩ | ⟨-, positionId, -, hrecorded⟩
    · rw [recorded, hbundle]
      exact (List.append_nil _).symm
    · obtain ⟨records, htagged, hfills⟩ := hrecorded.fills
      rw [recorded, hfills, List.map_append, htagged.recorded]
      rfl

theorem recorded_settled {st st' : EngineState} {isLast : Bool} {point : EquityPoint}
    (h : st.Settled snapshot isLast point st') : recorded st' = recorded st := by
  obtain ⟨rows, -, hbundle⟩ := BundleCollector.collectStep_eq_ok h.bundle
  rw [recorded, hbundle]
  rfl

variable {X : Type} [ExecutionModel X] {b : Batch X} {after : EngineState}

theorem Batch.Executed.tagged (h : b.Executed after) :
    recorded after = recorded b.before ++ b.events.flatMap OrderEvent.tagged := by
  obtain ⟨ids, -, hstart⟩ := h.minted
  obtain ⟨trade, hfold⟩ := h.applied
  have hbefore : recorded b.before = recorded b.start := by
    rw [hstart]
    rfl
  rw [hbefore]
  exact foldlM_log (fun s : StepState => recorded s.engine) OrderEvent.tagged
    (fun s ev t ht => applyEvent_tagged ht) hfold

theorem withdrawals_tagged (cmd : OrderCommand) :
    (withdrawals cmd).flatMap OrderEvent.tagged = [] := by
  unfold withdrawals
  cases cmd.target? <;> rfl

theorem Aligned.tagged {entries : List (OrderCommand × Nat)} {ids : List OrderId}
    {groups : List FillGroup} {routed : List RoutedFills} (h : Aligned entries ids groups routed) :
    (IronCondor.routedEvents entries routed).flatMap OrderEvent.tagged =
      routed.flatMap fun run => IronCondor.tagged run.orderId run.fills := by
  induction h with
  | done => rfl
  | cancel hintent _ ih => simp [IronCondor.routedEvents, hintent, withdrawals_tagged, ih]
  | silent hintent _ ih =>
    simp [IronCondor.routedEvents, hintent, withdrawals_tagged, ih, OrderEvent.tagged,
      OrderEvent.fills, OrderEvent.orderId]
  | filled hintent _ _ _ ih =>
    simp [IronCondor.routedEvents, hintent, withdrawals_tagged, ih, OrderEvent.tagged,
      OrderEvent.fills, OrderEvent.orderId]

/-- The model's account of the fills of a call, phase by phase, is the engine's, event by event. -/
theorem Attribution.events_tagged {B : Type} [Book B ObOrderId] [DecimalArith]
    {m m' : RealisticFill B} {cmds : List OrderCommand} {submitIds : List OrderId}
    {snap : ChainSnapshot} {a : Attribution}
    (h : m.fillAttributed cmds submitIds snap = .ok (m', a)) :
    (a.events cmds).flatMap OrderEvent.tagged =
      a.carried ++ a.routed.flatMap fun run => tagged run.orderId run.fills := by
  obtain ⟨-, haligned⟩ := fillAttributed_described h
  rw [Attribution.events, List.flatMap_append, haligned.tagged, List.flatMap_map]
  congr 1
  exact runFills_carryRuns a.carried

end Engine

section Model

variable {B : Type} {m m' : RealisticFill B} {snap : ChainSnapshot} {schedule : FeeSchedule}
  {history : List (OrderId × Fill)}

/-- The tracked orders know whether they have been filled, and so charged, before. -/
structure RealisticFill.ChargesOnce (schedule : FeeSchedule) (history : List (OrderId × Fill))
    (m : RealisticFill B) : Prop where
  schedule_eq : m.fees = schedule
  charged : AllCharged schedule history
  tracked : ∀ (seq : Nat) (order : RestingStrategyOrder), m.restingStrategy[seq]? = some order →
    (order.firstFillDone = true ↔ fillsFor order.orderId history ≠ [])

/-- The next fill of a tracked order is charged by its flag. -/
theorem RealisticFill.ChargesOnce.charge_eq (h : m.ChargesOnce schedule history) {seq : Nat}
    {order : RestingStrategyOrder} (horder : m.restingStrategy[seq]? = some order) :
    (if order.firstFillDone then FeeCharge.LaterFill else .FirstFill) =
      nextCharge (fillsFor order.orderId history) := by
  have hdone := h.tracked seq order horder
  cases hfills : fillsFor order.orderId history with
  | nil => simp [hdone, hfills, nextCharge]
  | cons fill run => simp [hdone, hfills, nextCharge]

/-- Fills of one order, charged by what it has had before; the other tracked orders are left
alone. -/
theorem RealisticFill.ChargesOnce.extend (h : m.ChargesOnce schedule history) {orderId : OrderId}
    {run : List Fill} (hfees : m'.fees = m.fees)
    (hrun : Charged schedule (nextCharge (fillsFor orderId history)) run)
    (htracked : ∀ (seq : Nat) (order : RestingStrategyOrder),
      m'.restingStrategy[seq]? = some order →
      (order.orderId ≠ orderId ∧ m.restingStrategy[seq]? = some order) ∨
        (order.orderId = orderId ∧
          (order.firstFillDone = true ↔ fillsFor orderId history ++ run ≠ []))) :
    m'.ChargesOnce schedule (history ++ tagged orderId run) := by
  refine ⟨hfees.trans h.schedule_eq, h.charged.append hrun, fun seq order horder => ?_⟩
  rw [fillsFor_append]
  rcases htracked seq order horder with ⟨hne, hold⟩ | ⟨rfl, hdone⟩
  · rw [fillsFor_tagged_ne hne, List.append_nil]
    exact h.tracked seq order hold
  · rw [fillsFor_tagged]
    exact hdone

/-- The refresh charges a fill by the flag of the order it fills. -/
theorem captureRefreshFill_charge {trade : Trade ObOrderId} {contract : ContractKey}
    {tick : PriceCents} {seq : Nat} {order : RestingStrategyOrder} {carried : OrderId × Fill}
    (h : m.captureRefreshFill trade contract tick snap = .ok (m', some carried))
    (hmaker : trade.maker = .Sequential seq) (horder : m.restingStrategy[seq]? = some order) :
    feeForFill m.fees carried.2.quantity
      (if order.firstFillDone then .LaterFill else .FirstFill) = .ok carried.2.fees := by
  simp only [captureRefreshFill, hmaker, horder, bind_ok_iff, require_eq_ok] at h
  obtain ⟨price, -, quantity, -, _, -, fill, hfill, groups, -, h⟩ := h
  obtain ⟨fees, slippage, hfees, -, rfl⟩ := assembleFill_eq_ok hfill
  split_ifs at h
  · obtain ⟨released, -, h⟩ := bind_ok_iff.1 h
    cases h
    exact hfees
  · cases h
    exact hfees

theorem captureTrade_charged {contract : ContractKey} {tick : PriceCents}
    {out out' : List (OrderId × Fill)} {trade : Trade ObOrderId} (hm : m.Indexed)
    (hcharges : m.ChargesOnce schedule (history ++ out))
    (h : captureTrade contract tick snap (m, out) trade = .ok (m', out')) :
    m'.ChargesOnce schedule (history ++ out') := by
  obtain ⟨carried, hfill, rfl⟩ := captureTrade_eq_ok h
  rcases captureRefreshFill_cases hfill with ⟨rfl, rfl, -⟩ |
    ⟨seq, order, fill, groups, live, hmaker, horder, rfl, -, -, -, -, -, -, -, -, rfl⟩
  · simpa using hcharges
  have hcharge := captureRefreshFill_charge hfill hmaker horder
  rw [hcharges.charge_eq horder, hcharges.schedule_eq] at hcharge
  rw [Option.toList_some, ← List.append_assoc]
  change RealisticFill.ChargesOnce schedule (history ++ out ++ tagged order.orderId [fill]) _
  have hrun : Charged schedule (nextCharge (fillsFor order.orderId (history ++ out))) [fill] :=
    ⟨hcharge, trivial⟩
  refine hcharges.extend rfl hrun fun seq' order' h' => ?_
  have hother : m.restingStrategy[seq']? = some order' → seq' ≠ seq →
      order'.orderId ≠ order.orderId := by
    intro hold hne hsame
    have hindex := (hm.indexed seq' order' hold).1
    rw [hsame, (hm.indexed seq order horder).1] at hindex
    exact hne (Option.some.inj hindex).symm
  have hlookup : (seq' ≠ seq ∧ m.restingStrategy[seq']? = some order') ∨
      order' = { order with
        firstFillDone := true, remaining := order.remaining - trade.quantity } := by
    simp only [afterRefresh] at h'
    split_ifs at h'
    · simp only [OrderedMap.getElem?_erase, OrderedMap.getElem?_insert] at h'
      split_ifs at h' with hseq
      exact .inl ⟨hseq, h'⟩
    · rw [OrderedMap.getElem?_insert] at h'
      split_ifs at h' with hseq
      · cases h'
        exact .inr rfl
      · exact .inl ⟨hseq, h'⟩
  rcases hlookup with ⟨hseq, hold⟩ | rfl
  · exact .inl ⟨hother hold hseq, hold⟩
  · exact .inr ⟨rfl, by simp⟩

variable [Book B ObOrderId] {cmds : List OrderCommand} {submitIds : List OrderId}

theorem refreshBooks_charged [DecimalArith] {carried : List (OrderId × Fill)} (hm : m.Indexed)
    (hcharges : m.ChargesOnce schedule history)
    (h : m.refreshBooks snap = .ok (m', carried)) :
    m'.ChargesOnce schedule (history ++ carried) := by
  refine (refreshBooks_invariant
    (fun x out => x.Indexed ∧ x.ChargesOnce schedule (history ++ out)) ?_ ?_ ?_ h).2
  · exact fun x out _ _ _ ⟨hx, hc⟩ =>
      ⟨⟨hx.tracked, hx.indexed⟩, hc.schedule_eq, hc.charged, hc.tracked⟩
  · exact fun x out contract tick trade x' out' ⟨hx, hc⟩ hcapture =>
      ⟨(captureTrade_live hx hcapture).1, captureTrade_charged hx hc hcapture⟩
  · rw [List.append_nil]
    exact ⟨hm, hcharges⟩

/-- The refresh fills only orders that were tracked before it. -/
theorem refreshBooks_unknown [DecimalArith] {carried : List (OrderId × Fill)} (hm : m.Indexed)
    (h : m.refreshBooks snap = .ok (m', carried)) :
    ∀ orderId, m.liveOf orderId = none → fillsFor orderId carried = [] := by
  refine (refreshBooks_invariant (fun x out => x.Indexed ∧
    x.liveOf = (refreshEvents out).foldl remainingStep m.liveOf ∧
    ∀ orderId, m.liveOf orderId = none → fillsFor orderId out = []) ?_ ?_ ?_ h).2.2
  · exact fun x out _ _ _ ⟨hx, hlive, hnone⟩ => ⟨⟨hx.tracked, hx.indexed⟩, hlive, hnone⟩
  · rintro x out contract tick trade x' out' ⟨hx, hlive, hnone⟩ hcapture
    obtain ⟨hx', carried, rfl, hlive'⟩ := captureTrade_live hx hcapture
    refine ⟨hx', ?_, fun orderId hunknown => ?_⟩
    · rw [refreshEvents, List.map_append, List.foldl_append, ← refreshEvents, ← hlive]
      exact hlive'
    · rw [fillsFor_append, hnone orderId hunknown, List.nil_append]
      obtain ⟨carried', hfill, heq⟩ := captureTrade_eq_ok hcapture
      obtain rfl := List.append_cancel_left heq
      rcases captureRefreshFill_cases hfill with ⟨rfl, -⟩ |
        ⟨seq, order, fill, _, _, -, horder, rfl, -⟩
      · rfl
      · have hne : orderId ≠ order.orderId := by
          rintro rfl
          have hgone := foldl_refreshEvents out hunknown
          rw [← hlive, hx.liveOf_tracked horder] at hgone
          cases hgone
        exact fillsFor_tagged_ne hne [fill]
  · exact ⟨hm, rfl, fun _ _ => rfl⟩

theorem cancelCommand_charged {cmd : OrderCommand} (hcharges : m.ChargesOnce schedule history)
    (h : m.cancelCommand cmd = .ok m') : m'.ChargesOnce schedule history := by
  unfold cancelCommand at h
  split at h
  · rcases cancelResting_cases h with ⟨-, rfl⟩ | ⟨_, -, -, rfl⟩ | ⟨_, _, _, _, -, -, -, rfl⟩
    · exact hcharges
    · exact ⟨hcharges.schedule_eq, hcharges.charged, hcharges.tracked⟩
    · refine ⟨hcharges.schedule_eq, hcharges.charged, fun seq order horder => ?_⟩
      simp only [afterCancel, OrderedMap.getElem?_erase] at horder
      split_ifs at horder
      exact hcharges.tracked seq order horder
  · cases h
    exact hcharges

/-- The levels of an intent are charged as consecutive fills. -/
theorem levelFills_charged {fees : FeeSchedule} {intent : OrderIntent} {tick : PriceCents}
    {charge : FeeCharge} {trades : List (Trade ObOrderId)} {fills : List Fill}
    (h : levelFills fees snap intent tick charge trades = .ok fills) :
    Charged fees charge fills := by
  induction trades generalizing charge fills with
  | nil =>
    cases h
    exact trivial
  | cons trade trades ih =>
    simp only [levelFills, bind_ok_iff, pure_ok_iff] at h
    obtain ⟨price, -, quantity, -, fill, hfill, later, hlater, rfl⟩ := h
    obtain ⟨_, slippage, hfees, -, rfl⟩ := assembleFill_eq_ok hfill
    exact ⟨hfees, ih hlater⟩

theorem fillSubmit_fees {intent : OrderIntent} {orderId : OrderId} {fills : List Fill}
    (h : m.fillSubmit intent orderId snap = .ok (m', fills)) :
    Charged m.fees .FirstFill fills ∧ m'.fees = m.fees := by
  simp only [fillSubmit, bind_ok_iff, orderBookError_eq_ok, require_eq_ok, Prod.exists] at h
  obtain ⟨_, -, limit, -, ticks, -, _, seq, hseq, before, -, book, result, -, after, -, _, -,
    fills',
    hfills, h⟩ := h
  obtain ⟨-, -, rfl⟩ := nextStrategyOrderId_eq_ok hseq
  have hcharged := levelFills_charged hfills
  split_ifs at h
  · simp only [bind_ok_iff, pure_ok_iff, Prod.mk.injEq] at h
    obtain ⟨_, htrack, rfl, rfl⟩ := h
    obtain ⟨live, rfl⟩ := trackResting_eq_ok htrack
    exact ⟨hcharged, rfl⟩
  · cases h
    exact ⟨hcharged, rfl⟩

/-- A routed intent is left smaller exactly when a level traded. -/
theorem RealisticFill.Submitted.partly_filled [ConservesQuantity B] {intent : OrderIntent}
    {orderId : OrderId} {fills : List Fill} {limit : PriceCents} {ticks : Nat} {before after : B}
    {result : MatchResult ObOrderId}
    (h : Submitted m intent orderId snap m' fills limit ticks before after result) :
    result.remaining < intent.quantity.value.toNat ↔ fills ≠ [] := by
  obtain ⟨book, hadd, -⟩ := h.matched
  have hconserved := ConservesQuantity.addLimit_conserves hadd
  have htotal := h.totalQuantity_eq
  by_cases hfills : fills = []
  · rw [hfills, totalQuantity_nil] at htotal
    simp only [hfills, ne_eq, not_true_eq_false, iff_false]
    omega
  · have hpos := totalQuantity_pos hfills
    simp only [ne_eq, hfills, not_false_eq_true, iff_true]
    omega

/-- A routed intent with a new id is charged from its first level on. -/
theorem fillSubmit_charged [ConservesQuantity B] {intent : OrderIntent} {orderId : OrderId}
    {fills : List Fill} (hm : m.Indexed) (hcharges : m.ChargesOnce schedule history)
    (hnew : m.liveOf orderId = none) (hfresh : fillsFor orderId history = [])
    (h : m.fillSubmit intent orderId snap = .ok (m', fills)) :
    m'.ChargesOnce schedule (history ++ tagged orderId fills) := by
  obtain ⟨hcharged, hfees⟩ := fillSubmit_fees h
  obtain ⟨limit, ticks, before, after, result, hsubmitted⟩ := fillSubmit_eq_ok h
  rw [hcharges.schedule_eq] at hcharged
  have hold : ∀ (seq : Nat) (order : RestingStrategyOrder), m.restingStrategy[seq]? = some order →
      order.orderId ≠ orderId := by
    intro seq order horder hsame
    rw [← hsame, hm.liveOf_tracked horder] at hnew
    cases hnew
  refine hcharges.extend hfees (by rw [hfresh]; exact hcharged) fun seq order horder => ?_
  have htracked := hsubmitted.tracked
  have hfilled := hsubmitted.partly_filled
  split_ifs at htracked with hrests
  · obtain ⟨live, rfl⟩ := trackResting_eq_ok htracked
    simp only [afterSubmit, OrderedMap.getElem?_insert] at horder
    split_ifs at horder
    · cases horder
      refine .inr ⟨rfl, ?_⟩
      rw [decide_eq_true_iff, hfresh, List.nil_append]
      exact hfilled
    · exact .inl ⟨hold seq order horder, horder⟩
  · subst htracked
    exact .inl ⟨hold seq order horder, horder⟩

theorem routeCommands_charged [ConservesQuantity B] {entries : List (OrderCommand × Nat)}
    {r r' : Routing B} (hm : r.model.Indexed) (hcharges : r.model.ChargesOnce schedule history)
    (hnew : ∀ orderId ∈ submitIds.drop r.nextSubmitId, r.model.liveOf orderId = none ∧
      fillsFor orderId history = [])
    (hnodup : (submitIds.drop r.nextSubmitId).Nodup)
    (h : entries.foldlM (routeCommand submitIds snap) r = .ok r') :
    ∃ routed, r'.routed = r.routed ++ routed ∧ r'.model.ChargesOnce schedule
      (history ++ routed.flatMap fun run => tagged run.orderId run.fills) := by
  induction entries generalizing r history with
  | nil =>
    obtain rfl := foldlM_nil_ok.1 h
    exact ⟨[], by simp, by simpa using hcharges⟩
  | cons entry entries ih =>
    obtain ⟨mid, hmid, hrest⟩ := foldlM_cons_ok.1 h
    rcases routeCommand_cases hmid with ⟨-, rfl⟩ |
      ⟨intent, orderId, m₁, fills, -, hid, hsubmit, hr, hnext, hmodel⟩
    · exact ih hm hcharges hnew hnodup hrest
    obtain ⟨hlt, rfl⟩ := List.getElem?_eq_some_iff.1 hid
    rw [List.drop_eq_getElem_cons hlt, List.forall_mem_cons] at hnew
    rw [List.drop_eq_getElem_cons hlt, List.nodup_cons] at hnodup
    obtain ⟨hlive, hfresh⟩ := hnew.1
    obtain ⟨hi, hlive'⟩ := fillSubmit_live entry.2 hm hlive hsubmit
    have hcharged := fillSubmit_charged hm hcharges hlive hfresh hsubmit
    have hmodel : mid.model.Indexed ∧ mid.model.liveOf = m₁.liveOf ∧
        mid.model.ChargesOnce schedule (history ++ tagged submitIds[r.nextSubmitId] fills) := by
      rcases hmodel with ⟨-, hm⟩ | ⟨_, -, -, hm⟩ <;> rw [hm]
      · exact ⟨hi, rfl, hcharged⟩
      · exact ⟨⟨hi.tracked, hi.indexed⟩, rfl, hcharged.schedule_eq, hcharged.charged,
          hcharged.tracked⟩
    have hnew' : ∀ oid ∈ submitIds.drop mid.nextSubmitId, mid.model.liveOf oid = none ∧
        fillsFor oid (history ++ tagged submitIds[r.nextSubmitId] fills) = [] := by
      rw [hnext, hmodel.2.1, hlive']
      intro oid hoid
      have hne : oid ≠ submitIds[r.nextSubmitId] := fun heq => hnodup.1 (heq ▸ hoid)
      rw [fillsFor_append, fillsFor_tagged_ne hne, List.append_nil]
      refine ⟨?_, (hnew.2 oid hoid).2⟩
      rw [← (hnew.2 oid hoid).1]
      exact Keyed.act_of_ne hne
    obtain ⟨routed, hrouted, hcharges'⟩ :=
      ih hmodel.1 hmodel.2.2 hnew' (by rw [hnext]; exact hnodup.2) hrest
    refine ⟨⟨entry.2, submitIds[r.nextSubmitId], intent, fills⟩ :: routed, ?_, ?_⟩
    · rw [hrouted, hr, List.append_assoc, List.singleton_append]
    · rw [List.flatMap_cons, ← List.append_assoc]
      exact hcharges'

/-- One call charges by what has been recorded before it. -/
theorem fillAttributed_charged [DecimalArith] [ConservesQuantity B] {a : Attribution}
    (hm : m.Indexed) (hcharges : m.ChargesOnce schedule history)
    (hnew : ∀ orderId ∈ submitIds, m.liveOf orderId = none ∧ fillsFor orderId history = [])
    (hnodup : submitIds.Nodup) (h : m.fillAttributed cmds submitIds snap = .ok (m', a)) :
    m'.ChargesOnce schedule (history ++ (a.events cmds).flatMap OrderEvent.tagged) := by
  rw [Attribution.events_tagged h]
  simp only [fillAttributed, bind_ok_iff, pure_ok_iff, Prod.exists, Prod.mk.injEq] at h
  obtain ⟨m₁, carried, hrefresh, m₂, hcancel, r, hroute, rfl, rfl⟩ := h
  have hm₀ : { m with fillGroups := [], carryGroups := [] }.Indexed := ⟨hm.tracked, hm.indexed⟩
  obtain ⟨hi₁, hlive₁⟩ := refreshBooks_live hm₀ hrefresh
  have hcharges₁ := refreshBooks_charged hm₀
    ⟨hcharges.schedule_eq, hcharges.charged, hcharges.tracked⟩ hrefresh
  obtain ⟨hi₂, hlive₂⟩ := cancelCommands_live hi₁ hcancel
  have hcharges₂ := foldlM_invariant
    (fun x : RealisticFill B => x.ChargesOnce schedule (history ++ carried))
    (fun _ _ _ hx hy => cancelCommand_charged hx hy) hcharges₁ hcancel
  have hnone : ∀ orderId ∈ submitIds, m₂.liveOf orderId = none ∧
      fillsFor orderId (history ++ carried) = [] := by
    intro orderId hid
    obtain ⟨hlive, hfresh⟩ := hnew orderId hid
    rw [hlive₂, hlive₁, fillsFor_append, hfresh, refreshBooks_unknown hm₀ hrefresh orderId hlive]
    exact ⟨foldl_cancelEvents cmds (foldl_refreshEvents carried hlive), rfl⟩
  obtain ⟨routed, hrouted, hcharges₃⟩ :=
    routeCommands_charged (r := ⟨m₂, [], 0⟩) hi₂ hcharges₂ hnone hnodup hroute
  rw [List.nil_append] at hrouted
  rw [hrouted, ← List.append_assoc]
  exact hcharges₃

end Model

section Calls

variable {X : Type} [ExecutionModel X] {log : List (Batch X)} {b : Batch X} {after : EngineState}
  {schedule : FeeSchedule}

/-- The books do not know the ids a call mints. -/
theorem RunIdentified.mints_unknown (h : RunIdentified log b.before) (hexec : b.Executed after) :
    ∀ orderId ∈ b.submitIds, fillsFor orderId (recorded b.before) = [] := by
  obtain ⟨ids, hmint, -⟩ := hexec.minted
  obtain ⟨-, -, -, -, hbounds⟩ := mintSubmitIds_eq_ok hmint
  intro orderId hid
  apply fillsFor_unknown
  intro hknown
  obtain ⟨intent, hmem⟩ := h.known orderId hknown
  exact absurd (h.minted _ hmem) (not_lt.2 (hbounds orderId hid).1)

/-- A naive call charges every order in full: its one fill is its first. -/
theorem charged_naive [DecimalArith] {log : List (Batch NaiveFill)} {b : Batch NaiveFill}
    (h : RunIdentified log b.before) (hcharged : AllCharged schedule (recorded b.before))
    (hfees : b.model.fees = schedule) (hexec : b.Executed after) :
    b.modelAfter.fees = schedule ∧ AllCharged schedule (recorded after) := by
  obtain ⟨ids, -, hstart⟩ := hexec.minted
  obtain ⟨fills, hfold, hmodel⟩ : ∃ fills, b.cmds.foldlM (b.model.fillCommand b.snapshot) [] =
      .ok fills ∧ b.modelAfter = b.model := by
    obtain ⟨fills, hfold, hout⟩ := bind_ok_iff.1 hexec.filled
    exact ⟨fills, hfold, (congrArg Prod.fst (pure_ok_iff.1 hout)).symm⟩
  refine ⟨hmodel ▸ hfees, ?_⟩
  refine (h.toOrdersIssued.events h.known hexec
    (fun s => AllCharged schedule (recorded s.engine)) ?_ ?_).elim fun _ hafter => hafter.1
  · rintro s t ev hev hfresh - hs happly
    rw [applyEvent_tagged happly]
    rcases naive_events hexec.filled hexec.correlated ev hev with ⟨orderId, rfl⟩ |
      ⟨idx, orderId, intent, fill, rfl, hfill⟩
    · rw [show (OrderEvent.withdrawn orderId).tagged = [] from rfl, List.append_nil]
      exact hs
    · have hunknown := fillsFor_unknown (hfresh _ rfl)
      have hfee := NaiveFill.fillIntent_fees hfill
      have hrun : Charged schedule (nextCharge (fillsFor orderId (recorded s.engine))) [fill] := by
        rw [hunknown]
        exact ⟨hfees ▸ hfee, trivial⟩
      exact hs.append hrun
  · rw [hstart]
    exact hcharged

/-- A realistic call charges its first fills only. -/
theorem charged_realistic {B : Type} [DecimalArith] [Book B ObOrderId] [ConservesQuantity B]
    {log : List (Batch (RealisticFill B))} {b : Batch (RealisticFill B)}
    (h : RunIdentified log b.before) (hm : b.model.Indexed)
    (hlive : b.model.liveOf = remainingOf b.before.pending)
    (hcharges : b.model.ChargesOnce schedule (recorded b.before)) (hexec : b.Executed after) :
    b.modelAfter.ChargesOnce schedule (recorded after) := by
  obtain ⟨hnodup, hold⟩ := h.toOrdersIssued.mints_new hexec
  obtain ⟨a, ha, -, hevents⟩ := hexec.attributed
  rw [hexec.tagged, hevents]
  refine fillAttributed_charged hm hcharges (fun orderId hid => ⟨?_, ?_⟩) hnodup ha
  · rw [hlive, remainingOf, hold orderId hid, Option.map_none]
  · exact h.mints_unknown hexec orderId hid

end Calls

section Runs

variable {schedule : FeeSchedule}

/-- What the recorded fees amount to, fill by fill and order by order. -/
structure FeesPerOrder (schedule : FeeSchedule) (records : List FillRecord) : Prop where
  each : ∀ record ∈ records, record.fill.fees.value =
    schedule.perContractCents.value * record.fill.quantity.value +
      if record.fillSeq.value = 0 then schedule.perOrderCents.value else 0
  once : ∀ orderId, recordsOf orderId records ≠ [] →
    ((recordsOf orderId records).filter fun record => record.fillSeq.value = 0).length = 1
  total : ∀ orderId, ((recordsOf orderId records).map fun record => record.fill.fees.value).sum =
    if recordsOf orderId records = [] then 0
    else schedule.perContractCents.value *
      totalQuantity ((recordsOf orderId records).map FillRecord.fill) + schedule.perOrderCents.value

/-- In a numbered list of charged fills the charge goes by the number. -/
theorem Charged.each {records : List FillRecord} {start : Int}
    (hnumbered : Numbered (fun record : FillRecord => record.fillSeq.value) start records)
    (hstart : 0 ≤ start)
    (h : Charged schedule (if start = 0 then .FirstFill else .LaterFill)
      (records.map FillRecord.fill)) :
    ∀ record ∈ records, record.fill.fees.value =
      schedule.perContractCents.value * record.fill.quantity.value +
        if record.fillSeq.value = 0 then schedule.perOrderCents.value else 0 := by
  induction hnumbered with
  | nil => exact List.forall_mem_nil _
  | @cons start first rest head tail ih =>
    refine List.forall_mem_cons.2 ⟨?_, ih (by omega) ?_⟩
    · rw [feeForFill_eq_ok h.1, head]
      congr 1
      by_cases hzero : start = 0 <;> simp [hzero]
    · rw [if_neg (by omega)]
      exact h.2

/-- Identified books whose orders are charged on their first fill. -/
theorem AllCharged.feesPerOrder {tradeOf : PositionId → TradeId} {st : EngineState}
    (h : AllCharged schedule (recorded st)) (hi : Identified tradeOf st) :
    FeesPerOrder schedule st.bundle.fills := by
  have hcharged (orderId : OrderId) :
      Charged schedule .FirstFill ((recordsOf orderId st.bundle.fills).map FillRecord.fill) :=
    fillsFor_recorded orderId st ▸ h orderId
  refine ⟨fun record hrecord => ?_, fun orderId hsome => ?_, fun orderId => ?_⟩
  · refine (hcharged record.orderId).each (hi.numbered record.orderId) le_rfl record ?_
    exact List.mem_filter.2 ⟨hrecord, decide_eq_true rfl⟩
  · have hnumbered := hi.numbered orderId
    cases hlist : recordsOf orderId st.bundle.fills with
    | nil => exact absurd hlist hsome
    | cons first rest =>
      rw [hlist] at hnumbered
      cases hnumbered with
      | cons head tail =>
        have hrest : rest.filter (fun record => record.fillSeq.value = 0) = [] := by
          apply List.filter_eq_nil_iff.2
          intro record hrecord hzero
          have hlower := tail.lower record hrecord
          have := of_decide_eq_true hzero
          omega
        rw [List.filter_cons_of_pos (by simpa using head), hrest, List.length_singleton]
  · have htotal := (hcharged orderId).total
    rw [List.map_map] at htotal
    by_cases hnone : recordsOf orderId st.bundle.fills = []
    · rw [if_pos hnone, hnone]
      rfl
    · rw [if_neg hnone]
      simpa [hnone, Function.comp_def] using htotal

/-- Fees per order: whatever a strategy submits, cancels and replaces, every order that filled
has paid the per-contract fee on all its contracts and the per-order fee once, on the fill
numbered zero, also when that fill comes in a later step; an order that never filled has paid
nothing. -/
theorem fees_per_order {S R B : Type} [DecimalArith] [Strategy S R] [SeedableRng R]
    [Book B ObOrderId] [ConservesQuantity B] (config : BacktestConfig) (feed : MaterialisedFeed) (strategy : S) (n : Nat) :
    (∀ log s, (Setup.naive config feed strategy).play n = .ok (log, s) →
        FeesPerOrder config.fees s.engine.bundle.fills) ∧
      ∀ log s, (Setup.realistic B config feed strategy).play n = .ok (log, s) →
        FeesPerOrder config.fees s.engine.bundle.fills := by
  have hempty (initial : Cents) : AllCharged config.fees (recorded (.new initial)) :=
    fun orderId => trivial
  refine ⟨fun log s h => ?_, fun log s h => ?_⟩
  · suffices hrun : RunIdentified log s.engine ∧ s.execution.fees = config.fees ∧
        AllCharged config.fees (recorded s.engine) by
      obtain ⟨tradeOf, hi⟩ := hrun.1.books
      exact hrun.2.2.feesPerOrder hi
    refine Setup.play_invariant (fun log x st => RunIdentified log st ∧ x.fees = config.fees ∧
      AllCharged config.fees (recorded st)) ?_ ?_ ?_ h
    · exact fun initial _ => ⟨.start initial, rfl, hempty initial⟩
    · exact fun log b after ⟨hi, hfees, hcharged⟩ hexec _ =>
        ⟨hi.call hexec, charged_naive hi hcharged hfees hexec⟩
    · rintro log x st snapshot isLast point st' ⟨hi, hfees, hcharged⟩ hsettled
      refine ⟨hi.settle hsettled, hfees, ?_⟩
      rw [recorded_settled hsettled]
      exact hcharged
  · suffices hrun : RunIdentified log s.engine ∧
        s.execution.ChargesOnce config.fees (recorded s.engine) by
      obtain ⟨tradeOf, hi⟩ := hrun.1.books
      exact hrun.2.charged.feesPerOrder hi
    have hinv := (Setup.play_tracked (idle_realistic config feed strategy)
      (fun log x st => RunIdentified log st ∧ x.Indexed ∧ x.liveOf = remainingOf st.pending ∧
        x.ChargesOnce config.fees (recorded st)) ?_ ?_ ?_ h).2
    · exact ⟨hinv.1, hinv.2.2.2⟩
    · intro initial _
      obtain ⟨hm, hlive⟩ := remaining_start config feed strategy initial
      refine ⟨.start initial, hm, hlive, rfl, hempty initial, fun seq order horder => ?_⟩
      simp [Setup.realistic, withLiquidityProfile, new] at horder
    · rintro log b after htracked ⟨hi, hm, hlive, hcharges⟩ hexec -
      obtain ⟨hm', hlive'⟩ := remaining_call htracked hm hlive hexec
      exact ⟨hi.call hexec, hm', hlive', charged_realistic hi hm hlive hcharges hexec⟩
    · rintro log x st snapshot isLast point st' ⟨hi, hm, hlive, hcharges⟩ hsettled
      refine ⟨hi.settle hsettled, hm, ?_, ?_⟩
      · rw [hsettled.books]
        exact hlive
      · rw [recorded_settled hsettled]
        exact hcharges

end Runs

open SmallMarket in
/-- The resting buy of the dip is charged on its first refresh fill, two steps after its submit. -/
theorem fees_per_order_dip : ∃ log s,
    (Setup.realistic (ReferenceBook ObOrderId) (config .Realistic) dipFeed
      (⟨restAndTake, []⟩ : Script)).play 3 = .ok (log, s) ∧
      FeesPerOrder (config .Realistic).fees s.engine.bundle.fills := by
  obtain ⟨⟨log, s⟩, h⟩ := exists_eq_ok (r := (Setup.realistic (ReferenceBook ObOrderId)
    (config .Realistic) dipFeed (⟨restAndTake, []⟩ : Script)).play 3) (by decide +kernel)
  exact ⟨log, s, h, (fees_per_order _ _ _ 3).2 log s h⟩

end IronCondor
