import IronCondor.Data.Tape
import IronCondor.Engine.NoLookAhead
import IronCondor.Engine.SingleFills

/-! # Realised, unrealised and equity

What a naive run has earned is what its trades realised and what its open rows show, less the fees
of its opening fills. -/
namespace IronCondor

open Checked ExceptRun

/-- The rows closed at an instant or before it. -/
def closedUpTo (ts : SimTime) (trades : List ClosedTrade) : List ClosedTrade :=
  trades.filter fun trade => trade.exitTs.value ≤ ts.value

def unrealisedPnl (rows : List PositionSnapshot) : Int :=
  (rows.map fun row => row.unrealizedCents.value).sum

/-- The fees of a fill that executed at step `k` or before. -/
def feesBy (k : Nat) (fill : Fill) : Int := if executedBy k fill then fill.fees.value else 0

/-- The equity of a step is the capital, what was realised so far, what the open rows of the step
show, and what the opening fills so far paid in fees. -/
def Reconciled (initial : Cents) (orders : List (OrderId × OrderIntent)) (st : EngineState)
    (k : Nat) (point : EquityPoint) : Prop :=
  point.equityCents.value - initial.value =
    realisedPnl (closedUpTo point.ts st.tradeLog.closed) +
      unrealisedPnl (openRows st.bundle.positions point.step) -
        openingSum orders (feesBy k) st.bundle.fills

/-- The cash and what the open legs cost are the capital and what was realised, less the fees of
the opening fills. -/
def CashEarned (orders : List (OrderId × OrderIntent)) (initial : Cents)
    (multiplier : Bounded u32) (st : EngineState) : Prop :=
  st.ledger.cash.value + legSum (legCost multiplier) st.inventory =
    initial.value + realisedPnl st.tradeLog.closed -
      openingSum orders (fun fill => fill.fees.value) st.bundle.fills

section Sums

variable {orders : List (OrderId × OrderIntent)} {multiplier : Bounded u32} {k : Nat}

theorem realisedPnl_singleton (trade : ClosedTrade) :
    realisedPnl [trade] = trade.realizedPnl.value := by
  simp [realisedPnl]

/-- Rows closed later do not count yet. -/
theorem closedUpTo_append_later {ts : SimTime} {trades rows : List ClosedTrade}
    (h : ∀ row ∈ rows, ts.value < row.exitTs.value) :
    closedUpTo ts (trades ++ rows) = closedUpTo ts trades := by
  have hnone : rows.filter (fun trade => trade.exitTs.value ≤ ts.value) = [] :=
    List.filter_eq_nil_iff.2 fun row hrow => by simpa using h row hrow
  rw [closedUpTo, List.filter_append, hnone, List.append_nil, closedUpTo]

theorem closedUpTo_all {ts : SimTime} {trades : List ClosedTrade}
    (h : ∀ trade ∈ trades, trade.exitTs.value ≤ ts.value) : closedUpTo ts trades = trades :=
  List.filter_eq_self.2 fun trade htrade => decide_eq_true (h trade htrade)

/-- Weights that agree on the records have the same sum. -/
theorem openingSum_congr {weight weight' : Fill → Int} {records : List FillRecord}
    (h : ∀ record ∈ records, weight record.fill = weight' record.fill) :
    openingSum orders weight records = openingSum orders weight' records := by
  refine congrArg List.sum (List.map_congr_left fun record hrecord => ?_)
  exact h record (List.mem_of_mem_filter hrecord)

/-- Records that weigh nothing add nothing. -/
theorem openingSum_zero {weight : Fill → Int} {records : List FillRecord}
    (h : ∀ record ∈ records, weight record.fill = 0) : openingSum orders weight records = 0 := by
  have hnone : openingSum orders weight records = openingSum orders (fun _ => 0) records :=
    openingSum_congr h
  rw [hnone]
  simp [openingSum]

variable {snapshot : ChainSnapshot} {intent : OrderIntent} {fill : Fill}
  {inventory inventory' : List OpenPosition} {trades trades' : List ClosedTrade}

/-- A close on the side of its leg's opposite takes out of the cash what it realises and what its
contracts had cost. -/
theorem ClosesPart.outflow {leg : OpenPosition} {trade : ClosedTrade}
    (h : ClosesPart snapshot fill leg trade) (hside : fill.side = leg.side.opposite)
    (hmultiplier : snapshot.spec.contractMultiplier = multiplier) :
    trade.realizedPnl.value + sideSign leg.side * leg.entryPremium.value * fill.quantity.value *
      multiplier.value = -Ledger.outflow multiplier fill := by
  rw [h.pnl, Ledger.outflow, hside, sideSign_opposite, hmultiplier]
  ring

/-- What a single fill realises and ties up is what it takes out of the cash. -/
theorem SingleStep.earned
    (h : SingleStep snapshot intent fill inventory trades inventory' trades')
    (hside : fill.side = intent.side) (hflat : Flattens inventory intent)
    (hmultiplier : snapshot.spec.contractMultiplier = multiplier) :
    realisedPnl trades' - legSum (legCost multiplier) inventory' -
        (if intent.action = .Open then fill.fees.value else 0) =
      realisedPnl trades - legSum (legCost multiplier) inventory -
        Ledger.outflow multiplier fill := by
  cases h with
  | opened leg action side quantity entry =>
    rw [if_pos action, legSum_append, legSum_singleton, legCost, side, quantity, entry,
      Ledger.outflow]
    ring
  | reduced positionId leg trade quantity action leg_eq row left =>
    unfold Flattens at hflat
    rw [action] at hflat
    have hout := row.outflow (hside.trans (hflat leg leg_eq).2) hmultiplier
    rw [if_neg (by simp [action]), legSum_updateLeg _ _ leg_eq, realisedPnl_append,
      realisedPnl_singleton]
    simp only [legCost, left]
    linarith
  | flattened positionId leg trade action leg_eq row all =>
    unfold Flattens at hflat
    rw [action] at hflat
    have hout := row.outflow (hside.trans (hflat leg leg_eq).2) hmultiplier
    rw [if_neg (by simp [action]), legSum_removeLeg _ leg_eq, realisedPnl_append,
      realisedPnl_singleton, legCost, ← all]
    linarith

/-- A leg's entry is the one the collector keeps of it. -/
theorem Linked.collected {st : EngineState} (h : Linked st) {leg : OpenPosition}
    (hleg : leg ∈ st.inventory) {entry : LegMeta}
    (hentry : st.bundle.openLegs[leg.positionId]? = some entry) :
    entry.entryPremium = leg.entryPremium := by
  obtain ⟨opened, hopened, -, -, hpremium, -⟩ :=
    h.opens_of_findLeg (findLeg_of_mem h.nodup hleg)
  have hbundle := h.bundle leg.positionId
  rw [hentry, hopened] at hbundle
  simp only [Option.map_some, Option.some.injEq, Prod.mk.injEq] at hbundle
  exact hbundle.2.2.trans hpremium

/-- Open rows priced from their legs show the value of the marks less what the legs cost. -/
theorem rows_unrealised {openLegs : Std.TreeMap PositionId LegMeta} {step : StepIndex}
    {openAtEnd : Bool} {rows : List PositionSnapshot} {marks : List PositionMark}
    {legs : List OpenPosition} (hmarks : List.Forall₂ (PositionMark.Shows multiplier) marks legs)
    (hrows : List.Forall₂ (BundleCollector.Shows openLegs step openAtEnd) rows marks)
    (hentries : ∀ leg ∈ legs, ∀ entry : LegMeta,
      openLegs[leg.positionId]? = some entry → entry.entryPremium = leg.entryPremium) :
    unrealisedPnl rows + legSum (legCost multiplier) legs =
      (marks.map PositionMark.value).sum := by
  induction hmarks generalizing rows with
  | nil =>
    cases hrows
    rfl
  | cons hmark hmarks ih =>
    obtain ⟨row, rest, hrow, hrest, rfl⟩ := List.forall₂_cons_right_iff.1 hrows
    obtain ⟨hown, hothers⟩ := List.forall_mem_cons.1 hentries
    obtain ⟨entry, hentry, hunrealized⟩ := hrow.unrealized
    rw [hmark.positionId] at hentry
    rw [hmark.side, hmark.quantity, hmark.multiplier, hown entry hentry] at hunrealized
    have hrest := ih hrest hothers
    simp only [unrealisedPnl, legSum, List.map_cons, List.sum_cons, hunrealized, legCost,
      PositionMark.value, hmark.side, hmark.quantity, hmark.multiplier] at hrest ⊢
    linarith

/-- The open rows of a settlement show the value of the legs less what they cost. -/
theorem settled_unrealised {st st' : EngineState} {isLast : Bool} {point : EquityPoint}
    (hlinked : Linked st) (h : st.Settled snapshot isLast point st') :
    ∃ rows, st'.bundle.positions = st.bundle.positions ++ rows ∧
      (∀ row ∈ rows, row.step = snapshot.step ∧ row.exitReason = none) ∧
      unrealisedPnl rows + legSum (legCost snapshot.spec.contractMultiplier) st.inventory =
        point.positionValueCents.value := by
  obtain ⟨marked, hsettle, -, -⟩ := h.ledger
  obtain ⟨-, hmarks, -, -, -, hvalue, -⟩ := Ledger.settle_eq_ok hsettle
  obtain ⟨rows, hrows, hbundle⟩ := BundleCollector.collectStep_eq_ok h.bundle
  refine ⟨rows, by rw [hbundle], ?_, ?_⟩
  · exact Pointwise.forall_left hrows fun row mark hrow => ⟨hrow.step_eq, hrow.exitReason⟩
  · rw [hvalue]
    exact rows_unrealised hmarks hrows fun leg hleg entry hentry => hlinked.collected hleg hentry

end Sums

section Steps

variable {snapshot : ChainSnapshot} {intent : OrderIntent} {fill : Fill}
  {inventory inventory' : List OpenPosition} {trades trades' : List ClosedTrade}
  {st st' : EngineState} {initial : Cents} {orders : List (OrderId × OrderIntent)} {k : Nat}
  {point : EquityPoint}

/-- A step leaves what was recorded before it, and stamps what it adds. -/
structure Appends (snapshot : ChainSnapshot) (st st' : EngineState) : Prop where
  closed : ∃ rows, st'.tradeLog.closed = st.tradeLog.closed ++ rows ∧
    ∀ row ∈ rows, row.exitTs = snapshot.ts
  fills : ∃ records, st'.bundle.fills = st.bundle.fills ++ records ∧
    ∀ record ∈ records, record.fill.step = snapshot.step
  positions : ∃ rows, st'.bundle.positions = st.bundle.positions ++ rows ∧
    ∀ row ∈ rows, row.step = snapshot.step ∨ row.exitReason ≠ none

theorem SingleStep.closed
    (h : SingleStep snapshot intent fill inventory trades inventory' trades') :
    ∃ rows, trades' = trades ++ rows ∧ ∀ row ∈ rows, row.exitTs = snapshot.ts := by
  cases h with
  | opened => exact ⟨[], (List.append_nil _).symm, List.forall_mem_nil _⟩
  | reduced _ _ _ _ _ _ row => exact ⟨[_], rfl, List.forall_mem_singleton.2 row.exit⟩
  | flattened _ _ _ _ _ row => exact ⟨[_], rfl, List.forall_mem_singleton.2 row.exit⟩

/-- What is reconciled stays so: a later step adds nothing to an earlier one. -/
theorem Reconciled.later (h : Reconciled initial orders st k point)
    (happends : Appends snapshot st st') (hts : point.ts.value < snapshot.ts.value)
    (hpoint : point.step.value = k) (hstep : (k : Int) < snapshot.step.value) :
    Reconciled initial orders st' k point := by
  obtain ⟨closed, hclosed, hexit⟩ := happends.closed
  obtain ⟨records, hfills, hstamped⟩ := happends.fills
  obtain ⟨rows, hpositions, hrows⟩ := happends.positions
  have hfees : openingSum orders (feesBy k) records = 0 := by
    refine openingSum_zero fun record hrecord => if_neg ?_
    have hlate := hstamped record hrecord
    simp only [executedBy, hlate, decide_eq_true_eq]
    omega
  have hopen : ∀ row ∈ rows, row.step ≠ point.step ∨ row.exitReason ≠ none := by
    intro row hrow
    refine (hrows row hrow).imp_left fun hsame heq => ?_
    have hvalue := congrArg Bounded.value (hsame.symm.trans heq)
    omega
  unfold Reconciled
  rw [hclosed, hfills, hpositions, closedUpTo_append_later fun row hrow => hexit row hrow ▸ hts,
    openRows_append hopen, openingSum_append, hfees, add_zero]
  exact h

/-- A step shows as open exactly the rows its settlement took. -/
theorem openRows_settled {positions terminal rows : List PositionSnapshot} {step : StepIndex}
    (hprior : ∀ row ∈ positions, row.exitReason = none → row.step.value < step.value)
    (hterminal : ∀ row ∈ terminal, row.exitReason ≠ none)
    (hrows : ∀ row ∈ rows, row.step = step ∧ row.exitReason = none) :
    openRows (positions ++ terminal ++ rows) step = rows := by
  have hnone : openRows (positions ++ terminal) step = [] := by
    refine List.filter_eq_nil_iff.2 fun row hrow => ?_
    simp only [decide_eq_true_eq, not_and]
    intro heq hopen
    rcases List.mem_append.1 hrow with hrow | hrow
    · have hearlier := hprior row hrow hopen
      rw [heq] at hearlier
      exact lt_irrefl _ hearlier
    · exact hterminal row hrow hopen
  rw [openRows, List.filter_append]
  exact (congrArg₂ (· ++ ·) hnone (openRows_self hrows)).trans (List.nil_append _)

/-- A settlement of earned cash is reconciled. -/
theorem Reconciled.settled {after : EngineState} {isLast : Bool} (hlinked : Linked after)
    (hearned : CashEarned orders initial snapshot.spec.contractMultiplier after)
    (hsettled : after.Settled snapshot isLast point st')
    (hterminal : ∃ rows, after.bundle.positions = st.bundle.positions ++ rows ∧
      ∀ row ∈ rows, row.exitReason ≠ none)
    (hprior : ∀ row ∈ st.bundle.positions, row.exitReason = none →
      row.step.value < snapshot.step.value)
    (hclosed : ∀ trade ∈ st'.tradeLog.closed, trade.exitTs.value ≤ snapshot.ts.value)
    (hfilled : ∀ record ∈ st'.bundle.fills, record.fill.step.value ≤ k) :
    Reconciled initial orders st' k point := by
  obtain ⟨terminal, hpositions, hreasons⟩ := hterminal
  obtain ⟨marked, hsettle, hcash, -⟩ := hsettled.ledger
  obtain ⟨-, -, hstep, hts, hpointCash, -, hequity, -⟩ := Ledger.settle_eq_ok hsettle
  obtain ⟨rows, hrows, hopen, hvalue⟩ := settled_unrealised hlinked hsettled
  obtain ⟨_, -, hbundle⟩ := BundleCollector.collectStep_eq_ok hsettled.bundle
  have hlog : st'.tradeLog = after.tradeLog := by rw [hsettled.books]
  have hfills : st'.bundle.fills = after.bundle.fills := by rw [hbundle]
  have hfees : openingSum orders (feesBy k) st'.bundle.fills =
      openingSum orders (fun fill => fill.fees.value) after.bundle.fills := by
    rw [← hfills]
    exact openingSum_congr fun record hrecord => if_pos (decide_eq_true (hfilled record hrecord))
  unfold CashEarned at hearned
  unfold Reconciled
  rw [hts, hstep, closedUpTo_all hclosed, hrows, hpositions,
    openRows_settled hprior hreasons hopen, hfees, hequity, hpointCash, hcash, hlog, ← hvalue]
  linarith

end Steps

section Calls

variable [DecimalArith] {log : List (Batch NaiveFill)} {b : Batch NaiveFill} {after : EngineState}
  {initial : Cents} {multiplier : Bounded u32}

/-- One call whose closes flatten keeps the cash. -/
theorem CashEarned.call (h : CashEarned (issued log) initial multiplier b.before)
    (hidentified : RunIdentified log b.before) (ht : OrdersTracked log b.model b.before)
    (hlinked : Linked b.before) (hanchored : OpensAnchored (fun _ _ => True) b.before)
    (hexec : b.Executed after) (hflat : b.Flattens)
    (hmultiplier : b.snapshot.spec.contractMultiplier = multiplier) :
    CashEarned (issued (log ++ [b])) initial multiplier after := by
  obtain ⟨hinOrder, -⟩ := ht.fresh hexec
  refine hexec.singles ht hlinked hanchored hflat
    (CashEarned (issued (log ++ [b])) initial multiplier) (fun _ _ _ hearned => hearned) ?_ ?_
  · intro s t idx orderId intent fill hsub hmeets hside hstep hbooked hearned
    obtain ⟨records, hrecords, hentry⟩ := hbooked.table
    have hopens : OpensIn (issued (log ++ [b])) orderId ↔ intent.action = .Open :=
      OpensIn.of_mem hinOrder (by rw [issued_append]; exact List.mem_append_right _ hsub)
    have hmoved := hstep.earned hside (hmeets (List.cons_ne_nil _ _)) hmultiplier
    have hcash := hbooked.cash
    rw [List.map_singleton, List.sum_singleton, hmultiplier] at hcash
    unfold CashEarned at hearned ⊢
    rw [hrecords, openingSum_append, openingSum_entry _ hentry, hcash]
    simp only [hopens]
    linarith
  · unfold CashEarned
    rw [← hidentified.openingSum_later hinOrder]
    exact h

/-- A call closes its rows at its own instant. -/
theorem Batch.Executed.closedNow (ht : OrdersTracked log b.model b.before)
    (hlinked : Linked b.before) (hanchored : OpensAnchored (fun _ _ => True) b.before)
    (hexec : b.Executed after) :
    ∃ rows, after.tradeLog.closed = b.before.tradeLog.closed ++ rows ∧
      ∀ row ∈ rows, row.exitTs = b.snapshot.ts := by
  refine hexec.singles ht hlinked hanchored along_true (fun st => ∃ rows,
    st.tradeLog.closed = b.before.tradeLog.closed ++ rows ∧
      ∀ row ∈ rows, row.exitTs = b.snapshot.ts) (fun _ _ _ hrows => hrows) ?_
    ⟨[], (List.append_nil _).symm, List.forall_mem_nil _⟩
  rintro s t idx orderId intent fill - - - hstep - ⟨rows, hrows, hexit⟩
  obtain ⟨more, hmore, hnow⟩ := hstep.closed
  exact ⟨rows ++ more, by rw [hmore, hrows, List.append_assoc],
    List.forall_mem_append.2 ⟨hexit, hnow⟩⟩

/-- A call records its fills at its own step. -/
theorem Batch.Executed.filledNow (hexec : b.Executed after) :
    ∃ records, after.bundle.fills = b.before.bundle.fills ++ records ∧
      ∀ record ∈ records, record.fill.step = b.snapshot.step := by
  obtain ⟨records, hrecords, hentries⟩ := hexec.booked.table
  refine ⟨records, hrecords, fun record hrecord => ?_⟩
  have hmem : record.fill ∈ b.fills := by
    rw [← hexec.entries_fills, ← hentries, List.map_map]
    exact List.mem_map_of_mem hrecord
  exact NaiveFill.stampsSteps _ _ _ _ _ _ hexec.filled record.fill hmem

/-- A call and its settlement add to the streams, and stamp what they add. -/
theorem Batch.Executed.appends {st' : EngineState} {isLast : Bool} {point : EquityPoint}
    (ht : OrdersTracked log b.model b.before) (hlinked : Linked b.before)
    (hanchored : OpensAnchored (fun _ _ => True) b.before) (hexec : b.Executed after)
    (hsettled : after.Settled b.snapshot isLast point st') : Appends b.snapshot b.before st' := by
  obtain ⟨rows, hrows, hbundle⟩ := BundleCollector.collectStep_eq_ok hsettled.bundle
  have hclosed := hexec.closedNow ht hlinked hanchored
  constructor
  · rw [hsettled.books]
    exact hclosed
  · rw [hbundle]
    exact hexec.filledNow
  · obtain ⟨terminal, hterminal, hclosed⟩ := hexec.booked.rows
    refine ⟨terminal ++ rows, by rw [hbundle, hterminal, List.append_assoc], ?_⟩
    exact List.forall_mem_append.2 ⟨fun row hrow => .inr (hclosed row hrow),
      Pointwise.forall_left hrows fun row mark hrow => .inl hrow.step_eq⟩

end Calls

section Runs

variable [DecimalArith] {S R : Type} [Strategy S R] [SeedableRng R] {r : Setup S NaiveFill}
  {n : Nat} {log : List (Batch NaiveFill)} {s t : RunState S NaiveFill R} {initial : Cents}
  {multiplier : Bounded u32}

/-- A naive run on a tape of one multiplier, whose closes flatten, keeps the cash. -/
theorem Setup.play_earned (hinitial : BacktestEngine.initialCents r.config = .ok initial)
    (hmultiplier : ∀ snapshot ∈ r.feed.tape, snapshot.spec.contractMultiplier = multiplier)
    (h : r.play n = .ok (log, s)) :
    OrdersTracked log s.execution s.engine ∧ RunIdentified log s.engine ∧ Linked s.engine ∧
      OpensAnchored (fun _ _ => True) s.engine ∧
      ((∀ b ∈ log, b.Flattens) → CashEarned (issued log) initial multiplier s.engine) := by
  refine r.play_tracked (fun _ _ _ h => h) (fun log _ st => RunIdentified log st ∧ Linked st ∧
    OpensAnchored (fun _ _ => True) st ∧
    ((∀ b ∈ log, b.Flattens) → CashEarned (issued log) initial multiplier st)) ?_ ?_ ?_ h
  · intro other hother
    cases hinitial.symm.trans hother
    refine ⟨.start initial, linked_new initial, opensAnchored_new initial, fun _ => ?_⟩
    simp [CashEarned, EngineState.new, Ledger.new, TradeLogCollector.empty, BundleCollector.empty,
      realisedPnl, openingSum, legSum]
  · rintro log b after ht ⟨hidentified, hlinked, hanchored, hearned⟩ hexec hmem
    obtain ⟨hlinked', hanchored'⟩ :=
      linked_call ht (fun _ => trivial) hexec.carriesOwn hlinked hanchored hexec
    refine ⟨hidentified.call hexec, hlinked', hanchored', fun hall => ?_⟩
    obtain ⟨hprior, hlast⟩ := List.forall_mem_append.1 hall
    exact (hearned hprior).call hidentified ht hlinked hanchored hexec
      (hlast b (List.mem_singleton_self b)) (hmultiplier _ hmem)
  · rintro log x st snapshot isLast point st' ⟨hidentified, hlinked, hanchored, hearned⟩ hsettled
    obtain ⟨hlinked', hkeeps, hpending⟩ := hsettled.sameLegs.linked hlinked
    refine ⟨hidentified.settle hsettled, hlinked', hkeeps.opensAnchored hpending hanchored,
      fun hall => ?_⟩
    obtain ⟨rows, -, hbundle⟩ := BundleCollector.collectStep_eq_ok hsettled.bundle
    obtain ⟨marked, hsettle, hcash, -⟩ := hsettled.ledger
    have hkept := hearned hall
    unfold CashEarned at hkept ⊢
    rw [(Ledger.settle_eq_ok hsettle).1, hcash, hbundle, hsettled.books]
    exact hkept

/-- A naive run after `n` settled steps: nothing recorded is later than its last snapshot, and
every point so far is reconciled. -/
structure Reconciles (r : Setup S NaiveFill) (initial : Cents) (n : Nat)
    (log : List (Batch NaiveFill)) (s : RunState S NaiveFill R) : Prop where
  closed : ∀ snapshot, r.feed.tape[n - 1]? = some snapshot →
    ∀ trade ∈ s.engine.tradeLog.closed, trade.exitTs.value ≤ snapshot.ts.value
  filled : ∀ record ∈ s.engine.bundle.fills, record.fill.step.value ≤ (n - 1 : Nat)
  curve : ∀ k < n, ∃ point, s.equityCurve[k]? = some point ∧ point.step.value = k ∧
    r.feed.tape[k]?.map ChainSnapshot.ts = some point.ts ∧
      Reconciled initial (issued log) s.engine k point

/-- The startup settles nothing. -/
theorem reconciles_zero (h : r.play 0 = .ok (log, s)) : Reconciles r initial 0 log s := by
  obtain ⟨initial', first, b, -, hfirst, rfl, rfl, hbefore, hmodel, hexec, -, -⟩ :=
    Setup.play_zero h
  have ht : OrdersTracked [] b.model b.before := by
    rw [hbefore]
    exact .start (fun _ _ _ h => h) initial'
  have hlinked : Linked b.before := hbefore ▸ linked_new initial'
  have hanchored : OpensAnchored (fun _ _ => True) b.before := hbefore ▸ opensAnchored_new initial'
  obtain ⟨rows, hrows, hexit⟩ := hexec.closedNow ht hlinked hanchored
  obtain ⟨records, hrecords, hstamped⟩ := hexec.filledNow
  obtain ⟨-, -, hsteps⟩ := TapeMeta.fromTape_eq_ok r.feed.accepted
  rw [hbefore] at hrows hrecords
  refine ⟨?_, ?_, nofun⟩
  · intro snapshot hsnapshot trade htrade
    cases hfirst.symm.trans hsnapshot
    rw [hrows] at htrade
    exact le_of_eq (congrArg Bounded.value (hexit trade htrade))
  · intro record hrecord
    rw [hrecords] at hrecord
    rw [hstamped record hrecord, hsteps 0 _ hfirst]

/-- One more step reconciles its own point, and leaves the earlier ones reconciled. -/
theorem reconciles_succ (hinitial : BacktestEngine.initialCents r.config = .ok initial)
    (hmultiplier : ∀ snapshot ∈ r.feed.tape, snapshot.spec.contractMultiplier = multiplier)
    {prior : List (Batch NaiveFill)} (hprior : r.play n = .ok (prior, t))
    (hbooks : Reconciles r initial n prior t) (h : r.play (n + 1) = .ok (log, s))
    (hflat : ∀ b ∈ log, b.Flattens) : Reconciles r initial (n + 1) log s := by
  obtain ⟨prior', t', snapshot, b, point, after, hprior', hsnapshot, rfl, rfl, hbefore, hmodel,
    hexec, -, hsettled, hcurve⟩ := Setup.play_succ h
  cases hprior.symm.trans hprior'
  obtain ⟨hflatPrior, hflatLast⟩ := List.forall_mem_append.1 hflat
  obtain ⟨ht, hidentified, hlinked, hanchored, hearned⟩ :=
    Setup.play_earned hinitial hmultiplier hprior
  obtain ⟨_, -, hbalanced⟩ := play_balanced hprior
  obtain ⟨-, -, hsteps⟩ := TapeMeta.fromTape_eq_ok r.feed.accepted
  have hascends := TapeMeta.fromTape_ascends r.feed.accepted
  have hmem := List.mem_of_getElem? hsnapshot
  rw [← hbefore, ← hmodel] at ht
  rw [← hbefore] at hidentified hlinked hanchored hearned
  have happends := hexec.appends ht hlinked hanchored hsettled
  have hearned' := (hearned hflatPrior).call hidentified ht hlinked hanchored hexec
    (hflatLast b (List.mem_singleton_self b)) (hmultiplier _ hmem)
  obtain ⟨hlinked', -⟩ :=
    linked_call ht (fun _ => trivial) hexec.carriesOwn hlinked hanchored hexec
  have hlater : ∀ (k : Nat) earlier, k < n → r.feed.tape[k]? = some earlier →
      earlier.ts.value < b.snapshot.ts.value := by
    intro k earlier hk hearlier
    obtain ⟨hkin, rfl⟩ := List.getElem?_eq_some_iff.1 hearlier
    obtain ⟨hnin, hlast⟩ := List.getElem?_eq_some_iff.1 hsnapshot
    exact hlast ▸ List.pairwise_iff_getElem.1 hascends k n hkin hnin hk
  obtain ⟨rows, hrows, hexit⟩ := happends.closed
  obtain ⟨records, hrecords, hstamped⟩ := happends.fills
  rw [hbefore] at hrows hrecords happends
  have hclosed : ∀ trade ∈ s.engine.tradeLog.closed, trade.exitTs.value ≤ b.snapshot.ts.value := by
    rw [hrows]
    refine List.forall_mem_append.2 ⟨fun trade htrade => ?_, fun trade htrade =>
      le_of_eq (congrArg Bounded.value (hexit trade htrade))⟩
    cases n with
    | zero => exact hbooks.closed _ hsnapshot trade htrade
    | succ n =>
      obtain ⟨hin, -⟩ := List.getElem?_eq_some_iff.1 hsnapshot
      have hearlier := List.getElem?_eq_getElem (n.lt_succ_self.trans hin)
      exact (hbooks.closed _ hearlier trade htrade).trans
        (hlater n _ n.lt_succ_self hearlier).le
  have hfilled : ∀ record ∈ s.engine.bundle.fills, record.fill.step.value ≤ n := by
    rw [hrecords]
    refine List.forall_mem_append.2 ⟨fun record hrecord => ?_, fun record hrecord => ?_⟩
    · have hbound := hbooks.filled record hrecord
      omega
    · rw [hstamped record hrecord, hsteps n _ hsnapshot]
  refine ⟨fun last hlast => ?_, hfilled, fun k hk => ?_⟩
  · cases hsnapshot.symm.trans hlast
    exact hclosed
  · rcases Nat.lt_or_ge k n with hlt | hge
    · obtain ⟨p, hp, hpk, hts, hreconciled⟩ := hbooks.curve k hlt
      obtain ⟨earlier, hearlier, hpts⟩ := Option.map_eq_some_iff.1 hts
      refine ⟨p, ?_, hpk, hts, ?_⟩
      · rw [hcurve, List.getElem?_append_left (by rw [hbalanced.points]; exact hlt), hp]
      · refine Reconciled.later ?_ happends (hpts ▸ hlater k earlier hlt hearlier) hpk ?_
        · unfold Reconciled at hreconciled ⊢
          rw [hbefore] at hidentified
          have hsame := hidentified.openingSum_later (ht.fresh hexec).1 (feesBy k)
          rw [← hsame]
          exact hreconciled
        · rw [hsteps n _ hsnapshot]
          exact_mod_cast hlt
    · obtain rfl : k = n := by omega
      obtain ⟨marked, hsettle, -, -⟩ := hsettled.ledger
      obtain ⟨-, -, hpstep, hpts, -⟩ := Ledger.settle_eq_ok hsettle
      refine ⟨point, ?_, by rw [hpstep, hsteps k _ hsnapshot], ?_, ?_⟩
      · rw [hcurve, List.getElem?_append_right (by rw [hbalanced.points]), hbalanced.points,
          Nat.sub_self]
        rfl
      · rw [hsnapshot, hpts]
        rfl
      · refine Reconciled.settled hlinked' ?_ hsettled (hbefore ▸ hexec.booked.rows) ?_ hclosed
          hfilled
        · rw [hmultiplier _ hmem]
          exact hearned'
        · intro row hrow hnone
          rw [hsteps k _ hsnapshot]
          exact hbalanced.rows row hrow hnone

/-- Profit and loss reconcile: in a naive run on a tape of one multiplier whose closes flatten, the
equity of every step exceeds the capital by what the trades closed by then realised and what the
open rows of the step show, less the fees of the opening fills by then. -/
theorem pnl_reconciled (config : BacktestConfig) (feed : MaterialisedFeed) (strategy : S)
    (hmultiplier : ∀ snapshot ∈ feed.tape, snapshot.spec.contractMultiplier = multiplier)
    (h : (Setup.naive config feed strategy).play n = .ok (log, s))
    (hflat : ∀ b ∈ log, b.Flattens) :
    ∃ initial, BacktestEngine.initialCents config = .ok initial ∧
      ∀ k < n, ∃ point, s.equityCurve[k]? = some point ∧ point.step.value = k ∧
        feed.tape[k]?.map ChainSnapshot.ts = some point.ts ∧
          Reconciled initial (issued log) s.engine k point := by
  obtain ⟨initial, hinitial, -⟩ := play_balanced h
  refine ⟨initial, hinitial, ?_⟩
  suffices hbooks : Reconciles (Setup.naive config feed strategy) initial n log s from hbooks.curve
  induction n generalizing log s with
  | zero => exact reconciles_zero h
  | succ n ih =>
    obtain ⟨prior, t, _, b, _, _, hprior, -, rfl, -⟩ := Setup.play_succ h
    obtain ⟨hflatPrior, -⟩ := List.forall_mem_append.1 hflat
    exact reconciles_succ hinitial hmultiplier hprior (ih hprior hflatPrior) h hflat

end Runs

open SmallMarket in
/-- Two lots are bought, and one of them is sold again before the tape ends. -/
theorem pnl_reconciled_partClose : ∃ log s initial,
    (Setup.naive (config .Naive) dipFeed (⟨take, [closeOne .Short, []]⟩ : Script)).play 3 =
      .ok (log, s) ∧
      (∀ b ∈ log, b.Flattens) ∧ s.engine.tradeLog.closed.length = 1 ∧
      s.engine.inventory.length = 1 ∧
      ∀ k < 3, ∃ point, s.equityCurve[k]? = some point ∧
        Reconciled initial (issued log) s.engine k point := by
  obtain ⟨⟨log, s⟩, h, hcheck⟩ := exists_ok_of_check (r := (Setup.naive (config .Naive) dipFeed
    (⟨take, [closeOne .Short, []]⟩ : Script)).play 3)
    (fun run => decide ((∀ b ∈ run.1, b.Flattens) ∧ run.2.engine.tradeLog.closed.length = 1 ∧
      run.2.engine.inventory.length = 1)) (by decide +kernel)
  obtain ⟨hflat, hclosed, hopen⟩ := of_decide_eq_true hcheck
  have hmultiplier : ∀ snapshot ∈ dipFeed.tape,
      snapshot.spec.contractMultiplier = ⟨100, by decide⟩ := by decide +kernel
  obtain ⟨initial, -, hcurve⟩ := pnl_reconciled _ _ _ hmultiplier h hflat
  refine ⟨log, s, initial, h, hflat, hclosed, hopen, fun k hk => ?_⟩
  obtain ⟨point, hpoint, -, -, hreconciled⟩ := hcurve k hk
  exact ⟨point, hpoint, hreconciled⟩

end IronCondor
