import IronCondor.Batch.SmallBatch
import IronCondor.Data.Tape
import IronCondor.Engine.HeldSizes
import IronCondor.RunBacktest

/-! # The timeline of a run

Every row a run writes is dated by one snapshot of its tape, step and time together, and every
table lists its rows in the order of the tape. A trade is entered no later than it is exited. -/
namespace IronCondor

open Checked ExceptRun OrderBook

/-- The step and the time of a row. -/
abbrev Stamp := StepIndex × SimTime

/-- A snapshot of the tape has the step and the time. -/
def Dated (tape : List ChainSnapshot) (stamp : Stamp) : Prop :=
  ∃ snapshot ∈ tape, (snapshot.step, snapshot.ts) = stamp

/-- Stamps of the first `n` snapshots of a tape, in the order of the tape. -/
structure Chronicle (tape : List ChainSnapshot) (n : Nat) (stamps : List Stamp) : Prop where
  dated : ∀ stamp ∈ stamps, Dated tape stamp
  early : ∀ stamp ∈ stamps, stamp.1.value < n
  inOrder : stamps.Pairwise fun a b => a.1.value ≤ b.1.value

def FillRecord.stamp (record : FillRecord) : Stamp := (record.fill.step, record.fill.ts)

def PositionSnapshot.stamp (row : PositionSnapshot) : Stamp := (row.step, row.ts)

def EquityPoint.stamp (point : EquityPoint) : Stamp := (point.step, point.ts)

def StepAttributionScalars.stamp (sample : StepAttributionScalars) : Stamp :=
  (sample.step, sample.ts)

def GreeksAttributionRow.stamp (row : GreeksAttributionRow) : Stamp := (row.step, row.ts)

section Stamps

variable {tape : List ChainSnapshot} {n : Nat} {stamps added : List Stamp}

theorem Chronicle.nil (tape : List ChainSnapshot) (n : Nat) : Chronicle tape n [] :=
  ⟨List.forall_mem_nil _, List.forall_mem_nil _, .nil⟩

/-- A snapshot no earlier than the stamps so far dates the rows it adds. -/
theorem Chronicle.append (h : Chronicle tape n stamps) {m : Nat} (hm : n ≤ m + 1)
    {snapshot : ChainSnapshot} (hsnapshot : snapshot ∈ tape) (hstep : snapshot.step.value = m)
    (hadded : ∀ stamp ∈ added, stamp = (snapshot.step, snapshot.ts)) :
    Chronicle tape (m + 1) (stamps ++ added) := by
  have hnow : ∀ stamp ∈ added, stamp.1.value = m := fun stamp hstamp => by
    rw [hadded stamp hstamp, ← hstep]
  refine ⟨?_, ?_, List.pairwise_append.2 ⟨h.inOrder, ?_, ?_⟩⟩
  · exact List.forall_mem_append.2 ⟨h.dated, fun stamp hstamp =>
      ⟨snapshot, hsnapshot, (hadded stamp hstamp).symm⟩⟩
  · refine List.forall_mem_append.2 ⟨fun stamp hstamp => ?_, fun stamp hstamp => ?_⟩
    · have hearly := h.early stamp hstamp
      omega
    · rw [hnow stamp hstamp]
      omega
  · refine List.pairwise_of_forall_mem_list fun a ha b hb => ?_
    rw [hnow a ha, hnow b hb]
  · intro a ha b hb
    have hearly := h.early a ha
    rw [hnow b hb]
    omega

/-- The steps of an accepted tape are ordered as its times. -/
theorem TapeMeta.fromTape_clock {identity : String} {tapeMeta : TapeMeta}
    (h : TapeMeta.fromTape identity tape = .ok tapeMeta) {a b : Stamp} (ha : Dated tape a)
    (hb : Dated tape b) : a.1.value < b.1.value ↔ a.2.value < b.2.value := by
  obtain ⟨snapshot, hsnapshot, rfl⟩ := ha
  obtain ⟨later, hlater, rfl⟩ := hb
  obtain ⟨-, -, hsteps⟩ := TapeMeta.fromTape_eq_ok h
  have hascends := List.pairwise_iff_getElem.1 (TapeMeta.fromTape_ascends h)
  obtain ⟨i, hi, rfl⟩ := List.mem_iff_getElem.1 hsnapshot
  obtain ⟨j, hj, rfl⟩ := List.mem_iff_getElem.1 hlater
  have hstep := hsteps i _ (List.getElem?_eq_getElem hi)
  have hstep' := hsteps j _ (List.getElem?_eq_getElem hj)
  simp only [hstep, hstep']
  rcases Nat.lt_trichotomy i j with hlt | rfl | hgt
  · have := hascends i j hi hj hlt
    omega
  · simp
  · have := hascends j i hj hi hgt
    omega

end Stamps

section Rows

variable {snapshot : ChainSnapshot} {reasons : CloseReasons} {st st' : EngineState}
  {orderId : OrderId} {positionId : PositionId} {first : Fill} {agg : FillAggregate}
  {run : List Fill} {base : Bounded u32}

/-- The terminal row of a close is dated by the first fill of its run. -/
theorem closeLeg_dates {reason : ExitReason} (hfirst : run.head? = some first)
    (h : st.closeLeg orderId positionId run first agg base reason snapshot = .ok st') :
    ∃ rows, st'.bundle.positions = st.bundle.positions ++ rows ∧
      ∀ row ∈ rows, row.stamp = (first.step, first.ts) := by
  have hrun : run ≠ [] := by
    rintro rfl
    cases hfirst
  simp only [EngineState.closeLeg, bind_ok_iff, Prod.exists] at h
  obtain ⟨inventory, full, -, tradeLog, -, st₁, hfills, h⟩ := h
  obtain ⟨entry, records, -, -, hbundle⟩ := closeFills_tagged hrun hfills
  split_ifs at h
  · simp only [BundleCollector.recordCloseTerminal, bind_ok_iff, okOr_eq_ok, pure_ok_iff] at h
    obtain ⟨_, ⟨found, -, _, -, rfl⟩, rfl⟩ := h
    rw [hbundle]
    exact ⟨_, rfl, List.forall_mem_singleton.2 rfl⟩
  · cases h
    rw [hbundle]
    exact ⟨[], (List.append_nil _).symm, List.forall_mem_nil _⟩

/-- An open writes no row. -/
theorem Recorded.open_positions {held : Option PositionId} {intent : OrderIntent} {start next : Int}
    {inventory : List OpenPosition} {next' : Int} {b b' : BundleCollector} {tradeId : TradeId}
    (h : Recorded orderId held intent start run inventory next b tradeId positionId next' b')
    (haction : intent.action = .Open) : b'.positions = b.positions := by
  cases h with
  | opened => rfl
  | extended => rfl
  | reduced records leg entry action => cases haction.symm.trans action
  | flattened records leg entry row first action => cases haction.symm.trans action

/-- An event writes no row but the terminal ones, dated by its own fills. -/
theorem applyEvent_dates {s t : StepState} {ev : OrderEvent}
    (h : applyEvent reasons snapshot s ev = .ok t) :
    ∃ rows, t.engine.bundle.positions = s.engine.bundle.positions ++ rows ∧
      ∀ row ∈ rows, ∃ fill ∈ ev.fills, row.stamp = (fill.step, fill.ts) := by
  have hnone {positions positions' : List PositionSnapshot} (heq : positions' = positions) :
      ∃ rows, positions' = positions ++ rows ∧
        ∀ row ∈ rows, ∃ fill ∈ ev.fills, row.stamp = (fill.step, fill.ts) :=
    ⟨[], by rw [heq, List.append_nil], List.forall_mem_nil _⟩
  cases ev with
  | carried orderId run =>
    obtain ⟨entry, tradeId, positionId, hstep⟩ := carried_recorded h
    obtain ⟨engine, happly, h⟩ := bind_ok_iff.1 h
    cases h
    obtain ⟨found, agg, first, hfound, -, hfirst, hcases⟩ := applyCarryGroup_cases happly
    cases hstep.pending.symm.trans hfound
    rcases hcases with ⟨haction, -⟩ | ⟨positionId, st₁, -, hclose, hsettle⟩
    · exact hnone (hstep.recorded.open_positions haction)
    · obtain ⟨rows, hrows, hdates⟩ := closeLeg_dates hfirst hclose
      have hbundle : engine.bundle = st₁.bundle := by
        rcases settleEntry_cases hsettle with ⟨-, rfl⟩ | ⟨_, _, -, -, rfl⟩ <;> rfl
      rw [hbundle]
      exact ⟨rows, hrows, fun row hrow => ⟨first, List.mem_of_head? hfirst, hdates row hrow⟩⟩
  | withdrawn orderId =>
    cases h
    exact hnone rfl
  | submitted idx orderId intent run =>
    obtain ⟨tradeId, held, hstep⟩ := submitted_recorded h
    obtain ⟨⟨engine, trade⟩, happly, h⟩ := bind_ok_iff.1 h
    cases h
    rcases hstep.recorded with ⟨-, -, hbundle, -⟩ | ⟨hrun, positionId, -, hrecorded⟩
    · exact hnone (congrArg BundleCollector.positions hbundle)
    rcases applySubmit_cases happly with ⟨hempty, -⟩ | ⟨agg, first, hfirst, -, hcases⟩
    · exact absurd hempty hrun
    rcases hcases with ⟨haction, -⟩ | ⟨positionId, st₁, -, -, hclose, hregister⟩
    · exact hnone (hrecorded.open_positions haction)
    · obtain ⟨rows, hrows, hdates⟩ := closeLeg_dates hfirst hclose
      have hbundle : engine.bundle = st₁.bundle := by
        rcases registerRemainder_cases hregister with ⟨-, rfl⟩ | ⟨_, _, _, _, -, -, -, -, rfl⟩ <;> rfl
      rw [hbundle]
      exact ⟨rows, hrows, fun row hrow => ⟨first, List.mem_of_head? hfirst, hdates row hrow⟩⟩

/-- The rows a call writes are dated by its snapshot. -/
theorem Batch.Executed.dates {X : Type} [ExecutionModel X] {b : Batch X} {after : EngineState}
    (hassembles : AssemblesFills X) (hexec : b.Executed after) :
    ∃ rows, after.bundle.positions = b.before.bundle.positions ++ rows ∧
      ∀ row ∈ rows, row.stamp = (b.snapshot.step, b.snapshot.ts) := by
  obtain ⟨ids, -, hstart⟩ := hexec.minted
  obtain ⟨trade, hfold⟩ := hexec.applied
  have hpositions : b.start.bundle.positions = b.before.bundle.positions := by rw [hstart]
  rw [← hpositions]
  refine foldlM_invariant_mem (fun s : StepState => ∃ rows, s.engine.bundle.positions =
    b.start.bundle.positions ++ rows ∧ ∀ row ∈ rows, row.stamp = (b.snapshot.step, b.snapshot.ts))
    ?_ ⟨[], (List.append_nil _).symm, List.forall_mem_nil _⟩ hfold
  rintro s ev t hev ⟨rows, hrows, hdates⟩ happly
  obtain ⟨added, hadded, hnow⟩ := applyEvent_dates happly
  refine ⟨rows ++ added, by rw [hadded, hrows, List.append_assoc],
    List.forall_mem_append.2 ⟨hdates, fun row hrow => ?_⟩⟩
  obtain ⟨fill, hfill, hstamp⟩ := hnow row hrow
  have hassembled := hassembles _ _ _ _ _ _ hexec.filled fill (hexec.event_fills hev hfill)
  rw [hstamp, hassembled.step, hassembled.ts]

end Rows

section Runs

variable {S X R : Type}

/-- The rows of a run after `n` settled steps are dated by its first snapshots. -/
structure Chronicled (r : Setup S X) (n : Nat) (s : RunState S X R) : Prop where
  fills : Chronicle r.feed.tape (max n 1) (s.engine.bundle.fills.map FillRecord.stamp)
  positions : Chronicle r.feed.tape (max n 1) (s.engine.bundle.positions.map PositionSnapshot.stamp)
  curve : Chronicle r.feed.tape n (s.equityCurve.map EquityPoint.stamp)
  samples : Chronicle r.feed.tape n (s.attribution.steps.map StepAttributionScalars.stamp)

variable [ExecutionModel X] [Strategy S R] [SeedableRng R] {r : Setup S X} {n : Nat}
  {log : List (Batch X)} {s : RunState S X R}

omit [Strategy S R] [SeedableRng R] in
/-- The records a call adds are dated by its snapshot. -/
theorem Batch.Executed.records_dates {b : Batch X} {after : EngineState}
    (hassembles : AssemblesFills X) (hexec : b.Executed after) :
    ∃ records, after.bundle.fills = b.before.bundle.fills ++ records ∧
      ∀ record ∈ records, record.stamp = (b.snapshot.step, b.snapshot.ts) := by
  obtain ⟨records, hrecords, hentries⟩ := hexec.booked.table
  refine ⟨records, hrecords, fun record hrecord => ?_⟩
  obtain ⟨hstep, hts⟩ := hexec.records_step hassembles hentries record hrecord
  rw [FillRecord.stamp, hstep, hts]

/-- Every reachable state has its rows dated by the snapshots seen so far. -/
theorem Setup.play_chronicled (hassembles : AssemblesFills X) (h : r.play n = .ok (log, s)) :
    Chronicled r n s := by
  obtain ⟨-, -, hsteps⟩ := TapeMeta.fromTape_eq_ok r.feed.accepted
  induction n generalizing log s with
  | zero =>
    have hattribution := Setup.play_zero_attribution h
    obtain ⟨initial, first, b, -, hfirst, rfl, rfl, hbefore, -, hexec, -, hcurve⟩ :=
      Setup.play_zero h
    obtain ⟨records, hrecords, hrecordDates⟩ := hexec.records_dates hassembles
    obtain ⟨rows, hrows, hrowDates⟩ := hexec.dates hassembles
    rw [hbefore] at hrecords hrows
    have hmem := List.mem_of_getElem? hfirst
    have hstep := hsteps 0 _ hfirst
    have hempty : Chronicle r.feed.tape 0 [] := .nil _ _
    constructor
    · rw [hrecords]
      exact hempty.append (by omega) hmem hstep (List.forall_mem_map.2 hrecordDates)
    · rw [hrows]
      exact hempty.append (by omega) hmem hstep (List.forall_mem_map.2 hrowDates)
    · rw [hcurve]
      exact hempty
    · rw [hattribution]
      exact hempty
  | succ n ih =>
    obtain ⟨prior, t, snapshot, b, point, after, hprior, hsnapshot, rfl, rfl, hbefore, -, hexec, -,
      hsettled, hcurve, -, hsampled⟩ := Setup.play_succ_sampled h
    have ht := ih hprior
    obtain ⟨records, hrecords, hrecordDates⟩ := hexec.records_dates hassembles
    obtain ⟨terminal, hterminal, hterminalDates⟩ := hexec.dates hassembles
    obtain ⟨_, hsettle, -, -⟩ := hsettled.ledger
    obtain ⟨-, -, hpointStep, hpointTs, -⟩ := Ledger.settle_eq_ok hsettle
    obtain ⟨rows, hrows, hbundle⟩ := collectStep_openRows hsettled.bundle
    have hrowDates : ∀ row ∈ rows, row.stamp = (b.snapshot.step, b.snapshot.ts) :=
      fun row hrow => by
        obtain ⟨mark, -, hopen⟩ := Pointwise.exists_right hrows hrow
        rw [PositionSnapshot.stamp, hopen.step_eq, hopen.ts_eq]
    have hmem := List.mem_of_getElem? hsnapshot
    have hstep := hsteps n _ hsnapshot
    rw [hbefore] at hrecords hterminal
    have hlast : max (n + 1) 1 = n + 1 := by omega
    constructor
    · rw [hbundle, hrecords, List.map_append, hlast]
      exact ht.fills.append (by omega) hmem hstep (List.forall_mem_map.2 hrecordDates)
    · rw [hbundle, hterminal, List.append_assoc, List.map_append, hlast]
      exact ht.positions.append (by omega) hmem hstep (List.forall_mem_map.2
        (List.forall_mem_append.2 ⟨hterminalDates, hrowDates⟩))
    · rw [hcurve, List.map_append]
      refine ht.curve.append (by omega) hmem hstep (List.forall_mem_singleton.2 ?_)
      rw [EquityPoint.stamp, hpointStep, hpointTs]
    · rw [hsampled, AttributionCollector.collect, List.map_append]
      exact ht.samples.append (by omega) hmem hstep (List.forall_mem_singleton.2 rfl)

end Runs

section Attribution

variable [DecimalArith] [DecimalSums] {round : Decimal → Outcome Cents}

/-- The attribution rows are dated as their samples. -/
theorem attributeSubstrate_stamps {steps : List StepAttributionScalars}
    {legs : List LegAttributionSample} {rows : List GreeksAttributionRow}
    (h : attributeSubstrate round steps legs = .ok rows) :
    rows.map GreeksAttributionRow.stamp = steps.map StepAttributionScalars.stamp := by
  simp only [attributeSubstrate, bind_ok_iff, pure_ok_iff, Prod.exists] at h
  obtain ⟨found, _, hfold, rfl⟩ := h
  obtain ⟨added, hadded, hlength, -, hall⟩ := attributeNext_foldlM hfold
  rw [hadded, List.nil_append]
  apply List.ext_getElem?
  intro k
  rw [List.getElem?_map, List.getElem?_map]
  cases hstep : steps[k]? with
  | none =>
    have hnone : added[k]? = none := by
      rw [List.getElem?_eq_none_iff] at hstep ⊢
      omega
    rw [hnone]
    rfl
  | some step =>
    obtain ⟨row, hrow, hattributed⟩ := hall k step hstep
    have hstamp : row.stamp = step.stamp := by
      simp only [attributeStep, bind_ok_iff, pure_ok_iff] at hattributed
      obtain ⟨_, -, _, -, _, -, _, -, _, -, _, -, _, -, _, -, _, -, _, -, _, -, rfl⟩ := hattributed
      rfl
    rw [hrow, Option.map_some, Option.map_some, hstamp]

end Attribution

section Trades

variable {S X R : Type} [ExecutionModel X] [TrackingModel X] [Strategy S R] [SeedableRng R]
  {r : Setup S X} {n : Nat} {log : List (Batch X)} {s : RunState S X R}

omit [TrackingModel X] [Strategy S R] [SeedableRng R] in
/-- The calls of a run go through the tape in order. -/
theorem Balanced.calls_ascend {initial : Cents} (h : Balanced r initial n log s) :
    log.Pairwise fun a b => a.snapshot.ts.value ≤ b.snapshot.ts.value := by
  have hascends := List.pairwise_iff_getElem.1 (TapeMeta.fromTape_ascends r.feed.accepted)
  refine List.pairwise_iff_getElem.2 fun i j hi hj hlt => ?_
  obtain ⟨hi', hsnapshot⟩ := List.getElem?_eq_some_iff.1 (h.against i _ (List.getElem?_eq_getElem hi))
  obtain ⟨hj', hlater⟩ := List.getElem?_eq_some_iff.1 (h.against j _ (List.getElem?_eq_getElem hj))
  rw [← hsnapshot, ← hlater]
  rcases Nat.lt_or_ge (i - 1) (j - 1) with hbefore | hsame
  · exact (hascends _ _ hi' hj' hbefore).le
  · -- the startup and the first step see the same snapshot
    have heq : i - 1 = j - 1 := by omega
    simp only [heq, le_refl]

/-- The trades of a run are logged in the order they are exited, none before it is entered. -/
theorem Setup.play_trades (hidle : Idle r.execution) (hassembles : AssemblesFills X)
    (h : r.play n = .ok (log, s)) :
    (∀ trade ∈ s.engine.tradeLog.closed, ∃ step step',
        Dated r.feed.tape (step, trade.entryTs) ∧ Dated r.feed.tape (step', trade.exitTs) ∧
          trade.entryTs.value ≤ trade.exitTs.value) ∧
      s.engine.tradeLog.closed.Pairwise fun a b => a.exitTs.value ≤ b.exitTs.value := by
  have hrows := (Setup.play_logShown hidle hassembles h).own.rows
  have hfills := (Setup.play_chronicled hassembles h).fills
  obtain ⟨_, -, hbalanced⟩ := play_balanced h
  constructor
  · intro trade htrade
    obtain ⟨entry, hentry, hshows⟩ := Pointwise.exists_left hrows htrade
    obtain ⟨hrun, -⟩ := of_decide_eq_true (List.mem_filter.1 hentry).2
    obtain ⟨fill, hfill⟩ := List.exists_mem_of_ne_nil _ hrun
    obtain ⟨record, hrecord, rfl, -, hleg, -⟩ := hshows.recorded fill hfill
    obtain ⟨first, hfirst, -, -, -, hentryTs⟩ := hshows.entered
    -- the first fill of the leg is recorded no later than any of the closing run
    have hle : first.stamp.1.value ≤ record.stamp.1.value := by
      have hsorted := List.pairwise_map.1 hfills.inOrder
      have hon : (fillsOn trade.positionId s.engine.bundle.fills).Pairwise
          fun a b => a.stamp.1.value ≤ b.stamp.1.value := hsorted.sublist List.filter_sublist
      have hmem : record ∈ fillsOn trade.positionId s.engine.bundle.fills :=
        List.mem_filter.2 ⟨hrecord, decide_eq_true hleg⟩
      obtain ⟨rest, hsplit⟩ := List.head?_eq_some_iff.1 hfirst
      rw [hsplit] at hon hmem
      rcases List.mem_cons.1 hmem with rfl | hlater
      · exact le_rfl
      · exact List.rel_of_pairwise_cons hon hlater
    have hdated : ∀ record ∈ s.engine.bundle.fills, Dated r.feed.tape record.stamp :=
      fun record hrecord => hfills.dated _ (List.mem_map_of_mem hrecord)
    have hfirstMem : first ∈ s.engine.bundle.fills :=
      (List.mem_filter.1 (List.mem_of_head? hfirst)).1
    have hexit := hshows.exitTs.2 _ hfill
    have hclock := TapeMeta.fromTape_clock r.feed.accepted (hdated record hrecord)
      (hdated first hfirstMem)
    rw [← hentryTs, ← hexit]
    exact ⟨_, _, hdated first hfirstMem, hdated record hrecord,
      not_lt.1 fun hgt => absurd (hclock.2 hgt) (not_lt.2 hle)⟩
  · have hquoted : (quoted log).Pairwise fun a b => a.1.ts.value ≤ b.1.ts.value := by
      refine List.pairwise_flatMap.2 ⟨fun b hb => ?_, hbalanced.calls_ascend.imp fun hle => ?_⟩
      · refine List.pairwise_map.2 (List.pairwise_of_forall_mem_list fun _ _ _ _ => le_rfl)
      · intro a ha c hc
        obtain ⟨_, -, rfl⟩ := List.mem_map.1 ha
        obtain ⟨_, -, rfl⟩ := List.mem_map.1 hc
        exact hle
    refine (Pointwise.pairwise_iff (fun entry entry' trade trade' hshows hshows' => ?_) hrows).1
      (hquoted.sublist List.filter_sublist)
    rw [hshows.exitTs.1, hshows'.exitTs.1]

end Trades

/-- The tables of a run and its trade log, dated by the tape: steps and times agree, the tested
period covers every date, every table lists its rows in the order of the tape, and no trade is
exited before it is entered. -/
structure Timeline (tape : List ChainSnapshot) (run : BacktestRun)
    (rows : List GreeksAttributionRow) : Prop where
  clock : ∀ a b, Dated tape a → Dated tape b → (a.1.value < b.1.value ↔ a.2.value < b.2.value)
  period : ∀ stamp, Dated tape stamp → run.result.testPeriodStart.value ≤ stamp.2.value ∧
    stamp.2.value ≤ run.result.testPeriodEnd.value
  fills : Chronicle tape tape.length (run.fills.map FillRecord.stamp)
  positions : Chronicle tape tape.length (run.positions.map PositionSnapshot.stamp)
  curve : Chronicle tape tape.length (run.equityCurve.map EquityPoint.stamp)
  attribution : Chronicle tape tape.length (rows.map GreeksAttributionRow.stamp)
  trades : ∀ trade ∈ run.tradeLog, ∃ step step', Dated tape (step, trade.entryTs) ∧
    Dated tape (step', trade.exitTs) ∧ trade.entryTs.value ≤ trade.exitTs.value
  exits : run.tradeLog.Pairwise fun a b => a.exitTs.value ≤ b.exitTs.value

section Whole

variable {S X R : Type} [ExecutionModel X] [TrackingModel X] [Strategy S R] [SeedableRng R]
  [DecimalArith] [DecimalSums] {r : Setup S X} {round : Decimal → Outcome Cents}
  {rows : List GreeksAttributionRow} {out : BacktestRun} {strategyName : String}

omit [ExecutionModel X] [TrackingModel X] [DecimalArith] [DecimalSums] in
/-- The tested period covers the tape. -/
theorem Setup.period_covers (r : Setup S X) {stamp : Stamp} (h : Dated r.feed.tape stamp) :
    r.feed.tapeMeta.firstTs.value ≤ stamp.2.value ∧ stamp.2.value ≤ r.lastTs.value := by
  obtain ⟨snapshot, hsnapshot, rfl⟩ := h
  have hascends := TapeMeta.fromTape_ascends r.feed.accepted
  have hmeta := r.feed.accepted
  unfold Setup.lastTs
  cases htape : r.feed.tape with
  | nil =>
    rw [htape] at hsnapshot
    cases hsnapshot
  | cons first rest =>
    rw [htape] at hsnapshot hascends hmeta
    have hfirst : r.feed.tapeMeta.firstTs = first.ts := by
      simp only [TapeMeta.fromTape, bind_ok_iff, pure_ok_iff] at hmeta
      obtain ⟨_, -, _, -, hmeta⟩ := hmeta
      rw [← hmeta]
    constructor
    · rw [hfirst]
      rcases List.mem_cons.1 hsnapshot with rfl | hlater
      · exact le_rfl
      · exact (List.rel_of_pairwise_cons hascends hlater).le
    · have hsplit := List.dropLast_append_getLast (List.cons_ne_nil first rest)
      rw [← hsplit] at hsnapshot hascends ⊢
      rw [List.getLast?_concat]
      rcases List.mem_append.1 hsnapshot with hearlier | hlast
      · exact ((List.pairwise_append.1 hascends).2.2 _ hearlier _ List.mem_cons_self).le
      · rw [List.mem_singleton.1 hlast]
        exact le_rfl

theorem Setup.run_timeline (hidle : Idle r.execution) (hassembles : AssemblesFills X)
    (h : BacktestEngine.run r.config r.feed.toFeed r.execution r.strategy strategyName = .ok out)
    (hrows : attributeSubstrate round out.attributionSteps out.attributionLegs = .ok rows) :
    Timeline r.feed.tape out rows := by
  obtain ⟨initial, log, s, -, hplay, rfl⟩ := Setup.play_of_run h
  obtain ⟨-, hfinal, -⟩ := TapeMeta.fromTape_eq_ok r.feed.accepted
  have hpos : max r.feed.tape.length 1 = r.feed.tape.length := by
    have := r.feed.tapeMeta.finalStep.nonneg
    omega
  have hchronicled := Setup.play_chronicled hassembles hplay
  obtain ⟨htrades, hexits⟩ := Setup.play_trades hidle hassembles hplay
  have hfills := hchronicled.fills
  have hpositions := hchronicled.positions
  rw [hpos] at hfills hpositions
  refine ⟨fun a b => TapeMeta.fromTape_clock r.feed.accepted, fun stamp => r.period_covers,
    hfills, hpositions, hchronicled.curve, ?_, htrades, hexits⟩
  rw [attributeSubstrate_stamps hrows]
  exact hchronicled.samples

end Whole

section Modes

variable {S R B M : Type} [DecimalArith] [DecimalSums] [Book B ObOrderId] [Strategy S R]
  [SeedableRng R] [SummaryMetrics M] {config : BacktestConfig} {feed : MaterialisedFeed}
  {strategy : S} {strategyName : String} {run : PopulatedRun M}

/-- The timeline of whole runs: whatever either mode writes is dated by its tape and in order. -/
theorem runWithFeed_timeline
    (h : (runWithFeed B config feed.toFeed strategy strategyName : Outcome (PopulatedRun M)) =
      .ok run) : Timeline feed.tape run.toBacktestRun run.greeksAttribution := by
  simp only [runWithFeed, bind_ok_iff, pure_ok_iff] at h
  obtain ⟨_, -, out, hmode, _, -, _, -, rows, hrows, rfl⟩ := h
  unfold runMode at hmode
  split at hmode
  · exact (Setup.naive config feed strategy).run_timeline (idle_naive config feed strategy)
      NaiveFill.assemblesFills hmode hrows
  · exact (Setup.realistic B config feed strategy).run_timeline
      (idle_realistic config feed strategy) RealisticFill.assemblesFills hmode hrows

end Modes

open SmallMarket SmallBatch in
/-- Two lots are bought and sold again one by one, over three snapshots. -/
theorem runWithFeed_timeline_roundTrip : ∃ run : PopulatedRun Unit,
    runWithFeed (ReferenceBook ObOrderId) (config .Naive) dipFeed.toFeed
      (⟨take, [closeOne .Short, closeOne .Short]⟩ : Script) "script" = .ok run ∧
      run.tradeLog.length = 2 ∧
      Timeline dipFeed.tape run.toBacktestRun run.greeksAttribution := by
  obtain ⟨run, h, hcheck⟩ := exists_ok_of_check (r := (runWithFeed (ReferenceBook ObOrderId)
    (config .Naive) dipFeed.toFeed (⟨take, [closeOne .Short, closeOne .Short]⟩ : Script) "script" :
      Outcome (PopulatedRun Unit))) (fun run => decide (run.tradeLog.length = 2)) (by decide +kernel)
  exact ⟨run, h, of_decide_eq_true hcheck, runWithFeed_timeline h⟩

end IronCondor
