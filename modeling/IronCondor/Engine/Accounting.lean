import IronCondor.Data.SmallMarket
import IronCondor.Engine.Run
import IronCondor.Lib.Pointwise
import IronCondor.Lib.ReferenceBook

/-! # Cash, rows and the equity curve

Every path that moves cash also records the fill it moved it for, exactly once: `Booked` says so
of one operation, and composes along a step and along a run. -/
namespace IronCondor

open Checked ExceptRun Ledger

/-- The operation recorded exactly the fills `entries`, each under its order, took their outflow
out of the cash, and touched neither the running peak nor an open row. -/
structure Booked (multiplier : Bounded u32) (entries : List (OrderId × Fill))
    (st st' : EngineState) : Prop where
  table : ∃ records, st'.bundle.fills = st.bundle.fills ++ records ∧
    records.map (fun r => (r.orderId, r.fill)) = entries
  cash : st'.ledger.cash.value =
    st.ledger.cash.value - (entries.map fun e => outflow multiplier e.2).sum
  peak : st'.ledger.runningPeak = st.ledger.runningPeak
  rows : ∃ rows, st'.bundle.positions = st.bundle.positions ++ rows ∧
    ∀ row ∈ rows, row.exitReason ≠ none

namespace Booked

variable {multiplier : Bounded u32} {entries entries' : List (OrderId × Fill)}
  {st st₁ st' : EngineState}

/-- An operation that leaves cash, fills and rows alone books nothing. -/
theorem frame (hledger : st'.ledger = st.ledger) (hfills : st'.bundle.fills = st.bundle.fills)
    (hpositions : st'.bundle.positions = st.bundle.positions) : Booked multiplier [] st st' where
  table := ⟨[], by simp [hfills], rfl⟩
  cash := by simp [hledger]
  peak := by rw [hledger]
  rows := ⟨[], by simp [hpositions], List.forall_mem_nil _⟩

theorem trans (h : Booked multiplier entries st st₁) (h' : Booked multiplier entries' st₁ st') :
    Booked multiplier (entries ++ entries') st st' where
  table := by
    obtain ⟨rs, hrs, rfl⟩ := h.table
    obtain ⟨rs', hrs', rfl⟩ := h'.table
    exact ⟨rs ++ rs', by rw [hrs', hrs, List.append_assoc], List.map_append⟩
  cash := by
    rw [h'.cash, h.cash, List.map_append, List.sum_append]
    ring
  peak := h'.peak.trans h.peak
  rows := by
    obtain ⟨rows, hrows, hall⟩ := h.rows
    obtain ⟨rows', hrows', hall'⟩ := h'.rows
    exact ⟨rows ++ rows', by rw [hrows', hrows, List.append_assoc],
      List.forall_mem_append.2 ⟨hall, hall'⟩⟩

/-- A bookkeeping step before a booking. -/
theorem after (h : Booked multiplier [] st st₁) (h' : Booked multiplier entries st₁ st') :
    Booked multiplier entries st st' := h.trans h'

/-- A bookkeeping step after a booking. -/
theorem before (h : Booked multiplier entries st st₁) (h' : Booked multiplier [] st₁ st') :
    Booked multiplier entries st st' := List.append_nil entries ▸ h.trans h'

end Booked

namespace EngineState

variable {st st' : EngineState} {orderId : OrderId} {tradeId : TradeId} {positionId : PositionId}
  {base multiplier : Bounded u32} {agg : FillAggregate} {first : Fill} {snapshot : ChainSnapshot}
  {reasons : CloseReasons} {orderFills : List Fill}

theorem openFill_booked {entry : Fill × Nat}
    (h : openFill orderId tradeId positionId base multiplier st entry = .ok st') :
    Booked multiplier [(orderId, entry.1)] st st' := by
  simp only [openFill, bind_ok_iff, pure_ok_iff] at h
  obtain ⟨fillSeq, -, ledger, hledger, rfl⟩ := h
  obtain ⟨hcash, hpeak⟩ := applyFill_eq_ok hledger
  exact ⟨⟨[_], rfl, rfl⟩, by simpa using hcash, hpeak, [], by simp [BundleCollector.recordOpenFill],
    List.forall_mem_nil _⟩

theorem closeFill_booked {entry : Fill × Nat}
    (h : closeFill orderId positionId base multiplier st entry = .ok st') :
    Booked multiplier [(orderId, entry.1)] st st' := by
  simp only [closeFill, BundleCollector.recordCloseFill, bind_ok_iff, okOr_eq_ok, pure_ok_iff] at h
  obtain ⟨fillSeq, -, _, ⟨leg, -, rfl⟩, ledger, hledger, rfl⟩ := h
  obtain ⟨hcash, hpeak⟩ := applyFill_eq_ok hledger
  exact ⟨⟨[_], rfl, rfl⟩, by simpa using hcash, hpeak, [], by simp [BundleCollector.recordOpenFill],
    List.forall_mem_nil _⟩

/-- A run of fills books each of them, in order. -/
theorem fills_booked {f : EngineState → Fill × Nat → Outcome EngineState} {entries : List (Fill × Nat)}
    (hstep : ∀ s e t, f s e = .ok t → Booked multiplier [(orderId, e.1)] s t)
    (h : entries.foldlM f st = .ok st') :
    Booked multiplier (entries.map fun e => (orderId, e.1)) st st' := by
  induction entries generalizing st with
  | nil =>
    cases foldlM_nil_ok.1 h
    exact .frame rfl rfl rfl
  | cons e entries ih =>
    obtain ⟨mid, hmid, h⟩ := foldlM_cons_ok.1 h
    exact (hstep _ _ _ hmid).trans (ih h)

theorem run_booked {f : EngineState → Fill × Nat → Outcome EngineState}
    (hstep : ∀ s e t, f s e = .ok t → Booked multiplier [(orderId, e.1)] s t)
    (h : orderFills.zipIdx.foldlM f st = .ok st') :
    Booked multiplier (orderFills.map (orderId, ·)) st st' := by
  have hbooked := fills_booked hstep h
  rwa [show orderFills.zipIdx.map (fun e => (orderId, e.1)) = orderFills.map (orderId, ·) by
    conv_rhs => rw [← List.zipIdx_map_fst 0 orderFills, List.map_map]
    rfl] at hbooked

theorem openLeg_booked {ts : SimTime} (h : st.openLeg tradeId first agg ts = .ok (st', positionId)) :
    Booked multiplier [] st st' := by
  simp only [openLeg, bind_ok_iff, pure_ok_iff, Prod.exists, Prod.mk.injEq] at h
  obtain ⟨ids, _, -, rfl, -⟩ := h
  exact .frame rfl rfl rfl

theorem tradeFor_booked {trade : Option TradeId} (h : st.tradeFor trade = .ok (st', tradeId)) :
    Booked multiplier [] st st' := by
  cases trade with
  | some existing =>
    cases h
    exact .frame rfl rfl rfl
  | none =>
    simp only [tradeFor, bind_ok_iff, pure_ok_iff, Prod.exists, Prod.mk.injEq] at h
    obtain ⟨ids, _, -, rfl, -⟩ := h
    exact .frame rfl rfl rfl

theorem extendLeg_booked (h : st.extendLeg tradeId positionId orderFills first agg = .ok st') :
    Booked multiplier [] st st' := by
  simp only [extendLeg, bind_ok_iff, pure_ok_iff, Prod.exists] at h
  obtain ⟨inventory, entryPremium, -, tradeLog, -, rfl⟩ := h
  exact .frame rfl rfl rfl

theorem carryOpenLeg_booked {entry : PendingEntry} {ts : SimTime}
    (h : st.carryOpenLeg entry tradeId orderFills first agg ts = .ok (st', positionId)) :
    Booked multiplier [] st st' := by
  unfold carryOpenLeg at h
  split at h
  · obtain ⟨st₁, hextend, h⟩ := bind_ok_iff.1 h
    cases h
    exact extendLeg_booked hextend
  · exact openLeg_booked h

theorem settleEntry_booked {entry : PendingEntry} {count : Nat} {filled : Quantity}
    (h : st.settleEntry orderId entry count filled = .ok st') : Booked multiplier [] st st' := by
  simp only [settleEntry, bind_ok_iff] at h
  obtain ⟨_, -, remaining, -, h⟩ := h
  split_ifs at h
  · cases h
    exact .frame rfl rfl rfl
  · obtain ⟨quantity, -, h⟩ := bind_ok_iff.1 h
    cases h
    exact .frame rfl rfl rfl

theorem closeLeg_booked {reason : ExitReason}
    (h : st.closeLeg orderId positionId orderFills first agg base reason snapshot = .ok st') :
    Booked snapshot.spec.contractMultiplier (orderFills.map (orderId, ·)) st st' := by
  simp only [closeLeg, bind_ok_iff, Prod.exists] at h
  obtain ⟨inventory, fullClose, -, tradeLog, -, st₁, hfills, h⟩ := h
  have hrun : Booked snapshot.spec.contractMultiplier (orderFills.map (orderId, ·)) st st₁ := by
    refine Booked.after ?_ (run_booked (fun _ _ _ h => closeFill_booked h) hfills)
    exact .frame rfl rfl rfl
  split_ifs at h
  · simp only [BundleCollector.recordCloseTerminal, bind_ok_iff, okOr_eq_ok, pure_ok_iff] at h
    obtain ⟨_, ⟨leg, -, unrealized, -, rfl⟩, rfl⟩ := h
    refine hrun.before ⟨⟨[], by simp, rfl⟩, by simp, rfl, [_], rfl, ?_⟩
    simp
  · cases h
    exact hrun

theorem applyCarryGroup_booked (h : st.applyCarryGroup orderId orderFills snapshot = .ok st') :
    Booked snapshot.spec.contractMultiplier (orderFills.map (orderId, ·)) st st' := by
  simp only [applyCarryGroup, bind_ok_iff, okOr_eq_ok] at h
  obtain ⟨entry, -, agg, -, first, -, _, -, h⟩ := h
  split at h
  · simp only [bind_ok_iff, Prod.exists] at h
    obtain ⟨st₁, tradeId, htrade, st₂, positionId, hleg, st₃, hfills, hsettle⟩ := h
    exact (tradeFor_booked htrade).after <| (carryOpenLeg_booked hleg).after <|
      (run_booked (fun _ _ _ h => openFill_booked h) hfills).before (settleEntry_booked hsettle)
  · obtain ⟨st₁, hclose, hsettle⟩ := bind_ok_iff.1 h
    exact (closeLeg_booked hclose).before (settleEntry_booked hsettle)

theorem registerRemainder_booked {stepTrade : Option TradeId} {idx produced : Nat}
    {intent : OrderIntent} {opened : Option PositionId} {filled : Quantity}
    (h : st.registerRemainder stepTrade idx orderId intent opened produced filled reasons =
      .ok st') : Booked multiplier [] st st' := by
  unfold registerRemainder at h
  split_ifs at h
  · simp only [bind_ok_iff, pure_ok_iff] at h
    obtain ⟨_, -, _, -, rfl⟩ := h
    exact .frame rfl rfl rfl
  · cases h
    exact .frame rfl rfl rfl

theorem applySubmit_booked {stepTrade trade : Option TradeId} {idx : Nat} {intent : OrderIntent}
    (h : st.applySubmit stepTrade idx orderId intent orderFills reasons snapshot =
      .ok (st', trade)) :
    Booked snapshot.spec.contractMultiplier (orderFills.map (orderId, ·)) st st' := by
  unfold applySubmit at h
  split at h
  · split_ifs at h
    unfold restWhole at h
    split at h
    · simp only [bind_ok_iff, pure_ok_iff, Prod.exists, Prod.mk.injEq] at h
      obtain ⟨st₁, tradeId, htrade, rfl, -⟩ := h
      exact (tradeFor_booked htrade).after (.frame rfl rfl rfl)
    · cases h
      exact .frame rfl rfl rfl
  · simp only [fillOrder, bind_ok_iff] at h
    obtain ⟨agg, -, h⟩ := h
    split at h
    · simp only [bind_ok_iff, pure_ok_iff, Prod.exists, Prod.mk.injEq] at h
      obtain ⟨st₁, tradeId, htrade, st₂, positionId, hleg, st₃, hfills, st₄, hregister, rfl, -⟩ := h
      exact (tradeFor_booked htrade).after <| (openLeg_booked hleg).after <|
        (run_booked (fun _ _ _ h => openFill_booked h) hfills).before
          (registerRemainder_booked hregister)
    · simp only [bind_ok_iff, pure_ok_iff, Prod.mk.injEq] at h
      obtain ⟨st₁, hclose, st₂, hregister, rfl, -⟩ := h
      exact (closeLeg_booked hclose).before (registerRemainder_booked hregister)

end EngineState

section Events

variable {snapshot : ChainSnapshot} {reasons : CloseReasons}

/-- The fills of an event, each under the event's order. -/
def OrderEvent.entries (ev : OrderEvent) : List (OrderId × Fill) := ev.fills.map (ev.orderId, ·)

theorem applyEvent_booked {s t : StepState} {ev : OrderEvent}
    (h : applyEvent reasons snapshot s ev = .ok t) :
    Booked snapshot.spec.contractMultiplier ev.entries s.engine t.engine := by
  cases ev with
  | carried orderId run =>
    obtain ⟨engine, happly, h⟩ := bind_ok_iff.1 h
    cases h
    exact EngineState.applyCarryGroup_booked happly
  | withdrawn orderId =>
    cases h
    exact .frame rfl rfl rfl
  | submitted idx orderId intent run =>
    obtain ⟨⟨engine, trade⟩, happly, h⟩ := bind_ok_iff.1 h
    cases h
    exact EngineState.applySubmit_booked happly

theorem applyEvents_booked {s t : StepState} {events : List OrderEvent}
    (h : events.foldlM (applyEvent reasons snapshot) s = .ok t) :
    Booked snapshot.spec.contractMultiplier (events.flatMap OrderEvent.entries) s.engine
      t.engine := by
  induction events generalizing s with
  | nil =>
    cases foldlM_nil_ok.1 h
    exact .frame rfl rfl rfl
  | cons ev events ih =>
    obtain ⟨mid, hmid, h⟩ := foldlM_cons_ok.1 h
    exact (applyEvent_booked hmid).trans (ih h)

end Events

namespace Batch

variable {X : Type} [ExecutionModel X] {b : Batch X} {after : EngineState}

/-- The fills of a call, each under the order the engine attributes it to. -/
def entries (b : Batch X) : List (OrderId × Fill) := b.events.flatMap OrderEvent.entries

theorem Executed.entries_fills (h : b.Executed after) : b.entries.map Prod.snd = b.fills := by
  rw [← correlate_fills h.correlated, entries, List.map_flatMap]
  simp [OrderEvent.entries, Function.comp_def]

theorem Executed.booked (h : b.Executed after) :
    Booked b.snapshot.spec.contractMultiplier b.entries b.before after := by
  obtain ⟨ids, -, hstart⟩ := h.minted
  obtain ⟨trade, hfold⟩ := h.applied
  rw [hstart] at hfold
  refine Booked.after ?_ (applyEvents_booked hfold)
  exact .frame rfl rfl rfl

end Batch

section Curve

variable {S X R : Type}

/-- What the fills of some calls took out of the cash, each at the multiplier of the snapshot it
executed against. -/
def spent (calls : List (Batch X)) : Int :=
  (calls.map fun b => (b.fills.map (outflow b.snapshot.spec.contractMultiplier)).sum).sum

def peakOf (initial : Cents) (points : List EquityPoint) : Int :=
  (points.map fun point => point.equityCents.value).foldl max initial.value

/-- The rows of the legs still open after a step. -/
def openRows (positions : List PositionSnapshot) (step : StepIndex) : List PositionSnapshot :=
  positions.filter fun row => row.step = step ∧ row.exitReason = none

def rowValue (multiplier : Bounded u32) (row : PositionSnapshot) : Int :=
  sideSign row.side * row.markCents.value * row.quantity.value * multiplier.value

/-- The equity point of a step, determined by the calls made so far, the step's open rows and
the points before it. -/
structure PointOf (initial : Cents) (calls : List (Batch X)) (multiplier : Bounded u32)
    (rows : List PositionSnapshot) (earlier : List EquityPoint) (point : EquityPoint) : Prop where
  cash : point.cashCents.value = initial.value - spent calls
  positionValue : point.positionValueCents.value = (rows.map (rowValue multiplier)).sum
  equity : point.equityCents.value = point.cashCents.value + point.positionValueCents.value
  drawdown : point.drawdown =
    drawdownOf (peakOf initial (earlier ++ [point])) point.equityCents.value

/-- The books of a run after `n` settled steps. -/
structure Balanced (r : Setup S X) [ExecutionModel X] (initial : Cents) (n : Nat)
    (log : List (Batch X)) (s : RunState S X R) : Prop where
  calls : log.length = n + 1
  against : ∀ (k : Nat) (b : Batch X), log[k]? = some b → r.feed.tape[k - 1]? = some b.snapshot
  points : s.equityCurve.length = n
  table : s.engine.bundle.fills.map (fun record => (record.orderId, record.fill)) =
    log.flatMap Batch.entries
  fills : s.engine.bundle.fills.map FillRecord.fill = log.flatMap Batch.fills
  cash : s.engine.ledger.cash.value = initial.value - spent log
  peak : s.engine.ledger.runningPeak.value = peakOf initial s.equityCurve
  rows : ∀ row ∈ s.engine.bundle.positions, row.exitReason = none → row.step.value < n
  curve : ∀ k < n, ∃ snapshot point, r.feed.tape[k]? = some snapshot ∧
    s.equityCurve[k]? = some point ∧ point.step.value = k ∧
    PointOf initial (log.take (k + 2)) snapshot.spec.contractMultiplier
      (openRows s.engine.bundle.positions point.step) (s.equityCurve.take k) point

theorem spent_append (calls : List (Batch X)) (b : Batch X) :
    spent (calls ++ [b]) = spent calls +
      (b.fills.map (outflow b.snapshot.spec.contractMultiplier)).sum := by
  simp [spent]

theorem peakOf_append (initial : Cents) (points : List EquityPoint) (point : EquityPoint) :
    peakOf initial (points ++ [point]) = max (peakOf initial points) point.equityCents.value := by
  simp [peakOf]

variable [ExecutionModel X]

theorem Booked.fills {b : Batch X} {st st' after : EngineState} (hexec : b.Executed after)
    (h : Booked b.snapshot.spec.contractMultiplier b.entries st st') :
    st'.bundle.fills.map FillRecord.fill = st.bundle.fills.map FillRecord.fill ++ b.fills ∧
      st'.ledger.cash.value = st.ledger.cash.value -
        (b.fills.map (outflow b.snapshot.spec.contractMultiplier)).sum := by
  have hfills := hexec.entries_fills
  refine ⟨?_, ?_⟩
  · obtain ⟨records, hrecords, hentries⟩ := h.table
    rw [hrecords, List.map_append, ← hfills, ← hentries, List.map_map]
    rfl
  · rw [h.cash, ← hfills, List.map_map]
    rfl

/-- The rows a settlement takes value the open legs as the ledger does. -/
theorem settled_rows {st st' : EngineState} {snapshot : ChainSnapshot} {isLast : Bool}
    {point : EquityPoint} (h : st.Settled snapshot isLast point st') :
    ∃ rows, st'.bundle.positions = st.bundle.positions ++ rows ∧
      (∀ row ∈ rows, row.step = snapshot.step ∧ row.exitReason = none) ∧
      (rows.map (rowValue snapshot.spec.contractMultiplier)).sum =
        (st'.ledger.positionMarks.map PositionMark.value).sum := by
  obtain ⟨marked, hsettle, -, -⟩ := h.ledger
  obtain ⟨-, hmarks, -⟩ := Ledger.settle_eq_ok hsettle
  obtain ⟨rows, hrows, hbundle⟩ := BundleCollector.collectStep_eq_ok h.bundle
  have hmultiplier := Pointwise.forall_left hmarks fun _ _ hm => hm.multiplier
  refine ⟨rows, by rw [hbundle], ?_, ?_⟩
  · exact Pointwise.forall_left hrows fun row mark hrow => ⟨hrow.step_eq, hrow.exitReason⟩
  · refine congrArg List.sum (Pointwise.map_eq hrows fun row mark hmark hrow => ?_)
    rw [rowValue, PositionMark.value, hrow.side, hrow.mark, hrow.quantity, hmultiplier mark hmark]

variable [Strategy S R] [SeedableRng R] {r : Setup S X} {n : Nat} {log : List (Batch X)}
  {s : RunState S X R}

theorem balanced_zero (h : r.play 0 = .ok (log, s)) :
    ∃ initial, BacktestEngine.initialCents r.config = .ok initial ∧ Balanced r initial 0 log s := by
  obtain ⟨initial, first, b, hinitial, hfirst, rfl, rfl, hbefore, -, hexec, -, hcurve⟩ :=
    Setup.play_zero h
  have hbooked := hexec.booked
  rw [hbefore] at hbooked
  obtain ⟨hfills, hcash⟩ := hbooked.fills hexec
  obtain ⟨records, hrecords, hentries⟩ := hbooked.table
  obtain ⟨rows, hrows, hterminal⟩ := hbooked.rows
  refine ⟨initial, hinitial, rfl, ?_, ?_, ?_, ?_, ?_, ?_, ?_, nofun⟩
  · rintro (_ | k) c hc
    · cases hc
      exact hfirst
    · cases hc
  · rw [hcurve, List.length_nil]
  · rw [hrecords, List.flatMap_singleton, ← hentries]
    rfl
  · rw [hfills, List.flatMap_singleton]
    rfl
  · rw [hcash]
    simp [spent, EngineState.new, Ledger.new]
  · rw [hbooked.peak, hcurve]
    rfl
  · rw [hrows]
    intro row hrow hopen
    exact absurd hopen (hterminal row (by simpa [EngineState.new, BundleCollector.empty] using hrow))

/-- A row list that gains rows of another step shows the same open rows of the earlier one. -/
theorem openRows_append {positions rows : List PositionSnapshot} {step : StepIndex}
    (h : ∀ row ∈ rows, row.step ≠ step ∨ row.exitReason ≠ none) :
    openRows (positions ++ rows) step = openRows positions step := by
  unfold openRows
  rw [List.filter_append]
  refine (congrArg _ (List.filter_eq_nil_iff.2 fun row hrow => ?_)).trans (List.append_nil _)
  have hrow := h row hrow
  simp only [decide_eq_true_eq]
  tauto

theorem openRows_self {rows : List PositionSnapshot} {step : StepIndex}
    (h : ∀ row ∈ rows, row.step = step ∧ row.exitReason = none) : openRows rows step = rows :=
  List.filter_eq_self.2 fun row hrow => decide_eq_true (h row hrow)

omit [Strategy S R] [SeedableRng R] in
theorem balanced_succ {initial : Cents} {prior : List (Batch X)} {t s : RunState S X R}
    {snapshot : ChainSnapshot} {b : Batch X} {isLast : Bool} {point : EquityPoint}
    {after : EngineState} (hprior : Balanced r initial n prior t)
    (hsnapshot : r.feed.tape[n]? = some snapshot) (hb : b.snapshot = snapshot)
    (hbefore : b.before = t.engine) (hexec : b.Executed after)
    (hsettled : after.Settled snapshot isLast point s.engine)
    (hcurve : s.equityCurve = t.equityCurve ++ [point]) :
    Balanced r initial (n + 1) (prior ++ [b]) s := by
  subst hb
  obtain ⟨-, -, hsteps⟩ := TapeMeta.fromTape_eq_ok r.feed.accepted
  have hstep := hsteps n _ hsnapshot
  have hbooked := hexec.booked
  rw [hbefore] at hbooked
  obtain ⟨hfills, hcash⟩ := hbooked.fills hexec
  obtain ⟨records, hrecords, hentries⟩ := hbooked.table
  obtain ⟨terminal, hterminal, hclosed⟩ := hbooked.rows
  obtain ⟨marked, hsettle, hmcash, hmpeak⟩ := hsettled.ledger
  obtain ⟨hlcash, -, hpstep, -, hpcash, hpvalue, hpequity, hpeak, hdrawdown⟩ :=
    Ledger.settle_eq_ok hsettle
  obtain ⟨rows, hrows, hopen, hvalue⟩ := settled_rows hsettled
  obtain ⟨_, -, hbundle⟩ := BundleCollector.collectStep_eq_ok hsettled.bundle
  have hbfills : s.engine.bundle.fills = after.bundle.fills := by rw [hbundle]
  have hpositions : s.engine.bundle.positions =
      t.engine.bundle.positions ++ terminal ++ rows := by rw [hrows, hterminal]
  have hspent : point.cashCents.value = initial.value - spent (prior ++ [b]) := by
    rw [hpcash, hmcash, hcash, hprior.cash, spent_append]
    ring
  have hnewpeak : s.engine.ledger.runningPeak.value =
      peakOf initial (t.equityCurve ++ [point]) := by
    rw [hpeak, hmpeak, hbooked.peak, hprior.peak, peakOf_append]
  have hlength : t.equityCurve.length = n := hprior.points
  refine ⟨?_, ?_, ?_, ?_, ?_, ?_, ?_, ?_, ?_⟩
  · rw [List.length_append, hprior.calls, List.length_singleton]
  · intro k c hc
    rcases Nat.lt_or_ge k prior.length with hk | hk
    · rw [List.getElem?_append_left hk] at hc
      exact hprior.against k c hc
    · rw [List.getElem?_append_right hk] at hc
      obtain ⟨hk', rfl⟩ : k - prior.length = 0 ∧ b = c := by
        rcases hj : k - prior.length with _ | j
        · rw [hj] at hc
          exact ⟨rfl, Option.some.inj hc⟩
        · rw [hj] at hc
          cases hc
      have hcalls := hprior.calls
      rw [show k - 1 = n by omega]
      exact hsnapshot
  · rw [hcurve, List.length_append, hlength, List.length_singleton]
  · rw [hbfills, hrecords, List.map_append, hprior.table, hentries, List.flatMap_append,
      List.flatMap_singleton]
  · rw [hbfills, hfills, hprior.fills, List.flatMap_append, List.flatMap_singleton]
  · rw [hlcash, ← hpcash, hspent]
  · rw [hnewpeak, hcurve]
  · rw [hpositions]
    intro row hrow hnone
    rcases List.mem_append.1 hrow with hrow | hrow
    · rcases List.mem_append.1 hrow with hrow | hrow
      · have := hprior.rows row hrow hnone
        omega
      · exact absurd hnone (hclosed row hrow)
    · rw [(hopen row hrow).1, hstep]
      omega
  · intro k hk
    rcases Nat.lt_or_ge k n with hlt | hge
    · obtain ⟨snap, p, hsnap, hp, hpk, hpoint⟩ := hprior.curve k hlt
      refine ⟨snap, p, hsnap, ?_, hpk, ?_⟩
      · rw [hcurve, List.getElem?_append_left (by omega), hp]
      · have hsame : openRows s.engine.bundle.positions p.step =
            openRows t.engine.bundle.positions p.step := by
          rw [hpositions, List.append_assoc]
          refine openRows_append fun row hrow => ?_
          rcases List.mem_append.1 hrow with hrow | hrow
          · exact .inr (hclosed row hrow)
          · refine .inl fun heq => ?_
            rw [(hopen row hrow).1] at heq
            have := congrArg Bounded.value heq
            omega
        rw [hsame, hcurve, List.take_append_of_le_length (by rw [hprior.calls]; omega),
          List.take_append_of_le_length (by omega)]
        exact hpoint
    · obtain rfl : k = n := by omega
      refine ⟨b.snapshot, point, hsnapshot, ?_, by rw [hpstep, hstep], ?_⟩
      · rw [hcurve, List.getElem?_append_right (by omega), hlength, Nat.sub_self]
        rfl
      · have hrowsN : openRows s.engine.bundle.positions point.step = rows := by
          have hnone : openRows (t.engine.bundle.positions ++ terminal) b.snapshot.step = [] := by
            refine List.filter_eq_nil_iff.2 fun row hrow => ?_
            simp only [decide_eq_true_eq, not_and]
            intro heq hnone
            rcases List.mem_append.1 hrow with hrow | hrow
            · have := hprior.rows row hrow hnone
              have := congrArg Bounded.value heq
              omega
            · exact hclosed row hrow hnone
          rw [hpositions, hpstep, openRows, List.filter_append]
          exact (congrArg₂ (· ++ ·) hnone (openRows_self hopen)).trans (List.nil_append _)
        have hlog : (prior ++ [b]).take (k + 2) = prior ++ [b] := by
          rw [List.take_of_length_le]
          rw [List.length_append, hprior.calls, List.length_singleton]
        rw [hrowsN, hlog, hcurve, List.take_append_of_le_length (by omega),
          List.take_of_length_le (by omega)]
        exact ⟨hspent, by rw [hpvalue, hvalue], hpequity, by rw [hdrawdown, hnewpeak]⟩

/-- Cash and equity of every run: every recorded point shows the initial capital less the
outflow of every fill recorded up to its step, its open rows at their marks, and the drawdown
against the highest equity so far; the fills table holds exactly the fills the calls produced. -/
theorem play_balanced (h : r.play n = .ok (log, s)) :
    ∃ initial, BacktestEngine.initialCents r.config = .ok initial ∧ Balanced r initial n log s := by
  induction n generalizing log s with
  | zero => exact balanced_zero h
  | succ n ih =>
    obtain ⟨prior, t, snapshot, b, point, after, hprior, hsnapshot, rfl, hb, hbefore, -, hexec, -,
      hsettled, hcurve⟩ := Setup.play_succ h
    obtain ⟨initial, hinitial, hbalanced⟩ := ih hprior
    exact ⟨initial, hinitial, balanced_succ hbalanced hsnapshot hb hbefore hexec hsettled hcurve⟩

/-- The outflow of a fill at the multiplier of the tape's snapshot of its own step. -/
def outflowAt (tape : List ChainSnapshot) (fill : Fill) : Int :=
  (tape[fill.step.value.toNat]?.map fun snapshot =>
    outflow snapshot.spec.contractMultiplier fill).getD 0

theorem Setup.play_stamped (hstamps : StampsSteps X) (h : r.play n = .ok (log, s)) :
    ∀ b ∈ log, ∀ fill ∈ b.fills, fill.step = b.snapshot.step := by
  refine r.play_invariant (fun log _ _ => ∀ b ∈ log, ∀ fill ∈ b.fills, fill.step = b.snapshot.step)
    ?_ ?_ ?_ h
  · exact fun _ _ => List.forall_mem_nil _
  · intro log b after hlog hexec _
    exact List.forall_mem_append.2 ⟨hlog, List.forall_mem_singleton.2
      (hstamps _ _ _ _ _ _ hexec.filled)⟩
  · exact fun _ _ _ _ _ _ _ hlog _ => hlog

/-- The fill executed at step `k` or before, the startup counting as step 0. -/
def executedBy (k : Nat) (fill : Fill) : Bool := fill.step.value ≤ (k : Int)

omit [ExecutionModel X] in
theorem spent_early {tape : List ChainSnapshot} {k : Nat} {calls : List (Batch X)}
    (h : ∀ b ∈ calls, ∀ fill ∈ b.fills, executedBy k fill = true ∧
      outflowAt tape fill = outflow b.snapshot.spec.contractMultiplier fill) :
    spent calls =
      (((calls.flatMap Batch.fills).filter (executedBy k)).map (outflowAt tape)).sum := by
  induction calls with
  | nil => rfl
  | cons b calls ih =>
    obtain ⟨hb, hcalls⟩ := List.forall_mem_cons.1 h
    have hall : b.fills.filter (executedBy k) = b.fills :=
      List.filter_eq_self.2 fun fill hfill => (hb fill hfill).1
    have hmap : b.fills.map (outflowAt tape) =
        b.fills.map (outflow b.snapshot.spec.contractMultiplier) :=
      List.map_congr_left fun fill hfill => (hb fill hfill).2
    rw [List.flatMap_cons, List.filter_append, List.map_append, List.sum_append, ← ih hcalls, hall,
      hmap]
    simp [spent]

omit [ExecutionModel X] in
theorem filter_late {k : Nat} {calls : List (Batch X)}
    (h : ∀ b ∈ calls, ∀ fill ∈ b.fills, executedBy k fill = false) :
    (calls.flatMap Batch.fills).filter (executedBy k) = [] := by
  refine List.filter_eq_nil_iff.2 fun fill hfill => ?_
  obtain ⟨b, hb, hfill⟩ := List.mem_flatMap.1 hfill
  simp [h b hb fill hfill]

omit [ExecutionModel X] in
/-- The calls up to a step are those whose fills carry the same or an earlier step. -/
theorem spent_take {calls : List (Batch X)} {k : Nat}
    (hagainst : ∀ (j : Nat) (b : Batch X), calls[j]? = some b →
      r.feed.tape[j - 1]? = some b.snapshot)
    (hstamped : ∀ b ∈ calls, ∀ fill ∈ b.fills, fill.step = b.snapshot.step) :
    spent (calls.take (k + 2)) =
      (((calls.flatMap Batch.fills).filter (executedBy k)).map (outflowAt r.feed.tape)).sum := by
  obtain ⟨-, -, hsteps⟩ := TapeMeta.fromTape_eq_ok r.feed.accepted
  have hearly : ∀ b ∈ calls.take (k + 2), ∀ fill ∈ b.fills, executedBy k fill = true ∧
      outflowAt r.feed.tape fill = outflow b.snapshot.spec.contractMultiplier fill := by
    intro b hb fill hfill
    obtain ⟨j, hj, rfl⟩ := List.mem_take_iff_getElem.1 hb
    have hsnapshot := hagainst j _ (List.getElem?_eq_getElem (by omega))
    have hstep := hsteps _ _ hsnapshot
    have hown := hstamped _ (List.getElem_mem _) fill hfill
    refine ⟨decide_eq_true ?_, ?_⟩
    · rw [hown, hstep]
      omega
    · rw [outflowAt, hown, hstep, Int.toNat_natCast, hsnapshot]
      rfl
  have hlate : ∀ b ∈ calls.drop (k + 2), ∀ fill ∈ b.fills, executedBy k fill = false := by
    intro b hb fill hfill
    obtain ⟨j, hj, rfl⟩ := List.mem_drop_iff_getElem.1 hb
    have hstep := hsteps _ _ (hagainst (k + 2 + j) _ (List.getElem?_eq_getElem (by omega)))
    have hown := hstamped _ (List.getElem_mem _) fill hfill
    refine decide_eq_false ?_
    rw [hown, hstep]
    omega
  rw [spent_early hearly]
  conv_rhs => rw [← List.take_append_drop (k + 2) calls]
  rw [List.flatMap_append, List.filter_append, filter_late hlate, List.append_nil]

/-- Cash and equity are conserved over whole runs: the books balance at every step, and for a
fill model that stamps its fills the cash of step `k` is the initial capital less the outflow of
the fills table up to step `k`. -/
theorem cash_and_equity_conserved (h : r.play n = .ok (log, s)) :
    ∃ initial, BacktestEngine.initialCents r.config = .ok initial ∧ Balanced r initial n log s ∧
      (StampsSteps X → ∀ k < n, ∃ point, s.equityCurve[k]? = some point ∧
        point.cashCents.value = initial.value -
          (((s.engine.bundle.fills.map FillRecord.fill).filter (executedBy k)).map
            (outflowAt r.feed.tape)).sum) := by
  obtain ⟨initial, hinitial, hbalanced⟩ := play_balanced h
  refine ⟨initial, hinitial, hbalanced, fun hstamps k hk => ?_⟩
  obtain ⟨snapshot, point, -, hpoint, -, hof⟩ := hbalanced.curve k hk
  refine ⟨point, hpoint, ?_⟩
  rw [hof.cash, hbalanced.fills, spent_take hbalanced.against (Setup.play_stamped hstamps h)]

end Curve

open OrderBook SmallMarket in
/-- The books of a run with a carried fill. -/
theorem cash_and_equity_conserved_dip : ∃ initial log s,
    (Setup.realistic (ReferenceBook ObOrderId) (config .Realistic) dipFeed
      ⟨restAndTake, []⟩ : Setup Script _).play 3 = .ok (log, s) ∧
    Balanced (Setup.realistic (ReferenceBook ObOrderId) (config .Realistic) dipFeed
      (⟨restAndTake, []⟩ : Script)) initial 3 log s := by
  obtain ⟨⟨log, s⟩, h⟩ := exists_eq_ok (r := (Setup.realistic (ReferenceBook ObOrderId)
    (config .Realistic) dipFeed (⟨restAndTake, []⟩ : Script)).play 3) (by decide +kernel)
  obtain ⟨initial, -, hbalanced, -⟩ := cash_and_equity_conserved h
  exact ⟨initial, log, s, h, hbalanced⟩

end IronCondor
