import IronCondor.Analytics.Telescope
import IronCondor.Bundle.ReaderGate
import IronCondor.Engine.AssembledFills
import IronCondor.Engine.FillIdentity
import IronCondor.Engine.Lifecycle

/-! # The tables a run fills

The rows of every run meet what the bundle reader asks of a bundle: fills and positions have keys
of their own, the per-step tables have one row for each step of the tape, nothing lies beyond it,
and no fee is negative. -/
namespace IronCondor

open Checked ExceptRun OrderBook

section Tables

/-- What a run of `n` steps leaves in its tables. -/
structure RunTables (n : Nat) (run : BacktestRun) (rows : List GreeksAttributionRow) : Prop where
  fillKeys : run.fills.Pairwise fun a b =>
    ¬ (a.fill.step = b.fill.step ∧ a.orderId = b.orderId ∧ a.fillSeq = b.fillSeq)
  positionKeys : run.positions.Pairwise fun a b =>
    ¬ (a.step = b.step ∧ a.positionId = b.positionId)
  curveLength : run.equityCurve.length = n
  curveSteps : ∀ (k : Nat) point, run.equityCurve[k]? = some point → point.step.value = k
  rowsLength : rows.length = n
  rowSteps : ∀ (k : Nat) row, rows[k]? = some row → row.step.value = k
  fillSteps : ∀ record ∈ run.fills, record.fill.step.value < n
  positionSteps : ∀ row ∈ run.positions, row.step.value < n
  fillFees : ∀ record ∈ run.fills, 0 ≤ record.fill.fees.value
  rowFees : ∀ row ∈ rows, 0 ≤ row.feesCents.value

/-- The rows of a leg lie before the next step. -/
theorem Life.before_next {now next : Nat} {fills : List FillRecord} {rows : List (Int × Bool)}
    {live : Bool} (h : Life now next fills rows live) (hnow : now < next) :
    ∀ kind ∈ rows, kind.1 < next := by
  have hspan : ∀ first stop, stop ≤ next → ∀ kind ∈ openSpan first stop, kind.1 < next := by
    intro first stop hstop kind hkind
    obtain ⟨k, -, hlt, rfl⟩ := mem_openSpan.1 hkind
    change (k : Int) < next
    omega
  cases h with
  | unborn _ no_row => simp [no_row]
  | opened first _ _ rows_eq => exact rows_eq ▸ hspan first next le_rfl
  | closed first last _ le_now _ _ rows_eq =>
    rw [rows_eq]
    refine List.forall_mem_append.2 ⟨hspan first last (by omega), List.forall_mem_singleton.2 ?_⟩
    change (last : Int) < next
    omega

variable {S X R : Type} [ExecutionModel X] [TrackingModel X] [Strategy S R] [SeedableRng R]
  [DecimalArith] [DecimalSums] {r : Setup S X} {round : Decimal → Outcome Cents}
  {rows : List GreeksAttributionRow} {out : BacktestRun} {strategyName : String}

theorem Setup.run_tables (hidle : Idle r.execution) (hassembles : AssemblesFills X)
    (h : BacktestEngine.run r.config r.feed.toFeed r.execution r.strategy strategyName = .ok out)
    (hrows : attributeSubstrate round out.attributionSteps out.attributionLegs = .ok rows) :
    RunTables r.feed.tape.length out rows := by
  have hstamps := hassembles.stampsSteps
  obtain ⟨_, -, htelescopes⟩ := r.run_telescopes hstamps h hrows
  obtain ⟨initial, log, s, -, hplay, rfl⟩ := Setup.play_of_run h
  obtain ⟨-, hfinal, -⟩ := TapeMeta.fromTape_eq_ok r.feed.accepted
  have hpos : 0 < r.feed.tape.length := by
    have := r.feed.tapeMeta.finalStep.nonneg
    omega
  have hidentified : RunIdentified log s.engine :=
    r.play_invariant (fun log _ st => RunIdentified log st) (fun initial _ => .start initial)
      (fun _ _ _ hinv hexec _ => hinv.call hexec) (fun _ _ _ _ _ _ _ hinv hsettled =>
        hinv.settle hsettled) hplay
  have hlived := Setup.play_lived hidle hplay
  obtain ⟨-, hlinked, -⟩ := Setup.play_linked hidle hplay
  obtain ⟨_, -, hbalanced⟩ := play_balanced hplay
  obtain ⟨_, -, hsampled⟩ := play_sampled hstamps hplay
  have hfees : ∀ fill ∈ s.engine.bundle.fills.map FillRecord.fill, 0 ≤ fill.fees.value :=
    fun fill hfill => by
      obtain ⟨snapshot, -, hassembled⟩ := Setup.play_assembled hassembles hplay fill hfill
      exact hassembled.fees_nonneg
  refine ⟨hidentified.identity.unique, (hlived.positionsLived hlinked).unique, htelescopes.length.2,
    fun k point hk => ?_, htelescopes.length.1, htelescopes.step, fun record hrecord => ?_,
    fun row hrow => ?_, fun record hrecord => hfees _ (List.mem_map_of_mem hrecord),
    fun row hrow => ?_⟩
  · have hlt : k < r.feed.tape.length :=
      htelescopes.length.2 ▸ (List.getElem?_eq_some_iff.1 hk).1
    obtain ⟨_, point', -, hpoint', hstep, -⟩ := hbalanced.curve k hlt
    cases hk.symm.trans hpoint'
    exact hstep
  · have hearly := hsampled.early _ (List.mem_map_of_mem hrecord)
    rwa [max_eq_left hpos] at hearly
  · refine (hlived.life row.positionId).before_next (by omega) (rowKind row) ?_
    exact List.mem_map_of_mem (List.mem_filter.2 ⟨hrow, decide_eq_true rfl⟩)
  · obtain ⟨k, hk⟩ := List.mem_iff_getElem?.1 hrow
    rw [htelescopes.fees k row hk]
    refine List.sum_nonneg (List.forall_mem_map.2 fun fill hfill => ?_)
    exact hfees fill (List.mem_filter.1 hfill).1

end Tables

section Modes

variable {S R B M : Type} [DecimalArith] [DecimalSums] [Book B ObOrderId] [Strategy S R]
  [SeedableRng R] [SummaryMetrics M] {config : BacktestConfig} {feed : MaterialisedFeed}
  {strategy : S} {strategyName : String} {run : PopulatedRun M}

/-- The tables of a run of either mode. -/
theorem runWithFeed_tables
    (h : (runWithFeed B config feed.toFeed strategy strategyName : Outcome (PopulatedRun M)) =
      .ok run) : RunTables feed.tape.length run.toBacktestRun run.greeksAttribution := by
  simp only [runWithFeed, bind_ok_iff, pure_ok_iff] at h
  obtain ⟨_, -, out, hmode, _, -, _, -, rows, hrows, rfl⟩ := h
  unfold runMode at hmode
  split at hmode
  · exact (Setup.naive config feed strategy).run_tables (idle_naive config feed strategy)
      NaiveFill.assemblesFills hmode hrows
  · exact (Setup.realistic B config feed strategy).run_tables
      (idle_realistic config feed strategy) RealisticFill.assemblesFills hmode hrows

end Modes

end IronCondor
