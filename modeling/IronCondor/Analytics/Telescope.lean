import IronCondor.Analytics.Attribution
import IronCondor.Engine.Accounting
import IronCondor.Engine.LedgerSteps
import IronCondor.Engine.Modes
import IronCondor.Lib.Numbering

/-! # The attribution telescopes

Every settlement samples the change of equity and the signals of the fills since the settlement
before it. The residual closes each row against its own sample, so the rows add up to the change
of equity over the run. -/
namespace IronCondor

open Checked ExceptRun Ledger OrderBook

/-- The fills of step `k`, those of the startup among step 0's. -/
def fillsAt (k : Nat) (fills : List Fill) : List Fill :=
  fills.filter fun fill => fill.step.value = (k : Int)

/-- The equity after `k` steps. -/
def equityAfter (initial : Cents) (curve : List EquityPoint) (k : Nat) : Int :=
  ((curve.take k).getLast?.map fun point => point.equityCents.value).getD initial.value

/-- The sample of step `k`: the change of equity over the step, and the signals of its fills at
the multiplier of its snapshot. -/
structure SampleOf (tape : List ChainSnapshot) (fills : List Fill) (initial : Cents)
    (curve : List EquityPoint) (k : Nat) (sample : StepAttributionScalars) : Prop where
  step : sample.step.value = k
  spreadCapture : ∀ snapshot, tape[k]? = some snapshot → sample.spreadCaptureCents.value =
    -((fillsAt k fills).map (slippageOf snapshot.spec.contractMultiplier)).sum
  fees : sample.feesCents.value = ((fillsAt k fills).map fun fill => fill.fees.value).sum
  stepPnl : sample.stepPnlCents.value =
    equityAfter initial curve (k + 1) - equityAfter initial curve k

section Lists

variable {k : Nat} {fills fills' : List Fill} {initial : Cents} {curve : List EquityPoint}
  {point : EquityPoint}

theorem fillsAt_append : fillsAt k (fills ++ fills') = fillsAt k fills ++ fillsAt k fills' :=
  List.filter_append ..

theorem fillsAt_self (h : ∀ fill ∈ fills, fill.step.value = (k : Int)) : fillsAt k fills = fills :=
  List.filter_eq_self.2 fun fill hfill => decide_eq_true (h fill hfill)

theorem fillsAt_none (h : ∀ fill ∈ fills, fill.step.value ≠ (k : Int)) : fillsAt k fills = [] :=
  List.filter_eq_nil_iff.2 fun fill hfill heq => h fill hfill (of_decide_eq_true heq)

theorem equityAfter_append (h : k ≤ curve.length) :
    equityAfter initial (curve ++ [point]) k = equityAfter initial curve k := by
  rw [equityAfter, List.take_append_of_le_length h, equityAfter]

theorem equityAfter_last :
    equityAfter initial (curve ++ [point]) (curve.length + 1) = point.equityCents.value := by
  rw [equityAfter, List.take_of_length_le (by simp), List.getLast?_concat]
  rfl

end Lists

section Rows

variable [DecimalArith] [DecimalSums] {round : Decimal → Outcome Cents}
  {steps : List StepAttributionScalars} {legs : List LegAttributionSample}
  {rows rows' : List GreeksAttributionRow} {offset stop : Nat}

/-- A row shows its sample's signals and adds up to its sample's change of equity, however its
terms are rounded. -/
theorem attributeStep_eq_ok {step : StepAttributionScalars} {row : GreeksAttributionRow}
    (h : attributeStep round step legs = .ok row) :
    row.step = step.step ∧ row.spreadCaptureCents = step.spreadCaptureCents ∧
      row.feesCents = step.feesCents ∧ row.total = step.stepPnlCents.value := by
  simp only [attributeStep, bind_ok_iff, narrow_eq_ok, pure_ok_iff] at h
  obtain ⟨_, -, _, -, terms, -, theta, -, delta, -, vega, -, _, h₁, _, h₂, _, h₃, _, h₄, residual,
    hresidual, rfl⟩ := h
  refine ⟨rfl, rfl, rfl, ?_⟩
  rw [GreeksAttributionRow.total, hresidual, h₄, h₃, h₂, h₁]
  ring

/-- The walk over the leg buffer gives every step its own slice. -/
theorem attributeNext_foldlM
    (h : steps.foldlM (attributeNext round legs) (rows, offset) = .ok (rows', stop)) :
    ∃ added, rows' = rows ++ added ∧ added.length = steps.length ∧
      stop = offset + (steps.map StepAttributionScalars.legCount).sum ∧
      ∀ k step, steps[k]? = some step → ∃ row, added[k]? = some row ∧
        attributeStep round step ((legs.drop
          (offset + ((steps.take k).map StepAttributionScalars.legCount).sum)).take
            step.legCount) = .ok row := by
  induction steps generalizing rows offset with
  | nil =>
    cases foldlM_nil_ok.1 h
    refine ⟨[], (List.append_nil _).symm, rfl, rfl, fun k step hstep => ?_⟩
    cases List.getElem?_nil.symm.trans hstep
  | cons first steps ih =>
    obtain ⟨⟨mid, next⟩, hmid, h⟩ := foldlM_cons_ok.1 h
    simp only [attributeNext, bind_ok_iff, pure_ok_iff, Prod.mk.injEq] at hmid
    obtain ⟨_, -, row, hrow, rfl, rfl⟩ := hmid
    obtain ⟨added, rfl, hlength, rfl, hall⟩ := ih h
    refine ⟨row :: added, by simp, by simp [hlength], by simp [Nat.add_assoc], ?_⟩
    rintro (_ | k) step hstep
    · cases hstep
      exact ⟨row, rfl, by simpa using hrow⟩
    · obtain ⟨found, hfound, hslice⟩ := hall k step hstep
      refine ⟨found, hfound, ?_⟩
      simpa [Nat.add_assoc] using hslice

end Rows

section Runs

variable {S X R : Type}

/-- The samples of a run after `n` settled steps, and the signals the next settlement starts
from. -/
structure Sampled (r : Setup S X) (initial : Cents) (n : Nat) (s : RunState S X R) : Prop where
  count : s.attribution.steps.length = n
  points : s.equityCurve.length = n
  samples : ∀ k sample, s.attribution.steps[k]? = some sample →
    SampleOf r.feed.tape (s.engine.bundle.fills.map FillRecord.fill) initial s.equityCurve k sample
  early : ∀ fill ∈ s.engine.bundle.fills.map FillRecord.fill,
    fill.step.value < ((max n 1 : Nat) : Int)
  equity : s.engine.ledger.prevEquity.value = equityAfter initial s.equityCurve n
  slippage : ∀ snapshot, r.feed.tape[n]? = some snapshot →
    s.engine.ledger.stepSlippage.value =
      ((fillsAt n (s.engine.bundle.fills.map FillRecord.fill)).map
        (slippageOf snapshot.spec.contractMultiplier)).sum
  fees : s.engine.ledger.stepFees.value =
    ((fillsAt n (s.engine.bundle.fills.map FillRecord.fill)).map fun fill => fill.fees.value).sum

variable [ExecutionModel X] [Strategy S R] [SeedableRng R] {r : Setup S X} {n : Nat}
  {log : List (Batch X)} {s : RunState S X R}

theorem sampled_zero (hstamps : StampsSteps X) (h : r.play 0 = .ok (log, s)) :
    ∃ initial, BacktestEngine.initialCents r.config = .ok initial ∧ Sampled r initial 0 s := by
  obtain ⟨-, -, hsteps⟩ := TapeMeta.fromTape_eq_ok r.feed.accepted
  have hattribution := Setup.play_zero_attribution h
  obtain ⟨initial, first, b, hinitial, hfirst, rfl, rfl, hbefore, -, hexec, -, hcurve⟩ :=
    Setup.play_zero h
  have hbooked := hexec.booked
  have hledger := hexec.ledger
  rw [hbefore] at hbooked hledger
  obtain ⟨hfills, -⟩ := hbooked.fills hexec
  obtain ⟨hslippage, hfees, hframe⟩ := applyFills_eq_ok hledger
  have hnow : ∀ fill ∈ b.fills, fill.step.value = ((0 : Nat) : Int) := fun fill hfill => by
    rw [hstamps _ _ _ _ _ _ hexec.filled fill hfill, hsteps 0 _ hfirst]
  have hrecorded : s.engine.bundle.fills.map FillRecord.fill = b.fills := hfills
  refine ⟨initial, hinitial, ?_, ?_, fun k sample hsample => ?_, ?_, ?_, fun snapshot hsnap => ?_,
    ?_⟩
  · rw [hattribution]
    rfl
  · rw [hcurve]
    rfl
  · rw [hattribution] at hsample
    cases List.getElem?_nil.symm.trans hsample
  · rw [hrecorded]
    intro fill hfill
    rw [hnow fill hfill]
    decide
  · rw [hframe, hcurve]
    rfl
  · cases hfirst.symm.trans hsnap
    rw [hslippage, hrecorded, fillsAt_self hnow]
    exact zero_add _
  · rw [hfees, hrecorded, fillsAt_self hnow]
    exact zero_add _

omit [Strategy S R] [SeedableRng R] in
/-- One settled step adds the sample of its own fills and change of equity. -/
theorem sampled_succ (hstamps : StampsSteps X) {initial : Cents} {t : RunState S X R} {snapshot : ChainSnapshot} {b : Batch X} {isLast : Bool}
    {point : EquityPoint} {after : EngineState} (hprior : Sampled r initial n t)
    (hsnapshot : r.feed.tape[n]? = some snapshot) (hb : b.snapshot = snapshot)
    (hbefore : b.before = t.engine) (hexec : b.Executed after)
    (hsettled : after.Settled snapshot isLast point s.engine)
    (hcurve : s.equityCurve = t.equityCurve ++ [point])
    (hledger : (after.ledger.collectAttributionMarks t.engine.inventory
      snapshot.spec.contractMultiplier).settle snapshot.step snapshot.ts after.inventory
      snapshot = .ok (s.engine.ledger, point))
    (hsampled : s.attribution = t.attribution.collect snapshot s.engine.ledger.attributionMarks
      s.engine.ledger.lastSpreadCapture s.engine.ledger.lastFees s.engine.ledger.lastStepPnl) :
    Sampled r initial (n + 1) s := by
  subst hb
  obtain ⟨-, -, hsteps⟩ := TapeMeta.fromTape_eq_ok r.feed.accepted
  have hstep := hsteps n _ hsnapshot
  have hbooked := hexec.booked
  have hfed := hexec.ledger
  rw [hbefore] at hbooked hfed
  obtain ⟨hfills, -⟩ := hbooked.fills hexec
  obtain ⟨hslippage, hfees, hframe⟩ := applyFills_eq_ok hfed
  obtain ⟨hpnl, hspread, hlastFees, hequity, hcleared, hcleared', -, -⟩ := settle_sampled hledger
  obtain ⟨_, -, hbundle⟩ := BundleCollector.collectStep_eq_ok hsettled.bundle
  have hnow : ∀ fill ∈ b.fills, fill.step.value = (n : Int) := fun fill hfill => by
    rw [hstamps _ _ _ _ _ _ hexec.filled fill hfill, hstep]
  have hrecorded : s.engine.bundle.fills.map FillRecord.fill =
      t.engine.bundle.fills.map FillRecord.fill ++ b.fills := by
    rw [hbundle]
    exact hfills
  have hlength : t.equityCurve.length = n := hprior.points
  have hearly : ∀ fill ∈ s.engine.bundle.fills.map FillRecord.fill,
      fill.step.value < ((max (n + 1) 1 : Nat) : Int) := by
    rw [hrecorded]
    refine List.forall_mem_append.2 ⟨fun fill hfill => ?_, fun fill hfill => ?_⟩
    · have hlt := hprior.early fill hfill
      omega
    · rw [hnow fill hfill]
      omega
  have hnext : fillsAt (n + 1) (s.engine.bundle.fills.map FillRecord.fill) = [] :=
    fillsAt_none fun fill hfill => by
      have hlt := hearly fill hfill
      omega
  refine ⟨?_, ?_, fun k sample hsample => ?_, hearly, ?_, fun _ _ => ?_, ?_⟩
  · rw [hsampled, AttributionCollector.collect, List.length_append, hprior.count]
    rfl
  · rw [hcurve, List.length_append, hlength]
    rfl
  · rw [hsampled, AttributionCollector.collect] at hsample
    rcases Nat.lt_trichotomy k n with hlt | rfl | hgt
    · -- an earlier sample: neither its fills nor its part of the curve changed
      rw [List.getElem?_append_left (by rw [hprior.count]; exact hlt)] at hsample
      obtain ⟨hs, hsp, hfe, hp⟩ := hprior.samples k sample hsample
      have hsame : fillsAt k (s.engine.bundle.fills.map FillRecord.fill) =
          fillsAt k (t.engine.bundle.fills.map FillRecord.fill) := by
        have hnone : fillsAt k b.fills = [] := fillsAt_none fun fill hfill => by
          rw [hnow fill hfill]
          omega
        rw [hrecorded, fillsAt_append, hnone, List.append_nil]
      refine ⟨hs, ?_, ?_, ?_⟩
      · rw [hsame]
        exact hsp
      · rw [hsame]
        exact hfe
      · rw [hcurve, equityAfter_append (by omega), equityAfter_append (by omega)]
        exact hp
    · rw [← hprior.count, List.getElem?_concat_length] at hsample
      cases hsample
      have hown : fillsAt k (s.engine.bundle.fills.map FillRecord.fill) =
          fillsAt k (t.engine.bundle.fills.map FillRecord.fill) ++ b.fills := by
        rw [hrecorded, fillsAt_append, fillsAt_self hnow]
      refine ⟨hstep, fun snapshot hsnap => ?_, ?_, ?_⟩
      · cases hsnapshot.symm.trans hsnap
        have hbase := hprior.slippage _ hsnapshot
        rw [hown, List.map_append, List.sum_append, ← hbase, ← hslippage]
        exact hspread
      · rw [hown, List.map_append, List.sum_append, ← hprior.fees, ← hfees]
        exact hlastFees
      · have hlast : equityAfter initial s.equityCurve (k + 1) = point.equityCents.value := by
          rw [hcurve, ← hlength]
          exact equityAfter_last
        rw [hlast, hcurve, equityAfter_append hlength.ge, ← hprior.equity, hpnl]
        change _ - after.ledger.prevEquity.value = _
        rw [hframe]
    · rw [List.getElem?_eq_none (by simp [hprior.count]; omega)] at hsample
      cases hsample
  · rw [hequity, hcurve, ← hlength]
    exact equityAfter_last.symm
  · rw [hcleared, hnext]
    rfl
  · rw [hcleared', hnext]
    rfl

/-- In every reachable state the samples show the steps settled so far. -/
theorem play_sampled (hstamps : StampsSteps X) (h : r.play n = .ok (log, s)) :
    ∃ initial, BacktestEngine.initialCents r.config = .ok initial ∧ Sampled r initial n s := by
  induction n generalizing log s with
  | zero => exact sampled_zero hstamps h
  | succ n ih =>
    obtain ⟨prior, t, snapshot, b, point, after, hprior, hsnapshot, rfl, hb, hbefore, -, hexec, -,
      hsettled, hcurve, hledger, hsampled⟩ := Setup.play_succ_sampled h
    obtain ⟨initial, hinitial, ht⟩ := ih hprior
    exact ⟨initial, hinitial, sampled_succ hstamps ht hsnapshot hb hbefore hexec hsettled hcurve
      hledger hsampled⟩

end Runs

/-- The rows of a run decompose the change of equity, step by step and over the whole run. -/
structure Telescopes (tape : List ChainSnapshot) (fills : List Fill) (initial : Cents)
    (curve : List EquityPoint) (rows : List GreeksAttributionRow) : Prop where
  length : rows.length = tape.length ∧ curve.length = tape.length
  step : ∀ (k : Nat) (row : GreeksAttributionRow), rows[k]? = some row → row.step.value = k
  spreadCapture : ∀ (k : Nat) (row : GreeksAttributionRow) (snapshot : ChainSnapshot), rows[k]? = some row → tape[k]? = some snapshot →
    row.spreadCaptureCents.value =
      -((fillsAt k fills).map (slippageOf snapshot.spec.contractMultiplier)).sum
  fees : ∀ (k : Nat) (row : GreeksAttributionRow), rows[k]? = some row →
    row.feesCents.value = ((fillsAt k fills).map fun fill => fill.fees.value).sum
  identity : ∀ (k : Nat) (row : GreeksAttributionRow), rows[k]? = some row →
    row.total = equityAfter initial curve (k + 1) - equityAfter initial curve k
  total : (rows.map GreeksAttributionRow.total).sum =
    equityAfter initial curve curve.length - initial.value

section Telescope

variable {S X R : Type} [ExecutionModel X] [Strategy S R] [SeedableRng R] [DecimalArith]
  [DecimalSums] {r : Setup S X} {round : Decimal → Outcome Cents}
  {rows : List GreeksAttributionRow} {out : BacktestRun} {strategyName : String}

/-- The rows of a successful run telescope, whatever the fill model, if its fills carry their
steps. -/
theorem Setup.run_telescopes (hstamps : StampsSteps X)
    (h : BacktestEngine.run r.config r.feed.toFeed r.execution r.strategy strategyName = .ok out)
    (hrows : attributeSubstrate round out.attributionSteps out.attributionLegs = .ok rows) :
    ∃ initial, BacktestEngine.initialCents r.config = .ok initial ∧
      Telescopes r.feed.tape (out.fills.map FillRecord.fill) initial out.equityCurve rows := by
  obtain ⟨initial, log, s, hinitial, hplay, rfl⟩ := Setup.play_of_run h
  obtain ⟨initial', hinitial', hs⟩ := play_sampled hstamps hplay
  cases hinitial.symm.trans hinitial'
  simp only [attributeSubstrate, bind_ok_iff, pure_ok_iff, Prod.exists] at hrows
  obtain ⟨found, _, hfold, hfound⟩ := hrows
  obtain ⟨added, hadded, hlength, -, hall⟩ := attributeNext_foldlM hfold
  have hrowsEq : rows = added := by rw [← hfound, hadded, List.nil_append]
  subst hrowsEq
  have hcount : rows.length = r.feed.tape.length := hlength.trans hs.count
  have hrow : ∀ (k : Nat) (row : GreeksAttributionRow), rows[k]? = some row → ∃ sample,
      SampleOf r.feed.tape (s.engine.bundle.fills.map FillRecord.fill) initial s.equityCurve k
        sample ∧ row.step = sample.step ∧ row.spreadCaptureCents = sample.spreadCaptureCents ∧
        row.feesCents = sample.feesCents ∧ row.total = sample.stepPnlCents.value := by
    intro k row hrow
    have hlt := (List.getElem?_eq_some_iff.1 hrow).1
    obtain ⟨sample, hsample⟩ : ∃ sample, s.attribution.steps[k]? = some sample :=
      ⟨_, List.getElem?_eq_getElem (hlength ▸ hlt)⟩
    obtain ⟨found, hfound, hslice⟩ := hall k sample hsample
    cases hrow.symm.trans hfound
    exact ⟨sample, hs.samples k sample hsample, attributeStep_eq_ok hslice⟩
  have hidentity : ∀ (k : Nat) (row : GreeksAttributionRow), rows[k]? = some row → row.total =
      equityAfter initial s.equityCurve (k + 1) - equityAfter initial s.equityCurve k := by
    intro k row hk
    obtain ⟨sample, hof, -, -, -, htotal⟩ := hrow k row hk
    rw [htotal, hof.stepPnl]
  refine ⟨initial, hinitial, ⟨hcount, hs.points⟩, fun k row hk => ?_,
    fun k row snapshot hk hsnap => ?_, fun k row hk => ?_, hidentity, ?_⟩
  · obtain ⟨sample, hof, hstep, -⟩ := hrow k row hk
    rw [hstep, hof.step]
  · obtain ⟨sample, hof, -, hspread, -⟩ := hrow k row hk
    rw [hspread]
    exact hof.spreadCapture snapshot hsnap
  · obtain ⟨sample, hof, -, -, hfees, -⟩ := hrow k row hk
    rw [hfees]
    exact hof.fees
  · have hchanges : ∀ k change, (rows.map GreeksAttributionRow.total)[k]? = some change →
        change = equityAfter initial s.equityCurve (k + 1) - equityAfter initial s.equityCurve k := by
      intro k change hchange
      rw [List.getElem?_map] at hchange
      obtain ⟨row, hrow, rfl⟩ := Option.map_eq_some_iff.1 hchange
      exact hidentity k row hrow
    have hsum := List.sum_telescope (equityAfter initial s.equityCurve) hchanges
    have hpoints : s.equityCurve.length = rows.length := hs.points.trans hcount.symm
    rw [List.length_map, ← hpoints] at hsum
    exact hsum

end Telescope

section Modes

variable {S R B : Type} [DecimalArith] [DecimalSums] [Book B ObOrderId] [Strategy S R]
  [SeedableRng R]

/-- The attribution telescopes: in either mode, the rows of every successful run add up exactly
to the change of equity, step by step and over the run, with the spread capture and the fees of
each step's own fills. -/
theorem attribution_telescopes (round : Decimal → Outcome Cents) (config : BacktestConfig)
    (feed : MaterialisedFeed) (strategy : S) (strategyName : String) :
    (∀ out rows, BacktestEngine.run config feed.toFeed
        (Setup.naive config feed strategy).execution strategy strategyName = .ok out →
      attributeSubstrate round out.attributionSteps out.attributionLegs = .ok rows →
      ∃ initial, BacktestEngine.initialCents config = .ok initial ∧
        Telescopes feed.tape (out.fills.map FillRecord.fill) initial out.equityCurve rows) ∧
    ∀ out rows, BacktestEngine.run config feed.toFeed
        (Setup.realistic B config feed strategy).execution strategy strategyName = .ok out →
      attributeSubstrate round out.attributionSteps out.attributionLegs = .ok rows →
      ∃ initial, BacktestEngine.initialCents config = .ok initial ∧
        Telescopes feed.tape (out.fills.map FillRecord.fill) initial out.equityCurve rows :=
  ⟨fun _ _ h hrows =>
      (Setup.naive config feed strategy).run_telescopes NaiveFill.stampsSteps h hrows,
    fun _ _ h hrows =>
      (Setup.realistic B config feed strategy).run_telescopes RealisticFill.stampsSteps h hrows⟩

end Modes

open SmallMarket in
/-- The rows of a run with a carried fill, rounded as the source rounds them. -/
theorem attribution_telescopes_dip : ∃ out rows initial,
    BacktestEngine.run (config .Realistic) dipFeed.toFeed
        (Setup.realistic (ReferenceBook ObOrderId) (config .Realistic) dipFeed
          (⟨restAndTake, []⟩ : Script)).execution (⟨restAndTake, []⟩ : Script) "script" =
      .ok out ∧
    attributeSubstrate roundToCents out.attributionSteps out.attributionLegs = .ok rows ∧
    Telescopes dipFeed.tape (out.fills.map FillRecord.fill) initial out.equityCurve rows := by
  obtain ⟨⟨out, rows⟩, h⟩ := exists_eq_ok (r := do
    let out ← BacktestEngine.run (config .Realistic) dipFeed.toFeed
      (Setup.realistic (ReferenceBook ObOrderId) (config .Realistic) dipFeed
        (⟨restAndTake, []⟩ : Script)).execution (⟨restAndTake, []⟩ : Script) "script"
    let rows ← attributeSubstrate roundToCents out.attributionSteps out.attributionLegs
    return (out, rows)) (by decide +kernel)
  simp only [bind_ok_iff, pure_ok_iff, Prod.mk.injEq] at h
  obtain ⟨out, hrun, rows, hrows, rfl, rfl⟩ := h
  obtain ⟨initial, -, htelescopes⟩ := (attribution_telescopes roundToCents _ _ _ _).2 out rows hrun
    hrows
  exact ⟨out, rows, initial, hrun, hrows, htelescopes⟩

end IronCondor
