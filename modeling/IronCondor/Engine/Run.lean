import IronCondor.Engine.Backtest
import IronCondor.Engine.Events
import IronCondor.Execution.Naive
import IronCondor.Execution.Realistic

/-! # Runs, one settled step at a time

`play n` is the run stopped after `n` settled steps, with a log of every call it made to the
fill model. The run rule turns what one call and one settlement preserve into what every run
preserves. -/
namespace IronCondor

open Checked ExceptRun

variable {S X R : Type}

/-- One call of the engine to its fill model: the books and the model it started from, what was
asked, and what came back. -/
structure Batch (X : Type) where
  snapshot : ChainSnapshot
  reasons : CloseReasons
  before : EngineState
  model : X
  cmds : List OrderCommand
  submitIds : List OrderId
  fills : List Fill
  modelAfter : X

namespace Batch

/-- The call that took `s` to `s'`. -/
def of (s : RunState S X R) (reasons : CloseReasons) (snapshot : ChainSnapshot)
    (s' : RunState S X R) : Batch X where
  snapshot
  reasons
  before := s.engine
  model := s.execution
  cmds := s'.cmds
  submitIds := s'.submitIds
  fills := s'.fills
  modelAfter := s'.execution

/-- The books the events apply to: the order ids of the commands are minted. -/
def start (b : Batch X) : EngineState :=
  match mintSubmitIds b.before.ids b.cmds with
  | .ok (ids, _) => { b.before with ids }
  | .error _ => b.before

/-- The orders the call submitted, under their minted ids. -/
def submissions (b : Batch X) : List (OrderId × OrderIntent) :=
  b.submitIds.zip (b.cmds.filterMap (·.intent?))

variable [ExecutionModel X]

/-- The engine's reading of the call. -/
def events (b : Batch X) : List OrderEvent :=
  match correlate b.cmds b.fills (ExecutionModel.fillGroups b.modelAfter)
    (ExecutionModel.carryFills b.modelAfter) b.submitIds with
  | .ok events => events
  | .error _ => []

/-- Everything a successful call establishes, `after` being the books it leaves. -/
structure Executed (b : Batch X) (after : EngineState) : Prop where
  minted : ∃ ids, mintSubmitIds b.before.ids b.cmds = .ok (ids, b.submitIds) ∧
    b.start = { b.before with ids }
  filled : ExecutionModel.fill b.model b.cmds b.submitIds b.snapshot = .ok (b.modelAfter, b.fills)
  prevalidated : ∀ cmd ∈ b.cmds, prevalidate b.before.pending cmd = .ok ()
  correlated : correlate b.cmds b.fills (ExecutionModel.fillGroups b.modelAfter)
    (ExecutionModel.carryFills b.modelAfter) b.submitIds = .ok b.events
  applied : ∃ trade, b.events.foldlM (applyEvent b.reasons b.snapshot) ⟨b.start, none⟩ =
    .ok ⟨after, trade⟩

end Batch

theorem execute_eq_ok [ExecutionModel X] {s s' : RunState S X R} {cmds : List OrderCommand}
    {reasons : CloseReasons} {snapshot : ChainSnapshot}
    (h : s.execute cmds reasons snapshot = .ok s') :
    (Batch.of s reasons snapshot s').Executed s'.engine ∧
      s' = { s with
        execution := s'.execution, engine := s'.engine, cmds, submitIds := s'.submitIds
        fills := s'.fills } := by
  simp only [RunState.execute, bind_ok_iff, pure_ok_iff, Prod.exists] at h
  obtain ⟨ids, submitIds, hids, execution, fills, hfill, engine, happly, rfl⟩ := h
  obtain ⟨hpre, -, events, trade, hparse, hfold⟩ := applyStepFills_eq_ok.1 happly
  have hstart : (Batch.of s reasons snapshot
      { s with execution, engine, cmds, submitIds, fills }).start = { s.engine with ids } := by
    simp only [Batch.start, Batch.of, hids]
  have hevents : (Batch.of s reasons snapshot
      { s with execution, engine, cmds, submitIds, fills }).events = events := by
    simp only [Batch.events, Batch.of, hparse]
  refine ⟨⟨⟨ids, hids, hstart⟩, hfill, hpre, ?_, trade, ?_⟩, rfl⟩
  · rw [hevents]
    exact hparse
  · rw [hevents, hstart]
    exact hfold

/-- One settlement: the ledger marks the open legs and emits the point, and the collector takes
one row for every mark. -/
structure EngineState.Settled (st : EngineState) (snapshot : ChainSnapshot) (isLast : Bool)
    (point : EquityPoint) (st' : EngineState) : Prop where
  books : st' = { st with ledger := st'.ledger, bundle := st'.bundle }
  ledger : ∃ marked : Ledger,
    marked.settle snapshot.step snapshot.ts st.inventory snapshot = .ok (st'.ledger, point) ∧
    marked.cash = st.ledger.cash ∧ marked.runningPeak = st.ledger.runningPeak
  bundle : st.bundle.collectStep snapshot.step snapshot.ts st'.ledger.positionMarks isLast =
    .ok st'.bundle

theorem settle_eq_ok {s s' : RunState S X R} {beginOfStep : List OpenPosition}
    {snapshot : ChainSnapshot} {isLast : Bool}
    (h : s.settle beginOfStep snapshot isLast = .ok s') :
    s'.strategy = s.strategy ∧ s'.execution = s.execution ∧
      ∃ point, s.engine.Settled snapshot isLast point s'.engine ∧
        s'.equityCurve = s.equityCurve ++ [point] ∧
        (s.engine.ledger.collectAttributionMarks beginOfStep
          snapshot.spec.contractMultiplier).settle snapshot.step snapshot.ts s.engine.inventory
          snapshot = .ok (s'.engine.ledger, point) ∧
        s'.attribution = s.attribution.collect snapshot s'.engine.ledger.attributionMarks
          s'.engine.ledger.lastSpreadCapture s'.engine.ledger.lastFees
          s'.engine.ledger.lastStepPnl := by
  simp only [RunState.settle, bind_ok_iff, pure_ok_iff, Prod.exists] at h
  obtain ⟨ledger, point, hsettle, bundle, hbundle, rfl⟩ := h
  exact ⟨rfl, rfl, point, ⟨rfl, ⟨_, hsettle, rfl, rfl⟩, hbundle⟩, rfl, hsettle, rfl⟩

/-- Collecting the commands of a step touches neither the books nor the fill model. -/
theorem collectCommands_eq_ok [Strategy S R] {s s' : RunState S X R} {snapshot : ChainSnapshot}
    {isLast : Bool} {cmds : List OrderCommand} {reasons : CloseReasons}
    (h : s.collectCommands snapshot isLast = .ok (s', cmds, reasons)) :
    s'.engine = s.engine ∧ s'.execution = s.execution ∧ s'.equityCurve = s.equityCurve ∧
      s'.attribution = s.attribution := by
  simp only [RunState.collectCommands, bind_ok_iff, Prod.exists] at h
  obtain ⟨clock, -, strategy, exits, -, strategy', rng, entries, -, h⟩ := h
  cases isLast with
  | true =>
    simp only [if_true, bind_ok_iff, pure_ok_iff, Prod.exists, Prod.mk.injEq] at h
    obtain ⟨_, _, _, -, _, -, _, _, ⟨rfl, rfl⟩, rfl, -⟩ := h
    exact ⟨rfl, rfl, rfl, rfl⟩
  | false =>
    simp only [Bool.false_eq_true, if_false, bind_ok_iff, pure_ok_iff, Prod.exists,
      Prod.mk.injEq] at h
    obtain ⟨_, _, ⟨rfl, rfl⟩, rfl, -⟩ := h
    exact ⟨rfl, rfl, rfl, rfl⟩

/-- What a run is given. -/
structure Setup (S X : Type) where
  config : BacktestConfig
  feed : MaterialisedFeed
  execution : X
  strategy : S

namespace Setup

/-- A run in naive mode. -/
def naive (config : BacktestConfig) (feed : MaterialisedFeed) (strategy : S) :
    Setup S NaiveFill where
  config
  feed
  execution := { slippage := config.slippage, fees := config.fees }
  strategy

/-- A run in realistic mode over books of type `B`. -/
def realistic (B : Type) (config : BacktestConfig) (feed : MaterialisedFeed) (strategy : S) :
    Setup S (RealisticFill B) where
  config
  feed
  execution := .withLiquidityProfile config.fees config.marketableCapTicks config.liquidityProfile
  strategy

variable [Strategy S R] [ExecutionModel X] [SeedableRng R] {r : Setup S X} {n : Nat}
  {log : List (Batch X)} {s s' : RunState S X R}

def isLast (r : Setup S X) (snapshot : ChainSnapshot) : Bool :=
  decide (snapshot.step = r.feed.tapeMeta.finalStep)

/-- The run after its startup and `n` settled steps, with the calls made so far. -/
def play (r : Setup S X) : Nat → Outcome (List (Batch X) × RunState S X R)
  | 0 => do
    let initial ← BacktestEngine.initialCents r.config
    let first ← okOr r.feed.tape.head? (.Data "tape is empty")
    let s := BacktestEngine.initialState r.config initial r.execution r.strategy
    let s' ← s.onStart first
    return ([.of s ⟨0, s'.cmds.length, .ManualClose⟩ first s'], s')
  | n + 1 => do
    let (log, s) ← r.play n
    let snapshot ← okOr r.feed.tape[n]?
      (.Data "feed exhausted before reaching the declared final step")
    let (s, cmds, reasons) ← s.collectCommands snapshot (r.isLast snapshot)
    let s' ← s.execute cmds reasons snapshot
    let settled ← s'.settle s.engine.inventory snapshot (r.isLast snapshot)
    return (log ++ [.of s reasons snapshot s'], settled)

/-- The startup: one call on the empty books against the first snapshot. -/
theorem play_zero (h : r.play 0 = .ok (log, s)) : ∃ initial first b,
    BacktestEngine.initialCents r.config = .ok initial ∧ r.feed.tape[0]? = some first ∧
      log = [b] ∧ b.snapshot = first ∧ b.before = .new initial ∧ b.model = r.execution ∧
      b.Executed s.engine ∧ b.modelAfter = s.execution ∧ s.equityCurve = [] := by
  simp only [play, bind_ok_iff, okOr_eq_ok, pure_ok_iff, Prod.mk.injEq, List.head?_eq_getElem?] at h
  obtain ⟨initial, hinitial, first, hfirst, _, hstart, rfl, rfl⟩ := h
  simp only [RunState.onStart, bind_ok_iff, Prod.exists] at hstart
  obtain ⟨strategy, rng, cmds, -, hexec⟩ := hstart
  obtain ⟨hexecuted, hs⟩ := execute_eq_ok hexec
  refine ⟨initial, first, _, hinitial, hfirst, rfl, rfl, rfl, rfl, ?_, rfl, ?_⟩
  · have hcmds := congrArg RunState.cmds hs
    rw [show _ = cmds.length from congrArg List.length hcmds]
    exact hexecuted
  · exact congrArg RunState.equityCurve hs

/-- The startup samples nothing. -/
theorem play_zero_attribution (h : r.play 0 = .ok (log, s)) : s.attribution = .empty := by
  simp only [play, bind_ok_iff, okOr_eq_ok, pure_ok_iff, Prod.mk.injEq] at h
  obtain ⟨initial, -, first, -, _, hstart, -, rfl⟩ := h
  simp only [RunState.onStart, bind_ok_iff, Prod.exists] at hstart
  obtain ⟨strategy, rng, cmds, -, hexec⟩ := hstart
  exact congrArg RunState.attribution (execute_eq_ok hexec).2

/-- One more step: a call on the books reached so far, its settlement, and the sample taken of
it. -/
theorem play_succ_sampled (h : r.play (n + 1) = .ok (log, s')) :
    ∃ prior s snapshot b point after, r.play n = .ok (prior, s) ∧
      r.feed.tape[n]? = some snapshot ∧ log = prior ++ [b] ∧ b.snapshot = snapshot ∧
      b.before = s.engine ∧ b.model = s.execution ∧ b.Executed after ∧
      b.modelAfter = s'.execution ∧
      after.Settled snapshot (r.isLast snapshot) point s'.engine ∧
      s'.equityCurve = s.equityCurve ++ [point] ∧
      (after.ledger.collectAttributionMarks s.engine.inventory
        snapshot.spec.contractMultiplier).settle snapshot.step snapshot.ts after.inventory
        snapshot = .ok (s'.engine.ledger, point) ∧
      s'.attribution = s.attribution.collect snapshot s'.engine.ledger.attributionMarks
        s'.engine.ledger.lastSpreadCapture s'.engine.ledger.lastFees
        s'.engine.ledger.lastStepPnl := by
  simp only [play, bind_ok_iff, okOr_eq_ok, pure_ok_iff, Prod.exists, Prod.mk.injEq] at h
  obtain ⟨prior, s, hprior, snapshot, hsnapshot, s₁, cmds, reasons, hcollect, s₂, hexec, s₃,
    hsettle, rfl, rfl⟩ := h
  obtain ⟨hengine, hexecution, hcurve, hattribution⟩ := collectCommands_eq_ok hcollect
  obtain ⟨hexecuted, hs⟩ := execute_eq_ok hexec
  obtain ⟨-, hx, point, hsettled, hpoints, hledger, hsampled⟩ := settle_eq_ok hsettle
  refine ⟨prior, s, snapshot, _, point, s₂.engine, hprior, hsnapshot, rfl, rfl, hengine,
    hexecution, hexecuted, hx.symm, hsettled, ?_, ?_, ?_⟩
  · have hkept := congrArg RunState.equityCurve hs
    rw [hpoints, show s₂.equityCurve = s₁.equityCurve from hkept, hcurve]
  · rw [← hengine]
    exact hledger
  · have hkept := congrArg RunState.attribution hs
    rw [hsampled, show s₂.attribution = s₁.attribution from hkept, hattribution]

theorem play_succ (h : r.play (n + 1) = .ok (log, s')) :
    ∃ prior s snapshot b point after, r.play n = .ok (prior, s) ∧
      r.feed.tape[n]? = some snapshot ∧ log = prior ++ [b] ∧ b.snapshot = snapshot ∧
      b.before = s.engine ∧ b.model = s.execution ∧ b.Executed after ∧
      b.modelAfter = s'.execution ∧
      after.Settled snapshot (r.isLast snapshot) point s'.engine ∧
      s'.equityCurve = s.equityCurve ++ [point] := by
  obtain ⟨prior, s, snapshot, b, point, after, hprior, hsnapshot, hlog, hb, hbefore, hmodel, hexec,
    hafter, hsettled, hcurve, -, -⟩ := play_succ_sampled h
  exact ⟨prior, s, snapshot, b, point, after, hprior, hsnapshot, hlog, hb, hbefore, hmodel, hexec,
    hafter, hsettled, hcurve⟩

/-- The run rule: what holds of fresh books, and survives every call and every settlement,
holds after every number of steps. -/
theorem play_invariant (I : List (Batch X) → X → EngineState → Prop)
    (hstart : ∀ initial, BacktestEngine.initialCents r.config = .ok initial →
      I [] r.execution (.new initial))
    (hexecute : ∀ log b after, I log b.model b.before → b.Executed after →
      b.snapshot ∈ r.feed.tape → I (log ++ [b]) b.modelAfter after)
    (hsettle : ∀ log x st snapshot isLast point st', I log x st →
      st.Settled snapshot isLast point st' → I log x st')
    (h : r.play n = .ok (log, s)) : I log s.execution s.engine := by
  induction n generalizing log s with
  | zero =>
    obtain ⟨initial, first, b, hinitial, hfirst, rfl, rfl, hbefore, hmodel, hexec, hafter, -⟩ :=
      play_zero h
    rw [← hafter]
    refine hexecute [] b _ ?_ hexec (List.mem_of_getElem? hfirst)
    rw [hbefore, hmodel]
    exact hstart initial hinitial
  | succ n ih =>
    obtain ⟨prior, t, snapshot, b, point, after, hprior, hsnapshot, rfl, rfl, hbefore, hmodel,
      hexec, hafter, hsettled, -⟩ := play_succ h
    rw [← hafter]
    refine hsettle _ _ _ _ _ _ _ (hexecute prior b after ?_ hexec
      (List.mem_of_getElem? hsnapshot)) hsettled
    rw [hbefore, hmodel]
    exact ih hprior

section Whole

omit [Strategy S R] [ExecutionModel X] [SeedableRng R] in
theorem step_of_play {done rest : List ChainSnapshot} {current : ChainSnapshot}
    (htape : r.feed.tape = done ++ current :: rest) :
    current.step.value = done.length ∧
      (current.step = r.feed.tapeMeta.finalStep ↔ rest = []) := by
  obtain ⟨-, hfinal, hsteps⟩ := TapeMeta.fromTape_eq_ok r.feed.accepted
  have hcurrent := hsteps done.length current (by rw [htape]; simp)
  refine ⟨hcurrent, ?_⟩
  rw [Bounded.ext_iff, hcurrent]
  rw [htape] at hfinal
  have hlength : rest = [] ↔ rest.length = 0 := List.length_eq_zero_iff.symm
  rw [hlength]
  simp only [List.length_append, List.length_cons] at hfinal
  omega

/-- Whatever continues from the state after step `n` continues from `step`. -/
theorem play_succ_bind {α : Type} (next : RunState S X R → Outcome α) {snapshot : ChainSnapshot}
    (hsnapshot : r.feed.tape[n]? = some snapshot) :
    ((r.play (n + 1) : Outcome (List (Batch X) × RunState S X R)) >>= fun p => next p.2) =
      r.play n >>= fun p => p.2.step snapshot (r.isLast snapshot) >>= next := by
  simp only [play, hsnapshot, okOr, RunState.step, bind_assoc, ok_bind, pure_bind]

/-- One more step of a run is one step of its state, logged with the commands it collected. -/
theorem play_succ_step (h : r.play (n + 1) = .ok (log, s')) :
    ∃ prior s snapshot b, r.play n = .ok (prior, s) ∧ r.feed.tape[n]? = some snapshot ∧
      s.step snapshot (r.isLast snapshot) = .ok s' ∧ log = prior ++ [b] ∧ b.cmds = s'.cmds := by
  simp only [play, bind_ok_iff, okOr_eq_ok, pure_ok_iff, Prod.exists, Prod.mk.injEq] at h
  obtain ⟨prior, s, hprior, snapshot, hsnapshot, s₁, cmds, reasons, hcollect, s₂, hexec, s₃,
    hsettle, rfl, rfl⟩ := h
  refine ⟨prior, s, snapshot, _, hprior, hsnapshot, ?_, rfl, ?_⟩
  · simp only [RunState.step, hcollect, ok_bind, hexec, hsettle]
  · simp only [RunState.settle, bind_ok_iff, pure_ok_iff, Prod.exists] at hsettle
    obtain ⟨_, _, -, _, -, rfl⟩ := hsettle
    rfl

/-- A reached state fails the run exactly when its step fails. -/
theorem play_succ_error {snapshot : ChainSnapshot} {e : BacktestError}
    (hprior : r.play n = .ok (log, s)) (hsnapshot : r.feed.tape[n]? = some snapshot) :
    (r.play (n + 1) : Outcome (List (Batch X) × RunState S X R)) = .error e ↔
      s.step snapshot (r.isLast snapshot) = .error e := by
  have hbind := play_succ_bind (r := r) (fun s : RunState S X R => pure s) hsnapshot
  simp only [hprior, ok_bind, bind_pure] at hbind
  rw [← hbind, bind_error_iff]
  simp only [pure_ne_error, and_false, exists_false, or_false]

/-- A run that fails does so at startup or at a reached step. -/
theorem play_error {e : BacktestError} (hle : n ≤ r.feed.tape.length)
    (h : (r.play n : Outcome (List (Batch X) × RunState S X R)) = .error e) :
    (r.play 0 : Outcome (List (Batch X) × RunState S X R)) = .error e ∨
      ∃ (k : Nat) (log : List (Batch X)) (s : RunState S X R) (snapshot : ChainSnapshot),
        r.play k = .ok (log, s) ∧ r.feed.tape[k]? = some snapshot ∧
          s.step snapshot (r.isLast snapshot) = .error e := by
  induction n with
  | zero => exact .inl h
  | succ n ih =>
    have hsnapshot : r.feed.tape[n]? = some r.feed.tape[n] := List.getElem?_eq_getElem hle
    rcases hprior : (r.play n : Outcome (List (Batch X) × RunState S X R)) with e' | ⟨log, s⟩
    · have heq : e' = e := by
        have hfail := h
        simp only [play, hprior] at hfail
        exact Except.error.inj hfail
      exact ih (by omega) (heq ▸ hprior)
    · exact .inr ⟨n, log, s, _, hprior, hsnapshot, (play_succ_error hprior hsnapshot).1 h⟩

/-- The replay loop, started after `done`, is the rest of the play. -/
theorem loop_eq_play {done rest : List ChainSnapshot} {current : ChainSnapshot}
    (htape : r.feed.tape = done ++ current :: rest) :
    ((r.play done.length : Outcome (List (Batch X) × RunState S X R)) >>= fun p =>
        p.2.loop r.feed.tapeMeta.finalStep current rest) =
      r.play r.feed.tape.length >>= fun p => pure (p.2, (rest.getLastD current).ts) := by
  induction rest generalizing done current with
  | nil =>
    obtain ⟨-, hlast⟩ := step_of_play htape
    have hcurrent : r.feed.tape[done.length]? = some current := by simp [htape]
    have hlength : r.feed.tape.length = done.length + 1 := by simp [htape]
    rw [hlength, play_succ_bind (fun s : RunState S X R => pure (s, (List.getLastD [] current).ts))
      hcurrent]
    simp only [RunState.loop, if_pos (hlast.2 rfl), isLast]
    rfl
  | cons next rest ih =>
    obtain ⟨-, hlast⟩ := step_of_play htape
    have htape' : r.feed.tape = (done ++ [current]) ++ next :: rest := by
      rw [htape, List.append_assoc, List.singleton_append]
    have hcurrent : r.feed.tape[done.length]? = some current := by simp [htape]
    have hrest := ih htape'
    rw [List.length_append, List.length_singleton, play_succ_bind
      (fun s : RunState S X R => s.loop r.feed.tapeMeta.finalStep next rest) hcurrent] at hrest
    simp only [RunState.loop, if_neg (show ¬ current.step = r.feed.tapeMeta.finalStep by
      rw [hlast]; simp)]
    rw [List.getLastD_cons]
    exact hrest

/-- The time of the last snapshot. -/
def lastTs (r : Setup S X) : SimTime :=
  (r.feed.tape.getLast?.map ChainSnapshot.ts).getD r.feed.tapeMeta.firstTs

/-- What the engine reports of the state its last step leaves. -/
def report (r : Setup S X) (strategyName : String) (initial : Cents) (s : RunState S X R) :
    BacktestRun where
  result :=
    { strategyName
      initialCapital := dollars initial
      finalCapital := dollars ((s.equityCurve.getLast?.map EquityPoint.equityCents).getD initial)
      testPeriodStart := r.feed.tapeMeta.firstTs
      testPeriodEnd := r.lastTs }
  equityCurve := s.equityCurve
  openAtEnd := s.engine.inventory
  tradeLog := s.engine.tradeLog.closed
  attributionSteps := s.attribution.steps
  attributionLegs := s.attribution.legs
  fills := s.engine.bundle.fills
  positions := s.engine.bundle.positions
  dataSource := r.feed.source
  dataIdentity := r.feed.tapeMeta.dataIdentity

/-- An engine run is the play over the whole tape, and reports the state it ends with. -/
theorem run_eq_play (strategyName : String) :
    BacktestEngine.run r.config r.feed.toFeed r.execution r.strategy strategyName = (do
      let initial ← BacktestEngine.initialCents r.config
      let p ← (r.play r.feed.tape.length : Outcome (List (Batch X) × RunState S X R))
      return r.report strategyName initial p.2) := by
  obtain ⟨hnonEmpty, hfinal, -⟩ := TapeMeta.fromTape_eq_ok r.feed.accepted
  rcases htape : r.feed.tape with _ | ⟨first, rest⟩
  · rw [htape] at hfinal
    have := r.feed.tapeMeta.finalStep.nonneg
    simp at hfinal
    omega
  have hlast : (rest.getLastD first).ts = r.lastTs := by
    rw [lastTs, htape, List.getLast?_cons, List.getLastD_eq_getLast?]
    rfl
  cases hinitial : BacktestEngine.initialCents r.config with
  | error e =>
    simp only [BacktestEngine.run, hinitial]
    rfl
  | ok initial =>
    have hdone : r.feed.tape = [] ++ first :: rest := htape
    have hloop := congrArg (fun out : Outcome (RunState S X R × SimTime) => out >>= fun q =>
        (pure { r.report strategyName initial q.1 with
          result := { (r.report strategyName initial q.1).result with testPeriodEnd := q.2 } } :
          Outcome BacktestRun))
      (loop_eq_play hdone)
    simp only [List.length_nil, play, hinitial, htape, List.head?_cons, okOr, ok_bind, bind_assoc,
      pure_bind, hlast] at hloop
    simp only [BacktestEngine.run, hinitial, hnonEmpty, require, if_true, htape, ok_bind]
    exact hloop

/-- A successful engine run is a play over the whole tape, and shows the books it ends with. -/
theorem play_of_run {strategyName : String} {out : BacktestRun}
    (h : BacktestEngine.run r.config r.feed.toFeed r.execution r.strategy strategyName = .ok out) :
    ∃ initial log s, BacktestEngine.initialCents r.config = .ok initial ∧
      r.play r.feed.tape.length = .ok (log, s) ∧ out = r.report strategyName initial s := by
  rw [run_eq_play] at h
  simp only [bind_ok_iff, pure_ok_iff, Prod.exists] at h
  obtain ⟨initial, hinitial, log, s, hplay, rfl⟩ := h
  exact ⟨initial, log, s, hinitial, hplay, rfl⟩

/-- An engine run that fails does so at startup or at a reached step. -/
theorem run_error {strategyName : String} {e : BacktestError}
    (h : BacktestEngine.run r.config r.feed.toFeed r.execution r.strategy strategyName =
      .error e) :
    (r.play 0 : Outcome (List (Batch X) × RunState S X R)) = .error e ∨
      ∃ (n : Nat) (log : List (Batch X)) (s : RunState S X R) (snapshot : ChainSnapshot),
        r.play n = .ok (log, s) ∧ r.feed.tape[n]? = some snapshot ∧
          s.step snapshot (r.isLast snapshot) = .error e := by
  rw [run_eq_play] at h
  rcases bind_error_iff.1 h with hinitial | ⟨initial, -, h⟩
  · exact .inl (by simp only [play, hinitial]; rfl)
  · rcases bind_error_iff.1 h with hplay | ⟨p, -, h⟩
    · exact play_error le_rfl hplay
    · exact absurd h pure_ne_error

end Whole

end Setup

end IronCondor
