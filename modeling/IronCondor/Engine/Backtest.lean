import IronCondor.Engine.StepFills
import IronCondor.Engine.Strategy
import IronCondor.Engine.Substrate

/-! # The replay loop

Startup executes the opening intents against the first snapshot; every step then collects the
commands, executes them once and settles once, emitting one equity point. -/
namespace IronCondor

open Checked

variable {S X R : Type}

/-- The run-scoped state. The buffers `cmds`, `submitIds` and `fills` hold the last step's. -/
structure RunState (S X R : Type) where
  strategy : S
  execution : X
  clock : SimClock
  rng : R
  engine : EngineState
  cmds : List OrderCommand
  submitIds : List OrderId
  fills : List Fill
  equityCurve : List EquityPoint
  attribution : AttributionCollector

/-- One order id per `Submit` and per `Replace`, in command order. -/
def mintSubmitIds (ids : IdCounters) : List OrderCommand → Outcome (IdCounters × List OrderId)
  | [] => .ok (ids, [])
  | cmd :: cmds =>
    match cmd.intent? with
    | none => mintSubmitIds ids cmds
    | some _ => do
      let (ids, orderId) ← ids.mintOrder
      let (ids, rest) ← mintSubmitIds ids cmds
      return (ids, orderId :: rest)

/-- The strategy's view of the registry, each intent at its remaining size. -/
def pendingView (pending : Std.TreeMap OrderId PendingEntry) : List PendingOrder :=
  pending.toList.map fun e => e.2.pending

def isClose : OrderCommand → Bool
  | .Submit intent => intent.action ≠ .Open
  | _ => false

/-- `on_end` may emit only closes. -/
def rejectNonClose (onEndCmds : List OrderCommand) : Outcome Unit :=
  require (onEndCmds.all isClose) (.Execution
    ("on_end may emit only close commands; a submit(open), cancel, or replace from on_end is " ++
      "rejected"))

namespace RunState

def context (s : RunState S X R) (snapshot : ChainSnapshot) (pending : List PendingOrder) :
    ChainContext R where
  snapshot
  openLegs := s.engine.inventory
  pending
  marks := s.engine.ledger.marks
  rng := s.rng
  step := snapshot.step

/-- Phase e: mint the order ids, fill, and apply the fills. -/
def execute [ExecutionModel X] (s : RunState S X R) (cmds : List OrderCommand)
    (reasons : CloseReasons) (snapshot : ChainSnapshot) : Outcome (RunState S X R) := do
  let (ids, submitIds) ← mintSubmitIds s.engine.ids cmds
  let (execution, fills) ← ExecutionModel.fill s.execution cmds submitIds snapshot
  let engine ← applyStepFills cmds fills (ExecutionModel.fillGroups execution)
    (ExecutionModel.carryFills execution) submitIds snapshot reasons { s.engine with ids }
  return { s with execution, engine, cmds, submitIds, fills }

/-- The opening intents against the first snapshot; no equity point is emitted. -/
def onStart [Strategy S R] [ExecutionModel X] (s : RunState S X R) (snapshot : ChainSnapshot) :
    Outcome (RunState S X R) := do
  let (strategy, rng, cmds) ← Strategy.onStart s.strategy (s.context snapshot []) []
  { s with strategy, rng }.execute cmds ⟨0, cmds.length, .ManualClose⟩ snapshot

/-- Phases a to d: the clock, the exits, the entries and, on the last step, the final closes. -/
def collectCommands [Strategy S R] (s : RunState S X R) (snapshot : ChainSnapshot)
    (isLast : Bool) : Outcome (RunState S X R × List OrderCommand × CloseReasons) := do
  let clock ← s.clock.advanceTo snapshot.ts snapshot.step
  let s := { s with clock }
  let pending := pendingView s.engine.pending
  let (strategy, cmds) ← Strategy.exits s.strategy (s.context snapshot pending) []
  let s := { s with strategy }
  let exitsEnd := cmds.length
  let (strategy, rng, cmds) ← Strategy.onSnapshot s.strategy (s.context snapshot pending) cmds
  let s := { s with strategy, rng }
  let onEndStart := cmds.length
  let (s, cmds) ←
    if isLast then do
      let (strategy, rng, cmds) ← Strategy.onEnd s.strategy (s.context snapshot pending) cmds
      rejectNonClose (cmds.drop onEndStart)
      pure ({ s with strategy, rng }, cmds)
    else pure (s, cmds)
  let policyReason := if 0 < exitsEnd then Strategy.exitReason s.strategy else .ManualClose
  return (s, cmds, ⟨exitsEnd, onEndStart, policyReason⟩)

/-- Phases f and g: the one settlement of the step and what is recorded of it. -/
def settle (s : RunState S X R) (beginOfStep : List OpenPosition) (snapshot : ChainSnapshot)
    (isLast : Bool) : Outcome (RunState S X R) := do
  let ledger := s.engine.ledger.collectAttributionMarks beginOfStep snapshot.spec.contractMultiplier
  let (ledger, point) ← ledger.settle snapshot.step snapshot.ts s.engine.inventory snapshot
  let attribution := s.attribution.collect snapshot ledger.attributionMarks
    ledger.lastSpreadCapture ledger.lastFees ledger.lastStepPnl
  let bundle ← s.engine.bundle.collectStep snapshot.step snapshot.ts ledger.positionMarks isLast
  return { s with
    engine := { s.engine with ledger, bundle }
    equityCurve := s.equityCurve ++ [point]
    attribution }

/-- One snapshot processed as a step. -/
def step [Strategy S R] [ExecutionModel X] (s : RunState S X R) (snapshot : ChainSnapshot)
    (isLast : Bool) : Outcome (RunState S X R) := do
  let (s, cmds, reasons) ← s.collectCommands snapshot isLast
  let beginOfStep := s.engine.inventory
  let s ← s.execute cmds reasons snapshot
  s.settle beginOfStep snapshot isLast

/-- The per-step loop: the final step ends it, running out of snapshots before it is an error. -/
def loop [Strategy S R] [ExecutionModel X] (finalStep : StepIndex) (s : RunState S X R)
    (current : ChainSnapshot) : List ChainSnapshot → Outcome (RunState S X R × SimTime)
  | [] => do
    let s ← s.step current (decide (current.step = finalStep))
    if current.step = finalStep then return (s, current.ts)
    else .error (.Data "feed exhausted before reaching the declared final step")
  | next :: rest => do
    let s ← s.step current (decide (current.step = finalStep))
    if current.step = finalStep then return (s, current.ts)
    else loop finalStep s next rest

end RunState

/-- The money of the upstream result, in dollars at scale 2. -/
def dollars (cents : Cents) : Decimal := ⟨cents.value, 2⟩

/-- What the engine fills of the upstream result. -/
structure BacktestResult where
  strategyName : String
  initialCapital : Decimal
  finalCapital : Decimal
  testPeriodStart : SimTime
  testPeriodEnd : SimTime
deriving DecidableEq

structure BacktestRun where
  result : BacktestResult
  equityCurve : List EquityPoint
  openAtEnd : List OpenPosition
  tradeLog : List ClosedTrade
  attributionSteps : List StepAttributionScalars
  attributionLegs : List LegAttributionSample
  fills : List FillRecord
  positions : List PositionSnapshot
  dataSource : DataSourceSpec
  dataIdentity : String

namespace BacktestEngine

/-- The initial capital as signed cents. -/
def initialCents (config : BacktestConfig) : Outcome Cents := do
  let cents ← narrow i64 (.Config "initial capital exceeds the i64 cents range")
    config.initialCapital.value
  require (0 < cents.value) (.Config "initial capital must be positive")
  return cents

/-- The state before the first snapshot is seen. -/
def initialState [SeedableRng R] (config : BacktestConfig) (initialCents : Cents) (execution : X)
    (strategy : S) : RunState S X R where
  strategy
  execution
  clock := .new
  rng := SeedableRng.seedFromU64 config.seed
  engine := .new initialCents
  cmds := []
  submitIds := []
  fills := []
  equityCurve := []
  attribution := .empty

/-- `BacktestEngine::run`. -/
def run [Strategy S R] [ExecutionModel X] [SeedableRng R] (config : BacktestConfig) (feed : Feed)
    (execution : X) (strategy : S) (strategyName : String) : Outcome BacktestRun := do
  let initialCents ← initialCents config
  require (feed.tapeMeta.nonEmpty = true) (.Data "tape is empty")
  match feed.tape with
  | [] => .error (.Data
      ("tape metadata reports a non-empty tape but the feed yielded no first snapshot"))
  | first :: rest =>
    let s ← (initialState config initialCents execution strategy).onStart first
    let (s, lastTs) ← s.loop feed.tapeMeta.finalStep first rest
    let finalEquity := (s.equityCurve.getLast?.map EquityPoint.equityCents).getD initialCents
    return {
      result :=
        { strategyName
          initialCapital := dollars initialCents
          finalCapital := dollars finalEquity
          testPeriodStart := feed.tapeMeta.firstTs
          testPeriodEnd := lastTs }
      equityCurve := s.equityCurve
      openAtEnd := s.engine.inventory
      tradeLog := s.engine.tradeLog.closed
      attributionSteps := s.attribution.steps
      attributionLegs := s.attribution.legs
      fills := s.engine.bundle.fills
      positions := s.engine.bundle.positions
      dataSource := feed.source
      dataIdentity := feed.tapeMeta.dataIdentity }

end BacktestEngine

end IronCondor
