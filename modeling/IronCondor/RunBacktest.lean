import IronCondor.Analytics.Attribution
import IronCondor.Data.Historical
import IronCondor.Domain.StrategySpec
import IronCondor.Engine.Backtest
import IronCondor.Execution.Naive
import IronCondor.Execution.Realistic

/-! # One backtest end to end

The composition of the feed, the strategy a specification names, the fill model of the mode, the
engine and the analytics. -/
namespace IronCondor

open Checked OrderBook

/-- The strategies the kinds of a specification are built into; `E` is the exit policy. -/
class StrategyFactory (S E : Type) where
  ironCondorFromSpec : StrategySpec → E → Outcome S
  shortStrangleFromSpec : StrategySpec → E → Outcome S
  legSetFromSpec : StrategySpec → E → Outcome S

/-- The summary metrics of a run. -/
class SummaryMetrics (M : outParam Type) where
  populate : BacktestResult → List EquityPoint → Cents → List ClosedTrade → List OpenPosition →
    Outcome M

/-- A run with its analytics. -/
structure PopulatedRun (M : Type) extends BacktestRun where
  metrics : M
  greeksAttribution : List GreeksAttributionRow

/-- How a data source shows in an error. -/
def DataSourceSpec.debug : DataSourceSpec → String
  | .Csv path sha256 => s!"Csv \x7b path: {path.quote}, sha256: {sha256.quote} \x7d"
  | .Parquet path sha256 => s!"Parquet \x7b path: {path.quote}, sha256: {sha256.quote} \x7d"
  | .Simulator spec => s!"Simulator({spec.session})"

section Run

variable {S R E M B : Type} [DecimalArith] [DecimalSums] [Strategy S R] [SeedableRng R]
  [StrategyFactory S E] [SummaryMetrics M] [Book B ObOrderId]

/-- The engine run under the fill model the mode selects. -/
def runMode (B : Type) [Book B ObOrderId] (config : BacktestConfig) (feed : Feed) (strategy : S)
    (strategyName : String) : Outcome BacktestRun :=
  match config.mode with
  | .Naive => BacktestEngine.run config feed
      ({ slippage := config.slippage, fees := config.fees } : NaiveFill) strategy strategyName
  | .Realistic => BacktestEngine.run config feed
      (.withLiquidityProfile config.fees config.marketableCapTicks config.liquidityProfile :
        RealisticFill B) strategy strategyName

/-- `run_with_feed`. -/
def runWithFeed (B : Type) [Book B ObOrderId] (config : BacktestConfig) (feed : Feed) (strategy : S)
    (strategyName : String) : Outcome (PopulatedRun M) := do
  config.validate
  let run ← runMode B config feed strategy strategyName
  let initialCapitalCents ← narrow i64 (.Config "initial capital exceeds the i64 cents range")
    config.initialCapital.value
  let metrics ← SummaryMetrics.populate run.result run.equityCurve initialCapitalCents
    run.tradeLog run.openAtEnd
  let greeksAttribution ← attributeSubstrate roundToCents run.attributionSteps run.attributionLegs
  return { run with metrics, greeksAttribution }

/-- `run_spec_with_feed`. -/
def runSpecWithFeed (S B : Type) [Book B ObOrderId] [Strategy S R] [StrategyFactory S E]
    (config : BacktestConfig) (feed : Feed) (strategySpec : StrategySpec) (exit : E) :
    Outcome (PopulatedRun M) :=
  let strategyName := strategySpec.kind
  match strategySpec with
  | .IronCondor _ => do
    let strategy : S ← StrategyFactory.ironCondorFromSpec strategySpec exit
    runWithFeed B config feed strategy strategyName
  | .ShortStrangle _ => do
    let strategy : S ← StrategyFactory.shortStrangleFromSpec strategySpec exit
    runWithFeed B config feed strategy strategyName
  | .Legs _ => do
    let strategy : S ← StrategyFactory.legSetFromSpec strategySpec exit
    runWithFeed B config feed strategy strategyName

variable [Sha256] [ParquetReader]

/-- The feed a single run opens: a Parquet file, whatever identity is recorded for it. -/
def runBacktestFeed (files : Files) (config : BacktestConfig) : Outcome Feed := do
  config.validate
  match config.dataSource with
  | .Parquet path _ => do
    let tape ← ParquetFeed.open files path config.limits
    return tape.feed
  | other => .error (.Config
      ("run_backtest supports only a parquet data source (simulator sources run through the " ++
        s!"batch runner; csv dispatch is deferred), got {other.debug}"))

/-- `run_backtest`. -/
def runBacktest (S B : Type) [Book B ObOrderId] [Strategy S R] [StrategyFactory S E] (files : Files)
    (config : BacktestConfig) (strategySpec : StrategySpec) (exit : E) :
    Outcome (PopulatedRun M) := do
  let feed ← runBacktestFeed files config
  runSpecWithFeed S B config feed strategySpec exit

end Run

section Identity

variable {S R E M B : Type} {config : BacktestConfig} {feed : Feed} {strategySpec : StrategySpec}
  {exit : E} {strategy : S} {strategyName : String} [Strategy S R] [SeedableRng R]

/-- A run carries the identity of its feed. -/
theorem run_dataIdentity {X : Type} [ExecutionModel X] {execution : X} {out : BacktestRun}
    (h : BacktestEngine.run config feed execution strategy strategyName = .ok out) :
    out.dataIdentity = feed.tapeMeta.dataIdentity := by
  simp only [BacktestEngine.run, bind_ok_iff] at h
  obtain ⟨initial, -, _, -, h⟩ := h
  split at h
  · cases h
  · simp only [bind_ok_iff, pure_ok_iff, Prod.exists] at h
    obtain ⟨s, -, t, lastTs, -, rfl⟩ := h
    rfl

variable [DecimalArith] [DecimalSums] [SummaryMetrics M] [Book B ObOrderId] {run : PopulatedRun M}

theorem runWithFeed_dataIdentity
    (h : (runWithFeed B config feed strategy strategyName : Outcome (PopulatedRun M)) = .ok run) :
    run.dataIdentity = feed.tapeMeta.dataIdentity := by
  simp only [runWithFeed, bind_ok_iff, pure_ok_iff] at h
  obtain ⟨_, -, out, hmode, _, -, _, -, _, -, rfl⟩ := h
  unfold runMode at hmode
  split at hmode <;> exact run_dataIdentity hmode

theorem runSpecWithFeed_dataIdentity [StrategyFactory S E]
    (h : (runSpecWithFeed S B config feed strategySpec exit : Outcome (PopulatedRun M)) = .ok run) :
    run.dataIdentity = feed.tapeMeta.dataIdentity := by
  unfold runSpecWithFeed at h
  split at h <;> obtain ⟨strategy, -, hrun⟩ := bind_ok_iff.1 h <;>
    exact runWithFeed_dataIdentity hrun

end Identity

end IronCondor
