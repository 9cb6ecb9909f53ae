import IronCondor.Bundle.Writer
import IronCondor.Engine.Scenario

/-! # The batch runner

A batch of planned runs is cut into chunks, one worker a chunk, over one disk and one cache of
parsed tapes. A run that fails is recorded, and the batch goes on. -/
namespace IronCondor

open Checked OrderBook

/-- What a simulator source needs beside its configuration. -/
structure SimulatorMaterialisation where
  instrument : InstrumentSpec
  quoteSize : Quantity
  timeoutNanos : Nat

/-- The materialisation of a simulator session. -/
class SimulatorClient where
  openFeed : SimulatorSourceSpec → SimulatorMaterialisation → ResourceLimits → Outcome Feed

/-- A run's terminal outcome. -/
inductive BatchRunOutcome where
  | Ok (runId bundlePath tapeSha256 : String) (terminalEquityCents : Cents)
  | Error (error : String)
deriving DecidableEq

/-- One run's entry in the index of the batch. -/
structure BatchRunEntry where
  index : Bounded u32
  engineSeed : Bounded u64
  dataSeed : Option (Bounded u64)
  outcome : BatchRunOutcome
deriving DecidableEq

/-- A planned run: its position, and its configuration. -/
structure PlannedRun where
  index : Bounded u32
  config : BacktestConfig

/-- The runs of a batch, in the order of their configurations. -/
def planRuns (configs : List BacktestConfig) : Outcome (List PlannedRun) :=
  configs.zipIdx.mapM fun (config, idx) => do
    let index ← checked u32 idx
    return ⟨index, config⟩

/-- The parse cache: every path with its parsed tape, or with the message it failed with. -/
abbrev SharedTapes := Std.TreeMap String (Except String ParquetTape)

/-- A completed run. -/
structure RunSummary where
  runId : String
  bundlePath : String
  tapeSha256 : String
  terminalEquityCents : Cents

def workerCount (available runCount : Nat) : Nat := max (min runCount available) 1

/-- `div_ceil`, of a positive divisor. -/
def divCeil (n d : Nat) : Nat := (n + d - 1) / d

/-- `chunks`: consecutive pieces of a list, all of the same size but the last. -/
def chunks {α : Type} (size : Nat) (as : List α) : List (List α) :=
  (List.range (divCeil as.length size)).map fun i => (as.drop (i * size)).take size

/-- The walk seed of a simulator source. -/
def dataSeedOf (config : BacktestConfig) : Option (Bounded u64) :=
  match config.dataSource with
  | .Simulator spec => some spec.dataSeed
  | _ => none

section Tapes

variable [Sha256] [ParquetReader]

/-- Materialise the tape of a run's path unless the cache has it. -/
def materialiseNext (files : Files) (shared : SharedTapes) (run : PlannedRun) : SharedTapes :=
  match run.config.dataSource with
  | .Parquet path sha256 =>
    if shared.contains path then shared
    else shared.insert path
      (match SharedParquetTape.materialise files path sha256 run.config.limits with
        | .ok tape => .ok tape
        | .error error => .error error.display)
  | _ => shared

/-- `materialise_shared_tapes`. -/
def materialiseSharedTapes (files : Files) (planned : List PlannedRun) : SharedTapes :=
  planned.foldl (materialiseNext files) ∅

variable [SimulatorClient]

/-- The feed of a run: a view of the cached tape, or a verified open of its own. -/
def openFeed (files : Files) (materialisation : Option SimulatorMaterialisation)
    (shared : SharedTapes) (config : BacktestConfig) : Outcome Feed :=
  match config.dataSource with
  | .Parquet path sha256 =>
    match shared[path]? with
    | some (.ok tape) =>
      if sha256 = "" ∨ tape.sha256 = sha256 then .ok tape.feed
      else do
        let tape ← ParquetFeed.openVerified files path sha256 config.limits
        return tape.feed
    | some (.error descriptor) => .error (.Data descriptor)
    | none => do
      let tape ← ParquetFeed.openVerified files path sha256 config.limits
      return tape.feed
  | .Simulator spec => do
    let knobs ← okOr materialisation (.Config
      ("a simulator scenario source requires SimulatorMaterialisation (instrument grid, quote " ++
        "size, timeout)"))
    SimulatorClient.openFeed spec knobs config.limits
  | other => .error (.Config
      s!"scenario batch supports a parquet or simulator data source; got {other.debug}")

end Tapes

section Batch

variable (S B M T : Type) {R E : Type} [DecimalArith] [DecimalSums] [Strategy S R] [SeedableRng R]
  [StrategyFactory S E] [SummaryMetrics M] [Book B ObOrderId] [Sha256] [ParquetReader]
  [SimulatorClient] [SerdeJson RunIdPreimage] [TableEncoders M T] [Build]
  (files : Files) (strategy : StrategySpec) (exit : E)
  (materialisation : Option SimulatorMaterialisation) (shared : SharedTapes)

/-- `open_and_run`. -/
def openAndRun (config : BacktestConfig) : Outcome (PopulatedRun M) := do
  let feed ← openFeed files materialisation shared config
  runSpecWithFeed S B config feed strategy exit

/-- `run_one`. -/
def runOne (config : BacktestConfig) : FsProgram M T RunSummary := do
  liftOutcome config.validate
  let run ← liftOutcome (openAndRun S B M files strategy exit materialisation shared config)
  let bundlePath ← writeBundle T run config strategy
  return {
    runId := bundlePath.fileName
    bundlePath := bundlePath.display
    tapeSha256 := run.dataIdentity
    terminalEquityCents := (run.equityCurve.getLast?.map EquityPoint.equityCents).getD .zero }

/-- How a run's result is recorded. -/
def BatchRunOutcome.of : Outcome RunSummary → BatchRunOutcome
  | .ok summary => .Ok summary.runId summary.bundlePath summary.tapeSha256
      summary.terminalEquityCents
  | .error error => .Error error.display

/-- `run_one_entry`: a failed run is an entry as well. -/
def runOneEntry (run : PlannedRun) : Prog (FsOp M T) FsAnswer BatchRunEntry := do
  let result ← (runOne S B M T files strategy exit materialisation shared run.config).run
  return {
    index := run.index
    engineSeed := run.config.seed
    dataSeed := dataSeedOf run.config
    outcome := .of result }

/-- The workers of a batch: each runs its chunk from front to back. -/
def workers (available : Nat) (planned : List PlannedRun) :
    List (Prog (FsOp M T) FsAnswer (List BatchRunEntry)) :=
  (chunks (divCeil planned.length (workerCount available planned.length)) planned).map fun chunk =>
    Prog.sequence (chunk.map (runOneEntry S B M T files strategy exit materialisation shared))

/-- What the join of the workers returns: their entries, sorted by index. -/
def joinEntries (collected : List (List BatchRunEntry)) : List BatchRunEntry :=
  collected.flatten.mergeSort fun a b => a.index.value ≤ b.index.value

/-- `fan_out`, its workers taking turns on the disk as the schedule says; nothing is returned
before all of them are done. -/
def fanOut (refuses : FsOp M T → Option String) (available : Nat) (planned : List PlannedRun)
    (schedule : List Nat) (disk : Disk M T) : Option (List BatchRunEntry) :=
  if planned.isEmpty then some []
  else
    let pool : Prog.Pool (FsOp M T) FsAnswer (List BatchRunEntry) BundlePath _ :=
      ⟨workers S B M T files strategy exit materialisation shared available planned, disk⟩
    (pool.play (FsOp.exec refuses) schedule).values?.map joinEntries

end Batch

end IronCondor
