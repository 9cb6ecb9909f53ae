import IronCondor.Bundle.Schema
import IronCondor.Lib.Interleave
import IronCondor.RunBacktest

/-! # The bundle writer

A bundle is built in a temporary sibling of its destination and renamed into place. The writer
is a program over a disk: every operation may be refused, and every refusal is a typed error. -/
namespace IronCondor

open Checked

/-- The three siblings a run identity names in its output directory: the published bundle, the
bundle being built, and the bundle being replaced. -/
inductive BundleSlot where
  | dest
  | temp
  | backup
deriving DecidableEq

structure BundlePath where
  outputDir : List String
  slot : BundleSlot
  runId : RunId
deriving DecidableEq

/-- The name of a sibling. -/
def BundlePath.fileName (path : BundlePath) : String :=
  match path.slot with
  | .dest => path.runId.hex
  | .temp => s!".{path.runId.hex}.partial"
  | .backup => s!".{path.runId.hex}.backup"

def BundlePath.display (path : BundlePath) : String :=
  "/".intercalate (path.outputDir ++ [path.fileName])

/-- The per-table row counts of a manifest. -/
structure RowCounts where
  fills : Nat
  equityCurve : Nat
  positions : Nat
  greeksAttribution : Nat
deriving DecidableEq

/-- The manifest, less its wall-clock stamp. -/
structure Manifest (M : Type) where
  schema : String
  runId : RunId
  codeVersion : String
  lockfileSha256 : String
  seed : Bounded u64
  config : BacktestConfig
  strategy : StrategySpec
  dataSource : DataSourceSpec
  metrics : M
  rowCounts : RowCounts

/-- A file of a bundle; `T` is an encoded table. -/
inductive BundleFile (M T : Type) where
  | fills (table : T)
  | equityCurve (table : T)
  | positions (table : T)
  | greeksAttribution (table : T)
  | manifest (record : Manifest M)

/-- The encoders of the four tables, with the number of rows each wrote. -/
class TableEncoders (M T : Type) where
  encodeFills : PopulatedRun M → RunId → Outcome (T × Nat)
  encodeEquity : PopulatedRun M → Outcome (T × Nat)
  encodePositions : PopulatedRun M → Outcome (T × Nat)
  encodeGreeks : PopulatedRun M → Outcome (T × Nat)

/-- The version of the crate and its lock file, both embedded when it is built. -/
class Build where
  codeVersion : String
  cargoLock : List UInt8

/-- What the writer asks of the operating system. -/
inductive FsOp (M T : Type) where
  | tryExists (path : BundlePath)
  | createDirAll (dir : List String)
  | createDir (path : BundlePath)
  | removeDirAll (path : BundlePath)
  | rename (source target : BundlePath)
  | writeFile (dir : BundlePath) (file : BundleFile M T)

/-- What it answers: a refusal, or success with the truth of what was asked. -/
abbrev FsAnswer := Except String Bool

/-- A disk holds the files of every directory that exists. -/
abbrev Disk (M T : Type) := BundlePath → Option (List (BundleFile M T))

/-- The effect of an operation. The output directory itself holds no files of its own. -/
def FsOp.effect {M T : Type} (disk : Disk M T) : FsOp M T → FsAnswer × Disk M T
  | .tryExists path => (.ok (disk path).isSome, disk)
  | .createDirAll _ => (.ok true, disk)
  | .createDir path =>
    if (disk path).isSome then (.error "File exists", disk)
    else (.ok true, Function.update disk path (some []))
  | .removeDirAll path =>
    if (disk path).isSome then (.ok true, Function.update disk path none)
    else (.error "No such file or directory", disk)
  | .rename source target =>
    match disk source, disk target with
    | none, _ => (.error "No such file or directory", disk)
    | some _, some (_ :: _) => (.error "Directory not empty", disk)
    | some files, _ => (.ok true, Function.update (Function.update disk target (some files))
        source none)
  | .writeFile dir file =>
    match disk dir with
    | none => (.error "No such file or directory", disk)
    | some files => (.ok true, Function.update disk dir (some (files ++ [file])))

/-- The operating system may refuse an operation, the same way whenever it is asked. -/
def FsOp.exec {M T : Type} (refuses : FsOp M T → Option String) (o : FsOp M T) (disk : Disk M T) :
    FsAnswer × Disk M T :=
  match refuses o with
  | some msg => (.error msg, disk)
  | none => o.effect disk

/-- A program of the writer, which may fail. -/
abbrev FsProgram (M T α : Type) := ExceptT BacktestError (Prog (FsOp M T) FsAnswer) α

/-- A failed operation, under its context. -/
def bundleErr (context error : String) : BacktestError := .Bundle s!"{context}: {error}"

section Writer

variable {M T α : Type}

/-- Ask an operation, whose refusal is an error under this context. -/
def fs (o : FsOp M T) (context : String) : FsProgram M T Bool := do
  match ← (Prog.ask o : Prog (FsOp M T) FsAnswer FsAnswer) with
  | .ok answer => return answer
  | .error error => throw (bundleErr context error)

/-- Ask an operation whose refusal is ignored. -/
def fsBestEffort (o : FsOp M T) : FsProgram M T Unit := do
  let _ ← (Prog.ask o : Prog (FsOp M T) FsAnswer FsAnswer)

/-- Run a clean-up before an error goes on. -/
def onError (p : FsProgram M T α) (cleanUp : BacktestError → FsProgram M T α) : FsProgram M T α :=
  tryCatch p cleanUp

def liftOutcome (r : Outcome α) : FsProgram M T α := ExceptT.mk (pure r)

variable [Sha256] [SerdeJson RunIdPreimage] [TableEncoders M T] [Build]

def bundleSchema : String := "ironcondor.bundle.v1"

def lockfileSha256 : String := toHex (Sha256.digest Build.cargoLock)

/-- `build_into`: the four tables, and the manifest last. -/
def buildInto (run : PopulatedRun M) (config : BacktestConfig) (strategy : StrategySpec)
    (runId : RunId) (temp : BundlePath) : FsProgram M T RowCounts := do
  let (fills, fillRows) ← liftOutcome (TableEncoders.encodeFills run runId)
  let _ ← fs (.writeFile temp (.fills fills)) "create parquet file"
  let (equity, equityRows) ← liftOutcome (TableEncoders.encodeEquity run)
  let _ ← fs (.writeFile temp (.equityCurve equity)) "create parquet file"
  let (positions, positionRows) ← liftOutcome (TableEncoders.encodePositions run)
  let _ ← fs (.writeFile temp (.positions positions)) "create parquet file"
  let (greeks, greeksRows) ← liftOutcome (TableEncoders.encodeGreeks run)
  let _ ← fs (.writeFile temp (.greeksAttribution greeks)) "create parquet file"
  let rowCounts : RowCounts := ⟨fillRows, equityRows, positionRows, greeksRows⟩
  let record : Manifest M :=
    { schema := bundleSchema
      runId
      codeVersion := Build.codeVersion
      lockfileSha256
      seed := config.seed
      config
      strategy
      dataSource := run.dataSource
      metrics := run.metrics
      rowCounts }
  let _ ← fs (.writeFile temp (.manifest record)) "write manifest.json"
  return rowCounts

/-- The renames of an overwrite: the published bundle is moved aside, and moved back when the new
one cannot take its place. -/
def swapBundle (dest temp backup : BundlePath) : FsProgram M T Unit := do
  let _ ← onError (fs (.rename dest backup) "move existing bundle aside to backup")
    fun error => do
      fsBestEffort (.removeDirAll temp)
      throw error
  let _ ← onError (fs (.rename temp dest)
      "atomic rename into place (existing bundle restored from backup)") fun error => do
    fsBestEffort (.rename backup dest)
    fsBestEffort (.removeDirAll temp)
    throw error
  fsBestEffort (.removeDirAll backup)

/-- The overwrite branch of `write_bundle`: what an interrupted overwrite left behind goes first. -/
def replaceBundle (dest temp backup : BundlePath) : FsProgram M T Unit := do
  if ← fs (.tryExists backup) "stat backup directory" then
    let _ ← fs (.removeDirAll backup) "remove stale backup directory"
  swapBundle dest temp backup

/-- The end of `write_bundle`: build the bundle, and move it into place. -/
def publishBundle (run : PopulatedRun M) (config : BacktestConfig) (strategy : StrategySpec)
    (runId : RunId) (destExists : Bool) (dest temp backup : BundlePath) : FsProgram M T Unit := do
  let _ ← fs (.createDir temp) "create temp directory"
  let _ ← onError (buildInto run config strategy runId temp) fun error => do
    fsBestEffort (.removeDirAll temp)
    throw error
  if destExists then replaceBundle dest temp backup
  else
    let _ ← onError (fs (.rename temp dest) "atomic rename into place") fun error => do
      fsBestEffort (.removeDirAll temp)
      throw error

/-- `write_bundle`. -/
def writeBundle (T : Type) [TableEncoders M T] (run : PopulatedRun M) (config : BacktestConfig)
    (strategy : StrategySpec) : FsProgram M T BundlePath := do
  let strategy := strategy.canonical
  let runId ← liftOutcome (RunId.derive config.seed config strategy run.dataIdentity
    Build.codeVersion lockfileSha256)
  let dest : BundlePath := ⟨config.outputDir, .dest, runId⟩
  let temp : BundlePath := ⟨config.outputDir, .temp, runId⟩
  let destExists ← fs (.tryExists dest) "stat destination"
  if destExists && !config.overwrite then
    throw (.Bundle (s!"bundle directory already exists: {dest.display} (set overwrite to " ++
      "replace the same run_id)"))
  let _ ← fs (.createDirAll config.outputDir) "create output directory"
  if ← fs (.tryExists temp) "stat temp directory" then
    let _ ← fs (.removeDirAll temp) "remove leftover temp"
  publishBundle run config strategy runId destExists dest temp ⟨config.outputDir, .backup, runId⟩
  return dest

end Writer

end IronCondor
