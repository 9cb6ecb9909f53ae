import IronCondor.Bundle.AtomicWrite
import IronCondor.Bundle.WireTables

/-! # Round trip of a run through its bundle

A run that is written is read back as itself: the writer publishes what the reader asks for, and
the reader hands on the rows of the run in the order they were written. -/
namespace IronCondor

open Checked ExceptRun OrderBook Prog
open FsProgram (attempt)

section Directory

variable {M T N : Type}

def BundleFile.fills? : BundleFile M T → Option T
  | .fills table => some table
  | _ => none

def BundleFile.equityCurve? : BundleFile M T → Option T
  | .equityCurve table => some table
  | _ => none

def BundleFile.positions? : BundleFile M T → Option T
  | .positions table => some table
  | _ => none

def BundleFile.greeksAttribution? : BundleFile M T → Option T
  | .greeksAttribution table => some table
  | _ => none

def BundleFile.manifest? : BundleFile M T → Option (Manifest M)
  | .manifest record => some record
  | _ => none

/-- What is stored under the name of a file. -/
def storedFile {C : Type} (pick : BundleFile M T → Option C) (files : List (BundleFile M T)) :
    Stored C :=
  match files.findSome? pick with
  | some content => .Regular content
  | none => .Missing "No such file or directory (os error 2)"

/-- The files of a directory as the reader opens them, the manifest under its JSON text. -/
def BundleDir.ofFiles (text : Manifest M → List UInt8) (files : List (BundleFile M T)) :
    BundleDir T where
  manifest := storedFile (fun file => file.manifest?.map text) files
  fills := storedFile BundleFile.fills? files
  equityCurve := storedFile BundleFile.equityCurve? files
  positions := storedFile BundleFile.positions? files
  greeksAttribution := storedFile BundleFile.greeksAttribution? files

/-- A manifest as it is read back, with its stamp and its metrics as JSON. -/
def Manifest.validated (record : Manifest M) (createdUtc : String) (metrics : Json N) :
    ValidatedManifest N where
  schema := record.schema
  runId := record.runId.hex
  createdUtc
  codeVersion := record.codeVersion
  lockfileSha256 := record.lockfileSha256
  seed := record.seed
  config := record.config
  strategy := record.strategy
  dataSource := record.dataSource
  metrics
  rowCounts := record.rowCounts

/-- The JSON text of a manifest is read as its fields, and those as the manifest. -/
def WritesManifest [ManifestSerde N] (text : List UInt8) (record : Manifest M)
    (createdUtc : String) (metrics : Json N) : Prop :=
  ∃ fields, ManifestSerde.fromSlice text = .ok (Json.object fields) ∧
    fields.lookup "schema" = some (.string record.schema) ∧
    (∀ field ∈ requiredManifestFields, (fields.lookup field).isSome = true) ∧
    ManifestSerde.fromValue (.object fields) = .ok (record.validated createdUtc metrics)

end Directory

section Build

variable {M T F N : Type} [RatioFloat F] [TableFormat T FillCells] [TableFormat T (EquityCells F)]
  [TableFormat T PositionCells] [TableFormat T GreeksCells] [Sha256] [Build]
  {run : PopulatedRun M} {config : BacktestConfig} {strategy : StrategySpec} {id : RunId}
  {counts : RowCounts} {limits : ResourceLimits}

/-- What a successful build encoded: the wire tables of the run, each with its count. -/
structure Encoded (T : Type) [TableFormat T FillCells] [TableFormat T (EquityCells F)]
    [TableFormat T PositionCells] [TableFormat T GreeksCells] (id : RunId) (run : PopulatedRun M)
    (counts : RowCounts) (tables : BundleTables F) (fills equity positions greeks : T) :
    Prop where
  wires : WiresRun id run tables
  fills : encodeTable fillsSchema FillRow.cells tables.fills = .ok (fills, counts.fills)
  equityCurve : encodeTable equitySchema EquityRow.cells tables.equityCurve =
    .ok (equity, counts.equityCurve)
  positions : encodeTable positionsSchema PositionRow.cells tables.positions =
    .ok (positions, counts.positions)
  greeksAttribution : encodeTable greeksSchema GreeksAttributionRow.cells
    tables.greeksAttribution = .ok (greeks, counts.greeksAttribution)

/-- A build that ends well wrote the wire tables of its run, and the manifest last. -/
theorem bundleFiles_eq_ok
    (h : (bundleFiles (T := T) run config strategy id).2 = .ok counts) :
    ∃ (tables : BundleTables F) (fills equity positions greeks : T),
      Encoded T id run counts tables fills equity positions greeks ∧
      (bundleFiles (T := T) run config strategy id).1.map Prod.fst =
        [.fills fills, .equityCurve equity, .positions positions, .greeksAttribution greeks,
          .manifest (bundleManifest run config strategy id counts)] := by
  unfold bundleFiles at h ⊢
  rcases hf : TableEncoders.encodeFills (T := T) run id with e | ⟨fills, n₁⟩
  · simp [hf] at h
  rcases he : TableEncoders.encodeEquity (T := T) run with e | ⟨equity, n₂⟩
  · simp [hf, he] at h
  rcases hp : TableEncoders.encodePositions (T := T) run with e | ⟨positions, n₃⟩
  · simp [hf, he, hp] at h
  rcases hg : TableEncoders.encodeGreeks (T := T) run with e | ⟨greeks, n₄⟩
  · simp [hf, he, hp, hg] at h
  · simp only [hf, he, hp, hg, Except.ok.injEq] at h
    subst h
    obtain ⟨fillRows, hfillRows, hfills⟩ := bind_ok_iff.1 hf
    obtain ⟨positionRows, hpositionRows, hpositions⟩ := bind_ok_iff.1 hp
    exact ⟨⟨fillRows, equityRows run.toBacktestRun, positionRows, greeksRows run⟩, fills, equity,
      positions, greeks, ⟨⟨hfillRows, rfl, hpositionRows, rfl⟩, hfills, he, hpositions, hg⟩, by simp⟩

end Build

section Published

variable {M T F N : Type} [RatioFloat F] [TableFormat T FillCells] [TableFormat T (EquityCells F)]
  [TableFormat T PositionCells] [TableFormat T GreeksCells] [ManifestSerde N] [Sha256] [Build]
  {run : PopulatedRun M} {config : BacktestConfig} {strategy : StrategySpec} {id : RunId}
  {counts : RowCounts} {limits : ResourceLimits} {files : Files} {n : Nat}
  {text : Manifest M → List UInt8} {createdUtc : String} {metrics : Json N}

/-- The table library loses nothing of any table. -/
structure LosslessFormats (T F : Type) [RatioFloat F] [TableFormat T FillCells]
    [TableFormat T (EquityCells F)] [TableFormat T PositionCells] [TableFormat T GreeksCells] :
    Prop where
  fills : Lossless T FillCells
  equityCurve : Lossless T (EquityCells F)
  positions : Lossless T PositionCells
  greeksAttribution : Lossless T GreeksCells

/-- Tables that the library writes within the byte ceiling. -/
structure FitsBytes (T : Type) [TableFormat T FillCells] [TableFormat T (EquityCells F)]
    [TableFormat T PositionCells] [TableFormat T GreeksCells] (limits : ResourceLimits)
    (tables : BundleTables F) : Prop where
  fillBytes : ∀ table n, encodeTable (T := T) fillsSchema FillRow.cells tables.fills =
    .ok (table, n) → TableFits FillCells limits table
  equityBytes : ∀ table n, encodeTable (T := T) equitySchema EquityRow.cells tables.equityCurve =
    .ok (table, n) → TableFits (EquityCells F) limits table
  positionBytes : ∀ table n, encodeTable (T := T) positionsSchema PositionRow.cells
    tables.positions = .ok (table, n) → TableFits PositionCells limits table
  greeksBytes : ∀ table n, encodeTable (T := T) greeksSchema GreeksAttributionRow.cells
    tables.greeksAttribution = .ok (table, n) → TableFits GreeksCells limits table

/-- A bundle of these tables and this manifest crosses no ceiling of the reader. -/
structure FitsCeilings (T : Type) [TableFormat T FillCells] [TableFormat T (EquityCells F)]
    [TableFormat T PositionCells] [TableFormat T GreeksCells] (limits : ResourceLimits)
    (text : List UInt8) (manifest : ValidatedManifest N) (tables : BundleTables F) : Prop
    extends FitsBytes T limits tables where
  manifestBytes : (text.length : Int) ≤ limits.maxManifestBytes.value
  manifestStrings : ∀ s ∈ manifest.strings, ShortString limits s
  fillStrings : ∀ row ∈ tables.fills, ∀ s ∈ row.strings, ShortString limits s
  positionStrings : ∀ row ∈ tables.positions, ∀ s ∈ row.strings, ShortString limits s
  fillCount : (tables.fills.length : Int) ≤ limits.maxRowsPerTable.value
  equityCount : (tables.equityCurve.length : Int) ≤ limits.maxRowsPerTable.value
  positionCount : (tables.positions.length : Int) ≤ limits.maxRowsPerTable.value
  greeksCount : (tables.greeksAttribution.length : Int) ≤ limits.maxRowsPerTable.value

/-- What a build writes of a run is a bundle of the run, within the ceilings. -/
theorem bundleFiles_stores (hformats : LosslessFormats T F)
    (hmanifest : WritesManifest (text (bundleManifest run config strategy id counts))
      (bundleManifest run config strategy id counts) createdUtc metrics)
    (hrun : RunTables n run.toBacktestRun run.greeksAttribution)
    (hinput : InputUnchanged files limits run.dataSource)
    (hbuild : (bundleFiles (T := T) run config strategy id).2 = .ok counts)
    (hfits : ∀ tables : BundleTables F, WiresRun id run tables →
      FitsCeilings T limits (text (bundleManifest run config strategy id counts))
        ((bundleManifest run config strategy id counts).validated createdUtc metrics) tables) :
    ∃ tables : BundleTables F, WiresRun id run tables ∧
      (BundleDir.ofFiles text ((bundleFiles (T := T) run config strategy id).1.map
        Prod.fst)).Stores files limits
          ((bundleManifest run config strategy id counts).validated createdUtc metrics) tables := by
  obtain ⟨tables, fills, equity, positions, greeks, hencoded, hfiles⟩ :=
    bundleFiles_eq_ok (F := F) hbuild
  have hwires := hencoded.wires
  have hfit := hfits tables hwires
  rw [hfiles]
  have hfillRows : ∀ row ∈ tables.fills, row.Readable limits := fun row hrow => by
    obtain ⟨record, hrecord, hwire⟩ := hwires.fill_mem hrow
    exact FillRow.readable (hfit.fillStrings row hrow)
      (hwire.feesCents ▸ hrun.fillFees record hrecord)
  have hpositionRows : ∀ row ∈ tables.positions, row.Readable limits := fun row hrow =>
    PositionRow.readable (hfit.positionStrings row hrow)
  have hgreeksRows : ∀ row ∈ tables.greeksAttribution, 0 ≤ row.feesCents.value := fun row hrow =>
    hrun.rowFees row (hwires.greeks_perm.mem_iff.1 hrow)
  obtain ⟨hfillCount, hfillTable⟩ : counts.fills = tables.fills.length ∧
      (Stored.Regular fills).Holds fillsSchema limits (HoldsFill limits) tables.fills :=
    encodeTable_holds hformats.fills hencoded.fills (fun row hrow c hc => ⟨hc, hfillRows row hrow⟩)
      (hfit.fillBytes _ _ hencoded.fills) hfit.fillCount
  obtain ⟨hequityCount, hequityTable⟩ : counts.equityCurve = tables.equityCurve.length ∧
      (Stored.Regular equity).Holds equitySchema limits HoldsEquity tables.equityCurve :=
    encodeTable_holds hformats.equityCurve hencoded.equityCurve (fun row _ c hc => hc)
      (hfit.equityBytes _ _ hencoded.equityCurve) hfit.equityCount
  obtain ⟨hpositionCount, hpositionTable⟩ : counts.positions = tables.positions.length ∧
      (Stored.Regular positions).Holds positionsSchema limits (HoldsPosition limits)
        tables.positions :=
    encodeTable_holds hformats.positions hencoded.positions
      (fun row hrow c hc => ⟨hc, hpositionRows row hrow⟩)
      (hfit.positionBytes _ _ hencoded.positions) hfit.positionCount
  obtain ⟨hgreeksCount, hgreeksTable⟩ :
      counts.greeksAttribution = tables.greeksAttribution.length ∧
      (Stored.Regular greeks).Holds greeksSchema limits HoldsGreeks tables.greeksAttribution :=
    encodeTable_holds hformats.greeksAttribution hencoded.greeksAttribution
      (fun row hrow c hc => ⟨hc, hgreeksRows row hrow⟩)
      (hfit.greeksBytes _ _ hencoded.greeksAttribution) hfit.greeksCount
  obtain rfl : counts = tables.counts := by
    cases counts
    simp_all [BundleTables.counts]
  have hcells : ∀ row ∈ tables.equityCurve, ∃ cells, row.cells = .ok cells := fun row hrow => by
    obtain ⟨-, _, _, -, -, -, -, -, hcells⟩ :=
      encodeTable_cells hformats.equityCurve hencoded.equityCurve
    obtain ⟨cells, -, hok⟩ := Pointwise.exists_right hcells hrow
    exact ⟨cells, hok⟩
  obtain ⟨fields, hparse, hschema, hrequired, hvalue⟩ := hmanifest
  refine ⟨tables, hwires, ⟨⟨_, fields, rfl, hfit.manifestBytes, hparse, hschema, hrequired,
    hvalue⟩, hfit.manifestStrings⟩, ⟨hfillTable, hequityTable, hpositionTable, hgreeksTable⟩, rfl,
    hinput, fun row hrow => ?_, fun row hrow => ?_,
    hwires.wellFormed hrun (hwires.stepCount hrun hcells)⟩
  · obtain ⟨record, -, hwire⟩ := hwires.fill_mem hrow
    exact ⟨hwire.canonical, hwire.strategyRunId⟩
  · obtain ⟨snapshot, -, hwire⟩ := hwires.position_mem hrow
    exact hwire.canonical

end Published

section Run

variable {S R E M B T F N : Type} [DecimalArith] [DecimalSums] [Strategy S R] [SeedableRng R]
  [StrategyFactory S E] [SummaryMetrics M] [Book B ObOrderId] [Sha256] [ParquetReader]
  {files : Files} {config : BacktestConfig} {strategy : StrategySpec} {exit : E}
  {run : PopulatedRun M}

omit [StrategyFactory S E] [Sha256] [ParquetReader] in
/-- A run carries the source of its feed. -/
theorem runWithFeed_dataSource {feed : MaterialisedFeed} {script : S} {strategyName : String}
    (h : (runWithFeed B config feed.toFeed script strategyName : Outcome (PopulatedRun M)) =
      .ok run) : run.dataSource = feed.source := by
  simp only [runWithFeed, bind_ok_iff, pure_ok_iff] at h
  obtain ⟨_, -, out, hmode, _, -, _, -, _, -, rfl⟩ := h
  unfold runMode at hmode
  split at hmode
  · obtain ⟨_, _, _, -, -, rfl⟩ := Setup.play_of_run (r := .naive config feed script) hmode
    rfl
  · obtain ⟨_, _, _, -, -, rfl⟩ := Setup.play_of_run (r := .realistic B config feed script) hmode
    rfl

/-- A single run reads one Parquet file within the ceiling of its configuration, plays the tape of
these bytes, and records their hash. -/
theorem runBacktest_eq_ok
    (h : (runBacktest S B files config strategy exit : Outcome (PopulatedRun M)) = .ok run) :
    ∃ (feed : MaterialisedFeed) (script : S) (path : String) (bytes : List UInt8),
      (runWithFeed B config feed.toFeed script strategy.kind : Outcome (PopulatedRun M)) =
        .ok run ∧
      files path = .Regular bytes ∧ (bytes.length : Int) ≤ config.limits.maxFileBytes.value ∧
      run.dataSource = .Parquet path (toHex (Sha256.digest bytes)) := by
  simp only [runBacktest, bind_ok_iff] at h
  obtain ⟨feed, hfeed, h⟩ := h
  obtain ⟨_, -, hfeed⟩ := bind_ok_iff.1 hfeed
  split at hfeed
  · rename_i path sha256 hsource
    simp only [bind_ok_iff, pure_ok_iff] at hfeed
    obtain ⟨tape, hopen, rfl⟩ := hfeed
    obtain ⟨-, hidentity, -⟩ := ParquetFeed.open_eq_ok hopen
    unfold ParquetFeed.open at hopen
    split at hopen
    · cases hopen
    · cases hopen
    · rename_i bytes hbytes
      simp only [bind_ok_iff, require_eq_ok, pure_ok_iff] at hopen
      obtain ⟨_, hlen, snapshots, -, tapeMeta, hmeta, rfl⟩ := hopen
      have haccepted : TapeMeta.fromTape tapeMeta.dataIdentity snapshots = .ok tapeMeta := by
        rwa [hidentity]
      let feed : MaterialisedFeed :=
        { tapeMeta, source := .Parquet path (toHex (Sha256.digest bytes)), tape := snapshots
          accepted := haccepted }
      have hscript : ∃ script : S,
          (runWithFeed B config feed.toFeed script strategy.kind : Outcome (PopulatedRun M)) =
            .ok run := by
        unfold runSpecWithFeed at h
        split at h <;> obtain ⟨script, -, hrun⟩ := bind_ok_iff.1 h <;> exact ⟨script, hrun⟩
      obtain ⟨script, hrun⟩ := hscript
      exact ⟨feed, script, path, bytes, hrun, hbytes, hlen, runWithFeed_dataSource hrun⟩
  · cases hfeed

/-- The input of a run passes the check of a reader that reads as much of it. -/
theorem inputUnchanged_of_run {limits : ResourceLimits}
    (h : (runBacktest S B files config strategy exit : Outcome (PopulatedRun M)) = .ok run)
    (hlimit : config.limits.maxFileBytes.value ≤ limits.maxFileBytes.value) :
    InputUnchanged files limits run.dataSource := by
  obtain ⟨_, _, path, bytes, -, hbytes, hlen, hsource⟩ := runBacktest_eq_ok h
  rw [hsource]
  rintro _ _ bytes' ⟨⟩ - hbytes'
  cases hbytes.symm.trans hbytes'
  rw [fileSha256Bounded, List.take_of_length_le]
  omega

variable [RatioFloat F] [TableFormat T FillCells] [TableFormat T (EquityCells F)]
  [TableFormat T PositionCells] [TableFormat T GreeksCells] [ManifestSerde N] [Build]
  [SerdeJson RunIdPreimage] {id : RunId} {counts : RowCounts} {limits : ResourceLimits}
  {text : Manifest M → List UInt8} {createdUtc : String} {metrics : Json N} {disk : Disk M T}

/-- A run that is written is read back as itself. A writer that may publish and is not struck
publishes a bundle that the reader accepts, as long as it lies within the ceilings it is read
under, and every row of the run comes back in the order it was written. -/
theorem run_reads_back (hformats : LosslessFormats T F)
    (hrun : (runBacktest S B files config strategy exit : Outcome (PopulatedRun M)) = .ok run)
    (hid : RunId.derive config.seed config strategy.canonical run.dataIdentity Build.codeVersion
      lockfileSha256 = .ok id)
    (hproceeds : (disk (config.path .dest id)).isSome → config.overwrite)
    (hbuild : (bundleFiles (T := T) run config strategy.canonical id).2 = .ok counts)
    (hmanifest : WritesManifest
      (text (bundleManifest run config strategy.canonical id counts))
      (bundleManifest run config strategy.canonical id counts) createdUtc metrics)
    (hlimit : config.limits.maxFileBytes.value ≤ limits.maxFileBytes.value)
    (hfits : ∀ tables : BundleTables F, WiresRun id run tables →
      FitsCeilings T limits (text (bundleManifest run config strategy.canonical id counts))
        ((bundleManifest run config strategy.canonical id counts).validated createdUtc metrics)
        tables) :
    ∃ (m : FsMachine M T) (published : List (BundleFile M T)) (tables : BundleTables F),
      attempt (writeBundle T run config strategy) (FsFault.machine none disk []) =
        (some (.ok (config.path .dest id)), m) ∧
      m.store (config.path .dest id) = some published ∧ WiresRun id run tables ∧
      readBundle (BundleDir.ofFiles text published) files limits =
        .ok { tables with
          manifest := (bundleManifest run config strategy.canonical id counts).validated
            createdUtc metrics } := by
  obtain ⟨feed, script, _, _, hplay, -⟩ := runBacktest_eq_ok hrun
  obtain ⟨tables, hwires, hstores⟩ := bundleFiles_stores hformats hmanifest
    (runWithFeed_tables hplay) (inputUnchanged_of_run hrun hlimit) hbuild hfits
  obtain ⟨m, hdone, hstore⟩ := writeBundle_stores hid hproceeds hbuild
  have hread := hstores.readBundle
  rw [hwires.sorted] at hread
  exact ⟨m, _, tables, hdone, hstore, hwires, hread⟩

end Run

end IronCondor
