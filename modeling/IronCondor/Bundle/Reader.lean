import IronCondor.Bundle.Tables

/-! # The bundle reader

A bundle that is handed back is untrusted. The reader checks the manifest, decodes the four tables
under the ceilings of the limits, checks their rows, sorts them, and checks what sorting could hide.
Every file may be missing, special or unreadable, and every upstream call may fail or panic. -/
namespace IronCondor

open Checked

/-- What the operating system answers for a file of a bundle. -/
inductive Stored (C : Type) where
  | Missing (msg : String)
  | Special
  | Unreadable (len : Nat) (msg : String)
  | Regular (content : C)

/-- A directory that is read as a bundle. -/
structure BundleDir (T : Type) where
  manifest : Stored (List UInt8)
  fills : Stored T
  equityCurve : Stored T
  positions : Stored T
  greeksAttribution : Stored T

section Ceilings

/-- `check_string_len`, on the bytes of a string. -/
def checkStringLen (s : String) (limits : ResourceLimits) : Outcome Unit :=
  require ((s.utf8ByteSize : Int) ≤ limits.maxStringLen.value)
    (.TapeTooLarge "max_string_len" s.utf8ByteSize limits.maxStringLen.value)

@[simp] theorem checkStringLen_eq_ok {s : String} {limits : ResourceLimits} {u : Unit} :
    checkStringLen s limits = .ok u ↔ (s.utf8ByteSize : Int) ≤ limits.maxStringLen.value :=
  require_eq_ok

/-- A number of rows under its ceiling. -/
def checkRows (rows : Bounded u64) (limits : ResourceLimits) : Outcome Unit :=
  require (rows.value ≤ limits.maxRowsPerTable.value)
    (.TapeTooLarge "max_rows_per_table" rows.value limits.maxRowsPerTable.value)

/-- A number of bytes under its ceiling. -/
def checkBytes (bytes : Bounded u64) (limits : ResourceLimits) : Outcome Unit :=
  require (bytes.value ≤ limits.maxDecompressedBytes.value)
    (.TapeTooLarge "max_decompressed_bytes" bytes.value limits.maxDecompressedBytes.value)

end Ceilings

section Manifest

/-- A JSON value; `N` is its numbers. -/
inductive Json (N : Type) where
  | null
  | bool (b : Bool)
  | number (n : N)
  | string (s : String)
  | array (items : List (Json N))
  | object (fields : List (String × Json N))

namespace Json

variable {N : Type}

def asObject : Json N → Option (List (String × Json N))
  | object fields => some fields
  | _ => none

def asStr : Json N → Option String
  | string s => some s
  | _ => none

end Json

/-- The manifest of a bundle that was read; the metrics stay as they are. -/
structure ValidatedManifest (N : Type) where
  schema : String
  runId : String
  createdUtc : String
  codeVersion : String
  lockfileSha256 : String
  seed : Bounded u64
  config : BacktestConfig
  strategy : StrategySpec
  dataSource : DataSourceSpec
  metrics : Json N
  rowCounts : RowCounts

/-- The upstream JSON decoding of a manifest: of its text, and of its fields. -/
class ManifestSerde (N : outParam Type) where
  fromSlice : List UInt8 → Except String (Json N)
  fromValue : Json N → Except String (ValidatedManifest N)

/-- `REQUIRED_MANIFEST_FIELDS`. -/
def requiredManifestFields : List String :=
  ["schema", "run_id", "created_utc", "code_version", "lockfile_sha256", "seed", "config",
    "strategy", "data_source", "metrics", "row_counts"]

/-- `data_source_strings`. -/
def dataSourceStrings : DataSourceSpec → List String
  | .Csv path sha256 => [path, sha256]
  | .Parquet path sha256 => [path, sha256]
  | .Simulator spec => [spec.baseUrl, spec.tapeSha256]

/-- The strings of a manifest that are bounded. -/
def ValidatedManifest.strings {N : Type} (manifest : ValidatedManifest N) : List String :=
  [manifest.schema, manifest.runId, manifest.createdUtc, manifest.codeVersion,
    manifest.lockfileSha256] ++ dataSourceStrings manifest.dataSource

/-- A manifest under its size ceiling. -/
def checkManifestBytes (len : Nat) (limits : ResourceLimits) : Outcome Unit :=
  require ((len : Int) ≤ limits.maxManifestBytes.value)
    (.TapeTooLarge "max_manifest_bytes" len limits.maxManifestBytes.value)

/-- The parsed text of a manifest: the schema tag first, then its fields. -/
def parseManifest {N : Type} [ManifestSerde N] (text : List UInt8) (limits : ResourceLimits) :
    Outcome (ValidatedManifest N) := do
  let value ← upstream "parse manifest.json" (ManifestSerde.fromSlice text)
  let obj ← okOr value.asObject (.Bundle "manifest.json is not a JSON object")
  let schemaTag ← okOr ((obj.lookup "schema").bind Json.asStr)
    (.Bundle "manifest.json has no string schema tag")
  require (schemaTag = bundleSchema) (.Bundle
    s!"unknown bundle schema tag {schemaTag.quote}, expected {bundleSchema.quote}")
  requiredManifestFields.forM fun field =>
    require ((obj.lookup field).isSome = true)
      (.Bundle s!"manifest.json is missing required field {field}")
  let manifest ← upstream "validate manifest fields" (ManifestSerde.fromValue value)
  manifest.strings.forM fun s => checkStringLen s limits
  return manifest

/-- `read_manifest`. -/
def readManifest {N : Type} [ManifestSerde N] (stored : Stored (List UInt8))
    (limits : ResourceLimits) : Outcome (ValidatedManifest N) :=
  match stored with
  | .Missing msg => .error (bundleErr "stat manifest.json" msg)
  | .Special => .error (.Bundle "bundle manifest.json is not a regular file")
  | .Unreadable len msg => do
    checkManifestBytes len limits
    .error (bundleErr "open manifest.json" msg)
  | .Regular bytes => do
    checkManifestBytes bytes.length limits
    parseManifest (bytes.take limits.maxManifestBytes.value.toNat) limits

end Manifest

section Cells

variable {F : Type} [RatioFloat F]

/-- `null_err`. -/
def nullErr (column : String) (row : Nat) : BacktestError :=
  .Bundle s!"null value in required column {column} at row {row}"

/-- `i64_cell`, `bool_cell` and what the other cell readers begin with. -/
def requiredCell {α : Type} (cell : Option α) (row : Nat) (column : String) : Outcome α :=
  okOr cell (nullErr column row)

/-- `u32_from_i32`. -/
def u32FromI32 (cell : Option (Bounded i32)) (row : Nat) (column : String) :
    Outcome (Bounded u32) := do
  let value ← requiredCell cell row column
  narrow u32 (.Bundle s!"column {column} has a negative value {value.value} at row {row}")
    value.value

/-- `u64_from_i64`. -/
def u64FromI64 (cell : Option (Bounded i64)) (row : Nat) (column : String) :
    Outcome (Bounded u64) := do
  let value ← requiredCell cell row column
  narrow u64 (.Bundle s!"column {column} has a negative value {value.value} at row {row}")
    value.value

/-- `nonneg_i64_cell`. -/
def nonnegI64Cell (cell : Option (Bounded i64)) (row : Nat) (column : String) :
    Outcome (Bounded i64) := do
  let value ← requiredCell cell row column
  require (0 ≤ value.value)
    (.Bundle s!"column {column} must be non-negative, got {value.value} at row {row}")
  return value

/-- `finite_f64_cell`. -/
def finiteF64Cell (cell : Option F) (row : Nat) (column : String) : Outcome F := do
  let value ← requiredCell cell row column
  require (RatioFloat.isFinite value = true)
    (.Bundle s!"column {column} is not finite ({RatioFloat.display value}) at row {row}")
  return value

variable (limits : ResourceLimits)

/-- `string_cell`. -/
def stringCell (cell : Option String) (row : Nat) (column : String) : Outcome String := do
  let value ← requiredCell cell row column
  checkStringLen value limits
  return value

/-- `opt_string_cell`. -/
def optStringCell (cell : Option String) (row : Nat) (column : String) :
    Outcome (Option String) :=
  match cell with
  | none => return none
  | some _ => do
    let value ← stringCell limits cell row column
    return some value

end Cells

section Rows

variable {F : Type} [RatioFloat F] (limits : ResourceLimits)

/-- One row of `decode_fills_batch`. -/
def decodeFill (cells : FillCells) (row : Nat) : Outcome FillRow := do
  let step ← u32FromI32 cells.step row "step"
  let tsNs ← requiredCell cells.tsNs row "ts_ns"
  let strategyRunId ← stringCell limits cells.strategyRunId row "strategy_run_id"
  let tradeId ← u64FromI64 cells.tradeId row "trade_id"
  let positionId ← u64FromI64 cells.positionId row "position_id"
  let orderId ← u64FromI64 cells.orderId row "order_id"
  let fillSeq ← u32FromI32 cells.fillSeq row "fill_seq"
  let underlying ← stringCell limits cells.underlying row "underlying"
  let expirationNs ← requiredCell cells.expirationNs row "expiration_ns"
  let contractId ← stringCell limits cells.contractId row "contract_id"
  let strikeCents ← u64FromI64 cells.strikeCents row "strike_cents"
  let style ← stringCell limits cells.style row "style"
  let side ← stringCell limits cells.side row "side"
  let quantity ← u32FromI32 cells.quantity row "quantity"
  let priceCents ← u64FromI64 cells.priceCents row "price_cents"
  let feesCents ← nonnegI64Cell cells.feesCents row "fees_cents"
  let slippageCents ← requiredCell cells.slippageCents row "slippage_cents"
  let mode ← stringCell limits cells.mode row "mode"
  return {
    step, tsNs, strategyRunId, tradeId, positionId, orderId, fillSeq, underlying, expirationNs
    contractId, strikeCents, style, side, quantity, priceCents, feesCents, slippageCents, mode }

/-- One row of `decode_equity_batch`. -/
def decodeEquity (cells : EquityCells F) (row : Nat) : Outcome (EquityRow F) := do
  let step ← u32FromI32 cells.step row "step"
  let tsNs ← requiredCell cells.tsNs row "ts_ns"
  let cashCents ← requiredCell cells.cashCents row "cash_cents"
  let positionValueCents ← requiredCell cells.positionValueCents row "position_value_cents"
  let equityCents ← requiredCell cells.equityCents row "equity_cents"
  let drawdown ← finiteF64Cell cells.drawdown row "drawdown"
  return { step, tsNs, cashCents, positionValueCents, equityCents, drawdown }

/-- One row of `decode_positions_batch`. -/
def decodePosition (cells : PositionCells) (row : Nat) : Outcome PositionRow := do
  let step ← u32FromI32 cells.step row "step"
  let tsNs ← requiredCell cells.tsNs row "ts_ns"
  let positionId ← u64FromI64 cells.positionId row "position_id"
  let tradeId ← u64FromI64 cells.tradeId row "trade_id"
  let contractId ← stringCell limits cells.contractId row "contract_id"
  let side ← stringCell limits cells.side row "side"
  let quantity ← u32FromI32 cells.quantity row "quantity"
  let avgPriceCents ← u64FromI64 cells.avgPriceCents row "avg_price_cents"
  let markCents ← u64FromI64 cells.markCents row "mark_cents"
  let unrealizedCents ← requiredCell cells.unrealizedCents row "unrealized_cents"
  let staleMark ← requiredCell cells.staleMark row "stale_mark"
  let exitReason ← optStringCell limits cells.exitReason row "exit_reason"
  let openAtEnd ← requiredCell cells.openAtEnd row "open_at_end"
  return {
    step, tsNs, positionId, tradeId, contractId, side, quantity, avgPriceCents, markCents
    unrealizedCents, staleMark, exitReason, openAtEnd }

/-- One row of `decode_greeks_batch`. -/
def decodeGreeks (cells : GreeksCells) (row : Nat) : Outcome GreeksAttributionRow := do
  let step ← u32FromI32 cells.step row "step"
  let ts ← requiredCell cells.tsNs row "ts_ns"
  let thetaPnlCents ← requiredCell cells.thetaPnlCents row "theta_pnl_cents"
  let deltaPnlCents ← requiredCell cells.deltaPnlCents row "delta_pnl_cents"
  let vegaPnlCents ← requiredCell cells.vegaPnlCents row "vega_pnl_cents"
  let spreadCaptureCents ← requiredCell cells.spreadCaptureCents row "spread_capture_cents"
  let feesCents ← nonnegI64Cell cells.feesCents row "fees_cents"
  let residualCents ← requiredCell cells.residualCents row "residual_cents"
  return {
    step, ts, thetaPnlCents, deltaPnlCents, vegaPnlCents, spreadCaptureCents, feesCents
    residualCents }

end Rows

section Tables

variable {T Row Cells : Type}

/-- `guard_bundle_parquet`: a panic of the upstream library is contained. -/
def guardBundleParquet {α : Type} (table op : String) : Upstream α → Outcome (Except String α)
  | .returned result => .ok result
  | .panicked payload => .error (.Bundle
      (s!"{table}.parquet {op} panicked inside arrow/parquet and was contained by the #52 " ++
        s!"backstop: {payload}"))

/-- The schema check of `validate_schema`, table by table. -/
def validateTableSchema (table : String) (schema expected : List ColumnField) : Outcome Unit := do
  require (schema.length = expected.length) (.Bundle
    s!"{table}.parquet has {schema.length} columns, expected exactly {expected.length}")
  expected.forM fun want => do
    let field ← okOr (schema.find? fun field => field.name = want.name)
      (.Bundle s!"{table}.parquet is missing required column {want.name}")
    require (field.dataType = want.dataType) (.Bundle
      (s!"{table}.parquet column {want.name} has type {field.dataType.debug}, expected " ++
        want.dataType.debug))
    require (field.nullable = want.nullable) (.Bundle
      (s!"{table}.parquet column {want.name} nullability {field.nullable} does not match the " ++
        s!"expected {want.nullable}"))

/-- The bytes the footer declares, each chunk checked for offsets the decoder would trip on. -/
def declaredTableBytes (table : String) (declared : Bounded u64) (group : RowGroup) :
    Outcome (Bounded u64) := do
  group.columns.forM fun column =>
    require (0 ≤ column.compressedSize ∧ 0 ≤ column.dataPageOffset ∧
      column.dictionaryPageOffset.all (0 ≤ ·)) (.Bundle
        (s!"{table}.parquet column chunk declares a negative offset or size " ++
          "(would trip byte_range)"))
  let size ← narrow u64 (.Bundle s!"{table}.parquet row group reports a negative byte size")
    group.totalByteSize
  checked u64 (declared.value + size.value)

/-- The variables of the decoding loop. -/
structure TableLoop (Row : Type) where
  out : List Row
  decodedRows : Bounded u64
  decodedBytes : Bounded u64

/-- One batch: its rows and its memory are counted first, then its rows are decoded. -/
def TableLoop.readBatch (table : String) (limits : ResourceLimits)
    (decodeRow : Cells → Nat → Outcome Row) (loop : TableLoop Row)
    (decoded : Upstream (TableBatch Cells)) : Outcome (TableLoop Row) := do
  let batch ← guardBundleParquet table "row-group decode" decoded
  let batch ← upstream s!"decode {table}.parquet row group" batch
  let rows ← checked u64 (batch.rows.length : Nat)
  let decodedRows ← checked u64 (loop.decodedRows.value + rows.value)
  checkRows decodedRows limits
  let batchBytes ← checked u64 (batch.arrayMemorySize : Nat)
  let decodedBytes ← checked u64 (loop.decodedBytes.value + batchBytes.value)
  checkBytes decodedBytes limits
  let added ← batch.rows.zipIdx.mapM fun entry => decodeRow entry.1 entry.2
  return ⟨loop.out ++ added, decodedRows, decodedBytes⟩

/-- A table whose footer was read. -/
def decodeFile (table : String) (expected : List ColumnField) (limits : ResourceLimits)
    (decodeRow : Cells → Nat → Outcome Row) (file : TableFile Cells) : Outcome (List Row) := do
  let declaredRows ← narrow u64 (.Bundle s!"{table}.parquet declares a negative row count")
    file.numRows
  checkRows declaredRows limits
  let declared ← file.rowGroups.foldlM (declaredTableBytes table) ⟨0, u64.contains_zero⟩
  checkBytes declared limits
  validateTableSchema table file.schema expected
  let batches ← guardBundleParquet table "reader build" file.batches
  let batches ← upstream s!"build {table}.parquet reader" batches
  let loop ← batches.foldlM (TableLoop.readBatch table limits decodeRow)
    ⟨[], ⟨0, u64.contains_zero⟩, ⟨0, u64.contains_zero⟩⟩
  return loop.out

/-- `decode_table`. -/
def decodeTable [TableFormat T Cells] (table : String) (expected : List ColumnField)
    (limits : ResourceLimits) (decodeRow : Cells → Nat → Outcome Row) (stored : Stored T) :
    Outcome (List Row) :=
  match stored with
  | .Missing msg => .error (bundleErr s!"stat {table}.parquet" msg)
  | .Special => .error (.Bundle s!"bundle table {table}.parquet is not a regular file")
  | .Unreadable _ msg => .error (bundleErr s!"open {table}.parquet" msg)
  | .Regular content => do
    let file ← guardBundleParquet table "metadata read" (@TableFormat.read T Cells _ content)
    let file ← upstream s!"read {table}.parquet metadata (truncated or corrupt footer)" file
    decodeFile table expected limits decodeRow file

end Tables

section Checks

/-- `check_count`. -/
def checkCount (table : String) (decoded expected : Nat) : Outcome Unit :=
  require (decoded = expected)
    (.Bundle s!"row_counts.{table} = {expected} but {decoded} rows decoded")

/-- `file_sha256_bounded`: the hash of the first `max_bytes` bytes. -/
def fileSha256Bounded [Sha256] (bytes : List UInt8) (maxBytes : Bounded u64) : String :=
  toHex (Sha256.digest (bytes.take maxBytes.value.toNat))

/-- `verify_referenced_input`. -/
def verifyReferencedInput [Sha256] (files : Files) (spec : DataSourceSpec)
    (limits : ResourceLimits) (missingIsError : Bool) : Outcome Unit :=
  match spec with
  | .Csv _ _ => return ()
  | .Simulator _ => return ()
  | .Parquet path recorded =>
    if recorded = "" then return ()
    else match files path with
      | .Missing msg =>
        if missingIsError then .error (bundleErr s!"referenced input {path} is unreachable" msg)
        else return ()
      | .Special =>
        if missingIsError then .error (.Bundle s!"referenced input {path} is not a regular file")
        else return ()
      | .Regular bytes =>
        let recomputed := fileSha256Bounded bytes limits.maxFileBytes
        require (recomputed = recorded) (.Bundle
          (s!"referenced input {path} sha256 mismatch: recorded {recorded}, recomputed " ++
            recomputed))

/-- One row of the scan for a repeated key, which is next to the one it repeats. -/
def checkNextKey {Row κ : Type} [DecidableEq κ] (key : Row → κ) (duplicate : κ → String)
    (prev : Option κ) (row : Row) : Outcome (Option κ) := do
  require (prev ≠ some (key row)) (.Bundle (duplicate (key row)))
  return some (key row)

/-- The scan of sorted rows for a repeated key. -/
def validateUniqueKeys {Row κ : Type} [DecidableEq κ] (key : Row → κ) (duplicate : κ → String)
    (rows : List Row) : Outcome Unit := do
  let _ ← rows.foldlM (checkNextKey key duplicate) none

/-- `validate_unique_fill_keys`. -/
def validateUniqueFillKeys (fills : List FillRow) : Outcome Unit :=
  validateUniqueKeys fillSortKey (fun key =>
    s!"fills.parquet has a duplicate (step, order_id, fill_seq) key: ({key.step.value}, " ++
      s!"{key.orderId.value}, {key.fillSeq.value})") fills

/-- `validate_unique_position_keys`. -/
def validateUniquePositionKeys (positions : List PositionRow) : Outcome Unit :=
  validateUniqueKeys positionSortKey (fun key =>
    s!"positions.parquet has a duplicate (step, position_id) key: ({key.step.value}, " ++
      s!"{key.positionId.value})") positions

/-- `validate_contiguous_steps`. -/
def validateContiguousSteps (table : String) (steps : List StepIndex) : Outcome Unit :=
  steps.zipIdx.forM fun entry => do
    let expected ← checked u32 (entry.2 : Nat)
    require (entry.1 = expected) (.Bundle
      (s!"{table}.parquet steps are not contiguous from 0: expected step {expected.value}, " ++
        s!"got {entry.1.value}"))

/-- The last row of a table lies within the run. -/
def validateLastStep (table : String) (stepCount : Bounded u32) (last : Option StepIndex) :
    Outcome Unit :=
  match last with
  | some step => require (step.value < stepCount.value) (.Bundle
      s!"{table}.parquet references step {step.value} beyond the {stepCount.value}-step run")
  | none => return ()

/-- `validate_cross_table_step_consistency`. -/
def validateCrossTableStepConsistency {F : Type} (fills : List FillRow)
    (positions : List PositionRow) (equityCurve : List (EquityRow F))
    (greeksAttribution : List GreeksAttributionRow) : Outcome Unit := do
  require (equityCurve.length = greeksAttribution.length) (.Bundle
    (s!"per-step tables disagree on step count: equity_curve has {equityCurve.length} rows, " ++
      s!"greeks_attribution has {greeksAttribution.length}"))
  let stepCount ← checked u32 (equityCurve.length : Nat)
  validateLastStep "fills" stepCount (fills.getLast?.map FillRow.step)
  validateLastStep "positions" stepCount (positions.getLast?.map PositionRow.step)

end Checks

/-- The four tables as they are decoded, in the order of their files. -/
structure BundleTables (F : Type) where
  fills : List FillRow
  equityCurve : List (EquityRow F)
  positions : List PositionRow
  greeksAttribution : List GreeksAttributionRow

/-- A bundle that was read. -/
structure ValidatedBundle (N F : Type) extends BundleTables F where
  manifest : ValidatedManifest N

namespace BundleTables

variable {F : Type}

/-- The tables in their canonical order. -/
def sorted (tables : BundleTables F) : BundleTables F where
  fills := SortedTable.sort FillKey.cmp fillSortKey tables.fills
  equityCurve := SortedTable.sort compare equitySortKey tables.equityCurve
  positions := SortedTable.sort PositionKey.cmp positionSortKey tables.positions
  greeksAttribution := SortedTable.sort compare greeksSortKey tables.greeksAttribution

/-- The cross-check of the row counts. -/
def checkCounts (tables : BundleTables F) (counts : RowCounts) : Outcome Unit := do
  checkCount "fills" tables.fills.length counts.fills
  checkCount "equity_curve" tables.equityCurve.length counts.equityCurve
  checkCount "positions" tables.positions.length counts.positions
  checkCount "greeks_attribution" tables.greeksAttribution.length counts.greeksAttribution

/-- The structural validation of sorted tables. -/
def validateStructure (tables : BundleTables F) : Outcome Unit := do
  validateUniqueFillKeys tables.fills
  validateUniquePositionKeys tables.positions
  validateContiguousSteps "equity_curve" (tables.equityCurve.map EquityRow.step)
  validateContiguousSteps "greeks_attribution"
    (tables.greeksAttribution.map GreeksAttributionRow.step)
  validateCrossTableStepConsistency tables.fills tables.positions tables.equityCurve
    tables.greeksAttribution

end BundleTables

section Read

variable {N F T : Type} [Sha256] [RatioFloat F] [ManifestSerde N] [TableFormat T FillCells]
  [TableFormat T (EquityCells F)] [TableFormat T PositionCells] [TableFormat T GreeksCells]

/-- The four tables of a directory. -/
def decodeTables (dir : BundleDir T) (limits : ResourceLimits) : Outcome (BundleTables F) := do
  let fills ← decodeTable "fills" fillsSchema limits (decodeFill limits) dir.fills
  let equityCurve ← decodeTable "equity_curve" equitySchema limits decodeEquity dir.equityCurve
  let positions ←
    decodeTable "positions" positionsSchema limits (decodePosition limits) dir.positions
  let greeksAttribution ←
    decodeTable "greeks_attribution" greeksSchema limits decodeGreeks dir.greeksAttribution
  return { fills, equityCurve, positions, greeksAttribution }

/-- `read_bundle`. -/
def readBundle (dir : BundleDir T) (files : Files) (limits : ResourceLimits) :
    Outcome (ValidatedBundle N F) := do
  let manifest ← readManifest dir.manifest limits
  let tables ← decodeTables dir limits
  tables.checkCounts manifest.rowCounts
  verifyReferencedInput files manifest.dataSource limits false
  verifyRows manifest.runId tables.fills tables.positions
  tables.sorted.validateStructure
  return { tables.sorted with manifest }

end Read

end IronCondor
