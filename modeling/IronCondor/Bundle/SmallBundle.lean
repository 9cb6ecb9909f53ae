import IronCondor.Bundle.Rewriting

/-! # A small bundle

The run of the small batch, written with plain tables and read back: concrete inputs on which
results about bundles are exercised. -/
namespace IronCondor.SmallBundle

open Checked ExceptRun SmallMarket SmallBatch
open OrderBook
open FsProgram (attempt)

section Tables

/-- The ratios themselves. -/
scoped instance : RatioFloat ℚ := ⟨id, fun _ => true, toString⟩

/-- The batches of a table under its schema, as they were appended. -/
inductive PlainTable where
  | fills (schema : List ColumnField) (batches : List (List FillCells))
  | equity (schema : List ColumnField) (batches : List (List (EquityCells ℚ)))
  | positions (schema : List ColumnField) (batches : List (List PositionCells))
  | greeks (schema : List ColumnField) (batches : List (List GreeksCells))

variable {Cells : Type}

/-- What a table of these batches is read as; a row takes 64 bytes. -/
def plainFile (schema : List ColumnField) (batches : List (List Cells)) : TableFile Cells where
  numRows := batches.flatten.length
  rowGroups := []
  schema
  batches := .returned (.ok (batches.map fun rows => .returned (.ok ⟨rows, 64 * rows.length⟩)))

/-- The format of one kind of table. -/
abbrev plainFormat (make : List ColumnField → List (List Cells) → PlainTable)
    (parse : PlainTable → Option (List ColumnField × List (List Cells))) :
    TableFormat PlainTable Cells where
  Writer := List ColumnField × List (List Cells)
  create schema := .ok (schema, [])
  append writer batch := .ok (writer.1, writer.2 ++ [batch])
  close writer := .ok (make writer.1 writer.2)
  read table := .returned ((parse table).elim (.error "not a table of these rows") fun table =>
    .ok (plainFile table.1 table.2))

scoped instance : TableFormat PlainTable FillCells := plainFormat .fills fun
  | .fills schema batches => some (schema, batches)
  | _ => none

scoped instance : TableFormat PlainTable (EquityCells ℚ) := plainFormat .equity fun
  | .equity schema batches => some (schema, batches)
  | _ => none

scoped instance : TableFormat PlainTable PositionCells := plainFormat .positions fun
  | .positions schema batches => some (schema, batches)
  | _ => none

scoped instance : TableFormat PlainTable GreeksCells := plainFormat .greeks fun
  | .greeks schema batches => some (schema, batches)
  | _ => none

variable {make : List ColumnField → List (List Cells) → PlainTable}
  {parse : PlainTable → Option (List ColumnField × List (List Cells))}

theorem plain_append (batches : List (List Cells))
    (writer closed : List ColumnField × List (List Cells))
    (h : batches.foldlM (m := Except String)
      (fun (w : List ColumnField × List (List Cells)) batch => .ok (w.1, w.2 ++ [batch])) writer =
        .ok closed) : closed = (writer.1, writer.2 ++ batches) := by
  induction batches generalizing writer with
  | nil =>
    cases h
    simp
  | cons batch batches ih =>
    rw [ih _ h]
    simp

theorem plain_lossless (hparse : ∀ schema batches, parse (make schema batches) =
    some (schema, batches)) : @Lossless PlainTable Cells (plainFormat make parse) := by
  intro schema writer closed batches table hcreate happend hclose
  cases hcreate
  cases hclose
  obtain rfl : closed = (schema, batches) := plain_append batches _ _ happend
  refine ⟨plainFile schema batches, batches.map fun rows => ⟨rows, 64 * rows.length⟩, ?_, rfl, rfl,
    List.forall_mem_nil _, ?_, ?_⟩
  · change Upstream.returned ((parse (make schema batches)).elim _ _) = _
    rw [hparse]
    rfl
  · simp [plainFile]
  · rw [List.flatMap_map]
    exact List.flatMap_id

theorem plain_formats : LosslessFormats PlainTable ℚ :=
  ⟨plain_lossless fun _ _ => rfl, plain_lossless fun _ _ => rfl, plain_lossless fun _ _ => rfl,
    plain_lossless fun _ _ => rfl⟩

/-- A table of few rows lies within the byte ceiling. -/
theorem plain_fits {Row : Type} {limits : ResourceLimits} {schema : List ColumnField}
    {cells : Row → Outcome Cells} {rows : List Row} {table : PlainTable} {n : Nat}
    (hparse : ∀ schema batches, parse (make schema batches) = some (schema, batches))
    (h : @encodeTable _ _ _ (plainFormat make parse) schema cells rows = .ok (table, n))
    (hrows : 64 * (rows.length : Int) ≤ limits.maxDecompressedBytes.value) :
    @TableFits PlainTable Cells (plainFormat make parse) limits table := by
  intro file hread
  obtain ⟨-, file', -, hread', -, hnum, -⟩ :=
    @encodeTable_cells _ _ _ (plainFormat make parse) _ _ _ (plain_lossless hparse) _ _ h
  cases hread.symm.trans hread'
  change Upstream.returned ((parse table).elim _ _) = _ at hread
  rcases hstored : parse table with _ | ⟨schema, batches⟩
  · simp [hstored] at hread
  · simp only [hstored, Option.elim_some, Upstream.returned.injEq, Except.ok.injEq] at hread
    subst hread
    refine ⟨by simpa [plainFile] using (by omega : 0 ≤ limits.maxDecompressedBytes.value),
      fun decoded hdecoded => ?_⟩
    have hmemory : (decoded.map TableBatch.arrayMemorySize).sum = 64 * batches.flatten.length := by
      obtain rfl : decoded = batches.map fun rows => ⟨rows, 64 * rows.length⟩ := by
        simp only [plainFile, Upstream.returned.injEq, Except.ok.injEq] at hdecoded
        have hinjective : Function.Injective fun batch : TableBatch Cells =>
            (Upstream.returned (Except.ok batch) : Upstream (TableBatch Cells)) := by
          intro a b hab
          cases hab
          rfl
        apply List.map_injective_iff.2 hinjective
        rw [← hdecoded, List.map_map]
        rfl
      rw [List.map_map, List.length_flatten, ← List.sum_map_mul_left]
      rfl
    change (batches.flatten.length : Int) = rows.length at hnum
    rw [hmemory]
    push_cast
    omega

end Tables

section Manifest

mutual

/-- The text of a JSON value. -/
def render : Json Int → String
  | .null => "null"
  | .bool b => toString b
  | .number n => toString n
  | .string s => s!"\"{s}\""
  | .array items => "[" ++ ",".intercalate (renderItems items) ++ "]"
  | .object fields => "\x7b" ++ ",".intercalate (renderFields fields) ++ "\x7d"

def renderItems : List (Json Int) → List String
  | [] => []
  | item :: items => render item :: renderItems items

def renderFields : List (String × Json Int) → List String
  | [] => []
  | field :: fields => renderField field :: renderFields fields

def renderField : String × Json Int → String
  | (name, value) => s!"\"{name}\":{render value}"

end

/-- A Parquet source. -/
def sourceJson (path sha256 : String) : Json Int :=
  .object [("kind", .string "parquet"), ("path", .string path), ("sha256", .string sha256)]

/-- The configuration that may overwrite. -/
def configJson : Json Int := .object
  [("data_source", sourceJson "spx.parquet" ""), ("mode", .string "naive"), ("seed", .number 7),
    ("initial_capital", .number 1000000),
    ("fees", .object [("per_contract_cents", .number 65), ("per_order_cents", .number 100)]),
    ("slippage", .object [("model", .string "fixed_cents"), ("cents", .number 1)]),
    ("marketable_cap_ticks", .number 5),
    ("liquidity_profile", .object
      [("touch_size", .object [("kind", .string "flat"), ("contracts", .number 3)]),
        ("depth_levels", .number 0), ("decay", .string "0.5")]),
    ("limits", .object
      [("max_steps", .number 1000), ("max_contracts_per_snapshot", .number 1000),
        ("max_total_bytes", .number 1000000), ("max_file_bytes", .number 1000000),
        ("max_decompressed_bytes", .number 1000000), ("max_manifest_bytes", .number 1000000),
        ("max_string_len", .number 1000), ("max_rows_per_table", .number 1000)]),
    ("output_dir", .string "runs"), ("overwrite", .bool true)]

/-- The leg set. -/
def strategyJson : Json Int := .object [("Legs", .object
  [("underlying", .string "SPX"), ("underlying_price", .number 510000),
    ("legs", .array [.object
      [("side", .string "Long"), ("style", .string "Call"), ("strike", .number 510000),
        ("expiration", .object [("datetime", .string "2025-06-19T00:00:00Z")]),
        ("quantity", .number 2), ("implied_volatility", .string "0.20")]]),
    ("risk_free_rate", .string "0.05"), ("dividend_yield", .string "0")])]

def createdUtc : String := "2025-06-20T00:00:00Z"

/-- The manifest of a run of the leg set under the configuration that may overwrite. -/
def manifestJson (record : Manifest Unit) : Json Int := .object
  [("schema", .string record.schema), ("run_id", .string record.runId.hex),
    ("created_utc", .string createdUtc), ("code_version", .string record.codeVersion),
    ("lockfile_sha256", .string record.lockfileSha256), ("seed", .number record.seed.value),
    ("config", configJson), ("strategy", strategyJson),
    ("data_source", match record.dataSource with
      | .Parquet path sha256 => sourceJson path sha256
      | _ => .null),
    ("metrics", .null),
    ("row_counts", .object
      [("fills", .number record.rowCounts.fills),
        ("equity_curve", .number record.rowCounts.equityCurve),
        ("positions", .number record.rowCounts.positions),
        ("greeks_attribution", .number record.rowCounts.greeksAttribution)])]

/-- The text of the manifest. -/
def manifestText (record : Manifest Unit) : List UInt8 :=
  (render (manifestJson record)).toUTF8.data.toList

/-- The decoding of the text of one manifest. -/
abbrev serdeOf (record : Manifest Unit) : ManifestSerde Int where
  fromSlice text :=
    if text = manifestText record then .ok (manifestJson record)
    else .error "expected value at line 1 column 1"
  fromValue
    | .object _ => .ok (record.validated createdUtc .null)
    | _ => .error "invalid type, expected struct Manifest"

theorem writes_manifest {record : Manifest Unit} :
    @WritesManifest _ _ (serdeOf record) (manifestText record) record createdUtc .null :=
  ⟨_, if_pos rfl, rfl, by simp [requiredManifestFields, List.lookup], rfl⟩

/-- The manifest and the rows lie within the ceilings of the run. -/
abbrev Small (record : Manifest Unit) (tables : BundleTables ℚ) : Prop :=
  ((manifestText record).length : Int) ≤ overwriting.limits.maxManifestBytes.value ∧
    (∀ s ∈ (record.validated createdUtc (.null : Json Int)).strings, s.utf8ByteSize ≤ 1000) ∧
    (∀ row ∈ tables.fills, ∀ s ∈ row.strings, s.utf8ByteSize ≤ 1000) ∧
    (∀ row ∈ tables.positions, ∀ s ∈ row.strings, s.utf8ByteSize ≤ 1000) ∧
    tables.fills.length ≤ 1000 ∧ tables.equityCurve.length ≤ 1000 ∧
    tables.positions.length ≤ 1000 ∧ tables.greeksAttribution.length ≤ 1000

/-- The small run, its identity, the number of its rows, and its tables. -/
def written : Outcome (PopulatedRun Unit × RunId × RowCounts × BundleTables ℚ) := do
  let run ← runBacktest Script (ReferenceBook ObOrderId) files overwriting SmallBatch.strategy ()
  let id ← RunId.derive overwriting.seed overwriting SmallBatch.strategy run.dataIdentity
    Build.codeVersion lockfileSha256
  let counts ← (bundleFiles (T := PlainTable) run overwriting SmallBatch.strategy id).2
  let fills ← fillRows run.toBacktestRun id
  let positions ← positionRows run.toBacktestRun
  let tables : BundleTables ℚ :=
    ⟨fills, equityRows run.toBacktestRun, positions, greeksRows run⟩
  require (Small (bundleManifest run overwriting SmallBatch.strategy id counts) tables)
    (.Bundle "not small")
  return (run, id, counts, tables)

theorem exists_written : ∃ w, written = .ok w := exists_eq_ok (by decide +kernel)

theorem small_fits {record : Manifest Unit} {tables : BundleTables ℚ} (h : Small record tables) :
    FitsCeilings PlainTable overwriting.limits (manifestText record)
      (record.validated createdUtc (.null : Json Int)) tables := by
  obtain ⟨hbytes, hmanifest, hfills, hpositions, hfillCount, hequityCount, hpositionCount,
    hgreeksCount⟩ := h
  have hstring : ∀ s : String, s.utf8ByteSize ≤ 1000 → ShortString overwriting.limits s :=
    fun s hs => Int.ofNat_le.2 hs
  have hrows : ∀ n : Nat, n ≤ 1000 → (n : Int) ≤ overwriting.limits.maxRowsPerTable.value :=
    fun n hn => Int.ofNat_le.2 hn
  have hmemory : ∀ n : Nat, n ≤ 1000 →
      64 * (n : Int) ≤ overwriting.limits.maxDecompressedBytes.value := fun n hn => by
    change 64 * (n : Int) ≤ 1000000
    omega
  exact
    { manifestBytes := hbytes
      manifestStrings := fun s hs => hstring s (hmanifest s hs)
      fillStrings := fun row hrow s hs => hstring s (hfills row hrow s hs)
      positionStrings := fun row hrow s hs => hstring s (hpositions row hrow s hs)
      fillCount := hrows _ hfillCount
      equityCount := hrows _ hequityCount
      positionCount := hrows _ hpositionCount
      greeksCount := hrows _ hgreeksCount
      fillBytes := fun _ _ h => plain_fits (fun _ _ => rfl) h (hmemory _ hfillCount)
      equityBytes := fun _ _ h => plain_fits (fun _ _ => rfl) h (hmemory _ hequityCount)
      positionBytes := fun _ _ h => plain_fits (fun _ _ => rfl) h (hmemory _ hpositionCount)
      greeksBytes := fun _ _ h => plain_fits (fun _ _ => rfl) h (hmemory _ hgreeksCount) }

/-- Nothing is published yet. -/
def emptyDisk : Disk Unit PlainTable := fun _ => none

/-- The small run is written and read back. -/
theorem run_reads_back_small : ∃ (run : PopulatedRun Unit) (id : RunId) (counts : RowCounts)
    (m : FsMachine Unit PlainTable) (published : List (BundleFile Unit PlainTable))
    (tables : BundleTables ℚ),
    attempt (writeBundle PlainTable run overwriting SmallBatch.strategy)
      (FsFault.machine none emptyDisk []) = (some (.ok (overwriting.path .dest id)), m) ∧
    m.store (overwriting.path .dest id) = some published ∧
    @readBundle _ _ _ _ _ (serdeOf (bundleManifest run overwriting SmallBatch.strategy id counts))
      _ _ _ _ (BundleDir.ofFiles manifestText published) files overwriting.limits =
        .ok { tables with
          manifest := (bundleManifest run overwriting SmallBatch.strategy id counts).validated
            createdUtc .null } := by
  obtain ⟨_, hwritten⟩ := exists_written
  simp only [written, bind_ok_iff, require_eq_ok, pure_ok_iff] at hwritten
  obtain ⟨run, hrun, id, hid, counts, hbuild, fills, hfills, positions, hpositions, _, hsmall,
    -⟩ := hwritten
  let _ := serdeOf (bundleManifest run overwriting SmallBatch.strategy id counts)
  have hproceeds : (emptyDisk (overwriting.path .dest id)).isSome → overwriting.overwrite :=
    fun _ => rfl
  have hfits : ∀ tables : BundleTables ℚ, WiresRun id run tables →
      FitsCeilings PlainTable overwriting.limits
        (manifestText (bundleManifest run overwriting SmallBatch.strategy id counts))
        ((bundleManifest run overwriting SmallBatch.strategy id counts).validated createdUtc
          (.null : Json Int)) tables := by
    intro tables hwires
    cases hfills.symm.trans hwires.fills
    cases hpositions.symm.trans hwires.positions
    apply small_fits
    have htables : tables = ⟨tables.fills, equityRows run.toBacktestRun, tables.positions,
        greeksRows run⟩ := by
      rw [← hwires.equityCurve, ← hwires.greeksAttribution]
    rw [htables]
    exact hsmall
  rw [← strategy_canonical] at hid hbuild
  obtain ⟨m, published, tables, hdone, hstore, -, hread⟩ := run_reads_back plain_formats hrun hid
    hproceeds hbuild (by rw [strategy_canonical]; exact writes_manifest) le_rfl
    (by rw [strategy_canonical]; exact hfits)
  rw [strategy_canonical] at hread
  exact ⟨run, id, counts, m, published, tables, hdone, hstore, hread⟩

end Manifest

section Order

end Order

end IronCondor.SmallBundle
