import IronCondor.Bundle.ContractColumns
import IronCondor.Bundle.Writer
import IronCondor.Data.ParquetRows
import IronCondor.Lib.SortedTable

/-! # The tables of a bundle

Every table has a fixed schema, a row of typed cells and a sort key. The writer sorts the rows of a
run by the key and narrows them to the signed types of their columns, chunk by chunk. -/
namespace IronCondor

open Checked

section Schemas

/-- A column: its name, its physical type, and whether it may hold nulls. -/
structure ColumnField where
  name : String
  dataType : ArrowType
  nullable : Bool
deriving DecidableEq

def ArrowType.Boolean : ArrowType := .Other "Boolean"

/-- A column that holds no nulls. -/
def requiredColumn (name : String) (dataType : ArrowType) : ColumnField := ⟨name, dataType, false⟩

/-- `fills_schema`. -/
def fillsSchema : List ColumnField :=
  [requiredColumn "step" .Int32, requiredColumn "ts_ns" .Int64,
    requiredColumn "strategy_run_id" .Utf8, requiredColumn "trade_id" .Int64,
    requiredColumn "position_id" .Int64, requiredColumn "order_id" .Int64,
    requiredColumn "fill_seq" .Int32, requiredColumn "underlying" .Utf8,
    requiredColumn "expiration_ns" .Int64, requiredColumn "contract_id" .Utf8,
    requiredColumn "strike_cents" .Int64, requiredColumn "style" .Utf8,
    requiredColumn "side" .Utf8, requiredColumn "quantity" .Int32,
    requiredColumn "price_cents" .Int64, requiredColumn "fees_cents" .Int64,
    requiredColumn "slippage_cents" .Int64, requiredColumn "mode" .Utf8]

/-- `equity_schema`. -/
def equitySchema : List ColumnField :=
  [requiredColumn "step" .Int32, requiredColumn "ts_ns" .Int64,
    requiredColumn "cash_cents" .Int64, requiredColumn "position_value_cents" .Int64,
    requiredColumn "equity_cents" .Int64, requiredColumn "drawdown" .Float64]

/-- `positions_schema`: the exit reason is the only nullable column. -/
def positionsSchema : List ColumnField :=
  [requiredColumn "step" .Int32, requiredColumn "ts_ns" .Int64,
    requiredColumn "position_id" .Int64, requiredColumn "trade_id" .Int64,
    requiredColumn "contract_id" .Utf8, requiredColumn "side" .Utf8,
    requiredColumn "quantity" .Int32, requiredColumn "avg_price_cents" .Int64,
    requiredColumn "mark_cents" .Int64, requiredColumn "unrealized_cents" .Int64,
    requiredColumn "stale_mark" .Boolean, ⟨"exit_reason", .Utf8, true⟩,
    requiredColumn "open_at_end" .Boolean]

/-- `greeks_schema`. -/
def greeksSchema : List ColumnField :=
  [requiredColumn "step" .Int32, requiredColumn "ts_ns" .Int64,
    requiredColumn "theta_pnl_cents" .Int64, requiredColumn "delta_pnl_cents" .Int64,
    requiredColumn "vega_pnl_cents" .Int64, requiredColumn "spread_capture_cents" .Int64,
    requiredColumn "fees_cents" .Int64, requiredColumn "residual_cents" .Int64]

end Schemas

section Cells

/-- One row of `fills.parquet` as its columns hold it: a value or a null in every cell. -/
structure FillCells where
  step : Option (Bounded i32)
  tsNs : Option (Bounded i64)
  strategyRunId : Option String
  tradeId : Option (Bounded i64)
  positionId : Option (Bounded i64)
  orderId : Option (Bounded i64)
  fillSeq : Option (Bounded i32)
  underlying : Option String
  expirationNs : Option (Bounded i64)
  contractId : Option String
  strikeCents : Option (Bounded i64)
  style : Option String
  side : Option String
  quantity : Option (Bounded i32)
  priceCents : Option (Bounded i64)
  feesCents : Option (Bounded i64)
  slippageCents : Option (Bounded i64)
  mode : Option String

structure EquityCells (F : Type) where
  step : Option (Bounded i32)
  tsNs : Option (Bounded i64)
  cashCents : Option (Bounded i64)
  positionValueCents : Option (Bounded i64)
  equityCents : Option (Bounded i64)
  drawdown : Option F

structure PositionCells where
  step : Option (Bounded i32)
  tsNs : Option (Bounded i64)
  positionId : Option (Bounded i64)
  tradeId : Option (Bounded i64)
  contractId : Option String
  side : Option String
  quantity : Option (Bounded i32)
  avgPriceCents : Option (Bounded i64)
  markCents : Option (Bounded i64)
  unrealizedCents : Option (Bounded i64)
  staleMark : Option Bool
  exitReason : Option String
  openAtEnd : Option Bool

structure GreeksCells where
  step : Option (Bounded i32)
  tsNs : Option (Bounded i64)
  thetaPnlCents : Option (Bounded i64)
  deltaPnlCents : Option (Bounded i64)
  vegaPnlCents : Option (Bounded i64)
  spreadCaptureCents : Option (Bounded i64)
  feesCents : Option (Bounded i64)
  residualCents : Option (Bounded i64)

end Cells

section Keys

/-- The sort key of a fill. -/
@[ext] structure FillKey where
  step : StepIndex
  orderId : Bounded u64
  fillSeq : Bounded u32
deriving DecidableEq

/-- The sort key of a position row. -/
@[ext] structure PositionKey where
  step : StepIndex
  positionId : Bounded u64
deriving DecidableEq

/-- `fill_sort_key`. -/
def fillSortKey (row : FillRow) : FillKey := ⟨row.step, row.orderId, row.fillSeq⟩

/-- `position_sort_key`. -/
def positionSortKey (row : PositionRow) : PositionKey := ⟨row.step, row.positionId⟩

/-- `greeks_sort_key`. -/
def greeksSortKey (row : GreeksAttributionRow) : StepIndex := row.step

namespace FillKey

def cmp : FillKey → FillKey → Ordering :=
  compareLex (compareOn step) (compareLex (compareOn orderId) (compareOn fillSeq))

instance : Std.TransCmp cmp := inferInstanceAs
  (Std.TransCmp (compareLex (compareOn step) (compareLex (compareOn orderId) (compareOn fillSeq))))

instance : Std.LawfulEqCmp cmp where
  eq_of_compare {a b} h := by
    obtain ⟨hstep, hrest⟩ := compareLex_eq_eq.1 h
    obtain ⟨horder, hseq⟩ := compareLex_eq_eq.1 hrest
    exact FillKey.ext (Std.compare_eq_iff_eq.1 hstep) (Std.compare_eq_iff_eq.1 horder)
      (Std.compare_eq_iff_eq.1 hseq)

end FillKey

namespace PositionKey

def cmp : PositionKey → PositionKey → Ordering :=
  compareLex (compareOn step) (compareOn positionId)

instance : Std.TransCmp cmp :=
  inferInstanceAs (Std.TransCmp (compareLex (compareOn step) (compareOn positionId)))

instance : Std.LawfulEqCmp cmp where
  eq_of_compare {a b} h := by
    obtain ⟨hstep, hposition⟩ := compareLex_eq_eq.1 h
    exact PositionKey.ext (Std.compare_eq_iff_eq.1 hstep) (Std.compare_eq_iff_eq.1 hposition)

end PositionKey

end Keys

section Rows

/-- The floats the writer rounds a ratio to. -/
class RatioFloat (F : outParam Type) where
  ofRatio : ℚ → F
  isFinite : F → Bool
  display : F → String

/-- One row of `equity_curve.parquet`. -/
structure EquityRow (F : Type) where
  step : StepIndex
  tsNs : SimTime
  cashCents : Cents
  positionValueCents : Cents
  equityCents : Cents
  drawdown : F

/-- `equity_sort_key`. -/
def equitySortKey {F : Type} (row : EquityRow F) : StepIndex := row.step

/-- The wire form of an equity point, its drawdown a float. -/
def equityRow {F : Type} [RatioFloat F] (point : EquityPoint) : EquityRow F where
  step := point.step
  tsNs := point.ts
  cashCents := point.cashCents
  positionValueCents := point.positionValueCents
  equityCents := point.equityCents
  drawdown := RatioFloat.ofRatio point.drawdown

/-- `side_str`. -/
def sideStr : Side → String
  | .Long => "long"
  | .Short => "short"

/-- `mode_str`. -/
def modeStr : ExecutionMode → String
  | .Naive => "naive"
  | .Realistic => "realistic"

/-- `exit_reason_str`. -/
def exitReasonStr : ExitReason → String
  | .TargetReached => "target_reached"
  | .StopLoss => "stop_loss"
  | .Expiration => "expiration"
  | .RollOver => "roll_over"
  | .ManualClose => "manual_close"
  | .MarginCall => "margin_call"
  | .Other text => text

/-- `fill_row`. -/
def fillRow (runId : RunId) (record : FillRecord) : Outcome FillRow := do
  let fill := record.fill
  let expirationNs ← fill.contract.expirationNs
  let contractId ← fill.contract.toContractId
  return {
    step := fill.step
    tsNs := fill.ts
    strategyRunId := runId.hex
    tradeId := record.tradeId.raw
    positionId := record.positionId.raw
    orderId := record.orderId.raw
    fillSeq := record.fillSeq
    underlying := fill.contract.underlying.ticker
    expirationNs
    contractId
    strikeCents := fill.contract.strike
    style := styleStr fill.contract.style
    side := sideStr fill.side
    quantity := fill.quantity.toU32
    priceCents := fill.price
    feesCents := fill.fees
    slippageCents := fill.slippage
    mode := modeStr fill.mode }

/-- `position_row`. -/
def positionRow (snapshot : PositionSnapshot) : Outcome PositionRow := do
  let contractId ← snapshot.contract.toContractId
  return {
    step := snapshot.step
    tsNs := snapshot.ts
    positionId := snapshot.positionId.raw
    tradeId := snapshot.tradeId.raw
    contractId
    side := sideStr snapshot.side
    quantity := snapshot.quantity.toU32
    avgPriceCents := snapshot.avgPriceCents
    markCents := snapshot.markCents
    unrealizedCents := snapshot.unrealizedCents
    staleMark := snapshot.staleMark
    exitReason := snapshot.exitReason.map exitReasonStr
    openAtEnd := snapshot.openAtEnd }

end Rows

section Narrowing

/-- `i64_from_u64`. -/
def i64FromU64 (value : Bounded u64) : Outcome (Bounded i64) :=
  narrow i64 (.Bundle s!"value {value.value} exceeds the INT64 wire range") value.value

/-- `i32_from_u32`. -/
def i32FromU32 (value : Bounded u32) : Outcome (Bounded i32) :=
  narrow i32 (.Bundle s!"value {value.value} exceeds the INT32 wire range") value.value

/-- `guard_finite`. -/
def guardFinite {F : Type} [RatioFloat F] (value : F) (column : String) : Outcome F := do
  require (RatioFloat.isFinite value = true)
    (.Bundle s!"column {column} is not finite ({RatioFloat.display value})")
  return value

/-- The columns of a fill row. -/
def FillRow.cells (row : FillRow) : Outcome FillCells := do
  let step ← i32FromU32 row.step
  let tradeId ← i64FromU64 row.tradeId
  let positionId ← i64FromU64 row.positionId
  let orderId ← i64FromU64 row.orderId
  let fillSeq ← i32FromU32 row.fillSeq
  let strikeCents ← i64FromU64 row.strikeCents
  let quantity ← i32FromU32 row.quantity
  let priceCents ← i64FromU64 row.priceCents
  return {
    step := some step
    tsNs := some row.tsNs
    strategyRunId := some row.strategyRunId
    tradeId := some tradeId
    positionId := some positionId
    orderId := some orderId
    fillSeq := some fillSeq
    underlying := some row.underlying
    expirationNs := some row.expirationNs
    contractId := some row.contractId
    strikeCents := some strikeCents
    style := some row.style
    side := some row.side
    quantity := some quantity
    priceCents := some priceCents
    feesCents := some row.feesCents
    slippageCents := some row.slippageCents
    mode := some row.mode }

/-- The columns of an equity row. -/
def EquityRow.cells {F : Type} [RatioFloat F] (row : EquityRow F) : Outcome (EquityCells F) := do
  let step ← i32FromU32 row.step
  let drawdown ← guardFinite row.drawdown "drawdown"
  return {
    step := some step
    tsNs := some row.tsNs
    cashCents := some row.cashCents
    positionValueCents := some row.positionValueCents
    equityCents := some row.equityCents
    drawdown := some drawdown }

/-- The columns of a position row. -/
def PositionRow.cells (row : PositionRow) : Outcome PositionCells := do
  let step ← i32FromU32 row.step
  let positionId ← i64FromU64 row.positionId
  let tradeId ← i64FromU64 row.tradeId
  let quantity ← i32FromU32 row.quantity
  let avgPriceCents ← i64FromU64 row.avgPriceCents
  let markCents ← i64FromU64 row.markCents
  return {
    step := some step
    tsNs := some row.tsNs
    positionId := some positionId
    tradeId := some tradeId
    contractId := some row.contractId
    side := some row.side
    quantity := some quantity
    avgPriceCents := some avgPriceCents
    markCents := some markCents
    unrealizedCents := some row.unrealizedCents
    staleMark := some row.staleMark
    exitReason := row.exitReason
    openAtEnd := some row.openAtEnd }

/-- The columns of an attribution row. -/
def GreeksAttributionRow.cells (row : GreeksAttributionRow) : Outcome GreeksCells := do
  let step ← i32FromU32 row.step
  return {
    step := some step
    tsNs := some row.ts
    thetaPnlCents := some row.thetaPnlCents
    deltaPnlCents := some row.deltaPnlCents
    vegaPnlCents := some row.vegaPnlCents
    spreadCaptureCents := some row.spreadCaptureCents
    feesCents := some row.feesCents
    residualCents := some row.residualCents }

end Narrowing

section Files

/-- A decoded batch of a table with the memory its arrays take. -/
structure TableBatch (Cells : Type) where
  rows : List Cells
  arrayMemorySize : Nat

/-- What a call into the upstream table library comes back with. -/
inductive Upstream (α : Type) where
  | returned (result : Except String α)
  | panicked (payload : String)

/-- A table whose footer was read; building its reader may fail, and the batches are decoded one
after the other. -/
structure TableFile (Cells : Type) where
  numRows : Int
  rowGroups : List RowGroup
  schema : List ColumnField
  batches : Upstream (List (Upstream (TableBatch Cells)))

/-- The upstream table format for rows of one kind: a writer fed batch by batch, and the reader of
what it wrote. -/
class TableFormat (T Cells : Type) where
  Writer : Type
  create : List ColumnField → Except String Writer
  append : Writer → List Cells → Except String Writer
  close : Writer → Except String T
  read : T → Upstream (TableFile Cells)

/-- A refusal of the upstream library, under its context. -/
def upstream {α : Type} (context : String) : Except String α → Outcome α
  | .ok a => .ok a
  | .error error => .error (bundleErr context error)

@[simp] theorem upstream_eq_ok {α : Type} {context : String} {r : Except String α} {a : α} :
    upstream context r = .ok a ↔ r = .ok a := by
  cases r <;> simp [upstream]

/-- The rows of one batch. -/
def writeBatchRows : Nat := 8192

variable {T Row Cells : Type} [TableFormat T Cells]

/-- One chunk of a table: its rows are narrowed, then handed to the writer. -/
def writeChunk (T : Type) [TableFormat T Cells] (cells : Row → Outcome Cells)
    (writer : TableFormat.Writer T Cells) (chunk : List Row) :
    Outcome (TableFormat.Writer T Cells) := do
  let batch ← chunk.mapM cells
  upstream "write record batch" (TableFormat.append writer batch)

/-- A table of rows in their order, with their number. -/
def encodeTable (schema : List ColumnField) (cells : Row → Outcome Cells) (rows : List Row) :
    Outcome (T × Nat) := do
  let writer ← upstream "open parquet writer" (@TableFormat.create T Cells _ schema)
  let writer ← (SortedTable.chunks writeBatchRows rows).foldlM (writeChunk T cells) writer
  let table ← upstream "close parquet writer" (TableFormat.close writer)
  return (table, rows.length)

end Files

section Encoders

variable {M T F : Type} [RatioFloat F] [TableFormat T FillCells] [TableFormat T (EquityCells F)]
  [TableFormat T PositionCells] [TableFormat T GreeksCells]

/-- The rows of `fills.parquet`. -/
def fillRows (run : BacktestRun) (runId : RunId) : Outcome (List FillRow) := do
  let rows ← run.fills.mapM (fillRow runId)
  return SortedTable.sort FillKey.cmp fillSortKey rows

/-- The rows of `equity_curve.parquet`. -/
def equityRows (run : BacktestRun) : List (EquityRow F) :=
  SortedTable.sort compare equitySortKey (run.equityCurve.map equityRow)

/-- The rows of `positions.parquet`. -/
def positionRows (run : BacktestRun) : Outcome (List PositionRow) := do
  let rows ← run.positions.mapM positionRow
  return SortedTable.sort PositionKey.cmp positionSortKey rows

/-- The rows of `greeks_attribution.parquet`. -/
def greeksRows (run : PopulatedRun M) : List GreeksAttributionRow :=
  SortedTable.sort compare greeksSortKey run.greeksAttribution

/-- `encode_fills`. -/
def encodeFills (run : PopulatedRun M) (runId : RunId) : Outcome (T × Nat) := do
  let rows ← fillRows run.toBacktestRun runId
  encodeTable fillsSchema FillRow.cells rows

/-- `encode_equity`. -/
def encodeEquity (run : PopulatedRun M) : Outcome (T × Nat) :=
  encodeTable equitySchema EquityRow.cells (equityRows (F := F) run.toBacktestRun)

/-- `encode_positions`. -/
def encodePositions (run : PopulatedRun M) : Outcome (T × Nat) := do
  let rows ← positionRows run.toBacktestRun
  encodeTable positionsSchema PositionRow.cells rows

/-- `encode_greeks`. -/
def encodeGreeks (run : PopulatedRun M) : Outcome (T × Nat) :=
  encodeTable greeksSchema GreeksAttributionRow.cells (greeksRows run)

instance (priority := low) : TableEncoders M T where
  encodeFills := encodeFills
  encodeEquity := encodeEquity (F := F)
  encodePositions := encodePositions
  encodeGreeks := encodeGreeks

end Encoders

end IronCondor
