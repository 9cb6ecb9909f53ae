import IronCondor.Data.Cells
import IronCondor.Data.Historical
import IronCondor.Data.Tape

/-! # The rows of a Parquet file

The decoder hands the rows over in batches. Rows of one `step` are gathered into a group; the
first row of another step, or the end of the file, turns the group into a snapshot. -/
namespace IronCondor

open Checked

/-- One row: a value of its column's type in every cell, or a null. -/
structure ParquetRow (F : Type) where
  step : Option (Bounded i32)
  ts : Option (Bounded i64)
  underlying : Option String
  underlyingPrice : Option (Bounded i64)
  tickSize : Option (Bounded i64)
  contractMultiplier : Option (Bounded i32)
  expiration : Option (Bounded i64)
  strike : Option (Bounded i64)
  style : Option String
  bid : Option (Bounded i64)
  ask : Option (Bounded i64)
  bidSize : Option (Bounded i32)
  askSize : Option (Bounded i32)
  impliedVolatility : Option F
  delta : Option F
  gamma : Option F
  theta : Option F
  vega : Option F

/-- The types of the columns of a file. -/
inductive ArrowType where
  | Int32
  | Int64
  | Utf8
  | Float16
  | Float32
  | Float64
  | Other (name : String)
deriving DecidableEq

def ArrowType.debug : ArrowType → String
  | .Int32 => "Int32"
  | .Int64 => "Int64"
  | .Utf8 => "Utf8"
  | .Float16 => "Float16"
  | .Float32 => "Float32"
  | .Float64 => "Float64"
  | .Other name => name

/-- What the footer declares of one column chunk. -/
structure ColumnChunk where
  compressedSize : Int
  dataPageOffset : Int
  dictionaryPageOffset : Option Int

/-- What the footer declares of one row group. -/
structure RowGroup where
  columns : List ColumnChunk
  totalByteSize : Int

/-- A decoded batch with the memory its arrays take. -/
structure RecordBatch (F : Type) where
  rows : List (ParquetRow F)
  arrayMemorySize : Nat

/-- A file whose footer was read; the batches are decoded one after the other. -/
structure ParquetFile (F : Type) where
  rowGroups : List RowGroup
  schema : List (String × ArrowType)
  batches : Outcome (List (Outcome (RecordBatch F)))

/-- The upstream Parquet decoder. -/
class ParquetDecoder (F : outParam Type) where
  read : List UInt8 → Outcome (ParquetFile F)

section Schema

def expectedSchema : List (String × ArrowType) :=
  [("step", .Int32), ("ts", .Int64), ("underlying", .Utf8), ("underlying_price", .Int64),
    ("tick_size", .Int64), ("contract_multiplier", .Int32), ("expiration", .Int64),
    ("strike", .Int64), ("style", .Utf8), ("bid", .Int64), ("ask", .Int64), ("bid_size", .Int32),
    ("ask_size", .Int32), ("implied_volatility", .Float64), ("delta", .Float64),
    ("gamma", .Float64), ("theta", .Float64), ("vega", .Float64)]

def isMoneyColumn (name : String) : Bool :=
  name ∈ ["underlying_price", "tick_size", "strike", "bid", "ask"]

def isFloat (dtype : ArrowType) : Bool :=
  dtype ∈ [.Float16, .Float32, .Float64]

/-- `validate_schema`: the expected columns and no others, each of its expected type. -/
def validateSchema (schema : List (String × ArrowType)) : Outcome Unit := do
  require (schema.length = expectedSchema.length) (.Conversion
    (s!"parquet schema has {schema.length} columns, expected exactly {expectedSchema.length}: " ++
      ", ".intercalate (expectedSchema.map Prod.fst)))
  expectedSchema.forM fun (name, want) => do
    let actual ← okOr (schema.lookup name)
      (.Conversion s!"parquet schema is missing required column {name}")
    let hint := if isMoneyColumn name && isFloat actual then
      " (money columns must be integer cents, not float)" else ""
    require (actual = want) (.Conversion
      s!"column {name} has arrow type {actual.debug}, expected {want.debug}{hint}")

end Schema

/-- The rows of one step gathered so far; the snapshot-level fields are those of the first. -/
structure GroupBuilder (F : Type) where
  step : StepIndex
  stepRaw : Bounded i32
  ts : SimTime
  underlying : Underlying
  underlyingPrice : PriceCents
  tickSizeCents : PriceCents
  contractMultiplier : Bounded u32
  quotes : List (RawQuote F)

namespace GroupBuilder

variable {F : Type}

/-- `GroupBuilder::start`. -/
def start (row : ParquetRow F) (index : Nat) (stepRaw : Bounded i32) :
    Outcome (GroupBuilder F) := do
  let step ← countU32 stepRaw "step"
  let ts ← reqCell row.ts index "ts"
  let underlying ← Underlying.new (← reqCell row.underlying index "underlying")
  let underlyingPrice ←
    priceCents (← reqCell row.underlyingPrice index "underlying_price") "underlying_price"
  let tickSizeCents ← priceCents (← reqCell row.tickSize index "tick_size") "tick_size"
  let contractMultiplier ←
    countU32 (← reqCell row.contractMultiplier index "contract_multiplier") "contract_multiplier"
  return {
    step
    stepRaw
    ts
    underlying
    underlyingPrice
    tickSizeCents
    contractMultiplier
    quotes := [] }

variable [AnalyticFloat F]

/-- The quote a row carries. -/
def rowQuote (row : ParquetRow F) (index : Nat) : Outcome (RawQuote F) := do
  let expirationNs ← reqCell row.expiration index "expiration"
  let strike ← priceCents (← reqCell row.strike index "strike") "strike"
  let style ← parseStyle (← reqCell row.style index "style")
  let bid ← priceCents (← reqCell row.bid index "bid") "bid"
  let ask ← priceCents (← reqCell row.ask index "ask") "ask"
  let bidSize ← Quantity.new (← countU32 (← reqCell row.bidSize index "bid_size") "bid_size")
  let askSize ← Quantity.new (← countU32 (← reqCell row.askSize index "ask_size") "ask_size")
  let impliedVolatility ← reqCell row.impliedVolatility index "implied_volatility"
  return {
    expiration := .DateTime (.ofNanos expirationNs.value)
    strike
    style
    bid
    ask
    bidSize
    askSize
    impliedVolatility
    delta := greekF64 row.delta
    gamma := greekF64 row.gamma
    theta := greekF64 row.theta
    vega := greekF64 row.vega }

/-- `push_row`: the snapshot-level fields agree with the group's, then the quote is added. -/
def pushRow (group : GroupBuilder F) (row : ParquetRow F) (index : Nat)
    (limits : ResourceLimits) : Outcome (GroupBuilder F) := do
  let ts ← reqCell row.ts index "ts"
  ensureConst "ts" group.stepRaw.value ts.value group.ts.value
  let underlying ← reqCell row.underlying index "underlying"
  ensureConst "underlying" group.stepRaw.value underlying group.underlying.ticker
  let underlyingPrice ←
    priceCents (← reqCell row.underlyingPrice index "underlying_price") "underlying_price"
  ensureConst "underlying_price" group.stepRaw.value underlyingPrice.value
    group.underlyingPrice.value
  let tickSize ← priceCents (← reqCell row.tickSize index "tick_size") "tick_size"
  ensureConst "tick_size" group.stepRaw.value tickSize.value group.tickSizeCents.value
  let multiplier ←
    countU32 (← reqCell row.contractMultiplier index "contract_multiplier") "contract_multiplier"
  ensureConst "contract_multiplier" group.stepRaw.value multiplier.value
    group.contractMultiplier.value
  let nextCount ← checked u64 (group.quotes.length + 1 : Nat)
  require (nextCount.value ≤ limits.maxContractsPerSnapshot.value)
    (.TapeTooLarge "max_contracts_per_snapshot" nextCount.value
      limits.maxContractsPerSnapshot.value)
  let quote ← rowQuote row index
  return { group with quotes := group.quotes ++ [quote] }

/-- `finish`. -/
def finish [DecimalArith] (group : GroupBuilder F) (anchorTs : SimTime) : Outcome ChainSnapshot :=
  rawQuotesToSnapshot
    { ts := group.ts
      step := group.step
      anchorTs
      underlying := group.underlying
      underlyingPrice := group.underlyingPrice
      tickSizeCents := group.tickSizeCents
      contractMultiplier := group.contractMultiplier } group.quotes

end GroupBuilder

/-- The variables of the materialisation loop. -/
structure ParquetLoop (F : Type) where
  buffer : TapeBuffer
  anchorTs : Option SimTime
  current : Option (GroupBuilder F)
  prevStep : Option (Bounded i32)
  decodedBytes : Bounded u64

namespace ParquetLoop

variable {F : Type}

def init : ParquetLoop F where
  buffer := .empty
  anchorTs := none
  current := none
  prevStep := none
  decodedBytes := ⟨0, u64.contains_zero⟩

variable [AnalyticFloat F] [DecimalArith] [TypeSizes]

/-- `push_snapshot` of the taken group; without a group nothing happens. -/
def flush (limits : ResourceLimits) (loop : ParquetLoop F) : Outcome (ParquetLoop F) :=
  match loop.current with
  | none => .ok loop
  | some group => do
    let anchor := loop.anchorTs.getD group.ts
    let snapshot ← group.finish anchor
    let buffer ← pushChecked loop.buffer snapshot limits
    return { loop with buffer, anchorTs := some anchor, current := none }

/-- The group of another step: the current one is flushed, and steps must ascend. -/
def startGroup (limits : ResourceLimits) (loop : ParquetLoop F) (row : ParquetRow F) (index : Nat)
    (stepRaw : Bounded i32) : Outcome (ParquetLoop F) := do
  let loop ← loop.flush limits
  match loop.prevStep with
  | some previous => require (previous.value < stepRaw.value) (.Conversion
      (s!"step {stepRaw.value} is not strictly after previous step {previous.value}; " ++
        "parquet rows must be grouped and ascending by step"))
  | none => pure ()
  let group ← GroupBuilder.start row index stepRaw
  return { loop with prevStep := some stepRaw, current := some group }

/-- The row is added to the group that is open. -/
def pushCurrent (limits : ResourceLimits) (loop : ParquetLoop F) (row : ParquetRow F)
    (index : Nat) : Outcome (ParquetLoop F) :=
  match loop.current with
  | some group => do
    let group ← group.pushRow row index limits
    return { loop with current := some group }
  | none => .error (.Conversion "internal grouping error: no active step group")

/-- Whether a group of this step is open. -/
def isOpen (loop : ParquetLoop F) (stepRaw : Bounded i32) : Bool :=
  loop.current.any fun group => group.stepRaw = stepRaw

/-- One row of a batch with its position in the batch. -/
def readRow (limits : ResourceLimits) (loop : ParquetLoop F) (entry : ParquetRow F × Nat) :
    Outcome (ParquetLoop F) := do
  let stepRaw ← reqCell entry.1.step entry.2 "step"
  let loop ← if loop.isOpen stepRaw then pure loop
    else loop.startGroup limits entry.1 entry.2 stepRaw
  loop.pushCurrent limits entry.1 entry.2

/-- One batch: its memory is counted first, then its rows are read. -/
def readBatch (limits : ResourceLimits) (loop : ParquetLoop F)
    (decoded : Outcome (RecordBatch F)) : Outcome (ParquetLoop F) := do
  let batch ← decoded
  let batchBytes ← checked u64 (batch.arrayMemorySize : Nat)
  let decodedBytes ← checked u64 (loop.decodedBytes.value + batchBytes.value)
  require (decodedBytes.value ≤ limits.maxDecompressedBytes.value)
    (.TapeTooLarge "max_decompressed_bytes" decodedBytes.value limits.maxDecompressedBytes.value)
  batch.rows.zipIdx.foldlM (readRow limits) { loop with decodedBytes }

end ParquetLoop

/-- The bytes the footer declares, each chunk checked for offsets the decoder would trip on. -/
def declaredBytes (declared : Bounded u64) (group : RowGroup) : Outcome (Bounded u64) := do
  group.columns.forM fun column =>
    require (0 ≤ column.compressedSize ∧ 0 ≤ column.dataPageOffset ∧
      column.dictionaryPageOffset.all (0 ≤ ·)) (.Data
        ("parquet column chunk declares a negative offset or size " ++
          "(would trip byte_range)"))
  let size ← narrow u64 (.Data "parquet row group reports a negative byte size")
    group.totalByteSize
  checked u64 (declared.value + size.value)

/-- The decoding part of `ParquetFeed::open`. -/
def ParquetFeed.readTape {F : Type} [ParquetDecoder F] [AnalyticFloat F] [DecimalArith]
    [TypeSizes] (bytes : List UInt8) (limits : ResourceLimits) : Outcome (List ChainSnapshot) := do
  let file ← ParquetDecoder.read bytes
  let declared ← file.rowGroups.foldlM declaredBytes ⟨0, u64.contains_zero⟩
  require (declared.value ≤ limits.maxDecompressedBytes.value)
    (.TapeTooLarge "max_decompressed_bytes" declared.value limits.maxDecompressedBytes.value)
  validateSchema file.schema
  let batches ← file.batches
  let loop ← batches.foldlM (ParquetLoop.readBatch limits) .init
  let loop ← loop.flush limits
  return loop.buffer.tape

instance {F : Type} [ParquetDecoder F] [AnalyticFloat F] [DecimalArith] [TypeSizes] :
    ParquetReader where
  readTape := ParquetFeed.readTape

end IronCondor
