import IronCondor.Data.Cells
import IronCondor.Data.Historical
import IronCondor.Data.Tape
import Mathlib.Data.String.Basic

/-! # The CSV feed

A directory holds one file per step; the order of the names is the replay order. Each file is
read once, hashed and parsed into one snapshot. -/
namespace IronCondor

open Checked

/-- What a CSV text consists of: its header and its records, up to the first one that cannot be
decoded. -/
structure CsvText where
  header : Except String (List String)
  records : List (List String)
  failure : Option String
deriving DecidableEq

/-- The upstream CSV decoder, before its cells are trimmed. -/
class CsvDecoder where
  read : List UInt8 → CsvText

/-- The blanks that trimming removes. -/
def isBlank (c : Char) : Bool :=
  let n := c.toNat
  (9 ≤ n && n ≤ 13) || n == 0x20 || n == 0x85 || n == 0xA0 || n == 0x1680 ||
    (0x2000 ≤ n && n ≤ 0x200A) || n == 0x2028 || n == 0x2029 || n == 0x202F || n == 0x205F ||
    n == 0x3000

/-- A text without the blanks around it. -/
def trimBlanks (text : String) : String :=
  String.ofList ((text.toList.dropWhile isBlank).reverse.dropWhile isBlank).reverse

/-- The reader of the feed, which trims every cell. -/
def CsvText.trim (text : CsvText) : CsvText where
  header := text.header.map (·.map trimBlanks)
  records := text.records.map (·.map trimBlanks)
  failure := text.failure

/-- The column indices a header resolves to. -/
structure CsvColumns where
  ts : Nat
  underlying : Nat
  underlyingPrice : Nat
  tickSize : Nat
  contractMultiplier : Nat
  expiration : Nat
  strike : Nat
  style : Nat
  bid : Nat
  ask : Nat
  bidSize : Nat
  askSize : Nat
  impliedVolatility : Nat
  delta : Option Nat
  gamma : Option Nat
  theta : Option Nat
  vega : Option Nat

/-- `from_header`. -/
def CsvColumns.fromHeader (header : List String) : Outcome CsvColumns := do
  let find := fun (name : String) => header.findIdx? (· == name)
  let req := fun (name : String) =>
    okOr (find name) (BacktestError.Conversion s!"csv header is missing required column {name}")
  return {
    ts := ← req "ts"
    underlying := ← req "underlying"
    underlyingPrice := ← req "underlying_price"
    tickSize := ← req "tick_size"
    contractMultiplier := ← req "contract_multiplier"
    expiration := ← req "expiration"
    strike := ← req "strike"
    style := ← req "style"
    bid := ← req "bid"
    ask := ← req "ask"
    bidSize := ← req "bid_size"
    askSize := ← req "ask_size"
    impliedVolatility := ← req "implied_volatility"
    delta := find "delta"
    gamma := find "gamma"
    theta := find "theta"
    vega := find "vega" }

/-- `req_cell`. -/
def csvCell (record : List String) (index : Nat) (column : String) : Outcome String :=
  okOr record[index]? (.Conversion s!"csv row is missing a value for column {column}")

/-- `opt_greek`: without the column, or with an empty cell, the value is zero. -/
def optGreek {F : Type} [AnalyticFloat F] [FloatText F] (record : List String)
    (index : Option Nat) (column : String) : Outcome F :=
  match index.bind fun i => record[i]? with
  | none => .ok AnalyticFloat.zero
  | some cell => if cell = "" then .ok AnalyticFloat.zero else parseF64 cell column

/-- The snapshot-level fields of a file. -/
structure SnapshotHead where
  ts : SimTime
  underlying : Underlying
  underlyingPrice : PriceCents
  tickSizeCents : PriceCents
  contractMultiplier : Bounded u32
deriving DecidableEq

/-- The parsed content of a file: the fields of its first row and the quotes of all. -/
structure ParsedCsv (F : Type) where
  headerFields : Option SnapshotHead
  quotes : List (RawQuote F)

section Parse

variable {F : Type} [AnalyticFloat F] [FloatText F]

/-- The snapshot-level fields of a record. -/
def csvHead (cols : CsvColumns) (record : List String) : Outcome SnapshotHead := do
  let ts ← parseI64 (← csvCell record cols.ts "ts") "ts"
  let underlying ← Underlying.new (← csvCell record cols.underlying "underlying")
  let underlyingPrice ←
    parseCents (← csvCell record cols.underlyingPrice "underlying_price") "underlying_price"
  let tick ← parseCents (← csvCell record cols.tickSize "tick_size") "tick_size"
  let multiplier ←
    parseU32 (← csvCell record cols.contractMultiplier "contract_multiplier")
      "contract_multiplier"
  return {
    ts
    underlying
    underlyingPrice
    tickSizeCents := tick
    contractMultiplier := multiplier }

/-- The quote of a record. -/
def csvQuote (cols : CsvColumns) (record : List String) : Outcome (RawQuote F) := do
  let expirationNs ← parseI64 (← csvCell record cols.expiration "expiration") "expiration"
  let strike ← parseCents (← csvCell record cols.strike "strike") "strike"
  let style ← parseStyle (← csvCell record cols.style "style")
  let bid ← parseCents (← csvCell record cols.bid "bid") "bid"
  let ask ← parseCents (← csvCell record cols.ask "ask") "ask"
  let bidSize ← Quantity.new (← parseU32 (← csvCell record cols.bidSize "bid_size") "bid_size")
  let askSize ← Quantity.new (← parseU32 (← csvCell record cols.askSize "ask_size") "ask_size")
  let impliedVolatility ←
    parseF64 (← csvCell record cols.impliedVolatility "implied_volatility") "implied_volatility"
  return {
    expiration := .DateTime (.ofNanos expirationNs.value)
    strike
    style
    bid
    ask
    bidSize
    askSize
    impliedVolatility
    delta := ← optGreek record cols.delta "delta"
    gamma := ← optGreek record cols.gamma "gamma"
    theta := ← optGreek record cols.theta "theta"
    vega := ← optGreek record cols.vega "vega" }

/-- One record of a file. -/
def readRecord (limits : ResourceLimits) (step : StepIndex) (cols : CsvColumns)
    (parsed : ParsedCsv F) (record : List String) : Outcome (ParsedCsv F) := do
  let head ← csvHead cols record
  match parsed.headerFields with
  | some first =>
    ensureConst "ts" step.value head.ts.value first.ts.value
    ensureConst "underlying" step.value head.underlying.ticker first.underlying.ticker
    ensureConst "underlying_price" step.value head.underlyingPrice.value
      first.underlyingPrice.value
    ensureConst "tick_size" step.value head.tickSizeCents.value first.tickSizeCents.value
    ensureConst "contract_multiplier" step.value head.contractMultiplier.value
      first.contractMultiplier.value
  | none => pure ()
  let nextCount ← checked u64 (parsed.quotes.length + 1 : Nat)
  require (nextCount.value ≤ limits.maxContractsPerSnapshot.value)
    (.TapeTooLarge "max_contracts_per_snapshot" nextCount.value
      limits.maxContractsPerSnapshot.value)
  let quote ← csvQuote cols record
  return {
    headerFields := some (parsed.headerFields.getD head)
    quotes := parsed.quotes ++ [quote] }

/-- `parse_csv_snapshot`. -/
def parseCsvSnapshot [CsvDecoder] (bytes : List UInt8) (step : StepIndex)
    (limits : ResourceLimits) : Outcome (SnapshotHead × List (RawQuote F)) := do
  let text := (CsvDecoder.read bytes).trim
  let header ← text.header.mapError fun e => BacktestError.Data s!"csv header: {e}"
  let cols ← CsvColumns.fromHeader header
  let parsed ← text.records.foldlM (readRecord limits step cols) ⟨none, []⟩
  match text.failure with
  | some e => .error (.Data s!"csv record: {e}")
  | none => pure ()
  let head ← okOr parsed.headerFields (.Conversion
    (s!"csv file at step {step.value} has no data rows; every file is one chain " ++ "snapshot"))
  return (head, parsed.quotes)

end Parse

/-- An entry of a directory: its name and what the operating system answers for it. -/
structure DirEntry where
  name : String
  state : FileState

/-- What the operating system answers for the path of a directory. -/
inductive DirState where
  | Missing (msg : String)
  | NotDirectory
  | Directory (entries : List DirEntry)

/-- The directories the CSV feed reads from. -/
abbrev Directories := String → DirState

/-- The CSV feed: its tape, with the identity of the directory it was read from. -/
structure CsvFeed where
  snapshots : List ChainSnapshot
  tapeMeta : TapeMeta
  path : String
  sha256 : String

namespace CsvFeed

/-- The feed at its start. -/
def feed (csv : CsvFeed) : Feed where
  tapeMeta := csv.tapeMeta
  source := .Csv csv.path csv.sha256
  tape := csv.snapshots

/-- The scan of the directory: regular files only, and no more than there may be steps. -/
def scan (limits : ResourceLimits) (files : List DirEntry) (entry : DirEntry) :
    Outcome (List DirEntry) := do
  match entry.state with
  | .Special => .error (.Conversion
      (s!"csv feed directory contains a non-file entry {entry.name.quote}; every entry must be a " ++
        "regular per-step chain file"))
  | _ => pure ()
  let files := files ++ [entry]
  let count ← checked u64 (files.length : Nat)
  require (count.value ≤ limits.maxSteps.value)
    (.TapeTooLarge "max_steps" count.value limits.maxSteps.value)
  return files

/-- The variables of the materialisation loop; `hashed` is what the directory hash has seen. -/
structure Loop where
  buffer : TapeBuffer
  anchorTs : Option SimTime
  decodedBytes : Bounded u64
  hashed : List UInt8

def Loop.init : Loop where
  buffer := .empty
  anchorTs := none
  decodedBytes := ⟨0, u64.contains_zero⟩
  hashed := []

end CsvFeed

section Open

variable [CsvDecoder] [DecimalArith] [TypeSizes] [Sha256]

/-- What the directory hash sees of a file: its name, a separator and its own hash. -/
def CsvFeed.hashEntry (hashed : List UInt8) (name : String) (bytes : List UInt8) :
    List UInt8 :=
  hashed ++ name.toUTF8.toList ++ [0] ++ (toHex (Sha256.digest bytes)).toUTF8.toList

/-- One file with its place in the order of the names. -/
def CsvFeed.readFile (F : Type) [AnalyticFloat F] [FloatText F] (limits : ResourceLimits)
    (loop : CsvFeed.Loop) (file : DirEntry × Nat) : Outcome CsvFeed.Loop := do
  let (entry, index) := file
  let step ← checked u32 (index : Nat)
  match entry.state with
  | .Missing msg => .error (.DataIo msg)
  | .Special => .error (.Conversion s!"csv feed entry is not a regular file: {entry.name.quote}")
  | .Regular bytes =>
    require ((bytes.length : Int) ≤ limits.maxFileBytes.value)
      (.TapeTooLarge "max_file_bytes" bytes.length limits.maxFileBytes.value)
    let decodedBytes ← checked u64 (loop.decodedBytes.value + bytes.length)
    require (decodedBytes.value ≤ limits.maxDecompressedBytes.value)
      (.TapeTooLarge "max_decompressed_bytes" decodedBytes.value limits.maxDecompressedBytes.value)
    let hashed := CsvFeed.hashEntry loop.hashed entry.name bytes
    let (head, quotes) ← parseCsvSnapshot (F := F) bytes step limits
    let anchor := loop.anchorTs.getD head.ts
    let snapshot ← rawQuotesToSnapshot
      { ts := head.ts
        step
        anchorTs := anchor
        underlying := head.underlying
        underlyingPrice := head.underlyingPrice
        tickSizeCents := head.tickSizeCents
        contractMultiplier := head.contractMultiplier } quotes
    let buffer ← pushChecked loop.buffer snapshot limits
    return { buffer, anchorTs := some anchor, decodedBytes, hashed }

/-- `CsvFeed::open`. -/
def CsvFeed.open (F : Type) [AnalyticFloat F] [FloatText F] (directories : Directories) (path : String)
    (limits : ResourceLimits) : Outcome CsvFeed :=
  match directories path with
  | .Missing msg => .error (.DataIo msg)
  | .NotDirectory => .error (.Conversion s!"csv feed path is not a directory: {path}")
  | .Directory entries => do
    let files ← entries.foldlM (CsvFeed.scan limits) []
    let files := files.mergeSort fun a b => a.name ≤ b.name
    let loop ← files.zipIdx.foldlM (CsvFeed.readFile F limits) .init
    let sha256 := toHex (Sha256.digest loop.hashed)
    let tapeMeta ← TapeMeta.fromTape sha256 loop.buffer.tape
    return { snapshots := loop.buffer.tape, tapeMeta, path, sha256 }

end Open

end IronCondor
