import IronCondor.Data.CsvReading
import IronCondor.Data.ParquetReading
import IronCondor.Data.SmallMarket

/-! # Small chain files

Two snapshots, the first of two rows, as a Parquet file and as two CSV files: concrete inputs on
which results about the file feeds are exercised. -/
namespace IronCondor.SmallFiles

open Checked SmallMarket

/-- Decimals as their own floats. -/
scoped instance : AnalyticFloat Decimal where
  isFinite _ := true
  fromF64Retain := some
  zero := ⟨0, 0⟩

/-- A list of characters cut at a separator. -/
def cut (separator : Char) (chars : List Char) : List (List Char) :=
  chars.foldr (fun c pieces =>
    if c = separator then [] :: pieces
    else match pieces with
      | [] => [[c]]
      | piece :: pieces => (c :: piece) :: pieces) [[]]

/-- Digits with at most one decimal point. -/
scoped instance : FloatText Decimal where
  parse text :=
    match cut '.' text.toList with
    | [whole] => (IntegerText.digits whole).map fun n => ⟨n, 0⟩
    | [whole, fraction] =>
      (IntegerText.digits (whole ++ fraction)).map fun n => ⟨n, fraction.length⟩
    | _ => none
  parse_empty := by decide

/-- Lines of cells without quotes. -/
scoped instance : CsvDecoder where
  read bytes :=
    let lines := (cut '\n' (bytes.map fun b => Char.ofNat b.toNat)).filter (· ≠ [])
    let cells := lines.map fun line => (cut ',' line).map String.ofList
    ⟨.ok (cells.headD []), cells.tail, none⟩

scoped instance : TypeSizes := ⟨56, 200, 128⟩

/-- A row of the chain at this instant. -/
def row (ts : Bounded i64) (style : String) (theta : Option Decimal) : TypedRow Decimal where
  ts
  underlying := "SPX"
  underlyingPrice := ⟨510000, by decide⟩
  tickSize := ⟨5, by decide⟩
  contractMultiplier := ⟨100, by decide⟩
  expiration := ⟨1750291200000000000, by decide⟩
  strike := ⟨510000, by decide⟩
  style
  bid := ⟨100, by decide⟩
  ask := ⟨110, by decide⟩
  bidSize := ⟨5, by decide⟩
  askSize := ⟨7, by decide⟩
  impliedVolatility := ⟨25, 2⟩
  delta := some ⟨5, 1⟩
  gamma := none
  theta
  vega := none

def snapshots : List (List (TypedRow Decimal)) :=
  [[row ⟨1000, by decide⟩ "call" none, row ⟨1000, by decide⟩ "Put" (some ⟨125, 3⟩)],
    [row ⟨2000, by decide⟩ "call" none]]

def header : List String :=
  ["ts", "underlying", "underlying_price", "tick_size", "contract_multiplier", "expiration",
    "strike", "style", "bid", "ask", "bid_size", "ask_size", "implied_volatility", "delta", "gamma",
    "theta", "vega"]

def record (ts style theta : String) : List String :=
  [ts, "SPX", "510000", "5", "100", "1750291200000000000", "510000", style, "100", "110", "5", "7",
    "0.25", "0.5", "", theta, ""]

def csvBytes (records : List (List String)) : List UInt8 :=
  ("\n".intercalate ((header :: records).map ",".intercalate)).toUTF8.toList

def firstFile : DirEntry :=
  ⟨"0000.csv", .Regular (csvBytes [record "1000" "call" "", record "1000" "Put" "0.125"])⟩

def secondFile : DirEntry := ⟨"0001.csv", .Regular (csvBytes [record "2000" "call" ""])⟩

def image : ParquetImage Decimal where
  rowGroups := [⟨[⟨300, 4, none⟩], 600⟩]
  batches :=
    [⟨[(row ⟨1000, by decide⟩ "call" none).toParquet ⟨0, by decide⟩], 400⟩,
      ⟨[(row ⟨1000, by decide⟩ "Put" (some ⟨125, 3⟩)).toParquet ⟨0, by decide⟩,
        (row ⟨2000, by decide⟩ "call" none).toParquet ⟨1, by decide⟩], 800⟩]

/-- The bytes of the Parquet file, as the decoder knows them. -/
def parquetBytes : List UInt8 := "PAR1 spx PAR1".toUTF8.toList

/-- The same rows in other batches, one of them empty. -/
def rebatched : List (RecordBatch Decimal) :=
  [⟨[(row ⟨1000, by decide⟩ "call" none).toParquet ⟨0, by decide⟩,
      (row ⟨1000, by decide⟩ "Put" (some ⟨125, 3⟩)).toParquet ⟨0, by decide⟩], 700⟩, ⟨[], 0⟩,
    ⟨[(row ⟨2000, by decide⟩ "call" none).toParquet ⟨1, by decide⟩], 400⟩]

def rebatchedBytes : List UInt8 := "PAR1 rebatched PAR1".toUTF8.toList

scoped instance : ParquetDecoder Decimal where
  read bytes :=
    if bytes = parquetBytes then
      .ok ⟨image.rowGroups, expectedSchema, .ok (image.batches.map .ok)⟩
    else if bytes = rebatchedBytes then
      .ok ⟨image.rowGroups, expectedSchema, .ok (rebatched.map .ok)⟩
    else .error (.Data "failed to read parquet metadata (truncated or corrupt footer)")

scoped instance : Sha256 := ⟨id⟩

def files (path : String) : FileState :=
  if path = "spx.parquet" then .Regular parquetBytes
  else .Missing "No such file or directory (os error 2)"

/-- The directory lists its files in another order than that of their names. -/
def directories (path : String) : DirState :=
  if path = "spx" then .Directory [secondFile, firstFile]
  else .Missing "No such file or directory (os error 2)"

def limits : ResourceLimits := (config .Naive).limits

/-- The record of a row, in the columns of the header. -/
theorem record_writes {ts : Bounded i64} {style text : String} {theta : Option Decimal}
    (htheta : theta = none ∧ text = "" ∨ ∃ d, theta = some d ∧ FloatText.parse text = some d) :
    WritesRow header (row ts style theta) (record (toString ts.value) style text) := by
  have hiv : FloatText.parse "0.25" = some (⟨25, 2⟩ : Decimal) := by decide +kernel
  have hdelta : FloatText.parse "0.5" = some (⟨5, 1⟩ : Decimal) := by decide +kernel
  refine ⟨rfl, rfl, rfl, rfl, rfl, rfl, rfl, rfl, rfl, rfl, rfl, rfl, ⟨"0.25", rfl, hiv⟩,
    ⟨"0.5", rfl, hdelta⟩, rfl, ?_, rfl⟩
  rcases htheta with ⟨rfl, rfl⟩ | ⟨d, rfl, hparse⟩
  · rfl
  · exact ⟨text, rfl, hparse⟩

theorem firstFile_writes : WritesFile (snapshots.headD []) firstFile := by
  refine ⟨_, header, [record "1000" "call" "", record "1000" "Put" "0.125"], rfl, ?_⟩
  refine ⟨by decide +kernel, by decide +kernel, by decide +kernel, ?_⟩
  have htheta : FloatText.parse "0.125" = some (⟨125, 3⟩ : Decimal) := by decide +kernel
  exact .cons (record_writes (.inl ⟨rfl, rfl⟩))
    (.cons (record_writes (.inr ⟨⟨125, 3⟩, rfl, htheta⟩)) .nil)

theorem secondFile_writes : WritesFile [row ⟨2000, by decide⟩ "call" none] secondFile := by
  refine ⟨_, header, [record "2000" "call" ""], rfl, ?_⟩
  refine ⟨by decide +kernel, by decide +kernel, by decide +kernel, ?_⟩
  exact .cons (record_writes (.inl ⟨rfl, rfl⟩)) .nil

theorem directory_writes :
    WritesDirectory snapshots [secondFile, firstFile] [firstFile, secondFile] where
  listed := .swap _ _ _
  ordered := by
    refine .cons ?_ (List.pairwise_singleton _ _)
    rintro _ ⟨⟩
    · decide +kernel
    · contradiction
  files := .cons firstFile_writes (.cons secondFile_writes .nil)

theorem directory_within : FilesWithin limits [firstFile, secondFile] where
  steps := by decide
  file := by decide +kernel
  decoded := by decide +kernel

theorem parquet_writes : WritesParquet snapshots parquetBytes image where
  decodes := if_pos rfl
  wellFormed := by
    rintro _ ⟨⟩
    · refine ⟨?_, by decide⟩
      rintro _ ⟨⟩
      · decide
      · contradiction
    · contradiction
  rows := @ParquetRows.cons _ 0 ⟨0, by decide⟩ _ _ _ rfl
    (@ParquetRows.cons _ 1 ⟨1, by decide⟩ _ _ _ rfl (.nil 2))

theorem parquet_within : image.Within limits parquetBytes where
  file := by decide +kernel
  declared := by decide
  decoded := by decide

end IronCondor.SmallFiles
