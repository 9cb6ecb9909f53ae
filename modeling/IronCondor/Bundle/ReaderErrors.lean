import IronCondor.Bundle.ReaderGate
import IronCondor.Lib.Failure

/-! # What the reader refuses with

Whatever a directory holds, and whatever the upstream libraries answer for it, the reader hands on
a bundle or one typed error: the bundle is malformed, or it crosses a ceiling of the limits, or a
count of it overflows. -/
namespace IronCondor

open Checked ExceptRun

/-- The ceilings a bundle is read under. -/
def readerCeilings (limits : ResourceLimits) : List (String × Int) :=
  [("max_manifest_bytes", limits.maxManifestBytes.value),
    ("max_string_len", limits.maxStringLen.value),
    ("max_rows_per_table", limits.maxRowsPerTable.value),
    ("max_decompressed_bytes", limits.maxDecompressedBytes.value)]

/-- An error of the reader: a ceiling is only refused for a value above it. -/
def ReaderError (limits : ResourceLimits) (e : BacktestError) : Prop :=
  (∃ msg, e = .Bundle msg) ∨ e = .ArithmeticOverflow ∨
    ∃ limit value cap, e = .TapeTooLarge limit value cap ∧ (limit, cap) ∈ readerCeilings limits ∧
      cap < value

namespace ReaderError

variable {limits : ResourceLimits}

@[simp] theorem bundle (msg : String) : ReaderError limits (.Bundle msg) := .inl ⟨msg, rfl⟩

@[simp] theorem bundleErr (context error : String) :
    ReaderError limits (bundleErr context error) := bundle _

@[simp] theorem overflow : ReaderError limits .ArithmeticOverflow := .inr (.inl rfl)

theorem ceiling {limit : String} {value cap : Int} (hlimit : (limit, cap) ∈ readerCeilings limits)
    (h : ¬ value ≤ cap) : ReaderError limits (.TapeTooLarge limit value cap) :=
  .inr (.inr ⟨limit, value, cap, rfl, hlimit, not_le.1 h⟩)

end ReaderError

section Parts

variable {limits : ResourceLimits} {α : Type}

@[simp] theorem checked_fails {r : IntRange} {n : Int} :
    FailsIn (ReaderError limits) (checked r n) :=
  .narrow fun _ => ReaderError.overflow

@[simp] theorem narrow_fails {r : IntRange} {n : Int} {msg : String} :
    FailsIn (ReaderError limits) (narrow r (BacktestError.Bundle msg) n) :=
  .narrow fun _ => ReaderError.bundle msg

@[simp] theorem require_fails {p : Prop} [Decidable p] {msg : String} :
    FailsIn (ReaderError limits) (require p (BacktestError.Bundle msg)) :=
  .require fun _ => ReaderError.bundle msg

@[simp] theorem okOr_fails {o : Option α} {msg : String} :
    FailsIn (ReaderError limits) (okOr o (BacktestError.Bundle msg)) :=
  .okOr fun _ => ReaderError.bundle msg

@[simp] theorem upstream_fails {context : String} {r : Except String α} :
    FailsIn (ReaderError limits) (upstream context r) := by
  cases r with
  | ok a => exact .ok a
  | error error => exact .error (ReaderError.bundleErr context error)

@[simp] theorem guardBundleParquet_fails {table op : String} {r : Upstream α} :
    FailsIn (ReaderError limits) (guardBundleParquet table op r) := by
  cases r with
  | returned result => exact .ok result
  | panicked payload => exact .error (ReaderError.bundle _)

@[simp] theorem inBundle_fails {context : String} {r : Outcome α} :
    FailsIn (ReaderError limits) (inBundle context r) := by
  cases r with
  | ok a => exact .ok a
  | error error => exact .error (ReaderError.bundle _)

@[simp] theorem checkStringLen_fails {s : String} :
    FailsIn (ReaderError limits) (checkStringLen s limits) :=
  .require fun h => .ceiling (by simp [readerCeilings]) h

@[simp] theorem checkRows_fails {rows : Bounded u64} :
    FailsIn (ReaderError limits) (checkRows rows limits) :=
  .require fun h => .ceiling (by simp [readerCeilings]) h

@[simp] theorem checkBytes_fails {bytes : Bounded u64} :
    FailsIn (ReaderError limits) (checkBytes bytes limits) :=
  .require fun h => .ceiling (by simp [readerCeilings]) h

@[simp] theorem checkManifestBytes_fails {len : Nat} :
    FailsIn (ReaderError limits) (checkManifestBytes len limits) :=
  .require fun h => .ceiling (by simp [readerCeilings]) h

end Parts

section Manifest

variable {limits : ResourceLimits} {N : Type} [ManifestSerde N]

theorem parseManifest_fails {text : List UInt8} :
    FailsIn (ReaderError limits) (parseManifest text limits) := by
  simp [parseManifest, FailsIn.forM]

theorem readManifest_fails {stored : Stored (List UInt8)} :
    FailsIn (ReaderError limits) (readManifest stored limits) := by
  cases stored <;> simp [readManifest, parseManifest_fails]

end Manifest

section Cells

variable {limits : ResourceLimits} {α F : Type} [RatioFloat F] {row : Nat} {column : String}

@[simp] theorem requiredCell_fails {cell : Option α} :
    FailsIn (ReaderError limits) (requiredCell cell row column) := okOr_fails

@[simp] theorem u32FromI32_fails {cell : Option (Bounded i32)} :
    FailsIn (ReaderError limits) (u32FromI32 cell row column) := by simp [u32FromI32]

@[simp] theorem u64FromI64_fails {cell : Option (Bounded i64)} :
    FailsIn (ReaderError limits) (u64FromI64 cell row column) := by simp [u64FromI64]

@[simp] theorem nonnegI64Cell_fails {cell : Option (Bounded i64)} :
    FailsIn (ReaderError limits) (nonnegI64Cell cell row column) := by simp [nonnegI64Cell]

@[simp] theorem finiteF64Cell_fails {cell : Option F} :
    FailsIn (ReaderError limits) (finiteF64Cell cell row column) := by simp [finiteF64Cell]

@[simp] theorem stringCell_fails {cell : Option String} :
    FailsIn (ReaderError limits) (stringCell limits cell row column) := by simp [stringCell]

@[simp] theorem optStringCell_fails {cell : Option String} :
    FailsIn (ReaderError limits) (optStringCell limits cell row column) := by
  cases cell <;> simp [optStringCell]

theorem decodeFill_fails {cells : FillCells} :
    FailsIn (ReaderError limits) (decodeFill limits cells row) := by simp [decodeFill]

theorem decodeEquity_fails {cells : EquityCells F} :
    FailsIn (ReaderError limits) (decodeEquity cells row) := by simp [decodeEquity]

theorem decodePosition_fails {cells : PositionCells} :
    FailsIn (ReaderError limits) (decodePosition limits cells row) := by simp [decodePosition]

theorem decodeGreeks_fails {cells : GreeksCells} :
    FailsIn (ReaderError limits) (decodeGreeks cells row) := by simp [decodeGreeks]

end Cells

section Tables

variable {limits : ResourceLimits} {T Row Cells : Type} {table : String}
  {expected schema : List ColumnField} {decodeRow : Cells → Nat → Outcome Row}

theorem validateTableSchema_fails :
    FailsIn (ReaderError limits) (validateTableSchema table schema expected) := by
  simp [validateTableSchema, FailsIn.forM]

theorem declaredTableBytes_fails {declared : Bounded u64} {group : RowGroup} :
    FailsIn (ReaderError limits) (declaredTableBytes table declared group) := by
  simp [declaredTableBytes, FailsIn.forM]

theorem readBatch_fails (hrow : ∀ cells i, FailsIn (ReaderError limits) (decodeRow cells i))
    {loop : TableLoop Row} {decoded : Upstream (TableBatch Cells)} :
    FailsIn (ReaderError limits) (loop.readBatch table limits decodeRow decoded) := by
  simp [TableLoop.readBatch, FailsIn.mapM, hrow]

theorem decodeTable_fails [TableFormat T Cells]
    (hrow : ∀ cells i, FailsIn (ReaderError limits) (decodeRow cells i)) {stored : Stored T} :
    FailsIn (ReaderError limits) (decodeTable table expected limits decodeRow stored) := by
  cases stored <;>
    simp [decodeTable, decodeFile, validateTableSchema_fails, declaredTableBytes_fails,
      readBatch_fails, hrow, FailsIn.foldlM_each]

end Tables

section Checks

variable {limits : ResourceLimits} {F : Type} {tables : BundleTables F}

theorem verifyFillContractId_fails {row : FillRow} :
    FailsIn (ReaderError limits) (verifyFillContractId row) := by
  simp [verifyFillContractId]

theorem verifyPositionContractId_fails {row : PositionRow} :
    FailsIn (ReaderError limits) (verifyPositionContractId row) := by
  simp [verifyPositionContractId]

theorem verifyRows_fails {runId : String} {fills : List FillRow} {positions : List PositionRow} :
    FailsIn (ReaderError limits) (verifyRows runId fills positions) := by
  simp [verifyRows, FailsIn.forM, verifyFillContractId_fails, verifyPositionContractId_fails]

theorem checkCounts_fails {counts : RowCounts} :
    FailsIn (ReaderError limits) (tables.checkCounts counts) := by
  simp [BundleTables.checkCounts, checkCount]

theorem verifyReferencedInput_fails [Sha256] {files : Files} {spec : DataSourceSpec} :
    FailsIn (ReaderError limits) (verifyReferencedInput files spec limits false) := by
  cases spec with
  | Csv path sha256 | Simulator spec => exact .ok ()
  | Parquet path recorded =>
    by_cases hempty : recorded = ""
    · simp [verifyReferencedInput, hempty]
    · cases hfile : files path <;> simp [verifyReferencedInput, hempty, hfile]

theorem validateUniqueKeys_fails {Row κ : Type} [DecidableEq κ] {key : Row → κ}
    {duplicate : κ → String} {rows : List Row} :
    FailsIn (ReaderError limits) (validateUniqueKeys key duplicate rows) := by
  simp [validateUniqueKeys, checkNextKey, FailsIn.foldlM_each]

theorem validateLastStep_fails {table : String} {stepCount : Bounded u32}
    {last : Option StepIndex} :
    FailsIn (ReaderError limits) (validateLastStep table stepCount last) := by
  cases last <;> simp [validateLastStep]

theorem validateStructure_fails : FailsIn (ReaderError limits) tables.validateStructure := by
  simp [BundleTables.validateStructure, validateUniqueFillKeys, validateUniquePositionKeys,
    validateUniqueKeys_fails, validateContiguousSteps, FailsIn.forM,
    validateCrossTableStepConsistency, validateLastStep_fails]

end Checks

section Read

variable {N F T : Type} [Sha256] [RatioFloat F] [ManifestSerde N] [TableFormat T FillCells]
  [TableFormat T (EquityCells F)] [TableFormat T PositionCells] [TableFormat T GreeksCells]

/-- Every directory is read as a bundle or refused with an error of the reader. -/
theorem readBundle_refuses (dir : BundleDir T) (files : Files) (limits : ResourceLimits) :
    FailsIn (ReaderError limits)
      (readBundle dir files limits : Outcome (ValidatedBundle N F)) := by
  simp [readBundle, decodeTables, readManifest_fails, decodeTable_fails, decodeFill_fails,
    decodeEquity_fails, decodePosition_fails, decodeGreeks_fails, checkCounts_fails,
    verifyReferencedInput_fails, verifyRows_fails, validateStructure_fails]

end Read

end IronCondor
