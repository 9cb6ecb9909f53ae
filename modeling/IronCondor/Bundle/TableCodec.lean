import IronCondor.Bundle.ReaderGate

/-! # Tables written and read

A library that returns what it was given, batch by batch, carries a table from the writer to the
reader: the rows come back in the order they were written, whatever batches they are read in. -/
namespace IronCondor

open Checked ExceptRun

variable {T Row Cells : Type} [TableFormat T Cells] {schema : List ColumnField}
  {cells : Row → Outcome Cells} {rows : List Row} {limits : ResourceLimits}

/-- What the format is relied on for: a closed table has the schema it was created with, counts
its rows, declares no negative size, and holds the appended batches end to end. -/
def Lossless (T Cells : Type) [TableFormat T Cells] : Prop :=
  ∀ (schema : List ColumnField) (writer closed : TableFormat.Writer T Cells)
    (batches : List (List Cells)) (table : T),
    TableFormat.create schema = .ok writer →
    batches.foldlM TableFormat.append writer = .ok closed →
    TableFormat.close closed = .ok table →
    ∃ (file : TableFile Cells) (decoded : List (TableBatch Cells)),
      TableFormat.read table = .returned (.ok file) ∧ file.schema = schema ∧
      file.numRows = batches.flatten.length ∧ (∀ group ∈ file.rowGroups, group.WellFormed) ∧
      (file.batches = .returned (.ok (decoded.map fun batch => .returned (.ok batch)))) ∧
      decoded.flatMap TableBatch.rows = batches.flatten

/-- A table within the byte ceiling, as declared and as decoded. -/
def TableFits (Cells : Type) [TableFormat T Cells] (limits : ResourceLimits) (table : T) : Prop :=
  ∀ file : TableFile Cells, TableFormat.read table = .returned (.ok file) →
    (file.rowGroups.map RowGroup.totalByteSize).sum ≤ limits.maxDecompressedBytes.value ∧
    ∀ decoded : List (TableBatch Cells),
      (file.batches = .returned (.ok (decoded.map fun batch => .returned (.ok batch)))) →
      ((decoded.map TableBatch.arrayMemorySize).sum : Nat) ≤ limits.maxDecompressedBytes.value

theorem writeChunk_eq_ok {writer next : TableFormat.Writer T Cells} {chunk : List Row} :
    writeChunk T cells writer chunk = .ok next ↔
      ∃ batch, List.Forall₂ (fun row c => cells row = .ok c) chunk batch ∧
        TableFormat.append writer batch = .ok next := by
  simp only [writeChunk, bind_ok_iff, upstream_eq_ok, Pointwise.mapM_ok_iff]

/-- Chunks are written one after the other, each as the batch of its rows' cells. -/
theorem writeChunks_eq_ok {writer closed : TableFormat.Writer T Cells} {chunks : List (List Row)} :
    chunks.foldlM (writeChunk T cells) writer = .ok closed ↔
      ∃ batches, List.Forall₂ (List.Forall₂ fun row c => cells row = .ok c) chunks batches ∧
        batches.foldlM TableFormat.append writer = .ok closed := by
  induction chunks generalizing writer with
  | nil =>
    simp only [foldlM_nil_ok, List.forall₂_nil_left_iff, exists_eq_left]
  | cons chunk chunks ih =>
    simp only [foldlM_cons_ok, writeChunk_eq_ok, ih, List.forall₂_cons_left_iff]
    constructor
    · rintro ⟨next, ⟨batch, hbatch, happend⟩, batches, hbatches, hrest⟩
      exact ⟨batch :: batches, ⟨batch, batches, hbatch, hbatches, rfl⟩,
        foldlM_cons_ok.2 ⟨next, happend, hrest⟩⟩
    · rintro ⟨_, ⟨batch, batches, hbatch, hbatches, rfl⟩, hfold⟩
      obtain ⟨next, happend, hrest⟩ := foldlM_cons_ok.1 hfold
      exact ⟨next, ⟨batch, hbatch, happend⟩, batches, hbatches, hrest⟩

/-- A table that was written holds the cells of its rows, in their order. -/
theorem encodeTable_cells (hlossless : Lossless T Cells) {table : T} {count : Nat}
    (h : encodeTable schema cells rows = .ok (table, count)) :
    count = rows.length ∧ ∃ (file : TableFile Cells) (decoded : List (TableBatch Cells)),
      TableFormat.read table = .returned (.ok file) ∧ file.schema = schema ∧
      file.numRows = rows.length ∧ (∀ group ∈ file.rowGroups, group.WellFormed) ∧
      (file.batches = .returned (.ok (decoded.map fun batch => .returned (.ok batch)))) ∧
      List.Forall₂ (fun row c => cells row = .ok c) rows (decoded.flatMap TableBatch.rows) := by
  simp only [encodeTable, bind_ok_iff, upstream_eq_ok, writeChunks_eq_ok, pure_ok_iff,
    Prod.mk.injEq] at h
  obtain ⟨writer, hcreate, closed, ⟨batches, hbatches, happend⟩, table', hclose, rfl, rfl⟩ := h
  obtain ⟨file, decoded, hread, hschema, hnum, hgroups, hfile, hrows⟩ :=
    hlossless schema writer closed batches table' hcreate happend hclose
  have hcells : List.Forall₂ (fun row c => cells row = .ok c) rows batches.flatten := by
    have hflat := List.rel_flatten hbatches
    rwa [SortedTable.flatten_chunks (by decide)] at hflat
  refine ⟨rfl, file, decoded, hread, hschema, ?_, hgroups, hfile, hrows ▸ hcells⟩
  rw [hnum, hcells.length_eq]

/-- A table that was written is read as the rows it was written from. -/
theorem encodeTable_holds (hlossless : Lossless T Cells) {table : T} {count : Nat}
    {R : Cells → Row → Prop} (h : encodeTable schema cells rows = .ok (table, count))
    (hR : ∀ row ∈ rows, ∀ c, cells row = .ok c → R c row)
    (hfits : TableFits Cells limits table)
    (hlength : (rows.length : Int) ≤ limits.maxRowsPerTable.value) :
    count = rows.length ∧ (Stored.Regular table).Holds schema limits R rows := by
  obtain ⟨rfl, file, decoded, hread, hschema, hnum, hgroups, hfile, hcells⟩ :=
    encodeTable_cells hlossless h
  obtain ⟨hdeclared, hdecoded⟩ := hfits file hread
  refine ⟨rfl, table, file, rfl, hread, ?_⟩
  refine ⟨?_, hgroups, hdeclared, hschema ▸ .refl _, ⟨decoded, hfile, ?_, hdecoded decoded hfile⟩,
    hlength⟩
  · rw [hnum]
    exact ⟨Int.natCast_nonneg _, hlength⟩
  · exact Pointwise.imp_right hcells.flip fun c row hrow hrc => hR row hrow c hrc

end IronCondor
