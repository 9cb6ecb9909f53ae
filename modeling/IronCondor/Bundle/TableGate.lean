import IronCondor.Bundle.RowCodec
import IronCondor.Data.ParquetReading
import IronCondor.Lib.Pointwise

/-! # Which table files are read

A table is read exactly when its footer, its columns and its decoded batches stay within the
ceilings and every row decodes. How its rows are grouped and how its columns are ordered does not
matter. -/
namespace IronCondor

open Checked ExceptRun

variable {T Row Cells : Type} {table : String} {limits : ResourceLimits}
  {expected : List ColumnField}

section Ceilings

@[simp] theorem checkRows_eq_ok {rows : Bounded u64} {u : Unit} :
    checkRows rows limits = .ok u ↔ rows.value ≤ limits.maxRowsPerTable.value :=
  require_eq_ok

@[simp] theorem checkBytes_eq_ok {bytes : Bounded u64} {u : Unit} :
    checkBytes bytes limits = .ok u ↔ bytes.value ≤ limits.maxDecompressedBytes.value :=
  require_eq_ok

end Ceilings

section Footer

@[simp] theorem guardBundleParquet_eq_ok {α : Type} {op : String} {call : Upstream α}
    {r : Except String α} : guardBundleParquet table op call = .ok r ↔ call = .returned r := by
  cases call <;> simp [guardBundleParquet]

theorem declaredTableBytes_eq_ok {declared total : Bounded u64} {group : RowGroup} :
    declaredTableBytes table declared group = .ok total ↔
      group.WellFormed ∧ total.value = declared.value + group.totalByteSize := by
  simp only [declaredTableBytes, bind_ok_iff, forM_ok_iff, require_eq_ok, narrow_eq_ok]
  constructor
  · rintro ⟨_, hcolumns, size, hsize, htotal⟩
    have hpos := size.nonneg
    rw [hsize] at hpos htotal
    exact ⟨⟨hcolumns, hpos⟩, htotal⟩
  · rintro ⟨⟨hcolumns, hpos⟩, htotal⟩
    have hdeclared := declared.nonneg
    have hmax := total.le_max
    have hsize : u64.Contains group.totalByteSize := ⟨hpos, by omega⟩
    exact ⟨(), hcolumns, ⟨_, hsize⟩, rfl, htotal⟩

/-- The declared bytes are added up, as long as the footer declares no negative number. -/
theorem declaredTableBytes_run {declared total : Bounded u64} {groups : List RowGroup} :
    groups.foldlM (declaredTableBytes table) declared = .ok total ↔
      (∀ group ∈ groups, group.WellFormed) ∧
        total.value = declared.value + (groups.map RowGroup.totalByteSize).sum := by
  induction groups generalizing declared with
  | nil =>
    rw [foldlM_nil_ok, List.map_nil, List.sum_nil, add_zero]
    constructor
    · rintro rfl
      exact ⟨List.forall_mem_nil _, rfl⟩
    · rintro ⟨-, htotal⟩
      exact (Bounded.ext htotal).symm
  | cons group groups ih =>
    simp only [foldlM_cons_ok, declaredTableBytes_eq_ok, ih, List.forall_mem_cons, List.map_cons,
      List.sum_cons]
    constructor
    · rintro ⟨mid, ⟨hgroup, hmid⟩, hgroups, htotal⟩
      exact ⟨⟨hgroup, hgroups⟩, by omega⟩
    · rintro ⟨⟨hgroup, hgroups⟩, htotal⟩
      -- the sum so far lies below the whole sum, which fits
      have hsize := hgroup.size
      have hrest : 0 ≤ (groups.map RowGroup.totalByteSize).sum :=
        List.sum_nonneg (List.forall_mem_map.2 fun g hg => (hgroups g hg).size)
      have hdeclared := declared.nonneg
      have hmax := total.le_max
      have hmid : u64.Contains (declared.value + group.totalByteSize) := by
        refine ⟨?_, by omega⟩
        change 0 ≤ _
        omega
      exact ⟨⟨_, hmid⟩, ⟨hgroup, rfl⟩, hgroups, by rw [htotal, add_assoc]⟩

/-- A table has the expected columns, in some order. -/
theorem validateTableSchema_eq_ok {schema : List ColumnField}
    (hnames : (expected.map ColumnField.name).Nodup) :
    validateTableSchema table schema expected = .ok () ↔ schema.Perm expected := by
  simp only [validateTableSchema, bind_ok_iff, forM_ok_iff, require_eq_ok, okOr_eq_ok]
  constructor
  · rintro ⟨_, hlength, hfields⟩
    have hsub : expected ⊆ schema := by
      intro want hwant
      obtain ⟨field, hfind, _, htype, hnullable⟩ := hfields want hwant
      have hname : field.name = want.name := by simpa using List.find?_some hfind
      have hfield : field = want := by
        cases field
        cases want
        simp_all
      rw [← hfield]
      exact List.mem_of_find?_eq_some hfind
    exact ((List.Nodup.of_map _ hnames).subperm hsub).perm_of_length_le hlength.le |>.symm
  · intro h
    refine ⟨(), h.length_eq, fun want hwant => ⟨want, ?_, (), rfl, rfl⟩⟩
    have hmem : want ∈ schema := h.mem_iff.2 hwant
    have hsome : (schema.find? fun field => field.name = want.name).isSome = true := by
      rw [List.find?_isSome]
      exact ⟨want, hmem, by simp⟩
    obtain ⟨field, hfind⟩ := Option.isSome_iff_exists.1 hsome
    have hname : field.name = want.name := by simpa using List.find?_some hfind
    have hfield : field = want := List.inj_on_of_nodup_map ((h.map _).nodup_iff.2 hnames)
      (List.mem_of_find?_eq_some hfind) hmem hname
    rw [hfind, hfield]

end Footer

section Batches

variable {decodeRow : Cells → Nat → Outcome Row} {R : Cells → Row → Prop}
  {loop next : TableLoop Row}

/-- What a loop has counted is under the ceilings. -/
structure TableLoop.Within (limits : ResourceLimits) (loop : TableLoop Row) : Prop where
  rows : loop.decodedRows.value ≤ limits.maxRowsPerTable.value
  bytes : loop.decodedBytes.value ≤ limits.maxDecompressedBytes.value

/-- One loop comes after another: these batches were read, as these rows. -/
structure TableLoop.Reads (R : Cells → Row → Prop) (loop : TableLoop Row)
    (batches : List (TableBatch Cells)) (next : TableLoop Row) (rows : List Row) : Prop where
  decoded : List.Forall₂ R (batches.flatMap TableBatch.rows) rows
  out : next.out = loop.out ++ rows
  decodedRows : next.decodedRows.value = loop.decodedRows.value + rows.length
  decodedBytes : next.decodedBytes.value =
    loop.decodedBytes.value + ((batches.map TableBatch.arrayMemorySize).sum : Nat)

theorem readBatch_eq_ok {decoded : Upstream (TableBatch Cells)}
    (hdecode : ∀ cells i row, decodeRow cells i = .ok row ↔ R cells row) :
    loop.readBatch table limits decodeRow decoded = .ok next ↔
      ∃ batch rows, decoded = .returned (.ok batch) ∧ loop.Reads R [batch] next rows ∧
        next.Within limits := by
  have hrows : ∀ (batch : TableBatch Cells) rows,
      (batch.rows.zipIdx.mapM fun entry => decodeRow entry.1 entry.2) = .ok rows ↔
        List.Forall₂ R batch.rows rows := by
    intro batch rows
    simp only [Pointwise.mapM_ok_iff, hdecode]
    rw [← List.forall₂_map_left_iff (f := Prod.fst) (R := R), List.zipIdx_map_fst]
  simp only [TableLoop.readBatch, bind_ok_iff, guardBundleParquet_eq_ok, upstream_eq_ok,
    narrow_eq_ok, checkRows_eq_ok, checkBytes_eq_ok, pure_ok_iff, hrows]
  constructor
  · rintro ⟨_, rfl, batch, rfl, n, hn, decodedRows, hdecodedRows, _, hwithinRows, b, hb,
      decodedBytes, hdecodedBytes, _, hwithinBytes, rows, hforall, rfl⟩
    refine ⟨batch, rows, rfl, ⟨by simpa using hforall, rfl, ?_, ?_⟩, ⟨hwithinRows, hwithinBytes⟩⟩
    · rw [hdecodedRows, hn, hforall.length_eq]
    · rw [hdecodedBytes, hb]
      simp
  · rintro ⟨batch, rows, rfl, ⟨hforall, hout, hdecodedRows, hdecodedBytes⟩, hwithin⟩
    have hforall' : List.Forall₂ R batch.rows rows := by simpa using hforall
    have hrowsNat := loop.decodedRows.nonneg
    have hbytesNat := loop.decodedBytes.nonneg
    have hrowsMax := next.decodedRows.le_max
    have hbytesMax := next.decodedBytes.le_max
    simp only [List.map_cons, List.map_nil, List.sum_cons, List.sum_nil, add_zero]
      at hdecodedBytes
    rw [← hforall'.length_eq] at hdecodedRows
    have hn : u64.Contains (batch.rows.length : Nat) := ⟨Int.natCast_nonneg _, by omega⟩
    have hb : u64.Contains (batch.arrayMemorySize : Nat) := ⟨Int.natCast_nonneg _, by omega⟩
    refine ⟨_, rfl, batch, rfl, ⟨_, hn⟩, rfl, next.decodedRows, hdecodedRows, (), hwithin.rows,
      ⟨_, hb⟩, rfl, next.decodedBytes, hdecodedBytes, (), hwithin.bytes, rows, hforall', ?_⟩
    rw [← hout]

/-- Batches that decode are read one after the other, and no others are. -/
theorem readBatches_eq_ok {stream : List (Upstream (TableBatch Cells))}
    (hdecode : ∀ cells i row, decodeRow cells i = .ok row ↔ R cells row)
    (h : loop.Within limits) :
    stream.foldlM (TableLoop.readBatch table limits decodeRow) loop = .ok next ↔
      ∃ batches rows, (stream = batches.map fun batch => .returned (.ok batch)) ∧
        loop.Reads R batches next rows ∧ next.Within limits := by
  induction stream generalizing loop with
  | nil =>
    rw [foldlM_nil_ok]
    constructor
    · rintro rfl
      exact ⟨[], [], rfl, ⟨.nil, by simp, by simp, by simp⟩, h⟩
    · rintro ⟨batches, rows, hstream, hreads, -⟩
      obtain rfl : batches = [] := List.map_eq_nil_iff.1 hstream.symm
      obtain rfl : rows = [] := List.forall₂_nil_left_iff.1 hreads.decoded
      have hout : next.out = loop.out := by simpa using hreads.out
      have hrows : next.decodedRows = loop.decodedRows :=
        Bounded.ext (by simpa using hreads.decodedRows)
      have hbytes : next.decodedBytes = loop.decodedBytes :=
        Bounded.ext (by simpa using hreads.decodedBytes)
      cases next
      cases loop
      simp_all
  | cons decoded stream ih =>
    rw [foldlM_cons_ok]
    constructor
    · rintro ⟨mid, hmid, hrest⟩
      obtain ⟨batch, rows, rfl, hreads, hwithin⟩ := (readBatch_eq_ok hdecode).1 hmid
      obtain ⟨batches, rows', rfl, hreads', hwithin'⟩ := (ih hwithin).1 hrest
      refine ⟨batch :: batches, rows ++ rows', rfl, ⟨?_, ?_, ?_, ?_⟩, hwithin'⟩
      · rw [List.flatMap_cons]
        exact List.rel_append (by simpa using hreads.decoded) hreads'.decoded
      · rw [hreads'.out, hreads.out, List.append_assoc]
      · rw [hreads'.decodedRows, hreads.decodedRows, List.length_append]
        omega
      · have hfirst := hreads.decodedBytes
        simp only [List.map_cons, List.map_nil, List.sum_cons, List.sum_nil, add_zero] at hfirst
        rw [hreads'.decodedBytes, hfirst, List.map_cons, List.sum_cons]
        omega
    · rintro ⟨batches, rows, hstream, hreads, hwithin⟩
      obtain ⟨batch, batches, rfl, rfl, rfl⟩ : ∃ batch batches', batches = batch :: batches' ∧
          decoded = .returned (.ok batch) ∧
          stream = batches'.map fun batch => .returned (.ok batch) := by
        cases batches with
        | nil => cases hstream
        | cons batch batches =>
          obtain ⟨hhead, htail⟩ := List.cons.inj hstream
          exact ⟨batch, batches, rfl, hhead, htail⟩
      have hsplit := hreads.decoded
      rw [List.flatMap_cons, Pointwise.append_left_iff] at hsplit
      obtain ⟨first, second, hfirst, hsecond, rfl⟩ := hsplit
      have hout := hreads.out
      have hrows := hreads.decodedRows
      have hbytes := hreads.decodedBytes
      rw [List.length_append] at hrows
      rw [List.map_cons, List.sum_cons] at hbytes
      -- what is counted after the first batch lies below what is counted in the end
      have hrowsNat := loop.decodedRows.nonneg
      have hbytesNat := loop.decodedBytes.nonneg
      have hrowsMax := next.decodedRows.le_max
      have hbytesMax := next.decodedBytes.le_max
      have hmidRows : u64.Contains (loop.decodedRows.value + first.length) := by
        refine ⟨?_, by omega⟩
        change 0 ≤ _
        omega
      have hmidBytes : u64.Contains (loop.decodedBytes.value + batch.arrayMemorySize) := by
        refine ⟨?_, by omega⟩
        change 0 ≤ _
        omega
      have hmid : TableLoop.Within limits
          (⟨loop.out ++ first, ⟨_, hmidRows⟩, ⟨_, hmidBytes⟩⟩ : TableLoop Row) :=
        ⟨by have := hwithin.rows; change loop.decodedRows.value + _ ≤ _; omega,
          by have := hwithin.bytes; change loop.decodedBytes.value + _ ≤ _; omega⟩
      refine ⟨_, (readBatch_eq_ok hdecode).2 ⟨batch, first, rfl, ⟨?_, rfl, rfl, ?_⟩, hmid⟩,
        (ih hmid).2 ⟨batches, second, rfl, ⟨hsecond, ?_, ?_, ?_⟩, hwithin⟩⟩
      · simpa using hfirst
      · simp
      · rw [hout, List.append_assoc]
      · change _ = loop.decodedRows.value + _ + _
        omega
      · change _ = loop.decodedBytes.value + _ + _
        omega

end Batches

section Files

variable {decodeRow : Cells → Nat → Outcome Row} {R : Cells → Row → Prop}

/-- A table file the reader takes these rows from, whatever their batches. -/
structure TableFile.Holds (expected : List ColumnField) (limits : ResourceLimits)
    (R : Cells → Row → Prop) (file : TableFile Cells) (rows : List Row) : Prop where
  declaredRows : 0 ≤ file.numRows ∧ file.numRows ≤ limits.maxRowsPerTable.value
  groups : ∀ group ∈ file.rowGroups, group.WellFormed
  declaredBytes : (file.rowGroups.map RowGroup.totalByteSize).sum ≤
    limits.maxDecompressedBytes.value
  schema : file.schema.Perm expected
  batches : ∃ batches : List (TableBatch Cells),
    (file.batches = .returned (.ok (batches.map fun batch => .returned (.ok batch)))) ∧
    List.Forall₂ R (batches.flatMap TableBatch.rows) rows ∧
    ((batches.map TableBatch.arrayMemorySize).sum : Nat) ≤ limits.maxDecompressedBytes.value
  length : (rows.length : Int) ≤ limits.maxRowsPerTable.value

theorem decodeFile_eq_ok {file : TableFile Cells} {rows : List Row}
    (hnames : (expected.map ColumnField.name).Nodup)
    (hdecode : ∀ cells i row, decodeRow cells i = .ok row ↔ R cells row) :
    decodeFile table expected limits decodeRow file = .ok rows ↔
      file.Holds expected limits R rows := by
  have hstart : TableLoop.Within limits
      (⟨[], ⟨0, u64.contains_zero⟩, ⟨0, u64.contains_zero⟩⟩ : TableLoop Row) :=
    ⟨limits.maxRowsPerTable.nonneg, limits.maxDecompressedBytes.nonneg⟩
  simp only [decodeFile, bind_ok_iff, narrow_eq_ok, checkRows_eq_ok, checkBytes_eq_ok,
    declaredTableBytes_run, validateTableSchema_eq_ok hnames, guardBundleParquet_eq_ok,
    upstream_eq_ok, pure_ok_iff, readBatches_eq_ok hdecode hstart]
  constructor
  · rintro ⟨declaredRows, hrows, _, hwithinRows, declared, ⟨hgroups, hdeclared⟩, _, hwithinBytes,
      _, hschema, _, hbatches, stream, rfl, loop, ⟨batches, rows', rfl, hreads, hwithin⟩, rfl⟩
    have hout : loop.out = rows' := by simpa using hreads.out
    have hcount : loop.decodedRows.value = rows'.length := by simpa using hreads.decodedRows
    have hbytes : loop.decodedBytes.value =
        ((batches.map TableBatch.arrayMemorySize).sum : Nat) := by
      simpa using hreads.decodedBytes
    rw [zero_add] at hdeclared
    have hnonneg := declaredRows.nonneg
    rw [hrows] at hnonneg hwithinRows
    refine ⟨⟨hnonneg, hwithinRows⟩, hgroups, by rwa [← hdeclared], hschema,
      ⟨batches, hbatches, hout ▸ hreads.decoded, by rw [← hbytes]; exact hwithin.bytes⟩, ?_⟩
    rw [hout, ← hcount]
    exact hwithin.rows
  · rintro ⟨⟨hnonneg, hrows⟩, hgroups, hdeclared, hschema, ⟨batches, hbatches, hdecoded, hbytes⟩,
      hlength⟩
    have hrowsMax := limits.maxRowsPerTable.le_max
    have hbytesMax := limits.maxDecompressedBytes.le_max
    have hsum : 0 ≤ (file.rowGroups.map RowGroup.totalByteSize).sum :=
      List.sum_nonneg (List.forall_mem_map.2 fun g hg => (hgroups g hg).size)
    have hfits : ∀ n : Nat, (n : Int) ≤ u64.max → u64.Contains (n : Int) :=
      fun n hn => ⟨Int.natCast_nonneg _, hn⟩
    exact ⟨⟨_, hnonneg, hrows.trans hrowsMax⟩, rfl, (), hrows,
      ⟨_, hsum, hdeclared.trans hbytesMax⟩, ⟨hgroups, (zero_add _).symm⟩, (), hdeclared, (), hschema,
      _, hbatches, _, rfl, ⟨rows, ⟨_, hfits _ (hlength.trans hrowsMax)⟩,
        ⟨_, hfits _ (hbytes.trans hbytesMax)⟩⟩,
      ⟨batches, rows, rfl, ⟨hdecoded, rfl, (zero_add _).symm, (zero_add _).symm⟩,
        ⟨hlength, hbytes⟩⟩, rfl⟩

/-- A stored table the reader takes these rows from. -/
def Stored.Holds [TableFormat T Cells] (expected : List ColumnField) (limits : ResourceLimits)
    (R : Cells → Row → Prop) (stored : Stored T) (rows : List Row) : Prop :=
  ∃ content file, stored = .Regular content ∧
    @TableFormat.read T Cells _ content = .returned (.ok file) ∧
    file.Holds expected limits R rows

theorem decodeTable_eq_ok [TableFormat T Cells] {stored : Stored T} {rows : List Row}
    (hnames : (expected.map ColumnField.name).Nodup)
    (hdecode : ∀ cells i row, decodeRow cells i = .ok row ↔ R cells row) :
    decodeTable table expected limits decodeRow stored = .ok rows ↔
      stored.Holds expected limits R rows := by
  cases stored with
  | Missing msg | Special | Unreadable len msg => simp [decodeTable, Stored.Holds]
  | Regular content =>
    simp only [decodeTable, bind_ok_iff, guardBundleParquet_eq_ok, upstream_eq_ok,
      decodeFile_eq_ok hnames hdecode, Stored.Holds, Stored.Regular.injEq]
    constructor
    · rintro ⟨_, hread, file, rfl, hfile⟩
      exact ⟨content, file, rfl, hread, hfile⟩
    · rintro ⟨_, file, rfl, hread, hfile⟩
      exact ⟨_, hread, file, rfl, hfile⟩

end Files

end IronCondor
