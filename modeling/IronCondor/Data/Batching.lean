import IronCondor.Data.Normalisation
import IronCondor.Data.ParquetReading
import IronCondor.Data.SmallFiles

/-! # Grouping across batches

Where the decoder cuts the rows into batches shows only in the count of decoded bytes and in the
row numbers of error texts. An accepted file is cut where its `step` column changes. -/
namespace IronCondor

open Checked ExceptRun

variable {F : Type}

section Index

variable {row : ParquetRow F} {i j : Nat} {group : GroupBuilder F} {stepRaw : Bounded i32}
  {limits : ResourceLimits}

theorem map_ok_iff {ε α β : Type} {f : α → β} {r : Except ε α} {out : β} :
    f <$> r = .ok out ↔ ∃ a, r = .ok a ∧ f a = out := by
  cases r with
  | error e => exact iff_of_false nofun (by simp)
  | ok a =>
    change Except.ok (f a) = .ok out ↔ _
    simp

@[simp] theorem reqCell_eq_ok {α : Type} {cell : Option α} {index : Nat} {column : String} {a : α} :
    reqCell cell index column = .ok a ↔ cell = some a := okOr_eq_ok

theorem GroupBuilder.start_index :
    start row i stepRaw = .ok group ↔ start row j stepRaw = .ok group := by
  simp only [start, bind_ok_iff, reqCell_eq_ok]

variable [AnalyticFloat F]

theorem GroupBuilder.rowQuote_index {quote : RawQuote F} :
    rowQuote row i = .ok quote ↔ rowQuote row j = .ok quote := by
  simp only [rowQuote, bind_ok_iff, reqCell_eq_ok]

theorem GroupBuilder.pushRow_index {pushed : GroupBuilder F} :
    group.pushRow row i limits = .ok pushed ↔ group.pushRow row j limits = .ok pushed := by
  have hquote : ∀ {quote : RawQuote F}, rowQuote row i = .ok quote ↔ rowQuote row j = .ok quote :=
    rowQuote_index
  simp only [pushRow, bind_ok_iff, reqCell_eq_ok, hquote]

namespace ParquetLoop

variable {loop loop' : ParquetLoop F}

theorem pushCurrent_index :
    loop.pushCurrent limits row i = .ok loop' ↔ loop.pushCurrent limits row j = .ok loop' := by
  unfold pushCurrent
  cases loop.current with
  | none => simp
  | some group =>
    have hpush : ∀ {pushed : GroupBuilder F},
        group.pushRow row i limits = .ok pushed ↔ group.pushRow row j limits = .ok pushed :=
      GroupBuilder.pushRow_index
    simp only [bind_ok_iff, hpush]

variable [DecimalArith] [TypeSizes]

/-- A new group flushes the one before, and its step comes after it. -/
theorem startGroup_iff :
    loop.startGroup limits row i stepRaw = .ok loop' ↔ ∃ flushed group,
      loop.flush limits = .ok flushed ∧
      (∀ previous, flushed.prevStep = some previous → previous.value < stepRaw.value) ∧
      GroupBuilder.start row i stepRaw = .ok group ∧
      loop' = { flushed with prevStep := some stepRaw, current := some group } := by
  simp only [startGroup, bind_ok_iff]
  constructor
  · rintro ⟨flushed, hflush, h⟩
    rcases hprevious : flushed.prevStep with _ | previous
    · simp only [hprevious, bind_ok_iff, pure_ok_iff] at h
      obtain ⟨group, hstart, rfl⟩ := h
      exact ⟨flushed, group, hflush, by simp [hprevious], hstart, rfl⟩
    · simp only [hprevious, bind_ok_iff, require_eq_ok, pure_ok_iff] at h
      obtain ⟨_, hlt, group, hstart, rfl⟩ := h
      exact ⟨flushed, group, hflush, by simpa [hprevious] using hlt, hstart, rfl⟩
  · rintro ⟨flushed, group, hflush, hafter, hstart, rfl⟩
    refine ⟨flushed, hflush, ?_⟩
    rcases hprevious : flushed.prevStep with _ | previous
    · simp [hstart]
    · simp [hstart, require, hafter previous hprevious]

theorem startGroup_index :
    loop.startGroup limits row i stepRaw = .ok loop' ↔
      loop.startGroup limits row j stepRaw = .ok loop' := by
  have hstart : ∀ {group : GroupBuilder F}, GroupBuilder.start row i stepRaw = .ok group ↔
      GroupBuilder.start row j stepRaw = .ok group := GroupBuilder.start_index
  simp only [startGroup_iff, hstart]

/-- A row is pushed onto the open group of its step, or onto a new one. -/
theorem readRow_iff :
    readRow limits loop (row, i) = .ok loop' ↔ ∃ stepRaw mid, row.step = some stepRaw ∧
      (if loop.isOpen stepRaw then loop = mid
        else loop.startGroup limits row i stepRaw = .ok mid) ∧
      mid.pushCurrent limits row i = .ok loop' := by
  simp only [readRow, bind_ok_iff, reqCell_eq_ok]
  refine exists_congr fun stepRaw => ?_
  rw [exists_and_left]
  refine and_congr_right fun _ => ?_
  split_ifs <;> simp [bind_ok_iff]

/-- The number of a row shows in error texts only. -/
theorem readRow_index :
    readRow limits loop (row, i) = .ok loop' ↔ readRow limits loop (row, j) = .ok loop' := by
  have hpush : ∀ {mid : ParquetLoop F}, mid.pushCurrent limits row i = .ok loop' ↔
      mid.pushCurrent limits row j = .ok loop' := pushCurrent_index
  have hstart : ∀ {stepRaw : Bounded i32} {mid : ParquetLoop F},
      loop.startGroup limits row i stepRaw = .ok mid ↔
        loop.startGroup limits row j stepRaw = .ok mid := startGroup_index
  simp only [readRow_iff, hpush, hstart]

/-- Rows are read alike, however they are numbered. -/
theorem readRows_index {entries entries' : List (ParquetRow F × Nat)}
    (h : entries.map Prod.fst = entries'.map Prod.fst) :
    entries.foldlM (readRow limits) loop = .ok loop' ↔
      entries'.foldlM (readRow limits) loop = .ok loop' := by
  induction entries generalizing loop entries' with
  | nil =>
    obtain rfl : entries' = [] := List.map_eq_nil_iff.1 h.symm
    exact Iff.rfl
  | cons entry entries ih =>
    obtain ⟨⟨row, j⟩, rest, rfl, hrow, hrest⟩ := List.map_eq_cons_iff.1 h.symm
    obtain ⟨row', i⟩ := entry
    obtain rfl : row = row' := hrow
    simp only [foldlM_cons_ok, ih hrest.symm]
    exact exists_congr fun mid => and_congr_left fun _ => readRow_index

/-- The loop over batches within the ceiling, with the last flush, is that over their rows. -/
theorem readBatches_flush {batches : List (RecordBatch F)}
    {entries : List (ParquetRow F × Nat)} (final : TapeBuffer)
    (hrows : batches.flatMap RecordBatch.rows = entries.map Prod.fst)
    (hbytes : ((batches.map RecordBatch.arrayMemorySize).sum : Nat) ≤
      limits.maxDecompressedBytes.value) :
    (∃ last, (batches.map .ok).foldlM (readBatch limits) .init >>= flush limits = .ok last ∧
        last.buffer = final) ↔
      ∃ last, entries.foldlM (readRow limits) .init >>= flush limits = .ok last ∧
        last.buffer = final := by
  have hinit : (init : ParquetLoop F).decodedBytes.value +
      ((batches.map RecordBatch.arrayMemorySize).sum : Nat) ≤
        limits.maxDecompressedBytes.value := by
    simpa [init] using hbytes
  obtain ⟨decodedBytes, hbatches⟩ := readBatches .init hinit
  have hindex : ((batches.flatMap fun batch => batch.rows.zipIdx).map Prod.fst) =
      entries.map Prod.fst := by
    rw [← hrows, List.map_flatMap]
    simp
  rw [hbatches, bind_map_left]
  simp only [flush_withBytes, bind_ok_iff, map_ok_iff, readRows_index hindex]
  constructor
  · rintro ⟨_, ⟨mid, hmid, last, hlast, rfl⟩, rfl⟩
    exact ⟨last, ⟨mid, hmid, hlast⟩, rfl⟩
  · rintro ⟨last, ⟨mid, hmid, hlast⟩, rfl⟩
    exact ⟨_, ⟨mid, hmid, last, hlast, rfl⟩, rfl⟩

end ParquetLoop

end Index

section Groups

variable [AnalyticFloat F]

/-- The rows a group was gathered from. -/
structure GroupBuilder.Gathers (group : GroupBuilder F) (rows : List (ParquetRow F)) : Prop where
  step : group.step.value = group.stepRaw.value
  constant : ∀ row ∈ rows, row.step = some group.stepRaw ∧ row.ts = some group.ts
  quotes : List.Forall₂ (fun row quote => GroupBuilder.rowQuote row 0 = .ok quote) rows group.quotes

/-- The rows of one step, and the snapshot with one entry for each of them. -/
structure SnapshotOf [DecimalArith] (rows : List (ParquetRow F)) (snapshot : ChainSnapshot) :
    Prop where
  nonempty : rows ≠ []
  step : ∀ row ∈ rows, ∃ stepRaw, row.step = some stepRaw ∧ stepRaw.value = snapshot.step.value
  ts : ∀ row ∈ rows, row.ts = some snapshot.ts
  entries : ∃ snapMeta quotes views,
    List.Forall₂ (fun row quote => GroupBuilder.rowQuote row 0 = .ok quote) rows quotes ∧
    List.Forall₂ (RawQuote.Becomes snapMeta) quotes views ∧
    snapshot.quotes.toList.Perm (views.map fun view => (view.contract, view))

variable {group pushed : GroupBuilder F} {rows seen : List (ParquetRow F)} {row : ParquetRow F}
  {index : Nat} {stepRaw : Bounded i32} {limits : ResourceLimits}

omit [AnalyticFloat F] in
theorem GroupBuilder.start_fields (h : start row index stepRaw = .ok group) :
    group.stepRaw = stepRaw ∧ group.step.value = stepRaw.value ∧ group.quotes = [] := by
  simp only [start, bind_ok_iff, reqCell_eq_ok, countU32_eq_ok, pure_ok_iff] at h
  obtain ⟨step, hstep, _, -, _, -, _, -, _, -, _, -, _, -, _, -, _, -, _, -, rfl⟩ := h
  exact ⟨rfl, hstep, rfl⟩

/-- A pushed row has the timestamp of the group, and its quote is added. -/
theorem GroupBuilder.Gathers.pushRow (h : group.Gathers rows)
    (hstep : row.step = some group.stepRaw)
    (hpush : group.pushRow row index limits = .ok pushed) : pushed.Gathers (rows ++ [row]) := by
  simp only [GroupBuilder.pushRow, bind_ok_iff, reqCell_eq_ok, ensureConst_eq_ok, pure_ok_iff]
    at hpush
  obtain ⟨ts, hts, _, hsame, _, -, _, -, _, -, _, -, _, -, _, -, _, -, _, -, _, -, _, -, _, -, _, -,
    _, -, quote, hquote, rfl⟩ := hpush
  obtain rfl : ts = group.ts := Bounded.ext hsame
  constructor
  · exact h.step
  · rintro r hr
    rcases List.mem_append.1 hr with hr | hr
    · exact h.constant r hr
    · obtain rfl := List.mem_singleton.1 hr
      exact ⟨hstep, hts⟩
  · exact List.rel_append h.quotes (.cons (GroupBuilder.rowQuote_index.1 hquote) .nil)

variable [DecimalArith]

/-- A group that is finished is the snapshot of its rows. -/
theorem GroupBuilder.Gathers.finish {anchorTs : SimTime} {snapshot : ChainSnapshot}
    (h : group.Gathers rows) (hrows : rows ≠ [])
    (hfinish : group.finish anchorTs = .ok snapshot) : SnapshotOf rows snapshot := by
  obtain ⟨-, spec, views, -, hbecomes, hdistinct, rfl⟩ := rawQuotesToSnapshot_eq_ok.1 hfinish
  constructor
  · exact hrows
  · intro row hrow
    exact ⟨group.stepRaw, (h.constant row hrow).1, h.step.symm⟩
  · intro row hrow
    exact (h.constant row hrow).2
  · exact ⟨_, group.quotes, views, h.quotes, hbecomes,
      KeyedInsert.toList_file ∅ hdistinct (by simp)⟩

namespace ParquetLoop

variable [TypeSizes] {loop loop' : ParquetLoop F}

/-- What the loop has made of the rows it has seen: the snapshots pushed, and the open group. -/
def Made (seen : List (ParquetRow F)) (loop : ParquetLoop F) : Prop :=
  ∃ groups here, seen = groups.flatten ++ here ∧ List.Forall₂ SnapshotOf groups loop.buffer.tape ∧
    match loop.current with
    | none => here = []
    | some group => here ≠ [] ∧ group.Gathers here

/-- After a flush no group is open. -/
theorem Made.flush (h : loop.Made seen) (hflush : loop.flush limits = .ok loop') :
    loop'.current = none ∧
      ∃ groups, seen = groups.flatten ∧ List.Forall₂ SnapshotOf groups loop'.buffer.tape := by
  obtain ⟨groups, here, rfl, htape, hhere⟩ := h
  unfold ParquetLoop.flush at hflush
  rcases hcurrent : loop.current with _ | group
  · simp only [hcurrent] at hflush hhere
    cases hflush
    exact ⟨hcurrent, groups, by simp [hhere], htape⟩
  · simp only [hcurrent, bind_ok_iff, pure_ok_iff] at hflush hhere
    obtain ⟨snapshot, hfinish, buffer, hpush, rfl⟩ := hflush
    refine ⟨rfl, groups ++ [here], by simp, ?_⟩
    rw [(pushChecked_eq_ok hpush).1]
    exact List.rel_append htape (.cons (hhere.2.finish hhere.1 hfinish) .nil)

/-- A row extends the open group, or opens the next one. -/
theorem Made.readRow (h : loop.Made seen)
    (hread : ParquetLoop.readRow limits loop (row, index) = .ok loop') :
    loop'.Made (seen ++ [row]) := by
  obtain ⟨stepRaw, mid, hstep, hmid, hpush⟩ := readRow_iff.1 hread
  have hgathers : ∃ groups here group, seen = groups.flatten ++ here ∧
      List.Forall₂ SnapshotOf groups mid.buffer.tape ∧ mid.current = some group ∧
      group.stepRaw = stepRaw ∧ group.Gathers here := by
    split_ifs at hmid with hopen
    · subst hmid
      obtain ⟨groups, here, rfl, htape, hhere⟩ := h
      obtain ⟨group, hcurrent, hsame⟩ := (Option.any_eq_true _ _).1 hopen
      rw [hcurrent] at hhere
      exact ⟨groups, here, group, rfl, htape, hcurrent, of_decide_eq_true hsame, hhere.2⟩
    · obtain ⟨flushed, group, hflush, -, hstart, rfl⟩ := startGroup_iff.1 hmid
      obtain ⟨-, groups, rfl, htape⟩ := h.flush hflush
      obtain ⟨hraw, hvalue, hnone⟩ := GroupBuilder.start_fields hstart
      refine ⟨groups, [], group, by simp, htape, rfl, hraw, ?_⟩
      exact ⟨hraw.symm ▸ hvalue, by simp, hnone ▸ .nil⟩
  obtain ⟨groups, here, group, rfl, htape, hcurrent, rfl, hhere⟩ := hgathers
  simp only [pushCurrent, hcurrent, bind_ok_iff, pure_ok_iff] at hpush
  obtain ⟨pushed, hpush, rfl⟩ := hpush
  refine ⟨groups, here ++ [row], List.append_assoc _ _ _, htape, by simp, ?_⟩
  exact hhere.pushRow hstep hpush

/-- The rows of a file, by induction on them. -/
theorem Made.readRows {entries : List (ParquetRow F × Nat)} (h : loop.Made seen)
    (hread : entries.foldlM (ParquetLoop.readRow limits) loop = .ok loop') :
    loop'.Made (seen ++ entries.map Prod.fst) := by
  induction entries generalizing loop seen with
  | nil =>
    cases foldlM_nil_ok.1 hread
    simpa using h
  | cons entry entries ih =>
    obtain ⟨mid, hfirst, hrest⟩ := foldlM_cons_ok.1 hread
    have hmade := ih (h.readRow hfirst) hrest
    rwa [List.append_assoc] at hmade

omit [TypeSizes] in
theorem made_init : (init : ParquetLoop F).Made [] := ⟨[], [], rfl, .nil, rfl⟩

end ParquetLoop

end Groups

section Files

variable [ParquetDecoder F] [AnalyticFloat F] [DecimalArith] [TypeSizes] {file : ParquetFile F}
  {batches batches' : List (RecordBatch F)} {bytes bytes' : List UInt8} {limits : ResourceLimits}
  {tape : List ChainSnapshot}

/-- Reading a file of these batches, whose footer passes, is reading its rows. -/
theorem readTape_batches
    (hread : ParquetDecoder.read bytes = .ok { file with batches := .ok (batches.map .ok) })
    {entries : List (ParquetRow F × Nat)}
    (hrows : batches.flatMap RecordBatch.rows = entries.map Prod.fst)
    (hbytes : ((batches.map RecordBatch.arrayMemorySize).sum : Nat) ≤
      limits.maxDecompressedBytes.value) :
    ParquetFeed.readTape bytes limits = .ok tape ↔
      (∃ declared, file.rowGroups.foldlM declaredBytes ⟨0, by decide⟩ = .ok declared ∧
        declared.value ≤ limits.maxDecompressedBytes.value) ∧
      validateSchema file.schema = .ok () ∧
      ∃ last, entries.foldlM (ParquetLoop.readRow limits) .init >>= ParquetLoop.flush limits =
        .ok last ∧ last.buffer.tape = tape := by
  have hloop := fun final => ParquetLoop.readBatches_flush final hrows hbytes
  simp only [ParquetFeed.readTape, hread, ok_bind, bind_ok_iff, require_eq_ok, pure_ok_iff]
    at hloop ⊢
  constructor
  · rintro ⟨declared, hdeclared, _, hle, _, hschema, mid, hmid, last, hlast, rfl⟩
    obtain ⟨last', hlast', heq⟩ := (hloop last.buffer).1 ⟨last, ⟨mid, hmid, hlast⟩, rfl⟩
    exact ⟨⟨declared, hdeclared, hle⟩, hschema, last', hlast', congrArg TapeBuffer.tape heq⟩
  · rintro ⟨⟨declared, hdeclared, hle⟩, hschema, last, hlast, rfl⟩
    obtain ⟨last', ⟨mid, hmid, hlast'⟩, heq⟩ := (hloop last.buffer).2 ⟨last, hlast, rfl⟩
    exact ⟨declared, hdeclared, (), hle, (), hschema, mid, hmid, last', hlast',
      congrArg TapeBuffer.tape heq⟩

/-- Two files of the same rows are read alike, whatever their batches; an accepted tape is the rows
cut by step, and has one entry a row. -/
theorem grouping_independent
    (hread : ParquetDecoder.read bytes = .ok { file with batches := .ok (batches.map .ok) })
    (hread' : ParquetDecoder.read bytes' = .ok { file with batches := .ok (batches'.map .ok) })
    (hrows : batches.flatMap RecordBatch.rows = batches'.flatMap RecordBatch.rows)
    (hbytes : ((batches.map RecordBatch.arrayMemorySize).sum : Nat) ≤
      limits.maxDecompressedBytes.value)
    (hbytes' : ((batches'.map RecordBatch.arrayMemorySize).sum : Nat) ≤
      limits.maxDecompressedBytes.value) :
    (∀ tape, ParquetFeed.readTape bytes limits = .ok tape ↔
      ParquetFeed.readTape bytes' limits = .ok tape) ∧
    ∀ tape identity tapeMeta, ParquetFeed.readTape bytes limits = .ok tape →
      TapeMeta.fromTape identity tape = .ok tapeMeta →
      (∀ (k : Nat) (snapshot : ChainSnapshot), tape[k]? = some snapshot →
        snapshot.step.value = k) ∧
      (tape.Pairwise fun snapshot later => snapshot.ts.value < later.ts.value) ∧
      ∃ groups, groups.flatten = batches.flatMap RecordBatch.rows ∧
        List.Forall₂ SnapshotOf groups tape := by
  obtain ⟨entries, hentries⟩ : ∃ entries : List (ParquetRow F × Nat),
      batches.flatMap RecordBatch.rows = entries.map Prod.fst :=
    ⟨(batches.flatMap RecordBatch.rows).zipIdx, by simp⟩
  refine ⟨fun tape => ?_, fun tape identity tapeMeta htape hmeta => ⟨?_, ?_, ?_⟩⟩
  · rw [readTape_batches hread hentries hbytes,
      readTape_batches hread' (hrows.symm.trans hentries) hbytes']
  · exact (TapeMeta.fromTape_eq_ok hmeta).2.2
  · exact TapeMeta.fromTape_ascends hmeta
  · obtain ⟨-, -, last, hlast, rfl⟩ := (readTape_batches hread hentries hbytes).1 htape
    obtain ⟨mid, hmid, hflush⟩ := bind_ok_iff.1 hlast
    obtain ⟨-, groups, hgroups, hsnapshots⟩ :=
      (ParquetLoop.made_init.readRows hmid).flush hflush
    exact ⟨groups, by rw [hentries, ← hgroups, List.nil_append], hsnapshots⟩

end Files

open SmallFiles SmallMarket in
/-- A step that straddles two batches, and the same rows with an empty batch between the steps. -/
theorem grouping_independent_small : ∃ tape,
    ParquetFeed.readTape parquetBytes SmallFiles.limits = .ok tape ∧
      ParquetFeed.readTape rebatchedBytes SmallFiles.limits = .ok tape := by
  obtain ⟨tape, htape⟩ :=
    exists_eq_ok (r := ParquetFeed.readTape parquetBytes SmallFiles.limits) (by decide +kernel)
  have hread : ParquetDecoder.read parquetBytes =
      .ok ⟨image.rowGroups, expectedSchema, .ok (image.batches.map .ok)⟩ := if_pos rfl
  have hread' : ParquetDecoder.read rebatchedBytes =
      .ok ⟨image.rowGroups, expectedSchema, .ok (rebatched.map .ok)⟩ := by
    have hne : rebatchedBytes ≠ parquetBytes := by decide +kernel
    exact (if_neg hne).trans (if_pos rfl)
  have hbytes : ((image.batches.map RecordBatch.arrayMemorySize).sum : Nat) ≤
      SmallFiles.limits.maxDecompressedBytes.value := by decide
  have hbytes' : ((rebatched.map RecordBatch.arrayMemorySize).sum : Nat) ≤
      SmallFiles.limits.maxDecompressedBytes.value := by decide
  let file : ParquetFile Decimal := ⟨image.rowGroups, expectedSchema, .ok []⟩
  have hagree := (@grouping_independent _ _ _ _ _ file _ _ _ _ _ hread hread' rfl hbytes hbytes').1
  exact ⟨tape, htape, (hagree tape).1 htape⟩

end IronCondor
