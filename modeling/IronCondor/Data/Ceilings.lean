import IronCondor.Data.ParquetRows
import IronCondor.Data.Simulator
import IronCondor.Data.SmallFiles
import IronCondor.Lib.Pointwise

/-! # Ceilings of the ingest

Every loader pushes its snapshots through one check. What the check keeps of the tape and of the
byte counter holds in every state a loader passes through, and a chain of a file is gathered under
a ceiling of its own. -/
namespace IronCondor

open Checked ExceptRun

section InPlace

variable {ε σ α : Type}

/-- What an update in place leaves: the new state, or the old one with the refusal. -/
def inPlace (s : σ) : Except ε σ → EStateM.Result ε σ Unit
  | .ok t => .ok () t
  | .error e => .error e s

/-- The state an update in place leaves. -/
def stateAfter : EStateM.Result ε σ Unit → σ
  | .ok _ t => t
  | .error _ t => t

theorem stateAfter_inPlace (s : σ) (r : Except ε σ) :
    stateAfter (inPlace s r) = s ∨ ∃ t, r = .ok t ∧ stateAfter (inPlace s r) = t := by
  cases r with
  | error e => exact .inl rfl
  | ok t => exact .inr ⟨t, rfl, rfl⟩

/-- A check before the first assignment leaves the state alone. -/
theorem run_check_bind {check : Except ε α} {rest : α → EStateM ε σ Unit} {pure : α → Except ε σ}
    {s : σ} (h : ∀ a, (rest a).run s = inPlace s (pure a)) :
    (ofExcept check >>= rest).run s = inPlace s (check >>= pure) := by
  cases check with
  | error e => rfl
  | ok a => exact h a

theorem run_get_bind {rest : σ → EStateM ε σ Unit} {s : σ} :
    (get >>= rest).run s = (rest s).run s := rfl

end InPlace

section Push

variable [TypeSizes]

/-- `push_checked` as it changes the tape and the counter in place, statement after statement. -/
def pushCheckedInPlace (snapshot : ChainSnapshot) (limits : ResourceLimits) :
    EStateM BacktestError TapeBuffer Unit := do
  let tape := (← get).tape
  let nextLen ← ofExcept (checked u64 (tape.length + 1 : Nat))
  ofExcept (require (nextLen.value ≤ limits.maxSteps.value)
    (.TapeTooLarge "max_steps" nextLen.value limits.maxSteps.value))
  let snapshotBytes ← ofExcept (snapshotByteEstimate snapshot)
  let nextTotal ← ofExcept (checked u64 ((← get).totalBytes.value + snapshotBytes.value))
  ofExcept (require (nextTotal.value ≤ limits.maxTotalBytes.value)
    (.TapeTooLarge "max_total_bytes" nextTotal.value limits.maxTotalBytes.value))
  modify fun buffer => { buffer with totalBytes := nextTotal }
  modify fun buffer => { buffer with tape := buffer.tape ++ [snapshot] }

/-- The tape and the counter after a push that may have been refused. -/
def offer (limits : ResourceLimits) (buffer : TapeBuffer) (snapshot : ChainSnapshot) :
    TapeBuffer :=
  stateAfter ((pushCheckedInPlace snapshot limits).run buffer)

/-- The counter is the sum of the estimates of the snapshots. -/
def Metered (tape : List ChainSnapshot) (totalBytes : Bounded u64) : Prop :=
  ∃ estimates : List (Bounded u64),
    List.Forall₂ (fun snapshot estimate => snapshotByteEstimate snapshot = .ok estimate)
      tape estimates ∧ totalBytes.value = (estimates.map Bounded.value).sum

/-- The tape is within the ceilings of its length and its bytes, and the counter is exact. -/
structure Ceiled (limits : ResourceLimits) (buffer : TapeBuffer) : Prop where
  steps : (buffer.tape.length : Int) ≤ limits.maxSteps.value
  bytes : buffer.totalBytes.value ≤ limits.maxTotalBytes.value
  counts : Metered buffer.tape buffer.totalBytes

variable {limits : ResourceLimits}

theorem ceiled_empty : Ceiled limits .empty :=
  ⟨limits.maxSteps.nonneg, limits.maxTotalBytes.nonneg, [], .nil, rfl⟩

/-- An accepted push keeps the ceilings. -/
theorem Ceiled.push {buffer pushed : TapeBuffer} {snapshot : ChainSnapshot}
    (h : Ceiled limits buffer) (hpush : pushChecked buffer snapshot limits = .ok pushed) :
    Ceiled limits pushed := by
  have hsteps := (pushChecked_eq_ok hpush).2
  simp only [pushChecked, bind_ok_iff, narrow_eq_ok, require_eq_ok, pure_ok_iff] at hpush
  obtain ⟨_, -, _, -, estimate, hestimate, total, htotal, _, hcap, rfl⟩ := hpush
  obtain ⟨estimates, hestimates, hsum⟩ := h.counts
  refine ⟨hsteps, hcap, estimates ++ [estimate], ?_, ?_⟩
  · exact List.rel_append hestimates (.cons hestimate .nil)
  · rw [htotal, hsum, List.map_append, List.sum_append, List.map_singleton, List.sum_singleton]

/-- In place the push does what its pure form says, and a refusal leaves everything as it was. -/
theorem pushCheckedInPlace_run (buffer : TapeBuffer) (snapshot : ChainSnapshot) :
    (pushCheckedInPlace snapshot limits).run buffer =
      inPlace buffer (pushChecked buffer snapshot limits) := by
  unfold pushCheckedInPlace pushChecked
  rw [run_get_bind]
  refine run_check_bind fun nextLen => ?_
  refine run_check_bind fun _ => ?_
  refine run_check_bind fun snapshotBytes => ?_
  rw [run_get_bind]
  refine run_check_bind fun nextTotal => ?_
  refine run_check_bind fun _ => ?_
  rfl

/-- A refused push changes nothing. -/
theorem pushCheckedInPlace_refuses {buffer after : TapeBuffer} {snapshot : ChainSnapshot}
    {e : BacktestError} (h : (pushCheckedInPlace snapshot limits).run buffer = .error e after) :
    after = buffer := by
  rw [pushCheckedInPlace_run] at h
  cases hpush : pushChecked buffer snapshot limits with
  | ok pushed =>
    rw [hpush] at h
    cases h
  | error e' =>
    rw [hpush] at h
    cases h
    rfl

theorem Ceiled.offer {buffer : TapeBuffer} (h : Ceiled limits buffer) (snapshot : ChainSnapshot) :
    Ceiled limits (offer limits buffer snapshot) := by
  rw [IronCondor.offer, pushCheckedInPlace_run]
  rcases stateAfter_inPlace buffer (pushChecked buffer snapshot limits) with
    hafter | ⟨pushed, hpush, hafter⟩
  · rw [hafter]
    exact h
  · rw [hafter]
    exact h.push hpush

/-- However many snapshots are offered and refused, the tape stays under its ceilings. -/
theorem Ceiled.offers {buffer : TapeBuffer} (h : Ceiled limits buffer)
    (snapshots : List ChainSnapshot) :
    Ceiled limits (snapshots.foldl (IronCondor.offer limits) buffer) := by
  induction snapshots generalizing buffer with
  | nil => exact h
  | cons snapshot snapshots ih =>
    rw [List.foldl_cons]
    exact ih (h.offer snapshot)

end Push

section Rows

variable {F : Type} [AnalyticFloat F]

/-- A row of a batch with its position in the batch. -/
abbrev IndexedRow (F : Type) := ParquetRow F × Nat

/-- The quotes were gathered from these rows, one a row, and no more than a chain may have. -/
structure GatheredFrom (limits : ResourceLimits) (rows : List (IndexedRow F))
    (quotes : List (RawQuote F)) : Prop where
  quotes : List.Forall₂ (fun entry quote => GroupBuilder.rowQuote entry.1 entry.2 = .ok quote)
    rows quotes
  ceiling : (rows.length : Int) ≤ limits.maxContractsPerSnapshot.value

/-- The snapshot was built from consecutive rows of those seen. -/
def BuiltFromRows [DecimalArith] (limits : ResourceLimits) (seen : List (IndexedRow F))
    (snapshot : ChainSnapshot) : Prop :=
  ∃ rows quotes snapMeta, rows <:+: seen ∧ GatheredFrom limits rows quotes ∧
    rawQuotesToSnapshot snapMeta quotes = .ok snapshot

variable [DecimalArith] [TypeSizes] {limits : ResourceLimits}

/-- The states of the Parquet loop with the rows seen so far: a batch is counted, a group is
finished or started, a row is added. -/
inductive ParquetLoop.Reached (limits : ResourceLimits) :
    List (IndexedRow F) → ParquetLoop F → Prop
  | init : Reached limits [] .init
  | counted {seen loop} (decodedBytes : Bounded u64) : Reached limits seen loop →
      Reached limits seen { loop with decodedBytes }
  | flushed {seen loop loop'} : Reached limits seen loop → loop.flush limits = .ok loop' →
      Reached limits seen loop'
  | started {seen loop loop'} (row : ParquetRow F) (index : Nat) (stepRaw : Bounded i32) :
      Reached limits seen loop → loop.startGroup limits row index stepRaw = .ok loop' →
      Reached limits seen loop'
  | pushed {seen loop loop'} (row : ParquetRow F) (index : Nat) : Reached limits seen loop →
      loop.pushCurrent limits row index = .ok loop' →
      Reached limits (seen ++ [(row, index)]) loop'

/-- The tape under its ceilings, with every chain on it and the open group gathered under
theirs. -/
structure ParquetLoop.Within (limits : ResourceLimits) (seen : List (IndexedRow F))
    (loop : ParquetLoop F) : Prop where
  ceiled : Ceiled limits loop.buffer
  built : ∀ snapshot ∈ loop.buffer.tape, BuiltFromRows limits seen snapshot
  open_group : ∀ group, loop.current = some group →
    ∃ rows, rows <:+ seen ∧ GatheredFrom limits rows group.quotes

theorem ParquetLoop.Within.flush {seen : List (IndexedRow F)} {loop loop' : ParquetLoop F}
    (h : loop.Within limits seen) (hflush : loop.flush limits = .ok loop') :
    loop'.Within limits seen := by
  unfold ParquetLoop.flush at hflush
  cases hcurrent : loop.current with
  | none =>
    rw [hcurrent] at hflush
    cases hflush
    exact h
  | some group =>
    rw [hcurrent] at hflush
    simp only [bind_ok_iff, pure_ok_iff] at hflush
    obtain ⟨snapshot, hfinish, buffer, hpush, rfl⟩ := hflush
    obtain ⟨rows, hrows, hgathered⟩ := h.open_group group hcurrent
    have hceiled := h.ceiled.push hpush
    refine ⟨hceiled, ?_, ?_⟩
    · intro s hs
      rw [(pushChecked_eq_ok hpush).1, List.mem_append, List.mem_singleton] at hs
      rcases hs with hs | rfl
      · exact h.built s hs
      · exact ⟨rows, _, _, hrows.isInfix, hgathered, hfinish⟩
    · rintro _ ⟨⟩

omit [DecimalArith] [TypeSizes] in
theorem gatheredFrom_nil : GatheredFrom limits ([] : List (IndexedRow F)) [] :=
  ⟨.nil, limits.maxContractsPerSnapshot.nonneg⟩

omit [AnalyticFloat F] [DecimalArith] [TypeSizes] in
theorem start_quotes {row : ParquetRow F} {index : Nat} {stepRaw : Bounded i32}
    {group : GroupBuilder F} (h : GroupBuilder.start row index stepRaw = .ok group) :
    group.quotes = [] := by
  simp only [GroupBuilder.start, bind_ok_iff, pure_ok_iff] at h
  obtain ⟨_, -, _, -, _, -, _, -, _, -, _, -, _, -, _, -, _, -, _, -, rfl⟩ := h
  rfl

/-- Starting a group finishes the one before it, and the new one has no row yet. -/
theorem startGroup_flushes {loop loop' : ParquetLoop F} {row : ParquetRow F} {index : Nat}
    {stepRaw : Bounded i32} (h : loop.startGroup limits row index stepRaw = .ok loop') :
    ∃ flushed group, loop.flush limits = .ok flushed ∧ group.quotes = [] ∧
      loop' = { flushed with prevStep := some stepRaw, current := some group } := by
  obtain ⟨flushed, hflush, h⟩ := bind_ok_iff.1 h
  split at h
  · simp only [bind_ok_iff, pure_ok_iff] at h
    obtain ⟨_, -, group, hgroup, rfl⟩ := h
    exact ⟨flushed, group, hflush, start_quotes hgroup, rfl⟩
  · simp only [bind_ok_iff, pure_ok_iff] at h
    obtain ⟨group, hgroup, rfl⟩ := h
    exact ⟨flushed, group, hflush, start_quotes hgroup, rfl⟩

theorem ParquetLoop.Within.startGroup {seen : List (IndexedRow F)} {loop loop' : ParquetLoop F}
    {row : ParquetRow F} {index : Nat} {stepRaw : Bounded i32} (h : loop.Within limits seen)
    (hstart : loop.startGroup limits row index stepRaw = .ok loop') :
    loop'.Within limits seen := by
  obtain ⟨flushed, group, hflush, hquotes, rfl⟩ := startGroup_flushes hstart
  have hflushed := h.flush hflush
  refine ⟨hflushed.ceiled, hflushed.built, ?_⟩
  rintro _ ⟨⟩
  rw [hquotes]
  exact ⟨[], List.nil_suffix, gatheredFrom_nil⟩

omit [DecimalArith] [TypeSizes] in
/-- A row is added only where the ceiling leaves room for it. -/
theorem GatheredFrom.pushRow {rows : List (IndexedRow F)} {group group' : GroupBuilder F}
    {row : ParquetRow F} {index : Nat} (h : GatheredFrom limits rows group.quotes)
    (hpush : group.pushRow row index limits = .ok group') :
    GatheredFrom limits (rows ++ [(row, index)]) group'.quotes := by
  simp only [GroupBuilder.pushRow, bind_ok_iff, pure_ok_iff, narrow_eq_ok, require_eq_ok] at hpush
  obtain ⟨_, -, _, -, _, -, _, -, _, -, _, -, _, -, _, -, _, -, _, -, _, -, _, -, _, -, nextCount,
    hcount, _, hceiling, quote, hquote, rfl⟩ := hpush
  have hlength := h.quotes.length_eq
  refine ⟨List.rel_append h.quotes (.cons hquote .nil), ?_⟩
  rw [List.length_append, List.length_singleton, hlength]
  omega

theorem ParquetLoop.Within.pushCurrent {seen : List (IndexedRow F)} {loop loop' : ParquetLoop F}
    {row : ParquetRow F} {index : Nat} (h : loop.Within limits seen)
    (hpush : loop.pushCurrent limits row index = .ok loop') :
    loop'.Within limits (seen ++ [(row, index)]) := by
  have hbuilt : ∀ snapshot ∈ loop.buffer.tape,
      BuiltFromRows limits (seen ++ [(row, index)]) snapshot := by
    intro snapshot hsnapshot
    obtain ⟨rows, quotes, snapMeta, hrows, hgathered, hconverted⟩ := h.built snapshot hsnapshot
    exact ⟨rows, quotes, snapMeta, hrows.trans (List.prefix_append _ _).isInfix, hgathered,
      hconverted⟩
  unfold ParquetLoop.pushCurrent at hpush
  cases hcurrent : loop.current with
  | none =>
    rw [hcurrent] at hpush
    cases hpush
  | some group =>
    rw [hcurrent] at hpush
    simp only [bind_ok_iff, pure_ok_iff] at hpush
    obtain ⟨group', hrow, rfl⟩ := hpush
    obtain ⟨rows, hrows, hgathered⟩ := h.open_group group hcurrent
    refine ⟨h.ceiled, hbuilt, ?_⟩
    rintro _ ⟨⟩
    refine ⟨rows ++ [(row, index)], ?_, hgathered.pushRow hrow⟩
    obtain ⟨before, rfl⟩ := hrows
    exact ⟨before, by rw [List.append_assoc]⟩

/-- Whatever rows were read, the state is within the ceilings, by induction on how it was
reached. -/
theorem ParquetLoop.Reached.within {seen : List (IndexedRow F)} {loop : ParquetLoop F}
    (h : loop.Reached limits seen) : loop.Within limits seen := by
  induction h with
  | init =>
    refine ⟨ceiled_empty, List.forall_mem_nil _, ?_⟩
    rintro _ ⟨⟩
  | counted decodedBytes _ ih => exact ⟨ih.ceiled, ih.built, ih.open_group⟩
  | flushed _ hflush ih => exact ih.flush hflush
  | started row index stepRaw _ hstart ih => exact ih.startGroup hstart
  | pushed row index _ hpush ih => exact ih.pushCurrent hpush

theorem ParquetLoop.Reached.readRow {seen : List (IndexedRow F)} {loop loop' : ParquetLoop F}
    {entry : IndexedRow F} (h : loop.Reached limits seen)
    (hread : loop.readRow limits entry = .ok loop') : loop'.Reached limits (seen ++ [entry]) := by
  obtain ⟨stepRaw, -, hread⟩ := bind_ok_iff.1 hread
  by_cases hopen : loop.isOpen stepRaw
  · rw [if_pos hopen, pure_bind] at hread
    exact .pushed _ _ h hread
  · rw [if_neg hopen] at hread
    obtain ⟨started, hstart, hpush⟩ := bind_ok_iff.1 hread
    exact .pushed _ _ (.started _ _ _ h hstart) hpush

theorem ParquetLoop.Reached.readRows {seen entries : List (IndexedRow F)}
    {loop loop' : ParquetLoop F} (h : loop.Reached limits seen)
    (hread : entries.foldlM (ParquetLoop.readRow limits) loop = .ok loop') :
    loop'.Reached limits (seen ++ entries) := by
  induction entries generalizing seen loop with
  | nil =>
    rw [List.append_nil, ← foldlM_nil_ok.1 hread]
    exact h
  | cons entry entries ih =>
    obtain ⟨next, hentry, hentries⟩ := foldlM_cons_ok.1 hread
    rw [List.append_cons]
    exact ih (h.readRow hentry) hentries

theorem ParquetLoop.Reached.readBatches {seen : List (IndexedRow F)}
    {batches : List (Outcome (RecordBatch F))} {loop loop' : ParquetLoop F}
    (h : loop.Reached limits seen)
    (hread : batches.foldlM (ParquetLoop.readBatch limits) loop = .ok loop') :
    ∃ seen', loop'.Reached limits seen' := by
  refine foldlM_invariant (fun loop : ParquetLoop F => ∃ seen, loop.Reached limits seen)
    ?_ ⟨seen, h⟩ hread
  rintro loop batch loop' ⟨seen, h⟩ hbatch
  simp only [ParquetLoop.readBatch, bind_ok_iff] at hbatch
  obtain ⟨batch, -, _, -, decodedBytes, -, _, -, hrows⟩ := hbatch
  exact ⟨_, (h.counted decodedBytes).readRows hrows⟩

/-- The tape of a Parquet file is that of a state of the loop. -/
theorem readTape_reached [ParquetDecoder F] {bytes : List UInt8} {tape : List ChainSnapshot}
    (h : ParquetFeed.readTape (F := F) bytes limits = .ok tape) :
    ∃ seen, ∃ loop : ParquetLoop F, loop.Reached limits seen ∧ loop.buffer.tape = tape := by
  simp only [ParquetFeed.readTape, bind_ok_iff, pure_ok_iff] at h
  obtain ⟨_, -, _, -, _, -, _, -, batches, -, loop, hloop, last, hflush, rfl⟩ := h
  obtain ⟨seen, hreached⟩ := ParquetLoop.Reached.init.readBatches hloop
  exact ⟨seen, last, hreached.flushed hflush, rfl⟩

end Rows

section Files

variable {F : Type} [AnalyticFloat F] [FloatText F] [CsvDecoder] [DecimalArith]
  {limits : ResourceLimits}

/-- The snapshot was built from the records of one of the files seen, one quote a record, and
these are no more than a chain may have. -/
def BuiltFromFile (F : Type) [AnalyticFloat F] [FloatText F] (limits : ResourceLimits)
    (seen : List (DirEntry × Nat)) (snapshot : ChainSnapshot) : Prop :=
  ∃ file ∈ seen, ∃ bytes cols snapMeta, ∃ quotes : List (RawQuote F),
    file.1.state = .Regular bytes ∧
      List.Forall₂ (fun record quote => csvQuote cols record = .ok quote)
        (CsvDecoder.read bytes).trim.records quotes ∧
      ((CsvDecoder.read bytes).trim.records.length : Int) ≤
        limits.maxContractsPerSnapshot.value ∧
      rawQuotesToSnapshot snapMeta quotes = .ok snapshot

omit [CsvDecoder] [DecimalArith] in
/-- A record that is taken adds its quote, where the ceiling leaves room for it. -/
theorem readRecord_adds {step : StepIndex} {cols : CsvColumns} {record : List String}
    {parsed parsed' : ParsedCsv F}
    (h : readRecord limits step cols parsed record = .ok parsed') : ∃ quote,
      csvQuote cols record = .ok quote ∧ parsed'.quotes = parsed.quotes ++ [quote] ∧
        ((parsed.quotes.length + 1 : Nat) : Int) ≤ limits.maxContractsPerSnapshot.value := by
  obtain ⟨head, -, h⟩ := bind_ok_iff.1 h
  obtain ⟨fields, quotes⟩ := parsed
  cases fields with
  | none =>
    simp only [bind_ok_iff, narrow_eq_ok, require_eq_ok, pure_ok_iff] at h
    obtain ⟨count, hcount, _, hceiling, quote, hquote, rfl⟩ := h
    exact ⟨quote, hquote, rfl, hcount ▸ hceiling⟩
  | some first =>
    simp only [bind_ok_iff, narrow_eq_ok, require_eq_ok, pure_ok_iff] at h
    obtain ⟨_, -, _, -, _, -, _, -, _, -, count, hcount, _, hceiling, quote, hquote, rfl⟩ := h
    exact ⟨quote, hquote, rfl, hcount ▸ hceiling⟩

omit [CsvDecoder] [DecimalArith] in
/-- The records of a file become one quote each under the ceiling, by induction on them. -/
theorem readRecords_gather {step : StepIndex} {cols : CsvColumns} {records : List (List String)}
    {parsed parsed' : ParsedCsv F} {seen : List (List String)}
    (hseen : List.Forall₂ (fun record quote => csvQuote cols record = .ok quote)
      seen parsed.quotes)
    (hceiling : (seen.length : Int) ≤ limits.maxContractsPerSnapshot.value)
    (h : records.foldlM (readRecord limits step cols) parsed = .ok parsed') :
    List.Forall₂ (fun record quote => csvQuote cols record = .ok quote)
        (seen ++ records) parsed'.quotes ∧
      ((seen ++ records).length : Int) ≤ limits.maxContractsPerSnapshot.value := by
  induction records generalizing seen parsed with
  | nil =>
    rw [List.append_nil, ← foldlM_nil_ok.1 h]
    exact ⟨hseen, hceiling⟩
  | cons record records ih =>
    obtain ⟨next, hrecord, hrecords⟩ := foldlM_cons_ok.1 h
    obtain ⟨quote, hquote, hnext, hroom⟩ := readRecord_adds hrecord
    rw [List.append_cons]
    apply ih _ _ hrecords
    · rw [hnext]
      exact List.rel_append hseen (.cons hquote .nil)
    · rw [List.length_append, List.length_singleton, hseen.length_eq]
      exact hroom

variable [TypeSizes] [Sha256]

/-- The states of the loop over the files of a directory, with the files read so far. -/
inductive CsvFeed.Loop.Reached (F : Type) [AnalyticFloat F] [FloatText F]
    (limits : ResourceLimits) : List (DirEntry × Nat) → CsvFeed.Loop → Prop
  | init : Reached F limits [] .init
  | read {seen loop loop'} (file : DirEntry × Nat) : Reached F limits seen loop →
      CsvFeed.readFile F limits loop file = .ok loop' → Reached F limits (seen ++ [file]) loop'

omit [DecimalArith] [TypeSizes] [Sha256] in
theorem parseCsvSnapshot_gathers {bytes : List UInt8} {step : StepIndex} {head : SnapshotHead}
    {quotes : List (RawQuote F)}
    (h : parseCsvSnapshot bytes step limits = .ok (head, quotes)) : ∃ cols,
      List.Forall₂ (fun record quote => csvQuote cols record = .ok quote)
        (CsvDecoder.read bytes).trim.records quotes ∧
      ((CsvDecoder.read bytes).trim.records.length : Int) ≤
        limits.maxContractsPerSnapshot.value := by
  simp only [parseCsvSnapshot, bind_ok_iff] at h
  obtain ⟨header, -, cols, -, parsed, hparsed, h⟩ := h
  have hquotes : parsed.quotes = quotes := by
    split at h
    · cases h
    · simp only [bind_ok_iff, pure_ok_iff, Prod.mk.injEq] at h
      obtain ⟨_, -, -, hquotes⟩ := h
      exact hquotes
  have hnone : (([] : List (List String)).length : Int) ≤ limits.maxContractsPerSnapshot.value :=
    limits.maxContractsPerSnapshot.nonneg
  rw [← hquotes]
  exact ⟨cols, readRecords_gather .nil hnone hparsed⟩

/-- A file that is read is parsed and converted, and its snapshot pushed. -/
theorem readFile_pushes {loop loop' : CsvFeed.Loop} {file : DirEntry × Nat}
    (h : CsvFeed.readFile F limits loop file = .ok loop') :
    ∃ bytes snapshot step head quotes snapMeta, file.1.state = .Regular bytes ∧
      parseCsvSnapshot (F := F) bytes step limits = .ok (head, quotes) ∧
      rawQuotesToSnapshot snapMeta quotes = .ok snapshot ∧
      pushChecked loop.buffer snapshot limits = .ok loop'.buffer := by
  obtain ⟨⟨name, state⟩, index⟩ := file
  unfold CsvFeed.readFile at h
  cases state with
  | Missing msg => exact absurd h (by simp [bind_ok_iff])
  | Special => exact absurd h (by simp [bind_ok_iff])
  | Regular bytes =>
    simp only [bind_ok_iff, pure_ok_iff] at h
    obtain ⟨step, -, _, -, _, -, _, -, ⟨head, quotes⟩, hparse, snapshot, hconverted, buffer, hpush,
      rfl⟩ := h
    exact ⟨bytes, snapshot, step, head, quotes, _, rfl, hparse, hconverted, hpush⟩

/-- Whatever files were read, the tape is within the ceilings, by induction on them. -/
theorem CsvFeed.Loop.Reached.within {seen : List (DirEntry × Nat)} {loop : CsvFeed.Loop}
    (h : Reached F limits seen loop) : Ceiled limits loop.buffer ∧
      ∀ snapshot ∈ loop.buffer.tape, BuiltFromFile F limits seen snapshot := by
  induction h with
  | init => exact ⟨ceiled_empty, List.forall_mem_nil _⟩
  | @read seen loop loop' file _ hread ih =>
    obtain ⟨bytes, snapshot, step, head, quotes, snapMeta, hstate, hparse, hconverted, hpush⟩ :=
      readFile_pushes hread
    refine ⟨ih.1.push hpush, fun s hs => ?_⟩
    rw [(pushChecked_eq_ok hpush).1, List.mem_append, List.mem_singleton] at hs
    rcases hs with hs | rfl
    · obtain ⟨earlier, hearlier, hbuilt⟩ := ih.2 s hs
      exact ⟨earlier, List.mem_append_left _ hearlier, hbuilt⟩
    · obtain ⟨cols, hquotes, hceiling⟩ := parseCsvSnapshot_gathers hparse
      exact ⟨file, List.mem_append_right _ (List.mem_singleton_self file), bytes, cols, snapMeta,
        quotes, hstate, hquotes, hceiling, hconverted⟩

theorem CsvFeed.Loop.Reached.readFiles {seen files : List (DirEntry × Nat)}
    {loop loop' : CsvFeed.Loop} (h : Reached F limits seen loop)
    (hread : files.foldlM (CsvFeed.readFile F limits) loop = .ok loop') :
    Reached F limits (seen ++ files) loop' := by
  induction files generalizing seen loop with
  | nil =>
    rw [List.append_nil, ← foldlM_nil_ok.1 hread]
    exact h
  | cons file files ih =>
    obtain ⟨next, hfile, hfiles⟩ := foldlM_cons_ok.1 hread
    rw [List.append_cons]
    exact ih (h.read file hfile) hfiles

/-- The tape of a CSV directory is that of a state of the loop. -/
theorem csvFeed_open_reached {directories : Directories} {path : String} {csv : CsvFeed}
    (h : CsvFeed.open F directories path limits = .ok csv) :
    ∃ seen loop, CsvFeed.Loop.Reached F limits seen loop ∧ loop.buffer.tape = csv.snapshots := by
  unfold CsvFeed.open at h
  split at h
  · cases h
  · cases h
  · simp only [bind_ok_iff, pure_ok_iff] at h
    obtain ⟨listed, -, loop, hloop, tapeMeta, -, rfl⟩ := h
    exact ⟨_, loop, CsvFeed.Loop.Reached.init.readFiles hloop, rfl⟩

end Files

section Session

variable {Resp : Type} [ChainResponses Resp] [TypeSizes] {instrument : InstrumentSpec}
  {quoteSize : Quantity} {limits : ResourceLimits}

/-- The states of the loop over the responses of a session. -/
inductive DrainLoop.Reached (Resp : Type) [ChainResponses Resp] (instrument : InstrumentSpec)
    (quoteSize : Quantity) (limits : ResourceLimits) : DrainLoop → Prop
  | init (session : SessionResponse) : Reached Resp instrument quoteSize limits (.init session)
  | received {loop loop'} (resp : Resp) : Reached Resp instrument quoteSize limits loop →
      loop.receive instrument quoteSize limits resp = .ok loop' →
      Reached Resp instrument quoteSize limits loop'

theorem DrainLoop.Reached.ceiled {loop : DrainLoop}
    (h : loop.Reached Resp instrument quoteSize limits) : Ceiled limits loop.buffer := by
  induction h with
  | init session => exact ceiled_empty
  | received resp _ hreceive ih =>
    obtain ⟨snapshot, hpush⟩ := DrainLoop.receive_pushes hreceive
    exact ih.push hpush

/-- The tape of a session is that of a state of the loop, by induction on the advances. -/
theorem drain_reached {server : Nat → Nat → Outcome Resp} {loop : DrainLoop}
    {tape : List ChainSnapshot} (hloop : loop.Reached Resp instrument quoteSize limits)
    (h : drain instrument quoteSize limits server loop = .ok tape) :
    ∃ last : DrainLoop, last.Reached Resp instrument quoteSize limits ∧
      last.buffer.tape = tape := by
  fun_induction drain instrument quoteSize limits server loop with
  | case1 loop hended =>
    cases h
    exact ⟨loop, hloop, rfl⟩
  | case2 loop _ e hadvance => cases h
  | case3 loop _ next hadvance ih =>
    obtain ⟨resp, -, hreceive⟩ := bind_ok_iff.1 hadvance
    exact ih (hloop.received resp hreceive) h

end Session

section Ceilings

variable (F Resp : Type) [AnalyticFloat F] [FloatText F] [CsvDecoder] [ParquetDecoder F]
  [ChainResponses Resp] [DecimalArith] [TypeSizes] [Sha256]

/-- However many snapshots are offered, the tape stays under the ceilings of its length and its
bytes with an exact counter, and a refusal changes nothing. So it is in every state of the three
loaders, and every chain of a file was gathered under the ceiling of a chain. -/
theorem ingest_ceilings (limits : ResourceLimits) :
    (∀ snapshots : List ChainSnapshot, Ceiled limits (snapshots.foldl (offer limits) .empty)) ∧
    (∀ (buffer after : TapeBuffer) (snapshot : ChainSnapshot) (e : BacktestError),
      (pushCheckedInPlace snapshot limits).run buffer = .error e after → after = buffer) ∧
    ((∀ (bytes : List UInt8) (tape : List ChainSnapshot),
        ParquetFeed.readTape (F := F) bytes limits = .ok tape →
          ∃ seen, ∃ loop : ParquetLoop F, loop.Reached limits seen ∧ loop.buffer.tape = tape) ∧
      ∀ (seen : List (IndexedRow F)) (loop : ParquetLoop F), loop.Reached limits seen →
        Ceiled limits loop.buffer ∧
          ∀ snapshot ∈ loop.buffer.tape, BuiltFromRows limits seen snapshot) ∧
    ((∀ (directories : Directories) (path : String) (csv : CsvFeed),
        CsvFeed.open F directories path limits = .ok csv →
          ∃ seen loop, CsvFeed.Loop.Reached F limits seen loop ∧
            loop.buffer.tape = csv.snapshots) ∧
      ∀ (seen : List (DirEntry × Nat)) (loop : CsvFeed.Loop),
        CsvFeed.Loop.Reached F limits seen loop → Ceiled limits loop.buffer ∧
          ∀ snapshot ∈ loop.buffer.tape, BuiltFromFile F limits seen snapshot) ∧
    ∀ (instrument : InstrumentSpec) (quoteSize : Quantity),
      (∀ (session : SessionResponse) (server : Nat → Nat → Outcome Resp)
          (tape : List ChainSnapshot),
        drain instrument quoteSize limits server (.init session) = .ok tape →
          ∃ loop : DrainLoop, loop.Reached Resp instrument quoteSize limits ∧
            loop.buffer.tape = tape) ∧
      ∀ loop : DrainLoop, loop.Reached Resp instrument quoteSize limits →
        Ceiled limits loop.buffer := by
  refine ⟨ceiled_empty.offers, fun _ _ _ _ => pushCheckedInPlace_refuses,
    ⟨fun _ _ => readTape_reached, fun seen loop h => ?_⟩,
    ⟨fun _ _ _ => csvFeed_open_reached, fun _ _ => CsvFeed.Loop.Reached.within⟩,
    fun instrument quoteSize => ⟨fun session _ _ => drain_reached (.init session),
      fun loop => DrainLoop.Reached.ceiled⟩⟩
  exact ⟨h.within.ceiled, h.within.built⟩

end Ceilings

namespace SmallSession

open SmallFiles SmallMarket

/-- Snapshots as their own responses, in a session of three steps. -/
scoped instance : ChainResponses ChainSnapshot where
  contracts snapshot := snapshot.quotes.size
  responseTs snapshot := .ok snapshot.ts
  toSnapshot snapshot step _ _ _ := .ok { snapshot with step }
  currentStep snapshot := snapshot.step.value.toNat + 1
  totalSteps _ := 3

/-- The limits of the small files, with room for two snapshots. -/
def twoSteps : ResourceLimits := { SmallFiles.limits with maxSteps := ⟨2, by decide⟩ }

/-- A Parquet file of two snapshots fills the tape, and the third snapshot offered is refused. -/
theorem ingest_ceilings_small :
    (∃ tape, ParquetFeed.readTape (F := Decimal) parquetBytes twoSteps = .ok tape ∧
      (tape.length : Int) ≤ 2 ∧ ∀ snapshot ∈ tape, ∃ seen : List (IndexedRow Decimal),
        BuiltFromRows twoSteps seen snapshot) ∧
    Ceiled twoSteps (dip.foldl (offer twoSteps) .empty) ∧
    ∃ buffer e, (pushCheckedInPlace firstStep twoSteps).run buffer = .error e buffer := by
  obtain ⟨hoffers, hrefuses, ⟨hread, hparquet⟩, -⟩ :=
    ingest_ceilings Decimal ChainSnapshot twoSteps
  refine ⟨?_, hoffers dip, ?_⟩
  · obtain ⟨tape, htape⟩ := exists_eq_ok
      (r := ParquetFeed.readTape (F := Decimal) parquetBytes twoSteps) (by decide +kernel)
    obtain ⟨seen, loop, hreached, rfl⟩ := hread _ _ htape
    obtain ⟨hceiled, hbuilt⟩ := hparquet seen loop hreached
    exact ⟨_, htape, hceiled.steps, fun snapshot hsnapshot => ⟨seen, hbuilt snapshot hsnapshot⟩⟩
  · have hfull : ∃ e after, (pushCheckedInPlace firstStep twoSteps).run
        ⟨[firstStep, secondStep], ⟨0, by decide⟩⟩ = .error e after := ⟨_, _, rfl⟩
    obtain ⟨e, after, h⟩ := hfull
    exact ⟨_, e, by rw [h, hrefuses _ _ _ _ h]⟩

end SmallSession

end IronCondor
