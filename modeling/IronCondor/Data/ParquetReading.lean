import IronCondor.Data.TypedRows

/-! # Reading typed rows from a Parquet file

A row is read into the group of its step, a group is flushed when the next one starts, and what
the whole file leaves is what its typed rows mean. -/
namespace IronCondor

open Checked ExceptRun

variable {F : Type}

/-- The Parquet row of a typed row. -/
@[simps] def TypedRow.toParquet (step : Bounded i32) (row : TypedRow F) : ParquetRow F where
  step := some step
  ts := some row.ts
  underlying := some row.underlying
  underlyingPrice := some row.underlyingPrice
  tickSize := some row.tickSize
  contractMultiplier := some row.contractMultiplier
  expiration := some row.expiration
  strike := some row.strike
  style := some row.style
  bid := some row.bid
  ask := some row.ask
  bidSize := some row.bidSize
  askSize := some row.askSize
  impliedVolatility := some row.impliedVolatility
  delta := row.delta
  gamma := row.gamma
  theta := row.theta
  vega := row.vega

/-- The snapshots from step `k` on, row by row, every row under its step. -/
inductive ParquetRows : Nat → List (List (TypedRow F)) → List (ParquetRow F) → Prop
  | nil (k : Nat) : ParquetRows k [] []
  | cons {k : Nat} {step : Bounded i32} {rows : List (TypedRow F)}
      {rest : List (List (TypedRow F))} {out : List (ParquetRow F)} (hstep : step.value = k)
      (hrest : ParquetRows (k + 1) rest out) :
      ParquetRows k (rows :: rest) (rows.map (TypedRow.toParquet step) ++ out)

namespace GroupBuilder

/-- The group of the fields of a snapshot. -/
def ofHead (step : StepIndex) (stepRaw : Bounded i32) (head : SnapshotHead)
    (quotes : List (RawQuote F)) : GroupBuilder F where
  step
  stepRaw
  ts := head.ts
  underlying := head.underlying
  underlyingPrice := head.underlyingPrice
  tickSizeCents := head.tickSizeCents
  contractMultiplier := head.contractMultiplier
  quotes

@[simp] theorem ofHead_stepRaw (step : StepIndex) (stepRaw : Bounded i32) (head : SnapshotHead)
    (quotes : List (RawQuote F)) : (ofHead step stepRaw head quotes).stepRaw = stepRaw := rfl

theorem start_eq_ok {row : TypedRow F} {index : Nat} {stepRaw : Bounded i32}
    {group : GroupBuilder F} : start (row.toParquet stepRaw) index stepRaw = .ok group ↔
      ∃ step head, step.value = stepRaw.value ∧ row.Head head ∧
        group = ofHead step stepRaw head [] := by
  simp only [start, TypedRow.toParquet, reqCell_some, ok_bind, bind_ok_iff, countU32_eq_ok,
    priceCents_eq_ok, Underlying.new_eq_ok, pure_ok_iff]
  constructor
  · rintro ⟨step, hstep, underlying, hunderlying, price, hprice, tick, htick, multiplier,
      hmultiplier, rfl⟩
    exact ⟨step, ⟨row.ts, underlying, price, tick, multiplier⟩, hstep,
      ⟨rfl, hunderlying, hprice, htick, hmultiplier⟩, rfl⟩
  · rintro ⟨step, head, hstep, hhead, rfl⟩
    refine ⟨step, hstep, head.underlying, hhead.underlying, head.underlyingPrice,
      hhead.underlyingPrice, head.tickSizeCents, hhead.tickSize, head.contractMultiplier,
      hhead.contractMultiplier, ?_⟩
    rw [← hhead.ts]
    rfl

variable [AnalyticFloat F]

theorem rowQuote_eq_ok {row : TypedRow F} {stepRaw : Bounded i32} {index : Nat}
    {quote : RawQuote F} :
    rowQuote (row.toParquet stepRaw) index = .ok quote ↔ row.Quote quote := by
  simp only [rowQuote, TypedRow.toParquet, reqCell_some, ok_bind, bind_ok_iff, countU32_eq_ok,
    priceCents_eq_ok, Quantity.new_eq_ok, pure_ok_iff]
  constructor
  · rintro ⟨strike, hstrike, style, hstyle, bid, hbid, ask, hask, bidCount, hbidCount, bidSize,
      hbidSize, askCount, haskCount, askSize, haskSize, rfl⟩
    exact ⟨rfl, hstrike, hstyle, hbid, hask, hbidSize.trans hbidCount, haskSize.trans haskCount,
      rfl, rfl, rfl, rfl, rfl⟩
  · rintro ⟨hexpiration, hstrike, hstyle, hbid, hask, hbidSize, haskSize, hiv, hdelta, hgamma,
      htheta, hvega⟩
    refine ⟨quote.strike, hstrike, quote.style, hstyle, quote.bid, hbid, quote.ask, hask,
      quote.bidSize.toU32, hbidSize, quote.bidSize, rfl, quote.askSize.toU32, haskSize,
      quote.askSize, rfl, ?_⟩
    obtain ⟨_, _, _, _, _, _, _, _, _, _, _, _⟩ := quote
    simp_all only

/-- The next row of a group carries the fields of the group, and adds its quote. -/
theorem pushRow_eq_ok {row : TypedRow F} {step : StepIndex} {stepRaw rowStep : Bounded i32}
    {head : SnapshotHead} {quotes : List (RawQuote F)} {index : Nat} {limits : ResourceLimits}
    {group : GroupBuilder F} :
    pushRow (ofHead step stepRaw head quotes) (row.toParquet rowStep) index limits = .ok group ↔
      row.Head head ∧ ((quotes.length + 1 : Nat) : Int) ≤ limits.maxContractsPerSnapshot.value ∧
        ∃ quote, row.Quote quote ∧ group = ofHead step stepRaw head (quotes ++ [quote]) := by
  unfold pushRow
  generalize hparsed : rowQuote (row.toParquet rowStep) index = parsed
  simp only [TypedRow.toParquet, reqCell_some, ok_bind, bind_ok_iff, countU32_eq_ok,
    priceCents_eq_ok, ensureConst_eq_ok, narrow_eq_ok, require_eq_ok, pure_ok_iff, ofHead]
  constructor
  · rintro ⟨_, hts, _, hunderlying, price, hprice, _, hprice', tick, htick, _, htick', multiplier,
      hmultiplier, _, hmultiplier', count, hcount, _, hle, quote, hq, rfl⟩
    refine ⟨⟨Bounded.ext hts.symm, hunderlying.symm, hprice'.symm.trans hprice,
      htick'.symm.trans htick, hmultiplier'.symm.trans hmultiplier⟩, hcount ▸ hle, quote,
      rowQuote_eq_ok.1 (hparsed.trans hq), rfl⟩
  · rintro ⟨hhead, hle, quote, hq, rfl⟩
    obtain ⟨count, hcount, hcountle, -⟩ := contractCount_ok.2 ⟨hle, trivial⟩
    exact ⟨(), congrArg Bounded.value hhead.ts.symm, (), hhead.underlying.symm,
      head.underlyingPrice, hhead.underlyingPrice, (), rfl, head.tickSizeCents, hhead.tickSize, (),
      rfl, head.contractMultiplier, hhead.contractMultiplier, (), rfl, count, hcount, (), hcountle,
      quote, hparsed.symm.trans (rowQuote_eq_ok.2 hq), rfl⟩

theorem finish_ofHead [DecimalArith] (step : StepIndex) (stepRaw : Bounded i32)
    (head : SnapshotHead) (quotes : List (RawQuote F)) (anchor : Option SimTime) :
    (ofHead step stepRaw head quotes).finish (anchor.getD head.ts) =
      rawQuotesToSnapshot (head.snapshotMeta step anchor) quotes := rfl

end GroupBuilder

namespace ParquetLoop

variable [AnalyticFloat F] [DecimalArith] [TypeSizes] {limits : ResourceLimits}
  {loop loop' : ParquetLoop F}

/-- Every step the loop has seen is before step `k`. -/
structure Before (k : Nat) (loop : ParquetLoop F) : Prop where
  current : ∀ group, loop.current = some group → group.stepRaw.value < k
  prevStep : ∀ previous, loop.prevStep = some previous → previous.value < k

/-- The loop with the group of its current step. -/
def withGroup (loop : ParquetLoop F) (stepRaw : Bounded i32) (step : StepIndex)
    (head : SnapshotHead) (quotes : List (RawQuote F)) : ParquetLoop F :=
  { loop with
    prevStep := some stepRaw
    current := some (GroupBuilder.ofHead step stepRaw head quotes) }

theorem flush_prevStep {flushed : ParquetLoop F} (h : loop.flush limits = .ok flushed) :
    flushed.prevStep = loop.prevStep := by
  unfold flush at h
  split at h
  · cases h
    rfl
  · simp only [bind_ok_iff, pure_ok_iff] at h
    obtain ⟨_, -, _, -, rfl⟩ := h
    rfl

omit [AnalyticFloat F] [DecimalArith] [TypeSizes] in
@[simp] theorem isOpen_withGroup (stepRaw : Bounded i32) (step : StepIndex) (head : SnapshotHead)
    (quotes : List (RawQuote F)) :
    (loop.withGroup stepRaw step head quotes).isOpen stepRaw = true := by
  simp [isOpen, withGroup]

omit [AnalyticFloat F] [DecimalArith] [TypeSizes] in
/-- No group is open at a step that is still to come. -/
theorem Before.isOpen {k : Nat} {stepRaw : Bounded i32} (h : loop.Before k)
    (hstep : stepRaw.value = k) : loop.isOpen stepRaw = false := by
  rw [← Bool.not_eq_true, ParquetLoop.isOpen, Option.any_eq_true]
  rintro ⟨group, hgroup, hsame⟩
  have hlt := h.current group hgroup
  rw [of_decide_eq_true hsame, hstep] at hlt
  exact absurd hlt (lt_irrefl _)

/-- A later row of a step carries the fields of its group. -/
theorem readRow_next {row : TypedRow F} {stepRaw : Bounded i32} {index : Nat} {step : StepIndex}
    {head : SnapshotHead} {quotes : List (RawQuote F)} :
    readRow limits (loop.withGroup stepRaw step head quotes) (row.toParquet stepRaw, index) =
        .ok loop' ↔
      row.Head head ∧ ((quotes.length + 1 : Nat) : Int) ≤ limits.maxContractsPerSnapshot.value ∧
        ∃ quote, row.Quote quote ∧
          loop' = loop.withGroup stepRaw step head (quotes ++ [quote]) := by
  simp only [readRow, TypedRow.toParquet_step, reqCell_some, ok_bind, isOpen_withGroup, if_true,
    pure_bind]
  simp only [pushCurrent, withGroup, bind_ok_iff, GroupBuilder.pushRow_eq_ok, pure_ok_iff]
  constructor
  · rintro ⟨_, ⟨hhead, hle, quote, hquote, rfl⟩, rfl⟩
    exact ⟨hhead, hle, quote, hquote, rfl⟩
  · rintro ⟨hhead, hle, quote, hquote, rfl⟩
    exact ⟨_, ⟨hhead, hle, quote, hquote, rfl⟩, rfl⟩

/-- The first row of a step flushes the group before it and starts its own. -/
theorem startGroup_eq_ok {k : Nat} {row : TypedRow F} {stepRaw : Bounded i32} {index : Nat}
    (hbefore : loop.Before k) (hstep : stepRaw.value = k) :
    loop.startGroup limits (row.toParquet stepRaw) index stepRaw = .ok loop' ↔
      ∃ flushed step head, loop.flush limits = .ok flushed ∧ step.value = stepRaw.value ∧
        row.Head head ∧ loop' = flushed.withGroup stepRaw step head [] := by
  unfold startGroup
  rw [bind_ok_iff]
  have hprev : ∀ flushed, loop.flush limits = .ok flushed →
      ∀ previous, flushed.prevStep = some previous → previous.value < stepRaw.value := by
    intro flushed hflush previous h
    rw [flush_prevStep hflush] at h
    exact hstep ▸ hbefore.prevStep previous h
  constructor
  · rintro ⟨flushed, hflush, h⟩
    split at h
    · simp only [bind_ok_iff, GroupBuilder.start_eq_ok, pure_ok_iff] at h
      obtain ⟨_, -, _, ⟨step, head, hstep, hhead, rfl⟩, rfl⟩ := h
      exact ⟨flushed, step, head, hflush, hstep, hhead, rfl⟩
    · simp only [bind_ok_iff, GroupBuilder.start_eq_ok, pure_ok_iff] at h
      obtain ⟨_, ⟨step, head, hstep, hhead, rfl⟩, rfl⟩ := h
      exact ⟨flushed, step, head, hflush, hstep, hhead, rfl⟩
  · rintro ⟨flushed, step, head, hflush, hstep, hhead, rfl⟩
    refine ⟨flushed, hflush, ?_⟩
    split
    · rename_i previous h
      simp only [bind_ok_iff, require_eq_ok, GroupBuilder.start_eq_ok, pure_ok_iff]
      exact ⟨(), hprev flushed hflush previous h, _, ⟨step, head, hstep, hhead, rfl⟩, rfl⟩
    · simp only [bind_ok_iff, GroupBuilder.start_eq_ok, pure_ok_iff]
      exact ⟨_, ⟨step, head, hstep, hhead, rfl⟩, rfl⟩

theorem readRow_first {k : Nat} {row : TypedRow F} {stepRaw : Bounded i32} {index : Nat}
    (hbefore : loop.Before k) (hstep : stepRaw.value = k) :
    readRow limits loop (row.toParquet stepRaw, index) =
      loop.startGroup limits (row.toParquet stepRaw) index stepRaw >>= fun started =>
        readRow limits started (row.toParquet stepRaw, index) := by
  conv_lhs => unfold readRow
  simp only [TypedRow.toParquet_step, reqCell_some, ok_bind, hbefore.isOpen hstep]
  cases hstart : loop.startGroup limits (row.toParquet stepRaw) index stepRaw with
  | error e => rfl
  | ok started =>
    obtain ⟨flushed, step, head, -, -, -, rfl⟩ := (startGroup_eq_ok hbefore hstep).1 hstart
    simp only [readRow, TypedRow.toParquet_step, reqCell_some, ok_bind, isOpen_withGroup, if_true,
      pure_bind]
    rfl

/-- The later rows of a step, by induction on them; the quotes are appended in order. -/
theorem readRows_next {rows : List (TypedRow F)} {entries : List (ParquetRow F × Nat)}
    {stepRaw : Bounded i32} {step : StepIndex} {head : SnapshotHead} {quotes : List (RawQuote F)}
    (hentries : entries.map Prod.fst = rows.map (TypedRow.toParquet stepRaw))
    (hceiling : (quotes.length : Int) ≤ limits.maxContractsPerSnapshot.value) :
    entries.foldlM (readRow limits) (loop.withGroup stepRaw step head quotes) = .ok loop' ↔
      (∀ row ∈ rows, row.Head head) ∧
        ((quotes.length + rows.length : Nat) : Int) ≤ limits.maxContractsPerSnapshot.value ∧
        ∃ more, List.Forall₂ TypedRow.Quote rows more ∧
          loop' = loop.withGroup stepRaw step head (quotes ++ more) := by
  induction rows generalizing entries quotes with
  | nil =>
    obtain rfl : entries = [] := List.map_eq_nil_iff.1 hentries
    rw [foldlM_nil_ok]
    simp [hceiling, eq_comm]
  | cons row rows ih =>
    obtain ⟨⟨parquet, index⟩, entries, rfl, rfl, hrest⟩ := List.map_eq_cons_iff.1 hentries
    rw [foldlM_cons_ok]
    constructor
    · rintro ⟨mid, hmid, hfold⟩
      obtain ⟨hhead, hle, quote, hquote, rfl⟩ := readRow_next.1 hmid
      obtain ⟨hheads, htotal, more, hmore, rfl⟩ := (ih hrest (by simpa using hle)).1 hfold
      refine ⟨List.forall_mem_cons.2 ⟨hhead, hheads⟩, ?_, quote :: more, .cons hquote hmore, ?_⟩
      · simp only [List.length_append, List.length_cons, List.length_nil] at htotal ⊢
        omega
      · simp
    · rintro ⟨hheads, htotal, more, hmore, rfl⟩
      obtain ⟨hhead, hheads⟩ := List.forall_mem_cons.1 hheads
      obtain ⟨quote, tail, hquote, htail, rfl⟩ := List.forall₂_cons_left_iff.1 hmore
      rw [List.length_cons] at htotal
      refine ⟨loop.withGroup stepRaw step head (quotes ++ [quote]),
        readRow_next.2 ⟨hhead, by omega, quote, hquote, rfl⟩, ?_⟩
      refine (ih hrest (by rw [List.length_append, List.length_singleton]; omega)).2
        ⟨hheads, ?_, tail, htail, by simp⟩
      rw [List.length_append, List.length_singleton]
      omega

/-- The rows of one step: the group before is flushed and the rows make the new one. -/
theorem readRows_group {k : Nat} {rows : List (TypedRow F)} {entries : List (ParquetRow F × Nat)}
    {stepRaw : Bounded i32} (hbefore : loop.Before k) (hstep : stepRaw.value = k)
    (hrows : rows ≠ []) (hentries : entries.map Prod.fst = rows.map (TypedRow.toParquet stepRaw)) :
    entries.foldlM (readRow limits) loop = .ok loop' ↔
      ∃ flushed step head quotes, loop.flush limits = .ok flushed ∧ step.value = stepRaw.value ∧
        RowsRead limits rows head quotes ∧
        loop' = flushed.withGroup stepRaw step head quotes := by
  obtain ⟨row, rest, rfl⟩ := List.exists_cons_of_ne_nil hrows
  obtain ⟨⟨parquet, index⟩, more, rfl, rfl, hmore⟩ := List.map_eq_cons_iff.1 hentries
  have hfirst : List.foldlM (readRow limits) loop ((row.toParquet stepRaw, index) :: more) =
      loop.startGroup limits (row.toParquet stepRaw) index stepRaw >>= fun started =>
        List.foldlM (readRow limits) started ((row.toParquet stepRaw, index) :: more) := by
    rw [List.foldlM_cons, readRow_first hbefore hstep, bind_assoc]
    rfl
  have hnone : (([] : List (RawQuote F)).length : Int) ≤ limits.maxContractsPerSnapshot.value :=
    limits.maxContractsPerSnapshot.nonneg
  rw [hfirst, bind_ok_iff]
  constructor
  · rintro ⟨_, hstart, hfold⟩
    obtain ⟨flushed, step, head, hflush, hvalue, -, rfl⟩ := (startGroup_eq_ok hbefore hstep).1 hstart
    obtain ⟨hheads, htotal, quotes, hquotes, rfl⟩ := (readRows_next hentries hnone).1 hfold
    refine ⟨flushed, step, head, quotes, hflush, hvalue, ⟨hheads, hquotes, ?_⟩, rfl⟩
    simpa using htotal
  · rintro ⟨flushed, step, head, quotes, hflush, hvalue, hread, rfl⟩
    refine ⟨flushed.withGroup stepRaw step head [], (startGroup_eq_ok hbefore hstep).2
      ⟨flushed, step, head, hflush, hvalue, hread.heads row List.mem_cons_self, rfl⟩, ?_⟩
    refine (readRows_next hentries hnone).2 ⟨hread.heads, ?_, quotes, hread.quotes, rfl⟩
    simpa using hread.ceiling

omit [AnalyticFloat F] [DecimalArith] [TypeSizes] in
theorem withGroup_before {k : Nat} {stepRaw : Bounded i32} {step : StepIndex}
    {head : SnapshotHead} {quotes : List (RawQuote F)} (hstep : stepRaw.value = k) :
    (loop.withGroup stepRaw step head quotes).Before (k + 1) := by
  constructor
  · rintro _ ⟨⟩
    rw [GroupBuilder.ofHead_stepRaw, hstep]
    omega
  · rintro _ ⟨⟩
    omega

/-- Flushing a group converts and pushes it. -/
theorem flush_withGroup {stepRaw : Bounded i32} {step : StepIndex} {head : SnapshotHead}
    {quotes : List (RawQuote F)} {flushed : ParquetLoop F} :
    (loop.withGroup stepRaw step head quotes).flush limits = .ok flushed ↔
      ∃ snapshot pushed,
        rawQuotesToSnapshot (head.snapshotMeta step loop.anchorTs) quotes = .ok snapshot ∧
        pushChecked loop.buffer snapshot limits = .ok pushed ∧
        flushed = { loop with
          buffer := pushed
          anchorTs := some (loop.anchorTs.getD head.ts)
          current := none
          prevStep := some stepRaw } := by
  have hfinish := GroupBuilder.finish_ofHead step stepRaw head quotes loop.anchorTs
  simp only [flush, withGroup, bind_ok_iff, pure_ok_iff]
  constructor
  · rintro ⟨snapshot, hsnapshot, pushed, hpush, rfl⟩
    exact ⟨snapshot, pushed, hfinish.symm.trans hsnapshot, hpush, rfl⟩
  · rintro ⟨snapshot, pushed, hsnapshot, hpush, rfl⟩
    exact ⟨snapshot, hfinish.trans hsnapshot, pushed, hpush, rfl⟩

/-- The rows of a file leave what its snapshots mean, by induction on the snapshots. -/
theorem readRows_flush {k : Nat} {snapshots : List (List (TypedRow F))}
    {entries : List (ParquetRow F × Nat)} (final : TapeBuffer) (hbefore : loop.Before k)
    (hrows : ParquetRows k snapshots (entries.map Prod.fst))
    (hnonempty : ∀ rows ∈ snapshots, rows ≠ []) :
    (∃ last, entries.foldlM (readRow limits) loop >>= flush limits = .ok last ∧
        last.buffer = final) ↔
      ∃ flushed, loop.flush limits = .ok flushed ∧
        Materialises limits k snapshots flushed.buffer flushed.anchorTs final := by
  induction snapshots generalizing k loop entries with
  | nil =>
    generalize hout : entries.map Prod.fst = out at hrows
    cases hrows
    obtain rfl : entries = [] := List.map_eq_nil_iff.1 hout
    simp only [List.foldlM_nil, pure_bind, Materialises]
    exact exists_congr fun last => and_congr_right fun _ => eq_comm
  | cons rows rest ih =>
    generalize hout : entries.map Prod.fst = out at hrows
    cases hrows with
    | cons hstep hrest =>
      obtain ⟨here, later, rfl, hhere, rfl⟩ := List.map_eq_append_iff.1 hout
      obtain ⟨hrow, hnonempty⟩ := List.forall_mem_cons.1 hnonempty
      simp only [List.foldlM_append, bind_assoc, @bind_ok_iff _ _ _ (here.foldlM _ _),
        readRows_group hbefore hstep hrow hhere]
      constructor
      · rintro ⟨last, ⟨_, ⟨flushed, step, head, quotes, hflush, hvalue, hread, rfl⟩, hlast⟩, hfinal⟩
        obtain ⟨next, hnext, hmaterialises⟩ := (ih (withGroup_before hstep) hrest hnonempty).1
          ⟨last, hlast, hfinal⟩
        obtain ⟨snapshot, pushed, hsnapshot, hpush, rfl⟩ := flush_withGroup.1 hnext
        exact ⟨flushed, hflush, pushed, _, ⟨step, head, quotes, snapshot, hvalue.trans hstep,
          hread, hsnapshot, hpush, rfl⟩, hmaterialises⟩
      · rintro ⟨flushed, hflush, pushed, _, ⟨step, head, quotes, snapshot, hvalue, hread, hsnapshot,
          hpush, rfl⟩, hmaterialises⟩
        obtain ⟨last, hlast, hfinal⟩ := (ih (withGroup_before hstep) hrest hnonempty).2
          ⟨_, flush_withGroup.2 ⟨snapshot, pushed, hsnapshot, hpush, rfl⟩, hmaterialises⟩
        exact ⟨last, ⟨_, ⟨flushed, step, head, quotes, hflush, hvalue.trans hstep.symm, hread, rfl⟩,
          hlast⟩, hfinal⟩

/-- The loop with another count of the decoded bytes, which only `readBatch` looks at. -/
def withBytes (decodedBytes : Bounded u64) (loop : ParquetLoop F) : ParquetLoop F :=
  { loop with decodedBytes }

theorem flush_withBytes (decodedBytes : Bounded u64) :
    (loop.withBytes decodedBytes).flush limits = withBytes decodedBytes <$> loop.flush limits := by
  obtain ⟨buffer, anchorTs, current, prevStep, bytes⟩ := loop
  cases current with
  | none => rfl
  | some group => simp only [flush, withBytes, map_bind, map_pure]

theorem startGroup_withBytes (decodedBytes : Bounded u64) (row : ParquetRow F) (index : Nat)
    (stepRaw : Bounded i32) :
    (loop.withBytes decodedBytes).startGroup limits row index stepRaw =
      withBytes decodedBytes <$> loop.startGroup limits row index stepRaw := by
  unfold startGroup
  rw [flush_withBytes, bind_map_left, map_bind]
  congr 1
  funext flushed
  obtain ⟨buffer, anchorTs, current, prevStep, bytes⟩ := flushed
  cases prevStep <;> simp only [withBytes, map_bind, map_pure]

omit [DecimalArith] [TypeSizes] in
theorem pushCurrent_withBytes (decodedBytes : Bounded u64) (row : ParquetRow F) (index : Nat) :
    (loop.withBytes decodedBytes).pushCurrent limits row index =
      withBytes decodedBytes <$> loop.pushCurrent limits row index := by
  obtain ⟨buffer, anchorTs, current, prevStep, bytes⟩ := loop
  cases current with
  | none => rfl
  | some group => simp only [pushCurrent, withBytes, map_bind, map_pure]

theorem readRow_withBytes (decodedBytes : Bounded u64) (entry : ParquetRow F × Nat) :
    readRow limits (loop.withBytes decodedBytes) entry =
      withBytes decodedBytes <$> readRow limits loop entry := by
  unfold readRow
  rw [map_bind]
  congr 1
  funext stepRaw
  have hopen : (loop.withBytes decodedBytes).isOpen stepRaw = loop.isOpen stepRaw := rfl
  dsimp only
  rw [hopen]
  split_ifs
  · simp only [pure_bind, pushCurrent_withBytes]
  · simp only [startGroup_withBytes, bind_map_left, pushCurrent_withBytes, map_bind]

theorem readRows_withBytes (decodedBytes : Bounded u64) (entries : List (ParquetRow F × Nat)) :
    entries.foldlM (readRow limits) (loop.withBytes decodedBytes) =
      withBytes decodedBytes <$> entries.foldlM (readRow limits) loop := by
  induction entries generalizing loop with
  | nil => rfl
  | cons entry entries ih =>
    rw [List.foldlM_cons, List.foldlM_cons, readRow_withBytes, bind_map_left, map_bind]
    simp only [ih]

/-- The batches of a file, one after the other, are its rows; the bytes they take fit. -/
theorem readBatches (loop : ParquetLoop F) {batches : List (RecordBatch F)}
    (hbytes : loop.decodedBytes.value + ((batches.map RecordBatch.arrayMemorySize).sum : Nat) ≤
      limits.maxDecompressedBytes.value) :
    ∃ decodedBytes, (batches.map .ok).foldlM (readBatch limits) loop =
      withBytes decodedBytes <$>
        (batches.flatMap fun batch => batch.rows.zipIdx).foldlM (readRow limits) loop := by
  induction batches generalizing loop with
  | nil => exact ⟨loop.decodedBytes, rfl⟩
  | cons batch batches ih =>
    rw [List.map_cons, List.sum_cons] at hbytes
    have hmax := limits.maxDecompressedBytes.le_max
    have hbatch : u64.Contains (batch.arrayMemorySize : Int) := by
      refine ⟨Int.natCast_nonneg _, ?_⟩
      have := loop.decodedBytes.nonneg
      omega
    have hsum : u64.Contains (loop.decodedBytes.value + (batch.arrayMemorySize : Int)) := by
      refine ⟨?_, ?_⟩
      · have := loop.decodedBytes.nonneg
        change 0 ≤ _
        omega
      · omega
    let next : Bounded u64 := ⟨_, hsum⟩
    have hstep : readBatch limits loop (.ok batch) =
        withBytes next <$> batch.rows.zipIdx.foldlM (readRow limits) loop := by
      have hle : next.value ≤ limits.maxDecompressedBytes.value := by
        change loop.decodedBytes.value + (batch.arrayMemorySize : Int) ≤ _
        omega
      rw [← readRows_withBytes]
      simp only [readBatch, ok_bind, checked, narrow, dif_pos hbatch, dif_pos hsum, require,
        if_pos hle, next]
      rfl
    rw [List.map_cons, List.foldlM_cons, hstep, List.flatMap_cons, List.foldlM_append,
      bind_map_left]
    cases batch.rows.zipIdx.foldlM (readRow limits) loop with
    | error e => exact ⟨next, rfl⟩
    | ok mid =>
      obtain ⟨decodedBytes, hrest⟩ := ih (mid.withBytes next) (by
        change loop.decodedBytes.value + (batch.arrayMemorySize : Int) + _ ≤ _
        omega)
      refine ⟨decodedBytes, ?_⟩
      rw [ok_bind, ok_bind, hrest, readRows_withBytes]
      cases List.foldlM (readRow limits) mid (batches.flatMap fun batch => batch.rows.zipIdx) <;>
        rfl

end ParquetLoop

/-- What a file that can be decoded holds. -/
structure ParquetImage (F : Type) where
  rowGroups : List RowGroup
  batches : List (RecordBatch F)

/-- The offsets and sizes of a row group are those of a real one. -/
structure RowGroup.WellFormed (group : RowGroup) : Prop where
  columns : ∀ column ∈ group.columns, 0 ≤ column.compressedSize ∧ 0 ≤ column.dataPageOffset ∧
    column.dictionaryPageOffset.all (0 ≤ ·) = true
  size : 0 ≤ group.totalByteSize

/-- The bytes are a Parquet file of the snapshots: rows grouped by the steps 0, 1, 2, .... -/
structure WritesParquet [ParquetDecoder F] (snapshots : List (List (TypedRow F)))
    (bytes : List UInt8) (image : ParquetImage F) : Prop where
  decodes : ParquetDecoder.read bytes =
    .ok ⟨image.rowGroups, expectedSchema, .ok (image.batches.map .ok)⟩
  wellFormed : ∀ group ∈ image.rowGroups, group.WellFormed
  rows : ParquetRows 0 snapshots (image.batches.flatMap RecordBatch.rows)

/-- The file crosses none of the byte ceilings. -/
structure ParquetImage.Within (limits : ResourceLimits) (bytes : List UInt8)
    (image : ParquetImage F) : Prop where
  file : (bytes.length : Int) ≤ limits.maxFileBytes.value
  declared : (image.rowGroups.map RowGroup.totalByteSize).sum ≤ limits.maxDecompressedBytes.value
  decoded : ((image.batches.map RecordBatch.arrayMemorySize).sum : Nat) ≤
    limits.maxDecompressedBytes.value

theorem validateSchema_expected : validateSchema expectedSchema = .ok () := by
  have hlookup : ∀ column ∈ expectedSchema, expectedSchema.lookup column.1 = some column.2 := by
    decide
  simp only [validateSchema, bind_ok_iff, require_eq_ok, forM_ok_iff, okOr_eq_ok]
  exact ⟨(), trivial, fun column hcolumn => ⟨column.2, hlookup column hcolumn, rfl⟩⟩

/-- Sizes that fit are added up. -/
theorem declaredBytes_sum {limits : ResourceLimits} {groups : List RowGroup}
    (declared : Bounded u64) (hgroups : ∀ group ∈ groups, group.WellFormed)
    (hsum : declared.value + (groups.map RowGroup.totalByteSize).sum ≤
      limits.maxDecompressedBytes.value) :
    ∃ total, groups.foldlM declaredBytes declared = .ok total ∧
      total.value ≤ limits.maxDecompressedBytes.value := by
  induction groups generalizing declared with
  | nil => exact ⟨declared, rfl, by simpa using hsum⟩
  | cons group groups ih =>
    obtain ⟨hgroup, hgroups⟩ := List.forall_mem_cons.1 hgroups
    rw [List.map_cons, List.sum_cons] at hsum
    have hrest : 0 ≤ (groups.map RowGroup.totalByteSize).sum :=
      List.sum_nonneg (List.forall_mem_map.2 fun g hg => (hgroups g hg).size)
    have hmax := limits.maxDecompressedBytes.le_max
    have hdeclared := declared.nonneg
    have hsize := hgroup.size
    have hnarrow : u64.Contains group.totalByteSize := ⟨hsize, by omega⟩
    have hadd : u64.Contains (declared.value + group.totalByteSize) := by
      refine ⟨?_, by omega⟩
      change 0 ≤ _
      omega
    have hstep : declaredBytes declared group = .ok ⟨_, hadd⟩ := by
      simp only [declaredBytes, bind_ok_iff, forM_ok_iff, require_eq_ok, narrow_eq_ok]
      exact ⟨(), fun column hcolumn => hgroup.columns column hcolumn,
        ⟨group.totalByteSize, hnarrow⟩, rfl, rfl⟩
    obtain ⟨total, hfold, hle⟩ := ih ⟨_, hadd⟩ hgroups (by
      change declared.value + group.totalByteSize + _ ≤ _
      omega)
    exact ⟨total, foldlM_cons_ok.2 ⟨_, hstep, hfold⟩, hle⟩

/-- The tape read from a Parquet file of the snapshots is what they mean. -/
theorem readTape_eq_ok [ParquetDecoder F] [AnalyticFloat F] [DecimalArith] [TypeSizes]
    {snapshots : List (List (TypedRow F))} {bytes : List UInt8} {image : ParquetImage F}
    {limits : ResourceLimits} {tape : List ChainSnapshot}
    (hwrites : WritesParquet snapshots bytes image) (hwithin : image.Within limits bytes)
    (hnonempty : ∀ rows ∈ snapshots, rows ≠ []) :
    ParquetFeed.readTape bytes limits = .ok tape ↔
      ∃ final, Materialises limits 0 snapshots .empty none final ∧ final.tape = tape := by
  obtain ⟨total, htotal, hle⟩ := declaredBytes_sum ⟨0, by decide⟩ hwrites.wellFormed
    (by simpa using hwithin.declared)
  obtain ⟨decodedBytes, hbatches⟩ := ParquetLoop.readBatches .init
    (by simpa [ParquetLoop.init] using hwithin.decoded)
  have hrows : ParquetRows 0 snapshots
      ((image.batches.flatMap fun batch => batch.rows.zipIdx).map Prod.fst) := by
    have h := hwrites.rows
    simpa [List.map_flatMap, Function.comp_def] using h
  have hbefore : (ParquetLoop.init : ParquetLoop F).Before 0 := by
    constructor <;> simp [ParquetLoop.init]
  have hread : ∀ final, (∃ last, (image.batches.flatMap fun batch => batch.rows.zipIdx).foldlM
      (ParquetLoop.readRow limits) .init >>= ParquetLoop.flush limits = .ok last ∧
        last.buffer = final) ↔ ∃ flushed, ParquetLoop.init.flush limits = .ok flushed ∧
          Materialises limits 0 snapshots flushed.buffer flushed.anchorTs final :=
    fun final => ParquetLoop.readRows_flush final hbefore hrows hnonempty
  have htape : ParquetFeed.readTape bytes limits = do
      let last ← (image.batches.flatMap fun batch => batch.rows.zipIdx).foldlM
        (ParquetLoop.readRow limits) .init >>= ParquetLoop.flush limits
      return last.buffer.tape := by
    simp only [ParquetFeed.readTape, hwrites.decodes, ok_bind, htotal, require, if_pos hle,
      validateSchema_expected, hbatches, bind_map_left, ParquetLoop.flush_withBytes, bind_assoc]
    rfl
  rw [htape, bind_ok_iff]
  constructor
  · rintro ⟨last, hlast, hpure⟩
    obtain ⟨_, ⟨⟩, hmaterialises⟩ := (hread last.buffer).1 ⟨last, hlast, rfl⟩
    exact ⟨last.buffer, hmaterialises, pure_ok_iff.1 hpure⟩
  · rintro ⟨final, hmaterialises, rfl⟩
    obtain ⟨last, hlast, rfl⟩ := (hread final).2 ⟨.init, rfl, hmaterialises⟩
    exact ⟨last, hlast, rfl⟩

end IronCondor
