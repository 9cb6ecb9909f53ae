import IronCondor.Analytics.Telescope
import IronCondor.Engine.TradeRows

/-! # The open rows, rebuilt from the fills

What a leg holds after a step is what its opening fills brought in up to that step, less what its
closing fills took out. The positions table has an open row for exactly the legs that hold
something, and shows exactly that size. -/
namespace IronCondor

open Checked ExceptRun OrderBook

/-- The fills recorded at step `k` or before. -/
def recordedBy (k : Int) (records : List FillRecord) : List FillRecord :=
  records.filter fun record => record.fill.step.value ≤ k

/-- An open row of the step shows its mark, and the trade and entry of the leg. -/
structure OpenRow (openLegs : Std.TreeMap PositionId LegMeta) (step : StepIndex) (ts : SimTime)
    (row : PositionSnapshot) (mark : PositionMark) : Prop where
  step_eq : row.step = step
  ts_eq : row.ts = ts
  positionId : row.positionId = mark.positionId
  contract : row.contract = mark.contract
  side : row.side = mark.side
  quantity : row.quantity = mark.quantity
  exitReason : row.exitReason = none
  trade : ∃ kept : LegMeta, openLegs[mark.positionId]? = some kept ∧ row.tradeId = kept.tradeId

theorem collectStep_openRows {b b' : BundleCollector} {step : StepIndex} {ts : SimTime}
    {marks : List PositionMark} {openAtEnd : Bool}
    (h : b.collectStep step ts marks openAtEnd = .ok b') :
    ∃ rows, List.Forall₂ (OpenRow b.openLegs step ts) rows marks ∧
      b' = { b with positions := b.positions ++ rows } := by
  unfold BundleCollector.collectStep at h
  induction marks generalizing b with
  | nil =>
    cases foldlM_nil_ok.1 h
    exact ⟨[], .nil, by simp⟩
  | cons mark marks ih =>
    obtain ⟨b₁, hmark, h⟩ := foldlM_cons_ok.1 h
    simp only [BundleCollector.collectMark, bind_ok_iff, okOr_eq_ok, pure_ok_iff] at hmark
    obtain ⟨leg, hleg, _, -, rfl⟩ := hmark
    obtain ⟨rows, hrows, rfl⟩ := ih h
    refine ⟨_ :: rows, ?_, by rw [List.append_assoc, List.singleton_append]⟩
    exact .cons ⟨rfl, rfl, rfl, rfl, rfl, rfl, rfl, leg, hleg, rfl⟩ hrows

section Rows

variable {orders : List (OrderId × OrderIntent)} {records added : List FillRecord} {k : Int}

theorem recordedBy_all (h : ∀ record ∈ records, record.fill.step.value ≤ k) :
    recordedBy k records = records :=
  List.filter_eq_self.2 fun record hrecord => decide_eq_true (h record hrecord)

theorem recordedBy_append_later (h : ∀ record ∈ added, k < record.fill.step.value) :
    recordedBy k (records ++ added) = recordedBy k records := by
  have hnone : added.filter (fun record => decide (record.fill.step.value ≤ k)) = [] :=
    List.filter_eq_nil_iff.2 fun record hrecord hle =>
      absurd (of_decide_eq_true hle) (not_le.2 (h record hrecord))
  rw [recordedBy, List.filter_append, hnone, List.append_nil]
  rfl

end Rows

/-- The open row of a leg: the size the fills up to its step leave of the leg, on the contract,
the side and the trade of the leg's first fill. -/
structure RowRebuilt (orders : List (OrderId × OrderIntent)) (records : List FillRecord)
    (row : PositionSnapshot) : Prop where
  quantity : row.quantity.value =
    heldSize orders row.positionId (recordedBy row.step.value records)
  entered : ∃ entryTs, Entered (recordedBy row.step.value records) row.positionId row.tradeId
    row.contract row.side entryTs

/-- The open rows of the first `n` steps, rebuilt from the fills table. -/
structure RowsRebuilt (n : Nat) (orders : List (OrderId × OrderIntent)) (st : EngineState) :
    Prop where
  rows : ∀ row ∈ st.bundle.positions, row.exitReason = none →
    RowRebuilt orders st.bundle.fills row
  held : ∀ (k : Nat) (positionId : PositionId), k < n →
    0 ≤ heldSize orders positionId (recordedBy k st.bundle.fills) ∧
      (0 < heldSize orders positionId (recordedBy k st.bundle.fills) →
        ∃ row ∈ st.bundle.positions, row.positionId = positionId ∧ row.step.value = k ∧
          row.exitReason = none)

section Settle

variable {orders : List (OrderId × OrderIntent)} {events : List (ChainSnapshot × OrderEvent)}
  {st st' : EngineState} {snapshot : ChainSnapshot} {isLast : Bool} {point : EquityPoint}

/-- The size of a leg in the inventory is what its fills leave of it. -/
theorem LogShows.leg_size (hl : LogShows orders events st) (hlinked : Linked st)
    (positionId : PositionId) : heldSize orders positionId st.bundle.fills =
      ((findLeg st.inventory positionId).map fun leg => leg.quantity.value).getD 0 := by
  have hmap := congrArg (Option.map fun facts : _ × _ × _ × Int => facts.2.2.2)
    (hlinked.tradeLog positionId)
  simp only [Option.map_map, Function.comp_def] at hmap
  rw [hl.size, hmap]

/-- The rows of one settlement, against the fills recorded by then. -/
theorem Settled.rows_rebuilt (hl : LogShows orders events st) (hlinked : Linked st)
    (hearly : ∀ record ∈ st.bundle.fills, record.fill.step.value ≤ snapshot.step.value)
    (h : st.Settled snapshot isLast point st') :
    ∃ rows, st'.bundle = { st.bundle with positions := st.bundle.positions ++ rows } ∧
      (∀ row ∈ rows, row.step = snapshot.step ∧ row.exitReason = none ∧
        RowRebuilt orders st.bundle.fills row) ∧
      ∀ positionId, 0 < heldSize orders positionId st.bundle.fills →
        ∃ row ∈ rows, row.positionId = positionId := by
  obtain ⟨marked, hsettle, -, -⟩ := h.ledger
  obtain ⟨-, hmarks, -⟩ := Ledger.settle_eq_ok hsettle
  obtain ⟨rows, hrows, hbundle⟩ := collectStep_openRows h.bundle
  refine ⟨rows, hbundle, fun row hrow => ?_, fun positionId hpos => ?_⟩
  · obtain ⟨mark, hmark, hopen⟩ := Pointwise.exists_right hrows hrow
    obtain ⟨leg, hleg, hshows⟩ := Pointwise.exists_right hmarks hmark
    have hfound := findLeg_of_mem hlinked.nodup hleg
    obtain ⟨entry, hentry, hc, hs, -, -⟩ := hlinked.opens_of_findLeg hfound
    have hall : recordedBy row.step.value st.bundle.fills = st.bundle.fills := by
      rw [hopen.step_eq]
      exact recordedBy_all hearly
    have hrowId : row.positionId = leg.positionId := hopen.positionId.trans hshows.positionId
    refine ⟨hopen.step_eq, hopen.exitReason, ?_, entry.entryTs, ?_⟩
    · rw [hall, hrowId, hl.leg_size hlinked, hfound, hopen.quantity, hshows.quantity]
      rfl
    · have hmap := hlinked.bundle leg.positionId
      obtain ⟨kept, hkept, htrade⟩ := hopen.trade
      rw [← hshows.positionId, hkept, hshows.positionId, hentry] at hmap
      simp only [Option.map_some, Option.some.injEq, Prod.mk.injEq] at hmap
      have hentered := hl.entered leg.positionId entry hentry
      rw [hall, hrowId, hopen.contract, hopen.side, hshows.contract, hshows.side, htrade,
        hmap.1, ← hc, ← hs]
      exact hentered
  · rw [hl.leg_size hlinked] at hpos
    cases hfound : findLeg st.inventory positionId with
    | none =>
      rw [hfound] at hpos
      exact absurd hpos (lt_irrefl _)
    | some leg =>
      obtain ⟨hleg, hid⟩ := findLeg_some hfound
      obtain ⟨mark, hmark, hshows⟩ := Pointwise.exists_left hmarks hleg
      obtain ⟨row, hrow, hopen⟩ := Pointwise.exists_left hrows hmark
      exact ⟨row, hrow, hopen.positionId.trans (hshows.positionId.trans hid)⟩

end Settle

section Runs

variable {S X R : Type} [ExecutionModel X] [TrackingModel X] [Strategy S R] [SeedableRng R]
  {r : Setup S X} {n : Nat} {log : List (Batch X)} {s : RunState S X R}

theorem RowRebuilt.later {orders : List (OrderId × OrderIntent)} {records added : List FillRecord}
    {row : PositionSnapshot} (h : RowRebuilt orders records row)
    (hlater : ∀ record ∈ added, row.step.value < record.fill.step.value) :
    RowRebuilt orders (records ++ added) row := by
  have hsame : recordedBy row.step.value (records ++ added) = recordedBy row.step.value records :=
    recordedBy_append_later hlater
  constructor <;> rw [hsame]
  exacts [h.quantity, h.entered]

omit [Strategy S R] [SeedableRng R] [TrackingModel X] in
/-- The records of a call carry the step of its snapshot. -/
theorem Batch.Executed.records_step {b : Batch X} {after : EngineState} {records : List FillRecord}
    (hassembles : AssemblesFills X) (hexec : b.Executed after)
    (hentries : records.map (fun record => (record.orderId, record.fill)) = b.entries) :
    ∀ record ∈ records, record.fill.step = b.snapshot.step ∧ record.fill.ts = b.snapshot.ts := by
  intro record hrecord
  have hentry : (record.orderId, record.fill) ∈ b.entries :=
    hentries ▸ List.mem_map_of_mem hrecord
  have hfill : record.fill ∈ b.fills := by
    rw [← hexec.entries_fills]
    exact List.mem_map_of_mem (f := Prod.snd) hentry
  have hassembled := hassembles _ _ _ _ _ _ hexec.filled _ hfill
  exact ⟨hassembled.step, hassembled.ts⟩

omit [Strategy S R] [SeedableRng R] [ExecutionModel X] [TrackingModel X] in
/-- A step adds fills of its own step, and an open row for every leg they leave open. -/
theorem RowsRebuilt.succ {orders : List (OrderId × OrderIntent)} {st st' : EngineState}
    {records : List FillRecord} {terminal rows : List PositionSnapshot}
    (hrebuilt : RowsRebuilt n orders st) (hopened : ∀ row ∈ st.bundle.positions,
      row.exitReason = none → row.step.value < n)
    (hfills : st'.bundle.fills = st.bundle.fills ++ records)
    (hpositions : st'.bundle.positions = st.bundle.positions ++ (terminal ++ rows))
    (hnew : ∀ record ∈ records, record.fill.step.value = n)
    (hearly : ∀ record ∈ st'.bundle.fills, record.fill.step.value ≤ n)
    (hclosed : ∀ row ∈ terminal, row.exitReason ≠ none)
    (hrows : ∀ row ∈ rows, row.step.value = n ∧ row.exitReason = none ∧
      RowRebuilt orders st'.bundle.fills row)
    (hheld : ∀ positionId, 0 ≤ heldSize orders positionId st'.bundle.fills ∧
      (0 < heldSize orders positionId st'.bundle.fills →
        ∃ row ∈ rows, row.positionId = positionId)) :
    RowsRebuilt (n + 1) orders st' := by
  constructor
  · intro row hrow hopen
    rw [hpositions, List.mem_append, List.mem_append] at hrow
    rcases hrow with hold | hend | hnow
    · rw [hfills]
      refine (hrebuilt.rows row hold hopen).later fun record hrecord => ?_
      rw [hnew record hrecord]
      exact hopened row hold hopen
    · exact absurd hopen (hclosed row hend)
    · exact (hrows row hnow).2.2
  · intro k positionId hk
    by_cases hlt : k < n
    · rw [hfills, hpositions, recordedBy_append_later fun record hrecord => by
        rw [hnew record hrecord]; omega]
      obtain ⟨hnonneg, hshows⟩ := hrebuilt.held k positionId hlt
      refine ⟨hnonneg, fun hpos => ?_⟩
      obtain ⟨row, hrow, hfacts⟩ := hshows hpos
      exact ⟨row, List.mem_append_left _ hrow, hfacts⟩
    · obtain rfl : k = n := by omega
      rw [recordedBy_all hearly, hpositions]
      refine ⟨(hheld positionId).1, fun hpos => ?_⟩
      obtain ⟨row, hrow, hid⟩ := (hheld positionId).2 hpos
      obtain ⟨hrowStep, hopen, -⟩ := hrows row hrow
      exact ⟨row, List.mem_append_right _ (List.mem_append_right _ hrow), hid, hrowStep, hopen⟩

/-- In every reachable state the open rows can be rebuilt from the fills, whatever orders are
issued later. -/
theorem Setup.play_rowsRebuilt (hidle : Idle r.execution) (hassembles : AssemblesFills X)
    (h : r.play n = .ok (log, s)) {orders : List (OrderId × OrderIntent)}
    (hinOrder : IssuedInOrder orders) (hissued : issued log ⊆ orders) :
    RowsRebuilt n orders s.engine := by
  obtain ⟨-, -, hsteps⟩ := TapeMeta.fromTape_eq_ok r.feed.accepted
  induction n generalizing log s with
  | zero =>
    obtain ⟨_, -, hbalanced⟩ := play_balanced h
    refine ⟨fun row hrow hopen => ?_, fun k _ hk => absurd hk (Nat.not_lt_zero k)⟩
    exact absurd (hbalanced.rows row hrow hopen) (not_lt.2 row.step.nonneg)
  | succ n ih =>
    obtain ⟨prior, t, snapshot, b, point, after, hprior, hsnapshot, rfl, rfl, hbefore, hmodel,
      hexec, -, hsettled, -⟩ := Setup.play_succ h
    have hstep := hsteps n _ hsnapshot
    have hearlier : issued prior ⊆ orders := by
      rw [issued_append] at hissued
      exact fun sub hsub => hissued (List.mem_append_left _ hsub)
    obtain ⟨_, -, hbalanced⟩ := play_balanced hprior
    obtain ⟨_, -, hsampled⟩ := play_sampled hassembles.stampsSteps h
    -- the books after the call, before they are settled
    obtain ⟨ht, hlinked, ha⟩ := Setup.play_linked hidle hprior
    have hshown := (Setup.play_logShown hidle hassembles hprior).shows orders hinOrder hearlier
    rw [← hbefore] at ht hlinked ha hshown
    rw [← hmodel] at ht
    obtain ⟨hlinked', -⟩ := linked_call ht (fun _ => trivial) hexec.carriesOwn hlinked ha hexec
    have hshown' := logShows_call hassembles ht hlinked ha hinOrder hissued hshown hexec
    obtain ⟨records, hrecords, hentries⟩ := hexec.booked.table
    obtain ⟨terminal, hterminal, hclosed⟩ := hexec.booked.rows
    rw [hbefore] at hrecords hterminal
    have hfills : s.engine.bundle.fills = after.bundle.fills := by
      obtain ⟨_, -, hbundle⟩ := BundleCollector.collectStep_eq_ok hsettled.bundle
      rw [hbundle]
    have hearly : ∀ record ∈ s.engine.bundle.fills, record.fill.step.value ≤ n :=
      fun record hrecord => by
        have hlt := hsampled.early record.fill (List.mem_map_of_mem hrecord)
        omega
    obtain ⟨rows, hbundle, hrows, hcomplete⟩ := Settled.rows_rebuilt hshown' hlinked'
      (fun record hrecord => hstep.symm ▸ hearly record (hfills ▸ hrecord)) hsettled
    have hpositions : s.engine.bundle.positions = t.engine.bundle.positions ++ (terminal ++ rows) := by
      rw [hbundle, ← List.append_assoc, ← hterminal]
    refine (ih hprior hearlier).succ hbalanced.rows (hfills.trans hrecords) hpositions
      (fun record hrecord => ?_) hearly hclosed (fun row hrow => ?_) fun positionId => ?_
    · rw [(hexec.records_step hassembles hentries record hrecord).1, hstep]
    · obtain ⟨hrowStep, hopen, hrebuilt⟩ := hrows row hrow
      rw [hfills]
      exact ⟨by rw [hrowStep, hstep], hopen, hrebuilt⟩
    · rw [hfills]
      refine ⟨?_, hcomplete positionId⟩
      rw [hshown'.leg_size hlinked']
      cases findLeg after.inventory positionId with
      | none => exact le_rfl
      | some leg => exact leg.quantity.pos.le

end Runs

section Modes

variable {S R B : Type} [DecimalArith] [Book B ObOrderId] [Strategy S R] [SeedableRng R]

/-- The open rows over whole runs: in either mode a leg has an open row at a step exactly when the
fills recorded by then leave something of it, and the row shows what they leave. -/
theorem open_rows_rebuilt (config : BacktestConfig) (feed : MaterialisedFeed) (strategy : S)
    (n : Nat) :
    (∀ log s, (Setup.naive config feed strategy).play n = .ok (log, s) →
        RowsRebuilt n (issued log) s.engine) ∧
      ∀ log s, (Setup.realistic B config feed strategy).play n = .ok (log, s) →
        RowsRebuilt n (issued log) s.engine := by
  constructor
  · intro log s h
    have hidle := idle_naive config feed strategy
    exact Setup.play_rowsRebuilt hidle NaiveFill.assemblesFills h
      (Setup.play_logShown hidle NaiveFill.assemblesFills h).inOrder (List.Subset.refl _)
  · intro log s h
    have hidle := idle_realistic (B := B) config feed strategy
    exact Setup.play_rowsRebuilt hidle RealisticFill.assemblesFills h
      (Setup.play_logShown hidle RealisticFill.assemblesFills h).inOrder (List.Subset.refl _)

end Modes

open SmallMarket in
/-- The leg of a resting buy grows at the dip; its rows follow. -/
theorem open_rows_rebuilt_dip : ∃ log s,
    (Setup.realistic (ReferenceBook ObOrderId) (config .Realistic) dipFeed
      (⟨restAndTake, []⟩ : Script)).play 3 = .ok (log, s) ∧ RowsRebuilt 3 (issued log) s.engine := by
  obtain ⟨⟨log, s⟩, h⟩ := exists_eq_ok (r := (Setup.realistic (ReferenceBook ObOrderId)
    (config .Realistic) dipFeed (⟨restAndTake, []⟩ : Script)).play 3) (by decide +kernel)
  exact ⟨log, s, h, (open_rows_rebuilt _ _ _ 3).2 log s h⟩

end IronCondor
