import IronCondor.Bundle.RunTables
import IronCondor.Bundle.TableCodec

/-! # The wire tables of a run

The rows a run is written as keep its keys and steps, so they are well formed as the reader asks,
and carry the canonical id of their contracts. -/
namespace IronCondor

open Checked ExceptRun

section Rows

variable {runId : RunId}

/-- What the wire form of a fill shows of its record. -/
structure WiresFill (runId : RunId) (record : FillRecord) (row : FillRow) : Prop where
  step : row.step = record.fill.step
  orderId : row.orderId = record.orderId.raw
  fillSeq : row.fillSeq = record.fillSeq
  feesCents : row.feesCents = record.fill.fees
  strategyRunId : row.strategyRunId = runId.hex
  canonical : row.Canonical

theorem fillRow_eq_ok {record : FillRecord} {row : FillRow} (h : fillRow runId record = .ok row) :
    WiresFill runId record row := by
  simp only [fillRow, bind_ok_iff, pure_ok_iff] at h
  obtain ⟨expirationNs, hexpiration, contractId, hid, rfl⟩ := h
  exact ⟨rfl, rfl, rfl, rfl, rfl, record.fill.contract, hid, rfl, hexpiration, rfl, rfl⟩

/-- What the wire form of a position shows of its snapshot. -/
structure WiresPosition (snapshot : PositionSnapshot) (row : PositionRow) : Prop where
  step : row.step = snapshot.step
  positionId : row.positionId = snapshot.positionId.raw
  canonical : row.Canonical

theorem positionRow_eq_ok {snapshot : PositionSnapshot} {row : PositionRow}
    (h : positionRow snapshot = .ok row) : WiresPosition snapshot row := by
  simp only [positionRow, bind_ok_iff, pure_ok_iff] at h
  obtain ⟨contractId, hid, rfl⟩ := h
  exact ⟨rfl, rfl, snapshot.contract, hid⟩

/-- The strings of a fill row that are bounded. -/
def FillRow.strings (row : FillRow) : List String :=
  [row.strategyRunId, row.underlying, row.contractId, row.style, row.side, row.mode]

/-- The strings of a position row that are bounded. -/
def PositionRow.strings (row : PositionRow) : List String :=
  [row.contractId, row.side] ++ row.exitReason.toList

theorem FillRow.readable {limits : ResourceLimits} {row : FillRow}
    (hstrings : ∀ s ∈ row.strings, ShortString limits s) (hfees : 0 ≤ row.feesCents.value) :
    row.Readable limits := by
  simp only [strings, List.forall_mem_cons] at hstrings
  obtain ⟨hrunId, hunderlying, hcontract, hstyle, hside, hmode, -⟩ := hstrings
  exact ⟨hrunId, hunderlying, hcontract, hstyle, hside, hmode, hfees⟩

theorem PositionRow.readable {limits : ResourceLimits} {row : PositionRow}
    (hstrings : ∀ s ∈ row.strings, ShortString limits s) : row.Readable limits := by
  obtain ⟨hfixed, hreason⟩ := List.forall_mem_append.1 hstrings
  simp only [List.forall_mem_cons] at hfixed
  exact ⟨hfixed.1, hfixed.2.1, fun s hs => hreason s (Option.mem_toList.2 hs)⟩

end Rows

section Tables

variable {M F : Type} [RatioFloat F] {runId : RunId} {run : PopulatedRun M}
  {tables : BundleTables F} {n : Nat}

/-- The tables a run is written as. -/
structure WiresRun (runId : RunId) (run : PopulatedRun M) (tables : BundleTables F) : Prop where
  fills : fillRows run.toBacktestRun runId = .ok tables.fills
  equityCurve : tables.equityCurve = equityRows run.toBacktestRun
  positions : positionRows run.toBacktestRun = .ok tables.positions
  greeksAttribution : tables.greeksAttribution = greeksRows run

/-- Rows that count up from zero are one for each step. -/
theorem OneRowEachStep.of_counting {Row : Type} {step : Row → StepIndex} {rows : List Row}
    (h : ∀ (k : Nat) row, rows[k]? = some row → (step row).value = k) : OneRowEachStep step rows := by
  constructor
  · rw [List.Nodup, List.pairwise_map, List.pairwise_iff_getElem]
    intro i j hi hj hlt heq
    have hstep := congrArg Bounded.value heq
    rw [h i _ (List.getElem?_eq_getElem hi), h j _ (List.getElem?_eq_getElem hj)] at hstep
    omega
  · intro row hrow
    obtain ⟨k, hk⟩ := List.mem_iff_getElem?.1 hrow
    rw [h k row hk]
    exact Int.ofNat_lt.2 (List.getElem?_eq_some_iff.1 hk).1

namespace WiresRun

omit [RatioFloat F] in
theorem fills_eq_ok {rows : List FillRow} (h : fillRows run.toBacktestRun runId = .ok rows) :
    ∃ wired, List.Forall₂ (WiresFill runId) run.fills wired ∧ rows.Perm wired ∧
      rows = SortedTable.sort FillKey.cmp fillSortKey wired := by
  simp only [fillRows, bind_ok_iff, Pointwise.mapM_ok_iff, pure_ok_iff] at h
  obtain ⟨wired, hwired, rfl⟩ := h
  exact ⟨wired, hwired.imp fun _ _ => fillRow_eq_ok, SortedTable.sort_perm .., rfl⟩

omit [RatioFloat F] in
theorem positions_eq_ok {rows : List PositionRow}
    (h : positionRows run.toBacktestRun = .ok rows) :
    ∃ wired, List.Forall₂ WiresPosition run.positions wired ∧ rows.Perm wired ∧
      rows = SortedTable.sort PositionKey.cmp positionSortKey wired := by
  simp only [positionRows, bind_ok_iff, Pointwise.mapM_ok_iff, pure_ok_iff] at h
  obtain ⟨wired, hwired, rfl⟩ := h
  exact ⟨wired, hwired.imp fun _ _ => positionRow_eq_ok, SortedTable.sort_perm .., rfl⟩

/-- The tables are written in the order they are read in. -/
theorem sorted (h : WiresRun runId run tables) : tables.sorted = tables := by
  obtain ⟨fills, -, -, hfills⟩ := fills_eq_ok h.fills
  obtain ⟨positions, -, -, hpositions⟩ := positions_eq_ok h.positions
  cases tables
  simp only at hfills hpositions
  have hequity := h.equityCurve
  have hgreeks := h.greeksAttribution
  simp only [equityRows, greeksRows] at hequity hgreeks
  simp only [BundleTables.sorted, hfills, hpositions, hequity, hgreeks, SortedTable.sort_sort]

theorem fill_mem (h : WiresRun runId run tables) {row : FillRow} (hrow : row ∈ tables.fills) :
    ∃ record ∈ run.fills, WiresFill runId record row := by
  obtain ⟨wired, hwired, hperm, -⟩ := fills_eq_ok h.fills
  exact Pointwise.exists_left hwired (hperm.mem_iff.1 hrow)

theorem position_mem (h : WiresRun runId run tables) {row : PositionRow}
    (hrow : row ∈ tables.positions) : ∃ snapshot ∈ run.positions, WiresPosition snapshot row := by
  obtain ⟨wired, hwired, hperm, -⟩ := positions_eq_ok h.positions
  exact Pointwise.exists_left hwired (hperm.mem_iff.1 hrow)

theorem equity_perm (h : WiresRun runId run tables) :
    tables.equityCurve.Perm (run.equityCurve.map equityRow) := by
  rw [h.equityCurve]
  exact SortedTable.sort_perm ..

theorem greeks_perm (h : WiresRun runId run tables) :
    tables.greeksAttribution.Perm run.greeksAttribution := by
  rw [h.greeksAttribution]
  exact SortedTable.sort_perm ..

theorem fillKeys (h : WiresRun runId run tables)
    (hrun : RunTables n run.toBacktestRun run.greeksAttribution) :
    (tables.fills.map fillSortKey).Nodup := by
  obtain ⟨wired, hwired, hperm, -⟩ := fills_eq_ok h.fills
  rw [(hperm.map fillSortKey).nodup_iff, List.Nodup, List.pairwise_map]
  refine (Pointwise.pairwise_iff ?_ hwired).1 hrun.fillKeys
  intro a b row row' hrow hrow'
  refine not_congr ?_
  rw [FillKey.ext_iff]
  simp [fillSortKey, hrow.step, hrow'.step, hrow.orderId, hrow'.orderId, hrow.fillSeq,
    hrow'.fillSeq, Id.ext_iff]

theorem positionKeys (h : WiresRun runId run tables)
    (hrun : RunTables n run.toBacktestRun run.greeksAttribution) :
    (tables.positions.map positionSortKey).Nodup := by
  obtain ⟨wired, hwired, hperm, -⟩ := positions_eq_ok h.positions
  rw [(hperm.map positionSortKey).nodup_iff, List.Nodup, List.pairwise_map]
  refine (Pointwise.pairwise_iff ?_ hwired).1 hrun.positionKeys
  intro a b row row' hrow hrow'
  refine not_congr ?_
  rw [PositionKey.ext_iff]
  simp [positionSortKey, hrow.step, hrow'.step, hrow.positionId, hrow'.positionId, Id.ext_iff]

theorem equitySteps (h : WiresRun runId run tables)
    (hrun : RunTables n run.toBacktestRun run.greeksAttribution) :
    OneRowEachStep equitySortKey tables.equityCurve := by
  refine OneRowEachStep.congr h.equity_perm.symm (.of_counting fun k row hrow => ?_)
  rw [List.getElem?_map] at hrow
  obtain ⟨point, hpoint, rfl⟩ := Option.map_eq_some_iff.1 hrow
  exact hrun.curveSteps k point hpoint

theorem greeksSteps (h : WiresRun runId run tables)
    (hrun : RunTables n run.toBacktestRun run.greeksAttribution) :
    OneRowEachStep greeksSortKey tables.greeksAttribution :=
  .congr h.greeks_perm.symm (.of_counting hrun.rowSteps)

/-- The tables of a run whose steps fit their columns are well formed. -/
theorem wellFormed (h : WiresRun runId run tables)
    (hrun : RunTables n run.toBacktestRun run.greeksAttribution)
    (hcount : u32.Contains (n : Nat)) : tables.WellFormed := by
  have hequity : tables.equityCurve.length = n := by
    rw [h.equity_perm.length_eq, List.length_map, hrun.curveLength]
  refine ⟨h.fillKeys hrun, h.positionKeys hrun, h.equitySteps hrun, h.greeksSteps hrun, ?_,
    hequity ▸ hcount, fun row hrow => ?_, fun row hrow => ?_⟩
  · rw [hequity, h.greeks_perm.length_eq, hrun.rowsLength]
  · obtain ⟨record, hrecord, hwires⟩ := h.fill_mem hrow
    rw [hwires.step, hequity]
    exact hrun.fillSteps record hrecord
  · obtain ⟨snapshot, hsnapshot, hwires⟩ := h.position_mem hrow
    rw [hwires.step, hequity]
    exact hrun.positionSteps snapshot hsnapshot

/-- A run whose steps fit their column has a number of steps that fits. -/
theorem stepCount (h : WiresRun runId run tables)
    (hrun : RunTables n run.toBacktestRun run.greeksAttribution)
    (hcells : ∀ row ∈ tables.equityCurve, ∃ cells, row.cells = .ok cells) :
    u32.Contains (n : Nat) := by
  rcases Nat.eq_zero_or_pos n with rfl | hpos
  · exact u32.contains_zero
  · have hlt : n - 1 < run.equityCurve.length := by
      rw [hrun.curveLength]
      omega
    have hlast := List.getElem?_eq_getElem hlt
    have hmem : equityRow (F := F) (run.equityCurve[n - 1]) ∈ tables.equityCurve :=
      h.equity_perm.mem_iff.2 (List.mem_map_of_mem (List.getElem_mem hlt))
    obtain ⟨cells, hok⟩ := hcells _ hmem
    simp only [EquityRow.cells, bind_ok_iff, i32FromU32, narrow_eq_ok] at hok
    obtain ⟨step, hstep, -⟩ := hok
    have hbound := step.le_max
    have hvalue : step.value = ((n - 1 : Nat) : Int) := hstep.trans (hrun.curveSteps _ _ hlast)
    rw [hvalue] at hbound
    change _ ≤ 2 ^ 31 - 1 at hbound
    refine ⟨Int.natCast_nonneg _, ?_⟩
    change (n : Int) ≤ 2 ^ 32 - 1
    omega

end WiresRun

end Tables

end IronCondor
