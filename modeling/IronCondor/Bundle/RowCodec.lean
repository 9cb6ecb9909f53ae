import IronCondor.Bundle.Reader

/-! # The row codec

Writing and reading a row are inverse to each other: the reader accepts the cells a row is written
as, and only those, up to the checks it makes of a row on its own. -/
namespace IronCondor

open Checked

section Cells

@[simp] theorem requiredCell_eq_ok {α : Type} {cell : Option α} {row : Nat} {column : String}
    {a : α} : requiredCell cell row column = .ok a ↔ cell = some a :=
  okOr_eq_ok

/-- An unsigned column is read as the number it is written from. -/
@[simp] theorem u32FromI32_eq_ok {cell : Option (Bounded i32)} {row : Nat} {column : String}
    {value : Bounded u32} :
    u32FromI32 cell row column = .ok value ↔ ∃ w, i32FromU32 value = .ok w ∧ cell = some w := by
  simp only [u32FromI32, i32FromU32, bind_ok_iff, requiredCell_eq_ok, narrow_eq_ok]
  constructor
  · rintro ⟨w, hcell, hvalue⟩
    exact ⟨w, hvalue.symm, hcell⟩
  · rintro ⟨w, hvalue, hcell⟩
    exact ⟨w, hcell, hvalue.symm⟩

@[simp] theorem u64FromI64_eq_ok {cell : Option (Bounded i64)} {row : Nat} {column : String}
    {value : Bounded u64} :
    u64FromI64 cell row column = .ok value ↔ ∃ w, i64FromU64 value = .ok w ∧ cell = some w := by
  simp only [u64FromI64, i64FromU64, bind_ok_iff, requiredCell_eq_ok, narrow_eq_ok]
  constructor
  · rintro ⟨w, hcell, hvalue⟩
    exact ⟨w, hvalue.symm, hcell⟩
  · rintro ⟨w, hvalue, hcell⟩
    exact ⟨w, hcell, hvalue.symm⟩

@[simp] theorem nonnegI64Cell_eq_ok {cell : Option (Bounded i64)} {row : Nat} {column : String}
    {value : Bounded i64} :
    nonnegI64Cell cell row column = .ok value ↔ cell = some value ∧ 0 ≤ value.value := by
  simp only [nonnegI64Cell, bind_ok_iff, requiredCell_eq_ok, require_eq_ok, pure_ok_iff]
  constructor
  · rintro ⟨_, hcell, _, hnonneg, rfl⟩
    exact ⟨hcell, hnonneg⟩
  · rintro ⟨hcell, hnonneg⟩
    exact ⟨value, hcell, (), hnonneg, rfl⟩

variable {F : Type} [RatioFloat F]

@[simp] theorem guardFinite_eq_ok {value out : F} {column : String} :
    guardFinite value column = .ok out ↔ RatioFloat.isFinite value = true ∧ value = out := by
  simp only [guardFinite, bind_ok_iff, require_eq_ok, pure_ok_iff, exists_and_left, exists_const]

@[simp] theorem finiteF64Cell_eq_ok {cell : Option F} {row : Nat} {column : String} {value : F} :
    finiteF64Cell cell row column = .ok value ↔
      cell = some value ∧ RatioFloat.isFinite value = true := by
  simp only [finiteF64Cell, bind_ok_iff, requiredCell_eq_ok, require_eq_ok, pure_ok_iff]
  constructor
  · rintro ⟨_, hcell, _, hfinite, rfl⟩
    exact ⟨hcell, hfinite⟩
  · rintro ⟨hcell, hfinite⟩
    exact ⟨value, hcell, (), hfinite, rfl⟩

variable {limits : ResourceLimits}

/-- A string within the string ceiling. -/
def ShortString (limits : ResourceLimits) (s : String) : Prop :=
  (s.utf8ByteSize : Int) ≤ limits.maxStringLen.value

@[simp] theorem stringCell_eq_ok {cell : Option String} {row : Nat} {column s : String} :
    stringCell limits cell row column = .ok s ↔ cell = some s ∧ ShortString limits s := by
  simp only [stringCell, bind_ok_iff, requiredCell_eq_ok, checkStringLen_eq_ok, pure_ok_iff,
    ShortString]
  constructor
  · rintro ⟨_, hcell, _, hshort, rfl⟩
    exact ⟨hcell, hshort⟩
  · rintro ⟨hcell, hshort⟩
    exact ⟨s, hcell, (), hshort, rfl⟩

@[simp] theorem optStringCell_eq_ok {cell out : Option String} {row : Nat} {column : String} :
    optStringCell limits cell row column = .ok out ↔
      cell = out ∧ ∀ s ∈ out, ShortString limits s := by
  cases cell with
  | none =>
    constructor
    · intro h
      cases h
      exact ⟨rfl, by simp⟩
    · rintro ⟨rfl, -⟩
      rfl
  | some s =>
    simp only [optStringCell, bind_ok_iff, stringCell_eq_ok, pure_ok_iff]
    constructor
    · rintro ⟨_, ⟨h, hshort⟩, rfl⟩
      cases h
      exact ⟨rfl, by simpa using hshort⟩
    · rintro ⟨rfl, hshort⟩
      exact ⟨s, ⟨rfl, hshort s rfl⟩, rfl⟩

end Cells

section Rows

variable {limits : ResourceLimits} {i : Nat}

/-- What the reader checks of a fill row on its own. -/
structure FillRow.Readable (limits : ResourceLimits) (row : FillRow) : Prop where
  strategyRunId : ShortString limits row.strategyRunId
  underlying : ShortString limits row.underlying
  contractId : ShortString limits row.contractId
  style : ShortString limits row.style
  side : ShortString limits row.side
  mode : ShortString limits row.mode
  feesCents : 0 ≤ row.feesCents.value

/-- What the reader checks of a position row on its own. -/
structure PositionRow.Readable (limits : ResourceLimits) (row : PositionRow) : Prop where
  contractId : ShortString limits row.contractId
  side : ShortString limits row.side
  exitReason : ∀ s ∈ row.exitReason, ShortString limits s

/-- The cells of a fill row are read as the row, and no other cells are. -/
theorem decodeFill_eq_ok {cells : FillCells} {row : FillRow} :
    decodeFill limits cells i = .ok row ↔ row.cells = .ok cells ∧ row.Readable limits := by
  simp only [decodeFill, FillRow.cells, bind_ok_iff, pure_ok_iff, u32FromI32_eq_ok,
    u64FromI64_eq_ok, requiredCell_eq_ok, stringCell_eq_ok, nonnegI64Cell_eq_ok]
  constructor
  · rintro ⟨step, ⟨step', hstep, hc1⟩, ts, hc2, runId, ⟨hc3, hrunId⟩, trade,
      ⟨trade', htrade, hc4⟩, position, ⟨position', hposition, hc5⟩, order, ⟨order', horder, hc6⟩,
      seq, ⟨seq', hseq, hc7⟩, underlying, ⟨hc8, hunderlying⟩, expiration, hc9, contract,
      ⟨hc10, hcontract⟩, strike, ⟨strike', hstrike, hc11⟩, style, ⟨hc12, hstyle⟩, side,
      ⟨hc13, hside⟩, quantity, ⟨quantity', hquantity, hc14⟩, price, ⟨price', hprice, hc15⟩, fees,
      ⟨hc16, hfees⟩, slippage, hc17, mode, ⟨hc18, hmode⟩, rfl⟩
    refine ⟨⟨step', hstep, trade', htrade, position', hposition, order', horder, seq', hseq,
      strike', hstrike, quantity', hquantity, price', hprice, ?_⟩,
      ⟨hrunId, hunderlying, hcontract, hstyle, hside, hmode, hfees⟩⟩
    cases cells
    simp_all
  · rintro ⟨⟨step, hstep, trade, htrade, position, hposition, order, horder, seq, hseq, strike,
      hstrike, quantity, hquantity, price, hprice, rfl⟩, h⟩
    exact ⟨_, ⟨step, hstep, rfl⟩, _, rfl, _, ⟨rfl, h.strategyRunId⟩, _, ⟨trade, htrade, rfl⟩, _,
      ⟨position, hposition, rfl⟩, _, ⟨order, horder, rfl⟩, _, ⟨seq, hseq, rfl⟩, _,
      ⟨rfl, h.underlying⟩, _, rfl, _, ⟨rfl, h.contractId⟩, _, ⟨strike, hstrike, rfl⟩, _,
      ⟨rfl, h.style⟩, _, ⟨rfl, h.side⟩, _, ⟨quantity, hquantity, rfl⟩, _, ⟨price, hprice, rfl⟩, _,
      ⟨rfl, h.feesCents⟩, _, rfl, _, ⟨rfl, h.mode⟩, rfl⟩

theorem decodeEquity_eq_ok {F : Type} [RatioFloat F] {cells : EquityCells F} {row : EquityRow F} :
    decodeEquity cells i = .ok row ↔ row.cells = .ok cells := by
  simp only [decodeEquity, EquityRow.cells, bind_ok_iff, pure_ok_iff, u32FromI32_eq_ok,
    requiredCell_eq_ok, finiteF64Cell_eq_ok, guardFinite_eq_ok]
  constructor
  · rintro ⟨step, ⟨step', hstep, hc1⟩, ts, hc2, cash, hc3, value, hc4, equity, hc5, drawdown,
      ⟨hc6, hfinite⟩, rfl⟩
    refine ⟨step', hstep, drawdown, ⟨hfinite, rfl⟩, ?_⟩
    cases cells
    simp_all
  · rintro ⟨step, hstep, drawdown, ⟨hfinite, rfl⟩, rfl⟩
    exact ⟨_, ⟨step, hstep, rfl⟩, _, rfl, _, rfl, _, rfl, _, rfl, _, ⟨rfl, hfinite⟩, rfl⟩

theorem decodePosition_eq_ok {cells : PositionCells} {row : PositionRow} :
    decodePosition limits cells i = .ok row ↔ row.cells = .ok cells ∧ row.Readable limits := by
  simp only [decodePosition, PositionRow.cells, bind_ok_iff, pure_ok_iff, u32FromI32_eq_ok,
    u64FromI64_eq_ok, requiredCell_eq_ok, stringCell_eq_ok, optStringCell_eq_ok]
  constructor
  · rintro ⟨step, ⟨step', hstep, hc1⟩, ts, hc2, position, ⟨position', hposition, hc3⟩, trade,
      ⟨trade', htrade, hc4⟩, contract, ⟨hc5, hcontract⟩, side, ⟨hc6, hside⟩, quantity,
      ⟨quantity', hquantity, hc7⟩, price, ⟨price', hprice, hc8⟩, mark, ⟨mark', hmark, hc9⟩,
      unrealized, hc10, stale, hc11, reason, ⟨hc12, hreason⟩, openAtEnd, hc13, rfl⟩
    refine ⟨⟨step', hstep, position', hposition, trade', htrade, quantity', hquantity, price',
      hprice, mark', hmark, ?_⟩, ⟨hcontract, hside, hreason⟩⟩
    cases cells
    simp_all
  · rintro ⟨⟨step, hstep, position, hposition, trade, htrade, quantity, hquantity, price, hprice,
      mark, hmark, rfl⟩, h⟩
    exact ⟨_, ⟨step, hstep, rfl⟩, _, rfl, _, ⟨position, hposition, rfl⟩, _, ⟨trade, htrade, rfl⟩, _,
      ⟨rfl, h.contractId⟩, _, ⟨rfl, h.side⟩, _, ⟨quantity, hquantity, rfl⟩, _,
      ⟨price, hprice, rfl⟩, _, ⟨mark, hmark, rfl⟩, _, rfl, _, rfl, _, ⟨rfl, h.exitReason⟩, _, rfl,
      rfl⟩

theorem decodeGreeks_eq_ok {cells : GreeksCells} {row : GreeksAttributionRow} :
    decodeGreeks cells i = .ok row ↔ row.cells = .ok cells ∧ 0 ≤ row.feesCents.value := by
  simp only [decodeGreeks, GreeksAttributionRow.cells, bind_ok_iff, pure_ok_iff, u32FromI32_eq_ok,
    requiredCell_eq_ok, nonnegI64Cell_eq_ok]
  constructor
  · rintro ⟨step, ⟨step', hstep, hc1⟩, ts, hc2, theta, hc3, delta, hc4, vega, hc5, spread, hc6, fees,
      ⟨hc7, hfees⟩, residual, hc8, rfl⟩
    refine ⟨⟨step', hstep, ?_⟩, hfees⟩
    cases cells
    simp_all
  · rintro ⟨⟨step, hstep, rfl⟩, hfees⟩
    exact ⟨_, ⟨step, hstep, rfl⟩, _, rfl, _, rfl, _, rfl, _, rfl, _, rfl, _, ⟨rfl, hfees⟩, _, rfl, rfl⟩

end Rows

end IronCondor
