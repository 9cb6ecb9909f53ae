import IronCondor.Data.CsvFiles
import IronCondor.Data.ParquetRows

/-! # Chains as typed rows

What a list of snapshots, each given as its rows, means: the rows of a snapshot agree on the
snapshot-level fields, each carries a quote, and the snapshots are converted and pushed one after
the other. Both file formats are read into this. -/
namespace IronCondor

open Checked

/-- One row of a chain, in values that fit the Parquet columns; a Greek may be absent. -/
structure TypedRow (F : Type) where
  ts : Bounded i64
  underlying : String
  underlyingPrice : Bounded i64
  tickSize : Bounded i64
  contractMultiplier : Bounded i32
  expiration : Bounded i64
  strike : Bounded i64
  style : String
  bid : Bounded i64
  ask : Bounded i64
  bidSize : Bounded i32
  askSize : Bounded i32
  impliedVolatility : F
  delta : Option F
  gamma : Option F
  theta : Option F
  vega : Option F

namespace TypedRow

variable {F : Type}

/-- The snapshot-level fields the row carries. -/
structure Head (row : TypedRow F) (head : SnapshotHead) : Prop where
  ts : head.ts = row.ts
  underlying : head.underlying.ticker = row.underlying
  underlyingPrice : head.underlyingPrice.value = row.underlyingPrice.value
  tickSize : head.tickSizeCents.value = row.tickSize.value
  contractMultiplier : head.contractMultiplier.value = row.contractMultiplier.value

/-- A row carries the fields of one snapshot at most. -/
theorem Head.unique {row : TypedRow F} {head head' : SnapshotHead} (h : row.Head head)
    (h' : row.Head head') : head = head' := by
  obtain ⟨ts, underlying, price, tick, multiplier⟩ := head
  obtain ⟨ts', underlying', price', tick', multiplier'⟩ := head'
  have hts : ts = ts' := h.ts.trans h'.ts.symm
  have hunderlying : underlying = underlying' :=
    Underlying.ext (h.underlying.trans h'.underlying.symm)
  have hprice : price = price' := Bounded.ext (h.underlyingPrice.trans h'.underlyingPrice.symm)
  have htick : tick = tick' := Bounded.ext (h.tickSize.trans h'.tickSize.symm)
  have hmultiplier : multiplier = multiplier' :=
    Bounded.ext (h.contractMultiplier.trans h'.contractMultiplier.symm)
  rw [hts, hunderlying, hprice, htick, hmultiplier]

/-- The quote the row carries. -/
structure Quote [AnalyticFloat F] (row : TypedRow F) (quote : RawQuote F) : Prop where
  expiration : quote.expiration = .DateTime (.ofNanos row.expiration.value)
  strike : quote.strike.value = row.strike.value
  style : parseStyle row.style = .ok quote.style
  bid : quote.bid.value = row.bid.value
  ask : quote.ask.value = row.ask.value
  bidSize : quote.bidSize.value = row.bidSize.value
  askSize : quote.askSize.value = row.askSize.value
  impliedVolatility : quote.impliedVolatility = row.impliedVolatility
  delta : quote.delta = greekF64 row.delta
  gamma : quote.gamma = greekF64 row.gamma
  theta : quote.theta = greekF64 row.theta
  vega : quote.vega = greekF64 row.vega

end TypedRow

section Meaning

variable {F : Type} [AnalyticFloat F]

/-- The rows of one snapshot read as its fields and its quotes, within the contract ceiling. -/
structure RowsRead (limits : ResourceLimits) (rows : List (TypedRow F)) (head : SnapshotHead)
    (quotes : List (RawQuote F)) : Prop where
  heads : ∀ row ∈ rows, row.Head head
  quotes : List.Forall₂ TypedRow.Quote rows quotes
  ceiling : (rows.length : Int) ≤ limits.maxContractsPerSnapshot.value

/-- The metadata of a snapshot at its step of the tape. -/
def SnapshotHead.snapshotMeta (head : SnapshotHead) (step : StepIndex)
    (anchor : Option SimTime) : SnapshotMeta where
  ts := head.ts
  step
  anchorTs := anchor.getD head.ts
  underlying := head.underlying
  underlyingPrice := head.underlyingPrice
  tickSizeCents := head.tickSizeCents
  contractMultiplier := head.contractMultiplier

variable [DecimalArith] [TypeSizes]

/-- One snapshot is read, converted and pushed. -/
def TapeExtends (limits : ResourceLimits) (k : Nat) (rows : List (TypedRow F))
    (buffer : TapeBuffer) (anchor : Option SimTime) (pushed : TapeBuffer)
    (anchored : Option SimTime) : Prop :=
  ∃ (step : StepIndex) (head : SnapshotHead) (quotes : List (RawQuote F))
    (snapshot : ChainSnapshot), step.value = k ∧ RowsRead limits rows head quotes ∧
      rawQuotesToSnapshot (head.snapshotMeta step anchor) quotes = .ok snapshot ∧
      pushChecked buffer snapshot limits = .ok pushed ∧ anchored = some (anchor.getD head.ts)

/-- The snapshots from step `k` on are read, converted and pushed one after the other. -/
def Materialises (limits : ResourceLimits) :
    Nat → List (List (TypedRow F)) → TapeBuffer → Option SimTime → TapeBuffer → Prop
  | _, [], buffer, _, final => final = buffer
  | k, rows :: rest, buffer, anchor, final => ∃ pushed anchored,
      TapeExtends limits k rows buffer anchor pushed anchored ∧
        Materialises limits (k + 1) rest pushed anchored final

end Meaning

/-- A count that is checked against the contract ceiling. -/
theorem contractCount_ok {limits : ResourceLimits} {n : Nat} {P : Prop} :
    (∃ count : Bounded u64, count.value = (n : Int) ∧
      count.value ≤ limits.maxContractsPerSnapshot.value ∧ P) ↔
      (n : Int) ≤ limits.maxContractsPerSnapshot.value ∧ P := by
  constructor
  · rintro ⟨count, hcount, hle, h⟩
    exact ⟨hcount ▸ hle, h⟩
  · rintro ⟨hle, h⟩
    have hmax := limits.maxContractsPerSnapshot.le_max
    have hfits : u64.Contains (n : Int) := by
      refine ⟨?_, hle.trans (hmax.trans (by decide))⟩
      exact Int.natCast_nonneg n
    exact ⟨⟨n, hfits⟩, rfl, hle, h⟩

end IronCondor
