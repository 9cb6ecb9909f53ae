import IronCondor.Config

/-! # The conversion boundary

Every feed hands its raw quotes to one conversion, which checks them, computes the one midpoint
and resolves the expiries. What comes out is keyed by the contract each quote is of. -/
namespace IronCondor

open Checked ExceptRun

/-- The floating-point numbers of the file formats, read as decimals. -/
class AnalyticFloat (F : Type) where
  isFinite : F → Bool
  fromF64Retain : F → Option Decimal
  zero : F

/-- The inputs of a snapshot that are not per contract; tick and multiplier are raw. -/
structure SnapshotMeta where
  ts : SimTime
  step : StepIndex
  anchorTs : SimTime
  underlying : Underlying
  underlyingPrice : PriceCents
  tickSizeCents : PriceCents
  contractMultiplier : Bounded u32
deriving DecidableEq

/-- One contract's quote as a feed presents it; its analytics are still floats. -/
structure RawQuote (F : Type) where
  expiration : ExpirationDate
  strike : PriceCents
  style : OptionStyle
  bid : PriceCents
  ask : PriceCents
  bidSize : Quantity
  askSize : Quantity
  impliedVolatility : F
  delta : F
  gamma : F
  theta : F
  vega : F
deriving DecidableEq

/-- The quotes of a snapshot are filed under their own contracts, all of one underlying. -/
def ChainSnapshot.Keyed (snap : ChainSnapshot) : Prop :=
  ∀ (key : ContractKey) (quote : QuoteView), snap.quotes[key]? = some quote →
    compare quote.contract key = .eq ∧ quote.contract.underlying = snap.underlying

/-- The nanoseconds of one calendar day. -/
def Convert.nanosPerDay : Int := 86400000000000

section Expiration

variable [DecimalArith]

/-- `resolve_expiration`: days count from the anchor, an instant stays. -/
def resolveExpiration (expiration : ExpirationDate) (anchor : SimTime) :
    Outcome ExpirationDate :=
  match expiration with
  | .DateTime instant => .ok (.DateTime instant)
  | .Days days => do
    let scaled ← okOr (DecimalArith.checkedMul days (.ofInt Convert.nanosPerDay)) .ArithmeticOverflow
    let offset ← checked i128 scaled.roundHalfEven
    let expirationNs ← checked i128 (anchor.value + offset.value)
    let expirationNs ← checked i64 expirationNs.value
    return .DateTime (.ofNanos expirationNs.value)

end Expiration

section Quotes

variable {F : Type} [AnalyticFloat F]

/-- `analytic_f64_to_decimal`. -/
def analyticF64ToDecimal (field : String) (value : F) : Outcome Decimal := do
  require (AnalyticFloat.isFinite value) (.Conversion s!"non-finite {field} analytic")
  okOr (AnalyticFloat.fromF64Retain value)
    (.Conversion s!"{field} analytic is not representable as a decimal")

def floorToTick (value tick : Int) : Int := value - value % tick

def checkTickAligned (price tick : PriceCents) : Outcome Unit :=
  require (price.value % tick.value = 0) (.PriceNotTickAligned price.value tick.value)

variable [DecimalArith]

/-- One raw quote, checked and filed under its contract. -/
def insertQuote (snapMeta : SnapshotMeta) (tick : PriceCents)
    (map : Std.TreeMap ContractKey QuoteView) (raw : RawQuote F) :
    Outcome (Std.TreeMap ContractKey QuoteView) := do
  require (raw.strike.value ≠ 0) (.Conversion "non-positive strike 0")
  checkTickAligned raw.strike tick
  checkTickAligned raw.bid tick
  checkTickAligned raw.ask tick
  require (raw.bid.value ≤ raw.ask.value) (.CrossedQuote raw.bid.value raw.ask.value)
  let sum ← checked u64 (raw.bid.value + raw.ask.value)
  let mid ← checked u64 (floorToTick (sum.value / 2) tick.value)
  let impliedVolatility ← analyticF64ToDecimal "implied_volatility" raw.impliedVolatility
  let delta ← analyticF64ToDecimal "delta" raw.delta
  let gamma ← analyticF64ToDecimal "gamma" raw.gamma
  let theta ← analyticF64ToDecimal "theta" raw.theta
  let vega ← analyticF64ToDecimal "vega" raw.vega
  let expiration ← resolveExpiration raw.expiration snapMeta.anchorTs
  let contract : ContractKey :=
    { underlying := snapMeta.underlying
      expiration
      strike := raw.strike
      style := raw.style }
  let view : QuoteView :=
    { contract
      bid := raw.bid
      ask := raw.ask
      mid
      bidSize := raw.bidSize
      askSize := raw.askSize
      impliedVolatility
      delta
      gamma
      theta
      vega }
  require (map.contains contract = false) (.Conversion
    s!"duplicate contract at strike {raw.strike.value} for the same expiry and style")
  return map.insert contract view

/-- `raw_quotes_to_snapshot`. -/
def rawQuotesToSnapshot (snapMeta : SnapshotMeta) (quotes : List (RawQuote F)) :
    Outcome ChainSnapshot := do
  let spec ← InstrumentSpec.new snapMeta.tickSizeCents snapMeta.contractMultiplier
  let map ← quotes.foldlM (insertQuote snapMeta spec.tickSizeCents) ∅
  return {
    ts := snapMeta.ts
    step := snapMeta.step
    underlying := snapMeta.underlying
    underlyingPrice := snapMeta.underlyingPrice
    spec
    quotes := map }

/-- A converted snapshot is keyed by its contracts. -/
theorem rawQuotesToSnapshot_keyed {snapMeta : SnapshotMeta} {quotes : List (RawQuote F)}
    {snap : ChainSnapshot} (h : rawQuotesToSnapshot snapMeta quotes = .ok snap) : snap.Keyed := by
  simp only [rawQuotesToSnapshot, bind_ok_iff, pure_ok_iff] at h
  obtain ⟨spec, -, map, hmap, rfl⟩ := h
  refine foldlM_invariant (fun map : Std.TreeMap ContractKey QuoteView =>
    ∀ (key : ContractKey) (quote : QuoteView), map[key]? = some quote →
      compare quote.contract key = .eq ∧ quote.contract.underlying = snapMeta.underlying)
    ?_ ?_ hmap
  · intro map raw map' hmap hinsert key quote hquote
    simp only [insertQuote, bind_ok_iff, pure_ok_iff] at hinsert
    obtain ⟨_, -, _, -, _, -, _, -, _, -, _, -, mid, -, iv, -, delta, -, gamma, -, theta, -, vega,
      -, expiration, -, _, -, rfl⟩ := hinsert
    rw [Std.TreeMap.getElem?_insert] at hquote
    split_ifs at hquote with hkey
    · cases hquote
      exact ⟨hkey, rfl⟩
    · exact hmap key quote hquote
  · intro key quote hquote
    simp at hquote

end Quotes

end IronCondor
