import IronCondor.Config

/-! # A small market

One underlying with a call and a put of one strike: concrete inputs on which results about runs
are exercised. -/
namespace IronCondor.SmallMarket

open Checked

def spx : Underlying := ⟨"SPX", by decide⟩

def call : ContractKey where
  underlying := spx
  expiration := .DateTime (.ofNanos 1750291200000000000)
  strike := ⟨510000, by decide⟩
  style := .Call

def put : ContractKey := { call with style := .Put }

/-- A number in range. -/
def lit {r : IntRange} (n : Int) (h : decide (r.Contains n) = true := by exact Eq.refl true) :
    Bounded r := ⟨n, of_decide_eq_true h⟩

def lots (n : Int) (hpos : 0 < n) (hmax : n ≤ u32.max) : Quantity := ⟨n, hpos, hmax⟩

/-- So many contracts. -/
def lot (n : Int) (h : decide (0 < n ∧ n ≤ u32.max) = true := by exact Eq.refl true) : Quantity :=
  lots n (of_decide_eq_true h).1 (of_decide_eq_true h).2

/-- A quote around its mid, five contracts deep on both sides. -/
def quote (contract : ContractKey) (bid mid ask : PriceCents) : QuoteView where
  contract
  bid
  ask
  mid
  bidSize := ⟨5, by decide, by decide⟩
  askSize := ⟨5, by decide, by decide⟩
  impliedVolatility := ⟨20, 2⟩
  delta := ⟨50, 2⟩
  gamma := ⟨1, 2⟩
  theta := ⟨-3, 2⟩
  vega := ⟨12, 2⟩

/-- The snapshot of a step; a step is one nanosecond. -/
def snapshot (step : StepIndex) (tick : PriceCents) (htick : 0 < tick.value)
    (quotes : List QuoteView) : ChainSnapshot where
  ts := ⟨step.value, by
    have hnonneg := step.nonneg
    have hmax := step.le_max
    change step.value ≤ 2 ^ 32 - 1 at hmax
    exact ⟨by change -2 ^ 63 ≤ _; omega, by change _ ≤ 2 ^ 63 - 1; omega⟩⟩
  step
  underlying := spx
  underlyingPrice := ⟨510000, by decide⟩
  spec := ⟨tick, ⟨100, by decide⟩, htick, by decide⟩
  quotes := quotes.foldl (fun m q => m.insert q.contract q) ∅

/-- The snapshot of a step under a tick of five. -/
def fiveTick (step : StepIndex) (quotes : List QuoteView) : ChainSnapshot :=
  snapshot step ⟨5, by decide⟩ (by decide) quotes

/-- The configuration of a run in either mode. -/
def config (mode : ExecutionMode) : BacktestConfig where
  dataSource := .Csv "spx.csv" "00"
  mode
  seed := ⟨7, by decide⟩
  initialCapital := ⟨1000000, by decide⟩
  fees := ⟨⟨65, by decide⟩, ⟨100, by decide⟩⟩
  slippage := .FixedCents ⟨1, by decide⟩
  marketableCapTicks := ⟨5, by decide⟩
  liquidityProfile := ⟨.Flat ⟨3, by decide⟩, ⟨0, by decide⟩, ⟨5, 1⟩⟩
  limits :=
    { maxSteps := ⟨1000, by decide⟩
      maxContractsPerSnapshot := ⟨1000, by decide⟩
      maxTotalBytes := ⟨1000000, by decide⟩
      maxFileBytes := ⟨1000000, by decide⟩
      maxDecompressedBytes := ⟨1000000, by decide⟩
      maxManifestBytes := ⟨1000000, by decide⟩
      maxStringLen := ⟨1000, by decide⟩
      maxRowsPerTable := ⟨1000, by decide⟩ }
  outputDir := ["runs"]
  overwrite := false

/-- Decimals multiplied exactly, halved exactly, and otherwise divided to 28 places. -/
scoped instance : DecimalArith where
  checkedMul a b := some ⟨a.mantissa * b.mantissa, a.scale + b.scale⟩
  checkedDiv a b :=
    if b = .ofInt 2 then some ⟨a.mantissa * 5, a.scale + 1⟩
    else if b.mantissa = 0 then none
    else
      let divisor := b.mantissa * 10 ^ a.scale
      some ⟨(2 * a.mantissa * 10 ^ (28 + b.scale) + divisor) / (2 * divisor), 28⟩

/-- Decimals added exactly. -/
scoped instance : DecimalSums where
  checkedAdd a b :=
    some ⟨a.mantissa * 10 ^ b.scale + b.mantissa * 10 ^ a.scale, a.scale + b.scale⟩
  checkedSub a b :=
    some ⟨a.mantissa * 10 ^ b.scale - b.mantissa * 10 ^ a.scale, a.scale + b.scale⟩

/-- The feed of an accepted tape. -/
def feed (tape : List ChainSnapshot) (finalStep : StepIndex)
    (accepted : TapeMeta.fromTape "spx" tape =
      .ok ⟨"spx", true, ⟨0, by decide⟩, finalStep⟩) : MaterialisedFeed where
  tapeMeta := ⟨"spx", true, ⟨0, i64.contains_zero⟩, finalStep⟩
  source := .Csv "spx.csv" "00"
  tape
  accepted

def firstStep : ChainSnapshot :=
  snapshot ⟨0, by decide⟩ ⟨5, by decide⟩ (by decide)
    [quote call ⟨100, by decide⟩ ⟨105, by decide⟩ ⟨110, by decide⟩]

def secondStep : ChainSnapshot :=
  snapshot ⟨1, by decide⟩ ⟨5, by decide⟩ (by decide)
    [quote call ⟨90, by decide⟩ ⟨95, by decide⟩ ⟨100, by decide⟩]

/-- The ask comes down to one hundred, and back up again. -/
def dip : List ChainSnapshot :=
  [firstStep, secondStep,
    snapshot ⟨2, by decide⟩ ⟨5, by decide⟩ (by decide)
      [quote call ⟨100, by decide⟩ ⟨105, by decide⟩ ⟨110, by decide⟩]]

def dipFeed : MaterialisedFeed := feed dip ⟨2, by decide⟩ rfl

/-- The same first steps, but the ask keeps coming down. -/
def slide : List ChainSnapshot :=
  dip.take 2 ++ [snapshot ⟨2, by decide⟩ ⟨5, by decide⟩ (by decide)
    [quote call ⟨80, by decide⟩ ⟨85, by decide⟩ ⟨90, by decide⟩]]

def slideFeed : MaterialisedFeed := feed slide ⟨2, by decide⟩ rfl

/-- An order on the call. -/
def order (action : PositionAction) (side : Side) (quantity : Quantity)
    (limit : Option PriceCents) (tif : TimeInForce) : OrderIntent where
  contract := call
  action
  side
  quantity
  limit
  tif
  decisionMid := ⟨105, by decide⟩

/-- Rest a buy of five below the market and buy two at the market. -/
def restAndTake : List OrderCommand :=
  [.Submit (order .Open .Long (lots 5 (by decide) (by decide)) (some ⟨100, by decide⟩) .Gtc),
    .Submit (order .Open .Long (lots 2 (by decide) (by decide)) none .Ioc)]

/-- Buy two at the market. -/
def take : List OrderCommand :=
  [.Submit (order .Open .Long (lots 2 (by decide) (by decide)) none .Ioc)]

/-- Buy at the market all that a flat touch of three displays. -/
def takeAll : List OrderCommand :=
  [.Submit (order .Open .Long (lots 3 (by decide) (by decide)) none .Ioc)]

/-- Trade one on this side to close the first position. -/
def closeOne (side : Side) : List OrderCommand :=
  [.Submit (order (.Close ⟨⟨1, by decide⟩⟩) side (lots 1 (by decide) (by decide)) none .Ioc)]

end IronCondor.SmallMarket
