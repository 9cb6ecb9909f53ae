import IronCondor.Domain.Execution

/-! # Strategy specifications

The strategy of a run as data: its kind and its construction parameters. Every hash of a
specification takes its canonical form, in which the legs of an explicit set are sorted. -/
namespace IronCondor

open Checked

/-- The construction parameters of the upstream iron condor. -/
structure IronCondorSpec where
  underlying : Underlying
  underlyingPrice : PriceCents
  shortCallStrike : PriceCents
  shortPutStrike : PriceCents
  longCallStrike : PriceCents
  longPutStrike : PriceCents
  expiration : ExpirationDate
  impliedVolatility : Decimal
  riskFreeRate : Decimal
  dividendYield : Decimal
  quantity : Quantity
  premiumShortCall : PriceCents
  premiumShortPut : PriceCents
  premiumLongCall : PriceCents
  premiumLongPut : PriceCents
  openFee : PriceCents
  closeFee : PriceCents
deriving DecidableEq

/-- The construction parameters of the upstream short strangle. -/
structure ShortStrangleSpec where
  underlying : Underlying
  underlyingPrice : PriceCents
  callStrike : PriceCents
  putStrike : PriceCents
  expiration : ExpirationDate
  callImpliedVolatility : Decimal
  putImpliedVolatility : Decimal
  riskFreeRate : Decimal
  dividendYield : Decimal
  quantity : Quantity
  premiumShortCall : PriceCents
  premiumShortPut : PriceCents
  openFeeShortCall : PriceCents
  closeFeeShortCall : PriceCents
  openFeeShortPut : PriceCents
  closeFeeShortPut : PriceCents
deriving DecidableEq

/-- One leg of an explicit set, with its own expiration. -/
structure LegSpec where
  side : Side
  style : OptionStyle
  strike : PriceCents
  expiration : ExpirationDate
  quantity : Quantity
  impliedVolatility : Decimal
deriving DecidableEq

/-- An explicit leg set. -/
structure LegSetSpec where
  underlying : Underlying
  underlyingPrice : PriceCents
  legs : List LegSpec
  riskFreeRate : Decimal
  dividendYield : Decimal
deriving DecidableEq

/-- The written form of a decimal: its sign, and `scale` digits after the point. -/
def Decimal.toText (d : Decimal) : String :=
  let digits := toString d.mantissa.natAbs
  let padded := String.ofList (List.replicate (d.scale + 1 - digits.length) '0') ++ digits
  let sign := if d.mantissa < 0 then "-" else ""
  if d.scale = 0 then sign ++ padded
  else sign ++ String.ofList (padded.toList.take (padded.length - d.scale)) ++ "." ++
    String.ofList (padded.toList.drop (padded.length - d.scale))

/-- The scale-carrying text of an expiration. Only the text of a day count ever decides: two
instants that compare equal are one instant, and its seconds and nanoseconds stand for its date. -/
def expirationText : ExpirationDate → String
  | .Days days => "d" ++ days.toText
  | .DateTime instant =>
    "t" ++ toString instant.timestamp ++ "." ++ toString instant.subsecNanos

instance : Ord Side := ⟨compareOn Side.ctorIdx⟩

/-- The canonical leg order, with the written forms as the last tiebreaks. -/
def LegSpec.canonicalCmp (a b : LegSpec) : Ordering :=
  (expirationExactCmp a.expiration b.expiration).then
    ((compare a.strike b.strike).then
      ((compare a.style b.style).then
        ((compare a.side b.side).then
          ((compare a.quantity.value b.quantity.value).then
            ((a.impliedVolatility.cmp b.impliedVolatility).then
              ((compare a.impliedVolatility.toText b.impliedVolatility.toText).then
                (compare (expirationText a.expiration) (expirationText b.expiration))))))))

/-- The strategy kind and its parameters. -/
inductive StrategySpec where
  | IronCondor (spec : IronCondorSpec)
  | ShortStrangle (spec : ShortStrangleSpec)
  | Legs (spec : LegSetSpec)
deriving DecidableEq

namespace StrategySpec

/-- The tag of the kind. -/
def kind : StrategySpec → String
  | .IronCondor _ => "iron_condor"
  | .ShortStrangle _ => "short_strangle"
  | .Legs _ => "legs"

/-- The form every hash of a specification takes. -/
def canonical : StrategySpec → StrategySpec
  | .IronCondor spec => .IronCondor spec
  | .ShortStrangle spec => .ShortStrangle spec
  | .Legs spec => .Legs { spec with
    legs := spec.legs.mergeSort fun a b => (a.canonicalCmp b).isLE }

end StrategySpec

end IronCondor
