import IronCondor.Data.Convert
import IronCondor.Data.SmallMarket
import IronCondor.Domain.StrategySpec
import IronCondor.Engine.ExitPolicy
import IronCondor.Engine.Strategy

/-! # The shipped strategies

The adapter of the upstream strategies, and the explicit leg set. Both open their legs once,
evaluate one exit policy over the open legs of every step, and close what is left at the end;
only the way a leg finds its quote differs. -/
namespace IronCondor

open Checked

section Upstream

/-- What entry reads of an upstream position. -/
structure Position where
  strikePrice : Positive
  optionStyle : OptionStyle
  expirationDate : ExpirationDate
  side : Side
  quantity : Positive

/-- An upstream strategy: its legs, and the repricing that no policy asks for. -/
class PositionableStrategy (S : Type) where
  getPositions : S → Except String (List Position)
  repriceInner : S → ChainSnapshot → Outcome S

/-- The upstream constructors, in their argument order. -/
class UpstreamConstructors (S : Type) where
  ironCondor : (underlying : String) → (underlyingPrice shortCallStrike shortPutStrike
    longCallStrike longPutStrike : Positive) → (expiration : ExpirationDate) →
    (impliedVolatility : Positive) → (riskFreeRate : Decimal) → (dividendYield quantity
    premiumShortCall premiumShortPut premiumLongCall premiumLongPut openFee closeFee :
    Positive) → Except String S
  shortStrangle : (underlying : String) → (underlyingPrice callStrike putStrike : Positive) →
    (expiration : ExpirationDate) → (callImpliedVolatility putImpliedVolatility : Positive) →
    (riskFreeRate : Decimal) → (dividendYield quantity premiumShortCall premiumShortPut
    openFeeShortCall closeFeeShortCall openFeeShortPut closeFeeShortPut : Positive) →
    Except String S

/-- An upstream refusal, as the crate reports it. -/
def strategyError {α : Type} (what : String) : Except String α → Outcome α
  | .ok a => .ok a
  | .error e => .error (.Strategy s!"{what}: {e}")

theorem strategyError_eq_ok {α : Type} {what : String} {r : Except String α} {a : α} :
    strategyError what r = .ok a ↔ r = .ok a := by
  cases r <;> simp [strategyError]

end Upstream

section Selection

/-- The quotes of a strike and a style, in map order. -/
def candidates (snapshot : ChainSnapshot) (strike : PriceCents) (style : OptionStyle) :
    List QuoteView :=
  (snapshot.quotes.toList.map Prod.snd).filter fun q =>
    q.contract.strike = strike && q.contract.style = style

/-- How a strike and a style show in an error. -/
def legText (strike : PriceCents) : OptionStyle → String
  | .Call => s!"leg strike {strike.value} style Call"
  | .Put => s!"leg strike {strike.value} style Put"

/-- `select_leg_quote`: the only candidate, whatever it expires at, or the leg's own contract
among several. -/
def selectLegQuote (snapshot : ChainSnapshot) (strike : PriceCents) (style : OptionStyle)
    (expiration : ExpirationDate) : Outcome QuoteView :=
  match candidates snapshot strike style with
  | [] => .error (.Execution ("no snapshot quote for " ++ legText strike style))
  | [first] => .ok first
  | _ => okOr snapshot.quotes[(⟨snapshot.underlying, expiration, strike, style⟩ : ContractKey)]?
      (.Execution ("no snapshot quote for " ++ legText strike style ++ " at expiration " ++
        expirationText expiration ++ " in a multi-expiry snapshot"))

variable [DecimalArith]

/-- `select_leg_set_quote`: the leg's own resolved contract and nothing else. -/
def selectLegSetQuote (snapshot : ChainSnapshot) (leg : LegSpec) : Outcome QuoteView := do
  let expiration ← resolveExpiration leg.expiration snapshot.ts
  okOr snapshot.quotes[(⟨snapshot.underlying, expiration, leg.strike, leg.style⟩ : ContractKey)]?
    (.Execution ("no snapshot quote for leg set " ++ legText leg.strike leg.style ++
      " at expiration " ++ expirationText expiration ++ " (resolved from " ++
      expirationText leg.expiration ++ "); a leg set matches its own expiration exactly"))

/-- `quantity_from_positive`. -/
def quantityFromPositive (value : Positive) : Outcome Quantity := do
  let count ← narrow u32 (.Strategy (s!"leg quantity {value.toDec.mantissa}e-{value.toDec.scale} " ++
    "is not a valid u32 contract count")) value.toDec.roundHalfEven
  Quantity.new count

/-- The opening order of one leg against its quote. -/
def openCommand (quote : QuoteView) (side : Side) (quantity : Quantity) : OrderCommand :=
  .Submit
    { contract := quote.contract
      action := .Open
      side
      quantity
      limit := none
      tif := .Ioc
      decisionMid := quote.mid }

end Selection

section Exits

/-- `flip_side`: the side that flattens a leg. -/
abbrev flipSide (side : Side) : Side := side.opposite

/-- `close_command_qty`: a stale leg is priced at its entry premium. -/
def closeCommandQty (snapshot : ChainSnapshot) (leg : OpenPosition) (quantity : Quantity) :
    OrderCommand :=
  .Submit
    { contract := leg.contract
      action := .Close leg.positionId
      side := flipSide leg.side
      quantity
      limit := none
      tif := .Ioc
      decisionMid := (snapshot.quotes[leg.contract]?.map QuoteView.mid).getD leg.entryPremium }

/-- `close_command`: the full open quantity. -/
def closeCommand (snapshot : ChainSnapshot) (leg : OpenPosition) : OrderCommand :=
  closeCommandQty snapshot leg leg.quantity

/-- `current_premium`: the snapshot's mid, else the carried mark, else the entry premium. -/
def currentPremium (snapshot : ChainSnapshot) (marks : Std.TreeMap ContractKey PriceCents)
    (leg : OpenPosition) : Decimal :=
  toDecimalDollars (((snapshot.quotes[leg.contract]?.map QuoteView.mid).or
    marks[leg.contract]?).getD leg.entryPremium)

variable {R : Type} [DecimalArith]

/-- `days_to_expiry`, zero once expired. -/
def daysToExpiry (contract : ContractKey) (ts : SimTime) : Outcome Positive := do
  let expirationNs ← contract.expirationNs
  let diff := expirationNs.value - ts.value
  if diff ≤ 0 then return .zero
  else
    let days ← okOr (DecimalArith.checkedDiv (.ofInt diff) (.ofInt Convert.nanosPerDay))
      .ArithmeticOverflow
    okOr (Positive.newDecimal days)
      (.Strategy s!"days-to-expiry {days.mantissa}e-{days.scale} is not positive")

variable [ExitChecks]

/-- The exit decision for one open leg. -/
def exitLeg (exit : ExitPolicy) (ctx : ChainContext R) (underlying : Positive)
    (out : List OrderCommand) (leg : OpenPosition) : Outcome (List OrderCommand) := do
  let daysLeft ← daysToExpiry leg.contract ctx.snapshot.ts
  let initial := toDecimalDollars leg.entryPremium
  let current := currentPremium ctx.snapshot ctx.marks leg
  if policyTriggered initial current ctx.step.value.toNat daysLeft underlying
      (decide (leg.side = .Long)) exit then
    return out ++ [closeCommand ctx.snapshot leg]
  else return out

/-- `evaluate_exits`. -/
def evaluateExits (exit : ExitPolicy) (ctx : ChainContext R) (out : List OrderCommand) :
    Outcome (List OrderCommand) := do
  let underlying ← positiveFromPrice "underlying" ctx.snapshot.underlyingPrice
  ctx.openLegs.foldlM (exitLeg exit ctx underlying) out

/-- The size of a leg that an intent closes. -/
def coverage? (positionId : PositionId) (intent : OrderIntent) : Option Quantity :=
  if intent.action = .Close positionId then some intent.quantity else none

/-- The checked sum of the closes of one leg. -/
def addCoverage (positionId : PositionId) (total : Bounded u32) (intent : OrderIntent) :
    Outcome (Bounded u32) :=
  match coverage? positionId intent with
  | some quantity => checked u32 (total.value + quantity.value)
  | none => .ok total

/-- `scheduled_close_qty`: what the commands so far already close of a leg. -/
def scheduledCloseQty (out : List OrderCommand) (positionId : PositionId) :
    Outcome (Bounded u32) :=
  out.foldlM (fun total cmd =>
    match cmd with
    | .Submit intent => addCoverage positionId total intent
    | _ => .ok total) ⟨0, u32.contains_zero⟩

/-- The final close of one leg, for what is not scheduled yet. -/
def closeRemaining (pending : List PendingOrder) (snapshot : ChainSnapshot)
    (out : List OrderCommand) (leg : OpenPosition) : Outcome (List OrderCommand) := do
  let scheduled ← scheduledCloseQty out leg.positionId
  let scheduled ← pending.foldlM (fun total pend => addCoverage leg.positionId total pend.intent)
    scheduled
  if leg.quantity.value ≤ scheduled.value then return out
  else
    let remaining ← checked u32 (leg.quantity.value - scheduled.value)
    let quantity ← Quantity.new remaining
    return out ++ [closeCommandQty snapshot leg quantity]

/-- `close_all`. -/
def closeAll (openLegs : List OpenPosition) (pending : List PendingOrder)
    (snapshot : ChainSnapshot) (out : List OrderCommand) : Outcome (List OrderCommand) :=
  openLegs.foldlM (closeRemaining pending snapshot) out

end Exits

/-- The adapter of an upstream strategy. -/
structure OptStratAdapter (S : Type) where
  inner : S
  entered : Bool
  exit : ExitPolicy

namespace OptStratAdapter

variable {S : Type}

def new (inner : S) (exit : ExitPolicy) : OptStratAdapter S where
  inner
  entered := false
  exit

variable [PositionableStrategy S] [DecimalArith]

/-- The opening order of one upstream position. -/
def openEntry (snapshot : ChainSnapshot) (out : List OrderCommand) (leg : Position) :
    Outcome (List OrderCommand) := do
  let strike ← fromDecimalDollars leg.strikePrice.toDec
  let quote ← selectLegQuote snapshot strike leg.optionStyle leg.expirationDate
  let quantity ← quantityFromPositive leg.quantity
  return out ++ [openCommand quote leg.side quantity]

/-- `open_entries`: entry is made once; a strategy without legs is asked again. -/
def openEntries (a : OptStratAdapter S) (snapshot : ChainSnapshot) (out : List OrderCommand) :
    Outcome (OptStratAdapter S × List OrderCommand) :=
  if a.entered then .ok (a, out)
  else do
    let legs ← strategyError "get_positions failed" (PositionableStrategy.getPositions a.inner)
    let out ← legs.foldlM (openEntry snapshot) out
    return ({ a with entered := a.entered || decide (0 < legs.length) }, out)

/-- `exits`: the upstream strategy is repriced only for a policy that reads it. -/
def exits [ExitChecks] {R : Type} (a : OptStratAdapter S) (ctx : ChainContext R)
    (out : List OrderCommand) : Outcome (OptStratAdapter S × List OrderCommand) :=
  if ctx.openLegs = [] then .ok (a, out)
  else do
    let a ← if policyReadsInner a.exit then do
        let inner ← PositionableStrategy.repriceInner a.inner ctx.snapshot
        pure { a with inner }
      else pure a
    let out ← evaluateExits a.exit ctx out
    return (a, out)

end OptStratAdapter

/-- The strategy of an explicit leg set, its legs in canonical order. -/
structure LegSetStrategy where
  legs : List LegSpec
  underlying : Underlying
  entered : Bool
  exit : ExitPolicy

namespace LegSetStrategy

variable [DecimalArith]

/-- The opening order of one leg of the set. -/
def openEntry (snapshot : ChainSnapshot) (out : List OrderCommand) (leg : LegSpec) :
    Outcome (List OrderCommand) := do
  let quote ← selectLegSetQuote snapshot leg
  return out ++ [openCommand quote leg.side leg.quantity]

/-- `open_entries`: one chain quotes the whole set. -/
def openEntries (s : LegSetStrategy) (snapshot : ChainSnapshot) (out : List OrderCommand) :
    Outcome (LegSetStrategy × List OrderCommand) :=
  if s.entered then .ok (s, out)
  else do
    require (snapshot.underlying = s.underlying) (.Execution
      (s!"leg set underlying {s.underlying.ticker} is not the snapshot underlying " ++
        snapshot.underlying.ticker))
    let out ← s.legs.foldlM (openEntry snapshot) out
    return ({ s with entered := true }, out)

def exits [ExitChecks] {R : Type} (s : LegSetStrategy) (ctx : ChainContext R)
    (out : List OrderCommand) : Outcome (LegSetStrategy × List OrderCommand) :=
  if ctx.openLegs = [] then .ok (s, out)
  else do
    let out ← evaluateExits s.exit ctx out
    return (s, out)

end LegSetStrategy

section Construction

/-- `positive_dollars`. -/
def positiveDollars (price : PriceCents) : Outcome Positive :=
  okOr (Positive.newDecimal (toDecimalDollars price))
    (.Conversion s!"price {price.value} cents is not a valid positive dollar amount")

/-- `positive_rate`. -/
def positiveRate (value : Decimal) (field : String) : Outcome Positive :=
  okOr (Positive.newDecimal value)
    (.Strategy s!"{field} {value.mantissa}e-{value.scale} must be non-negative")

/-- The contract count of a named strategy. -/
def positiveQuantity (quantity : Quantity) (what : String) : Outcome Positive :=
  okOr (Positive.newDecimal (.ofInt quantity.value))
    (.Strategy s!"{what} quantity {quantity.value} is invalid")

variable {S : Type} [UpstreamConstructors S]

def buildIronCondor (spec : IronCondorSpec) : Outcome S := do
  let quantity ← positiveQuantity spec.quantity "iron condor"
  let underlyingPrice ← positiveDollars spec.underlyingPrice
  let shortCallStrike ← positiveDollars spec.shortCallStrike
  let shortPutStrike ← positiveDollars spec.shortPutStrike
  let longCallStrike ← positiveDollars spec.longCallStrike
  let longPutStrike ← positiveDollars spec.longPutStrike
  let impliedVolatility ← positiveRate spec.impliedVolatility "iron condor implied volatility"
  let dividendYield ← positiveRate spec.dividendYield "iron condor dividend yield"
  let premiumShortCall ← positiveDollars spec.premiumShortCall
  let premiumShortPut ← positiveDollars spec.premiumShortPut
  let premiumLongCall ← positiveDollars spec.premiumLongCall
  let premiumLongPut ← positiveDollars spec.premiumLongPut
  let openFee ← positiveDollars spec.openFee
  let closeFee ← positiveDollars spec.closeFee
  strategyError "iron condor construction rejected" (UpstreamConstructors.ironCondor
    spec.underlying.ticker underlyingPrice shortCallStrike shortPutStrike longCallStrike
    longPutStrike spec.expiration impliedVolatility spec.riskFreeRate dividendYield quantity
    premiumShortCall premiumShortPut premiumLongCall premiumLongPut openFee closeFee)

def buildShortStrangle (spec : ShortStrangleSpec) : Outcome S := do
  let quantity ← positiveQuantity spec.quantity "short strangle"
  let underlyingPrice ← positiveDollars spec.underlyingPrice
  let callStrike ← positiveDollars spec.callStrike
  let putStrike ← positiveDollars spec.putStrike
  let callImpliedVolatility ← positiveRate spec.callImpliedVolatility
    "short strangle call implied volatility"
  let putImpliedVolatility ← positiveRate spec.putImpliedVolatility
    "short strangle put implied volatility"
  let dividendYield ← positiveRate spec.dividendYield "short strangle dividend yield"
  let premiumShortCall ← positiveDollars spec.premiumShortCall
  let premiumShortPut ← positiveDollars spec.premiumShortPut
  let openFeeShortCall ← positiveDollars spec.openFeeShortCall
  let closeFeeShortCall ← positiveDollars spec.closeFeeShortCall
  let openFeeShortPut ← positiveDollars spec.openFeeShortPut
  let closeFeeShortPut ← positiveDollars spec.closeFeeShortPut
  strategyError "short strangle construction rejected" (UpstreamConstructors.shortStrangle
    spec.underlying.ticker underlyingPrice callStrike putStrike spec.expiration
    callImpliedVolatility putImpliedVolatility spec.riskFreeRate dividendYield quantity
    premiumShortCall premiumShortPut openFeeShortCall closeFeeShortCall openFeeShortPut
    closeFeeShortPut)

namespace OptStratAdapter

/-- `OptStratAdapter::<IronCondor>::from_spec`. -/
def ironCondorFromSpec (spec : StrategySpec) (exit : ExitPolicy) : Outcome (OptStratAdapter S) :=
  match spec with
  | .IronCondor inner => do
    let inner ← buildIronCondor inner
    return .new inner exit
  | .ShortStrangle _ => .error (.Strategy
      (s!"OptStratAdapter::<IronCondor>::from_spec received a {spec.kind} spec; build it with " ++
        "OptStratAdapter::<ShortStrangle>::from_spec"))
  | .Legs _ => .error (.Strategy
      (s!"OptStratAdapter::<IronCondor>::from_spec received a {spec.kind} spec; an explicit leg " ++
        "set has no upstream strategy object — build it with LegSetStrategy::from_spec"))

/-- `OptStratAdapter::<ShortStrangle>::from_spec`. -/
def shortStrangleFromSpec (spec : StrategySpec) (exit : ExitPolicy) :
    Outcome (OptStratAdapter S) :=
  match spec with
  | .ShortStrangle inner => do
    let inner ← buildShortStrangle inner
    return .new inner exit
  | .IronCondor _ => .error (.Strategy
      (s!"OptStratAdapter::<ShortStrangle>::from_spec received a {spec.kind} spec; build it " ++
        "with OptStratAdapter::<IronCondor>::from_spec"))
  | .Legs _ => .error (.Strategy
      (s!"OptStratAdapter::<ShortStrangle>::from_spec received a {spec.kind} spec; an explicit " ++
        "leg set has no upstream strategy object — build it with LegSetStrategy::from_spec"))

end OptStratAdapter

namespace LegSetStrategy

/-- The legs are kept in canonical order, whatever order the specification lists them in. -/
def new (spec : LegSetSpec) (exit : ExitPolicy) : Outcome LegSetStrategy := do
  require (spec.legs ≠ []) (.Strategy "a leg set must carry at least one leg")
  let _ ← positiveRate spec.dividendYield "leg set dividend yield"
  spec.legs.forM fun leg => do
    let _ ← positiveRate leg.impliedVolatility "leg set implied volatility"
  return {
    legs := spec.legs.mergeSort fun a b => (a.canonicalCmp b).isLE
    underlying := spec.underlying
    entered := false
    exit }

/-- `LegSetStrategy::from_spec`. -/
def fromSpec (spec : StrategySpec) (exit : ExitPolicy) : Outcome LegSetStrategy :=
  match spec with
  | .Legs inner => new inner exit
  | .IronCondor _ | .ShortStrangle _ => .error (.Strategy
      (s!"LegSetStrategy::from_spec received a {spec.kind} spec; build it with " ++
        "OptStratAdapter::from_spec"))

end LegSetStrategy

end Construction

/-- A shipped strategy: the adapter or the leg set. -/
inductive ShippedStrategy (S : Type) where
  | adapter (a : OptStratAdapter S)
  | legSet (s : LegSetStrategy)

namespace ShippedStrategy

variable {S : Type} [PositionableStrategy S] [DecimalArith]

def exit : ShippedStrategy S → ExitPolicy
  | .adapter a => a.exit
  | .legSet s => s.exit

/-- Entry against the first snapshot. -/
def openEntries (s : ShippedStrategy S) (snapshot : ChainSnapshot) (out : List OrderCommand) :
    Outcome (ShippedStrategy S × List OrderCommand) :=
  match s with
  | .adapter a => do
    let (a, out) ← a.openEntries snapshot out
    return (.adapter a, out)
  | .legSet s => do
    let (s, out) ← s.openEntries snapshot out
    return (.legSet s, out)

/-- Entry is tried again by the adapter only. -/
def onSnapshot (s : ShippedStrategy S) (snapshot : ChainSnapshot) (out : List OrderCommand) :
    Outcome (ShippedStrategy S × List OrderCommand) :=
  match s with
  | .adapter _ => s.openEntries snapshot out
  | .legSet _ => .ok (s, out)

variable [ExitChecks]

def exits {R : Type} (s : ShippedStrategy S) (ctx : ChainContext R) (out : List OrderCommand) :
    Outcome (ShippedStrategy S × List OrderCommand) :=
  match s with
  | .adapter a => do
    let (a, out) ← a.exits ctx out
    return (.adapter a, out)
  | .legSet s => do
    let (s, out) ← s.exits ctx out
    return (.legSet s, out)

instance : Strategy (ShippedStrategy S) Unit where
  onStart s ctx out := do
    let (s, out) ← s.openEntries ctx.snapshot out
    return (s, ctx.rng, out)
  exits s ctx out := s.exits ctx out
  onSnapshot s ctx out := do
    let (s, out) ← s.onSnapshot ctx.snapshot out
    return (s, ctx.rng, out)
  onEnd s ctx out := do
    let out ← closeAll ctx.openLegs ctx.pending ctx.snapshot out
    return (s, ctx.rng, out)
  exitReason s := exitPolicyToReason s.exit

end ShippedStrategy

namespace SmallMarket

/-- An upstream strategy that is nothing but its positions. -/
scoped instance : PositionableStrategy (List Position) where
  getPositions := .ok
  repriceInner positions _ := .ok positions

scoped instance : UpstreamConstructors (List Position) where
  ironCondor _ _ shortCallStrike shortPutStrike longCallStrike longPutStrike expiration _ _ _
      quantity _ _ _ _ _ _ :=
    .ok [⟨shortCallStrike, .Call, expiration, .Short, quantity⟩,
      ⟨shortPutStrike, .Put, expiration, .Short, quantity⟩,
      ⟨longCallStrike, .Call, expiration, .Long, quantity⟩,
      ⟨longPutStrike, .Put, expiration, .Long, quantity⟩]
  shortStrangle _ _ callStrike putStrike expiration _ _ _ _ quantity _ _ _ _ _ _ :=
    .ok [⟨callStrike, .Call, expiration, .Short, quantity⟩,
      ⟨putStrike, .Put, expiration, .Short, quantity⟩]

/-- A leaf check that triggers from the given step on. -/
scoped instance : ExitChecks where
  checkExitPolicy
    | .TimeSteps steps, _, _, stepNum, _, _, _ =>
      if steps ≤ stepNum then some (.Other "time_steps") else none
    | _, _, _, _, _, _, _ => none
  display _ := "exit"

end SmallMarket

end IronCondor
