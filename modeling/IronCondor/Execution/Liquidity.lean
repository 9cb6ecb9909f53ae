import IronCondor.Config

/-! # Per-strike book seeding

Each quoted contract gets a ladder on both sides: the touch, then deeper levels one tick apart
with geometrically decaying size. The plan lists contracts in key order, bids before asks. -/
namespace IronCondor

open Checked

variable [DecimalArith]

/-- One planned seed order. -/
structure SeedOrder where
  contract : ContractKey
  isAsk : Bool
  price : PriceCents
  size : Quantity
deriving DecidableEq

def touchSizeContracts (profile : LiquidityProfile) (quote : QuoteView) (isAsk : Bool) :
    Bounded u32 :=
  match profile.touchSize with
  | .QuotedSize => if isAsk then quote.askSize.toU32 else quote.bidSize.toU32
  | .Flat contracts => contracts

/-- `round(touch * factor)` with midpoints to even. -/
def decayedSize (touch : Bounded u32) (factor : Decimal) : Outcome (Bounded u32) := do
  let raw ← okOr (DecimalArith.checkedMul (.ofInt touch.value) factor) .ArithmeticOverflow
  checked u32 raw.roundHalfEven

/-- The price `level` ticks away from the touch; a bid below zero ends its side. -/
def levelPrice (isAsk : Bool) (touchCents : PriceCents) (tickCents : PriceCents) (level : Nat) :
    Outcome (Option PriceCents) := do
  let offset ← checked u64 (tickCents.value * level)
  if isAsk then
    let price ← checked u64 (touchCents.value + offset.value)
    return some price
  else if touchCents.value < offset.value then return none
  else
    let price ← checked u64 (touchCents.value - offset.value)
    return some price

/-- The levels of one side from `level` on, at most `levels` of them. -/
def sideLadder (contract : ContractKey) (isAsk : Bool) (touchCents tickCents : PriceCents)
    (decay : Decimal) (touch : Bounded u32) :
    (levels level : Nat) → (factor : Decimal) → Outcome (List SeedOrder)
  | 0, _, _ => .ok []
  | levels + 1, level, factor => do
    let size ← decayedSize touch factor
    if size.value = 0 then return []
    else
      match ← levelPrice isAsk touchCents tickCents level with
      | none => return []
      | some price =>
        let qty ← Quantity.new size
        let factor ← okOr (DecimalArith.checkedMul factor decay) .ArithmeticOverflow
        let deeper ← sideLadder contract isAsk touchCents tickCents decay touch levels (level + 1)
          factor
        return { contract, isAsk, price, size := qty } :: deeper

/-- `push_side_ladder`: one side of one quote, the touch and `depth_levels` deeper levels. -/
def pushSideLadder (contract : ContractKey) (isAsk : Bool) (tickCents : PriceCents)
    (profile : LiquidityProfile) (quote : QuoteView) : Outcome (List SeedOrder) :=
  sideLadder contract isAsk (if isAsk then quote.ask else quote.bid) tickCents profile.decay
    (touchSizeContracts profile quote isAsk) (profile.depthLevels.value.toNat + 1) 0 (.ofInt 1)

def planContract (tickCents : PriceCents) (profile : LiquidityProfile) (plan : List SeedOrder)
    (entry : ContractKey × QuoteView) : Outcome (List SeedOrder) := do
  let bids ← pushSideLadder entry.1 false tickCents profile entry.2
  let asks ← pushSideLadder entry.1 true tickCents profile entry.2
  return plan ++ bids ++ asks

/-- The whole seed plan of a snapshot, in submission order. -/
def planSeed (snap : ChainSnapshot) (profile : LiquidityProfile) : Outcome (List SeedOrder) := do
  require (snap.spec.tickSizeCents.value ≠ 0)
    (.Execution "instrument tick_size_cents is zero at the book seeder")
  snap.quotes.toList.foldlM (planContract snap.spec.tickSizeCents profile) []

end IronCondor
