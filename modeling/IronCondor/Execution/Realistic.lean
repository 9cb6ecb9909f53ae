import IronCondor.Execution.Liquidity
import IronCondor.Execution.Model
import IronCondor.Lib.OrderBook
import IronCondor.Lib.OrderedMap

/-! # The realistic fill model

Intents are routed through one order book per contract. Every step first refreshes the seeded
depth (e1), which may fill resting strategy orders, and then routes the commands (e2): all
cancels before all submits. -/
namespace IronCondor

open Checked OrderBook

variable {B : Type}

/-- The book's own order identity; the model mints only sequential ones. -/
inductive ObOrderId where
  | Sequential (seq : Nat)
  | Foreign (bits : Nat)
deriving DecidableEq

/-- Where the strategy order ids begin. -/
def strategyIdBase : Nat := 1

/-- Where the seeded-maker order ids begin. -/
def makerIdBase : Nat := 2 ^ 48

/-- A resting strategy limit, mirrored from its book. -/
structure RestingStrategyOrder where
  orderId : OrderId
  contract : ContractKey
  side : Side
  decisionMid : PriceCents
  remaining : Nat
  firstFillDone : Bool
deriving DecidableEq

structure RealisticFill (B : Type) where
  fees : FeeSchedule
  marketableCapTicks : Bounded u32
  nextStrategyId : Nat
  nextMakerId : Nat
  liquidityProfile : Option LiquidityProfile
  restingSeedIds : Std.TreeMap ContractKey (List Nat)
  restingStrategy : Std.TreeMap Nat RestingStrategyOrder
  orderIndex : Std.TreeMap OrderId Nat
  carryGroups : List CarryGroup
  liveOrders : Std.TreeMap ContractKey Nat
  fillGroups : List FillGroup
  books : Std.TreeMap ContractKey B

/-- The book side follows the trade direction alone, for opens and closes alike. -/
def obSide : Side → BookSide
  | .Long => .Buy
  | .Short => .Sell

/-- `price / tick`, requiring an exact multiple. -/
def centsToTicks (price tick : PriceCents) : Outcome Nat := do
  require (tick.value ≠ 0) (.Execution "tick_size_cents is zero in cents→tick scaling")
  require (price.value % tick.value = 0) (.PriceNotTickAligned price.value tick.value)
  return (price.value / tick.value).toNat

/-- `ticks * tick`. -/
def ticksToCents (ticks : Nat) (tick : PriceCents) : Outcome PriceCents := do
  let cents ← checked u128 (ticks * tick.value)
  checked u64 cents.value

/-- The aggressive limit of a marketable intent: `cap` ticks through the touch. -/
def marketableLimitCents (side : Side) (quote : QuoteView) (tick : PriceCents)
    (cap : Bounded u32) : Outcome PriceCents := do
  let capOffset ← checked u64 (tick.value * cap.value)
  match obSide side with
  | .Buy => checked u64 (quote.ask.value + capOffset.value)
  | .Sell => checked u64 (max (quote.bid.value - capOffset.value) 0)

/-- A rejection by the book, at the shared error boundary. -/
def orderBookError {α : Type} : Except String α → Outcome α
  | .ok a => .ok a
  | .error msg => .error (.OrderBook msg)

namespace RealisticFill

/-- The raw adapter: nothing is seeded. -/
def new (fees : FeeSchedule) (marketableCapTicks : Bounded u32) : RealisticFill B where
  fees
  marketableCapTicks
  nextStrategyId := strategyIdBase
  nextMakerId := makerIdBase
  liquidityProfile := none
  restingSeedIds := ∅
  restingStrategy := ∅
  orderIndex := ∅
  carryGroups := []
  liveOrders := ∅
  fillGroups := []
  books := ∅

def withLiquidityProfile (fees : FeeSchedule) (marketableCapTicks : Bounded u32)
    (profile : LiquidityProfile) : RealisticFill B :=
  { new fees marketableCapTicks with liquidityProfile := some profile }

def nextStrategyOrderId (m : RealisticFill B) : Outcome (RealisticFill B × Nat) := do
  require (m.nextStrategyId < makerIdBase) (.Execution
    (s!"strategy order id range exhausted at {m.nextStrategyId} " ++
      s!"(maker range begins at {makerIdBase})"))
  return ({ m with nextStrategyId := m.nextStrategyId + 1 }, m.nextStrategyId)

def nextMakerOrderId (m : RealisticFill B) : Outcome (RealisticFill B × Nat) := do
  let next ← narrow u64 (.Execution "seeded-maker order id range exhausted") (m.nextMakerId + 1)
  return ({ m with nextMakerId := next.value.toNat }, m.nextMakerId)

/-- Decrement the live-order count of a contract and drop it at zero. -/
def releaseLiveOrder (m : RealisticFill B) (contract : ContractKey) :
    Outcome (RealisticFill B) := do
  let count ← okOr m.liveOrders[contract]?
    (.Execution "live-order index missing an entry for a tracked resting order")
  require (0 < count) (.Execution "live-order index underflow for a tracked resting order")
  if count = 1 then return { m with liveOrders := m.liveOrders.erase contract }
  else return { m with liveOrders := m.liveOrders.insert contract (count - 1) }

/-- Extend the last carry group when it is the same order's, else start a new one. -/
def pushCarry (groups : List CarryGroup) (orderId : OrderId) : Outcome (List CarryGroup) :=
  match groups.getLast? with
  | some last =>
    if last.orderId = orderId then do
      let fillCount ← checked u32 (last.fillCount.value + 1)
      return groups.dropLast ++ [{ last with fillCount }]
    else .ok (groups ++ [⟨orderId, ⟨1, u32.contains_one⟩⟩])
  | none => .ok (groups ++ [⟨orderId, ⟨1, u32.contains_one⟩⟩])

/-- The refresh fill of the strategy order a reseed trade hit, under the order's engine id. A
maker that is not a tracked strategy order is ignored. -/
def captureRefreshFill (m : RealisticFill B) (trade : Trade ObOrderId) (contract : ContractKey)
    (tick : PriceCents) (snap : ChainSnapshot) :
    Outcome (RealisticFill B × Option (OrderId × Fill)) :=
  match trade.maker with
  | .Foreign _ => .ok (m, none)
  | .Sequential makerSeq =>
    match m.restingStrategy[makerSeq]? with
    | none => .ok (m, none)
    | some order => do
      let execPrice ← ticksToCents trade.price tick
      let quantity ← Quantity.ofInt trade.quantity
      let charge := if order.firstFillDone then FeeCharge.LaterFill else FeeCharge.FirstFill
      require (trade.quantity ≤ order.remaining) (.Execution
        ("refresh matched more than the strategy order's resting size " ++
          "(book/tracking desync)"))
      let left : RestingStrategyOrder :=
        { order with firstFillDone := true, remaining := order.remaining - trade.quantity }
      let fill ← assembleFill
        { ts := snap.ts
          step := snap.step
          contract
          side := order.side
          quantity
          price := execPrice
          decisionMid := order.decisionMid } .Realistic m.fees charge
      let carryGroups ← pushCarry m.carryGroups order.orderId
      let m := { m with carryGroups, restingStrategy := m.restingStrategy.insert makerSeq left }
      if left.remaining = 0 then
        let m ← { m with restingStrategy := m.restingStrategy.erase makerSeq }.releaseLiveOrder
          order.contract
        return ({ m with orderIndex := m.orderIndex.erase order.orderId },
          some (order.orderId, fill))
      else return (m, some (order.orderId, fill))

section Books

variable [Book B ObOrderId]

/-- The leaf book of a contract, created on first use under the contract's identifier. -/
def leafBook (books : Std.TreeMap ContractKey B) (contract : ContractKey) : Outcome B :=
  match books[contract]? with
  | some book => .ok book
  | none => do
    let _ ← contract.toContractId
    return Book.empty

/-- Rest one seeded maker in the leaf book of a contract. Its id is not among those the next refresh
cancels, and what it trades is not captured. -/
def seedMakerLimit (m : RealisticFill B) (contract : ContractKey) (isAsk : Bool)
    (price : PriceCents) (quantity : Quantity) (tick : PriceCents) : Outcome (RealisticFill B) := do
  let priceTicks ← centsToTicks price tick
  let (m, seq) ← m.nextMakerOrderId
  let book ← leafBook m.books contract
  let (book, _) ← orderBookError (Book.addLimit book (.Sequential seq)
    (if isAsk then BookSide.Sell else BookSide.Buy) priceTicks quantity.value.toNat)
  return { m with books := m.books.insert contract book }

def cancelSeeds (books : Std.TreeMap ContractKey B) (entry : ContractKey × List Nat) :
    Outcome (Std.TreeMap ContractKey B) :=
  match books[entry.1]? with
  | none => .ok books
  | some book => do
    let book ← entry.2.foldlM (fun book seq => do
      let (book, _) ← orderBookError (Book.cancel book (.Sequential seq))
      return book) book
    return books.insert entry.1 book

/-- Cancel every seeded order still resting from the previous snapshot. -/
def cancelStaleSeed (m : RealisticFill B) : Outcome (RealisticFill B) := do
  let books ← m.restingSeedIds.toList.foldlM cancelSeeds m.books
  return { m with
    books
    restingSeedIds := m.restingSeedIds.toList.foldl (fun ids e => ids.insert e.1 [])
      m.restingSeedIds }

/-- Drop the books of contracts that are neither quoted nor hold a live strategy order. -/
def evictDeparted (m : RealisticFill B) (snap : ChainSnapshot) : RealisticFill B :=
  let keep := fun contract => snap.quotes.contains contract || m.liveOrders.contains contract
  { m with
    books := OrderedMap.retain keep m.books
    restingSeedIds := OrderedMap.retain keep m.restingSeedIds }

/-- Capture the trades of one reseed order, appending the fills to `out`. -/
def captureTrade (contract : ContractKey) (tick : PriceCents) (snap : ChainSnapshot)
    (acc : RealisticFill B × List (OrderId × Fill)) (trade : Trade ObOrderId) :
    Outcome (RealisticFill B × List (OrderId × Fill)) := do
  let (m, carried) ← acc.1.captureRefreshFill trade contract tick snap
  return (m, acc.2 ++ carried.toList)

/-- Submit one planned seed order and capture the strategy orders it crosses. -/
def reseedOrder (snap : ChainSnapshot) (tick : PriceCents)
    (acc : RealisticFill B × List (OrderId × Fill)) (order : SeedOrder) :
    Outcome (RealisticFill B × List (OrderId × Fill)) := do
  let (m, out) := acc
  let priceTicks ← centsToTicks order.price tick
  let side := if order.isAsk then BookSide.Sell else BookSide.Buy
  let (m, seq) ← m.nextMakerOrderId
  let book ← leafBook m.books order.contract
  let (book, result) ← orderBookError
    (Book.addLimit book (.Sequential seq) side priceTicks order.size.value.toNat)
  let m := { m with books := m.books.insert order.contract book }
  let (m, out) ← result.trades.foldlM (captureTrade order.contract tick snap) (m, out)
  if 0 < result.remaining then
    let ids := m.restingSeedIds[order.contract]?.getD []
    return ({ m with restingSeedIds := m.restingSeedIds.insert order.contract (ids ++ [seq]) },
      out)
  else return (m, out)

/-- Phase e1: the refresh, with the engine id of every fill it generates. -/
def refreshBooks [DecimalArith] (m : RealisticFill B) (snap : ChainSnapshot) :
    Outcome (RealisticFill B × List (OrderId × Fill)) :=
  match m.liquidityProfile with
  | none => .ok (m, [])
  | some profile => do
    require (snap.spec.tickSizeCents.value ≠ 0)
      (.Execution "instrument tick_size_cents is zero at the realistic refresh")
    let m ← m.cancelStaleSeed
    let m := m.evictDeparted snap
    let plan ← planSeed snap profile
    plan.foldlM (reseedOrder snap snap.spec.tickSizeCents) (m, [])

/-- One fill per executed level; the first carries the once-per-order fee. -/
def levelFills (fees : FeeSchedule) (snap : ChainSnapshot) (intent : OrderIntent)
    (tick : PriceCents) : FeeCharge → List (Trade ObOrderId) → Outcome (List Fill)
  | _, [] => .ok []
  | charge, trade :: trades => do
    let execPrice ← ticksToCents trade.price tick
    let quantity ← Quantity.ofInt trade.quantity
    let fill ← assembleFill
      { ts := snap.ts
        step := snap.step
        contract := intent.contract
        side := intent.side
        quantity
        price := execPrice
        decisionMid := intent.decisionMid } .Realistic fees charge
    let later ← levelFills fees snap intent tick .LaterFill trades
    return fill :: later

/-- A trade against one of the strategy's own resting orders. -/
def isSelfCross (m : RealisticFill B) (trade : Trade ObOrderId) : Bool :=
  match trade.maker with
  | .Sequential makerSeq => m.restingStrategy.contains makerSeq
  | .Foreign _ => false

/-- The limit an intent reaches the book with. -/
def limitCents (m : RealisticFill B) (intent : OrderIntent) (snap : ChainSnapshot) :
    Outcome PriceCents :=
  match intent.limit with
  | some limit => .ok limit
  | none => do
    let quote ← okOr snap.quotes[intent.contract]? (.Execution
      (s!"realistic fill: marketable intent for strike {intent.contract.strike.value} " ++
        s!"not quoted at step {snap.step.value}"))
    marketableLimitCents intent.side quote snap.spec.tickSizeCents m.marketableCapTicks

/-- Track the resting remainder of a good-till-cancelled order. -/
def trackResting (m : RealisticFill B) (seq : Nat) (engineOrderId : OrderId)
    (intent : OrderIntent) (remaining : Nat) : Outcome (RealisticFill B) := do
  let order : RestingStrategyOrder :=
    { orderId := engineOrderId
      contract := intent.contract
      side := intent.side
      decisionMid := intent.decisionMid
      remaining
      firstFillDone := remaining < intent.quantity.value.toNat }
  let count ← checked u32 (m.liveOrders[intent.contract]?.getD 0 + 1 : Nat)
  return { m with
    restingStrategy := m.restingStrategy.insert seq order
    orderIndex := m.orderIndex.insert engineOrderId seq
    liveOrders := m.liveOrders.insert intent.contract count.value.toNat }

/-- An immediate-or-cancel remainder does not stay in the book. -/
def cancelRemainder (book : B) (seq : Nat) (tif : TimeInForce) (remaining : Nat) : Outcome B :=
  if tif = .Ioc ∧ 0 < remaining then do
    let (book, _) ← orderBookError (Book.cancel book (.Sequential seq))
    return book
  else return book

/-- Route one intent through its book. Every order is submitted good-till-cancelled; the
remainder of an immediate-or-cancel one is then cancelled in the book. -/
def fillSubmit (m : RealisticFill B) (intent : OrderIntent) (engineOrderId : OrderId)
    (snap : ChainSnapshot) : Outcome (RealisticFill B × List Fill) := do
  let tick := snap.spec.tickSizeCents
  require (tick.value ≠ 0)
    (.Execution "instrument tick_size_cents is zero at the realistic seam")
  let limit ← m.limitCents intent snap
  let priceTicks ← centsToTicks limit tick
  let (m, seq) ← m.nextStrategyOrderId
  let book ← leafBook m.books intent.contract
  let (book, result) ← orderBookError (Book.addLimit book (.Sequential seq) (obSide intent.side)
    priceTicks intent.quantity.value.toNat)
  let book ← cancelRemainder book seq intent.tif result.remaining
  let m := { m with books := m.books.insert intent.contract book }
  require (result.trades.all fun trade => !m.isSelfCross trade) (.Execution
    ("taker intent crossed a resting strategy order (strategy self-cross); maker-side e2 " ++
      "capture is unsupported"))
  let fills ← levelFills m.fees snap intent tick .FirstFill result.trades
  if intent.tif = .Gtc ∧ 0 < result.remaining then
    let m ← m.trackResting seq engineOrderId intent result.remaining
    return (m, fills)
  else return (m, fills)

def cancelInBook (books : Std.TreeMap ContractKey B) (contract : ContractKey) (seq : Nat) :
    Outcome (Std.TreeMap ContractKey B) :=
  match books[contract]? with
  | none => .ok books
  | some book => do
    let (book, _) ← orderBookError (Book.cancel book (.Sequential seq))
    return books.insert contract book

/-- Stop tracking the order `seq` and cancel it in the book of its contract. -/
def dropTracked (m : RealisticFill B) (seq : Nat) : Outcome (RealisticFill B) :=
  match m.restingStrategy[seq]? with
  | none => .ok m
  | some order => do
    let books ← cancelInBook m.books order.contract seq
    { m with books, restingStrategy := m.restingStrategy.erase seq }.releaseLiveOrder order.contract

/-- Cancel the resting order the engine knows as `orderId`; an unknown id is a no-op, since
this step's refresh may have consumed the order. -/
def cancelResting (m : RealisticFill B) (orderId : OrderId) : Outcome (RealisticFill B) :=
  match m.orderIndex[orderId]? with
  | none => .ok m
  | some seq => do
    let m ← m.dropTracked seq
    return { m with orderIndex := m.orderIndex.erase orderId }

def cancelCommand (m : RealisticFill B) (cmd : OrderCommand) : Outcome (RealisticFill B) :=
  match cmd.target? with
  | some orderId => m.cancelResting orderId
  | none => .ok m

/-- The fills one submitting command produced, under the engine id it was routed with. -/
structure RoutedFills where
  commandIndex : Nat
  orderId : OrderId
  intent : OrderIntent
  fills : List Fill

/-- The state of the submit phase. -/
structure Routing (B : Type) where
  model : RealisticFill B
  routed : List RoutedFills
  nextSubmitId : Nat

def routeCommand (submitIds : List OrderId) (snap : ChainSnapshot) (r : Routing B)
    (entry : OrderCommand × Nat) : Outcome (Routing B) :=
  match entry.1.intent? with
  | none => .ok r
  | some intent => do
    let engineOrderId ← okOr submitIds[r.nextSubmitId]?
      (.Execution "submit_ids under-covers the step's Submit/Replace commands")
    let (m, fills) ← r.model.fillSubmit intent engineOrderId snap
    let run : RoutedFills := ⟨entry.2, engineOrderId, intent, fills⟩
    let next : Routing B := ⟨m, r.routed ++ [run], r.nextSubmitId + 1⟩
    if 0 < fills.length then
      let fillCount ← checked u32 fills.length
      return { next with model := { m with fillGroups := m.fillGroups ++ [⟨entry.2, fillCount⟩] } }
    else return next

/-- What one call produced: the refresh fills and the fills of every routed command, each
under the engine id the model used. -/
structure Attribution where
  carried : List (OrderId × Fill)
  routed : List RoutedFills

/-- The flat fill list: refresh fills first, then the command fills in command order. -/
def Attribution.fills (a : Attribution) : List Fill :=
  a.carried.map Prod.snd ++ a.routed.flatMap RoutedFills.fills

/-- Both phases of one call: refresh, then all cancels, then all submits. -/
def fillAttributed [DecimalArith] (m : RealisticFill B) (commands : List OrderCommand)
    (submitIds : List OrderId) (snap : ChainSnapshot) :
    Outcome (RealisticFill B × Attribution) := do
  let (m, carried) ← { m with fillGroups := [], carryGroups := [] }.refreshBooks snap
  let m ← commands.foldlM cancelCommand m
  let r ← commands.zipIdx.foldlM (routeCommand submitIds snap) ⟨m, [], 0⟩
  return (r.model, ⟨carried, r.routed⟩)

instance [DecimalArith] : ExecutionModel (RealisticFill B) where
  fill m commands submitIds snap := do
    let (m, attribution) ← m.fillAttributed commands submitIds snap
    return (m, attribution.fills)
  fillGroups m := some m.fillGroups
  carryFills m := m.carryGroups
  mode _ := .Realistic

end Books

end RealisticFill

end IronCondor
