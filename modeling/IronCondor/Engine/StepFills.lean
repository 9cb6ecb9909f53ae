import IronCondor.Engine.State
import IronCondor.Execution.Model

/-! # Correlating a step's fills to its orders

The carried prefix is applied first, group by group, against the registry of resting orders.
The command walk then gives every submitting command its contiguous run of fills, in command
order; a good-till-cancelled remainder is registered as a working order. -/
namespace IronCondor

open Checked

/-- The close-phase ranges that decide the exit reason of a close. -/
structure CloseReasons where
  exitsEnd : Nat
  onEndStart : Nat
  policyReason : ExitReason

def CloseReasons.reasonFor (r : CloseReasons) (idx : Nat) : ExitReason :=
  if idx < r.exitsEnd then r.policyReason
  else if r.onEndStart ≤ idx then .Other "end_of_data"
  else .ManualClose

namespace EngineState

/-- Open one leg: mint its id and enter it in the inventory and in both collectors. -/
def openLeg (st : EngineState) (tradeId : TradeId) (first : Fill) (agg : FillAggregate)
    (ts : SimTime) : Outcome (EngineState × PositionId) := do
  let (ids, positionId) ← st.ids.mintPosition
  let leg : OpenPosition :=
    { positionId
      contract := first.contract
      side := first.side
      quantity := agg.quantity
      entryPremium := agg.vwap }
  return ({ st with
    ids
    inventory := st.inventory ++ [leg]
    tradeLog := st.tradeLog.recordOpen positionId tradeId first.contract first.side agg.quantity
      agg.vwap ts
    bundle := st.bundle.registerOpenLeg positionId tradeId agg.vwap first.side }, positionId)

/-- Record and settle one opening fill; `fill_seq` continues from `base`. -/
def openFill (orderId : OrderId) (tradeId : TradeId) (positionId : PositionId)
    (base : Bounded u32) (multiplier : Bounded u32) (st : EngineState) (entry : Fill × Nat) :
    Outcome EngineState := do
  let fillSeq ← checked u32 (base.value + entry.2)
  let bundle := st.bundle.recordOpenFill entry.1 orderId tradeId positionId fillSeq
  let ledger ← st.ledger.applyFill entry.1 multiplier
  return { st with bundle, ledger }

/-- Record and settle one closing fill. -/
def closeFill (orderId : OrderId) (positionId : PositionId) (base : Bounded u32)
    (multiplier : Bounded u32) (st : EngineState) (entry : Fill × Nat) :
    Outcome EngineState := do
  let fillSeq ← checked u32 (base.value + entry.2)
  let bundle ← st.bundle.recordCloseFill entry.1 orderId positionId fillSeq
  let ledger ← st.ledger.applyFill entry.1 multiplier
  return { st with bundle, ledger }

/-- Close `orderFills` worth of a leg; a full close also writes its terminal row. -/
def closeLeg (st : EngineState) (orderId : OrderId) (positionId : PositionId)
    (orderFills : List Fill) (first : Fill) (agg : FillAggregate) (base : Bounded u32)
    (reason : ExitReason) (snapshot : ChainSnapshot) : Outcome EngineState := do
  let multiplier := snapshot.spec.contractMultiplier
  let (inventory, fullClose) ← reduceLeg st.inventory positionId agg.quantity
  let tradeLog ← st.tradeLog.recordClose positionId agg.vwap agg.fees agg.slippage snapshot.ts
    agg.quantity multiplier reason
  let snapshotMark := snapshot.quotes[first.contract]?.map QuoteView.mid
  let st ← orderFills.zipIdx.foldlM (closeFill orderId positionId base multiplier)
    { st with inventory, tradeLog }
  if fullClose then
    let bundle ← st.bundle.recordCloseTerminal first.contract first.step first.ts positionId
      agg.quantity snapshotMark multiplier reason
    return { st with bundle }
  else return st

/-- The trade a group of opens shares: the one already minted, else a fresh one. -/
def tradeFor (st : EngineState) : Option TradeId → Outcome (EngineState × TradeId)
  | some existing => .ok (st, existing)
  | none => do
    let (ids, minted) ← st.ids.mintTrade
    return ({ st with ids }, minted)

/-- Extend the leg a resting open already built. -/
def extendLeg (st : EngineState) (tradeId : TradeId) (positionId : PositionId)
    (orderFills : List Fill) (first : Fill) (agg : FillAggregate) : Outcome EngineState := do
  let (inventory, entryPremium) ← extendOpenLeg st.inventory positionId orderFills agg
  let tradeLog ← st.tradeLog.recordOpenExtend positionId agg.quantity entryPremium
  return { st with
    inventory
    tradeLog
    bundle := st.bundle.registerOpenLeg positionId tradeId entryPremium first.side }

/-- The leg a carried open run belongs to: one leg per resting order. -/
def carryOpenLeg (st : EngineState) (entry : PendingEntry) (tradeId : TradeId)
    (orderFills : List Fill) (first : Fill) (agg : FillAggregate) (ts : SimTime) :
    Outcome (EngineState × PositionId) :=
  match entry.positionId with
  | some existing => do
    let st ← st.extendLeg tradeId existing orderFills first agg
    return (st, existing)
  | none => st.openLeg tradeId first agg ts

/-- Shrink a registry entry by a carried run and drop it at zero. -/
def settleEntry (st : EngineState) (orderId : OrderId) (entry : PendingEntry) (count : Nat)
    (filled : Quantity) : Outcome EngineState := do
  let fillsSoFar ← checked u32 (entry.fillsSoFar.value + count)
  let remaining ← narrow u32 (.Execution s!"carry fills exceed order {orderId.value}'s resting size")
    (entry.remaining.value - filled.value)
  if remaining.value = 0 then return { st with pending := st.pending.erase orderId }
  else
    let quantity ← Quantity.new remaining
    let intent := { entry.pending.intent with quantity }
    return { st with
      pending := st.pending.insert orderId
        { entry with fillsSoFar, pending := { entry.pending with intent } } }

/-- Apply one carried run of a prior-step resting order. -/
def applyCarryGroup (st : EngineState) (orderId : OrderId) (orderFills : List Fill)
    (snapshot : ChainSnapshot) : Outcome EngineState := do
  let multiplier := snapshot.spec.contractMultiplier
  let entry ← okOr st.pending[orderId]?
    (.Execution s!"carry group names order {orderId.value} which is not pending")
  let agg ← aggregateFills orderFills
  let first ← okOr orderFills.head? (.Execution "a carry group's fill run is empty")
  let _ ← checked u32 orderFills.length
  match entry.pending.intent.action with
  | .Open =>
    let (st, tradeId) ← st.tradeFor entry.tradeId
    let (st, positionId) ← st.carryOpenLeg entry tradeId orderFills first agg snapshot.ts
    let st ← orderFills.zipIdx.foldlM
      (openFill orderId tradeId positionId entry.fillsSoFar multiplier) st
    st.settleEntry orderId { entry with tradeId := some tradeId, positionId := some positionId }
      orderFills.length agg.quantity
  | .Close positionId =>
    let st ← st.closeLeg orderId positionId orderFills first agg entry.fillsSoFar
      (entry.reason.getD .ManualClose) snapshot
    st.settleEntry orderId entry orderFills.length agg.quantity

/-- A good-till-cancelled order that crossed nothing rests whole; an open reserves the step's
trade now. -/
def restWhole (st : EngineState) (stepTrade : Option TradeId) (idx : Nat) (orderId : OrderId)
    (intent : OrderIntent) (reasons : CloseReasons) :
    Outcome (EngineState × Option TradeId) :=
  match intent.action with
  | .Open => do
    let (st, trade) ← st.tradeFor stepTrade
    return ({ st with
      pending := registerPending st.pending orderId intent intent.quantity ⟨0, u32.contains_zero⟩
        (some trade) none none }, some trade)
  | .Close _ => .ok ({ st with
      pending := registerPending st.pending orderId intent intent.quantity ⟨0, u32.contains_zero⟩ none none
        (some (reasons.reasonFor idx)) }, stepTrade)

/-- Register what a good-till-cancelled order left unfilled. -/
def registerRemainder (st : EngineState) (stepTrade : Option TradeId) (idx : Nat)
    (orderId : OrderId) (intent : OrderIntent) (opened : Option PositionId) (produced : Nat)
    (filled : Quantity) (reasons : CloseReasons) : Outcome EngineState := do
  if intent.tif = .Gtc ∧ filled.value < intent.quantity.value then
    let remainder ← Quantity.ofInt (intent.quantity.value - filled.value)
    let produced ← checked u32 produced
    let (trade, reason) := match intent.action with
      | .Open => (stepTrade, none)
      | .Close _ => (none, some (reasons.reasonFor idx))
    return { st with
      pending := registerPending st.pending orderId intent remainder produced trade opened reason }
  else return st

/-- Apply the fills of one submitting command. -/
def fillOrder (st : EngineState) (stepTrade : Option TradeId) (idx : Nat) (orderId : OrderId)
    (intent : OrderIntent) (orderFills : List Fill) (first : Fill) (reasons : CloseReasons)
    (snapshot : ChainSnapshot) : Outcome (EngineState × Option TradeId) := do
  let multiplier := snapshot.spec.contractMultiplier
  let agg ← aggregateFills orderFills
  match intent.action with
  | .Open =>
    let (st, tradeId) ← st.tradeFor stepTrade
    let (st, positionId) ← st.openLeg tradeId first agg snapshot.ts
    let st ← orderFills.zipIdx.foldlM
      (openFill orderId tradeId positionId ⟨0, u32.contains_zero⟩ multiplier) st
    let st ← st.registerRemainder (some tradeId) idx orderId intent (some positionId)
      orderFills.length agg.quantity reasons
    return (st, some tradeId)
  | .Close positionId =>
    let st ← st.closeLeg orderId positionId orderFills first agg ⟨0, u32.contains_zero⟩
      (reasons.reasonFor idx) snapshot
    let st ← st.registerRemainder stepTrade idx orderId intent none orderFills.length
      agg.quantity reasons
    return (st, stepTrade)

/-- One submitting command with its run of fills, which is empty when it crossed nothing. -/
def applySubmit (st : EngineState) (stepTrade : Option TradeId) (idx : Nat) (orderId : OrderId)
    (intent : OrderIntent) (orderFills : List Fill) (reasons : CloseReasons)
    (snapshot : ChainSnapshot) : Outcome (EngineState × Option TradeId) :=
  match orderFills with
  | [] =>
    if intent.tif = .Gtc then st.restWhole stepTrade idx orderId intent reasons
    else .error (.Execution (s!"submitted order at command index {idx} produced no fill " ++
      "(a zero-fill order cannot open or close a leg)"))
  | first :: rest =>
    st.fillOrder stepTrade idx orderId intent (first :: rest) first reasons snapshot

/-- Drop a registry entry; an absent one was consumed by this step's refresh. -/
def withdraw (st : EngineState) (orderId : OrderId) : EngineState :=
  { st with pending := st.pending.erase orderId }

/-- The cancel half of a command. -/
def withdrawTarget (st : EngineState) (cmd : OrderCommand) : EngineState :=
  match cmd.target? with
  | some orderId => st.withdraw orderId
  | none => st

end EngineState

/-- A contiguous run of the produced fills. -/
def fillRun (fills : List Fill) (cursor count : Nat) : Option (List Fill) :=
  if cursor + count ≤ fills.length then some ((fills.drop cursor).take count) else none

/-- Where the command walk stands in the three streams it consumes. -/
structure Cursor where
  cursor : Nat
  groups : Option (List FillGroup)
  submitOrdinal : Nat

/-- How many fills the command at `idx` produced, consuming its group. -/
def Cursor.takeCount (c : Cursor) (idx : Nat) : Nat × Option (List FillGroup) :=
  match c.groups with
  | none => (1, none)
  | some [] => (0, some [])
  | some (group :: groups) =>
    if group.commandIndex = idx then (group.fillCount.value.toNat, some groups)
    else (0, some (group :: groups))

/-- The order id and the run of fills of the next submitting command. -/
def Cursor.next (c : Cursor) (fills : List Fill) (submitIds : List OrderId) (idx : Nat) :
    Outcome (OrderId × List Fill × Cursor) := do
  let orderId ← okOr submitIds[c.submitOrdinal]?
    (.Execution "pre-minted submit_ids under-cover the step's commands")
  let (count, groups) := c.takeCount idx
  let run ← okOr (fillRun fills c.cursor count)
    (.Execution "fill correlation ran past the produced fills")
  return (orderId, run, ⟨c.cursor + count, groups, c.submitOrdinal + 1⟩)

/-- The command walk's state. -/
structure Walk where
  engine : EngineState
  stepTrade : Option TradeId
  cursor : Cursor

/-- One command: a cancel drops its registry entry, a replace also routes its replacement like
a submit. -/
def Walk.command (fills : List Fill) (submitIds : List OrderId) (reasons : CloseReasons)
    (snapshot : ChainSnapshot) (w : Walk) (entry : OrderCommand × Nat) : Outcome Walk := do
  let engine := w.engine.withdrawTarget entry.1
  match entry.1.intent? with
  | none => return { w with engine }
  | some intent =>
    let (orderId, run, cursor) ← w.cursor.next fills submitIds entry.2
    let (engine, stepTrade) ← engine.applySubmit w.stepTrade entry.2 orderId intent run reasons
      snapshot
    return ⟨engine, stepTrade, cursor⟩

/-- One group of the carried prefix. -/
def carryStep (fills : List Fill) (snapshot : ChainSnapshot) (acc : EngineState × Nat)
    (group : CarryGroup) : Outcome (EngineState × Nat) := do
  let count := group.fillCount.value.toNat
  let run ← okOr (fillRun fills acc.2 count)
    (.Execution "carry correlation ran past the produced fills")
  let engine ← acc.1.applyCarryGroup group.orderId run snapshot
  return (engine, acc.2 + count)

/-- A cancel or replace must name an order of the step-start registry. -/
def prevalidate (pending : Std.TreeMap OrderId PendingEntry) (cmd : OrderCommand) :
    Outcome Unit :=
  match cmd.target? with
  | none => .ok ()
  | some orderId => require (pending.contains orderId) (.Execution
      s!"cancel/replace targets order {orderId.value} which is not pending")

/-- The fills the commands account for: one per `Submit`, or the sum of the groups. -/
def commandFills (cmds : List OrderCommand) : Option (List FillGroup) → Nat
  | none => (cmds.filter fun cmd => cmd.intent?.isSome && cmd.target?.isNone).length
  | some groups => (groups.map fun g => g.fillCount.value.toNat).sum

def carryTotal (carry : List CarryGroup) : Nat := (carry.map fun g => g.fillCount.value.toNat).sum

/-- The correlation mode must account for exactly the produced fills. -/
def coverage (cmds : List OrderCommand) (fills : List Fill) (groups : Option (List FillGroup))
    (carry : List CarryGroup) : Outcome Unit := do
  require (groups.isNone → carry = []) (.Execution
    "carry fills require the grouped correlation mode")
  let expected := carryTotal carry + commandFills cmds groups
  require (expected = fills.length) (.Execution
    ("execution fills are not fully correlated to submitted orders " ++
      s!"({fills.length} fills, {expected} expected from the order grouping; a surplus is an " ++
      "uncorrelated refresh fill and a shortfall is a submit that did not fill)"))

/-- `apply_step_fills`. -/
def applyStepFills (cmds : List OrderCommand) (fills : List Fill)
    (groups : Option (List FillGroup)) (carry : List CarryGroup) (submitIds : List OrderId)
    (snapshot : ChainSnapshot) (reasons : CloseReasons) (st : EngineState) :
    Outcome EngineState := do
  cmds.forM (prevalidate st.pending)
  coverage cmds fills groups carry
  let (st, cursor) ← carry.foldlM (carryStep fills snapshot) (st, 0)
  let w ← cmds.zipIdx.foldlM (Walk.command fills submitIds reasons snapshot)
    ⟨st, none, ⟨cursor, groups, 0⟩⟩
  require (w.cursor.cursor = fills.length ∧ w.cursor.groups.getD [] = [])
    (.Execution "execution fills were not fully correlated to submitted orders")
  return w.engine

end IronCondor
