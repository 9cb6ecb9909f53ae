import IronCondor.Engine.Aggregate
import IronCondor.Engine.BundleCollector

/-! # The engine's books of account

The open-leg inventory, the lifecycle counters, the ledger, the two collectors and the registry
of resting orders: everything the fills of a step update together. -/
namespace IronCondor

open Checked

/-- Monotonic lifecycle counters, each anchored at `1`. -/
structure IdCounters where
  position : Bounded u64
  order : Bounded u64
  trade : Bounded u64

namespace IdCounters

def new : IdCounters := ⟨⟨1, u64.contains_one⟩, ⟨1, u64.contains_one⟩, ⟨1, u64.contains_one⟩⟩

/-- The identity a counter shows, and the advanced counter. -/
def mint {kind : IdKind} (counter : Bounded u64) : Outcome (Bounded u64 × Id kind) := do
  let next ← checked u64 (counter.value + 1)
  return (next, ⟨counter⟩)

def mintPosition (ids : IdCounters) : Outcome (IdCounters × PositionId) := do
  let (position, id) ← mint ids.position
  return ({ ids with position }, id)

def mintOrder (ids : IdCounters) : Outcome (IdCounters × OrderId) := do
  let (order, id) ← mint ids.order
  return ({ ids with order }, id)

def mintTrade (ids : IdCounters) : Outcome (IdCounters × TradeId) := do
  let (trade, id) ← mint ids.trade
  return ({ ids with trade }, id)

end IdCounters

/-- One live resting order with the state a later carried fill continues from. -/
structure PendingEntry where
  pending : PendingOrder
  tradeId : Option TradeId
  positionId : Option PositionId
  fillsSoFar : Bounded u32
  reason : Option ExitReason
deriving DecidableEq

namespace PendingEntry

/-- The size still resting. -/
abbrev remaining (e : PendingEntry) : Quantity := e.pending.intent.quantity

end PendingEntry

structure EngineState where
  inventory : List OpenPosition
  ids : IdCounters
  ledger : Ledger
  tradeLog : TradeLogCollector
  bundle : BundleCollector
  pending : Std.TreeMap OrderId PendingEntry

namespace EngineState

def new (initialCapital : Cents) : EngineState where
  inventory := []
  ids := .new
  ledger := .new initialCapital
  tradeLog := .empty
  bundle := .empty
  pending := ∅

end EngineState

section Inventory

def findLeg (inventory : List OpenPosition) (positionId : PositionId) : Option OpenPosition :=
  inventory.find? fun leg => leg.positionId = positionId

/-- Rewrite the first leg of `positionId` in place. -/
def updateLeg (positionId : PositionId) (f : OpenPosition → OpenPosition) :
    List OpenPosition → List OpenPosition
  | [] => []
  | leg :: legs =>
    if leg.positionId = positionId then f leg :: legs else leg :: updateLeg positionId f legs

def removeLeg (inventory : List OpenPosition) (positionId : PositionId) : List OpenPosition :=
  inventory.eraseP fun leg => leg.positionId = positionId

/-- Reduce or remove the leg a close targets; `true` when the leg is gone. -/
def reduceLeg (inventory : List OpenPosition) (positionId : PositionId) (closeQty : Quantity) :
    Outcome (List OpenPosition × Bool) := do
  let leg ← okOr (findLeg inventory positionId)
    (.Execution s!"close targets position {positionId.value} which is not open")
  require (closeQty.value ≤ leg.quantity.value) (.Execution
    (s!"close quantity {closeQty.value} exceeds open size {leg.quantity.value} for position " ++
      s!"{positionId.value}"))
  if closeQty.value = leg.quantity.value then return (removeLeg inventory positionId, true)
  else
    let quantity ← Quantity.ofInt (leg.quantity.value - closeQty.value)
    return (updateLeg positionId (fun leg => { leg with quantity }) inventory, false)

/-- The checked value of a carried run. -/
def carryNotional (orderFills : List Fill) : Outcome (Bounded u128) :=
  orderFills.foldlM (fun total fill => do
    let legNotional ← checked u128 (fill.price.value * fill.quantity.value)
    checked u128 (total.value + legNotional.value)) ⟨0, u128.contains_zero⟩

/-- Grow an open leg by a carried run and re-average its entry from its stored premium. -/
def extendOpenLeg (inventory : List OpenPosition) (positionId : PositionId)
    (orderFills : List Fill) (agg : FillAggregate) :
    Outcome (List OpenPosition × PriceCents) := do
  let leg ← okOr (findLeg inventory positionId)
    (.Execution s!"carry extension targets position {positionId.value} which is not open")
  let oldNotional ← checked u128 (leg.entryPremium.value * leg.quantity.value)
  let carryNotional ← carryNotional orderFills
  let totalQty ← checked u64 (leg.quantity.value + agg.quantity.value)
  let totalNotional ← checked u128 (oldNotional.value + carryNotional.value)
  let quantity ← Quantity.ofInt totalQty.value
  let entryPremium ← vwapCents totalNotional totalQty
  return (updateLeg positionId (fun leg => { leg with quantity, entryPremium }) inventory,
    entryPremium)

variable {inventory inventory' : List OpenPosition} {positionId : PositionId}

theorem findLeg_some {leg : OpenPosition} (h : findLeg inventory positionId = some leg) :
    leg ∈ inventory ∧ leg.positionId = positionId := by
  unfold findLeg at h
  exact ⟨List.mem_of_find?_eq_some h, by simpa using List.find?_some h⟩

theorem findLeg_isSome {inventory : List OpenPosition} {positionId : PositionId} :
    positionId ∈ inventory.map OpenPosition.positionId ↔
      (findLeg inventory positionId).isSome := by
  simp [findLeg]

/-- Among distinct ids, a leg is found under its own id. -/
theorem findLeg_of_mem {leg : OpenPosition}
    (hdistinct : (inventory.map OpenPosition.positionId).Nodup) (hleg : leg ∈ inventory) :
    findLeg inventory leg.positionId = some leg := by
  obtain ⟨found, hfound⟩ := Option.isSome_iff_exists.1
    (findLeg_isSome.1 (List.mem_map_of_mem (f := OpenPosition.positionId) hleg))
  obtain ⟨hmem, hid⟩ := findLeg_some hfound
  rw [hfound, List.inj_on_of_nodup_map hdistinct hmem hleg hid]

/-- A new leg is found, and hides no other. -/
theorem findLeg_append {leg : OpenPosition}
    (hnew : ∀ other ∈ inventory, other.positionId ≠ leg.positionId) (pid : PositionId) :
    findLeg (inventory ++ [leg]) pid =
      if pid = leg.positionId then some leg else findLeg inventory pid := by
  unfold findLeg
  rw [List.find?_append]
  split_ifs with h
  · subst h
    rw [List.find?_eq_none.2 fun other hother => by simpa using hnew other hother]
    simp
  · simp [Ne.symm h]

theorem updateLeg_ids {f : OpenPosition → OpenPosition} (hf : ∀ leg, (f leg).positionId =
    leg.positionId) : (updateLeg positionId f inventory).map OpenPosition.positionId =
      inventory.map OpenPosition.positionId := by
  induction inventory with
  | nil => rfl
  | cons leg legs ih =>
    unfold updateLeg
    split_ifs
    · simp [hf]
    · simp [ih]

theorem findLeg_updateLeg {f : OpenPosition → OpenPosition} (hf : ∀ leg, (f leg).positionId =
    leg.positionId) (pid : PositionId) :
    findLeg (updateLeg positionId f inventory) pid =
      if pid = positionId then (findLeg inventory positionId).map f else findLeg inventory pid := by
  induction inventory with
  | nil => simp [updateLeg, findLeg]
  | cons leg legs ih =>
    unfold updateLeg
    by_cases hleg : leg.positionId = positionId
    · by_cases hpid : pid = positionId
      · simp [findLeg, hleg, hpid, hf]
      · simp [findLeg, hleg, hf, Ne.symm hpid, hpid]
    · by_cases hpid : pid = positionId
      · simpa [findLeg, hleg, hpid] using ih
      · by_cases hfound : leg.positionId = pid
        · simp [findLeg, hpid, hfound]
        · simpa [findLeg, hleg, hpid, hfound] using ih

/-- Among distinct ids, removing a leg removes exactly that id. -/
theorem findLeg_removeLeg (hdistinct : (inventory.map OpenPosition.positionId).Nodup)
    (pid : PositionId) :
    findLeg (removeLeg inventory positionId) pid =
      if pid = positionId then none else findLeg inventory pid := by
  induction inventory with
  | nil => simp [removeLeg, findLeg]
  | cons leg legs ih =>
    obtain ⟨hnot, hrest⟩ := List.nodup_cons.1 hdistinct
    by_cases hleg : leg.positionId = positionId
    · by_cases hpid : pid = positionId
      · subst hpid hleg
        simpa [removeLeg, findLeg] using hnot
      · simp [removeLeg, findLeg, hleg, hpid, Ne.symm hpid]
    · have ih := ih hrest
      unfold removeLeg findLeg at ih
      by_cases hfound : leg.positionId = pid
      · simp [removeLeg, findLeg, hfound, hfound ▸ hleg]
      · simpa [removeLeg, findLeg, hleg, hfound] using ih

/-- A close reduces exactly its leg, and removes it exactly when nothing is left. -/
theorem reduceLeg_eq_ok {closeQty : Quantity} {full : Bool}
    (h : reduceLeg inventory positionId closeQty = .ok (inventory', full)) :
    ∃ leg, findLeg inventory positionId = some leg ∧ closeQty.value ≤ leg.quantity.value ∧
      ((closeQty.value = leg.quantity.value ∧ full = true ∧
          inventory' = removeLeg inventory positionId) ∨
        ∃ quantity : Quantity, quantity.value = leg.quantity.value - closeQty.value ∧
          full = false ∧
          inventory' = updateLeg positionId (fun leg => { leg with quantity }) inventory) := by
  simp only [reduceLeg, bind_ok_iff, okOr_eq_ok, require_eq_ok] at h
  obtain ⟨leg, hleg, _, hle, h⟩ := h
  refine ⟨leg, hleg, hle, ?_⟩
  split_ifs at h with hfull
  · cases h
    exact .inl ⟨hfull, rfl, rfl⟩
  · simp only [bind_ok_iff, Quantity.ofInt_eq_ok, pure_ok_iff, Prod.mk.injEq] at h
    obtain ⟨quantity, hquantity, rfl, rfl⟩ := h
    exact .inr ⟨quantity, hquantity, rfl, rfl⟩

/-- An extension grows exactly its leg by the carried quantity. -/
theorem extendOpenLeg_eq_ok {orderFills : List Fill} {agg : FillAggregate}
    {entryPremium : PriceCents}
    (h : extendOpenLeg inventory positionId orderFills agg = .ok (inventory', entryPremium)) :
    ∃ leg quantity, findLeg inventory positionId = some leg ∧
      quantity.value = leg.quantity.value + agg.quantity.value ∧
      inventory' = updateLeg positionId (fun leg => { leg with quantity, entryPremium })
        inventory := by
  simp only [extendOpenLeg, bind_ok_iff, okOr_eq_ok, narrow_eq_ok, Quantity.ofInt_eq_ok,
    pure_ok_iff, Prod.mk.injEq] at h
  obtain ⟨leg, hleg, _, -, _, -, total, htotal, _, -, quantity, hquantity, _, -, rfl, rfl⟩ := h
  exact ⟨leg, quantity, hleg, hquantity.trans htotal, rfl⟩

end Inventory

/-- Register a good-till-cancelled remainder as a working order. -/
def registerPending (pending : Std.TreeMap OrderId PendingEntry) (orderId : OrderId)
    (intent : OrderIntent) (remaining : Quantity) (fillsSoFar : Bounded u32)
    (tradeId : Option TradeId) (positionId : Option PositionId) (reason : Option ExitReason) :
    Std.TreeMap OrderId PendingEntry :=
  pending.insert orderId
    { pending := { orderId, intent := { intent with quantity := remaining } }
      tradeId
      positionId
      fillsSoFar
      reason }

end IronCondor
