import IronCondor.Domain.Market
import IronCondor.Lib.Fold

/-! # Execution records

Order intents, commands, fills and the sign convention. Both fill models emit the same
`Fill` shape. -/
namespace IronCondor

open Checked ExceptRun

inductive ExecutionMode where
  | Naive
  | Realistic
deriving DecidableEq, Repr

inductive IdKind where
  | position
  | order
  | trade

/-- A lifecycle identity, minted by the engine from a counter of its kind. -/
@[ext] structure Id (kind : IdKind) where
  raw : Bounded u64
deriving DecidableEq

abbrev PositionId := Id .position
abbrev OrderId := Id .order
abbrev TradeId := Id .trade

namespace Id

variable {kind : IdKind}

abbrev value (id : Id kind) : Int := id.raw.value

instance : Ord (Id kind) := ⟨compareOn raw⟩

instance : Std.TransOrd (Id kind) := inferInstanceAs (Std.TransCmp (compareOn raw))

instance : Std.LawfulEqOrd (Id kind) where
  eq_of_compare h := Id.ext (Std.compare_eq_iff_eq.1 h)

theorem value_injective : Function.Injective (value : Id kind → Int) :=
  fun _ _ h => Id.ext (Bounded.ext h)

end Id

/-- The upstream trade direction. -/
inductive Side where
  | Long
  | Short
deriving DecidableEq, Repr

/-- Whether an intent opens fresh exposure or closes an existing leg. -/
inductive PositionAction where
  | Open
  | Close (position : PositionId)
deriving DecidableEq

inductive TimeInForce where
  | Ioc
  | Gtc
deriving DecidableEq, Repr

/-- One order the strategy wants executed; no limit means marketable. -/
structure OrderIntent where
  contract : ContractKey
  action : PositionAction
  side : Side
  quantity : Quantity
  limit : Option PriceCents
  tif : TimeInForce
  decisionMid : PriceCents
deriving DecidableEq

/-- `OrderIntent::validate`: a market order cannot rest in the book. -/
def OrderIntent.validate (intent : OrderIntent) : Outcome Unit :=
  if intent.limit.isNone ∧ intent.tif = .Gtc then
    .error (.Execution ("marketable order intent (limit = None) must be IOC, not GTC; " ++
      "a market order cannot rest in the book"))
  else .ok ()

theorem OrderIntent.validate_eq_ok {intent : OrderIntent} :
    intent.validate = .ok () ↔ (intent.limit = none → intent.tif = .Ioc) := by
  unfold validate
  rcases hlimit : intent.limit with _ | limit <;> rcases htif : intent.tif <;> simp

/-- `OrderIntent::new`, through which decoding goes as well. The fields are public, so an intent can
be built without it. -/
def OrderIntent.new (contract : ContractKey) (action : PositionAction) (side : Side)
    (quantity : Quantity) (limit : Option PriceCents) (tif : TimeInForce)
    (decisionMid : PriceCents) : Outcome OrderIntent := do
  let intent : OrderIntent := { contract, action, side, quantity, limit, tif, decisionMid }
  intent.validate
  return intent

/-- The constructor builds validated intents, and every validated intent. -/
theorem OrderIntent.new_eq_ok {contract : ContractKey} {action : PositionAction} {side : Side}
    {quantity : Quantity} {limit : Option PriceCents} {tif : TimeInForce}
    {decisionMid : PriceCents} {intent : OrderIntent} :
    OrderIntent.new contract action side quantity limit tif decisionMid = .ok intent ↔
      intent = { contract, action, side, quantity, limit, tif, decisionMid } ∧
        intent.validate = .ok () := by
  simp only [new, bind_ok_iff, pure_ok_iff]
  constructor
  · rintro ⟨_, hvalid, rfl⟩
    exact ⟨rfl, hvalid⟩
  · rintro ⟨rfl, hvalid⟩
    exact ⟨(), hvalid, rfl⟩

/-- The strategy's per-step output. -/
inductive OrderCommand where
  | Submit (intent : OrderIntent)
  | Cancel (orderId : OrderId)
  | Replace (orderId : OrderId) (replacement : OrderIntent)
deriving DecidableEq

namespace OrderCommand

/-- The intent a command submits: its own, or its replacement. -/
def intent? : OrderCommand → Option OrderIntent
  | Submit intent => some intent
  | Cancel _ => none
  | Replace _ replacement => some replacement

/-- The resting order a command withdraws. -/
def target? : OrderCommand → Option OrderId
  | Submit _ => none
  | Cancel orderId => some orderId
  | Replace orderId _ => some orderId

end OrderCommand

/-- A currently open strategy leg. -/
structure OpenPosition where
  positionId : PositionId
  contract : ContractKey
  side : Side
  quantity : Quantity
  entryPremium : PriceCents
deriving DecidableEq

/-- A resting strategy order the engine still holds. -/
structure PendingOrder where
  orderId : OrderId
  intent : OrderIntent
deriving DecidableEq

/-- One execution record. -/
structure Fill where
  ts : SimTime
  step : StepIndex
  contract : ContractKey
  side : Side
  quantity : Quantity
  price : PriceCents
  fees : Cents
  slippage : Cents
  mode : ExecutionMode
deriving DecidableEq

section SignConvention

/-- `+1` for a buy, `-1` for a sell. -/
def sideSign : Side → Int
  | .Long => 1
  | .Short => -1

/-- The direction that flattens a leg. -/
def Side.opposite : Side → Side
  | .Long => .Short
  | .Short => .Long

@[simp] theorem sideSign_opposite (side : Side) : sideSign side.opposite = -sideSign side := by
  cases side <;> rfl

theorem sideSign_mul_self (side : Side) : sideSign side * sideSign side = 1 := by
  cases side <;> rfl

/-- Signed slippage `(price - decision_mid) * quantity * side_sign`. -/
def slippageCents (price decisionMid : PriceCents) (quantity : Quantity) (side : Side) :
    Outcome Cents := do
  let product ← checked i128 ((price.value - decisionMid.value) * quantity.value)
  let product ← checked i128 (product.value * sideSign side)
  checked i64 product.value

theorem slippageCents_eq_ok {price decisionMid : PriceCents} {quantity : Quantity} {side : Side}
    {c : Cents} (h : slippageCents price decisionMid quantity side = .ok c) :
    c.value = (price.value - decisionMid.value) * quantity.value * sideSign side := by
  simp only [slippageCents, bind_ok_iff, narrow_eq_ok] at h
  obtain ⟨p, hp, q, hq, hc⟩ := h
  rw [hc, hq, hp]

/-- The single place where slippage flips sign: `spread_capture = -Σ slippage`. -/
def spreadCaptureCents (slippages : List Cents) : Outcome Cents := do
  let total ← slippages.foldlM Cents.checkedAdd Cents.zero
  checked i64 (-total.value)

theorem spreadCaptureCents_eq_ok {slippages : List Cents} {c : Cents}
    (h : spreadCaptureCents slippages = .ok c) :
    c.value = -(slippages.map Bounded.value).sum := by
  simp only [spreadCaptureCents, bind_ok_iff, narrow_eq_ok] at h
  obtain ⟨total, ht, hc⟩ := h
  have hsum := foldlM_sum Bounded.value Bounded.value
    (fun s a t ht => by simpa [Cents.checkedAdd] using ht) ht
  rw [hc, hsum, Cents.zero_value, zero_add]

end SignConvention

end IronCondor
