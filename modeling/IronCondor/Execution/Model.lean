import IronCondor.Config

/-! # The command-to-fill seam

Both fill models emit the identical `Fill` shape through `assembleFill`, and name which fills
belong to which order through the two correlation channels. -/
namespace IronCondor

open Checked

/-- One contiguous run of fills produced by the command at `commandIndex`. -/
structure FillGroup where
  commandIndex : Nat
  fillCount : Bounded u32
deriving DecidableEq

/-- One contiguous run of refresh fills of a prior-step resting order. -/
structure CarryGroup where
  orderId : OrderId
  fillCount : Bounded u32
deriving DecidableEq

/-- A fill model: `fill` returns the fills it appends, and the channels describe the most
recent call. `fillGroups = none` is the one-fill-per-`Submit` contract. -/
class ExecutionModel (X : Type) where
  fill : X → List OrderCommand → List OrderId → ChainSnapshot → Outcome (X × List Fill)
  fillGroups : X → Option (List FillGroup)
  carryFills : X → List CarryGroup
  mode : X → ExecutionMode

/-- A fill model that writes the step of the snapshot it executed against into its fills. -/
def StampsSteps (X : Type) [ExecutionModel X] : Prop :=
  ∀ (m m' : X) cmds submitIds snapshot fills,
    ExecutionModel.fill m cmds submitIds snapshot = .ok (m', fills) →
      ∀ fill ∈ fills, fill.step = snapshot.step

/-- Whether a fill is its order's first, which carries the once-per-order fee. -/
inductive FeeCharge where
  | FirstFill
  | LaterFill
deriving DecidableEq

structure FillDraft where
  ts : SimTime
  step : StepIndex
  contract : ContractKey
  side : Side
  quantity : Quantity
  price : PriceCents
  decisionMid : PriceCents

def feeForFill (schedule : FeeSchedule) (quantity : Quantity) (charge : FeeCharge) :
    Outcome Cents := do
  let perContractTotal ← checked u64 (schedule.perContractCents.value * quantity.value)
  let total ← match charge with
    | .FirstFill => checked u64 (perContractTotal.value + schedule.perOrderCents.value)
    | .LaterFill => .ok perContractTotal
  checked i64 total.value

/-- The single place where a fill is built. -/
def assembleFill (draft : FillDraft) (mode : ExecutionMode) (feeSchedule : FeeSchedule)
    (charge : FeeCharge) : Outcome Fill := do
  let slippage ← slippageCents draft.price draft.decisionMid draft.quantity draft.side
  let fees ← feeForFill feeSchedule draft.quantity charge
  return {
    ts := draft.ts
    step := draft.step
    contract := draft.contract
    side := draft.side
    quantity := draft.quantity
    price := draft.price
    fees
    slippage
    mode }

/-- An assembled fill shows the draft's facts and the two computed frictions. -/
theorem assembleFill_eq_ok {draft : FillDraft} {mode : ExecutionMode} {schedule : FeeSchedule}
    {charge : FeeCharge} {f : Fill} (h : assembleFill draft mode schedule charge = .ok f) :
    ∃ fees slippage, feeForFill schedule draft.quantity charge = .ok fees ∧
      slippageCents draft.price draft.decisionMid draft.quantity draft.side = .ok slippage ∧
      f = ⟨draft.ts, draft.step, draft.contract, draft.side, draft.quantity, draft.price, fees,
        slippage, mode⟩ := by
  simp only [assembleFill, bind_ok_iff, pure_ok_iff] at h
  obtain ⟨slippage, hs, fees, hf, rfl⟩ := h
  exact ⟨fees, slippage, hf, hs, rfl⟩

end IronCondor
