import IronCondor.Execution.Model

/-! # The naive fill model

Every `Submit` fills in full at the mid moved by the configured adverse slippage; there is no
book, so nothing ever rests. -/
namespace IronCondor

open Checked ExceptRun

variable [DecimalArith]

structure NaiveFill where
  slippage : SlippageModel
  fees : FeeSchedule

/-- `round(half_spread * fraction)` with midpoints to even. -/
def spreadFractionOffsetCents (bid ask : PriceCents) (fraction : Decimal) :
    Outcome (Bounded u64) := do
  let spread ← narrow u64 (.CrossedQuote bid.value ask.value) (ask.value - bid.value)
  let product ← okOr (DecimalArith.checkedMul (.ofInt spread.value) fraction) .ArithmeticOverflow
  let half ← okOr (DecimalArith.checkedDiv product (.ofInt 2)) .ArithmeticOverflow
  let scaled := half.roundHalfEven
  narrow u64 (.Execution
    s!"naive spread-fraction slippage {scaled} out of range for u64 cents") scaled

/-- The reference moved against the taker, floored at zero for a sell. -/
def naiveFillPrice (reference : PriceCents) (side : Side) (offset : Bounded u64) :
    Outcome PriceCents :=
  let signed := match side with
    | .Long => reference.value + offset.value
    | .Short => reference.value - offset.value
  checked u64 (max signed 0)

namespace NaiveFill

def adverseOffsetCents (m : NaiveFill) (quote : QuoteView) (quantity : Quantity) :
    Outcome (Bounded u64) :=
  match m.slippage with
  | .None => .ok ⟨0, u64.contains_zero⟩
  | .FixedCents cents => .ok cents
  | .SpreadFraction fraction => spreadFractionOffsetCents quote.bid quote.ask fraction
  | .SizeProportional centsPerContract => checked u64 (centsPerContract.value * quantity.value)

def fillIntent (m : NaiveFill) (intent : OrderIntent) (snap : ChainSnapshot) : Outcome Fill := do
  let quote ← okOr snap.quotes[intent.contract]? (.Execution
    (s!"naive fill: contract with strike {intent.contract.strike.value} not quoted in snapshot " ++
      s!"at step {snap.step.value}"))
  let offset ← m.adverseOffsetCents quote intent.quantity
  let price ← naiveFillPrice quote.mid intent.side offset
  assembleFill
    { ts := snap.ts
      step := snap.step
      contract := intent.contract
      side := intent.side
      quantity := intent.quantity
      price
      decisionMid := intent.decisionMid } .Naive m.fees .FirstFill

/-- One fill per `Submit`; cancels and replaces append nothing. -/
def fillCommand (m : NaiveFill) (snap : ChainSnapshot) (out : List Fill) :
    OrderCommand → Outcome (List Fill)
  | .Submit intent => do
    let f ← m.fillIntent intent snap
    return out ++ [f]
  | .Cancel _ => .ok out
  | .Replace _ _ => .ok out

instance : ExecutionModel NaiveFill where
  fill m commands _ snap := do
    let fills ← commands.foldlM (m.fillCommand snap) []
    return (m, fills)
  fillGroups _ := none
  carryFills _ := []
  mode _ := .Naive

theorem fillIntent_eq_ok {m : NaiveFill} {intent : OrderIntent} {snap : ChainSnapshot} {f : Fill}
    (h : m.fillIntent intent snap = .ok f) :
    f.step = snap.step ∧ f.ts = snap.ts ∧ f.contract = intent.contract ∧ f.side = intent.side ∧
      f.quantity = intent.quantity := by
  simp only [fillIntent, bind_ok_iff] at h
  obtain ⟨quote, -, offset, -, price, -, hfill⟩ := h
  obtain ⟨fees, slippage, -, -, rfl⟩ := assembleFill_eq_ok hfill
  exact ⟨rfl, rfl, rfl, rfl, rfl⟩

/-- The one fill of an intent is its first. -/
theorem fillIntent_fees {m : NaiveFill} {intent : OrderIntent} {snap : ChainSnapshot} {f : Fill}
    (h : m.fillIntent intent snap = .ok f) :
    feeForFill m.fees f.quantity .FirstFill = .ok f.fees := by
  simp only [fillIntent, bind_ok_iff] at h
  obtain ⟨quote, -, offset, -, price, -, hfill⟩ := h
  obtain ⟨fees, slippage, hfees, -, rfl⟩ := assembleFill_eq_ok hfill
  exact hfees

theorem stampsSteps : StampsSteps NaiveFill := by
  intro m m' cmds submitIds snapshot fills h
  obtain ⟨out, hfold, h⟩ := bind_ok_iff.1 h
  cases h
  refine foldlM_invariant (fun out => ∀ fill ∈ out, fill.step = snapshot.step) ?_
    (List.forall_mem_nil _) hfold
  intro out cmd out' hout hcmd
  cases cmd with
  | Submit intent =>
    simp only [fillCommand, bind_ok_iff, pure_ok_iff] at hcmd
    obtain ⟨f, hf, rfl⟩ := hcmd
    exact List.forall_mem_append.2 ⟨hout, List.forall_mem_singleton.2 (fillIntent_eq_ok hf).1⟩
  | Cancel orderId =>
    cases hcmd
    exact hout
  | Replace orderId replacement =>
    cases hcmd
    exact hout

end NaiveFill

end IronCondor
