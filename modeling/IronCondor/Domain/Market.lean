import IronCondor.Domain.Contract

/-! # Market data

One `ChainSnapshot` per step is the engine's unit of market data. -/
namespace IronCondor

open Checked

/-- A market timestamp: nanoseconds since the Unix epoch. -/
abbrev SimTime := Bounded i64

/-- The 0-based ordinal of a snapshot in the run. -/
abbrev StepIndex := Bounded u32

/-- The price grid and the contract size of an instrument, both strictly positive. -/
structure InstrumentSpec where
  tickSizeCents : PriceCents
  contractMultiplier : Bounded u32
  tickSizeCents_pos : 0 < tickSizeCents.value
  contractMultiplier_pos : 0 < contractMultiplier.value
deriving DecidableEq

/-- `InstrumentSpec::new`. -/
def InstrumentSpec.new (tickSizeCents : PriceCents) (contractMultiplier : Bounded u32) :
    Outcome InstrumentSpec :=
  if ht : 0 < tickSizeCents.value then
    if hm : 0 < contractMultiplier.value then
      .ok ⟨tickSizeCents, contractMultiplier, ht, hm⟩
    else .error (.Conversion "instrument contract_multiplier must be > 0, got 0")
  else .error (.Conversion "instrument tick_size_cents must be > 0, got 0")

theorem InstrumentSpec.new_eq_ok {tickSizeCents : PriceCents} {contractMultiplier : Bounded u32}
    {spec : InstrumentSpec} : InstrumentSpec.new tickSizeCents contractMultiplier = .ok spec ↔
      spec.tickSizeCents = tickSizeCents ∧ spec.contractMultiplier = contractMultiplier := by
  obtain ⟨tick, multiplier, htick, hmultiplier⟩ := spec
  unfold InstrumentSpec.new
  split_ifs with ht hm
  · rw [Except.ok.injEq, InstrumentSpec.mk.injEq, eq_comm, @eq_comm _ multiplier]
  · refine iff_of_false nofun ?_
    rintro ⟨-, rfl⟩
    exact hm hmultiplier
  · refine iff_of_false nofun ?_
    rintro ⟨rfl, -⟩
    exact ht htick

/-- The quoted state of one contract inside a snapshot. -/
structure QuoteView where
  contract : ContractKey
  bid : PriceCents
  ask : PriceCents
  mid : PriceCents
  bidSize : Quantity
  askSize : Quantity
  impliedVolatility : Decimal
  delta : Decimal
  gamma : Decimal
  theta : Decimal
  vega : Decimal

/-- The engine's unit of market data. -/
structure ChainSnapshot where
  ts : SimTime
  step : StepIndex
  underlying : Underlying
  underlyingPrice : PriceCents
  spec : InstrumentSpec
  quotes : Std.TreeMap ContractKey QuoteView

/-- The snapshot quotes the contract. -/
def ChainSnapshot.Quotes (snap : ChainSnapshot) (contract : ContractKey) : Prop :=
  (snap.quotes[contract]?).isSome = true

end IronCondor
