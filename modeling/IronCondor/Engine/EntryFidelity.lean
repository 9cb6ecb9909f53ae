import IronCondor.Engine.ShippedStrategies
import IronCondor.Lib.Failure
import IronCondor.Lib.Pointwise
import IronCondor.RunBacktest

/-! # Entry opens the contracts of the specification

A leg set opens the contracts it names or fails. A named kind takes the only quote of a leg's
strike and style for the leg, so it opens another contract exactly when that quote is of another
expiration, or the chain is of another underlying. -/
namespace IronCondor

open Checked ExceptRun

section Legs

/-- A leg as a specification names it. -/
structure NamedLeg where
  side : Side
  style : OptionStyle
  strike : PriceCents
  expiration : ExpirationDate
  quantity : Quantity
deriving DecidableEq

def IronCondorSpec.legs (spec : IronCondorSpec) : List NamedLeg :=
  [⟨.Short, .Call, spec.shortCallStrike, spec.expiration, spec.quantity⟩,
    ⟨.Short, .Put, spec.shortPutStrike, spec.expiration, spec.quantity⟩,
    ⟨.Long, .Call, spec.longCallStrike, spec.expiration, spec.quantity⟩,
    ⟨.Long, .Put, spec.longPutStrike, spec.expiration, spec.quantity⟩]

def ShortStrangleSpec.legs (spec : ShortStrangleSpec) : List NamedLeg :=
  [⟨.Short, .Call, spec.callStrike, spec.expiration, spec.quantity⟩,
    ⟨.Short, .Put, spec.putStrike, spec.expiration, spec.quantity⟩]

/-- A leg of an explicit set, without its analytics. -/
def LegSpec.named (leg : LegSpec) : NamedLeg where
  side := leg.side
  style := leg.style
  strike := leg.strike
  expiration := leg.expiration
  quantity := leg.quantity

namespace StrategySpec

def legs : StrategySpec → List NamedLeg
  | .IronCondor spec => spec.legs
  | .ShortStrangle spec => spec.legs
  | .Legs spec => spec.legs.map LegSpec.named

def underlying : StrategySpec → Underlying
  | .IronCondor spec => spec.underlying
  | .ShortStrangle spec => spec.underlying
  | .Legs spec => spec.underlying

end StrategySpec

end Legs

section Conversions

variable [DecimalArith]

end Conversions

section Quotes

variable {snapshot : ChainSnapshot} {strike : PriceCents} {style : OptionStyle}
  {expiration : ExpirationDate} {quote : QuoteView}

/-- Contracts that compare equal are one contract, once the expiry is an instant. -/
theorem ContractKey.eq_of_compare {a b : ContractKey} {instant : Instant}
    (h : compare a b = .eq) (hb : b.expiration = .DateTime instant) : a = b := by
  obtain ⟨underlying, expiration, strike, style⟩ := a
  obtain ⟨underlying', expiration', strike', style'⟩ := b
  change ContractKey.cmp _ _ = .eq at h
  simp only [ContractKey.cmp, Ordering.then_eq_eq, Std.compare_eq_iff_eq] at h
  obtain ⟨rfl, hexp, rfl, rfl⟩ := h
  obtain rfl : expiration' = .DateTime instant := hb
  cases expiration with
  | Days days => cases hexp
  | DateTime t => rw [Std.compare_eq_iff_eq.1 hexp]

end Quotes

section Entry

variable {S : Type} [PositionableStrategy S] {snapshot : ChainSnapshot} {exit : ExitPolicy}
  {spec : StrategySpec} {cmds : List OrderCommand}

variable [DecimalArith]

omit [DecimalArith] in
/-- A built leg set has the legs of its specification, sorted. -/
theorem LegSetStrategy.new_eq_ok {spec : LegSetSpec} {s : LegSetStrategy}
    (h : LegSetStrategy.new spec exit = .ok s) :
    s.legs.Perm spec.legs ∧ s.underlying = spec.underlying ∧ s.entered = false := by
  simp only [LegSetStrategy.new, bind_ok_iff, pure_ok_iff] at h
  obtain ⟨_, -, _, -, _, -, rfl⟩ := h
  exact ⟨List.mergeSort_perm _ _, rfl, rfl⟩

/-- A leg is opened on the quote of its own resolved contract. -/
def SubmitsLeg (snapshot : ChainSnapshot) (cmd : OrderCommand) (leg : LegSpec) : Prop :=
  ∃ quote, selectLegSetQuote snapshot leg = .ok quote ∧
    cmd = openCommand quote leg.side leg.quantity

/-- A leg set enters once, with one order a leg, in the order it keeps its legs. -/
theorem LegSetStrategy.openEntries_submits {s s' : LegSetStrategy} {out : List OrderCommand}
    (hentered : s.entered = false) (h : s.openEntries snapshot out = .ok (s', cmds)) :
    snapshot.underlying = s.underlying ∧ s'.entered = true ∧
      ∃ mine, cmds = out ++ mine ∧ List.Forall₂ (SubmitsLeg snapshot) mine s.legs := by
  simp only [openEntries, hentered, Bool.false_eq_true, if_false, bind_ok_iff, require_eq_ok,
    pure_ok_iff, Prod.mk.injEq] at h
  obtain ⟨_, hunderlying, out', hfold, rfl, rfl⟩ := h
  have hstep : ∀ out leg t, openEntry snapshot out leg = .ok t ↔
      ∃ cmd, t = out ++ [cmd] ∧ SubmitsLeg snapshot cmd leg := by
    intro out leg t
    simp only [openEntry, bind_ok_iff, pure_ok_iff, SubmitsLeg]
    constructor
    · rintro ⟨quote, hquote, rfl⟩
      exact ⟨_, rfl, quote, hquote, rfl⟩
    · rintro ⟨_, rfl, quote, hquote, rfl⟩
      exact ⟨quote, hquote, rfl⟩
  exact ⟨hunderlying, rfl, (Pointwise.foldlM_appends_iff hstep).1 hfold⟩

end Entry

section Shipped

variable {S : Type} [PositionableStrategy S] [UpstreamConstructors S] {spec : StrategySpec}
  {exit : ExitPolicy}

/-- The strategy a specification is run with. -/
def buildStrategy (S : Type) [UpstreamConstructors S] (spec : StrategySpec) (exit : ExitPolicy) :
    Outcome (ShippedStrategy S) :=
  match spec with
  | .IronCondor _ => do
    let a ← OptStratAdapter.ironCondorFromSpec spec exit
    return .adapter a
  | .ShortStrangle _ => do
    let a ← OptStratAdapter.shortStrangleFromSpec spec exit
    return .adapter a
  | .Legs _ => do
    let s ← LegSetStrategy.fromSpec spec exit
    return .legSet s

instance : StrategyFactory (ShippedStrategy S) ExitPolicy where
  ironCondorFromSpec spec exit := do
    let a ← OptStratAdapter.ironCondorFromSpec spec exit
    return .adapter a
  shortStrangleFromSpec spec exit := do
    let a ← OptStratAdapter.shortStrangleFromSpec spec exit
    return .adapter a
  legSetFromSpec spec exit := do
    let s ← LegSetStrategy.fromSpec spec exit
    return .legSet s

/-- A specification is run by building its strategy and running that. -/
theorem runSpecWithFeed_eq_build {M B : Type} [DecimalArith] [DecimalSums] [ExitChecks]
    [SummaryMetrics M] [OrderBook.Book B ObOrderId] (config : BacktestConfig) (feed : Feed)
    (spec : StrategySpec) (exit : ExitPolicy) :
    (runSpecWithFeed (ShippedStrategy S) B config feed spec exit : Outcome (PopulatedRun M)) =
      buildStrategy S spec exit >>= fun s => runWithFeed B config feed s spec.kind := by
  cases spec <;> rfl

variable [arith : DecimalArith] {snapshot : ChainSnapshot}

end Shipped

section Weekly

open SmallMarket

end Weekly

end IronCondor
