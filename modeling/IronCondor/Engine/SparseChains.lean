import IronCondor.Engine.HoldToClose

/-! # Legs missing from the chain

The ledger carries the mark of an open leg that a chain does not quote, up to its expiry, and the
policy is evaluated on the carried mark. Only the naive model refuses such a leg: a run fails on it
exactly when it asks for the leg to be closed at that very step. -/
namespace IronCondor

open Checked ExceptRun

section Gaps

variable {S : Type} [PositionableStrategy S] [DecimalArith] [ExitChecks]
  {r : Setup (ShippedStrategy S) NaiveFill} {n : Nat} {log : List (Batch NaiveFill)}
  {s : RunState (ShippedStrategy S) NaiveFill Unit} {snapshot : ChainSnapshot} {isLast : Bool}

/-- A leg that the chain does not quote, before its expiry. -/
structure Missing (snapshot : ChainSnapshot) (leg : OpenPosition) : Prop where
  absent : ¬ snapshot.Quotes leg.contract
  early : ∃ expiry, leg.contract.expirationNs = .ok expiry ∧ snapshot.ts.value < expiry.value

omit [DecimalArith] [ExitChecks] in
/-- The ledger carries the mark of a missing leg, whatever it was. -/
theorem Missing.carried {leg : OpenPosition} (h : Missing snapshot leg) (l : Ledger) :
    l.resolveMark leg snapshot = .ok (l, l.marks[leg.contract]?.getD leg.entryPremium, true) := by
  obtain ⟨expiry, hexpiry, hlt⟩ := h.early
  have habsent : snapshot.quotes[leg.contract]? = none := by
    simpa [ChainSnapshot.Quotes] using h.absent
  simp only [Ledger.resolveMark, habsent, hexpiry, ok_bind]
  rw [require, if_pos hlt]
  rfl

namespace RunState

/-- No leg that the chain does not quote is to be closed: the policy does not trigger on its
carried mark, and the step is not the final one. -/
def KeepsMissing (s : RunState (ShippedStrategy S) NaiveFill Unit) (snapshot : ChainSnapshot)
    (isLast : Bool) : Prop :=
  ∀ leg ∈ s.engine.inventory, ¬ snapshot.Quotes leg.contract →
    triggers s.strategy.exit snapshot s.engine.ledger.marks leg = false ∧ isLast = false

/-- The step fails on a leg that the chain does not quote: the naive model refuses an order, which
it does for an absent quote only, or the ledger refuses the leg's mark. -/
def FailsOnGap (s : RunState (ShippedStrategy S) NaiveFill Unit) (snapshot : ChainSnapshot)
    (isLast : Bool) : Prop :=
  ∃ e, s.step snapshot isLast = .error e ∧
    (¬ Tolerated e ∨ ∃ leg ∈ s.engine.inventory, ¬ snapshot.Quotes leg.contract ∧
      ∃ (l : Ledger) (e : BacktestError), l.resolveMark leg snapshot = .error e)

end RunState

omit [PositionableStrategy S] in
theorem keepsMissing_iff (hnodup : (legIds s.engine.inventory).Nodup) :
    s.KeepsMissing snapshot isLast ↔
      ∀ leg ∈ s.closingLegs snapshot isLast, snapshot.Quotes leg.contract := by
  constructor
  · intro h leg hleg
    obtain ⟨hin, hdue⟩ := (mem_closing hnodup).1 hleg
    by_contra habsent
    obtain ⟨hkept, hmore⟩ := h leg hin habsent
    simp [hkept, hmore] at hdue
  · intro h leg hin habsent
    have hnot : leg ∉ s.closingLegs snapshot isLast := fun hleg => habsent (h leg hleg)
    rw [RunState.closingLegs, mem_closing hnodup] at hnot
    simpa [hin, not_or] using hnot

namespace Setup

/-- A state that the run reaches, with the snapshot of its next step. -/
def Reaches (r : Setup (ShippedStrategy S) NaiveFill)
    (s : RunState (ShippedStrategy S) NaiveFill Unit) (snapshot : ChainSnapshot) : Prop :=
  ∃ n log, r.play n = .ok (log, s) ∧ r.feed.tape[n]? = some snapshot

/-- A leg is missing from a chain only before its expiry. -/
def GapsEarly (r : Setup (ShippedStrategy S) NaiveFill) : Prop :=
  ∀ s snapshot, r.Reaches s snapshot → ∀ leg ∈ s.engine.inventory,
    ¬ snapshot.Quotes leg.contract → Missing snapshot leg

end Setup

/-- A run whose legs are missing before their expiry only: unless one of them is to be closed at a
step that misses it, no step fails on it; and if one is, the run fails. -/
theorem sparse_chains (config : BacktestConfig) (feed : MaterialisedFeed)
    (strategy : ShippedStrategy S) (strategyName : String)
    (hearly : (Setup.naive config feed strategy).GapsEarly) :
    let r := Setup.naive config feed strategy
    ((∀ s snapshot, r.Reaches s snapshot → s.KeepsMissing snapshot (r.isLast snapshot)) →
        ∀ s snapshot, r.Reaches s snapshot → ¬ s.FailsOnGap snapshot (r.isLast snapshot)) ∧
      ((∃ s snapshot, r.Reaches s snapshot ∧ ¬ s.KeepsMissing snapshot (r.isLast snapshot)) →
        ∃ e, BacktestEngine.run config feed.toFeed r.execution strategy strategyName =
          .error e) := by
  intro r
  constructor
  · rintro hkeeps s snapshot hreached ⟨e, hstep, hfail⟩
    have hkept := hkeeps s snapshot hreached
    obtain ⟨n, log, hplay, hsnapshot⟩ := id hreached
    obtain ⟨log₀, start, -, -, hheld⟩ := r.play_held hplay
    rcases hfail with hnot | ⟨leg, hleg, habsent, l, e', hmark⟩
    · exact hnot (hheld.holding.step.1
        ((keepsMissing_iff hheld.holding.linked.nodup).1 hkept) e hstep)
    · rw [(hearly s snapshot hreached leg hleg habsent).carried l] at hmark
      cases hmark
  · rintro ⟨s, snapshot, ⟨n, log, hplay, hsnapshot⟩, hnot⟩
    rcases hrun : BacktestEngine.run config feed.toFeed r.execution strategy strategyName with
      e | out
    · exact ⟨e, rfl⟩
    obtain ⟨initial, log', s', -, hwhole, -⟩ := r.play_of_run hrun
    have hlt : n < feed.tape.length := (List.getElem?_eq_some_iff.1 hsnapshot).1
    obtain ⟨log'', s'', hnext⟩ := r.play_before (Nat.succ_le_of_lt hlt) hwhole
    obtain ⟨prior, t, snapshot', b, hprior, hsnapshot', hstep, -⟩ := r.play_succ_step hnext
    cases hprior.symm.trans hplay
    cases hsnapshot'.symm.trans hsnapshot
    obtain ⟨log₀, start, -, -, hheld⟩ := r.play_held hplay
    have hquoted := (hheld.holding.step.2 s'' hstep).quoted
    exact absurd ((keepsMissing_iff hheld.holding.linked.nodup).2 hquoted) hnot

end Gaps

section CallGap

open SmallMarket

/-- The call is not quoted at the second step. -/
def gap : List ChainSnapshot :=
  [firstStep, fiveTick (lit 1) [], fiveTick (lit 2) [quote call (lit 100) (lit 105) (lit 110)]]

def gapFeed : MaterialisedFeed := feed gap (lit 2) rfl

/-- The tape ends with the gap. -/
def gapEndFeed : MaterialisedFeed := feed (gap.take 2) (lit 1) rfl

/-- A long call, held until the given step. -/
def oneCall (steps : Nat) : ShippedStrategy (List Position) :=
  .adapter (.new [callPosition .Long (lot 1)] (.TimeSteps steps))

/-- Entry on the first step opens the call. -/
theorem oneCall_selects {steps : Nat} {quote : QuoteView}
    (h : (oneCall steps).Selects firstStep quote) : quote.contract = call := by
  obtain ⟨legs, leg, strike, hlegs, hleg, hstrike, hquote⟩ := h
  cases hlegs
  cases List.mem_singleton.1 hleg
  have hprice : fromDecimalDollars (toDecimalDollars call.strike) = .ok call.strike := by
    decide +kernel
  cases hprice.symm.trans hstrike
  obtain ⟨found, hfound, hcontract⟩ := exists_ok_of_check
    (r := selectLegQuote firstStep call.strike .Call call.expiration)
    (fun quote => decide (quote.contract = call)) (by decide +kernel)
  cases hfound.symm.trans hquote
  exact of_decide_eq_true hcontract

/-- The call expires long after the last step. -/
theorem oneCall_gapsEarly {feed : MaterialisedFeed} {steps : Nat}
    (hfirst : feed.tape[0]? = some firstStep)
    (hearly : ∀ snapshot ∈ feed.tape, snapshot.ts.value < 1750291200000000000) :
    (Setup.naive (config .Naive) feed (oneCall steps)).GapsEarly := by
  rintro s snapshot ⟨n, log, hplay, hsnapshot⟩ leg hleg habsent
  have hcontract : leg.contract = call := by
    refine Setup.play_contracts (C := (· = call)) (fun first quote hhead hquote => ?_) hplay
      leg hleg
    cases hhead.symm.trans hfirst
    exact oneCall_selects hquote
  refine ⟨habsent, ⟨1750291200000000000, by decide⟩, ?_, ?_⟩
  · rw [hcontract]
    rfl
  · exact hearly snapshot (List.mem_of_getElem? hsnapshot)

/-- The refusal of the call at the second step. -/
def callRefused (out : Outcome BacktestRun) : Bool :=
  match out with
  | .error (.Execution msg) =>
    msg = "naive fill: contract with strike 510000 not quoted in snapshot at step 1"
  | _ => false

/-- A leg missing long before its expiry makes the run fail when an exit triggers on its carried
mark, and when the run ends at that step. -/
theorem missing_call_fails_run :
    (Setup.naive (config .Naive) gapFeed (oneCall 1)).GapsEarly ∧
      callRefused (BacktestEngine.run (config .Naive) gapFeed.toFeed
        (Setup.naive (config .Naive) gapFeed (oneCall 1)).execution (oneCall 1) "call") = true ∧
      (Setup.naive (config .Naive) gapEndFeed (oneCall 9)).GapsEarly ∧
      callRefused (BacktestEngine.run (config .Naive) gapEndFeed.toFeed
        (Setup.naive (config .Naive) gapEndFeed (oneCall 9)).execution (oneCall 9) "call") = true :=
  ⟨oneCall_gapsEarly rfl (by decide), by decide +kernel, oneCall_gapsEarly rfl (by decide),
    by decide +kernel⟩

/-- Held over the gap, the call is closed at the third step. -/
theorem sparse_chains_held : (∃ out, BacktestEngine.run (config .Naive) gapFeed.toFeed
      (Setup.naive (config .Naive) gapFeed (oneCall 2)).execution (oneCall 2) "call" = .ok out) ∧
    ∀ s snapshot, (Setup.naive (config .Naive) gapFeed (oneCall 2)).Reaches s snapshot →
      ¬ s.FailsOnGap snapshot
        ((Setup.naive (config .Naive) gapFeed (oneCall 2)).isLast snapshot) := by
  have hrun : ∃ out, BacktestEngine.run (config .Naive) gapFeed.toFeed
      (Setup.naive (config .Naive) gapFeed (oneCall 2)).execution (oneCall 2) "call" = .ok out :=
    exists_eq_ok (by decide +kernel)
  obtain ⟨hheld, hfails⟩ := sparse_chains (config .Naive) gapFeed (oneCall 2) "call"
    (oneCall_gapsEarly rfl (by decide))
  refine ⟨hrun, hheld fun s snapshot hreached => ?_⟩
  by_contra hnot
  obtain ⟨e, he⟩ := hfails ⟨s, snapshot, hreached, hnot⟩
  obtain ⟨out, hout⟩ := hrun
  cases he.symm.trans hout

end CallGap

end IronCondor
