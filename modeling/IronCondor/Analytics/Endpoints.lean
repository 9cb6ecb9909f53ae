import IronCondor.Analytics.Telescope
import IronCondor.Engine.Openings

/-! # The legs and endpoints of the attribution

The substrate of a step samples the legs held into it. The Greeks are kept per contract and
never cleared; since a leg opens at a step that quotes its contract, the retained ones are never
older than the leg. -/
namespace IronCondor

open Checked ExceptRun Ledger OrderBook

/-- The Greeks of the last of some snapshots that quotes the contract. -/
def lastGreeks (contract : ContractKey) (snapshots : List ChainSnapshot) : Option UnitGreeks :=
  (snapshots.filterMap fun snap => snap.quotes[contract]?.map QuoteView.unitGreeks).getLast?

/-- The samples of step `k` in the flat leg buffer. -/
def legSamples (steps : List StepAttributionScalars) (legs : List LegAttributionSample) (k : Nat) :
    List LegAttributionSample :=
  (legs.drop ((steps.take k).map StepAttributionScalars.legCount).sum).take
    ((steps[k]?.map StepAttributionScalars.legCount).getD 0)

/-- The sample of step `n` of a leg held into it: its size and side, and the Greeks of the last
snapshot since it opened that quoted its contract. -/
structure Holds (tape : List ChainSnapshot) (n : Nat) (fills : List FillRecord)
    (snapshot : ChainSnapshot) (sample : LegAttributionSample) (leg : OpenPosition) : Prop where
  quantity : sample.quantity = leg.quantity
  side : sample.side = leg.side
  multiplier : sample.contractMultiplier = snapshot.spec.contractMultiplier
  prior : ∃ first : Nat, first ≤ n - 1 ∧ OpenedAt tape fills leg first ∧
    sample.priorGreeks = lastGreeks leg.contract (between tape first n)
  known : sample.priorGreeks.isSome = decide (0 < n)
  currentIv : sample.currentIv =
    ((snapshot.quotes[leg.contract]?.map QuoteView.impliedVolatility).or
      (sample.priorGreeks.map UnitGreeks.impliedVolatility)).getD ⟨0, 0⟩

/-- A run retains, for every open leg, the Greeks of the last snapshot since it opened that
quoted its contract. -/
def Retains (tape : List ChainSnapshot) (n : Nat) (st : EngineState) : Prop :=
  ∀ leg ∈ st.inventory, ∃ first : Nat, first ≤ n - 1 ∧ OpenedAt tape st.bundle.fills leg first ∧
    st.ledger.greeks[leg.contract]? = lastGreeks leg.contract (between tape first n)

section Snapshots

variable {contract : ContractKey} {snapshot : ChainSnapshot}

theorem refreshGreeks_getElem (greeks : Std.TreeMap ContractKey UnitGreeks) (leg : OpenPosition) :
    (refreshGreeks snapshot greeks leg)[contract]? =
      if compare leg.contract contract = .eq then
        (snapshot.quotes[contract]?.map QuoteView.unitGreeks).or greeks[contract]?
      else greeks[contract]? := by
  unfold refreshGreeks
  cases hquote : snapshot.quotes[leg.contract]? with
  | none =>
    split_ifs with hc
    · rw [(Std.TreeMap.getElem?_congr hc).symm.trans hquote]
      rfl
    · rfl
  | some quote =>
    simp only [Std.TreeMap.getElem?_insert]
    split_ifs with hc
    · rw [(Std.TreeMap.getElem?_congr hc).symm.trans hquote]
      rfl
    · rfl

/-- The settlement moves the retained Greeks of the contracts it holds and quotes, and no
others. -/
theorem refreshGreeks_foldl (legs : List OpenPosition) (greeks : Std.TreeMap ContractKey UnitGreeks) :
    (legs.foldl (refreshGreeks snapshot) greeks)[contract]? =
      if ∃ leg ∈ legs, compare leg.contract contract = .eq then
        (snapshot.quotes[contract]?.map QuoteView.unitGreeks).or greeks[contract]?
      else greeks[contract]? := by
  induction legs generalizing greeks with
  | nil => simp
  | cons leg legs ih =>
    rw [List.foldl_cons, ih, refreshGreeks_getElem]
    by_cases hhead : compare leg.contract contract = .eq
    · have hheld : ∃ held ∈ leg :: legs, compare held.contract contract = .eq :=
        ⟨leg, List.mem_cons_self, hhead⟩
      rw [if_pos hhead, if_pos hheld]
      split_ifs
      · cases snapshot.quotes[contract]? <;> rfl
      · rfl
    · simp [hhead]

/-- The retained Greeks follow the quotes. -/
theorem greeks_followQuotes :
    FollowsQuotes QuoteView.unitGreeks (fun l contract => l.greeks[contract]?) where
  fresh initial contract := by simp [Ledger.new]
  fills h := by
    funext contract
    rw [(applyFills_eq_ok h).2.2]
  sampled _ _ _ := rfl
  settled h contract := by
    obtain ⟨-, -, -, -, -, -, -, hgreeks⟩ := settle_sampled h
    rw [hgreeks]
    exact refreshGreeks_foldl ..

end Snapshots

section Slices

variable {steps : List StepAttributionScalars} {legs added : List LegAttributionSample}
  {step : StepAttributionScalars} {k : Nat}

/-- The leg counts of the steps cover the flat leg buffer. -/
def Sliced (steps : List StepAttributionScalars) (legs : List LegAttributionSample) : Prop :=
  legs.length = (steps.map StepAttributionScalars.legCount).sum

namespace Sliced

theorem append (h : Sliced steps legs) (hcount : added.length = step.legCount) :
    Sliced (steps ++ [step]) (legs ++ added) := by
  unfold Sliced at h ⊢
  rw [List.length_append, h, hcount]
  simp

/-- A later step leaves the samples of an earlier one alone. -/
theorem legSamples_append (h : Sliced steps legs) (hk : k < steps.length) :
    legSamples (steps ++ [step]) (legs ++ added) k = legSamples steps legs k := by
  have hsplit : (steps.map StepAttributionScalars.legCount).sum =
      ((steps.take k).map StepAttributionScalars.legCount).sum + (steps[k].legCount +
        ((steps.drop (k + 1)).map StepAttributionScalars.legCount).sum) := by
    conv_lhs => rw [← List.take_append_drop k steps, List.drop_eq_getElem_cons hk]
    rw [List.map_append, List.sum_append, List.map_cons, List.sum_cons]
  unfold Sliced at h
  unfold legSamples
  rw [List.take_append_of_le_length hk.le, List.getElem?_append_left hk,
    List.getElem?_eq_getElem hk, Option.map_some, Option.getD_some,
    List.drop_append_of_le_length (by omega), List.take_append_of_le_length]
  rw [List.length_drop]
  omega

/-- The last step has the samples added with it. -/
theorem legSamples_last (h : Sliced steps legs) (hcount : added.length = step.legCount) :
    legSamples (steps ++ [step]) (legs ++ added) steps.length = added := by
  unfold Sliced at h
  unfold legSamples
  rw [List.take_left, ← h, List.drop_left, List.getElem?_concat_length, Option.map_some,
    Option.getD_some, ← hcount, List.take_length]

end Sliced

end Slices

section Runs

variable {S X R : Type} [ExecutionModel X] [TrackingModel X] [Strategy S R] [SeedableRng R]
  {r : Setup S X} {n : Nat} {log : List (Batch X)} {s : RunState S X R}

/-- In every reachable state the endpoints of the open legs are retained. -/
theorem Setup.play_retains (hidle : Idle r.execution) (hstamps : StampsSteps X)
    (hquotes : ∀ n log (s : RunState S X R), r.play n = .ok (log, s) → ∀ b ∈ log, b.TradesQuotes)
    (h : r.play n = .ok (log, s)) : Retains r.feed.tape n s.engine :=
  Setup.play_retainsQuoted greeks_followQuotes hidle hstamps hquotes h

/-- The samples of step `k` are those of the legs held into it. -/
def Holdings (R : Type) [Strategy S R] [SeedableRng R] (r : Setup S X)
    (steps : List StepAttributionScalars) (legs : List LegAttributionSample) (k : Nat) : Prop :=
  ∃ (log : List (Batch X)) (s : RunState S X R) (snapshot : ChainSnapshot),
    r.play k = .ok (log, s) ∧ r.feed.tape[k]? = some snapshot ∧
      List.Forall₂ (Holds r.feed.tape k s.engine.bundle.fills snapshot) (legSamples steps legs k)
        s.engine.inventory

omit [ExecutionModel X] [TrackingModel X] [Strategy S R] [SeedableRng R] in
/-- The hand-off at the start of a step samples every leg held into it. -/
theorem collected_holds {tape : List ChainSnapshot} {ledger : Ledger} {st : EngineState}
    {snapshot : ChainSnapshot} (hretains : Retains tape n st) (hsnapshot : tape[n]? = some snapshot)
    (hgreeks : ledger.greeks = st.ledger.greeks) :
    List.Forall₂ (Holds tape n st.bundle.fills snapshot)
      ((ledger.collectAttributionMarks st.inventory
        snapshot.spec.contractMultiplier).attributionMarks.map (AttributionCollector.sample snapshot))
      st.inventory := by
  simp only [collectAttributionMarks, List.map_map]
  rw [List.forall₂_map_left_iff, List.forall₂_same]
  intro leg hleg
  obtain ⟨first, hle, hopened, hretained⟩ := hretains leg hleg
  have hprior : ledger.greeks[leg.contract]? = lastGreeks leg.contract (between tape first n) := by
    rw [hgreeks, hretained]
  refine ⟨rfl, rfl, rfl, ⟨first, hle, hopened, hprior⟩, ?_, rfl⟩
  change (ledger.greeks[leg.contract]?).isSome = _
  rw [hprior]
  rcases Nat.eq_zero_or_pos n with rfl | hpos
  · obtain rfl := Nat.le_zero.1 hle
    rw [between_self]
    rfl
  · obtain ⟨opening, hopening, hquoted⟩ := hopened.quoted
    rw [lastGreeks, ← lastQuoted, lastQuoted_isSome hopening hquoted (by omega)
      (List.getElem?_eq_some_iff.1 hsnapshot).1.le, decide_eq_true hpos]

/-- In every reachable state the samples of every settled step are those of the legs held into
it. -/
theorem Setup.play_holdings (hidle : Idle r.execution) (hstamps : StampsSteps X)
    (hquotes : ∀ n log (s : RunState S X R), r.play n = .ok (log, s) → ∀ b ∈ log, b.TradesQuotes)
    (h : r.play n = .ok (log, s)) :
    s.attribution.steps.length = n ∧ Sliced s.attribution.steps s.attribution.legs ∧
      ∀ k < n, Holdings R r s.attribution.steps s.attribution.legs k := by
  induction n generalizing log s with
  | zero =>
    rw [Setup.play_zero_attribution h]
    exact ⟨rfl, rfl, nofun⟩
  | succ n ih =>
    obtain ⟨prior, t, snapshot, b, point, after, hprior, hsnapshot, rfl, rfl, hbefore, hmodel,
      hexec, -, hsettled, -, hledger, hsampled⟩ := Setup.play_succ_sampled h
    obtain ⟨hcount, hsliced, hholdings⟩ := ih hprior
    have hretains := Setup.play_retains hidle hstamps hquotes hprior
    obtain ⟨-, -, -, -, -, -, hmarks, -⟩ := settle_sampled hledger
    have hkept := (applyFills_eq_ok hexec.ledger).2.2
    have hgreeks : after.ledger.greeks = t.engine.ledger.greeks := by
      rw [hkept, hbefore]
    rw [hsampled, AttributionCollector.collect]
    refine ⟨?_, hsliced.append (List.length_map ..), fun k hk => ?_⟩
    · rw [List.length_append, hcount]
      rfl
    · rcases Nat.lt_succ_iff_lt_or_eq.1 hk with hlt | rfl
      · obtain ⟨log, u, earlier, hplay, hearlier, hall⟩ := hholdings k hlt
        refine ⟨log, u, earlier, hplay, hearlier, ?_⟩
        rw [hsliced.legSamples_append (hcount ▸ hlt)]
        exact hall
      · refine ⟨prior, t, b.snapshot, hprior, hsnapshot, ?_⟩
        rw [← hcount, hsliced.legSamples_last (List.length_map ..), hcount, hmarks]
        exact collected_holds hretains hsnapshot hgreeks

end Runs

section Modes

variable {S R B : Type} [DecimalArith] [Book B ObOrderId] [LawfulBook B] [Strategy S R]
  [SeedableRng R]

/-- Attribution holdings and endpoints: in every successful run of either mode, the substrate of
a step samples exactly the legs open at its start, each with its size and side and with the
Greeks of the last snapshot, since the leg opened, that quoted its contract. -/
theorem attribution_holdings (config : BacktestConfig) (feed : MaterialisedFeed) (strategy : S)
    (strategyName : String) :
    (∀ out, BacktestEngine.run config feed.toFeed
        (Setup.naive config feed strategy).execution strategy strategyName = .ok out →
      ∀ k < feed.tape.length, Holdings R (Setup.naive config feed strategy) out.attributionSteps
        out.attributionLegs k) ∧
    ∀ out, BacktestEngine.run config feed.toFeed
        (Setup.realistic B config feed strategy).execution strategy strategyName = .ok out →
      ∀ k < feed.tape.length, Holdings R (Setup.realistic B config feed strategy)
        out.attributionSteps out.attributionLegs k := by
  constructor
  · intro out h
    obtain ⟨initial, log, s, -, hplay, rfl⟩ :=
      Setup.play_of_run (r := Setup.naive config feed strategy) h
    exact (Setup.play_holdings (idle_naive config feed strategy) NaiveFill.stampsSteps
      (fun _ _ _ h => Setup.play_naive_quotes h) hplay).2.2
  · intro out h
    obtain ⟨initial, log, s, -, hplay, rfl⟩ :=
      Setup.play_of_run (r := Setup.realistic B config feed strategy) h
    exact (Setup.play_holdings (idle_realistic config feed strategy) RealisticFill.stampsSteps
      (fun _ _ _ h => (Setup.play_stocked h).2) hplay).2.2

end Modes

open SmallMarket in
/-- The samples of a run with a carried fill. -/
theorem attribution_holdings_dip : ∃ out,
    BacktestEngine.run (config .Realistic) dipFeed.toFeed
        (Setup.realistic (ReferenceBook ObOrderId) (config .Realistic) dipFeed
          (⟨restAndTake, []⟩ : Script)).execution (⟨restAndTake, []⟩ : Script) "script" =
      .ok out ∧
    ∀ k < dipFeed.tape.length, Holdings Unit (Setup.realistic (ReferenceBook ObOrderId)
      (config .Realistic) dipFeed (⟨restAndTake, []⟩ : Script)) out.attributionSteps
      out.attributionLegs k := by
  obtain ⟨out, hrun⟩ := exists_eq_ok (r := BacktestEngine.run (config .Realistic) dipFeed.toFeed
    (Setup.realistic (ReferenceBook ObOrderId) (config .Realistic) dipFeed
      (⟨restAndTake, []⟩ : Script)).execution (⟨restAndTake, []⟩ : Script) "script")
    (by decide +kernel)
  exact ⟨out, hrun, (attribution_holdings _ _ _ _).2 out hrun⟩

end IronCondor
