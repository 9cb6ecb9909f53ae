import IronCondor.Engine.Accounting
import IronCondor.Engine.Orders

/-! # The two execution modes

`run_with_feed` picks the fill model once, from the mode of the configuration. Each starts with
nothing resting, so the results on tracking models hold of every run of either mode. -/
namespace IronCondor

open Checked ExceptRun OrderBook

section Modes

variable {S R B : Type} [DecimalArith] [Book B ObOrderId] [Strategy S R] [SeedableRng R]

omit [DecimalArith] [Book B ObOrderId] in
theorem RealisticFill.not_tracks_new (fees : FeeSchedule) (cap : Bounded u32)
    (profile : LiquidityProfile) (orderId : OrderId) (contract : ContractKey) (side : Side) :
    ¬ (RealisticFill.withLiquidityProfile fees cap profile : RealisticFill B).Tracks orderId
      contract side := by
  rintro ⟨seq, order, horder, -⟩
  simp [withLiquidityProfile, new] at horder

theorem idle_naive (config : BacktestConfig) (feed : MaterialisedFeed) (strategy : S) :
    Idle (Setup.naive config feed strategy).execution := fun _ _ _ h => h

theorem idle_realistic (config : BacktestConfig) (feed : MaterialisedFeed) (strategy : S) :
    Idle (Setup.realistic B config feed strategy).execution :=
  RealisticFill.not_tracks_new _ _ _

/-- Every fill of either model carries the step of the snapshot it executed against. -/
theorem RealisticFill.stampsSteps : StampsSteps (RealisticFill B) := by
  intro m m' cmds submitIds snapshot fills hfill fill hmem
  obtain ⟨⟨_, a⟩, ha, hfills⟩ := bind_ok_iff.1 hfill
  cases hfills
  have hparse := fillAttributed_correlate ha
  have hlaw : FillLaw _ _ snapshot (a.events cmds) := TrackingModel.fill_lawful hfill hparse
  rw [← correlate_fills hparse] at hmem
  obtain ⟨ev, hev, hmem⟩ := List.mem_flatMap.1 hmem
  exact hlaw.stamped ev hev fill hmem

omit [Strategy S R] [SeedableRng R] in
/-- A call of the realistic model, with the attribution the engine reads back. -/
theorem Batch.Executed.attributed {b : Batch (RealisticFill B)} {after : EngineState}
    (h : b.Executed after) : ∃ a : RealisticFill.Attribution,
      b.model.fillAttributed b.cmds b.submitIds b.snapshot = .ok (b.modelAfter, a) ∧
        a.fills = b.fills ∧ b.events = a.events b.cmds := by
  obtain ⟨⟨m', a⟩, ha, hfills⟩ := bind_ok_iff.1 h.filled
  obtain ⟨hmodel, hflat⟩ := Prod.mk.inj (pure_ok_iff.1 hfills)
  rw [hmodel] at ha
  have hparse := h.correlated
  rw [← hflat] at hparse
  refine ⟨a, ha, hflat, ?_⟩
  exact Except.ok.inj (hparse.symm.trans (fillAttributed_correlate ha))

/-- What the three stores say of the open legs, leg by leg. -/
structure LegsAgree (st : EngineState) : Prop where
  ascending : (legIds st.inventory).Pairwise fun a b => a.value < b.value
  positive : ∀ leg ∈ st.inventory, 0 < leg.quantity.value
  logged : ∀ positionId : PositionId,
    positionId ∈ legIds st.inventory ↔ (st.tradeLog.opens[positionId]?).isSome
  collected : ∀ positionId : PositionId,
    positionId ∈ legIds st.inventory ↔ (st.bundle.openLegs[positionId]?).isSome
  agree : ∀ leg ∈ st.inventory, ∃ (opened : OpenLeg) (collected : LegMeta),
    st.tradeLog.opens[leg.positionId]? = some opened ∧
      st.bundle.openLegs[leg.positionId]? = some collected ∧
      opened.remaining.value = leg.quantity.value ∧ opened.contract = leg.contract ∧
      opened.side = leg.side ∧ collected.side = leg.side ∧
      collected.tradeId = opened.tradeId ∧ opened.entryPremium = leg.entryPremium ∧
      collected.entryPremium = leg.entryPremium

omit [DecimalArith] in
theorem Linked.legsAgree {st : EngineState} (h : Linked st) : LegsAgree st where
  ascending := h.ascending
  positive := h.positive
  logged positionId := by
    rw [h.opens_isSome]
    exact findLeg_isSome
  collected positionId := by
    rw [h.openLegs_isSome]
    exact findLeg_isSome
  agree leg hleg := by
    obtain ⟨opened, hopened, hc, hs, hp, hq⟩ := h.opens_of_findLeg (findLeg_of_mem h.nodup hleg)
    have hmap := h.bundle leg.positionId
    rw [hopened] at hmap
    obtain ⟨collected, hcollected, hproj⟩ := Option.map_eq_some_iff.1 hmap
    simp only [Prod.mk.injEq] at hproj
    exact ⟨opened, collected, hopened, hcollected, hq, hc, hs, hproj.2.1.trans hs, hproj.1, hp,
      hproj.2.2.trans hp⟩

/-- Three-way leg bookkeeping: in every state a run of either mode reaches between its steps,
the inventory, the trade log and the collector hold the same legs. -/
theorem legs_agree (config : BacktestConfig) (feed : MaterialisedFeed) (strategy : S) (n : Nat) :
    (∀ log s, (Setup.naive config feed strategy).play n = .ok (log, s) → LegsAgree s.engine) ∧
      ∀ log s, (Setup.realistic B config feed strategy).play n = .ok (log, s) →
        LegsAgree s.engine :=
  ⟨fun _ _ h => (Setup.play_linked (idle_naive config feed strategy) h).2.1.legsAgree,
    fun _ _ h => (Setup.play_linked (idle_realistic config feed strategy) h).2.1.legsAgree⟩

end Modes

open SmallMarket in
/-- The legs of a run with a carried fill. -/
theorem legs_agree_dip : ∃ log s,
    (Setup.realistic (ReferenceBook ObOrderId) (config .Realistic) dipFeed
      (⟨restAndTake, []⟩ : Script)).play 3 = .ok (log, s) ∧ LegsAgree s.engine := by
  obtain ⟨⟨log, s⟩, h⟩ := exists_eq_ok (r := (Setup.realistic (ReferenceBook ObOrderId)
    (config .Realistic) dipFeed (⟨restAndTake, []⟩ : Script)).play 3) (by decide +kernel)
  exact ⟨log, s, h, (legs_agree _ _ _ 3).2 log s h⟩

end IronCondor
