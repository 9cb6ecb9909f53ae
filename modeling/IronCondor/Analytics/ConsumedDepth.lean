import IronCondor.Analytics.Telescope
import IronCondor.Engine.Marketable

/-! # Displayed depth over a run

The ladder of a snapshot is seeded by every call that sees the snapshot. One call takes from it
at most what it plans; the startup and step 0 see the same snapshot, so what an order of the
startup takes is displayed again. -/
namespace IronCondor

open Checked ExceptRun OrderBook RealisticFill

section Calls

variable {B : Type} [Book B ObOrderId] {snap : ChainSnapshot} {submitIds : List OrderId}
  {profile : LiquidityProfile} {m m' : RealisticFill B} {contract : ContractKey} {side : BookSide}

theorem supply_shrinks (hshrinks : Shrinks m.books m'.books)
    (hids : m'.restingSeedIds = m.restingSeedIds) :
    supply m' contract side ≤ supply m contract side := by
  rw [supply, supply, seedsOf, seedsOf, hids]
  exact List.sum_le_sum fun _ _ => seedSize_shrinks hshrinks

variable [BoundsMakers B]

/-- What the submit phase takes, the displayed depth loses. -/
theorem routeCommands_supply {entries : List (OrderCommand × Nat)} {r : Routing B}
    (h : Stocked profile m)
    (hroute : entries.foldlM (routeCommand submitIds snap) ⟨m, [], 0⟩ = .ok r) :
    takenOn contract side (r.routed.flatMap RoutedFills.fills) + supply r.model contract side ≤
      supply m contract side := by
  refine (foldlM_invariant (fun r : Routing B => Stocked profile r.model ∧
    takenOn contract side (r.routed.flatMap RoutedFills.fills) + supply r.model contract side ≤
      supply m contract side) ?_ ⟨h, ?_⟩ hroute).2
  · rintro r ⟨cmd, idx⟩ r' ⟨hr, hsupply⟩ hstep
    rcases routeCommand_cases hstep with ⟨-, rfl⟩ |
      ⟨intent, orderId, x, fills, -, -, hsubmit, hrouted, -, hmodel⟩
    · exact ⟨hr, hsupply⟩
    have hstocked := fillSubmit_stocked hr hsubmit
    have hmine := fillSubmit_supply (c := contract) (d := side) hr hsubmit
    have hsame : Stocked profile r'.model ∧ supply r'.model contract side = supply x contract side := by
      rcases hmodel with ⟨-, hm⟩ | ⟨_, -, -, hm⟩ <;> rw [hm]
      · exact ⟨hstocked, rfl⟩
      · exact ⟨hstocked.setGroups _ _, rfl⟩
    refine ⟨hsame.1, ?_⟩
    rw [hsame.2, hrouted]
    simp only [List.flatMap_append, List.flatMap_singleton, takenOn_append]
    omega
  · simp [takenOn]

/-- One call takes from the depth of its snapshot no more than the ladder plans. -/
theorem fillAttributed_supply [DecimalArith] {cmds : List OrderCommand} {a : Attribution}
    (h : Stocked profile m) (hcall : m.fillAttributed cmds submitIds snap = .ok (m', a)) :
    ∃ plan, planSeed snap profile = .ok plan ∧ ∀ contract side,
      takenOn contract side a.fills ≤ plannedOn contract side plan := by
  simp only [fillAttributed, bind_ok_iff, pure_ok_iff, Prod.exists, Prod.mk.injEq] at hcall
  obtain ⟨m₁, carried, hrefresh, m₂, hcancel, r, hroute, -, rfl⟩ := hcall
  obtain ⟨h₁, -⟩ := refreshBooks_stocked (h.setGroups [] []) hrefresh
  obtain ⟨plan, hplan, hbound⟩ := refreshBooks_supply (h.setGroups [] []) hrefresh
  obtain ⟨h₂, hids, hshrinks, -⟩ := cancelCommands_stocked h₁ hcancel
  refine ⟨plan, hplan, fun contract side => ?_⟩
  have hcarried := hbound contract side
  have hkept : supply m₂ contract side ≤ supply m₁ contract side := supply_shrinks hshrinks hids
  have hrouted : takenOn contract side (r.routed.flatMap RoutedFills.fills) +
      supply r.model contract side ≤ supply m₂ contract side := routeCommands_supply h₂ hroute
  change takenOn contract side
    (carried.map Prod.snd ++ r.routed.flatMap RoutedFills.fills) ≤ _
  rw [takenOn_append]
  omega

end Calls

section Reach

variable {B : Type} {snap : ChainSnapshot} {plan : List SeedOrder} {m m' : RealisticFill B}
  {contract : ContractKey} {side : BookSide}

/-- An order priced to trade with a planned seed on this side of the contract. -/
def Reaches (m : RealisticFill B) (snap : ChainSnapshot) (plan : List SeedOrder)
    (contract : ContractKey) (side : BookSide) (intent : OrderIntent) : Prop :=
  compare intent.contract contract = .eq ∧ (obSide intent.side).opposite = side ∧
    ∃ limit, m.limitCents intent snap = .ok limit ∧ ∃ seed ∈ plan,
      compare seed.contract contract = .eq ∧ bookSide seed = side ∧
        intent.side.Within seed.price limit

/-- A fill at a planned price is one its order was priced for. -/
theorem SeededAt.reaches {intent : OrderIntent} {fill : Fill} (h : SeededAt m snap plan intent fill)
    (htakes : takesFrom contract side fill) : Reaches m snap plan contract side intent := by
  obtain ⟨hcontract, hside⟩ := htakes
  rw [h.contract] at hcontract
  rw [h.side] at hside
  obtain ⟨limit, hlimit, hwithin⟩ := h.limit
  obtain ⟨seed, hseed, hsc, hss, hprice⟩ := h.seed
  refine ⟨hcontract, hside, limit, hlimit, seed, hseed, Std.TransCmp.eq_trans hsc hcontract,
    hss.trans hside, ?_⟩
  rw [hprice]
  exact hwithin

end Reach

section Runs

variable {S R X B : Type} {n k : Nat} {contract : ContractKey} {side : BookSide}

/-- The fills of a list of calls, one a step, split into the steps. -/
theorem fillsAt_calls {calls : List (Batch X)}
    (h : ∀ (j : Nat) (b : Batch X), calls[j]? = some b → ∀ fill ∈ b.fills,
      fill.step.value = (j : Int)) :
    fillsAt k (calls.flatMap Batch.fills) = (calls[k]?.map Batch.fills).getD [] := by
  induction calls using List.reverseRecOn with
  | nil => rfl
  | append_singleton calls b ih =>
    have hearlier := ih fun j b' hj => h j b' <| by
      rw [List.getElem?_append_left (List.getElem?_eq_some_iff.1 hj).1]
      exact hj
    have hlast : ∀ fill ∈ b.fills, fill.step.value = (calls.length : Int) :=
      h calls.length b List.getElem?_concat_length
    rw [List.flatMap_append, List.flatMap_singleton, fillsAt_append, hearlier]
    rcases lt_trichotomy k calls.length with hk | rfl | hk
    · rw [fillsAt_none fun fill hfill => by rw [hlast fill hfill]; omega, List.append_nil,
        List.getElem?_append_left hk]
    · rw [fillsAt_self hlast, List.getElem?_eq_none le_rfl, List.getElem?_concat_length]
      rfl
    · rw [fillsAt_none fun fill hfill => by rw [hlast fill hfill]; omega, List.append_nil,
        List.getElem?_eq_none hk.le, List.getElem?_eq_none (by simp; omega)]

/-- The first call of a run is made to the model the run starts with. -/
theorem Setup.play_startup [Strategy S R] [SeedableRng R] [ExecutionModel X] {r : Setup S X}
    {log : List (Batch X)} {s : RunState S X R} (h : r.play n = .ok (log, s)) :
    ∀ b ∈ log.head?, b.model = r.execution ∧ ∃ after, b.Executed after := by
  refine (Setup.play_invariant (fun log x _ => (log = [] → x = r.execution) ∧
    ∀ b ∈ log.head?, b.model = r.execution ∧ ∃ after, b.Executed after) ?_ ?_ ?_ h).2
  · exact fun _ _ => ⟨fun _ => rfl, fun b hb => absurd hb (Option.not_mem_none b)⟩
  · rintro (_ | ⟨first, rest⟩) b after ⟨hfresh, hfirst⟩ hexec -
    · refine ⟨fun hnil => absurd hnil (by simp), fun b' hb' => ?_⟩
      obtain rfl : b = b' := Option.some.inj hb'
      exact ⟨hfresh rfl, after, hexec⟩
    · exact ⟨fun hnil => absurd hnil (by simp), hfirst⟩
  · exact fun _ _ _ _ _ _ _ hs _ => hs

variable [DecimalArith] [Strategy S R] [SeedableRng R] [Book B ObOrderId] [BoundsMakers B]
  {profile : LiquidityProfile} {plan : List SeedOrder} {b : Batch (RealisticFill B)}
  {after : EngineState}

omit [Strategy S R] [SeedableRng R] in
/-- One call of a run takes from the depth of its snapshot no more than the ladder plans. -/
theorem Batch.Executed.taken_le (h : b.Executed after) (hstocked : Stocked profile b.model) :
    ∃ plan, planSeed b.snapshot profile = .ok plan ∧ ∀ contract side,
      takenOn contract side b.fills ≤ plannedOn contract side plan := by
  obtain ⟨a, ha, hfills, -⟩ := h.attributed
  rw [← hfills]
  exact fillAttributed_supply hstocked ha

omit [Strategy S R] [SeedableRng R] in
/-- Where nothing rests, a side keeps its depth unless an order is priced to trade with it. -/
theorem Batch.Executed.untaken (h : b.Executed after) (hstocked : Stocked profile b.model)
    (hidle : Idle b.model) (hplan : planSeed b.snapshot profile = .ok plan)
    (hnone : ∀ intent ∈ b.cmds.filterMap (·.intent?),
      ¬ Reaches b.model b.snapshot plan contract side intent) :
    takenOn contract side b.fills = 0 := by
  obtain ⟨a, hcall, hfills, hevents⟩ := h.attributed
  obtain ⟨-, hseeded⟩ := fillAttributed_seeded hstocked hplan hcall
  rw [← hfills]
  refine takenOn_none fun fill hfill htakes => ?_
  rcases List.mem_append.1 hfill with hfill | hfill
  · obtain ⟨e, he, rfl⟩ := List.mem_map.1 hfill
    simp only [fillAttributed, bind_ok_iff, pure_ok_iff, Prod.exists, Prod.mk.injEq] at hcall
    obtain ⟨m₁, carried, hrefresh, m₂, -, r, -, -, rfl⟩ := hcall
    obtain ⟨-, c, htracked⟩ := (refreshBooks_tracks hrefresh).2 e he
    exact hidle _ _ _ htracked
  · obtain ⟨run, hrun, hfill⟩ := List.mem_flatMap.1 hfill
    have hsubmitted := h.routed_mem hcall hevents hrun
    exact hnone run.intent (List.of_mem_zip hsubmitted).2
      (((hseeded run hrun).2 fill hfill).reaches htakes)

/-- Every call of a run takes at most what its ladder plans. -/
theorem Setup.play_taken_le {config : BacktestConfig} {feed : MaterialisedFeed} {strategy : S}
    {log : List (Batch (RealisticFill B))} {s : RunState S (RealisticFill B) R}
    (h : (Setup.realistic B config feed strategy).play n = .ok (log, s)) :
    ∀ b ∈ log, ∃ plan, planSeed b.snapshot config.liquidityProfile = .ok plan ∧
      ∀ contract side, takenOn contract side b.fills ≤ plannedOn contract side plan := by
  refine (Setup.play_invariant (fun log x _ => Stocked config.liquidityProfile x ∧
    ∀ b ∈ log, ∃ plan, planSeed b.snapshot config.liquidityProfile = .ok plan ∧
      ∀ contract side, takenOn contract side b.fills ≤ plannedOn contract side plan)
    (fun _ _ => ⟨stocked_realistic config feed strategy, List.forall_mem_nil _⟩) ?_
    (fun _ _ _ _ _ _ _ hs _ => hs) h).2
  rintro log b after ⟨hstocked, hlog⟩ hexec -
  obtain ⟨a, ha, -, -⟩ := hexec.attributed
  exact ⟨(fillAttributed_stocked hstocked ha).1, List.forall_mem_append.2
    ⟨hlog, List.forall_mem_singleton.2 (hexec.taken_le hstocked)⟩⟩

/-- Displayed depth over whole runs: the fills of a step take from each side of a contract at
most what the ladder of its snapshot plans there, at step 0 provided no order of the startup is
priced to trade with that side. -/
theorem displayed_depth_consumed {config : BacktestConfig} {feed : MaterialisedFeed} {strategy : S}
    {log : List (Batch (RealisticFill B))} {s : RunState S (RealisticFill B) R}
    (h : (Setup.realistic B config feed strategy).play n = .ok (log, s)) (hk : k < max n 1)
    {snapshot : ChainSnapshot} (hsnapshot : feed.tape[k]? = some snapshot) :
    ∃ plan, planSeed snapshot config.liquidityProfile = .ok plan ∧ ∀ contract side,
      (k = 0 → ∀ startup ∈ log.head?, ∀ intent ∈ startup.cmds.filterMap (·.intent?),
        ¬ Reaches (Setup.realistic B config feed strategy).execution snapshot plan contract side
          intent) →
      takenOn contract side (fillsAt k (s.engine.bundle.fills.map FillRecord.fill)) ≤
        plannedOn contract side plan := by
  obtain ⟨-, -, hsteps⟩ := TapeMeta.fromTape_eq_ok feed.accepted
  obtain ⟨initial, -, hbalanced⟩ := play_balanced h
  have hstamped := Setup.play_stamped RealisticFill.stampsSteps h
  have htaken := Setup.play_taken_le h
  have hstartup := Setup.play_startup h
  rcases log with _ | ⟨first, calls⟩
  · cases hbalanced.calls
  have hcount : calls.length = n := Nat.succ.inj hbalanced.calls
  have hfirst : feed.tape[0]? = some first.snapshot := hbalanced.against 0 first rfl
  have hagainst : ∀ (j : Nat) (b : Batch (RealisticFill B)), calls[j]? = some b →
      feed.tape[j]? = some b.snapshot := fun j b => hbalanced.against (j + 1) b
  have hopening : ∀ fill ∈ first.fills, fill.step.value = (0 : Nat) := fun fill hfill => by
    rw [hstamped first (by simp) fill hfill, hsteps 0 _ hfirst]
  have hcalls : fillsAt k (calls.flatMap Batch.fills) = (calls[k]?.map Batch.fills).getD [] :=
    fillsAt_calls fun j b hb fill hfill => by
      rw [hstamped b (List.mem_cons_of_mem _ (List.mem_of_getElem? hb)) fill hfill,
        hsteps j _ (hagainst j b hb)]
  obtain ⟨hmodel, after, hexec⟩ := hstartup first rfl
  have hstocked : Stocked config.liquidityProfile first.model :=
    hmodel ▸ stocked_realistic config feed strategy
  rw [hbalanced.fills, List.flatMap_cons, fillsAt_append, hcalls]
  by_cases hn : k < n
  · have hb := List.getElem?_eq_getElem (hcount ▸ hn)
    rw [hb, Option.map_some, Option.getD_some]
    obtain rfl := Option.some.inj (hsnapshot.symm.trans (hagainst k _ hb))
    obtain ⟨plan, hplan, hbound⟩ := htaken _ (List.mem_cons_of_mem _ (List.mem_of_getElem? hb))
    refine ⟨plan, hplan, fun contract side hnone => ?_⟩
    have hzero : takenOn contract side (fillsAt k first.fills) = 0 := by
      rcases k with _ | k
      · rw [fillsAt_self hopening]
        have hsame := Option.some.inj (hfirst.symm.trans hsnapshot)
        refine hexec.untaken hstocked (hmodel ▸ idle_realistic config feed strategy)
          (hsame ▸ hplan) fun intent hintent => ?_
        rw [hmodel, hsame]
        exact hnone rfl first rfl intent hintent
      · rw [fillsAt_none fun fill hfill => by rw [hopening fill hfill]; omega]
        rfl
    rw [takenOn_append, hzero, Nat.zero_add]
    exact hbound contract side
  · obtain ⟨rfl, rfl⟩ : k = 0 ∧ n = 0 := by omega
    obtain rfl := Option.some.inj (hsnapshot.symm.trans hfirst)
    obtain ⟨plan, hplan, hbound⟩ := htaken first (by simp)
    refine ⟨plan, hplan, fun contract side _ => ?_⟩
    rw [fillsAt_self hopening, List.getElem?_eq_none hcount.le]
    simpa using hbound contract side

end Runs

open SmallMarket in
/-- A carried fill and the fills of step 1 take from the depth of step 1 alone. -/
theorem displayed_depth_consumed_dip : ∃ log s plan,
    (Setup.realistic (ReferenceBook ObOrderId) (config .Realistic) dipFeed
      (⟨restAndTake, [take]⟩ : Script)).play 3 = .ok (log, s) ∧
    planSeed secondStep (config .Realistic).liquidityProfile = .ok plan ∧ ∀ contract side,
      takenOn contract side (fillsAt 1 (s.engine.bundle.fills.map FillRecord.fill)) ≤
        plannedOn contract side plan := by
  obtain ⟨⟨log, s⟩, h⟩ := exists_eq_ok (r := (Setup.realistic (ReferenceBook ObOrderId)
    (config .Realistic) dipFeed (⟨restAndTake, [take]⟩ : Script)).play 3) (by decide +kernel)
  have hsecond : dipFeed.tape[1]? = some secondStep := rfl
  obtain ⟨plan, hplan, hbound⟩ := displayed_depth_consumed h (by decide) hsecond
  exact ⟨log, s, plan, h, hplan, fun contract side => hbound contract side (by simp)⟩

open SmallMarket in
/-- Three contracts are displayed on the ask; the startup buys all of them, and so does the
first step. -/
theorem displayed_depth_consumed_twice : ∃ log s plan,
    (Setup.realistic (ReferenceBook ObOrderId) (config .Realistic) dipFeed
      (⟨takeAll, [takeAll]⟩ : Script)).play 1 = .ok (log, s) ∧
    planSeed firstStep (config .Realistic).liquidityProfile = .ok plan ∧
      plannedOn call .Sell plan = 3 ∧
      takenOn call .Sell (fillsAt 0 (s.engine.bundle.fills.map FillRecord.fill)) = 6 := by
  obtain ⟨⟨log, s⟩, h, hcheck⟩ := exists_ok_of_check (r := (Setup.realistic
    (ReferenceBook ObOrderId) (config .Realistic) dipFeed
      (⟨takeAll, [takeAll]⟩ : Script)).play 1)
    (fun run => decide (takenOn call .Sell
      (fillsAt 0 (run.2.engine.bundle.fills.map FillRecord.fill)) = 6)) (by decide +kernel)
  obtain ⟨plan, hplan, hsize⟩ := exists_ok_of_check
    (r := planSeed firstStep (config .Realistic).liquidityProfile)
    (fun plan => decide (plannedOn call .Sell plan = 3)) (by decide +kernel)
  exact ⟨log, s, plan, h, hplan, of_decide_eq_true hsize, of_decide_eq_true hcheck⟩

end IronCondor
