import IronCondor.Engine.FillIdentity
import IronCondor.Engine.Inventory
import IronCondor.Engine.Vwap

/-! # The entry premium of an open leg

A leg is entered at the average of its first run, and every carried run averages the premium it
has kept, already rounded, with the new prices. A close leaves the premium alone. So through any
run the premium stays between the prices of the fills that opened the leg. -/
namespace IronCondor

open Checked ExceptRun WeightedMean

section Legs

variable {inventory inventory' : List OpenPosition} {positionId : PositionId} {leg : OpenPosition}
  {run : List Fill} {agg : FillAggregate} {held : Option PositionId} {intent : OrderIntent}

/-- The leg was open before, at the same premium. -/
def KeepsEntry (inventory : List OpenPosition) (leg : OpenPosition) : Prop :=
  ∃ old ∈ inventory, old.positionId = leg.positionId ∧ old.entryPremium = leg.entryPremium

/-- The premium respects every bound on the run and on what the leg was entered at before. -/
def AveragesEntry (inventory : List OpenPosition) (run : List Fill) (leg : OpenPosition) : Prop :=
  ∀ lo hi : Int, (∀ fill ∈ run, lo ≤ fill.price.value ∧ fill.price.value ≤ hi) →
    (∀ old ∈ inventory, old.positionId = leg.positionId →
      lo ≤ old.entryPremium.value ∧ old.entryPremium.value ≤ hi) →
    lo ≤ leg.entryPremium.value ∧ leg.entryPremium.value ≤ hi

theorem KeepsEntry.of_mem (h : leg ∈ inventory) : KeepsEntry inventory leg := ⟨leg, h, rfl, rfl⟩

/-- A leg of a rewritten inventory is an old one, or the rewritten one. -/
theorem updateLeg_cases {f : OpenPosition → OpenPosition}
    (h : leg ∈ updateLeg positionId f inventory) :
    leg ∈ inventory ∨ ∃ old, findLeg inventory positionId = some old ∧ leg = f old := by
  induction inventory with
  | nil => cases h
  | cons first legs ih =>
    unfold updateLeg at h
    unfold findLeg at ih ⊢
    by_cases hfirst : first.positionId = positionId
    · rw [if_pos hfirst] at h
      rcases List.mem_cons.1 h with rfl | h
      · exact .inr ⟨first, by simp [hfirst], rfl⟩
      · exact .inl (List.mem_cons_of_mem _ h)
    · rw [if_neg hfirst] at h
      rcases List.mem_cons.1 h with rfl | h
      · exact .inl List.mem_cons_self
      · rcases ih h with hold | ⟨old, hold, hleg⟩
        · exact .inl (List.mem_cons_of_mem _ hold)
        · exact .inr ⟨old, by simpa [hfirst] using hold, hleg⟩

theorem carryNotional_eq_ok {notional : Bounded u128} (h : carryNotional run = .ok notional) :
    notional.value = totalNotional run := by
  have hsum := foldlM_sum (fun total : Bounded u128 => total.value)
    (fun fill : Fill => fill.price.value * fill.quantity.value) (fun total fill total' h => ?_) h
  · simpa [totalNotional] using hsum
  · obtain ⟨part, hpart, h⟩ := bind_ok_iff.1 h
    rw [narrow_eq_ok] at hpart h
    rw [h, hpart]

/-- An extension averages the kept premium with the carried run. -/
theorem extendOpenLeg_averages {entryPremium : PriceCents} (hagg : aggregateFills run = .ok agg)
    (h : extendOpenLeg inventory positionId run agg = .ok (inventory', entryPremium)) :
    ∀ leg ∈ inventory', leg ∈ inventory ∨
      (leg.positionId = positionId ∧ AveragesEntry inventory run leg) := by
  simp only [extendOpenLeg, bind_ok_iff, okOr_eq_ok, narrow_eq_ok, Quantity.ofInt_eq_ok,
    pure_ok_iff, Prod.mk.injEq] at h
  obtain ⟨old, hold, oldNotional, holdNotional, carried, hcarried, total, htotal, notional,
    hnotional, quantity, -, premium, hpremium, rfl, rfl⟩ := h
  obtain ⟨hmem, hid⟩ := findLeg_some hold
  intro leg hleg
  rcases updateLeg_cases hleg with hleg | ⟨old', hold', rfl⟩
  · exact .inl hleg
  · cases hold.symm.trans hold'
    refine .inr ⟨hid, fun lo hi hrun hlegs => ?_⟩
    obtain ⟨hlo, hhi⟩ := hlegs old hmem rfl
    obtain ⟨hlow, hhigh⟩ := totalNotional_between hrun
    have hlow' := mul_le_mul_of_nonneg_right hlo old.quantity.pos.le
    have hhigh' := mul_le_mul_of_nonneg_right hhi old.quantity.pos.le
    rw [holdNotional, carryNotional_eq_ok hcarried] at hnotional
    rw [(aggregateFills_eq_ok hagg).1] at htotal
    refine vwapCents_between ?_ ?_ hpremium <;> rw [hnotional, htotal, mul_add]
    · exact add_le_add hlow' hlow
    · exact add_le_add hhigh' hhigh

/-- A close keeps the premium of what it leaves open. -/
theorem LegStep.keepsEntry (h : LegStep held intent run inventory inventory')
    (hclose : intent.action ≠ .Open) : ∀ leg ∈ inventory', KeepsEntry inventory leg := by
  intro leg hleg
  cases h with
  | opened _ _ _ action => exact absurd action hclose
  | extended _ _ _ _ action => exact absurd action hclose
  | reduced positionId old quantity action leg_eq left =>
    rcases updateLeg_cases hleg with hleg | ⟨old, hold, rfl⟩
    · exact .of_mem hleg
    · exact ⟨old, (findLeg_some hold).1, rfl, rfl⟩
  | flattened positionId old action leg_eq all => exact .of_mem (List.mem_of_mem_eraseP hleg)

end Legs

section Events

variable {st st' : EngineState} {orderId : OrderId} {tradeId : TradeId} {positionId : PositionId}
  {first : Fill} {agg : FillAggregate} {run : List Fill} {snapshot : ChainSnapshot}
  {reasons : CloseReasons} {s t : StepState} {ev : OrderEvent}

/-- The event fills an order that opens a leg. -/
def OrderEvent.Opens (st : EngineState) : OrderEvent → Prop
  | carried orderId _ => ∃ entry : PendingEntry, st.pending[orderId]? = some entry ∧
      entry.pending.intent.action = .Open
  | withdrawn _ => False
  | submitted _ _ intent _ => intent.action = .Open

/-- Where the premium of a leg comes from after an event: it was there, or the event filled an
opening order, recorded its fills under the leg, and averaged them in. -/
inductive EntryFrom (ev : OrderEvent) (st st' : EngineState) (leg : OpenPosition) : Prop
  | kept (entry : KeepsEntry st.inventory leg)
  | averaged (opens : ev.Opens st) (nonempty : ev.fills ≠ [])
      (recorded : ∀ fill ∈ ev.fills, ∃ record ∈ st'.bundle.fills, record.fill = fill ∧
        record.orderId = ev.orderId ∧ record.positionId = leg.positionId)
      (average : AveragesEntry st.inventory ev.fills leg)

theorem openLeg_averages {ts : SimTime} (hagg : aggregateFills run = .ok agg)
    (h : st.openLeg tradeId first agg ts = .ok (st', positionId)) :
    ∀ leg ∈ st'.inventory, leg ∈ st.inventory ∨
      (leg.positionId = positionId ∧ AveragesEntry st.inventory run leg) := by
  simp only [EngineState.openLeg, bind_ok_iff, pure_ok_iff, Prod.exists, Prod.mk.injEq] at h
  obtain ⟨_, _, -, rfl, rfl⟩ := h
  intro leg hleg
  rcases List.mem_append.1 hleg with hold | hnew
  · exact .inl hold
  · obtain rfl := List.mem_singleton.1 hnew
    exact .inr ⟨rfl, fun lo hi hrun _ => aggregateFills_between hagg hrun⟩

theorem carryOpenLeg_averages {entry : PendingEntry} {ts : SimTime}
    (hagg : aggregateFills run = .ok agg)
    (h : st.carryOpenLeg entry tradeId run first agg ts = .ok (st', positionId)) :
    ∀ leg ∈ st'.inventory, leg ∈ st.inventory ∨
      (leg.positionId = positionId ∧ AveragesEntry st.inventory run leg) := by
  unfold EngineState.carryOpenLeg at h
  split at h
  · obtain ⟨st₁, hextend, h⟩ := bind_ok_iff.1 h
    cases h
    simp only [EngineState.extendLeg, bind_ok_iff, pure_ok_iff, Prod.exists] at hextend
    obtain ⟨inventory, premium, hextend, _, -, rfl⟩ := hextend
    exact extendOpenLeg_averages hagg hextend
  · exact openLeg_averages hagg h

/-- The fills of an opening order are recorded under its leg, next to the earlier ones. -/
theorem openFills_recorded {base multiplier : Bounded u32}
    (h : run.zipIdx.foldlM (EngineState.openFill orderId tradeId positionId base multiplier) st =
      .ok st') :
    ∀ fill ∈ run, ∃ record ∈ st'.bundle.fills, record.fill = fill ∧ record.orderId = orderId ∧
      record.positionId = positionId := by
  obtain ⟨records, htagged, hbundle⟩ := openFills_tagged h
  intro fill hfill
  rw [← htagged.fills] at hfill
  obtain ⟨record, hrecord, rfl⟩ := List.mem_map.1 hfill
  obtain ⟨horder, -, hposition⟩ := htagged.tags record hrecord
  rw [hbundle]
  exact ⟨record, List.mem_append_right _ hrecord, rfl, horder, hposition⟩

theorem settleEntry_bundle {entry : PendingEntry} {count : Nat} {filled : Quantity}
    (h : st.settleEntry orderId entry count filled = .ok st') : st'.bundle = st.bundle := by
  rcases settleEntry_cases h with ⟨-, rfl⟩ | ⟨_, _, -, -, rfl⟩ <;> rfl

theorem registerRemainder_bundle {stepTrade : Option TradeId} {idx produced : Nat}
    {intent : OrderIntent} {opened : Option PositionId} {filled : Quantity}
    (h : st.registerRemainder stepTrade idx orderId intent opened produced filled reasons =
      .ok st') : st'.bundle = st.bundle := by
  rcases registerRemainder_cases h with ⟨-, rfl⟩ | ⟨_, _, _, _, -, -, -, -, rfl⟩ <;> rfl

/-- What one event does to the premium of every leg. -/
theorem applyEvent_entry (h : applyEvent reasons snapshot s ev = .ok t) :
    ∀ leg ∈ t.engine.inventory, EntryFrom ev s.engine t.engine leg := by
  have hopened : ∀ {st₂ st₃ : EngineState} {orderId : OrderId} {tradeId : TradeId}
      {positionId : PositionId} {base : Bounded u32} {first : Fill} {run : List Fill},
      ev.Opens s.engine → ev.fills = run → ev.orderId = orderId → run.head? = some first →
      (∀ leg ∈ st₂.inventory, leg ∈ s.engine.inventory ∨
        (leg.positionId = positionId ∧ AveragesEntry s.engine.inventory run leg)) →
      run.zipIdx.foldlM (EngineState.openFill orderId tradeId positionId base
        snapshot.spec.contractMultiplier) st₂ = .ok st₃ →
      t.engine.inventory = st₃.inventory → t.engine.bundle = st₃.bundle →
      ∀ leg ∈ t.engine.inventory, EntryFrom ev s.engine t.engine leg := by
    intro st₂ st₃ orderId tradeId positionId base first run hopens hrun horder hfirst hlegs hfills
      hinventory hbundle leg hleg
    rw [hinventory, (fills_sameLegs (fun _ _ _ h => openFill_sameLegs h) hfills).inventory] at hleg
    rcases hlegs leg hleg with hold | ⟨hid, haverage⟩
    · exact .kept (.of_mem hold)
    · refine .averaged hopens ?_ ?_ ?_
      · rw [hrun]
        rintro rfl
        cases hfirst
      · rw [hrun, horder, hid, hbundle]
        exact openFills_recorded hfills
      · rw [hrun]
        exact haverage
  have hlegs := applyEvent_legStep h
  cases ev with
  | carried orderId run =>
    obtain ⟨engine, happly, h⟩ := bind_ok_iff.1 h
    cases h
    obtain ⟨entry, agg, first, hentry, hagg, hfirst, hcases⟩ := applyCarryGroup_cases happly
    rcases hcases with ⟨haction, st₁, tradeId, st₂, positionId, st₃, htrade, hleg, hfills,
      hsettle⟩ | ⟨positionId, st₁, haction, -, -⟩
    · obtain ⟨⟨_, -, -, rfl⟩, -⟩ := tradeFor_eq_ok htrade
      have haverages := carryOpenLeg_averages hagg hleg
      exact hopened ⟨entry, hentry, haction⟩ rfl rfl hfirst haverages hfills
        (settleEntry_inventory hsettle) (settleEntry_bundle hsettle)
    · obtain ⟨entry', hentry', hstep⟩ := hlegs
      cases hentry.symm.trans hentry'
      exact fun leg hleg => .kept (hstep.keepsEntry (by rw [haction]; nofun) leg hleg)
  | withdrawn orderId =>
    intro leg hleg
    rw [hlegs] at hleg
    exact .kept (.of_mem hleg)
  | submitted idx orderId intent run =>
    obtain ⟨⟨engine, trade⟩, happly, h⟩ := bind_ok_iff.1 h
    cases h
    rcases hlegs with ⟨-, hsame⟩ | ⟨hrun, hstep⟩
    · intro leg hleg
      rw [hsame] at hleg
      exact .kept (.of_mem hleg)
    · rcases applySubmit_cases happly with ⟨hnone, -⟩ | ⟨agg, first, hfirst, hagg, hfilled⟩
      · exact absurd hnone hrun
      · rcases hfilled with ⟨haction, st₁, tradeId, st₂, positionId, st₃, htrade, -, hleg, hfills,
          hregister⟩ | ⟨positionId, st₁, haction, -⟩
        · obtain ⟨⟨_, -, -, rfl⟩, -⟩ := tradeFor_eq_ok htrade
          have haverages := openLeg_averages hagg hleg
          exact hopened haction rfl rfl hfirst haverages hfills
            (registerRemainder_inventory hregister) (registerRemainder_bundle hregister)
        · exact fun leg hleg => .kept (hstep.keepsEntry (by rw [haction]; nofun) leg hleg)

/-- Recorded fills stay recorded. -/
theorem applyEvent_records (h : applyEvent reasons snapshot s ev = .ok t) :
    s.engine.bundle.fills ⊆ t.engine.bundle.fills := by
  have happended : ∀ {records : List FillRecord},
      t.engine.bundle.fills = s.engine.bundle.fills ++ records →
      s.engine.bundle.fills ⊆ t.engine.bundle.fills := by
    intro records hfills
    rw [hfills]
    exact List.subset_append_left _ _
  cases ev with
  | carried orderId run =>
    obtain ⟨_, _, _, hstep⟩ := carried_recorded h
    obtain ⟨records, -, hfills⟩ := hstep.recorded.fills
    exact happended hfills
  | withdrawn orderId =>
    cases h
    exact List.Subset.refl _
  | submitted idx orderId intent run =>
    obtain ⟨_, _, hstep⟩ := submitted_recorded h
    rcases hstep.recorded with ⟨-, -, hbundle, -⟩ | ⟨-, positionId, -, hrecorded⟩
    · rw [hbundle]
      exact List.Subset.refl _
    · obtain ⟨records, -, hfills⟩ := hrecorded.fills
      exact happended hfills

end Events

section Runs

variable {X : Type} {orders orders' : List (OrderId × OrderIntent)} {st st' : EngineState}
  {s t : StepState} {ev : OrderEvent} {snapshot : ChainSnapshot} {reasons : CloseReasons}

/-- Some order of this id opens. -/
def OpensIn (orders : List (OrderId × OrderIntent)) (orderId : OrderId) : Prop :=
  ∃ sub ∈ orders, sub.1 = orderId ∧ sub.2.action = .Open

instance (orders : List (OrderId × OrderIntent)) (orderId : OrderId) :
    Decidable (OpensIn orders orderId) :=
  inferInstanceAs (Decidable (∃ sub ∈ orders, _))

theorem OpensIn.mono {orderId : OrderId} (h : OpensIn orders orderId) (hsub : orders ⊆ orders') :
    OpensIn orders' orderId := by
  obtain ⟨sub, hmem, hid, hopen⟩ := h
  exact ⟨sub, hsub hmem, hid, hopen⟩

/-- The recorded fills of the orders that opened a leg. -/
def openingFills (orders : List (OrderId × OrderIntent)) (records : List FillRecord)
    (positionId : PositionId) : List FillRecord :=
  records.filter fun record => record.positionId = positionId ∧ OpensIn orders record.orderId

theorem openingFills_subset {records records' : List FillRecord} (horders : orders ⊆ orders')
    (hrecords : records ⊆ records') (positionId : PositionId) :
    openingFills orders records positionId ⊆ openingFills orders' records' positionId := by
  intro record hrecord
  simp only [openingFills, List.mem_filter, decide_eq_true_eq] at hrecord ⊢
  obtain ⟨hmem, hid, hopens⟩ := hrecord
  exact ⟨hrecords hmem, hid, hopens.mono horders⟩

/-- Every open leg is entered between the prices of its opening fills. -/
def EntriesBetween (orders : List (OrderId × OrderIntent)) (st : EngineState) : Prop :=
  ∀ leg ∈ st.inventory, Between (fun record : FillRecord => record.fill.price.value)
    (openingFills orders st.bundle.fills leg.positionId) leg.entryPremium.value

/-- An opening event fills an order of the run that opens. -/
theorem OrderEvent.Opens.issued (h : ev.Opens st) (hsourced : Sourced orders st.pending)
    (hown : ∀ sub, ev.submission? = some sub → sub ∈ orders) : OpensIn orders ev.orderId := by
  cases ev with
  | carried orderId run =>
    obtain ⟨entry, hentry, haction⟩ := h
    obtain ⟨-, intent, hmem, hremains⟩ := hsourced orderId entry hentry
    rw [hremains] at haction
    exact ⟨_, hmem, rfl, haction⟩
  | withdrawn orderId => exact h.elim
  | submitted idx orderId intent run => exact ⟨_, hown _ rfl, rfl, h⟩

/-- One event keeps the entries between their fills. -/
theorem EntriesBetween.step (h : EntriesBetween orders s.engine)
    (hsourced : Sourced orders s.engine.pending)
    (hown : ∀ sub, ev.submission? = some sub → sub ∈ orders)
    (happly : applyEvent reasons snapshot s ev = .ok t) : EntriesBetween orders t.engine := by
  have hrecords := applyEvent_records happly
  have hkept : ∀ leg ∈ s.engine.inventory, Between (fun record : FillRecord =>
      record.fill.price.value) (openingFills orders t.engine.bundle.fills leg.positionId)
      leg.entryPremium.value := fun leg hleg =>
    (h leg hleg).mono (openingFills_subset (List.Subset.refl _) hrecords _)
  intro leg hleg
  cases applyEvent_entry happly leg hleg with
  | kept entry =>
    obtain ⟨old, hold, hid, hpremium⟩ := entry
    rw [← hid, ← hpremium]
    exact hkept old hold
  | averaged opens nonempty recorded average =>
    have hopens := opens.issued hsourced hown
    have hopening : ∀ fill ∈ ev.fills, ∃ record ∈ openingFills orders t.engine.bundle.fills
        leg.positionId, record.fill = fill := by
      intro fill hfill
      obtain ⟨record, hrecord, rfl, hid, hposition⟩ := recorded fill hfill
      refine ⟨record, ?_, rfl⟩
      simp only [openingFills, List.mem_filter, decide_eq_true_eq]
      exact ⟨hrecord, hposition, hid ▸ hopens⟩
    rw [between_iff]
    constructor
    · obtain ⟨fill, hfill⟩ := List.exists_mem_of_ne_nil _ nonempty
      obtain ⟨record, hrecord, -⟩ := hopening fill hfill
      exact List.ne_nil_of_mem hrecord
    · intro lo hi hbounds
      refine average lo hi (fun fill hfill => ?_) fun old hold hid => ?_
      · obtain ⟨record, hrecord, rfl⟩ := hopening fill hfill
        exact hbounds record hrecord
      · have hbetween := hkept old hold
        rw [hid] at hbetween
        exact (between_iff.1 hbetween).2 lo hi hbounds

variable [ExecutionModel X] {log : List (Batch X)} {b : Batch X} {after : EngineState}

/-- One call keeps the entries between their fills. -/
theorem EntriesBetween.call (h : EntriesBetween (issued log) b.before)
    (hidentified : RunIdentified log b.before) (hexec : b.Executed after) :
    EntriesBetween (issued (log ++ [b])) after := by
  obtain ⟨ids, -, hstart⟩ := hexec.minted
  have hrun := hidentified.toOrdersIssued.events hidentified.known hexec
    (fun s => EntriesBetween (issued (log ++ [b])) s.engine) ?_ ?_
  · obtain ⟨_, hentries, -⟩ := hrun
    exact hentries
  · intro s t ev hev _ hsourced hentries happly
    refine hentries.step hsourced (fun sub hsub => ?_) happly
    rw [issued_append]
    exact List.mem_append_right _ (hexec.submission_mem hev hsub)
  · intro leg hleg
    simp only [hstart] at hleg ⊢
    refine (h leg hleg).mono (openingFills_subset ?_ (List.Subset.refl _) _)
    rw [issued_append]
    exact List.subset_append_left _ _

variable {S R : Type} [Strategy S R] [SeedableRng R] {r : Setup S X} {n : Nat}
  {x : RunState S X R}

/-- Every run keeps every open leg entered between the prices of its opening fills. -/
theorem Setup.play_entries (h : r.play n = .ok (log, x)) :
    EntriesBetween (issued log) x.engine := by
  refine (r.play_invariant (fun log _ st => RunIdentified log st ∧
    EntriesBetween (issued log) st) ?_ ?_ ?_ h).2
  · exact fun initial _ => ⟨.start initial, List.forall_mem_nil _⟩
  · exact fun log b after ⟨hinv, hentries⟩ hexec _ =>
      ⟨hinv.call hexec, hentries.call hinv hexec⟩
  · rintro log y st snapshot isLast point st' ⟨hinv, hentries⟩ hsettled
    refine ⟨hinv.settle hsettled, ?_⟩
    obtain ⟨rows, -, hbundle⟩ := BundleCollector.collectStep_eq_ok hsettled.bundle
    intro leg hleg
    have hfills : st'.bundle.fills = st.bundle.fills := by rw [hbundle]
    rw [hfills]
    rw [hsettled.books] at hleg
    exact hentries leg hleg

/-- Averages and entries: over any run of fills whose totals fit no intermediate result is
refused, and the average is the half-to-even rounding of the exact mean, between the least and
the greatest price and equal to a price shared by all; so in every state of every run the entry
premium of an open leg lies between the lowest and the highest price of its opening fills. -/
theorem entry_premiums_between (r : Setup S X) :
    (∀ fills, fills ≠ [] → TotalsFit fills →
      ∃ t v, fills.foldlM FillTotals.add FillTotals.zero = .ok t ∧ Totalled fills t ∧
        vwapCents t.notional t.quantity = .ok v ∧ Averaged fills v ∧
        (totalQuantity fills ≤ u32.max → ∃ agg, aggregateFills fills = .ok agg ∧ agg.vwap = v)) ∧
      ∀ n log x, r.play n = .ok (log, x) → EntriesBetween (issued log) x.engine := by
  refine ⟨fun fills hne hfit => ?_, fun n log x h => Setup.play_entries h⟩
  obtain ⟨t, hfold, htotalled⟩ := totals_of_fit hfit
  obtain ⟨v, hvwap, haveraged⟩ := vwap_averaged hne htotalled
  refine ⟨t, v, hfold, htotalled, hvwap, haveraged, fun hmax => ?_⟩
  let quantity : Quantity := ⟨totalQuantity fills, totalQuantity_pos hne, hmax⟩
  refine ⟨⟨quantity, v, t.fees, t.slippage⟩, ?_, rfl⟩
  simp only [aggregateFills, bind_ok_iff, Quantity.ofInt_eq_ok, pure_ok_iff]
  exact ⟨t, hfold, quantity, htotalled.quantity.symm, v, hvwap, rfl⟩

end Runs

section Ties

open SmallMarket OrderBook

/-- One contract of the call at a price. -/
def unitFill (price : PriceCents) : Fill where
  ts := firstStep.ts
  step := firstStep.step
  contract := call
  side := .Long
  quantity := lot 1
  price
  fees := .zero
  slippage := .zero
  mode := .Realistic

/-- Two prices whose mean is midway between two cents. -/
def midway : List PriceCents := [⟨211, by decide⟩, ⟨212, by decide⟩]

theorem unitFills_fit (prices : List PriceCents) (h : (prices.length : Int) ≤ u32.max) :
    TotalsFit (prices.map unitFill) := by
  have hmoney : ∀ run, run <+: prices.map unitFill → totalFees run = 0 ∧ totalSlippage run = 0 := by
    rintro run hrun
    obtain ⟨part, -, rfl⟩ := List.prefix_map_iff.1 hrun
    simp [totalFees, totalSlippage, unitFill, Function.comp_def]
  have hsize : totalQuantity (prices.map unitFill) = prices.length := by
    simp [totalQuantity, unitFill, lot, lots, Function.comp_def]
  refine ⟨?_, fun run hrun => ?_, fun run hrun => ?_⟩
  · rw [hsize]
    exact h.trans (by decide)
  · rw [(hmoney run hrun).1]
    decide
  · rw [(hmoney run hrun).2]
    decide

/-- Two prices that are midway average to the even cent, and the resting buy of the dip is
entered at the price it fills at. -/
theorem entry_premiums_between_dip :
    (∃ v, Averaged (midway.map unitFill) v ∧ v.value = 212) ∧
      ∃ log x, (Setup.realistic (ReferenceBook ObOrderId) (config .Realistic) dipFeed
        (⟨restAndTake, []⟩ : Script)).play 3 = .ok (log, x) ∧
        EntriesBetween (issued log) x.engine ∧ x.engine.inventory ≠ [] := by
  obtain ⟨haverages, hentries⟩ := entry_premiums_between (Setup.realistic
    (ReferenceBook ObOrderId) (config .Realistic) dipFeed (⟨restAndTake, []⟩ : Script))
  constructor
  · obtain ⟨t, v, -, -, -, haveraged, -⟩ := haverages (midway.map unitFill)
      (List.cons_ne_nil _ _) (unitFills_fit midway (by decide))
    have hnotional : totalNotional (midway.map unitFill) = 423 := by decide
    have hquantity : totalQuantity (midway.map unitFill) = 2 := by decide
    have hexact := haveraged.exact
    rw [hnotional, hquantity] at hexact
    exact ⟨v, haveraged, hexact.trans (HalfEven.halfEven_half 423)⟩
  · obtain ⟨⟨log, x⟩, h, hopen⟩ := exists_ok_of_check
      (r := (Setup.realistic (ReferenceBook ObOrderId) (config .Realistic) dipFeed
        (⟨restAndTake, []⟩ : Script)).play 3)
      (fun out => !out.2.engine.inventory.isEmpty) (by decide +kernel)
    refine ⟨log, x, h, hentries 3 log x h, ?_⟩
    simpa using hopen

end Ties

end IronCondor
