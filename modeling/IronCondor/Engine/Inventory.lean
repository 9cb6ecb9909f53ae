import IronCondor.Engine.Operations

/-! # What an order event does to the inventory

An event opens one leg, grows one, or takes its quantity off one; every weight summed over the
legs moves accordingly. -/
namespace IronCondor

open Checked ExceptRun

section Sums

variable {inventory : List OpenPosition} {positionId : PositionId} {leg : OpenPosition}

/-- A weight summed over the open legs. -/
def legSum (f : OpenPosition → Int) (inventory : List OpenPosition) : Int := (inventory.map f).sum

@[simp] theorem legSum_append (f : OpenPosition → Int) (inventory inventory' : List OpenPosition) :
    legSum f (inventory ++ inventory') = legSum f inventory + legSum f inventory' := by
  simp [legSum]

@[simp] theorem legSum_singleton (f : OpenPosition → Int) (leg : OpenPosition) :
    legSum f [leg] = f leg := by
  simp [legSum]

theorem legSum_updateLeg (f : OpenPosition → Int) (g : OpenPosition → OpenPosition)
    (h : findLeg inventory positionId = some leg) :
    legSum f (updateLeg positionId g inventory) = legSum f inventory - f leg + f (g leg) := by
  induction inventory with
  | nil => cases h
  | cons other legs ih =>
    unfold findLeg at h ih
    unfold updateLeg
    by_cases hother : other.positionId = positionId
    · simp only [List.find?_cons, hother, decide_true, Option.some.injEq] at h
      subst h
      simp only [hother, if_true, legSum, List.map_cons, List.sum_cons]
      ring
    · simp only [List.find?_cons, hother, decide_false] at h
      have ih := ih h
      simp only [hother, if_false, legSum, List.map_cons, List.sum_cons] at ih ⊢
      rw [ih]
      ring

theorem legSum_removeLeg (f : OpenPosition → Int) (h : findLeg inventory positionId = some leg) :
    legSum f (removeLeg inventory positionId) = legSum f inventory - f leg := by
  induction inventory with
  | nil => cases h
  | cons other legs ih =>
    unfold findLeg at h ih
    unfold removeLeg at ih ⊢
    by_cases hother : other.positionId = positionId
    · simp only [List.find?_cons, hother, decide_true, Option.some.injEq] at h
      subst h
      simp [legSum, hother]
    · simp only [List.find?_cons, hother, decide_false] at h
      have ih := ih h
      simp only [legSum, hother, decide_false, Bool.false_eq_true, not_false_eq_true,
        List.eraseP_cons_of_neg, List.map_cons, List.sum_cons] at ih ⊢
      rw [ih]
      ring

end Sums

/-- What the fills `run` of an order do to the inventory; `held` is the leg an open has already
built. -/
inductive LegStep (held : Option PositionId) (intent : OrderIntent) (run : List Fill)
    (inventory : List OpenPosition) : List OpenPosition → Prop
  | opened (first : Fill) (agg : FillAggregate) (leg : OpenPosition)
      (action : intent.action = .Open) (fresh : held = none) (head : run.head? = some first)
      (average : aggregateFills run = .ok agg) (contract : leg.contract = first.contract)
      (side : leg.side = first.side) (quantity : leg.quantity = agg.quantity)
      (entry : leg.entryPremium = agg.vwap) :
      LegStep held intent run inventory (inventory ++ [leg])
  | extended (positionId : PositionId) (leg : OpenPosition) (quantity : Quantity)
      (entryPremium : PriceCents) (action : intent.action = .Open) (found : held = some positionId)
      (leg_eq : findLeg inventory positionId = some leg)
      (grown : quantity.value = leg.quantity.value + totalQuantity run) :
      LegStep held intent run inventory
        (updateLeg positionId (fun leg => { leg with quantity, entryPremium }) inventory)
  | reduced (positionId : PositionId) (leg : OpenPosition) (quantity : Quantity)
      (action : intent.action = .Close positionId)
      (leg_eq : findLeg inventory positionId = some leg)
      (left : quantity.value = leg.quantity.value - totalQuantity run) :
      LegStep held intent run inventory
        (updateLeg positionId (fun leg => { leg with quantity }) inventory)
  | flattened (positionId : PositionId) (leg : OpenPosition)
      (action : intent.action = .Close positionId)
      (leg_eq : findLeg inventory positionId = some leg)
      (all : totalQuantity run = leg.quantity.value) :
      LegStep held intent run inventory (removeLeg inventory positionId)

section Events

variable {st st₁ st' : EngineState} {orderId : OrderId} {tradeId : TradeId}
  {positionId : PositionId} {first : Fill} {agg : FillAggregate} {orderFills : List Fill}
  {base : Bounded u32} {snapshot : ChainSnapshot} {reasons : CloseReasons} {intent : OrderIntent}

theorem openLeg_legStep {ts : SimTime} (haction : intent.action = .Open)
    (hfirst : orderFills.head? = some first) (hagg : aggregateFills orderFills = .ok agg)
    (h : st.openLeg tradeId first agg ts = .ok (st', positionId)) :
    LegStep none intent orderFills st.inventory st'.inventory := by
  simp only [EngineState.openLeg, bind_ok_iff, pure_ok_iff, Prod.exists, Prod.mk.injEq] at h
  obtain ⟨_, _, -, rfl, -⟩ := h
  exact .opened first agg _ haction rfl hfirst hagg rfl rfl rfl rfl

theorem closeLeg_legStep {reason : ExitReason} {held : Option PositionId}
    (haction : intent.action = .Close positionId) (hagg : aggregateFills orderFills = .ok agg)
    (h : st.closeLeg orderId positionId orderFills first agg base reason snapshot = .ok st') :
    LegStep held intent orderFills st.inventory st'.inventory := by
  have hquantity := (aggregateFills_eq_ok hagg).1
  simp only [EngineState.closeLeg, bind_ok_iff, Prod.exists] at h
  obtain ⟨inventory, full, hreduce, tradeLog, -, st₁, hfills, h⟩ := h
  have hkept := (fills_sameLegs (fun _ _ _ h => closeFill_sameLegs h) hfills).inventory
  have hinventory : st'.inventory = inventory := by
    split_ifs at h
    · simp only [bind_ok_iff, pure_ok_iff] at h
      obtain ⟨_, -, rfl⟩ := h
      exact hkept
    · cases h
      exact hkept
  rw [hinventory]
  obtain ⟨leg, hleg, -, ⟨hall, -, rfl⟩ | ⟨quantity, hleft, -, rfl⟩⟩ := reduceLeg_eq_ok hreduce
  · exact .flattened positionId leg haction hleg (hquantity.symm.trans hall)
  · exact .reduced positionId leg quantity haction hleg (by rw [hleft, hquantity])

theorem settleEntry_inventory {entry : PendingEntry} {count : Nat} {filled : Quantity}
    (h : st.settleEntry orderId entry count filled = .ok st') : st'.inventory = st.inventory := by
  rcases settleEntry_cases h with ⟨-, rfl⟩ | ⟨_, _, -, -, rfl⟩ <;> rfl

theorem registerRemainder_inventory {stepTrade : Option TradeId} {idx produced : Nat}
    {opened : Option PositionId} {filled : Quantity}
    (h : st.registerRemainder stepTrade idx orderId intent opened produced filled reasons =
      .ok st') : st'.inventory = st.inventory := by
  rcases registerRemainder_cases h with ⟨-, rfl⟩ | ⟨_, _, _, _, -, -, -, -, rfl⟩ <;> rfl

/-- A carried run moves the leg of its registry entry. -/
theorem applyCarryGroup_legStep (h : st.applyCarryGroup orderId orderFills snapshot = .ok st') :
    ∃ entry, st.pending[orderId]? = some entry ∧
      LegStep entry.positionId entry.pending.intent orderFills st.inventory st'.inventory := by
  obtain ⟨entry, agg, first, hentry, hagg, hfirst, hcases⟩ := applyCarryGroup_cases h
  refine ⟨entry, hentry, ?_⟩
  rcases hcases with ⟨haction, st₁, tradeId, st₂, positionId, st₃, htrade, hleg, hfills, hsettle⟩ |
    ⟨positionId, st₁, haction, hclose, hsettle⟩
  · obtain ⟨⟨_, -, -, rfl⟩, -⟩ := tradeFor_eq_ok htrade
    rw [settleEntry_inventory hsettle,
      (fills_sameLegs (fun _ _ _ h => openFill_sameLegs h) hfills).inventory]
    unfold EngineState.carryOpenLeg at hleg
    split at hleg
    · rename_i hheld
      obtain ⟨st₁, hextend, h⟩ := bind_ok_iff.1 hleg
      cases h
      simp only [EngineState.extendLeg, bind_ok_iff, pure_ok_iff, Prod.exists] at hextend
      obtain ⟨inventory, premium, hextend, _, -, rfl⟩ := hextend
      obtain ⟨leg, quantity, hfound, hgrown, rfl⟩ := extendOpenLeg_eq_ok hextend
      exact .extended positionId leg quantity premium haction hheld hfound
        (by rw [hgrown, (aggregateFills_eq_ok hagg).1])
    · rename_i hheld
      have hstep := openLeg_legStep haction hfirst hagg hleg
      rw [hheld]
      exact hstep
  · rw [settleEntry_inventory hsettle]
    exact closeLeg_legStep haction hagg hclose

/-- A submitted order that filled moves a leg; one that did not leaves them alone. -/
theorem applySubmit_legStep {stepTrade trade : Option TradeId} {idx : Nat}
    (h : st.applySubmit stepTrade idx orderId intent orderFills reasons snapshot =
      .ok (st', trade)) :
    (orderFills = [] ∧ st'.inventory = st.inventory) ∨
      (orderFills ≠ [] ∧ LegStep none intent orderFills st.inventory st'.inventory) := by
  rcases applySubmit_cases h with ⟨hnone, -, hrest⟩ | ⟨agg, first, hfirst, hagg, hfilled⟩
  · refine .inl ⟨hnone, ?_⟩
    rcases hrest with ⟨-, st₁, tradeId, htrade, -, rfl⟩ | ⟨-, -, rfl⟩
    · obtain ⟨⟨_, -, -, rfl⟩, -⟩ := tradeFor_eq_ok htrade
      rfl
    · rfl
  · have hrun : orderFills ≠ [] := by
      rintro rfl
      cases hfirst
    refine .inr ⟨hrun, ?_⟩
    rcases hfilled with ⟨haction, st₁, tradeId, st₂, positionId, st₃, htrade, -, hleg, hfills,
      hregister⟩ | ⟨positionId, st₁, haction, -, hclose, hregister⟩
    · obtain ⟨⟨_, -, -, rfl⟩, -⟩ := tradeFor_eq_ok htrade
      rw [registerRemainder_inventory hregister,
        (fills_sameLegs (fun _ _ _ h => openFill_sameLegs h) hfills).inventory]
      have hstep := openLeg_legStep haction hfirst hagg hleg
      exact hstep
    · rw [registerRemainder_inventory hregister]
      exact closeLeg_legStep haction hagg hclose

/-- What one event does to the inventory. -/
theorem applyEvent_legStep {s t : StepState} {ev : OrderEvent}
    (h : applyEvent reasons snapshot s ev = .ok t) :
    match ev with
    | .carried orderId run => ∃ entry, s.engine.pending[orderId]? = some entry ∧
        LegStep entry.positionId entry.pending.intent run s.engine.inventory t.engine.inventory
    | .withdrawn _ => t.engine.inventory = s.engine.inventory
    | .submitted _ _ intent run => (run = [] ∧ t.engine.inventory = s.engine.inventory) ∨
        (run ≠ [] ∧ LegStep none intent run s.engine.inventory t.engine.inventory) := by
  cases ev with
  | carried orderId run =>
    obtain ⟨engine, happly, h⟩ := bind_ok_iff.1 h
    cases h
    exact applyCarryGroup_legStep happly
  | withdrawn orderId =>
    cases h
    rfl
  | submitted idx orderId intent run =>
    obtain ⟨⟨engine, trade⟩, happly, h⟩ := bind_ok_iff.1 h
    cases h
    exact applySubmit_legStep happly

end Events

end IronCondor
