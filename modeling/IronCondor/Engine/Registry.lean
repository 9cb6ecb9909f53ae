import IronCondor.Engine.Operations
import IronCondor.Engine.Run
import IronCondor.Lib.OrderedMap

/-! # The registry of resting orders

What each order event does to the registry alone, and where its entries come from: an entry is
what is left of the one order ever submitted under its id. -/
namespace IronCondor

open Checked ExceptRun

section Frame

variable {st st₁ st' : EngineState} {orderId : OrderId} {tradeId : TradeId}
  {positionId : PositionId} {first : Fill} {agg : FillAggregate} {orderFills : List Fill}
  {base : Bounded u32} {snapshot : ChainSnapshot}

/-- The registry and the order counter are left alone. -/
structure KeepsOrders (st st' : EngineState) : Prop where
  pending : st'.pending = st.pending
  order : st'.ids.order = st.ids.order

theorem KeepsOrders.trans (h : KeepsOrders st st₁) (h' : KeepsOrders st₁ st') :
    KeepsOrders st st' :=
  ⟨h'.pending.trans h.pending, h'.order.trans h.order⟩

theorem SameLegs.keepsOrders (h : SameLegs st st') : KeepsOrders st st' :=
  ⟨h.pending, congrArg IdCounters.order h.ids⟩

theorem tradeFor_keepsOrders {trade : Option TradeId} (h : st.tradeFor trade = .ok (st', tradeId)) :
    KeepsOrders st st' := by
  obtain ⟨⟨ids, -, horder, rfl⟩, -⟩ := tradeFor_eq_ok h
  exact ⟨rfl, horder⟩

theorem openLeg_keepsOrders {ts : SimTime}
    (h : st.openLeg tradeId first agg ts = .ok (st', positionId)) : KeepsOrders st st' := by
  simp only [EngineState.openLeg, IdCounters.mintPosition, bind_ok_iff, pure_ok_iff, Prod.exists,
    Prod.mk.injEq] at h
  obtain ⟨_, _, ⟨_, _, -, rfl, rfl⟩, rfl, rfl⟩ := h
  exact ⟨rfl, rfl⟩

theorem carryOpenLeg_keepsOrders {entry : PendingEntry} {ts : SimTime}
    (h : st.carryOpenLeg entry tradeId orderFills first agg ts = .ok (st', positionId)) :
    KeepsOrders st st' := by
  unfold EngineState.carryOpenLeg at h
  split at h
  · obtain ⟨_, hextend, h⟩ := bind_ok_iff.1 h
    cases h
    simp only [EngineState.extendLeg, bind_ok_iff, pure_ok_iff, Prod.exists] at hextend
    obtain ⟨_, _, -, _, -, rfl⟩ := hextend
    exact ⟨rfl, rfl⟩
  · exact openLeg_keepsOrders h

theorem closeLeg_keepsOrders {reason : ExitReason}
    (h : st.closeLeg orderId positionId orderFills first agg base reason snapshot = .ok st') :
    KeepsOrders st st' := by
  simp only [EngineState.closeLeg, bind_ok_iff, Prod.exists] at h
  obtain ⟨_, _, -, _, -, st₁, hfills, h⟩ := h
  have hsame := fills_sameLegs (fun _ _ _ h => closeFill_sameLegs h) hfills
  split_ifs at h
  · simp only [bind_ok_iff, pure_ok_iff] at h
    obtain ⟨_, -, rfl⟩ := h
    exact ⟨hsame.pending, congrArg IdCounters.order hsame.ids⟩
  · cases h
    exact ⟨hsame.pending, congrArg IdCounters.order hsame.ids⟩

end Frame

section Step

/-- What is left of an order: the same order at another size. -/
def Remains (intent left : OrderIntent) : Prop := left = { intent with quantity := left.quantity }

/-- What one event does to the registry. -/
def RegistryStep (pending pending' : Std.TreeMap OrderId PendingEntry) : OrderEvent → Prop
  | .carried orderId run => ∃ entry : PendingEntry, pending[orderId]? = some entry ∧
      ((totalQuantity run = entry.remaining.value ∧ pending' = pending.erase orderId) ∨
        ∃ left : PendingEntry, pending' = pending.insert orderId left ∧
          left.remaining.value = entry.remaining.value - totalQuantity run ∧
          left.pending.orderId = entry.pending.orderId ∧
          Remains entry.pending.intent left.pending.intent)
  | .withdrawn orderId => pending' = pending.erase orderId
  | .submitted _ orderId intent run =>
      (¬ (intent.tif = .Gtc ∧ totalQuantity run < intent.quantity.value) ∧ pending' = pending) ∨
        ∃ left : PendingEntry, intent.tif = .Gtc ∧ pending' = pending.insert orderId left ∧
          left.remaining.value = intent.quantity.value - totalQuantity run ∧
          left.pending.orderId = orderId ∧ Remains intent left.pending.intent

variable {st st' : EngineState} {orderId : OrderId} {orderFills : List Fill}
  {snapshot : ChainSnapshot} {reasons : CloseReasons}

theorem settleEntry_registry {entry entry₀ : PendingEntry} {count : Nat} {agg : FillAggregate}
    (hentry : st.pending[orderId]? = some entry₀) (hpending : entry.pending = entry₀.pending)
    (hagg : agg.quantity.value = totalQuantity orderFills)
    (h : st.settleEntry orderId entry count agg.quantity = .ok st') :
    RegistryStep st.pending st'.pending (.carried orderId orderFills) ∧
      st'.ids.order = st.ids.order := by
  rcases settleEntry_cases h with ⟨hall, rfl⟩ | ⟨_, quantity, -, hquantity, rfl⟩
  · refine ⟨⟨entry₀, hentry, .inl ⟨?_, rfl⟩⟩, rfl⟩
    rw [← hagg, hall, PendingEntry.remaining, hpending]
  · refine ⟨⟨entry₀, hentry, .inr ⟨_, rfl, ?_, ?_, ?_⟩⟩, rfl⟩
    · have hremaining : entry.remaining = entry₀.remaining := by
        rw [PendingEntry.remaining, hpending]
      rw [← hagg, ← hremaining]
      exact hquantity
    · rw [hpending]
    · rw [hpending]
      rfl

theorem registerRemainder_registry {stepTrade : Option TradeId} {idx produced : Nat}
    {intent : OrderIntent} {opened : Option PositionId} {agg : FillAggregate}
    (hagg : agg.quantity.value = totalQuantity orderFills)
    (h : st.registerRemainder stepTrade idx orderId intent opened produced agg.quantity reasons =
      .ok st') :
    RegistryStep st.pending st'.pending (.submitted idx orderId intent orderFills) ∧
      st'.ids.order = st.ids.order := by
  rw [RegistryStep, ← hagg]
  rcases registerRemainder_cases h with ⟨hnot, rfl⟩ | ⟨_, _, _, _, hgtc, hremainder, -, -, rfl⟩
  · exact ⟨.inl ⟨hnot, rfl⟩, rfl⟩
  · exact ⟨.inr ⟨_, hgtc, rfl, hremainder, rfl, rfl⟩, rfl⟩

theorem applyEvent_registry {s t : StepState} {ev : OrderEvent}
    (h : applyEvent reasons snapshot s ev = .ok t) :
    RegistryStep s.engine.pending t.engine.pending ev ∧
      t.engine.ids.order = s.engine.ids.order := by
  cases ev with
  | carried orderId run =>
    obtain ⟨engine, hengine, h⟩ := bind_ok_iff.1 h
    cases h
    obtain ⟨entry, agg, first, hentry, hagg, -, hcases⟩ := applyCarryGroup_cases hengine
    have hqty := (aggregateFills_eq_ok hagg).1
    rcases hcases with ⟨-, st₁, tradeId, st₂, positionId, st₃, htrade, hleg, hfills, hsettle⟩ |
      ⟨positionId, st₁, -, hclose, hsettle⟩
    · have hkeeps := ((tradeFor_keepsOrders htrade).trans (carryOpenLeg_keepsOrders hleg)).trans
        (fills_sameLegs (fun _ _ _ h => openFill_sameLegs h) hfills).keepsOrders
      rw [← hkeeps.pending] at hentry
      rw [← hkeeps.pending, ← hkeeps.order]
      refine settleEntry_registry hentry ?_ hqty hsettle
      rfl
    · have hkeeps := closeLeg_keepsOrders hclose
      rw [← hkeeps.pending] at hentry
      rw [← hkeeps.pending, ← hkeeps.order]
      refine settleEntry_registry hentry ?_ hqty hsettle
      rfl
  | withdrawn orderId =>
    cases h
    exact ⟨rfl, rfl⟩
  | submitted idx orderId intent run =>
    obtain ⟨⟨engine, trade⟩, hengine, h⟩ := bind_ok_iff.1 h
    cases h
    rcases applySubmit_cases hengine with ⟨rfl, hgtc, hrest⟩ | ⟨agg, first, -, hagg, hfilled⟩
    · rcases hrest with ⟨-, st₁, tradeId, htrade, -, rfl⟩ | ⟨-, -, rfl⟩
      · have hkeeps := tradeFor_keepsOrders htrade
        rw [← hkeeps.pending, ← hkeeps.order]
        exact ⟨.inr ⟨_, hgtc, rfl, by simp, rfl, rfl⟩, rfl⟩
      · exact ⟨.inr ⟨_, hgtc, rfl, by simp, rfl, rfl⟩, rfl⟩
    · have hqty := (aggregateFills_eq_ok hagg).1
      rcases hfilled with ⟨-, st₁, tradeId, st₂, positionId, st₃, htrade, -, hleg, hfills,
        hregister⟩ | ⟨positionId, st₁, -, -, hclose, hregister⟩
      · have hkeeps := ((tradeFor_keepsOrders htrade).trans (openLeg_keepsOrders hleg)).trans
          (fills_sameLegs (fun _ _ _ h => openFill_sameLegs h) hfills).keepsOrders
        rw [← hkeeps.pending, ← hkeeps.order]
        exact registerRemainder_registry hqty hregister
      · have hkeeps := closeLeg_keepsOrders hclose
        rw [← hkeeps.pending, ← hkeeps.order]
        exact registerRemainder_registry hqty hregister

end Step

section Issued

variable {X : Type}

/-- Every order the calls of a log submitted, under its id. -/
def issued (log : List (Batch X)) : List (OrderId × OrderIntent) := log.flatMap Batch.submissions

theorem issued_append (log : List (Batch X)) (b : Batch X) :
    issued (log ++ [b]) = issued log ++ b.submissions := by
  simp [issued]

/-- Order ids are handed out in increasing order, so an id names one order. -/
def IssuedInOrder (orders : List (OrderId × OrderIntent)) : Prop :=
  orders.Pairwise fun a b => a.1.value < b.1.value

theorem IssuedInOrder.unique {orders : List (OrderId × OrderIntent)} (h : IssuedInOrder orders)
    {orderId : OrderId} {intent intent' : OrderIntent} (hm : (orderId, intent) ∈ orders)
    (hm' : (orderId, intent') ∈ orders) : intent = intent' := by
  have hdistinct : (orders.map Prod.fst).Nodup :=
    List.pairwise_map.2 (h.imp fun hlt heq => absurd (congrArg Id.value heq) (ne_of_lt hlt))
  exact congrArg Prod.snd (List.inj_on_of_nodup_map hdistinct hm hm' rfl)

/-- Minting takes consecutive order ids and leaves the other counters alone. -/
theorem mintSubmitIds_eq_ok {ids ids' : IdCounters} {cmds : List OrderCommand}
    {submitIds : List OrderId} (h : mintSubmitIds ids cmds = .ok (ids', submitIds)) :
    ids'.position = ids.position ∧ submitIds.length = (cmds.filterMap (·.intent?)).length ∧
      ids.order.value ≤ ids'.order.value ∧
      submitIds.Pairwise (fun a b => a.value < b.value) ∧
      ∀ orderId ∈ submitIds, ids.order.value ≤ orderId.value ∧
        orderId.value < ids'.order.value := by
  induction cmds generalizing ids submitIds with
  | nil =>
    cases h
    exact ⟨rfl, rfl, le_rfl, .nil, List.forall_mem_nil _⟩
  | cons cmd cmds ih =>
    unfold mintSubmitIds at h
    split at h
    · rename_i hintent
      simpa [hintent] using ih h
    · rename_i intent hintent
      simp only [IdCounters.mintOrder, bind_ok_iff, pure_ok_iff, Prod.exists, Prod.mk.injEq] at h
      obtain ⟨_, _, ⟨next, orderId, hmint, rfl, rfl⟩, _, rest, hrest, rfl, rfl⟩ := h
      obtain ⟨hid, hnext⟩ := mint_eq_ok hmint
      have hvalue : orderId.value = ids.order.value := congrArg Bounded.value hid
      obtain ⟨hposition, hlength, hle, hsorted, hbounds⟩ := ih hrest
      change next.value ≤ _ at hle
      refine ⟨hposition, by simp [hintent, hlength], by omega,
        List.pairwise_cons.2 ⟨fun other hother => ?_, hsorted⟩,
        List.forall_mem_cons.2 ⟨⟨hvalue.ge, by omega⟩, fun other hother => ?_⟩⟩
      · have := (hbounds other hother).1
        change next.value ≤ _ at this
        omega
      · have := hbounds other hother
        change next.value ≤ _ ∧ _ at this
        omega

/-- Every registry entry is what remains of an order submitted under its id. -/
def Sourced (orders : List (OrderId × OrderIntent))
    (pending : Std.TreeMap OrderId PendingEntry) : Prop :=
  ∀ (orderId : OrderId) (entry : PendingEntry), pending[orderId]? = some entry →
    entry.pending.orderId = orderId ∧
      ∃ intent, (orderId, intent) ∈ orders ∧ Remains intent entry.pending.intent

theorem Remains.trans {intent mid left : OrderIntent} (h : Remains intent mid)
    (h' : Remains mid left) : Remains intent left := by
  unfold Remains at *
  rw [h', h]

theorem Sourced.insert {orders : List (OrderId × OrderIntent)}
    {pending : Std.TreeMap OrderId PendingEntry} {orderId : OrderId} {entry : PendingEntry}
    {intent : OrderIntent} (h : Sourced orders pending) (hid : entry.pending.orderId = orderId)
    (hmem : (orderId, intent) ∈ orders) (hremains : Remains intent entry.pending.intent) :
    Sourced orders (pending.insert orderId entry) := by
  intro oid e he
  rw [OrderedMap.getElem?_insert] at he
  split_ifs at he with hoid
  · cases he
    subst hoid
    exact ⟨hid, intent, hmem, hremains⟩
  · exact h oid e he

theorem Sourced.erase {orders : List (OrderId × OrderIntent)}
    {pending : Std.TreeMap OrderId PendingEntry} {orderId : OrderId} (h : Sourced orders pending) :
    Sourced orders (pending.erase orderId) := by
  intro oid e he
  rw [OrderedMap.getElem?_erase] at he
  split_ifs at he
  exact h oid e he

theorem Sourced.step {orders : List (OrderId × OrderIntent)}
    {pending pending' : Std.TreeMap OrderId PendingEntry} {ev : OrderEvent}
    (h : Sourced orders pending) (hev : ∀ sub, ev.submission? = some sub → sub ∈ orders)
    (hstep : RegistryStep pending pending' ev) : Sourced orders pending' := by
  cases ev with
  | carried orderId run =>
    obtain ⟨entry, hentry, ⟨-, rfl⟩ | ⟨left, rfl, -, hid, hleft⟩⟩ := hstep
    · exact h.erase
    · obtain ⟨hoid, intent, hmem, hremains⟩ := h orderId entry hentry
      exact h.insert (hid.trans hoid) hmem (hremains.trans hleft)
  | withdrawn orderId =>
    obtain rfl := hstep
    exact h.erase
  | submitted idx orderId intent run =>
    obtain ⟨-, rfl⟩ | ⟨left, -, rfl, -, hid, hleft⟩ := hstep
    · exact h
    · exact h.insert hid (hev _ rfl) hleft

theorem Sourced.mono {orders orders' : List (OrderId × OrderIntent)}
    {pending : Std.TreeMap OrderId PendingEntry} (h : Sourced orders pending)
    (hsub : orders ⊆ orders') : Sourced orders' pending := by
  intro oid e he
  obtain ⟨hid, intent, hmem, hremains⟩ := h oid e he
  exact ⟨hid, intent, hsub hmem, hremains⟩

variable [ExecutionModel X] {b : Batch X} {after : EngineState}

/-- The events of a call submit exactly its own orders. -/
theorem Batch.Executed.submissions (h : b.Executed after) :
    b.events.filterMap OrderEvent.submission? = b.submissions :=
  correlate_submissions h.correlated

theorem Batch.Executed.submission_mem (h : b.Executed after) {ev : OrderEvent}
    (hev : ev ∈ b.events) {sub : OrderId × OrderIntent} (hsub : ev.submission? = some sub) :
    sub ∈ b.submissions :=
  h.submissions ▸ List.mem_filterMap.2 ⟨ev, hev, hsub⟩

/-- The order counter of the books a call starts from and ends with. -/
theorem Batch.Executed.order_eq (h : b.Executed after) : after.ids.order = b.start.ids.order := by
  obtain ⟨trade, hfold⟩ := h.applied
  exact foldlM_invariant (fun s : StepState => s.engine.ids.order = b.start.ids.order)
    (fun s ev t hs ht => (applyEvent_registry ht).2.trans hs) rfl hfold

/-- The orders of a run, and the source of every resting one. -/
structure OrdersIssued (log : List (Batch X)) (st : EngineState) : Prop where
  inOrder : IssuedInOrder (issued log)
  minted : ∀ order ∈ issued log, order.1.value < st.ids.order.value
  sourced : Sourced (issued log) st.pending

theorem OrdersIssued.fresh {log : List (Batch X)} (h : OrdersIssued log b.before)
    (hexec : b.Executed after) :
    IssuedInOrder (issued (log ++ [b])) ∧
      ∀ order ∈ issued (log ++ [b]), order.1.value < after.ids.order.value := by
  obtain ⟨ids, hmint, hstart⟩ := hexec.minted
  obtain ⟨-, hlength, hle, hsorted, hbounds⟩ := mintSubmitIds_eq_ok hmint
  have horder : after.ids.order = ids.order := hexec.order_eq.trans (by rw [hstart])
  have hsub : ∀ order ∈ b.submissions, b.before.ids.order.value ≤ order.1.value ∧
      order.1.value < after.ids.order.value := by
    intro order horder'
    rw [horder]
    exact hbounds _ (List.of_mem_zip horder').1
  have hpairs : b.submissions.Pairwise fun a c => a.1.value < c.1.value := by
    have hfst : b.submissions.map Prod.fst = b.submitIds :=
      List.map_fst_zip (by rw [hlength])
    rw [← hfst, List.pairwise_map] at hsorted
    exact hsorted
  rw [issued_append]
  refine ⟨List.pairwise_append.2 ⟨h.inOrder, hpairs, fun order hold new hnew => ?_⟩,
    List.forall_mem_append.2 ⟨fun order hold => ?_, fun order hnew => (hsub order hnew).2⟩⟩
  · exact (h.minted order hold).trans_le (hsub new hnew).1
  · have hold := h.minted order hold
    rw [horder]
    omega

end Issued

end IronCondor
