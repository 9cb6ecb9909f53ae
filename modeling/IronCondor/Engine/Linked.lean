import IronCondor.Engine.Operations
import IronCondor.Lib.OrderedMap

/-! # Three records of one leg

The inventory, the trade log and the bundle collector each keep the open legs, and each is
updated by its own call. `Linked` says that they describe the same legs; every order event
preserves it, as long as an order's fills trade on the order's own side. -/
namespace IronCondor

open Checked ExceptRun

/-- The ids of the open legs, in inventory order. -/
def legIds (inventory : List OpenPosition) : List PositionId :=
  inventory.map OpenPosition.positionId

/-- The three stores hold the same legs and agree on what they hold of each. -/
structure Linked (st : EngineState) : Prop where
  ascending : (legIds st.inventory).Pairwise fun a b => a.value < b.value
  minted : ∀ positionId ∈ legIds st.inventory, positionId.value < st.ids.position.value
  positive : ∀ leg ∈ st.inventory, 0 < leg.quantity.value
  tradeLog : ∀ positionId : PositionId,
    (st.tradeLog.opens[positionId]?.map fun leg =>
        (leg.contract, leg.side, leg.entryPremium, leg.remaining.value)) =
      (findLeg st.inventory positionId).map fun leg =>
        (leg.contract, leg.side, leg.entryPremium, leg.quantity.value)
  bundle : ∀ positionId : PositionId,
    (st.bundle.openLegs[positionId]?.map fun leg => (leg.tradeId, leg.side, leg.entryPremium)) =
      st.tradeLog.opens[positionId]?.map fun leg => (leg.tradeId, leg.side, leg.entryPremium)

variable {Own : ContractKey → ContractKey → Prop}

/-- A resting open has its trade, and agrees with the leg it already built while that is open;
`Own` relates the leg's contract to the order's. -/
structure Anchored (Own : ContractKey → ContractKey → Prop) (st : EngineState)
    (entry : PendingEntry) : Prop where
  trade : entry.tradeId ≠ none
  minted : ∀ positionId, entry.positionId = some positionId →
    positionId.value < st.ids.position.value
  leg : ∀ (positionId : PositionId) (leg : OpenLeg), entry.positionId = some positionId →
    st.tradeLog.opens[positionId]? = some leg →
      entry.tradeId = some leg.tradeId ∧ leg.side = entry.pending.intent.side ∧
        Own leg.contract entry.pending.intent.contract

/-- Every resting open order is anchored. -/
def OpensAnchored (Own : ContractKey → ContractKey → Prop) (st : EngineState) : Prop :=
  ∀ (orderId : OrderId) (entry : PendingEntry), st.pending[orderId]? = some entry →
    entry.pending.intent.action = .Open → Anchored Own st entry

/-- The fills of an event trade on its order's own side and contract. -/
def Echoes (Own : ContractKey → ContractKey → Prop) (st : EngineState) : OrderEvent → Prop
  | .carried orderId run => ∀ entry : PendingEntry, st.pending[orderId]? = some entry →
      ∀ fill ∈ run, fill.side = entry.pending.intent.side ∧
        Own fill.contract entry.pending.intent.contract
  | .withdrawn _ => True
  | .submitted _ _ intent run => ∀ fill ∈ run, fill.side = intent.side ∧
      Own fill.contract intent.contract

namespace Linked

variable {st st' : EngineState} {positionId : PositionId}

theorem nodup (h : Linked st) : (legIds st.inventory).Nodup :=
  h.ascending.imp fun hlt heq => absurd (congrArg Id.value heq) (ne_of_lt hlt)

/-- An operation that leaves the legs alone keeps them linked. -/
theorem frame (h : Linked st) (hinventory : st'.inventory = st.inventory)
    (hids : st'.ids.position = st.ids.position) (hopens : st'.tradeLog.opens = st.tradeLog.opens)
    (hlegs : st'.bundle.openLegs = st.bundle.openLegs) : Linked st' where
  ascending := hinventory ▸ h.ascending
  minted := by
    rw [hinventory, hids]
    exact h.minted
  positive := hinventory ▸ h.positive
  tradeLog := by
    rw [hinventory, hopens]
    exact h.tradeLog
  bundle := by
    rw [hlegs, hopens]
    exact h.bundle

/-- The log holds exactly the open legs. -/
theorem opens_isSome (h : Linked st) :
    (st.tradeLog.opens[positionId]?).isSome = (findLeg st.inventory positionId).isSome := by
  have := congrArg Option.isSome (h.tradeLog positionId)
  rwa [Option.isSome_map, Option.isSome_map] at this

/-- The collector holds exactly the open legs. -/
theorem openLegs_isSome (h : Linked st) :
    (st.bundle.openLegs[positionId]?).isSome = (findLeg st.inventory positionId).isSome := by
  have := congrArg Option.isSome (h.bundle positionId)
  rw [Option.isSome_map, Option.isSome_map] at this
  rw [this, h.opens_isSome]

/-- The log's copy of an open leg. -/
theorem opens_of_findLeg (h : Linked st) {leg : OpenPosition}
    (hleg : findLeg st.inventory positionId = some leg) :
    ∃ entry : OpenLeg, st.tradeLog.opens[positionId]? = some entry ∧
      entry.contract = leg.contract ∧ entry.side = leg.side ∧
      entry.entryPremium = leg.entryPremium ∧ entry.remaining.value = leg.quantity.value := by
  have hmap := h.tradeLog positionId
  rw [hleg] at hmap
  obtain ⟨entry, hentry, hproj⟩ := Option.map_eq_some_iff.1 hmap
  simp only [Prod.mk.injEq] at hproj
  exact ⟨entry, hentry, hproj.1, hproj.2.1, hproj.2.2.1, hproj.2.2.2⟩

end Linked

section Empty

theorem linked_new (initial : Cents) : Linked (.new initial) where
  ascending := .nil
  minted := List.forall_mem_nil _
  positive := List.forall_mem_nil _
  tradeLog _ := rfl
  bundle _ := rfl

theorem opensAnchored_new (initial : Cents) : OpensAnchored Own (.new initial) := by
  intro orderId entry h
  simp [EngineState.new] at h

end Empty

/-- A leg never changes its trade, contract or side, and no id is taken again. -/
structure Keeps (st st' : EngineState) : Prop where
  minted : st.ids.position.value ≤ st'.ids.position.value
  leg : ∀ (positionId : PositionId) (leg' : OpenLeg), positionId.value < st.ids.position.value →
    st'.tradeLog.opens[positionId]? = some leg' →
      ∃ leg : OpenLeg, st.tradeLog.opens[positionId]? = some leg ∧ leg.tradeId = leg'.tradeId ∧
        leg.contract = leg'.contract ∧ leg.side = leg'.side

namespace Keeps

variable {st st₁ st' : EngineState}

theorem frame (hids : st'.ids.position = st.ids.position)
    (hopens : st'.tradeLog.opens = st.tradeLog.opens) : Keeps st st' where
  minted := by rw [hids]
  leg positionId leg' _ h := ⟨leg', hopens ▸ h, rfl, rfl, rfl⟩

theorem pending (pending : Std.TreeMap OrderId PendingEntry) : Keeps st { st with pending } :=
  .frame rfl rfl

theorem trans (h : Keeps st st₁) (h' : Keeps st₁ st') : Keeps st st' where
  minted := h.minted.trans h'.minted
  leg positionId leg' hlt hleg' := by
    obtain ⟨leg₁, hleg₁, ht₁, hc₁, hs₁⟩ := h'.leg positionId leg' (hlt.trans_le h.minted) hleg'
    obtain ⟨leg, hleg, ht, hc, hs⟩ := h.leg positionId leg₁ hlt hleg₁
    exact ⟨leg, hleg, ht.trans ht₁, hc.trans hc₁, hs.trans hs₁⟩

theorem anchored {entry : PendingEntry} (h : Keeps st st') (ha : Anchored Own st entry) :
    Anchored Own st' entry where
  trade := ha.trade
  minted positionId hp := (ha.minted positionId hp).trans_le h.minted
  leg positionId leg' hp hleg' := by
    obtain ⟨leg, hleg, ht, hc, hs⟩ := h.leg positionId leg' (ha.minted positionId hp) hleg'
    obtain ⟨htrade, hside, hown⟩ := ha.leg positionId leg hp hleg
    exact ⟨ht ▸ htrade, hs ▸ hside, hc ▸ hown⟩

/-- The registry stays anchored when only legs moved. -/
theorem opensAnchored (h : Keeps st st') (hpending : st'.pending = st.pending)
    (ha : OpensAnchored Own st) : OpensAnchored Own st' :=
  fun orderId entry he hopen => h.anchored (ha orderId entry (hpending ▸ he) hopen)

end Keeps

section Operations

variable {st st' : EngineState} {orderId : OrderId} {tradeId : TradeId} {positionId : PositionId}
  {first : Fill} {agg : FillAggregate} {orderFills : List Fill} {base multiplier : Bounded u32}
  {ts : SimTime}

/-- A new leg enters all three stores under a fresh id. -/
theorem openLeg_linked (h : Linked st)
    (hopen : st.openLeg tradeId first agg ts = .ok (st', positionId)) :
    Linked st' ∧ Keeps st st' ∧ st'.pending = st.pending ∧ st'.ids.order = st.ids.order ∧
      positionId.value < st'.ids.position.value ∧
      ∃ leg : OpenLeg, st'.tradeLog.opens[positionId]? = some leg ∧ leg.tradeId = tradeId ∧
        leg.side = first.side ∧ leg.contract = first.contract := by
  simp only [EngineState.openLeg, IdCounters.mintPosition, bind_ok_iff, pure_ok_iff, Prod.exists,
    Prod.mk.injEq] at hopen
  obtain ⟨_, _, ⟨next, id, hmint, rfl, rfl⟩, rfl, rfl⟩ := hopen
  obtain ⟨hid, hnext⟩ := mint_eq_ok hmint
  have hvalue : id.value = st.ids.position.value := congrArg Bounded.value hid
  have hnew : ∀ other ∈ st.inventory, other.positionId ≠ id := by
    intro other hother heq
    have hlt := h.minted _ (List.mem_map_of_mem hother)
    rw [heq, hvalue] at hlt
    exact lt_irrefl _ hlt
  refine ⟨⟨?_, ?_, ?_, ?_, ?_⟩, ⟨?_, ?_⟩, rfl, rfl, ?_, ?_⟩
  · rw [legIds, List.map_append, List.map_singleton]
    refine List.pairwise_append.2 ⟨h.ascending, List.pairwise_singleton _ _, ?_⟩
    intro other hother leg hleg
    rw [List.mem_singleton.1 hleg]
    exact hvalue ▸ h.minted other hother
  · rw [legIds, List.map_append, List.map_singleton]
    refine List.forall_mem_append.2 ⟨fun pid hpid => ?_, List.forall_mem_singleton.2 ?_⟩
    · exact (h.minted pid hpid).trans (show st.ids.position.value < next.value by omega)
    · change id.value < next.value
      omega
  · exact fun leg _ => leg.quantity.pos
  · intro pid
    rw [findLeg_append hnew]
    simp only [TradeLogCollector.recordOpen, OrderedMap.getElem?_insert]
    split_ifs
    · rfl
    · exact h.tradeLog pid
  · intro pid
    simp only [TradeLogCollector.recordOpen, BundleCollector.registerOpenLeg,
      OrderedMap.getElem?_insert]
    split_ifs
    · rfl
    · exact h.bundle pid
  · change st.ids.position.value ≤ next.value
    omega
  · intro pid leg' hlt hleg'
    simp only [TradeLogCollector.recordOpen, OrderedMap.getElem?_insert] at hleg'
    rw [if_neg (fun heq => by rw [heq, hvalue] at hlt; exact lt_irrefl _ hlt)] at hleg'
    exact ⟨leg', hleg', rfl, rfl, rfl⟩
  · change id.value < next.value
    omega
  · exact ⟨_, (OrderedMap.getElem?_insert _ _ _ _).trans (if_pos rfl), rfl, rfl, rfl⟩

/-- An extension re-weights the entry in all three stores. -/
theorem extendLeg_linked (h : Linked st)
    (hleg : ∀ leg : OpenLeg, st.tradeLog.opens[positionId]? = some leg →
      leg.tradeId = tradeId ∧ leg.side = first.side)
    (hextend : st.extendLeg tradeId positionId orderFills first agg = .ok st') :
    Linked st' ∧ Keeps st st' ∧ st'.pending = st.pending ∧ st'.ids = st.ids := by
  simp only [EngineState.extendLeg, TradeLogCollector.recordOpenExtend, bind_ok_iff, okOr_eq_ok,
    narrow_eq_ok, pure_ok_iff, Prod.exists] at hextend
  obtain ⟨inventory, entryPremium, hinventory, _, ⟨old, hold, remaining, hremaining, rfl⟩, rfl⟩ :=
    hextend
  obtain ⟨leg, quantity, hfound, hquantity, rfl⟩ := extendOpenLeg_eq_ok hinventory
  obtain ⟨entry, hentry, hc, hs, -, hq⟩ := h.opens_of_findLeg hfound
  cases hold.symm.trans hentry
  obtain ⟨htrade, hside⟩ := hleg old hold
  have hids : legIds (updateLeg positionId (fun leg => { leg with quantity, entryPremium })
      st.inventory) = legIds st.inventory := updateLeg_ids fun _ => rfl
  refine ⟨⟨?_, ?_, fun leg _ => leg.quantity.pos, ?_, ?_⟩, ⟨le_rfl, ?_⟩, rfl, rfl⟩
  · rw [hids]
    exact h.ascending
  · rw [hids]
    exact h.minted
  · intro pid
    dsimp only
    rw [findLeg_updateLeg (by exact fun _ => rfl), OrderedMap.getElem?_insert]
    split_ifs
    · simp only [hfound, Option.map_some, hc, hs, Option.some.injEq, Prod.mk.injEq, true_and]
      omega
    · exact h.tradeLog pid
  · intro pid
    simp only [BundleCollector.registerOpenLeg, OrderedMap.getElem?_insert]
    split_ifs
    · simp [htrade, hside]
    · exact h.bundle pid
  · intro pid leg' _ hleg'
    rw [OrderedMap.getElem?_insert] at hleg'
    split_ifs at hleg' with hpid
    · cases hleg'
      exact ⟨old, hpid ▸ hold, rfl, rfl, rfl⟩
    · exact ⟨leg', hleg', rfl, rfl, rfl⟩

theorem Linked.removed (h : Linked st)
    (hinventory : st'.inventory = removeLeg st.inventory positionId)
    (hids : st'.ids.position = st.ids.position)
    (hopens : st'.tradeLog.opens = st.tradeLog.opens.erase positionId)
    (hlegs : st'.bundle.openLegs = st.bundle.openLegs.erase positionId) :
    Linked st' ∧ Keeps st st' := by
  have hsub : (legIds st'.inventory).Sublist (legIds st.inventory) := by
    rw [hinventory]
    exact List.eraseP_sublist.map _
  refine ⟨⟨h.ascending.sublist hsub, ?_, fun leg _ => leg.quantity.pos, ?_, ?_⟩, ⟨by rw [hids], ?_⟩⟩
  · rw [hids]
    exact fun pid hpid => h.minted pid (hsub.subset hpid)
  · intro pid
    rw [hinventory, hopens, findLeg_removeLeg h.nodup, OrderedMap.getElem?_erase]
    split_ifs
    · rfl
    · exact h.tradeLog pid
  · intro pid
    rw [hlegs, hopens, OrderedMap.getElem?_erase, OrderedMap.getElem?_erase]
    split_ifs
    · rfl
    · exact h.bundle pid
  · intro pid leg' _ hleg'
    rw [hopens, OrderedMap.getElem?_erase] at hleg'
    split_ifs at hleg'
    exact ⟨leg', hleg', rfl, rfl, rfl⟩

theorem Linked.resized {entry : OpenLeg} {remaining : Bounded u32} {quantity : Quantity}
    (h : Linked st) (hentry : st.tradeLog.opens[positionId]? = some entry)
    (hremaining : remaining.value = quantity.value)
    (hinventory : st'.inventory =
      updateLeg positionId (fun leg => { leg with quantity }) st.inventory)
    (hids : st'.ids.position = st.ids.position)
    (hopens : st'.tradeLog.opens = st.tradeLog.opens.insert positionId { entry with remaining })
    (hlegs : st'.bundle.openLegs = st.bundle.openLegs) : Linked st' ∧ Keeps st st' := by
  have hlegIds : legIds st'.inventory = legIds st.inventory := by
    rw [hinventory]
    exact updateLeg_ids fun _ => rfl
  refine ⟨⟨?_, ?_, fun leg _ => leg.quantity.pos, ?_, ?_⟩, ⟨by rw [hids], ?_⟩⟩
  · rw [hlegIds]
    exact h.ascending
  · rw [hlegIds, hids]
    exact h.minted
  · intro pid
    rw [hinventory, hopens, findLeg_updateLeg (by exact fun _ => rfl), OrderedMap.getElem?_insert]
    split_ifs
    · have hmap := h.tradeLog positionId
      rw [hentry, Option.map_some] at hmap
      obtain ⟨leg, hleg, hproj⟩ := Option.map_eq_some_iff.1 hmap.symm
      simp only [Prod.mk.injEq] at hproj
      simp [hleg, hproj, hremaining]
    · exact h.tradeLog pid
  · intro pid
    rw [hlegs, hopens, OrderedMap.getElem?_insert, h.bundle pid]
    split_ifs with hpid
    · simp [hpid, hentry]
    · rfl
  · intro pid leg' _ hleg'
    rw [hopens, OrderedMap.getElem?_insert] at hleg'
    split_ifs at hleg' with hpid
    · cases hleg'
      exact ⟨entry, hpid ▸ hentry, rfl, rfl, rfl⟩
    · exact ⟨leg', hleg', rfl, rfl, rfl⟩

/-- A close takes the same quantity off the leg in the inventory and in the log, and removes it
from all three stores together. -/
theorem closeLeg_linked {reason : ExitReason} {snapshot : ChainSnapshot} (h : Linked st)
    (hclose : st.closeLeg orderId positionId orderFills first agg base reason snapshot =
      .ok st') :
    Linked st' ∧ Keeps st st' ∧ st'.pending = st.pending ∧ st'.ids = st.ids := by
  simp only [EngineState.closeLeg, bind_ok_iff, Prod.exists] at hclose
  obtain ⟨inventory, full, hreduce, tradeLog, hrecord, st₁, hfills, hclose⟩ := hclose
  obtain ⟨leg, hfound, hle, hcases⟩ := reduceLeg_eq_ok hreduce
  obtain ⟨entry, trade, hentry, -, -, -, hopens⟩ := TradeLogCollector.recordClose_eq_ok hrecord
  obtain ⟨entry', hentry', hc, hs, hp, hq⟩ := h.opens_of_findLeg hfound
  cases hentry.symm.trans hentry'
  obtain ⟨hinventory, hids, hlog, hlegs, hpending⟩ :=
    fills_sameLegs (fun _ _ _ h => closeFill_sameLegs h) hfills
  rcases hcases with ⟨hall, rfl, rfl⟩ | ⟨quantity, hquantity, rfl, rfl⟩
  · simp only [if_true, BundleCollector.recordCloseTerminal, bind_ok_iff, okOr_eq_ok,
      pure_ok_iff] at hclose
    obtain ⟨_, ⟨_, -, _, -, rfl⟩, rfl⟩ := hclose
    rcases hopens with ⟨-, hopens⟩ | ⟨remaining, hlt, -, -⟩
    · rw [← and_assoc]
      exact ⟨h.removed hinventory (congrArg IdCounters.position hids)
        ((congrArg TradeLogCollector.opens hlog).trans hopens)
        (congrArg (Std.TreeMap.erase · positionId) hlegs), hpending, hids⟩
    · omega
  · simp only [Bool.false_eq_true, if_false, pure_ok_iff] at hclose
    subst hclose
    rcases hopens with ⟨hge, -⟩ | ⟨remaining, -, hremaining, hopens⟩
    · have := quantity.pos
      omega
    · rw [← and_assoc]
      exact ⟨h.resized hentry (by omega) hinventory (congrArg IdCounters.position hids)
        ((congrArg TradeLogCollector.opens hlog).trans hopens) hlegs, hpending, hids⟩

end Operations

section Registry

variable {st st' : EngineState} {orderId : OrderId} {entry : PendingEntry}

/-- A new registry entry leaves the others anchored. -/
theorem OpensAnchored.insert (h : OpensAnchored Own st)
    (hentry : entry.pending.intent.action = .Open → Anchored Own st entry) :
    OpensAnchored Own { st with pending := st.pending.insert orderId entry } := by
  intro oid e he hopen
  rw [OrderedMap.getElem?_insert] at he
  split_ifs at he
  · cases he
    exact (Keeps.pending _).anchored (hentry hopen)
  · exact (Keeps.pending _).anchored (h oid e he hopen)

theorem OpensAnchored.erase (h : OpensAnchored Own st) :
    OpensAnchored Own { st with pending := st.pending.erase orderId } := by
  intro oid e he hopen
  rw [OrderedMap.getElem?_erase] at he
  split_ifs at he
  exact (Keeps.pending _).anchored (h oid e he hopen)

/-- The fields an anchored entry is about. -/
theorem Anchored.congr {entry' : PendingEntry} (h : Anchored Own st entry)
    (htrade : entry'.tradeId = entry.tradeId) (hposition : entry'.positionId = entry.positionId)
    (hside : entry'.pending.intent.side = entry.pending.intent.side)
    (hcontract : entry'.pending.intent.contract = entry.pending.intent.contract) :
    Anchored Own st entry' where
  trade := htrade ▸ h.trade
  minted := hposition ▸ h.minted
  leg := by
    rw [htrade, hposition, hside, hcontract]
    exact h.leg

theorem settleEntry_anchored {count : Nat} {filled : Quantity} (h : OpensAnchored Own st)
    (hentry : entry.pending.intent.action = .Open → Anchored Own st entry)
    (hsettle : st.settleEntry orderId entry count filled = .ok st') : OpensAnchored Own st' := by
  rcases settleEntry_cases hsettle with ⟨-, rfl⟩ | ⟨_, _, -, -, rfl⟩
  · exact h.erase
  · exact h.insert fun hopen => (hentry hopen).congr rfl rfl rfl rfl

theorem settleEntry_linked {count : Nat} {filled : Quantity} (h : Linked st)
    (hsettle : st.settleEntry orderId entry count filled = .ok st') : Linked st' ∧ Keeps st st' := by
  rcases settleEntry_cases hsettle with ⟨-, rfl⟩ | ⟨_, _, -, -, rfl⟩ <;>
    exact ⟨h.frame rfl rfl rfl rfl, .frame rfl rfl⟩

theorem SameLegs.linked (hsame : SameLegs st st') (h : Linked st) :
    Linked st' ∧ Keeps st st' ∧ st'.pending = st.pending :=
  ⟨h.frame hsame.inventory (congrArg IdCounters.position hsame.ids)
      (congrArg TradeLogCollector.opens hsame.opens) hsame.openLegs,
    .frame (congrArg IdCounters.position hsame.ids)
      (congrArg TradeLogCollector.opens hsame.opens), hsame.pending⟩

end Registry

section Events

variable {st st' : EngineState} {orderId : OrderId} {orderFills : List Fill}
  {snapshot : ChainSnapshot} {reasons : CloseReasons}

/-- The leg of a carried open run: the anchored one grows, or a first one is opened. -/
theorem carryOpenLeg_linked {entry : PendingEntry} {tradeId : TradeId} {positionId : PositionId}
    {first : Fill} {agg : FillAggregate} {ts : SimTime} (h : Linked st)
    (ha : Anchored Own st entry) (htrade : entry.tradeId = some tradeId)
    (hside : first.side = entry.pending.intent.side)
    (hown : Own first.contract entry.pending.intent.contract)
    (hleg : st.carryOpenLeg entry tradeId orderFills first agg ts = .ok (st', positionId)) :
    Linked st' ∧ Keeps st st' ∧ st'.pending = st.pending ∧
      Anchored Own st' { entry with tradeId := some tradeId, positionId := some positionId } := by
  unfold EngineState.carryOpenLeg at hleg
  split at hleg
  · rename_i hposition
    obtain ⟨st₁, hextend, hleg⟩ := bind_ok_iff.1 hleg
    cases hleg
    obtain ⟨hlinked, hkeeps, hpending, -⟩ := extendLeg_linked h (fun leg hleg => by
      obtain ⟨ht, hs, -⟩ := ha.leg positionId leg hposition hleg
      exact ⟨Option.some.inj (ht.symm.trans htrade), hs.trans hside.symm⟩) hextend
    exact ⟨hlinked, hkeeps, hpending,
      (hkeeps.anchored ha).congr htrade.symm hposition.symm rfl rfl⟩
  · obtain ⟨hlinked, hkeeps, hpending, -, hminted, leg, hleg, ht, hs, hc⟩ := openLeg_linked h hleg
    refine ⟨hlinked, hkeeps, hpending, nofun, ?_, ?_⟩
    · rintro pid hp
      cases hp
      exact hminted
    · rintro pid leg' hp hleg'
      cases hp
      cases hleg.symm.trans hleg'
      exact ⟨congrArg some ht.symm, hs.trans hside, hc ▸ hown⟩

theorem applyCarryGroup_linked (h : Linked st) (ha : OpensAnchored Own st)
    (hecho : Echoes Own st (.carried orderId orderFills))
    (happly : st.applyCarryGroup orderId orderFills snapshot = .ok st') :
    Linked st' ∧ OpensAnchored Own st' ∧ Keeps st st' := by
  obtain ⟨entry, agg, first, hentry, -, hfirst, hcases⟩ := applyCarryGroup_cases happly
  obtain ⟨hside, hown⟩ := hecho entry hentry first (List.mem_of_mem_head? hfirst)
  rcases hcases with ⟨haction, st₁, tradeId, st₂, positionId, st₃, htrade, hleg, hfills, hsettle⟩ |
    ⟨positionId, st₁, haction, hclose, hsettle⟩
  · have hanchored := ha orderId entry hentry haction
    obtain ⟨⟨ids, hids, -, rfl⟩, hsame⟩ := tradeFor_eq_ok htrade
    have htrade := hsame.resolve_left hanchored.trade
    have hkeeps₁ : Keeps st { st with ids } := .frame hids rfl
    have hlinked₁ : Linked { st with ids } := h.frame rfl hids rfl rfl
    obtain ⟨hlinked₂, hkeeps₂, hpending₂, hanchored₂⟩ :=
      carryOpenLeg_linked hlinked₁ (hkeeps₁.anchored hanchored) htrade hside hown hleg
    obtain ⟨hlinked₃, hkeeps₃, hpending₃⟩ :=
      (fills_sameLegs (fun _ _ _ h => openFill_sameLegs h) hfills).linked hlinked₂
    have hkeeps := (hkeeps₁.trans hkeeps₂).trans hkeeps₃
    obtain ⟨hlinked, hkeeps₄⟩ := settleEntry_linked hlinked₃ hsettle
    refine ⟨hlinked, settleEntry_anchored ?_ (fun _ => hkeeps₃.anchored hanchored₂) hsettle,
      hkeeps.trans hkeeps₄⟩
    exact hkeeps.opensAnchored (hpending₃.trans hpending₂) ha
  · obtain ⟨hlinked₁, hkeeps₁, hpending₁, -⟩ := closeLeg_linked h hclose
    obtain ⟨hlinked, hkeeps₂⟩ := settleEntry_linked hlinked₁ hsettle
    refine ⟨hlinked, settleEntry_anchored (hkeeps₁.opensAnchored hpending₁ ha) ?_ hsettle,
      hkeeps₁.trans hkeeps₂⟩
    rw [haction]
    nofun

theorem registerRemainder_linked {stepTrade : Option TradeId} {idx produced : Nat}
    {intent : OrderIntent} {opened : Option PositionId} {filled : Quantity} (h : Linked st)
    (ha : OpensAnchored Own st)
    (hopened : intent.action = .Open → ∀ entry : PendingEntry, entry.tradeId = stepTrade →
      entry.positionId = opened → entry.pending.intent.side = intent.side →
      entry.pending.intent.contract = intent.contract → Anchored Own st entry)
    (hregister : st.registerRemainder stepTrade idx orderId intent opened produced filled reasons =
      .ok st') : Linked st' ∧ OpensAnchored Own st' ∧ Keeps st st' := by
  rcases registerRemainder_cases hregister with ⟨-, rfl⟩ | ⟨_, _, trade, _, -, -, -, htrade, rfl⟩
  · exact ⟨h, ha, .frame rfl rfl⟩
  · exact ⟨h.frame rfl rfl rfl rfl,
      ha.insert fun hopen => hopened hopen _ (htrade hopen) rfl rfl rfl, .frame rfl rfl⟩

theorem applySubmit_linked {stepTrade trade : Option TradeId} {idx : Nat} {intent : OrderIntent}
    (h : Linked st) (ha : OpensAnchored Own st)
    (hecho : ∀ fill ∈ orderFills, fill.side = intent.side ∧ Own fill.contract intent.contract)
    (happly : st.applySubmit stepTrade idx orderId intent orderFills reasons snapshot =
      .ok (st', trade)) : Linked st' ∧ OpensAnchored Own st' ∧ Keeps st st' := by
  rcases applySubmit_cases happly with ⟨-, -, hrest⟩ | ⟨agg, first, hfirst, -, hfilled⟩
  · rcases hrest with ⟨-, st₁, tradeId, htrade, -, rfl⟩ | ⟨haction, -, rfl⟩
    · obtain ⟨⟨ids, hids, -, rfl⟩, -⟩ := tradeFor_eq_ok htrade
      have hkeeps : Keeps st { st with ids } := .frame hids rfl
      refine ⟨h.frame rfl hids rfl rfl,
        (hkeeps.opensAnchored rfl ha).insert fun _ => ⟨Option.some_ne_none _, ?_, ?_⟩,
        hkeeps.trans (.pending _)⟩
      · exact fun _ hp => (Option.some_ne_none _ hp.symm).elim
      · exact fun _ _ hp => (Option.some_ne_none _ hp.symm).elim
    · exact ⟨h.frame rfl rfl rfl rfl, ha.insert fun hopen => absurd hopen haction, .frame rfl rfl⟩
  · obtain ⟨hside, hown⟩ := hecho first (List.mem_of_mem_head? hfirst)
    rcases hfilled with ⟨haction, st₁, tradeId, st₂, positionId, st₃, htrade, -, hleg, hfills,
      hregister⟩ | ⟨positionId, st₁, haction, -, hclose, hregister⟩
    · obtain ⟨⟨ids, hids, -, rfl⟩, -⟩ := tradeFor_eq_ok htrade
      have hkeeps₁ : Keeps st { st with ids } := .frame hids rfl
      have hlinked₁ : Linked { st with ids } := h.frame rfl hids rfl rfl
      obtain ⟨hlinked₂, hkeeps₂, hpending₂, -, hminted, leg, hfound, ht, hs, hc⟩ :=
        openLeg_linked hlinked₁ hleg
      have hsame := fills_sameLegs (fun _ _ _ h => openFill_sameLegs h) hfills
      obtain ⟨hlinked₃, hkeeps₃, hpending₃⟩ := hsame.linked hlinked₂
      have hkeeps := (hkeeps₁.trans hkeeps₂).trans hkeeps₃
      obtain ⟨hlinked, hanchored, hkeeps₄⟩ := registerRemainder_linked hlinked₃
        (hkeeps.opensAnchored (hpending₃.trans hpending₂) ha)
        (fun _ entry hetrade heposition heside hecontract => by
          refine hkeeps₃.anchored ⟨by rw [hetrade]; nofun, ?_, ?_⟩
          · rintro pid hp
            cases heposition.symm.trans hp
            exact hminted
          · rintro pid leg' hp hleg'
            cases heposition.symm.trans hp
            cases hfound.symm.trans hleg'
            exact ⟨hetrade.trans (congrArg some ht.symm),
              (hs.trans hside).trans heside.symm, by rwa [hc, hecontract]⟩) hregister
      exact ⟨hlinked, hanchored, hkeeps.trans hkeeps₄⟩
    · obtain ⟨hlinked₁, hkeeps₁, hpending₁, -⟩ := closeLeg_linked h hclose
      obtain ⟨hlinked, hanchored, hkeeps₂⟩ := registerRemainder_linked hlinked₁
        (hkeeps₁.opensAnchored hpending₁ ha) (fun hopen => by rw [haction] at hopen; cases hopen)
        hregister
      exact ⟨hlinked, hanchored, hkeeps₁.trans hkeeps₂⟩

/-- One order event keeps the three stores linked. -/
theorem applyEvent_linked {s t : StepState} {ev : OrderEvent} (h : Linked s.engine)
    (ha : OpensAnchored Own s.engine) (hecho : Echoes Own s.engine ev)
    (happly : applyEvent reasons snapshot s ev = .ok t) :
    Linked t.engine ∧ OpensAnchored Own t.engine ∧ Keeps s.engine t.engine := by
  cases ev with
  | carried orderId run =>
    obtain ⟨engine, hengine, happly⟩ := bind_ok_iff.1 happly
    cases happly
    exact applyCarryGroup_linked h ha hecho hengine
  | withdrawn orderId =>
    cases happly
    exact ⟨h.frame rfl rfl rfl rfl, ha.erase, .frame rfl rfl⟩
  | submitted idx orderId intent run =>
    obtain ⟨⟨engine, trade⟩, hengine, happly⟩ := bind_ok_iff.1 happly
    cases happly
    exact applySubmit_linked h ha hecho hengine

end Events

end IronCondor
