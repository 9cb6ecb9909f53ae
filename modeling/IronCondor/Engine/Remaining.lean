import IronCondor.Engine.Modes
import IronCondor.Lib.Keyed

/-! # What remains of a resting order

The registry and the fill model each keep the remaining quantity of every resting order. Both
are the same table of remaining quantities, acted on by the order events of the calls: the
engine in the strategy's order, the model in its own phases. -/
namespace IronCondor

open Checked ExceptRun OrderBook RealisticFill

/-- What one event leaves of an order. -/
def remainingSlot (slot : Option Int) : OrderEvent → Option Int
  | .carried _ run => slot.bind fun n =>
      if n ≤ totalQuantity run then none else some (n - totalQuantity run)
  | .withdrawn _ => none
  | .submitted _ _ intent run =>
      if intent.tif = .Gtc ∧ totalQuantity run < intent.quantity.value then
        some (intent.quantity.value - totalQuantity run)
      else slot

/-- What one event leaves of every order. -/
abbrev remainingStep : (OrderId → Option Int) → OrderEvent → OrderId → Option Int :=
  Keyed.act OrderEvent.orderId remainingSlot

section Engine

/-- What the registry says remains of an order. -/
def remainingOf (pending : Std.TreeMap OrderId PendingEntry) (orderId : OrderId) : Option Int :=
  pending[orderId]?.map fun entry => entry.remaining.value

variable {pending pending' : Std.TreeMap OrderId PendingEntry} {ev : OrderEvent}

theorem remainingOf_insert (orderId : OrderId) (entry : PendingEntry) :
    remainingOf (pending.insert orderId entry) =
      Function.update (remainingOf pending) orderId (some entry.remaining.value) := by
  funext oid
  rw [remainingOf, OrderedMap.getElem?_insert, Function.update_apply]
  split_ifs <;> rfl

theorem remainingOf_erase (orderId : OrderId) :
    remainingOf (pending.erase orderId) = Function.update (remainingOf pending) orderId none := by
  funext oid
  rw [remainingOf, OrderedMap.getElem?_erase, Function.update_apply]
  split_ifs <;> rfl

/-- The registry is acted on by its events. -/
theorem RegistryStep.remaining (h : RegistryStep pending pending' ev) :
    remainingOf pending' = remainingStep (remainingOf pending) ev := by
  cases ev with
  | carried orderId run =>
    obtain ⟨entry, hentry, hcases⟩ := h
    have hslot : remainingOf pending orderId = some entry.remaining.value := by
      rw [remainingOf, hentry, Option.map_some]
    rcases hcases with ⟨hall, rfl⟩ | ⟨left, rfl, hleft, -⟩
    · simp [remainingOf_erase, Keyed.act, OrderEvent.orderId, remainingSlot, hslot, hall]
    · have hpos := left.remaining.pos
      have hlt : ¬ entry.remaining.value ≤ totalQuantity run := by omega
      simp [remainingOf_insert, Keyed.act, OrderEvent.orderId, remainingSlot, hslot, hlt, hleft]
  | withdrawn orderId =>
    obtain rfl := h
    rw [remainingOf_erase]
    rfl
  | submitted idx orderId intent run =>
    rcases h with ⟨hnot, rfl⟩ | ⟨left, hgtc, rfl, hleft, -⟩
    · simp [Keyed.act, OrderEvent.orderId, remainingSlot, hnot]
    · have hpos := left.remaining.pos
      have hlt : totalQuantity run < intent.quantity.value := by omega
      simp [remainingOf_insert, Keyed.act, OrderEvent.orderId, remainingSlot, hgtc, hlt, hleft]

/-- A whole call acts on the registry by its events, in the strategy's order. -/
theorem Batch.Executed.remaining {X : Type} [ExecutionModel X] {b : Batch X} {after : EngineState}
    (h : b.Executed after) :
    remainingOf after.pending = b.events.foldl remainingStep (remainingOf b.before.pending) := by
  obtain ⟨ids, -, hstart⟩ := h.minted
  obtain ⟨trade, hfold⟩ := h.applied
  have hpending : b.start.pending = b.before.pending := by rw [hstart]
  rw [← hpending]
  exact foldlM_view (fun s : StepState => remainingOf s.engine.pending) remainingStep
    (fun s ev t ht => (applyEvent_registry ht).1.remaining) hfold

end Engine

section Model

variable {B : Type} {m m' : RealisticFill B} {snap : ChainSnapshot}

/-- What the model says remains of an order. -/
def RealisticFill.liveOf (m : RealisticFill B) (orderId : OrderId) : Option Int :=
  m.orderIndex[orderId]?.bind fun seq => m.restingStrategy[seq]?.map fun order => order.remaining

/-- The index and the tracked orders name each other, and new book ids are not in use. -/
structure RealisticFill.Indexed (m : RealisticFill B) : Prop where
  tracked : ∀ (orderId : OrderId) (seq : Nat), m.orderIndex[orderId]? = some seq →
    ∃ order, m.restingStrategy[seq]? = some order ∧ order.orderId = orderId
  indexed : ∀ (seq : Nat) (order : RestingStrategyOrder), m.restingStrategy[seq]? = some order →
    m.orderIndex[order.orderId]? = some seq ∧ seq < m.nextStrategyId

theorem RealisticFill.Indexed.liveOf_tracked (h : m.Indexed) {seq : Nat}
    {order : RestingStrategyOrder} (horder : m.restingStrategy[seq]? = some order) :
    m.liveOf order.orderId = some (order.remaining : Int) := by
  simp [liveOf, (h.indexed seq order horder).1, horder]

theorem RealisticFill.Indexed.liveOf_eq_none (h : m.Indexed) (orderId : OrderId) :
    m.liveOf orderId = none ↔ m.orderIndex[orderId]? = none := by
  unfold liveOf
  rcases hseq : m.orderIndex[orderId]? with _ | seq
  · simp
  · obtain ⟨order, horder, -⟩ := h.tracked orderId seq hseq
    simp [horder]

theorem RealisticFill.Indexed.owner (h : m.Indexed) {seq : Nat} {order : RestingStrategyOrder}
    (horder : m.restingStrategy[seq]? = some order) {orderId : OrderId}
    (hindex : m.orderIndex[orderId]? = some seq) : orderId = order.orderId := by
  obtain ⟨order', horder', rfl⟩ := h.tracked orderId seq hindex
  rw [horder] at horder'
  cases horder'
  rfl

/-- Track `left` under `seq`, which nothing else is or was tracked under. -/
theorem RealisticFill.Indexed.put (h : m.Indexed) (seq : Nat) (left : RestingStrategyOrder)
    (hindex : ∀ orderId : OrderId, m'.orderIndex[orderId]? =
      if orderId = left.orderId then some seq else m.orderIndex[orderId]?)
    (htracked : m'.restingStrategy = m.restingStrategy.insert seq left)
    (hown : ∀ orderId : OrderId, m.orderIndex[orderId]? = some seq → orderId = left.orderId)
    (hsame : ∀ seq', m.orderIndex[left.orderId]? = some seq' → seq' = seq)
    (hseq : seq < m'.nextStrategyId) (hnext : m.nextStrategyId ≤ m'.nextStrategyId) :
    m'.Indexed ∧ m'.liveOf = Function.update m.liveOf left.orderId (some (left.remaining : Int)) := by
  have hlookup (seq' : Nat) : m'.restingStrategy[seq']? =
      if seq' = seq then some left else m.restingStrategy[seq']? := by
    rw [htracked, OrderedMap.getElem?_insert]
  refine ⟨⟨fun orderId seq' hid => ?_, fun seq' order horder => ?_⟩, funext fun orderId => ?_⟩
  · rw [hindex] at hid
    rw [hlookup]
    split_ifs at hid with hoid
    · cases hid
      exact ⟨left, if_pos rfl, hoid.symm⟩
    · obtain ⟨order, horder, hid'⟩ := h.tracked orderId seq' hid
      refine ⟨order, ?_, hid'⟩
      rw [if_neg (fun heq : seq' = seq => hoid (hown orderId (heq ▸ hid))), horder]
  · rw [hlookup] at horder
    rw [hindex]
    split_ifs at horder with hs
    · cases horder
      exact ⟨by rw [if_pos rfl, hs], hs ▸ hseq⟩
    · obtain ⟨hid, hlt⟩ := h.indexed seq' order horder
      rw [if_neg fun heq : order.orderId = left.orderId => hs (hsame seq' (heq ▸ hid))]
      exact ⟨hid, hlt.trans_le hnext⟩
  · rw [Function.update_apply, liveOf, hindex]
    split_ifs with hoid
    · simp [hlookup]
    · rw [liveOf]
      rcases hid : m.orderIndex[orderId]? with _ | seq'
      · rfl
      · have hne : seq' ≠ seq := fun heq => hoid (hown orderId (heq ▸ hid))
        simp [hlookup, hne]

/-- Stop tracking the order under `seq`. -/
theorem RealisticFill.Indexed.drop (h : m.Indexed) {seq : Nat} {order : RestingStrategyOrder}
    (horder : m.restingStrategy[seq]? = some order)
    (hindex : m'.orderIndex = m.orderIndex.erase order.orderId)
    (htracked : ∀ seq' : Nat, m'.restingStrategy[seq']? =
      if seq' = seq then none else m.restingStrategy[seq']?)
    (hnext : m'.nextStrategyId = m.nextStrategyId) :
    m'.Indexed ∧ m'.liveOf = Function.update m.liveOf order.orderId none := by
  have hlookup (orderId : OrderId) : m'.orderIndex[orderId]? =
      if orderId = order.orderId then none else m.orderIndex[orderId]? := by
    rw [hindex, OrderedMap.getElem?_erase]
  refine ⟨⟨fun orderId seq' hid => ?_, fun seq' order' horder' => ?_⟩, funext fun orderId => ?_⟩
  · rw [hlookup] at hid
    rw [htracked]
    split_ifs at hid with hoid
    rw [if_neg fun heq : seq' = seq => hoid (h.owner horder (heq ▸ hid))]
    exact h.tracked orderId seq' hid
  · rw [htracked] at horder'
    split_ifs at horder' with hs
    obtain ⟨hid, hlt⟩ := h.indexed seq' order' horder'
    rw [hlookup, hnext, if_neg]
    · exact ⟨hid, hlt⟩
    · intro heq
      rw [heq, (h.indexed seq order horder).1] at hid
      exact hs (Option.some.inj hid).symm
  · rw [Function.update_apply, liveOf, hlookup]
    split_ifs with hoid
    · rfl
    · rw [liveOf]
      rcases hid : m.orderIndex[orderId]? with _ | seq'
      · rfl
      · have hne : seq' ≠ seq := fun heq => hoid (h.owner horder (heq ▸ hid))
        simp [htracked, hne]

/-- The refresh fills, one event for each. -/
def refreshEvents (carried : List (OrderId × Fill)) : List OrderEvent :=
  carried.map fun c => .carried c.1 [c.2]

/-- One refresh trade acts on the tracked orders by its fill. -/
theorem captureTrade_live {contract : ContractKey} {tick : PriceCents}
    {out out' : List (OrderId × Fill)} {trade : Trade ObOrderId} (hm : m.Indexed)
    (h : captureTrade contract tick snap (m, out) trade = .ok (m', out')) :
    m'.Indexed ∧ ∃ carried, out' = out ++ carried ∧
      m'.liveOf = (refreshEvents carried).foldl remainingStep m.liveOf := by
  obtain ⟨carried, hfill, rfl⟩ := captureTrade_eq_ok h
  rcases captureRefreshFill_cases hfill with ⟨rfl, rfl, -⟩ |
    ⟨seq, order, fill, groups, live, -, horder, rfl, -, -, -, -, hquantity, -, hle, -, rfl⟩
  · exact ⟨hm, [], rfl, rfl⟩
  obtain ⟨hindex, hlt⟩ := hm.indexed seq order horder
  have hslot : (refreshEvents [(order.orderId, fill)]).foldl remainingStep m.liveOf =
      Function.update m.liveOf order.orderId (if order.remaining ≤ trade.quantity then none
        else some ((order.remaining : Int) - trade.quantity)) := by
    simp [refreshEvents, Keyed.act, OrderEvent.orderId, remainingSlot, hm.liveOf_tracked horder,
      hquantity]
  suffices hstep : (m.afterRefresh seq order trade.quantity groups live).Indexed ∧
      (m.afterRefresh seq order trade.quantity groups live).liveOf =
        (refreshEvents [(order.orderId, fill)]).foldl remainingStep m.liveOf from
    ⟨hstep.1, _, rfl, hstep.2⟩
  rw [hslot]
  by_cases hall : order.remaining = trade.quantity
  · rw [if_pos hall.le]
    refine hm.drop horder (by simp [afterRefresh, hall]) (fun seq' => ?_) rfl
    simp only [afterRefresh, hall, if_true, OrderedMap.getElem?_erase, OrderedMap.getElem?_insert]
    split_ifs <;> rfl
  · rw [if_neg (by omega), ← Nat.cast_sub hle]
    refine hm.put seq { order with
        firstFillDone := true, remaining := order.remaining - trade.quantity }
      (fun oid => ?_) (by simp [afterRefresh, hall]) (fun oid => hm.owner horder)
      (fun seq' h' => Option.some.inj (h'.symm.trans hindex)) hlt le_rfl
    split_ifs with hoid
    · simp [afterRefresh, hall, hoid, hindex]
    · simp [afterRefresh, hall]

variable [Book B ObOrderId] {cmds : List OrderCommand} {submitIds : List OrderId}

theorem refreshBooks_live [DecimalArith] {carried : List (OrderId × Fill)} (hm : m.Indexed)
    (h : m.refreshBooks snap = .ok (m', carried)) :
    m'.Indexed ∧ m'.liveOf = (refreshEvents carried).foldl remainingStep m.liveOf := by
  refine refreshBooks_invariant
    (fun x out => x.Indexed ∧ x.liveOf = (refreshEvents out).foldl remainingStep m.liveOf) ?_ ?_ ?_ h
  · exact fun x out _ _ _ ⟨hx, hlive⟩ => ⟨⟨hx.tracked, hx.indexed⟩, hlive⟩
  · rintro x out contract tick trade x' out' ⟨hx, hlive⟩ hcapture
    obtain ⟨hx', carried, rfl, hlive'⟩ := captureTrade_live hx hcapture
    refine ⟨hx', ?_⟩
    rw [refreshEvents, List.map_append, List.foldl_append, ← refreshEvents, ← hlive]
    exact hlive'
  · exact ⟨hm, rfl⟩

/-- The withdrawals of some commands. -/
def cancelEvents (cmds : List OrderCommand) : List OrderEvent := cmds.flatMap withdrawals

theorem cancelCommand_live {cmd : OrderCommand} (hm : m.Indexed) (h : m.cancelCommand cmd = .ok m') :
    m'.Indexed ∧ m'.liveOf = (withdrawals cmd).foldl remainingStep m.liveOf := by
  unfold cancelCommand at h
  unfold withdrawals
  split at h
  · rename_i orderId htarget
    simp only [htarget]
    rcases cancelResting_cases h with ⟨hnone, rfl⟩ | ⟨seq, hseq, hnone, -⟩ |
      ⟨seq, order, books, live, hseq, horder, -, rfl⟩
    · refine ⟨hm, (Function.update_eq_self_iff.2 ?_).symm⟩
      exact ((hm.liveOf_eq_none _).2 hnone).symm
    · obtain ⟨order, horder, -⟩ := hm.tracked orderId seq hseq
      rw [hnone] at horder
      cases horder
    · obtain rfl := hm.owner horder hseq
      exact hm.drop horder rfl (fun seq' => OrderedMap.getElem?_erase ..) rfl
  · rename_i htarget
    cases h
    simp only [htarget]
    exact ⟨hm, rfl⟩

theorem cancelCommands_live (hm : m.Indexed) (h : cmds.foldlM cancelCommand m = .ok m') :
    m'.Indexed ∧ m'.liveOf = (cancelEvents cmds).foldl remainingStep m.liveOf := by
  induction cmds generalizing m with
  | nil =>
    obtain rfl := foldlM_nil_ok.1 h
    exact ⟨hm, rfl⟩
  | cons cmd cmds ih =>
    obtain ⟨mid, hmid, h⟩ := foldlM_cons_ok.1 h
    obtain ⟨hi, hlive⟩ := cancelCommand_live hm hmid
    obtain ⟨hi', hlive'⟩ := ih hi h
    refine ⟨hi', ?_⟩
    rw [cancelEvents, List.flatMap_cons, List.foldl_append, ← hlive]
    exact hlive'

/-- The quantity a routed intent filled is the quantity its book traded. -/
theorem RealisticFill.Submitted.totalQuantity_eq {intent : OrderIntent} {orderId : OrderId} {fills : List Fill}
    {limit : PriceCents} {ticks : Nat} {before after : B} {result : MatchResult ObOrderId}
    (h : Submitted m intent orderId snap m' fills limit ticks before after result) :
    totalQuantity fills = result.traded := by
  have hsum := Pointwise.map_eq (f := fun t => (t.quantity : Int)) (g := fun f => f.quantity.value)
    h.levels fun _ _ _ hlevel => hlevel.quantity.symm
  rw [totalQuantity, ← hsum, MatchResult.traded, Nat.cast_list_sum, List.map_map]
  rfl

/-- A routed intent acts on the tracked orders by its event, when its id is new. -/
theorem fillSubmit_live [ConservesQuantity B] {intent : OrderIntent} {orderId : OrderId}
    {fills : List Fill} (idx : Nat) (hm : m.Indexed) (hnew : m.liveOf orderId = none)
    (h : m.fillSubmit intent orderId snap = .ok (m', fills)) :
    m'.Indexed ∧ m'.liveOf = remainingStep m.liveOf (.submitted idx orderId intent fills) := by
  obtain ⟨limit, ticks, before, after, result, hsubmitted⟩ := fillSubmit_eq_ok h
  obtain ⟨book, hadd, -⟩ := hsubmitted.matched
  have hconserved := ConservesQuantity.addLimit_conserves hadd
  have htotal := hsubmitted.totalQuantity_eq
  have hsize : ((intent.quantity.value.toNat : Nat) : Int) = intent.quantity.value :=
    Int.toNat_of_nonneg intent.quantity.pos.le
  have hleft : (result.remaining : Int) = intent.quantity.value - totalQuantity fills := by omega
  have hrests : (intent.tif = .Gtc ∧ 0 < result.remaining) ↔
      (intent.tif = .Gtc ∧ totalQuantity fills < intent.quantity.value) := by
    rw [show totalQuantity fills < intent.quantity.value ↔ 0 < result.remaining by omega]
  have htracked := hsubmitted.tracked
  simp only [hrests] at htracked
  split_ifs at htracked with hgtc
  · obtain ⟨live, rfl⟩ := trackResting_eq_ok htracked
    have hnone := (hm.liveOf_eq_none _).1 hnew
    have hunused : ∀ oid : OrderId, m.orderIndex[oid]? ≠ some m.nextStrategyId := by
      intro oid hid
      obtain ⟨order, horder, -⟩ := hm.tracked oid _ hid
      exact absurd (hm.indexed _ _ horder).2 (lt_irrefl _)
    refine (hm.put m.nextStrategyId _ (fun oid => OrderedMap.getElem?_insert ..) rfl
      (fun oid hid => (hunused oid hid).elim)
      (fun seq' hid => (Option.some_ne_none _ (hid.symm.trans hnone)).elim)
      (Nat.lt_succ_self _) (Nat.le_succ _)).imp_right fun hlive => hlive.trans ?_
    simp only [Keyed.act, OrderEvent.orderId, remainingSlot, if_pos hgtc, ← hleft]
  · subst htracked
    refine ⟨⟨hm.tracked, fun seq order horder => ?_⟩, ?_⟩
    · obtain ⟨hid, hlt⟩ := hm.indexed seq order horder
      exact ⟨hid, hlt.trans (Nat.lt_succ_self _)⟩
    · simp only [Keyed.act, OrderEvent.orderId, remainingSlot, if_neg hgtc, Function.update_eq_self]
      rfl

/-- The refresh makes no order known. -/
theorem foldl_refreshEvents {t : OrderId → Option Int} {orderId : OrderId}
    (carried : List (OrderId × Fill)) (h : t orderId = none) :
    (refreshEvents carried).foldl remainingStep t orderId = none := by
  refine Keyed.foldl_fixed (fun ev hev _ => ?_) h
  obtain ⟨c, -, rfl⟩ := List.mem_map.1 hev
  rfl

theorem foldl_cancelEvents {t : OrderId → Option Int} {orderId : OrderId}
    (cmds : List OrderCommand) (h : t orderId = none) :
    (cancelEvents cmds).foldl remainingStep t orderId = none := by
  refine Keyed.foldl_fixed (fun ev hev _ => ?_) h
  obtain ⟨cmd, -, hcmd⟩ := List.mem_flatMap.1 hev
  obtain ⟨orderId, -, rfl⟩ := List.mem_map.1 hcmd
  rfl

/-- The routed commands as events. -/
def submitEvents (routed : List RoutedFills) : List OrderEvent :=
  routed.map fun run => .submitted run.commandIndex run.orderId run.intent run.fills

theorem routeCommands_live [ConservesQuantity B] {entries : List (OrderCommand × Nat)}
    {r r' : Routing B} (hm : r.model.Indexed)
    (hnew : ∀ orderId ∈ submitIds.drop r.nextSubmitId, r.model.liveOf orderId = none)
    (hnodup : (submitIds.drop r.nextSubmitId).Nodup)
    (h : entries.foldlM (routeCommand submitIds snap) r = .ok r') :
    r'.model.Indexed ∧ ∃ routed, r'.routed = r.routed ++ routed ∧
      r'.model.liveOf = (submitEvents routed).foldl remainingStep r.model.liveOf := by
  induction entries generalizing r with
  | nil =>
    obtain rfl := foldlM_nil_ok.1 h
    exact ⟨hm, [], by simp, rfl⟩
  | cons entry entries ih =>
    obtain ⟨mid, hmid, hrest⟩ := foldlM_cons_ok.1 h
    rcases routeCommand_cases hmid with ⟨-, rfl⟩ |
      ⟨intent, orderId, m₁, fills, -, hid, hsubmit, hr, hnext, hmodel⟩
    · exact ih hm hnew hnodup hrest
    obtain ⟨hlt, rfl⟩ := List.getElem?_eq_some_iff.1 hid
    rw [List.drop_eq_getElem_cons hlt, List.forall_mem_cons] at hnew
    rw [List.drop_eq_getElem_cons hlt, List.nodup_cons] at hnodup
    obtain ⟨hi, hlive⟩ := fillSubmit_live entry.2 hm hnew.1 hsubmit
    have hmodel : mid.model.Indexed ∧ mid.model.liveOf = m₁.liveOf := by
      rcases hmodel with ⟨-, hm⟩ | ⟨_, -, -, hm⟩ <;> rw [hm]
      · exact ⟨hi, rfl⟩
      · exact ⟨⟨hi.tracked, hi.indexed⟩, rfl⟩
    have hnew' : ∀ oid ∈ submitIds.drop mid.nextSubmitId, mid.model.liveOf oid = none := by
      rw [hnext, hmodel.2, hlive]
      intro oid hoid
      have hne : oid ≠ submitIds[r.nextSubmitId] := fun heq => hnodup.1 (heq ▸ hoid)
      rw [← hnew.2 oid hoid]
      exact Keyed.act_of_ne hne
    obtain ⟨hi', routed, hrouted, hlive'⟩ :=
      ih hmodel.1 hnew' (by rw [hnext]; exact hnodup.2) hrest
    refine ⟨hi', ⟨entry.2, submitIds[r.nextSubmitId], intent, fills⟩ :: routed, ?_, ?_⟩
    · rw [hrouted, hr, List.append_assoc, List.singleton_append]
    · rw [hlive', hmodel.2, hlive]
      rfl

/-- One call acts on the tracked orders by the refresh fills, then the cancels, then the
submits. -/
theorem fillAttributed_live [DecimalArith] [ConservesQuantity B] {a : Attribution} (hm : m.Indexed)
    (hnew : ∀ orderId ∈ submitIds, m.liveOf orderId = none) (hnodup : submitIds.Nodup)
    (h : m.fillAttributed cmds submitIds snap = .ok (m', a)) :
    m'.Indexed ∧ m'.liveOf = (refreshEvents a.carried ++ (cancelEvents cmds ++
      submitEvents a.routed)).foldl remainingStep m.liveOf := by
  simp only [fillAttributed, bind_ok_iff, pure_ok_iff, Prod.exists, Prod.mk.injEq] at h
  obtain ⟨m₁, carried, hrefresh, m₂, hcancel, r, hroute, rfl, rfl⟩ := h
  obtain ⟨hi₁, hlive₁⟩ := refreshBooks_live (m := { m with fillGroups := [], carryGroups := [] })
    ⟨hm.tracked, hm.indexed⟩ hrefresh
  obtain ⟨hi₂, hlive₂⟩ := cancelCommands_live hi₁ hcancel
  have hnone : ∀ orderId ∈ submitIds, m₂.liveOf orderId = none := by
    intro orderId hid
    rw [hlive₂, hlive₁]
    exact foldl_cancelEvents cmds (foldl_refreshEvents carried (hnew orderId hid))
  obtain ⟨hi₃, routed, hrouted, hlive₃⟩ :=
    routeCommands_live (r := ⟨m₂, [], 0⟩) hi₂ hnone hnodup hroute
  rw [List.nil_append] at hrouted
  refine ⟨hi₃, ?_⟩
  rw [hlive₃, hlive₂, hlive₁, hrouted, List.foldl_append, List.foldl_append]
  rfl

end Model

section Reordering

variable {B : Type}

theorem remainingStep_append (t : OrderId → Option Int) (orderId : OrderId) (run : List Fill)
    (fill : Fill) : remainingStep t (.carried orderId (run ++ [fill])) =
      remainingStep (remainingStep t (.carried orderId run)) (.carried orderId [fill]) := by
  have hpos := fill.quantity.pos
  simp only [Keyed.act, OrderEvent.orderId, Function.update_self, Function.update_idem]
  congr 1
  rcases t orderId with _ | n
  · rfl
  simp only [remainingSlot, Option.bind_some, totalQuantity_append, totalQuantity_cons,
    totalQuantity_nil, add_zero]
  split_ifs <;> simp <;> omega

/-- The fills of one order may be applied one by one or as one run. -/
theorem foldl_carryRuns (carried : List (OrderId × Fill)) (t : OrderId → Option Int) :
    ((carryRuns carried).map fun run => OrderEvent.carried run.1 run.2).foldl remainingStep t =
      (refreshEvents carried).foldl remainingStep t := by
  induction carried using List.reverseRecOn with
  | nil => rfl
  | append_singleton carried last ih =>
    rw [refreshEvents, List.map_append, List.foldl_append, ← refreshEvents, ← ih, carryRuns,
      List.foldl_append, List.foldl_cons, List.foldl_nil, ← carryRuns, pushRun]
    rcases List.eq_nil_or_concat (carryRuns carried) with hruns | ⟨init, run, hruns⟩
    · simp [hruns]
    · by_cases hsame : run.1 = last.1
      · simp only [hruns, List.concat_eq_append, List.getLast?_concat, hsame, if_true,
          List.dropLast_concat, List.map_append, List.foldl_append, List.map_cons, List.map_nil,
          List.foldl_cons, List.foldl_nil]
        exact remainingStep_append _ _ _ _
      · simp [hruns, hsame]

/-- The strategy's order of the commands is the model's order of their events, rearranged. -/
theorem Aligned.perm {entries : List (OrderCommand × Nat)} {ids : List OrderId}
    {groups : List FillGroup} {routed : List RoutedFills} (h : Aligned entries ids groups routed) :
    (IronCondor.routedEvents entries routed).Perm
      (cancelEvents (entries.map Prod.fst) ++ submitEvents routed) := by
  induction h with
  | done => exact .nil
  | @cancel cmd _ _ _ _ _ hintent _ ih =>
    simpa [IronCondor.routedEvents, hintent, cancelEvents] using ih.append_left (withdrawals cmd)
  | @silent cmd _ _ _ _ _ _ _ hintent _ ih =>
    simpa [IronCondor.routedEvents, hintent, cancelEvents, submitEvents] using
      ((ih.cons _).trans List.perm_middle.symm).append_left (withdrawals cmd)
  | @filled cmd _ _ _ _ _ _ _ _ _ hintent _ _ _ ih =>
    simpa [IronCondor.routedEvents, hintent, cancelEvents, submitEvents] using
      ((ih.cons _).trans List.perm_middle.symm).append_left (withdrawals cmd)

/-- The engine's events act like the model's phases, when no withdrawn order is also submitted. -/
theorem foldl_attribution [Book B ObOrderId] [DecimalArith] {m m' : RealisticFill B}
    {cmds : List OrderCommand} {submitIds : List OrderId} {snap : ChainSnapshot} {a : Attribution}
    (h : m.fillAttributed cmds submitIds snap = .ok (m', a)) (hnodup : submitIds.Nodup)
    (hapart : ∀ cmd ∈ cmds, ∀ orderId ∈ cmd.target?, orderId ∉ submitIds)
    (t : OrderId → Option Int) :
    (a.events cmds).foldl remainingStep t = (refreshEvents a.carried ++ (cancelEvents cmds ++
      submitEvents a.routed)).foldl remainingStep t := by
  obtain ⟨-, haligned⟩ := fillAttributed_described h
  have hids := haligned.origin.2
  have hperm := haligned.perm
  rw [List.zipIdx_map_fst] at hperm
  rw [Attribution.events, List.foldl_append, List.foldl_append, foldl_carryRuns]
  refine (Keyed.foldl_perm hperm.symm ?_ _).symm
  have hwithdrawn : ∀ ev ∈ cancelEvents cmds, ev = .withdrawn ev.orderId ∧
      ev.orderId ∉ submitIds := by
    intro ev hev
    obtain ⟨cmd, hcmd, hmem⟩ := List.mem_flatMap.1 hev
    obtain ⟨orderId, htarget, rfl⟩ := List.mem_map.1 hmem
    exact ⟨rfl, hapart cmd hcmd orderId (Option.mem_toList.1 htarget)⟩
  have hsubmitted : ∀ ev ∈ submitEvents a.routed, ev.orderId ∈ submitIds := by
    intro ev hev
    obtain ⟨run, hrun, rfl⟩ := List.mem_map.1 hev
    exact List.mem_of_mem_take (hids ▸ List.mem_map_of_mem hrun)
  have hdistinct : ((submitEvents a.routed).map OrderEvent.orderId).Nodup := by
    have hmap : (submitEvents a.routed).map OrderEvent.orderId =
        a.routed.map RoutedFills.orderId := by simp [submitEvents, OrderEvent.orderId]
    rw [hmap, hids]
    exact hnodup.sublist (List.take_sublist ..)
  intro ev hev ev' hev' hkey
  rcases List.mem_append.1 hev with hev | hev <;> rcases List.mem_append.1 hev' with hev' | hev'
  · rw [(hwithdrawn ev hev).1, (hwithdrawn ev' hev').1, hkey]
  · exact absurd (hkey ▸ hsubmitted ev' hev') (hwithdrawn ev hev).2
  · exact absurd (hkey ▸ hsubmitted ev hev) (hwithdrawn ev' hev').2
  · exact List.inj_on_of_nodup_map hdistinct hev hev' hkey

end Reordering

section Agreement

variable {S R B : Type} [DecimalArith] [Book B ObOrderId] [Strategy S R] [SeedableRng R]

/-- The registry and the fill model keep the same resting orders, with the same remaining
quantities. -/
structure OrdersAgree (m : RealisticFill B) (st : EngineState) : Prop where
  indexed : ∀ orderId : OrderId, orderId ∈ st.pending ↔ orderId ∈ m.orderIndex
  tracked : ∀ orderId : OrderId, orderId ∈ st.pending ↔
    ∃ (seq : Nat) (order : RestingStrategyOrder), m.restingStrategy[seq]? = some order ∧
      order.orderId = orderId
  single : ∀ (seq seq' : Nat) (order order' : RestingStrategyOrder),
    m.restingStrategy[seq]? = some order → m.restingStrategy[seq']? = some order' →
      order.orderId = order'.orderId → seq = seq'
  remaining : ∀ (orderId : OrderId) (entry : PendingEntry), st.pending[orderId]? = some entry →
    ∃ (seq : Nat) (order : RestingStrategyOrder), m.orderIndex[orderId]? = some seq ∧
      m.restingStrategy[seq]? = some order ∧ order.orderId = orderId ∧
      (order.remaining : Int) = entry.remaining.value

omit [DecimalArith] [Book B ObOrderId] in
theorem RealisticFill.Indexed.ordersAgree {m : RealisticFill B} {st : EngineState} (h : m.Indexed)
    (hlive : m.liveOf = remainingOf st.pending) : OrdersAgree m st := by
  have hindexed (orderId : OrderId) : orderId ∈ st.pending ↔ orderId ∈ m.orderIndex := by
    have hnone := h.liveOf_eq_none orderId
    rw [hlive, remainingOf, Option.map_eq_none_iff] at hnone
    rw [Std.TreeMap.mem_iff_isSome_getElem?, Std.TreeMap.mem_iff_isSome_getElem?,
      ← Option.ne_none_iff_isSome, ← Option.ne_none_iff_isSome, not_iff_not, hnone]
  refine ⟨hindexed, fun orderId => (hindexed orderId).trans ⟨fun hid => ?_, ?_⟩,
    fun seq seq' order order' horder horder' hsame => ?_, fun orderId entry hentry => ?_⟩
  · obtain ⟨seq, hseq⟩ := Option.isSome_iff_exists.1 (Std.TreeMap.mem_iff_isSome_getElem?.1 hid)
    obtain ⟨order, horder, hown⟩ := h.tracked orderId seq hseq
    exact ⟨seq, order, horder, hown⟩
  · rintro ⟨seq, order, horder, rfl⟩
    rw [Std.TreeMap.mem_iff_isSome_getElem?, (h.indexed seq order horder).1]
    rfl
  · have hseq := (h.indexed seq order horder).1
    rw [hsame, (h.indexed seq' order' horder').1] at hseq
    exact (Option.some.inj hseq).symm
  · have hslot := congrFun hlive orderId
    rw [remainingOf, hentry, Option.map_some] at hslot
    obtain ⟨seq, hseq, hrest⟩ := Option.bind_eq_some_iff.1 hslot
    obtain ⟨order, horder, hremaining⟩ := Option.map_eq_some_iff.1 hrest
    obtain ⟨order', horder', hown⟩ := h.tracked orderId seq hseq
    rw [horder] at horder'
    cases horder'
    exact ⟨seq, order, hseq, horder, hown, hremaining⟩

omit [DecimalArith] [Book B ObOrderId] in
/-- The ids a call mints are distinct, and nothing rests under one of them. -/
theorem OrdersIssued.mints_new {X : Type} [ExecutionModel X] {log : List (Batch X)} {b : Batch X}
    {after : EngineState} (h : OrdersIssued log b.before) (hexec : b.Executed after) :
    b.submitIds.Nodup ∧ ∀ orderId ∈ b.submitIds, b.before.pending[orderId]? = none := by
  obtain ⟨ids, hmint, -⟩ := hexec.minted
  obtain ⟨-, -, -, hsorted, hbounds⟩ := mintSubmitIds_eq_ok hmint
  refine ⟨hsorted.imp fun hlt heq => absurd (congrArg Id.value heq) hlt.ne, fun orderId hid => ?_⟩
  rcases hentry : b.before.pending[orderId]? with _ | entry
  · rfl
  · obtain ⟨-, intent, hmem, -⟩ := h.sourced orderId entry hentry
    exact absurd (h.minted _ hmem) (not_lt.2 (hbounds orderId hid).1)

omit [DecimalArith] [Strategy S R] [SeedableRng R] [Book B ObOrderId] in
/-- Nothing rests in a fresh model, nor in fresh books. -/
theorem remaining_start (config : BacktestConfig) (feed : MaterialisedFeed) (strategy : S)
    (initial : Cents) : (Setup.realistic B config feed strategy).execution.Indexed ∧
      (Setup.realistic B config feed strategy).execution.liveOf =
        remainingOf (EngineState.new initial).pending := by
  refine ⟨⟨fun orderId seq hid => ?_, fun seq order horder => ?_⟩, ?_⟩
  · simp [Setup.realistic, withLiquidityProfile, new] at hid
  · simp [Setup.realistic, withLiquidityProfile, new] at horder
  · funext orderId
    simp [Setup.realistic, withLiquidityProfile, new, liveOf, remainingOf, EngineState.new]

/-- One call keeps the two accounts equal. -/
theorem remaining_call [ConservesQuantity B] {log : List (Batch (RealisticFill B))}
    {b : Batch (RealisticFill B)} {after : EngineState}
    (htracked : OrdersTracked log b.model b.before) (hm : b.model.Indexed)
    (hlive : b.model.liveOf = remainingOf b.before.pending) (hexec : b.Executed after) :
    b.modelAfter.Indexed ∧ b.modelAfter.liveOf = remainingOf after.pending := by
  obtain ⟨hnodup, hold⟩ := htracked.toOrdersIssued.mints_new hexec
  have hnew : ∀ orderId ∈ b.submitIds, b.model.liveOf orderId = none := by
    intro orderId hid
    rw [hlive, remainingOf, hold orderId hid, Option.map_none]
  have hapart : ∀ cmd ∈ b.cmds, ∀ orderId ∈ cmd.target?, orderId ∉ b.submitIds := by
    intro cmd hcmd orderId htarget hid
    have hpre := hexec.prevalidated cmd hcmd
    rw [prevalidate, Option.mem_def.1 htarget] at hpre
    have hpending := require_eq_ok.1 hpre
    rw [← Std.TreeMap.isSome_getElem?_eq_contains, hold orderId hid] at hpending
    cases hpending
  obtain ⟨a, ha, -, hevents⟩ := hexec.attributed
  obtain ⟨hi, hlive'⟩ := fillAttributed_live hm hnew hnodup ha
  refine ⟨hi, ?_⟩
  rw [hlive', hexec.remaining, hevents, foldl_attribution ha hnodup hapart, hlive]

/-- The two accounts of the resting orders agree: whatever a strategy submits, cancels and
replaces, and whatever the refresh matches, at the end of every step the registry and the
realistic model keep the same orders with the same remaining quantities. -/
theorem resting_orders_agree [ConservesQuantity B] (config : BacktestConfig)
    (feed : MaterialisedFeed) (strategy : S) (n : Nat) (log : List (Batch (RealisticFill B)))
    (s : RunState S (RealisticFill B) R)
    (h : (Setup.realistic B config feed strategy).play n = .ok (log, s)) :
    OrdersAgree s.execution s.engine := by
  suffices hrun : s.execution.Indexed ∧ s.execution.liveOf = remainingOf s.engine.pending from
    hrun.1.ordersAgree hrun.2
  refine (Setup.play_tracked (idle_realistic config feed strategy)
    (fun _ x st => x.Indexed ∧ x.liveOf = remainingOf st.pending) ?_ ?_ ?_ h).2
  · exact fun initial _ => remaining_start config feed strategy initial
  · exact fun log b after ht ⟨hi, hlive⟩ hexec _ => remaining_call ht hi hlive hexec
  · rintro log x st snapshot isLast point st' ⟨hi, hlive⟩ hsettled
    rw [hsettled.books]
    exact ⟨hi, hlive⟩

end Agreement

open SmallMarket in
/-- The resting buy of the dip is partly filled by the refresh: both accounts say two remain. -/
theorem resting_orders_agree_dip : ∃ log s,
    (Setup.realistic (ReferenceBook ObOrderId) (config .Realistic) dipFeed
      (⟨restAndTake, []⟩ : Script)).play 3 = .ok (log, s) ∧ OrdersAgree s.execution s.engine := by
  obtain ⟨⟨log, s⟩, h⟩ := exists_eq_ok (r := (Setup.realistic (ReferenceBook ObOrderId)
    (config .Realistic) dipFeed (⟨restAndTake, []⟩ : Script)).play 3) (by decide +kernel)
  exact ⟨log, s, h, resting_orders_agree _ _ _ 3 log s h⟩

end IronCondor
