import IronCondor.Engine.Correlation
import IronCondor.Lib.Tally

/-! # The mirrors of the live strategy orders

The model keeps three maps of its resting orders: by book id, by engine id, and the number live on
each contract. Every operation changes the three together. -/
namespace IronCondor.RealisticFill

open Checked ExceptRun OrderBook Tally

section Counts

variable {tracked tracked' : Std.TreeMap Nat RestingStrategyOrder}
  {live : Std.TreeMap ContractKey Nat} {contract c : ContractKey} {seq : Nat}
  {order left : RestingStrategyOrder}

/-- The number of tracked orders on a contract. -/
def liveOn (tracked : Std.TreeMap Nat RestingStrategyOrder) (contract : ContractKey) : Nat :=
  tally (fun order => compare order.contract contract = .eq) tracked

/-- The live-order index counts the tracked orders, and has no entry for a contract without. -/
def LiveCounts (tracked : Std.TreeMap Nat RestingStrategyOrder)
    (live : Std.TreeMap ContractKey Nat) : Prop :=
  ∀ contract : ContractKey, live[contract]? =
    if liveOn tracked contract = 0 then none else some (liveOn tracked contract)

theorem liveOn_congr (h : compare contract c = .eq) : liveOn tracked contract = liveOn tracked c := by
  unfold liveOn tally
  congr 1
  funext entry
  have hsame : compare entry.2.contract contract = .eq ↔ compare entry.2.contract c = .eq :=
    ⟨fun heq => Std.TransCmp.eq_trans heq h,
      fun heq => Std.TransCmp.eq_trans heq (Std.OrientedCmp.eq_symm h)⟩
  simp only [hsame]

theorem liveOn_pos (horder : tracked[seq]? = some order) (hc : compare order.contract c = .eq) :
    0 < liveOn tracked c :=
  tally_pos.2 ⟨seq, order, horder, hc⟩

namespace LiveCounts

theorem empty : LiveCounts ∅ ∅ := by
  intro contract
  simp [liveOn]

theorem congr (h : LiveCounts tracked live) (hsame : ∀ seq : Nat, tracked[seq]? = tracked'[seq]?) :
    LiveCounts tracked' live := by
  intro contract
  have hcount : liveOn tracked contract = liveOn tracked' contract := tally_congr hsame
  rw [h contract, hcount]

/-- An order counts the same whatever is left of it. -/
theorem replace (h : LiveCounts tracked live) (horder : tracked[seq]? = some order)
    (hcontract : left.contract = order.contract) : LiveCounts (tracked.insert seq left) live := by
  intro contract
  have hcount : liveOn (tracked.insert seq left) contract = liveOn tracked contract :=
    tally_replace horder (by rw [hcontract])
  rw [h contract, hcount]

/-- A new order adds one on its contract. -/
theorem track (h : LiveCounts tracked live) (hnew : tracked[seq]? = none)
    (hcontract : order.contract = contract) : LiveCounts (tracked.insert seq order)
      (live.insert contract (live[contract]?.getD 0 + 1)) := by
  intro c
  have hcount : liveOn (tracked.insert seq order) c =
      liveOn tracked c + if compare order.contract c = .eq then 1 else 0 := tally_insert hnew
  rw [Std.TreeMap.getElem?_insert, hcount, hcontract]
  by_cases hc : compare contract c = .eq
  · rw [if_pos hc, if_pos hc, h contract, liveOn_congr hc]
    by_cases hzero : liveOn tracked c = 0 <;> simp [hzero]
  · rw [if_neg hc, if_neg hc, h c]
    simp

end LiveCounts

end Counts

section Index

variable {index : Std.TreeMap OrderId Nat} {tracked tracked' : Std.TreeMap Nat RestingStrategyOrder}
  {seq : Nat} {order left : RestingStrategyOrder}

/-- The index by engine id and the orders by book id are inverse to each other. -/
def Mirrors (index : Std.TreeMap OrderId Nat) (tracked : Std.TreeMap Nat RestingStrategyOrder) :
    Prop :=
  ∀ (orderId : OrderId) (seq : Nat), index[orderId]? = some seq ↔
    ∃ order, tracked[seq]? = some order ∧ order.orderId = orderId

namespace Mirrors

theorem empty : Mirrors ∅ ∅ := by
  intro orderId seq
  simp

theorem congr (h : Mirrors index tracked) (hsame : ∀ seq : Nat, tracked[seq]? = tracked'[seq]?) :
    Mirrors index tracked' := by
  intro orderId seq
  rw [h orderId seq, hsame]

theorem replace (h : Mirrors index tracked) (horder : tracked[seq]? = some order)
    (hid : left.orderId = order.orderId) : Mirrors index (tracked.insert seq left) := by
  intro orderId s
  rw [h orderId s, OrderedMap.getElem?_insert]
  split_ifs with hs
  · subst hs
    simp [horder, hid]
  · rfl

theorem remove (h : Mirrors index tracked) (horder : tracked[seq]? = some order) :
    Mirrors (index.erase order.orderId) (tracked.erase seq) := by
  intro orderId s
  rw [OrderedMap.getElem?_erase, OrderedMap.getElem?_erase]
  constructor
  · intro hindex
    split_ifs at hindex with hid
    obtain ⟨found, hfound, hfid⟩ := (h orderId s).1 hindex
    refine ⟨found, ?_, hfid⟩
    rw [if_neg]
    · exact hfound
    · rintro rfl
      cases hfound.symm.trans horder
      exact hid hfid.symm
  · rintro ⟨found, hfound, hfid⟩
    split_ifs at hfound with hs
    have hindex := (h orderId s).2 ⟨found, hfound, hfid⟩
    rw [if_neg]
    · exact hindex
    · rintro rfl
      have hseq := (h order.orderId seq).2 ⟨order, horder, rfl⟩
      exact hs (Option.some.inj (hindex.symm.trans hseq))

theorem add {id : OrderId} (h : Mirrors index tracked) (hnew : tracked[seq]? = none)
    (hid : order.orderId = id) (hfresh : ∀ (s : Nat) (other : RestingStrategyOrder),
      tracked[s]? = some other → other.orderId ≠ id) :
    Mirrors (index.insert id seq) (tracked.insert seq order) := by
  subst hid
  intro orderId s
  rw [OrderedMap.getElem?_insert, OrderedMap.getElem?_insert]
  constructor
  · intro hindex
    split_ifs at hindex with hid
    · obtain rfl := Option.some.inj hindex
      exact ⟨order, if_pos rfl, hid.symm⟩
    · obtain ⟨found, hfound, hfid⟩ := (h orderId s).1 hindex
      refine ⟨found, ?_, hfid⟩
      rw [if_neg]
      · exact hfound
      · rintro rfl
        cases hfound.symm.trans hnew
  · rintro ⟨found, hfound, hfid⟩
    split_ifs at hfound with hs
    · cases hfound
      rw [if_pos hfid.symm, hs]
    · rw [if_neg, h orderId s]
      · exact ⟨found, hfound, hfid⟩
      · rintro rfl
        exact hfresh s found hfound hfid

end Mirrors

end Index

section Release

variable {B : Type} {m m' : RealisticFill B} {seq : Nat} {order : RestingStrategyOrder}

/-- A release lowers the count of its contract by one, and drops it at zero. -/
theorem releaseLiveOrder_live {contract : ContractKey} (h : m.releaseLiveOrder contract = .ok m') :
    ∃ count, m.liveOrders[contract]? = some count ∧ 0 < count ∧ ∀ c : ContractKey,
      m'.liveOrders[c]? = if compare contract c = .eq then (if count = 1 then none else some (count - 1))
        else m.liveOrders[c]? := by
  simp only [releaseLiveOrder, bind_ok_iff, okOr_eq_ok, require_eq_ok] at h
  obtain ⟨count, hcount, _, hpos, h⟩ := h
  refine ⟨count, hcount, hpos, fun c => ?_⟩
  split_ifs at h with hone <;> cases h
  · rw [Std.TreeMap.getElem?_erase, if_pos hone]
  · rw [Std.TreeMap.getElem?_insert, if_neg hone]

/-- The released order no longer counts. -/
theorem releaseLiveOrder_counts {tracked : Std.TreeMap Nat RestingStrategyOrder}
    {contract : ContractKey} (hrelease : m.releaseLiveOrder contract = .ok m')
    (h : LiveCounts tracked m.liveOrders) (horder : tracked[seq]? = some order)
    (hcontract : order.contract = contract) : LiveCounts (tracked.erase seq) m'.liveOrders := by
  subst hcontract
  obtain ⟨count, hcount, hpos, hlive⟩ := releaseLiveOrder_live hrelease
  intro c
  have herase : liveOn (tracked.erase seq) c + (if compare order.contract c = .eq then 1 else 0) =
      liveOn tracked c := tally_erase horder
  rw [hlive c]
  by_cases hc : compare order.contract c = .eq
  · have hsame : liveOn tracked c = count := by
      have hentry := h order.contract
      rw [hcount, liveOn_congr hc] at hentry
      split_ifs at hentry
      exact (Option.some.inj hentry).symm
    rw [if_pos hc] at herase ⊢
    have hleft : liveOn (tracked.erase seq) c = count - 1 := by omega
    rw [hleft]
    by_cases hone : count = 1
    · rw [if_pos hone, if_pos (by omega)]
    · rw [if_neg hone, if_neg (by omega)]
  · rw [if_neg hc] at herase ⊢
    rw [h c, ← herase, Nat.add_zero]

end Release

section Operations

variable {B : Type} {m m' : RealisticFill B} {orders orders' : List (OrderId × OrderIntent)}
  {snap : ChainSnapshot}

/-- A live order: something of it is left, and it is a good-till-cancelled order among those
submitted. -/
structure Live (orders : List (OrderId × OrderIntent)) (nextStrategyId seq : Nat)
    (order : RestingStrategyOrder) : Prop where
  remaining : 0 < order.remaining
  below : seq < nextStrategyId
  submitted : ∃ intent, (order.orderId, intent) ∈ orders ∧ intent.contract = order.contract ∧
    intent.side = order.side ∧ intent.tif = .Gtc

/-- The three maps agree, after the orders `orders` were submitted. -/
structure Mirrored (orders : List (OrderId × OrderIntent)) (m : RealisticFill B) : Prop where
  index : Mirrors m.orderIndex m.restingStrategy
  counts : LiveCounts m.restingStrategy m.liveOrders
  live : ∀ (seq : Nat) (order : RestingStrategyOrder), m.restingStrategy[seq]? = some order →
    Live orders m.nextStrategyId seq order

theorem Live.mono {n n' seq : Nat} {order : RestingStrategyOrder} (h : Live orders n seq order)
    (hsub : orders ⊆ orders') (hle : n ≤ n') : Live orders' n' seq order where
  remaining := h.remaining
  below := h.below.trans_le hle
  submitted := by
    obtain ⟨intent, hmem, hfacts⟩ := h.submitted
    exact ⟨intent, hsub hmem, hfacts⟩

theorem Mirrored.mono (h : Mirrored orders m) (hsub : orders ⊆ orders') : Mirrored orders' m where
  index := h.index
  counts := h.counts
  live seq order horder := (h.live seq order horder).mono hsub le_rfl

theorem captureRefreshFill_counts {trade : Trade ObOrderId} {contract : ContractKey}
    {tick : PriceCents} {carried : Option (OrderId × Fill)}
    (hcounts : LiveCounts m.restingStrategy m.liveOrders)
    (h : m.captureRefreshFill trade contract tick snap = .ok (m', carried)) :
    LiveCounts m'.restingStrategy m'.liveOrders := by
  unfold captureRefreshFill at h
  split at h
  · cases h
    exact hcounts
  · rename_i seq hmaker
    split at h
    · cases h
      exact hcounts
    · rename_i order horder
      simp only [bind_ok_iff] at h
      obtain ⟨_, -, _, -, _, -, _, -, groups, -, h⟩ := h
      have hleft : LiveCounts (m.restingStrategy.insert seq { order with
          firstFillDone := true, remaining := order.remaining - trade.quantity }) m.liveOrders :=
        hcounts.replace horder rfl
      split_ifs at h
      · obtain ⟨released, hrelease, h⟩ := bind_ok_iff.1 h
        cases h
        obtain ⟨live, hreleased⟩ := releaseLiveOrder_eq_ok hrelease
        have hdone := releaseLiveOrder_counts hrelease hleft Std.TreeMap.getElem?_insert_self rfl
        rw [hreleased] at hdone ⊢
        exact hdone
      · cases h
        exact hleft

/-- A captured trade takes from one live order, and drops it with its last contract. -/
theorem captureRefreshFill_mirrored {trade : Trade ObOrderId} {contract : ContractKey}
    {tick : PriceCents} {carried : Option (OrderId × Fill)} (hm : Mirrored orders m)
    (h : m.captureRefreshFill trade contract tick snap = .ok (m', carried)) :
    Mirrored orders m' := by
  have hcounts := captureRefreshFill_counts hm.counts h
  rcases captureRefreshFill_cases h with ⟨-, rfl, -⟩ |
    ⟨seq, order, fill, groups, live, -, horder, -, -, -, -, -, -, -, hle, -, rfl⟩
  · exact hm
  refine ⟨?_, hcounts, ?_⟩
  · have hleft : Mirrors m.orderIndex (m.restingStrategy.insert seq { order with
        firstFillDone := true, remaining := order.remaining - trade.quantity }) :=
      hm.index.replace horder rfl
    unfold afterRefresh
    split_ifs
    · have hremoved := hleft.remove Std.TreeMap.getElem?_insert_self
      exact hremoved
    · exact hleft
  · intro s found hfound
    have hold := hm.live seq order horder
    by_cases hall : order.remaining = trade.quantity
    · simp only [afterRefresh, if_pos hall, OrderedMap.getElem?_erase,
        OrderedMap.getElem?_insert] at hfound
      split_ifs at hfound
      exact hm.live s found hfound
    · simp only [afterRefresh, if_neg hall, OrderedMap.getElem?_insert] at hfound
      split_ifs at hfound with hs
      · cases hfound
        subst hs
        exact ⟨by change 0 < order.remaining - trade.quantity; omega, hold.below, hold.submitted⟩
      · exact hm.live s found hfound

theorem captureTrade_mirrored {trade : Trade ObOrderId} {contract : ContractKey}
    {tick : PriceCents} {out out' : List (OrderId × Fill)} (hm : Mirrored orders m)
    (h : captureTrade contract tick snap (m, out) trade = .ok (m', out')) : Mirrored orders m' := by
  obtain ⟨carried, hcapture, -⟩ := captureTrade_eq_ok h
  exact captureRefreshFill_mirrored hm hcapture

variable [Book B ObOrderId]

theorem refreshBooks_mirrored [DecimalArith] {carried : List (OrderId × Fill)}
    (hm : Mirrored orders m) (h : m.refreshBooks snap = .ok (m', carried)) : Mirrored orders m' :=
  refreshBooks_invariant (fun x _ => Mirrored orders x)
    (fun _ _ _ _ _ hx => ⟨hx.index, hx.counts, hx.live⟩)
    (fun _ _ _ _ _ _ _ hx hcapture => captureTrade_mirrored hx hcapture) hm h

theorem cancelResting_counts {orderId : OrderId}
    (hcounts : LiveCounts m.restingStrategy m.liveOrders) (h : m.cancelResting orderId = .ok m') :
    LiveCounts m'.restingStrategy m'.liveOrders := by
  unfold cancelResting at h
  split at h
  · cases h
    exact hcounts
  · rename_i seq hseq
    obtain ⟨dropped, hdrop, h⟩ := bind_ok_iff.1 h
    cases h
    unfold dropTracked at hdrop
    split at hdrop
    · cases hdrop
      exact hcounts
    · rename_i order horder
      obtain ⟨books, -, hrelease⟩ := bind_ok_iff.1 hdrop
      obtain ⟨live, hreleased⟩ := releaseLiveOrder_eq_ok hrelease
      have hdone := releaseLiveOrder_counts hrelease hcounts horder rfl
      rw [hreleased] at hdone ⊢
      exact hdone

/-- A cancel drops one live order from all three maps. -/
theorem cancelCommand_mirrored {cmd : OrderCommand} (hm : Mirrored orders m)
    (h : m.cancelCommand cmd = .ok m') : Mirrored orders m' := by
  unfold cancelCommand at h
  split at h
  · rename_i orderId _
    have hcounts := cancelResting_counts hm.counts h
    rcases cancelResting_cases h with ⟨-, rfl⟩ | ⟨seq, hseq, hnone, -⟩ |
      ⟨seq, order, books, live, hseq, horder, -, rfl⟩
    · exact hm
    · obtain ⟨order, horder, -⟩ := (hm.index orderId seq).1 hseq
      cases horder.symm.trans hnone
    · refine ⟨?_, hcounts, fun s found hfound => ?_⟩
      · obtain ⟨found, hfound, hid⟩ := (hm.index orderId seq).1 hseq
        cases hfound.symm.trans horder
        exact hid ▸ hm.index.remove horder
      · simp only [afterCancel, OrderedMap.getElem?_erase] at hfound
        split_ifs at hfound
        exact hm.live s found hfound
  · cases h
    exact hm

/-- A routed order is tracked in all three maps or in none, under an engine id not seen before. -/
theorem fillSubmit_mirrored {intent : OrderIntent} {orderId : OrderId} {fills : List Fill}
    (hm : Mirrored orders m) (hfresh : orderId ∉ orders.map Prod.fst)
    (h : m.fillSubmit intent orderId snap = .ok (m', fills)) :
    Mirrored (orders ++ [(orderId, intent)]) m' := by
  obtain ⟨limit, ticks, before, after, result, hsubmitted⟩ := fillSubmit_eq_ok h
  have hsub : orders ⊆ orders ++ [(orderId, intent)] := List.subset_append_left ..
  have htracked := hsubmitted.tracked
  split_ifs at htracked with hgtc
  · have hnew : m.restingStrategy[m.nextStrategyId]? = none := by
      rcases hfound : m.restingStrategy[m.nextStrategyId]? with _ | order
      · rfl
      · exact absurd (hm.live _ order hfound).below (lt_irrefl _)
    have hcount := htracked
    simp only [trackResting, bind_ok_iff, narrow_eq_ok, pure_ok_iff] at hcount
    obtain ⟨count, hcount, rfl⟩ := hcount
    have hvalue : count.value.toNat = m.liveOrders[intent.contract]?.getD 0 + 1 := by
      have hnat := congrArg Int.toNat hcount
      simpa [afterSubmit] using hnat
    refine ⟨?_, ?_, ?_⟩
    · refine hm.index.add hnew rfl fun s other hother hid => ?_
      obtain ⟨other', hmem, -⟩ := (hm.live s other hother).submitted
      exact hfresh (List.mem_map.2 ⟨_, hmem, hid⟩)
    · rw [hvalue]
      exact hm.counts.track hnew rfl
    · intro s found hfound
      simp only [OrderedMap.getElem?_insert] at hfound
      split_ifs at hfound with hs
      · cases hfound
        subst hs
        exact ⟨hgtc.2, Nat.lt_succ_self _, intent, by simp, rfl, rfl, hgtc.1⟩
      · exact (hm.live s found hfound).mono hsub (Nat.le_succ _)
  · subst htracked
    exact ⟨hm.index, hm.counts, fun s found hfound =>
      (hm.live s found hfound).mono hsub (Nat.le_succ _)⟩

end Operations

end IronCondor.RealisticFill
