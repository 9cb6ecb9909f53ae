import IronCondor.Execution.BookHistory

/-! # The model keeps itself consistent

After any sequence of successful calls the mirrors of the live orders agree, every live order has
its book, and the books are what the submissions, each under an id of its own, left of them. No law
of the books is needed. -/
namespace IronCondor.RealisticFill

open Checked ExceptRun OrderBook

variable {B : Type} [Book B ObOrderId] {m m' : RealisticFill B} {snap : ChainSnapshot}
  {orders : List (OrderId × OrderIntent)}

/-- Every live order has the book of its contract. -/
def Booked (m : RealisticFill B) : Prop :=
  ∀ (seq : Nat) (order : RestingStrategyOrder), m.restingStrategy[seq]? = some order →
    ∃ book, m.books[order.contract]? = some book

/-- The model after the orders `orders` were submitted. -/
structure Consistent (orders : List (OrderId × OrderIntent)) (m : RealisticFill B) : Prop where
  mirrored : Mirrored orders m
  booked : Booked m
  history : ∃ submissions, History submissions m.books ∧
    Minted orders submissions m.nextStrategyId m.nextMakerId

/-- A contract with a live order. -/
def HasLive (m : RealisticFill B) (contract : ContractKey) : Prop :=
  ∃ (seq : Nat) (order : RestingStrategyOrder), m.restingStrategy[seq]? = some order ∧
    compare order.contract contract = .eq

theorem Booked.step {keep : ContractKey → Prop} (h : Booked m)
    (hnarrow : Narrows (fun _ => True) m m') (hcarries : Carries keep m.books m'.books)
    (hkeep : ∀ contract, HasLive m contract → keep contract) : Booked m' := by
  intro seq order' horder'
  obtain ⟨order, horder, -, hcontract, -⟩ := hnarrow seq order' trivial horder'
  obtain ⟨book, hbook⟩ := h seq order horder
  have hlive : HasLive m order.contract := ⟨seq, order, horder, Std.ReflCmp.compare_self⟩
  obtain ⟨book', hbook', -⟩ := hcarries order.contract book (hkeep _ hlive) hbook
  exact ⟨book', hcontract ▸ hbook'⟩

section Refresh

omit [Book B ObOrderId] in
theorem captureTrades_frame {contract : ContractKey} {tick : PriceCents}
    {out out' : List (OrderId × Fill)} {trades : List (Trade ObOrderId)}
    (h : trades.foldlM (captureTrade contract tick snap) (m, out) = .ok (m', out')) :
    m'.books = m.books ∧ m'.nextStrategyId = m.nextStrategyId ∧ m'.nextMakerId = m.nextMakerId ∧
      Narrows (fun _ => True) m m' := by
  refine foldlM_invariant (fun acc => acc.1.books = m.books ∧
    acc.1.nextStrategyId = m.nextStrategyId ∧ acc.1.nextMakerId = m.nextMakerId ∧
      Narrows (fun _ => True) m acc.1) ?_ ⟨rfl, rfl, rfl, .refl⟩ h
  rintro ⟨x, xs⟩ trade ⟨y, ys⟩ ⟨hbooks, hstrategy, hmaker, hnarrow⟩ hstep
  obtain ⟨carried, hcapture, -⟩ := captureTrade_eq_ok hstep
  rcases captureRefreshFill_cases hcapture with ⟨-, rfl, -⟩ |
    ⟨seq, order, fill, groups, live, -, horder, -, -, -, -, -, -, -, -, -, rfl⟩
  · exact ⟨hbooks, hstrategy, hmaker, hnarrow⟩
  · exact ⟨hbooks, hstrategy, hmaker, hnarrow.trans (afterRefresh_narrows horder)⟩

/-- One seed order reaches its book under the next maker id. -/
theorem reseedOrder_consistent {tick : PriceCents} {planned : SeedOrder}
    {out out' : List (OrderId × Fill)} (h : Consistent orders m)
    (hstep : reseedOrder snap tick (m, out) planned = .ok (m', out')) :
    Consistent orders m' ∧ Narrows (fun _ => True) m m' ∧
      Carries (fun _ => True) m.books m'.books := by
  obtain ⟨ticks, book, book', result, captured, -, hleaf, hadd, hcapture, rfl⟩ :=
    reseedOrder_eq_ok hstep
  obtain ⟨hbooks, hstrategy, hmaker, hnarrow⟩ := captureTrades_frame hcapture
  have hmirrored := foldlM_invariant (fun acc => Mirrored orders acc.1)
    (fun _ _ _ hx htrade => captureTrade_mirrored hx htrade)
    (⟨h.mirrored.index, h.mirrored.counts, h.mirrored.live⟩ :
      Mirrored orders (m.afterSeed planned.contract book')) hcapture
  have hcarries : Carries (fun _ => True) m.books captured.books := by
    rw [hbooks]
    refine .insert fun old hold => ?_
    obtain rfl := leafBook_found hleaf hold
    exact .single (.inl ⟨_, _, _, _, _, hadd⟩)
  obtain ⟨submissions, hhistory, hminted⟩ := h.history
  refine ⟨⟨⟨hmirrored.index, hmirrored.counts, hmirrored.live⟩,
    h.booked.step hnarrow hcarries fun _ _ => trivial, ?_⟩, hnarrow, hcarries⟩
  refine ⟨submissions ++ [(.seed planned, m.nextMakerId)], ?_, ?_⟩
  · have hsubmit := hhistory.submit (.seed planned) hleaf hadd
    change History _ captured.books
    rw [hbooks]
    exact hsubmit
  · change Minted _ _ captured.nextStrategyId captured.nextMakerId
    rw [hstrategy, hmaker]
    exact hminted.seed planned

/-- Cancelled one after the other, the seeds of a contract leave its book some operations later. -/
theorem cancelSeeds_history {books books' : Std.TreeMap ContractKey B}
    {entry : ContractKey × List Nat} {submissions : List (Submission × Nat)}
    (hhistory : History submissions books) (h : cancelSeeds books entry = .ok books') :
    History submissions books' ∧ Carries (fun _ => True) books books' := by
  rcases cancelSeeds_cases h with ⟨-, rfl⟩ | ⟨book, book', hbook, rfl, hfold⟩
  · exact ⟨hhistory, .refl⟩
  refine ⟨?_, .insert fun old hold => ?_⟩
  · refine foldlM_invariant (fun b => History submissions (books.insert entry.1 b)) ?_ ?_ hfold
    · intro mid seq after hmid hstep
      simp only [bind_ok_iff, orderBookError_eq_ok, pure_ok_iff, Prod.exists] at hstep
      obtain ⟨_, found, hcancel, rfl⟩ := hstep
      refine (hmid.cancel Std.TreeMap.getElem?_insert_self hcancel).congr fun c => ?_
      simp only [Std.TreeMap.getElem?_insert]
      split_ifs <;> rfl
    · refine hhistory.congr fun c => ?_
      rw [Std.TreeMap.getElem?_insert]
      split_ifs with hc
      · rw [← Std.TreeMap.getElem?_congr hc, hbook]
      · rfl
  · cases hold.symm.trans hbook
    exact cancelFold_evolves hfold

theorem cancelStaleSeed_consistent (h : Consistent orders m) (hstale : m.cancelStaleSeed = .ok m') :
    Consistent orders m' ∧ Carries (fun _ => True) m.books m'.books ∧
      m'.restingStrategy = m.restingStrategy ∧ m'.liveOrders = m.liveOrders := by
  obtain ⟨books, hfold, hm⟩ := bind_ok_iff.1 hstale
  cases hm
  obtain ⟨submissions, hhistory, hminted⟩ := h.history
  obtain ⟨hhistory', hcarries⟩ := foldlM_invariant
    (fun b => History submissions b ∧ Carries (fun _ => True) m.books b)
    (fun b entry b' hb hstep =>
      have hnext := cancelSeeds_history hb.1 hstep
      ⟨hnext.1, hb.2.trans hnext.2⟩) ⟨hhistory, .refl⟩ hfold
  refine ⟨⟨⟨h.mirrored.index, h.mirrored.counts, h.mirrored.live⟩, ?_, submissions, hhistory',
    hminted⟩, hcarries, rfl, rfl⟩
  intro seq order horder
  obtain ⟨book, hbook⟩ := h.booked seq order horder
  obtain ⟨book', hbook', -⟩ := hcarries order.contract book trivial hbook
  exact ⟨book', hbook'⟩

/-- The eviction keeps every book with a live order, as it is. -/
theorem evictDeparted_consistent (h : Consistent orders m) :
    Consistent orders (m.evictDeparted snap) ∧
      Carries m.HasLive m.books (m.evictDeparted snap).books := by
  have hcarries : Carries m.HasLive m.books (m.evictDeparted snap).books := by
    rintro contract book ⟨seq, order, horder, hc⟩ hbook
    refine ⟨book, ?_, .refl⟩
    have hcount := liveOn_pos horder hc
    have hlive : m.liveOrders.contains contract = true := by
      rw [← Std.TreeMap.isSome_getElem?_eq_contains, h.mirrored.counts contract, if_neg hcount.ne']
      rfl
    rw [evictDeparted, OrderedMap.getElem?_retain keeps_congr, hlive, Bool.or_true, if_pos rfl]
    exact hbook
  obtain ⟨submissions, hhistory, hminted⟩ := h.history
  have hnarrow : Narrows (fun _ => True) m (m.evictDeparted snap) :=
    fun _ order _ horder => ⟨order, horder, rfl, rfl, rfl⟩
  exact ⟨⟨⟨h.mirrored.index, h.mirrored.counts, h.mirrored.live⟩,
    h.booked.step hnarrow hcarries fun _ hlive => hlive, submissions,
    hhistory.evict fun c => snap.quotes.contains c || m.liveOrders.contains c, hminted⟩, hcarries⟩

/-- The refresh keeps the books with a live order. -/
theorem refreshBooks_consistent [DecimalArith] {carried : List (OrderId × Fill)}
    (h : Consistent orders m) (hrefresh : m.refreshBooks snap = .ok (m', carried)) :
    Consistent orders m' ∧ Carries m.HasLive m.books m'.books := by
  unfold refreshBooks at hrefresh
  split at hrefresh
  · cases hrefresh
    exact ⟨h, .refl⟩
  simp only [bind_ok_iff] at hrefresh
  obtain ⟨_, -, stale, hstale, plan, -, hreseed⟩ := hrefresh
  obtain ⟨hcleared, hcancelled, htracked, -⟩ := cancelStaleSeed_consistent h hstale
  obtain ⟨hevicted, hkept⟩ : Consistent orders (stale.evictDeparted snap) ∧
      Carries stale.HasLive stale.books (stale.evictDeparted snap).books :=
    evictDeparted_consistent hcleared
  have hlive : ∀ contract, m.HasLive contract → stale.HasLive contract := by
    unfold HasLive
    rw [htracked]
    exact fun _ hlive => hlive
  have hstart : Carries m.HasLive m.books (stale.evictDeparted snap).books :=
    (hcancelled.weaken fun _ _ => trivial).trans (hkept.weaken hlive)
  refine foldlM_invariant (fun acc => Consistent orders acc.1 ∧ Carries m.HasLive m.books acc.1.books)
    ?_ ⟨hevicted, hstart⟩ hreseed
  rintro ⟨x, xs⟩ planned ⟨y, ys⟩ ⟨hx, hbooks⟩ hstep
  obtain ⟨hy, -, hnext⟩ := reseedOrder_consistent hx hstep
  exact ⟨hy, hbooks.trans (hnext.weaken fun _ _ => trivial)⟩

end Refresh

section Commands

theorem cancelInBook_history {books books' : Std.TreeMap ContractKey B} {contract : ContractKey}
    {seq : Nat} {submissions : List (Submission × Nat)} (hhistory : History submissions books)
    (h : cancelInBook books contract seq = .ok books') :
    History submissions books' ∧ Carries (fun _ => True) books books' := by
  rcases cancelInBook_cases h with ⟨-, rfl⟩ | ⟨book, book', found, hbook, hcancel, rfl⟩
  · exact ⟨hhistory, .refl⟩
  · refine ⟨hhistory.cancel hbook hcancel, .insert fun old hold => ?_⟩
    cases hold.symm.trans hbook
    exact .single (.inr ⟨_, found, hcancel⟩)

theorem cancelCommand_consistent {cmd : OrderCommand} (h : Consistent orders m)
    (hcancel : m.cancelCommand cmd = .ok m') :
    Consistent orders m' ∧ Carries (fun _ => True) m.books m'.books := by
  have hmirrored := cancelCommand_mirrored h.mirrored hcancel
  unfold cancelCommand at hcancel
  split at hcancel
  · rcases cancelResting_cases hcancel with ⟨-, rfl⟩ | ⟨_, -, -, rfl⟩ |
      ⟨seq, order, books, live, -, -, hbooks, rfl⟩
    · exact ⟨h, .refl⟩
    · exact ⟨⟨hmirrored, h.booked, h.history⟩, .refl⟩
    · obtain ⟨submissions, hhistory, hminted⟩ := h.history
      obtain ⟨hhistory', hcarries⟩ := cancelInBook_history hhistory hbooks
      refine ⟨⟨hmirrored, fun s found hfound => ?_, submissions, hhistory', hminted⟩, hcarries⟩
      simp only [afterCancel, OrderedMap.getElem?_erase] at hfound
      split_ifs at hfound
      obtain ⟨book, hbook⟩ := h.booked s found hfound
      obtain ⟨book', hbook', -⟩ := hcarries found.contract book trivial hbook
      exact ⟨book', hbook'⟩
  · cases hcancel
    exact ⟨h, .refl⟩

/-- One routed order reaches its book under the next strategy id, and its remainder is cancelled
there or tracked. -/
theorem fillSubmit_consistent {intent : OrderIntent} {orderId : OrderId} {fills : List Fill}
    (h : Consistent orders m) (hfresh : orderId ∉ orders.map Prod.fst)
    (hsubmit : m.fillSubmit intent orderId snap = .ok (m', fills)) :
    Consistent (orders ++ [(orderId, intent)]) m' ∧
      Carries (fun _ => True) m.books m'.books := by
  have hmirrored := fillSubmit_mirrored h.mirrored hfresh hsubmit
  obtain ⟨limit, ticks, before, after, result, hsubmitted⟩ := fillSubmit_eq_ok hsubmit
  obtain ⟨-, -, -, hstrategy, hmaker, hbooks⟩ := hsubmitted.frame
  obtain ⟨book, hadd, hafter⟩ := hsubmitted.matched
  obtain ⟨submissions, hhistory, hminted⟩ := h.history
  have hsent := hhistory.submit (.order orderId intent) hsubmitted.leaf hadd
  have hcarries : Carries (fun _ => True) m.books m'.books := by
    rw [hbooks]
    refine .insert fun old hold => ?_
    obtain rfl := leafBook_found hsubmitted.leaf hold
    have hsingle : Evolves before book := .single (.inl ⟨_, _, _, _, _, hadd⟩)
    rcases cancelRemainder_eq_ok hafter with ⟨-, rfl⟩ | ⟨found, -, hcancel⟩
    · exact hsingle
    · exact hsingle.tail (.inr ⟨_, found, hcancel⟩)
  refine ⟨⟨hmirrored, fun s found hfound => ?_, _, ?_, hstrategy ▸ hmaker ▸
    hminted.order hsubmitted.strategyId orderId intent⟩, hcarries⟩
  · by_cases hown : compare intent.contract found.contract = .eq
    · refine ⟨after, ?_⟩
      rw [hbooks, Std.TreeMap.getElem?_insert, if_pos hown]
    · have hold : m.restingStrategy[s]? = some found := by
        have htracked := hsubmitted.tracked
        split_ifs at htracked
        · obtain ⟨live, rfl⟩ := trackResting_eq_ok htracked
          simp only [OrderedMap.getElem?_insert] at hfound
          split_ifs at hfound
          · cases hfound
            exact absurd Std.ReflCmp.compare_self hown
          · exact hfound
        · subst htracked
          exact hfound
      obtain ⟨book, hbook⟩ := h.booked s found hold
      obtain ⟨book', hbook', -⟩ := hcarries found.contract book trivial hbook
      exact ⟨book', hbook'⟩
  · rw [hbooks]
    rcases cancelRemainder_eq_ok hafter with ⟨-, rfl⟩ | ⟨found, -, hcancel⟩
    · exact hsent
    · refine (hsent.cancel Std.TreeMap.getElem?_insert_self hcancel).congr fun c => ?_
      simp only [Std.TreeMap.getElem?_insert]
      change (if compare intent.contract c = .eq then some after
        else if compare intent.contract c = .eq then some book else m.books[c]?) = _
      split_ifs <;> rfl

/-- The submit phase, by induction on the commands that are left. -/
theorem routeCommands_consistent {entries : List (OrderCommand × Nat)} {submitIds : List OrderId}
    {r r' : Routing B} (h : Consistent orders r.model)
    (hfresh : ((orders ++ (submitIds.drop r.nextSubmitId).zip
      (entries.filterMap fun entry => entry.1.intent?)).map Prod.fst).Nodup)
    (hroute : entries.foldlM (routeCommand submitIds snap) r = .ok r') :
    Consistent (orders ++ (submitIds.drop r.nextSubmitId).zip
      (entries.filterMap fun entry => entry.1.intent?)) r'.model ∧
      Carries (fun _ => True) r.model.books r'.model.books := by
  induction entries generalizing orders r with
  | nil =>
    obtain rfl := foldlM_nil_ok.1 hroute
    simpa using ⟨h, Carries.refl⟩
  | cons entry entries ih =>
    obtain ⟨mid, hmid, hrest⟩ := foldlM_cons_ok.1 hroute
    rcases routeCommand_cases hmid with ⟨hnone, rfl⟩ |
      ⟨intent, orderId, m₁, fills, hsome, hid, hsubmit, -, hnext, hmodel⟩
    · simp only [List.filterMap_cons, hnone] at hfresh ⊢
      exact ih h hfresh hrest
    obtain ⟨hlt, rfl⟩ := List.getElem?_eq_some_iff.1 hid
    simp only [List.filterMap_cons, hsome] at hfresh ⊢
    rw [List.drop_eq_getElem_cons hlt, List.zip_cons_cons, List.append_cons, ← hnext] at hfresh ⊢
    have hnew : submitIds[r.nextSubmitId] ∉ orders.map Prod.fst := by
      rw [List.map_append, List.map_append] at hfresh
      have hprefix := (List.nodup_append.1 hfresh).1
      rw [List.nodup_append] at hprefix
      exact fun hmem => hprefix.2.2 _ hmem _ (by simp) rfl
    obtain ⟨hsent, hcarries⟩ := fillSubmit_consistent h hnew hsubmit
    have hbooks : mid.model.books = m₁.books := by
      rcases hmodel with ⟨-, hm⟩ | ⟨_, -, -, hm⟩ <;> rw [hm]
    have hmid : Consistent (orders ++ [(submitIds[r.nextSubmitId], intent)]) mid.model := by
      rcases hmodel with ⟨-, hm⟩ | ⟨_, -, -, hm⟩ <;> rw [hm]
      · exact hsent
      · exact ⟨⟨hsent.mirrored.index, hsent.mirrored.counts, hsent.mirrored.live⟩, hsent.booked,
          hsent.history⟩
    obtain ⟨hlast, hlater⟩ := ih hmid hfresh hrest
    exact ⟨hlast, hcarries.trans (hbooks ▸ hlater)⟩

end Commands

section Calls

variable [DecimalArith]

/-- A call from outside: one step of the engine, or depth seeded by hand. -/
inductive ModelCall where
  | fill (commands : List OrderCommand) (submitIds : List OrderId) (snap : ChainSnapshot)
  | seedMakerLimit (contract : ContractKey) (isAsk : Bool) (price : PriceCents)
      (quantity : Quantity) (tick : PriceCents)

namespace ModelCall

/-- The model after the call, when it succeeds. -/
def apply (m : RealisticFill B) : ModelCall → Outcome (RealisticFill B)
  | fill commands submitIds snap => do
    let (m, _) ← ExecutionModel.fill m commands submitIds snap
    return m
  | seedMakerLimit contract isAsk price quantity tick =>
    m.seedMakerLimit contract isAsk price quantity tick

/-- The orders a call submits, under the engine ids it supplies. -/
def submitted : ModelCall → List (OrderId × OrderIntent)
  | fill commands submitIds _ => submitIds.zip (commands.filterMap (·.intent?))
  | seedMakerLimit .. => []

end ModelCall

/-- One call of the engine. -/
theorem fillAttributed_consistent {commands : List OrderCommand} {submitIds : List OrderId}
    {a : Attribution} (h : Consistent orders m)
    (hfresh : ((orders ++ submitIds.zip (commands.filterMap (·.intent?))).map Prod.fst).Nodup)
    (hcall : m.fillAttributed commands submitIds snap = .ok (m', a)) :
    Consistent (orders ++ submitIds.zip (commands.filterMap (·.intent?))) m' ∧
      Carries m.HasLive m.books m'.books := by
  simp only [fillAttributed, bind_ok_iff, pure_ok_iff, Prod.exists, Prod.mk.injEq] at hcall
  obtain ⟨m₁, carried, hrefresh, m₂, hcancel, r, hroute, rfl, -⟩ := hcall
  obtain ⟨hrefreshed, hbooks₁⟩ := refreshBooks_consistent
    (m := { m with fillGroups := [], carryGroups := [] })
    ⟨⟨h.mirrored.index, h.mirrored.counts, h.mirrored.live⟩, h.booked, h.history⟩ hrefresh
  obtain ⟨hcancelled, hbooks₂⟩ := foldlM_invariant
    (fun x => Consistent orders x ∧ Carries (fun _ => True) m₁.books x.books)
    (fun x cmd y hx hstep =>
      have hy := cancelCommand_consistent hx.1 hstep
      ⟨hy.1, hx.2.trans hy.2⟩) ⟨hrefreshed, .refl⟩ hcancel
  have hintents : commands.zipIdx.filterMap (fun entry => entry.1.intent?) =
      commands.filterMap (·.intent?) := by
    conv_rhs => rw [← List.zipIdx_map_fst 0 commands]
    rw [List.filterMap_map]
    rfl
  rw [← hintents] at hfresh ⊢
  obtain ⟨hrouted, hbooks₃⟩ := routeCommands_consistent (r := ⟨m₂, [], 0⟩) hcancelled hfresh hroute
  exact ⟨hrouted, hbooks₁.trans ((hbooks₂.trans hbooks₃).weaken fun _ _ => trivial)⟩

omit [DecimalArith] in
theorem seedMakerLimit_consistent {contract : ContractKey} {isAsk : Bool} {price tick : PriceCents}
    {quantity : Quantity} (h : Consistent orders m)
    (hseed : m.seedMakerLimit contract isAsk price quantity tick = .ok m') :
    Consistent orders m' ∧ Carries m.HasLive m.books m'.books := by
  simp only [seedMakerLimit, bind_ok_iff, orderBookError_eq_ok, pure_ok_iff, Prod.exists] at hseed
  obtain ⟨ticks, -, _, seq, hseq, book, hleaf, book', result, hadd, rfl⟩ := hseed
  obtain ⟨rfl, rfl⟩ := nextMakerOrderId_eq_ok hseq
  obtain ⟨submissions, hhistory, hminted⟩ := h.history
  have hsent := hhistory.submit (.seed ⟨contract, isAsk, price, quantity⟩) hleaf hadd
  have hcarries : Carries m.HasLive m.books (m.books.insert contract book') := by
    refine .insert fun old hold => ?_
    obtain rfl := leafBook_found hleaf hold
    exact .single (.inl ⟨_, _, _, _, _, hadd⟩)
  have hnarrow : Narrows (fun _ => True) m { m with
      nextMakerId := m.nextMakerId + 1, books := m.books.insert contract book' } :=
    fun _ order _ horder => ⟨order, horder, rfl, rfl, rfl⟩
  exact ⟨⟨⟨h.mirrored.index, h.mirrored.counts, h.mirrored.live⟩,
    h.booked.step hnarrow hcarries fun _ hlive => hlive, _, hsent, hminted.seed _⟩, hcarries⟩

theorem ModelCall.apply_consistent {call : ModelCall} (h : Consistent orders m)
    (hfresh : ((orders ++ call.submitted).map Prod.fst).Nodup) (hcall : call.apply m = .ok m') :
    Consistent (orders ++ call.submitted) m' ∧ Carries m.HasLive m.books m'.books := by
  cases call with
  | fill commands submitIds snap =>
    simp only [ModelCall.apply, ExecutionModel.fill, bind_ok_iff, pure_ok_iff, Prod.exists,
      Prod.mk.injEq] at hcall
    obtain ⟨_, _, ⟨_, a, hattributed, rfl, -⟩, rfl⟩ := hcall
    exact fillAttributed_consistent h hfresh hattributed
  | seedMakerLimit contract isAsk price quantity tick =>
    rw [ModelCall.submitted, List.append_nil]
    exact seedMakerLimit_consistent h hcall

variable {start : RealisticFill B} {fees : FeeSchedule} {cap : Bounded u32} {calls : List ModelCall}

omit [DecimalArith] in
/-- A fresh model tracks nothing and has no book. -/
theorem consistent_start (hstart : start = .new fees cap ∨
    ∃ profile, start = .withLiquidityProfile fees cap profile) : Consistent [] start := by
  obtain rfl | ⟨profile, rfl⟩ := hstart <;>
    exact ⟨⟨Mirrors.empty, LiveCounts.empty, by simp [withLiquidityProfile, new]⟩,
      by simp [Booked, withLiquidityProfile, new], [], .start, .start⟩

/-- The sequence rule: consistent before a sequence of calls, consistent after it. -/
theorem calls_consistent (h : Consistent orders start)
    (hfresh : ((orders ++ calls.flatMap ModelCall.submitted).map Prod.fst).Nodup)
    (hcalls : calls.foldlM ModelCall.apply start = .ok m) :
    Consistent (orders ++ calls.flatMap ModelCall.submitted) m := by
  induction calls generalizing orders start with
  | nil =>
    obtain rfl := foldlM_nil_ok.1 hcalls
    simpa using h
  | cons call calls ih =>
    obtain ⟨mid, hmid, hrest⟩ := foldlM_cons_ok.1 hcalls
    rw [List.flatMap_cons, ← List.append_assoc] at hfresh ⊢
    have hfirst : ((orders ++ call.submitted).map Prod.fst).Nodup := by
      rw [List.map_append] at hfresh
      exact (List.nodup_append.1 hfresh).1
    exact ih (ModelCall.apply_consistent h hfirst hmid).1 hfresh hrest

/-- After any sequence of successful calls, the caller minting a new engine id for every order, the
model is consistent; and every one of the calls kept the books of the contracts that had a live
order. -/
theorem model_consistent (hstart : start = .new fees cap ∨
      ∃ profile, start = .withLiquidityProfile fees cap profile)
    (hfresh : ((calls.flatMap ModelCall.submitted).map Prod.fst).Nodup)
    (hcalls : calls.foldlM ModelCall.apply start = .ok m) :
    Consistent (calls.flatMap ModelCall.submitted) m ∧
      ∀ done call later, calls = done ++ call :: later → ∃ before after : RealisticFill B,
        done.foldlM ModelCall.apply start = .ok before ∧ call.apply before = .ok after ∧
          Carries before.HasLive before.books after.books := by
  refine ⟨calls_consistent (consistent_start hstart) hfresh hcalls, ?_⟩
  rintro done call later rfl
  obtain ⟨before, hdone, hlater⟩ := foldlM_append_ok.1 hcalls
  obtain ⟨after, hcall, -⟩ := foldlM_cons_ok.1 hlater
  rw [List.flatMap_append, List.flatMap_cons, ← List.append_assoc, List.map_append,
    List.nodup_append] at hfresh
  have hsofar : ((done.flatMap ModelCall.submitted).map Prod.fst).Nodup := by
    have hprefix := hfresh.1
    rw [List.map_append, List.nodup_append] at hprefix
    exact hprefix.1
  have hbefore := calls_consistent (consistent_start hstart) hsofar hdone
  exact ⟨before, after, hdone, hcall, (ModelCall.apply_consistent hbefore hfresh.1 hcall).2⟩

end Calls

section Small

open SmallMarket

/-- An order rests, depth is seeded by hand, and the ask comes down to the order. -/
def smallCalls : List ModelCall :=
  [.fill restAndTake [⟨lit 1⟩, ⟨lit 2⟩] firstStep,
    .seedMakerLimit call true (lit 120) (lot 1) (lit 5),
    .fill [] [] secondStep]

def smallModel : RealisticFill (ReferenceBook ObOrderId) :=
  .withLiquidityProfile (config .Realistic).fees (config .Realistic).marketableCapTicks
    (config .Realistic).liquidityProfile

/-- Two contracts of the order are left, and the maps agree on it. -/
theorem model_consistent_small : ∃ m : RealisticFill (ReferenceBook ObOrderId),
    smallCalls.foldlM ModelCall.apply smallModel = .ok m ∧
      m.restingStrategy.values.map RestingStrategyOrder.remaining = [2] ∧
      Consistent (smallCalls.flatMap ModelCall.submitted) m := by
  obtain ⟨m, hcalls, hleft⟩ := exists_ok_of_check (r := smallCalls.foldlM ModelCall.apply smallModel)
    (fun m => decide (m.restingStrategy.values.map RestingStrategyOrder.remaining = [2]))
    (by decide +kernel)
  exact ⟨m, hcalls, of_decide_eq_true hleft,
    (model_consistent (.inr ⟨_, rfl⟩) (by decide) hcalls).1⟩

end Small

end IronCondor.RealisticFill
