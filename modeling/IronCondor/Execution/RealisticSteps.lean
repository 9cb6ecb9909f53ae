import IronCondor.Execution.Realistic

/-! # What one operation of the realistic model can do

One inversion lemma per operation: everything a successful call changed, and what it read. -/
namespace IronCondor.RealisticFill

open Checked ExceptRun OrderBook

variable {B : Type} {m m' : RealisticFill B}

@[simp] theorem orderBookError_eq_ok {α : Type} {r : Except String α} {a : α} :
    orderBookError r = .ok a ↔ r = .ok a := by
  cases r <;> simp [orderBookError]

theorem ticksToCents_eq_ok {ticks : Nat} {tick price : PriceCents} :
    ticksToCents ticks tick = .ok price → price.value = ticks * tick.value := by
  intro h
  simp only [ticksToCents, bind_ok_iff, narrow_eq_ok] at h
  obtain ⟨c, hc, hp⟩ := h
  rw [hp, hc]

theorem centsToTicks_eq_ok {price tick : PriceCents} {ticks : Nat}
    (h : centsToTicks price tick = .ok ticks) :
    0 < tick.value ∧ (ticks : Int) * tick.value = price.value := by
  simp only [centsToTicks, bind_ok_iff, require_eq_ok, pure_ok_iff] at h
  obtain ⟨_, ht, _, hmod, rfl⟩ := h
  have hpos : 0 < tick.value := lt_of_le_of_ne tick.nonneg (Ne.symm ht)
  refine ⟨hpos, ?_⟩
  rw [Int.toNat_of_nonneg (Int.ediv_nonneg price.nonneg hpos.le)]
  exact Int.ediv_mul_cancel (Int.dvd_of_emod_eq_zero hmod)

theorem releaseLiveOrder_eq_ok {contract : ContractKey}
    (h : m.releaseLiveOrder contract = .ok m') : ∃ live, m' = { m with liveOrders := live } := by
  simp only [releaseLiveOrder, bind_ok_iff] at h
  obtain ⟨count, -, _, -, h⟩ := h
  split_ifs at h <;> cases h <;> exact ⟨_, rfl⟩

theorem nextStrategyOrderId_eq_ok {seq : Nat} (h : m.nextStrategyOrderId = .ok (m', seq)) :
    seq = m.nextStrategyId ∧ seq < makerIdBase ∧
      m' = { m with nextStrategyId := m.nextStrategyId + 1 } := by
  simp only [nextStrategyOrderId, bind_ok_iff, require_eq_ok] at h
  obtain ⟨_, hlt, h⟩ := h
  cases h
  exact ⟨rfl, hlt, rfl⟩

theorem nextMakerOrderId_eq_ok {seq : Nat} (h : m.nextMakerOrderId = .ok (m', seq)) :
    seq = m.nextMakerId ∧ m' = { m with nextMakerId := m.nextMakerId + 1 } := by
  simp only [nextMakerOrderId, bind_ok_iff, narrow_eq_ok] at h
  obtain ⟨next, hnext, h⟩ := h
  cases h
  refine ⟨rfl, ?_⟩
  rw [hnext]
  rfl

/-- The orders the realistic model tracks as resting. -/
def Tracks (m : RealisticFill B) (orderId : OrderId) (contract : ContractKey)
    (side : Side) : Prop :=
  ∃ (seq : Nat) (order : RestingStrategyOrder), m.restingStrategy[seq]? = some order ∧
    order.orderId = orderId ∧ order.contract = contract ∧ order.side = side

/-- The state after a strategy order gave `quantity` to a refresh trade. -/
def afterRefresh (m : RealisticFill B) (seq : Nat) (order : RestingStrategyOrder) (quantity : Nat)
    (groups : List CarryGroup) (live : Std.TreeMap ContractKey Nat) : RealisticFill B :=
  let tracked := m.restingStrategy.insert seq
    { order with firstFillDone := true, remaining := order.remaining - quantity }
  { m with
    carryGroups := groups
    liveOrders := live
    restingStrategy := if order.remaining = quantity then tracked.erase seq else tracked
    orderIndex := if order.remaining = quantity then m.orderIndex.erase order.orderId
      else m.orderIndex }

/-- A refresh trade either hits no tracked order and changes nothing, or fills one. -/
theorem captureRefreshFill_cases {trade : Trade ObOrderId} {contract : ContractKey}
    {tick : PriceCents} {snap : ChainSnapshot} {carried : Option (OrderId × Fill)}
    (h : m.captureRefreshFill trade contract tick snap = .ok (m', carried)) :
    (carried = none ∧ m' = m ∧ ∀ seq, trade.maker = .Sequential seq →
      m.restingStrategy[seq]? = none) ∨
    ∃ seq order fill groups live, trade.maker = .Sequential seq ∧
      m.restingStrategy[seq]? = some order ∧ carried = some (order.orderId, fill) ∧
      fill.step = snap.step ∧ fill.ts = snap.ts ∧ fill.contract = contract ∧
      fill.side = order.side ∧ fill.quantity.value = trade.quantity ∧
      fill.price.value = trade.price * tick.value ∧ trade.quantity ≤ order.remaining ∧
      pushCarry m.carryGroups order.orderId = .ok groups ∧
      m' = m.afterRefresh seq order trade.quantity groups live := by
  unfold captureRefreshFill at h
  split at h
  · cases h
    rename_i hmaker
    exact .inl ⟨rfl, rfl, fun seq hseq => by rw [hmaker] at hseq; cases hseq⟩
  · rename_i seq hmaker
    split at h
    · rename_i hnone
      cases h
      refine .inl ⟨rfl, rfl, fun seq' hseq => ?_⟩
      rw [hmaker] at hseq
      cases hseq
      exact hnone
    · rename_i order horder
      simp only [bind_ok_iff, require_eq_ok, Quantity.ofInt_eq_ok] at h
      obtain ⟨price, hprice, quantity, hquantity, _, hle, fill, hfill, groups, hgroups, h⟩ := h
      obtain ⟨fees, slippage, -, -, rfl⟩ := assembleFill_eq_ok hfill
      right
      have hleft : order.remaining - trade.quantity = 0 ↔ order.remaining = trade.quantity := by
        omega
      split_ifs at h with hzero
      · obtain ⟨released, hrelease, h⟩ := bind_ok_iff.1 h
        obtain ⟨live, rfl⟩ := releaseLiveOrder_eq_ok hrelease
        cases h
        refine ⟨seq, order, _, groups, live, hmaker, horder, rfl, rfl, rfl, rfl, rfl, hquantity,
          ticksToCents_eq_ok hprice, hle, hgroups, ?_⟩
        simp [afterRefresh, hleft.1 hzero]
      · cases h
        refine ⟨seq, order, _, groups, m.liveOrders, hmaker, horder, rfl, rfl, rfl, rfl, rfl,
          hquantity, ticksToCents_eq_ok hprice, hle, hgroups, ?_⟩
        simp [afterRefresh, mt hleft.2 hzero]

theorem trackResting_eq_ok {seq remaining : Nat} {orderId : OrderId} {intent : OrderIntent}
    (h : m.trackResting seq orderId intent remaining = .ok m') : ∃ live, m' = { m with
      restingStrategy := m.restingStrategy.insert seq
        { orderId
          contract := intent.contract
          side := intent.side
          decisionMid := intent.decisionMid
          remaining
          firstFillDone := remaining < intent.quantity.value.toNat }
      orderIndex := m.orderIndex.insert orderId seq
      liveOrders := live } := by
  simp only [trackResting, bind_ok_iff, pure_ok_iff] at h
  obtain ⟨count, -, rfl⟩ := h
  exact ⟨_, rfl⟩

/-- What one executed level shows of the trade it came from. -/
structure LevelFill (snap : ChainSnapshot) (intent : OrderIntent) (tick : PriceCents)
    (trade : Trade ObOrderId) (fill : Fill) : Prop where
  step : fill.step = snap.step
  ts : fill.ts = snap.ts
  contract : fill.contract = intent.contract
  side : fill.side = intent.side
  quantity : fill.quantity.value = trade.quantity
  price : fill.price.value = trade.price * tick.value

theorem levelFills_eq_ok {fees : FeeSchedule} {snap : ChainSnapshot} {intent : OrderIntent}
    {tick : PriceCents} {charge : FeeCharge} {trades : List (Trade ObOrderId)} {fills : List Fill}
    (h : levelFills fees snap intent tick charge trades = .ok fills) :
    List.Forall₂ (LevelFill snap intent tick) trades fills := by
  induction trades generalizing charge fills with
  | nil =>
    cases h
    exact .nil
  | cons trade trades ih =>
    simp only [levelFills, bind_ok_iff, Quantity.ofInt_eq_ok, pure_ok_iff] at h
    obtain ⟨price, hprice, quantity, hquantity, fill, hfill, later, hlater, rfl⟩ := h
    obtain ⟨fees', slippage, -, -, rfl⟩ := assembleFill_eq_ok hfill
    exact .cons ⟨rfl, rfl, rfl, rfl, hquantity, ticksToCents_eq_ok hprice⟩ (ih hlater)

theorem captureTrade_eq_ok {contract : ContractKey} {tick : PriceCents} {snap : ChainSnapshot}
    {out out' : List (OrderId × Fill)} {trade : Trade ObOrderId}
    (h : captureTrade contract tick snap (m, out) trade = .ok (m', out')) :
    ∃ carried, m.captureRefreshFill trade contract tick snap = .ok (m', carried) ∧
      out' = out ++ carried.toList := by
  simp only [captureTrade, bind_ok_iff, pure_ok_iff, Prod.exists, Prod.mk.injEq] at h
  obtain ⟨_, carried, hcapture, rfl, rfl⟩ := h
  exact ⟨carried, hcapture, rfl⟩

/-- The model after a seed order reached its book. -/
def afterSeed (m : RealisticFill B) (contract : ContractKey) (book : B) : RealisticFill B :=
  { m with nextMakerId := m.nextMakerId + 1, books := m.books.insert contract book }

section Books

variable [Book B ObOrderId]

/-- The seed ids after the seed order `seq` of `contract` left `remaining` in its book. -/
def seedIdsAfter (ids : Std.TreeMap ContractKey (List Nat)) (contract : ContractKey)
    (seq remaining : Nat) : Std.TreeMap ContractKey (List Nat) :=
  if 0 < remaining then ids.insert contract (ids[contract]?.getD [] ++ [seq]) else ids

/-- A seed order is submitted under the next maker id and its trades are captured in order. -/
theorem reseedOrder_eq_ok {snap : ChainSnapshot} {tick : PriceCents} {order : SeedOrder}
    {out out' : List (OrderId × Fill)}
    (h : reseedOrder snap tick (m, out) order = .ok (m', out')) :
    ∃ (ticks : Nat) (book book' : B) (result : MatchResult ObOrderId)
      (captured : RealisticFill B),
      centsToTicks order.price tick = .ok ticks ∧
      leafBook m.books order.contract = .ok book ∧
      Book.addLimit book (.Sequential m.nextMakerId)
        (if order.isAsk then BookSide.Sell else BookSide.Buy) ticks order.size.value.toNat =
          .ok (book', result) ∧
      result.trades.foldlM (captureTrade order.contract tick snap)
        (m.afterSeed order.contract book', out) = .ok (captured, out') ∧
      m' = { captured with
        restingSeedIds :=
          seedIdsAfter captured.restingSeedIds order.contract m.nextMakerId result.remaining } := by
  simp only [reseedOrder, bind_ok_iff, orderBookError_eq_ok, Prod.exists] at h
  obtain ⟨ticks, hticks, _, seq, hseq, book, hbook, book', result, hadd, captured, _, hcapture,
    h⟩ := h
  obtain ⟨rfl, rfl⟩ := nextMakerOrderId_eq_ok hseq
  unfold seedIdsAfter
  split_ifs at h with hrest <;> cases h <;>
    refine ⟨ticks, book, book', result, _, hticks, hbook, hadd, hcapture, ?_⟩
  · rw [if_pos hrest]
  · rw [if_neg hrest]

/-- The refresh rule: what survives new books and seeds and every captured trade holds after
the refresh. -/
theorem refreshBooks_invariant [DecimalArith] {snap : ChainSnapshot}
    {carried : List (OrderId × Fill)} (P : RealisticFill B → List (OrderId × Fill) → Prop)
    (hframe : ∀ m out nextMakerId restingSeedIds books, P m out →
      P { m with nextMakerId, restingSeedIds, books } out)
    (hcapture : ∀ m out contract tick trade m' out', P m out →
      captureTrade contract tick snap (m, out) trade = .ok (m', out') → P m' out')
    (h0 : P m []) (h : m.refreshBooks snap = .ok (m', carried)) : P m' carried := by
  unfold refreshBooks at h
  split at h
  · cases h
    exact h0
  · simp only [bind_ok_iff] at h
    obtain ⟨_, -, m₁, hstale, plan, -, hreseed⟩ := h
    obtain ⟨books, -, h₁⟩ := bind_ok_iff.1 hstale
    cases h₁
    refine foldlM_invariant (fun acc => P acc.1 acc.2) ?_ ?_ hreseed
    · rintro ⟨m₂, out⟩ order ⟨m₃, out'⟩ hP hstep
      obtain ⟨_, _, book, result, captured, -, -, -, hcaptures, rfl⟩ := reseedOrder_eq_ok hstep
      refine hframe captured out' captured.nextMakerId _ captured.books ?_
      exact foldlM_invariant (fun acc => P acc.1 acc.2)
        (fun acc trade acc' hacc htrade => hcapture _ _ _ _ _ _ _ hacc htrade)
        (hframe m₂ out _ m₂.restingSeedIds _ hP) hcaptures
    · exact hframe m [] m.nextMakerId _ _ h0

theorem cancelRemainder_eq_ok {book after : B} {seq remaining : Nat} {tif : TimeInForce}
    (h : cancelRemainder book seq tif remaining = .ok after) :
    (¬ (tif = .Ioc ∧ 0 < remaining) ∧ after = book) ∨
    ∃ found, tif = .Ioc ∧ Book.cancel book (.Sequential seq) = .ok (after, found) := by
  unfold cancelRemainder at h
  split_ifs at h with hioc
  · simp only [bind_ok_iff, orderBookError_eq_ok, pure_ok_iff, Prod.exists] at h
    obtain ⟨_, found, hcancel, rfl⟩ := h
    exact .inr ⟨found, hioc.1, hcancel⟩
  · cases h
    exact .inl ⟨hioc, rfl⟩

/-- The model after an intent reached its book. -/
def afterSubmit (m : RealisticFill B) (contract : ContractKey) (book : B) : RealisticFill B :=
  { m with nextStrategyId := m.nextStrategyId + 1, books := m.books.insert contract book }

/-- Everything a routed intent does: it takes the next strategy id, trades without touching a
tracked order, and is tracked exactly when it is good-till-cancelled and not exhausted. -/
structure Submitted (m : RealisticFill B) (intent : OrderIntent) (orderId : OrderId)
    (snap : ChainSnapshot) (m' : RealisticFill B) (fills : List Fill) (limit : PriceCents)
    (ticks : Nat) (before after : B) (result : MatchResult ObOrderId) : Prop where
  limit_eq : m.limitCents intent snap = .ok limit
  ticks_eq : centsToTicks limit snap.spec.tickSizeCents = .ok ticks
  strategyId : m.nextStrategyId < makerIdBase
  leaf : leafBook m.books intent.contract = .ok before
  matched : ∃ book, Book.addLimit before (.Sequential m.nextStrategyId) (obSide intent.side) ticks
      intent.quantity.value.toNat = .ok (book, result) ∧
    cancelRemainder book m.nextStrategyId intent.tif result.remaining = .ok after
  untracked : ∀ trade ∈ result.trades, ∀ seq, trade.maker = .Sequential seq →
    m.restingStrategy[seq]? = none
  levels : List.Forall₂ (LevelFill snap intent snap.spec.tickSizeCents) result.trades fills
  tracked : if intent.tif = .Gtc ∧ 0 < result.remaining then
      (m.afterSubmit intent.contract after).trackResting m.nextStrategyId orderId intent
        result.remaining = .ok m'
    else m' = m.afterSubmit intent.contract after

theorem fillSubmit_eq_ok {intent : OrderIntent} {orderId : OrderId} {snap : ChainSnapshot}
    {fills : List Fill} (h : m.fillSubmit intent orderId snap = .ok (m', fills)) :
    ∃ limit ticks before after result,
      Submitted m intent orderId snap m' fills limit ticks before after result := by
  simp only [fillSubmit, bind_ok_iff, orderBookError_eq_ok, require_eq_ok, Prod.exists] at h
  obtain ⟨_, -, limit, hlimit, ticks, hticks, _, seq, hseq, before, hleaf, book, result, hadd,
    after, hafter, _, huntracked, fills', hfills, h⟩ := h
  obtain ⟨rfl, hlt, rfl⟩ := nextStrategyOrderId_eq_ok hseq
  refine ⟨limit, ticks, before, after, result, hlimit, hticks, hlt, hleaf, ⟨book, hadd, hafter⟩,
    ?_, ?_, ?_⟩
  · intro trade htrade seq hmaker
    have hself := List.all_eq_true.1 huntracked trade htrade
    simpa [isSelfCross, hmaker, ← Std.TreeMap.isSome_getElem?_eq_contains] using hself
  · split_ifs at h
    · simp only [bind_ok_iff, pure_ok_iff, Prod.mk.injEq] at h
      obtain ⟨_, -, -, rfl⟩ := h
      exact levelFills_eq_ok hfills
    · cases h
      exact levelFills_eq_ok hfills
  · split_ifs at h ⊢
    · simp only [bind_ok_iff, pure_ok_iff, Prod.mk.injEq] at h
      obtain ⟨_, htrack, rfl, rfl⟩ := h
      exact htrack
    · cases h
      rfl

/-- The model after the tracked order `seq` was cancelled. -/
def afterCancel (m : RealisticFill B) (orderId : OrderId) (seq : Nat)
    (books : Std.TreeMap ContractKey B) (live : Std.TreeMap ContractKey Nat) : RealisticFill B :=
  { m with
    books
    liveOrders := live
    restingStrategy := m.restingStrategy.erase seq
    orderIndex := m.orderIndex.erase orderId }

/-- What a routed intent leaves alone. -/
theorem Submitted.frame {intent : OrderIntent} {orderId : OrderId} {snap : ChainSnapshot}
    {fills : List Fill} {limit : PriceCents} {ticks : Nat} {before after : B}
    {result : MatchResult ObOrderId}
    (h : Submitted m intent orderId snap m' fills limit ticks before after result) :
    m'.fillGroups = m.fillGroups ∧ m'.carryGroups = m.carryGroups ∧
      m'.restingSeedIds = m.restingSeedIds ∧ m'.nextStrategyId = m.nextStrategyId + 1 ∧
      m'.nextMakerId = m.nextMakerId ∧ m'.books = m.books.insert intent.contract after := by
  have htracked := h.tracked
  split_ifs at htracked
  · obtain ⟨live, rfl⟩ := trackResting_eq_ok htracked
    exact ⟨rfl, rfl, rfl, rfl, rfl, rfl⟩
  · subst htracked
    exact ⟨rfl, rfl, rfl, rfl, rfl, rfl⟩

theorem cancelInBook_cases {books books' : Std.TreeMap ContractKey B} {contract : ContractKey}
    {seq : Nat} (h : cancelInBook books contract seq = .ok books') :
    (books[contract]? = none ∧ books' = books) ∨
    ∃ book book' found, books[contract]? = some book ∧
      Book.cancel book (.Sequential seq) = .ok (book', found) ∧
      books' = books.insert contract book' := by
  unfold cancelInBook at h
  split at h
  · rename_i hnone
    cases h
    exact .inl ⟨hnone, rfl⟩
  · rename_i book hbook
    simp only [bind_ok_iff, orderBookError_eq_ok, pure_ok_iff, Prod.exists] at h
    obtain ⟨book', found, hcancel, rfl⟩ := h
    exact .inr ⟨book, book', found, hbook, hcancel, rfl⟩

/-- A cancel of an unknown id does nothing; of a known one it removes the order and its index
entry, and cancels it in the one book of its contract. -/
theorem cancelResting_cases {orderId : OrderId} (h : m.cancelResting orderId = .ok m') :
    (m.orderIndex[orderId]? = none ∧ m' = m) ∨
    (∃ seq, m.orderIndex[orderId]? = some seq ∧ m.restingStrategy[seq]? = none ∧
      m' = { m with orderIndex := m.orderIndex.erase orderId }) ∨
    ∃ seq order books live, m.orderIndex[orderId]? = some seq ∧
      m.restingStrategy[seq]? = some order ∧ cancelInBook m.books order.contract seq = .ok books ∧
      m' = m.afterCancel orderId seq books live := by
  unfold cancelResting at h
  split at h
  · rename_i hnone
    cases h
    exact .inl ⟨hnone, rfl⟩
  · rename_i seq hseq
    obtain ⟨m₁, h₁, h⟩ := bind_ok_iff.1 h
    cases h
    right
    unfold dropTracked at h₁
    split at h₁
    · rename_i hnone
      cases h₁
      exact .inl ⟨seq, hseq, hnone, rfl⟩
    · rename_i order horder
      obtain ⟨books, hbooks, hrelease⟩ := bind_ok_iff.1 h₁
      obtain ⟨live, rfl⟩ := releaseLiveOrder_eq_ok hrelease
      exact .inr ⟨seq, order, books, live, hseq, horder, hbooks, rfl⟩

/-- What a cancel leaves alone. -/
theorem cancelCommand_frame {cmd : OrderCommand} (h : m.cancelCommand cmd = .ok m') :
    m'.fillGroups = m.fillGroups ∧ m'.carryGroups = m.carryGroups ∧
      m'.restingSeedIds = m.restingSeedIds ∧ m'.nextStrategyId = m.nextStrategyId ∧
      m'.nextMakerId = m.nextMakerId := by
  unfold cancelCommand at h
  split at h
  · rcases cancelResting_cases h with ⟨-, rfl⟩ | ⟨_, -, -, rfl⟩ | ⟨_, _, _, _, -, -, -, rfl⟩ <;>
      exact ⟨rfl, rfl, rfl, rfl, rfl⟩
  · cases h
    exact ⟨rfl, rfl, rfl, rfl, rfl⟩

/-- No operation changes the cap of the marketable orders. -/
theorem refreshBooks_cap [DecimalArith] {snap : ChainSnapshot} {carried : List (OrderId × Fill)}
    (h : m.refreshBooks snap = .ok (m', carried)) :
    m'.marketableCapTicks = m.marketableCapTicks := by
  refine refreshBooks_invariant
    (fun x _ => x.marketableCapTicks = m.marketableCapTicks) (fun _ _ _ _ _ hx => hx) ?_ rfl h
  intro x out contract tick trade x' out' hx hcapture
  obtain ⟨_, hfill, -⟩ := captureTrade_eq_ok hcapture
  rcases captureRefreshFill_cases hfill with ⟨-, rfl, -⟩ |
    ⟨_, _, _, _, _, -, -, -, -, -, -, -, -, -, -, -, rfl⟩ <;> exact hx

theorem cancelCommand_cap {cmd : OrderCommand} (h : m.cancelCommand cmd = .ok m') :
    m'.marketableCapTicks = m.marketableCapTicks := by
  unfold cancelCommand at h
  split at h
  · rcases cancelResting_cases h with ⟨-, rfl⟩ | ⟨_, -, -, rfl⟩ | ⟨_, _, _, _, -, -, -, rfl⟩ <;> rfl
  · cases h
    rfl

theorem fillSubmit_cap {intent : OrderIntent} {orderId : OrderId} {snap : ChainSnapshot}
    {fills : List Fill}
    (h : m.fillSubmit intent orderId snap = .ok (m', fills)) :
    m'.marketableCapTicks = m.marketableCapTicks := by
  obtain ⟨_, _, _, _, _, hsubmitted⟩ := fillSubmit_eq_ok h
  have htracked := hsubmitted.tracked
  split_ifs at htracked
  · obtain ⟨live, rfl⟩ := trackResting_eq_ok htracked
    rfl
  · rw [htracked]
    rfl

end Books

end IronCondor.RealisticFill
