import IronCondor.Execution.Placement
import IronCondor.Lib.Pointwise

/-! # What the books are stocked with

Between two operations of the realistic model every order resting in a book is one of two: a
seed that the next refresh cancels, or a tracked strategy order with its whole remaining size.
Seeds rest only in books the snapshot quotes, so elsewhere there is nothing to trade with. -/
namespace IronCondor.RealisticFill

open Checked ExceptRun OrderBook

variable {B : Type} [Book B ObOrderId] {m m' : RealisticFill B} {snap : ChainSnapshot}

/-- The seeds of a contract that the next refresh cancels. -/
def seedsOf (m : RealisticFill B) (contract : ContractKey) : List Nat :=
  m.restingSeedIds[contract]?.getD []

/-- What some trades take from one maker. -/
def owed (trades : List (Trade ObOrderId)) (seq : Nat) : Nat :=
  ((trades.filter fun t => t.maker = .Sequential seq).map Trade.quantity).sum

/-- Every order resting in the books is `seeded`, or tracked at what is left of it and what the
trades still to be captured take from it. -/
def Owned (seeded : ContractKey → Nat → Resting → Prop) (trades : List (Trade ObOrderId))
    (books : Std.TreeMap ContractKey B) (tracked : Std.TreeMap Nat RestingStrategyOrder) : Prop :=
  ∀ (contract : ContractKey) (book : B) (i : ObOrderId) (left : Resting),
    books[contract]? = some book → Book.rests book i = some left →
      0 < left.size ∧ ∃ seq, i = .Sequential seq ∧ (seeded contract seq left ∨
        ∃ order : RestingStrategyOrder, tracked[seq]? = some order ∧
          left.side = obSide order.side ∧ order.remaining = left.size + owed trades seq)

/-- The ids rest where they belong, everything that rests is a seed or a tracked order, and the
seeds are those of `profile`. -/
structure Stocked (profile : LiquidityProfile) (m : RealisticFill B) : Prop where
  seeding : m.liquidityProfile = some profile
  placed : Placed (fun _ _ _ _ => True) m
  seeds : ∀ contract seq, seq ∈ m.seedsOf contract → makerIdBase ≤ seq ∧ seq < m.nextMakerId
  owned : Owned (fun contract seq _ => seq ∈ m.seedsOf contract) [] m.books m.restingStrategy

/-- The groups of a call do not touch the books. -/
theorem Stocked.setGroups {profile : LiquidityProfile} (h : Stocked profile m)
    (fillGroups : List FillGroup) (carryGroups : List CarryGroup) :
    Stocked profile { m with fillGroups, carryGroups } :=
  ⟨h.seeding, ⟨h.placed.below, h.placed.makers, h.placed.tracked, h.placed.minted, h.placed.placed⟩,
    h.seeds, h.owned⟩

namespace Owned

variable {seeded seeded' : ContractKey → Nat → Resting → Prop} {trades : List (Trade ObOrderId)}
  {books books' : Std.TreeMap ContractKey B} {tracked : Std.TreeMap Nat RestingStrategyOrder}

/-- What rests in shrunken books is owned as before, if it is still seeded or tracked. -/
theorem shrink {tracked' : Std.TreeMap Nat RestingStrategyOrder} (h : Owned seeded trades books tracked)
    (hshrinks : Shrinks books books')
    (hseeded : ∀ (contract : ContractKey) (book : B) (seq : Nat) (left : Resting),
      books'[contract]? = some book → Book.rests book (.Sequential seq) = some left →
        seeded contract seq left → seeded' contract seq left)
    (htracked : ∀ (contract : ContractKey) (book : B) (seq : Nat) (left : Resting)
      (order : RestingStrategyOrder), books'[contract]? = some book →
        Book.rests book (.Sequential seq) = some left → tracked[seq]? = some order →
          tracked'[seq]? = some order) : Owned seeded' trades books' tracked' := by
  intro contract book i left hbook hleft
  obtain ⟨book₀, hbook₀, hleft₀⟩ := hshrinks contract book i left hbook hleft
  obtain ⟨hsize, seq, rfl, howner⟩ := h contract book₀ i left hbook₀ hleft₀
  refine ⟨hsize, seq, rfl, howner.imp (hseeded _ _ _ _ hbook hleft) ?_⟩
  rintro ⟨order, horder, hrest⟩
  exact ⟨order, htracked _ _ _ _ _ hbook hleft horder, hrest⟩

theorem mono (h : Owned seeded trades books tracked)
    (hseeded : ∀ contract seq left, seeded contract seq left → seeded' contract seq left) :
    Owned seeded' trades books tracked :=
  Owned.shrink h .refl (fun _ _ _ _ _ _ hseed => hseeded _ _ _ hseed) fun _ _ _ _ _ _ _ horder => horder

/-- Trades that take from no tracked order leave nothing to capture. -/
theorem uncharged (h : Owned seeded trades books tracked)
    (huntracked : ∀ trade ∈ trades, ∀ seq, trade.maker = .Sequential seq → tracked[seq]? = none) :
    Owned seeded [] books tracked := by
  intro contract book i left hbook hleft
  obtain ⟨hsize, seq, rfl, howner⟩ := h contract book i left hbook hleft
  refine ⟨hsize, seq, rfl, howner.imp_right ?_⟩
  rintro ⟨order, horder, hside, hremaining⟩
  have hnone : owed trades seq = 0 := by
    rw [owed, List.filter_eq_nil_iff.2]
    · rfl
    · intro trade htrade hmaker
      cases (huntracked trade htrade seq (of_decide_eq_true hmaker)).symm.trans horder
  exact ⟨order, horder, hside, by rw [hremaining, hnone]; rfl⟩

end Owned

section Submission

variable [LawfulBook B] {seeded : ContractKey → Nat → Prop} {contract : ContractKey}
  {book book' : B} {side : BookSide} {seq price quantity : Nat} {result : MatchResult ObOrderId}

/-- A submitted order rests at most as itself; what the others lose is owed by its trades. -/
theorem addLimit_owned {R : OrderId → ContractKey → Side → Nat → Prop} (hplaced : Placed R m)
    (h : Owned (fun c s _ => seeded c s) [] m.books m.restingStrategy)
    (hleaf : leafBook m.books contract = .ok book) (hfresh : Book.rests book (.Sequential seq) = none)
    (hadd : Book.addLimit book (.Sequential seq) side price quantity = .ok (book', result)) :
    Owned (fun c s left => seeded c s ∨ compare contract c = .eq ∧ s = seq ∧
      0 < result.remaining ∧ left = ⟨side, price, result.remaining⟩) result.trades
      (m.books.insert contract book') m.restingStrategy := by
  intro c found i left hfound hleft
  rw [Std.TreeMap.getElem?_insert] at hfound
  split_ifs at hfound with hc
  · cases hfound
    by_cases hself : i = .Sequential seq
    · subst hself
      rw [LawfulBook.addLimit_self hfresh hadd] at hleft
      split_ifs at hleft with hzero
      cases hleft
      have hpos := Nat.pos_of_ne_zero hzero
      exact ⟨hpos, seq, rfl, .inl (.inr ⟨hc, rfl, hpos, rfl⟩)⟩
    rw [LawfulBook.addLimit_others hadd hself] at hleft
    obtain ⟨order, horder, hafter⟩ := Option.bind_eq_some_iff.1 hleft
    have hbook := (Std.TreeMap.getElem?_congr hc).symm.trans (leafBook_rests hleaf horder)
    obtain ⟨-, s, rfl, howner⟩ := h c book i order hbook horder
    unfold Resting.after at hafter
    split_ifs at hafter with hle
    cases hafter
    refine ⟨Nat.sub_pos_of_lt (Nat.lt_of_not_le hle), s, rfl, ?_⟩
    rcases howner with hseed | ⟨tracked, htracked, hside, hremaining⟩
    · exact .inl (.inl hseed)
    · refine .inr ⟨tracked, htracked, hside, ?_⟩
      change tracked.remaining = order.size + 0 at hremaining
      change tracked.remaining = order.size - result.matchedOf (.Sequential s) +
        result.matchedOf (.Sequential s)
      omega
  · obtain ⟨hsize, s, rfl, howner⟩ := h c found i left hfound hleft
    refine ⟨hsize, s, rfl, howner.imp .inl ?_⟩
    rintro ⟨tracked, htracked, hside, hremaining⟩
    refine ⟨tracked, htracked, hside, ?_⟩
    -- a tracked maker of this book rests in no other
    have hnone : owed result.trades s = 0 := by
      rw [owed, List.filter_eq_nil_iff.2]
      · rfl
      · intro trade htrade hmaker
        obtain ⟨maker, hrests, -⟩ := LawfulBook.trade_maker hadd htrade
        rw [of_decide_eq_true hmaker] at hrests
        obtain ⟨hhere, -⟩ := hplaced.placed contract book s maker tracked
          (leafBook_rests hleaf hrests) hrests htracked
        obtain ⟨hthere, -⟩ := hplaced.placed c found s left tracked hfound hleft htracked
        exact hc (Std.TransCmp.eq_trans hhere (Std.OrientedCmp.eq_symm hthere))
    rw [hremaining, hnone]
    rfl

end Submission

section Capture

variable {seeded : ContractKey → Nat → Resting → Prop} {contract : ContractKey} {tick : PriceCents}
  {trade : Trade ObOrderId} {trades : List (Trade ObOrderId)} {out out' : List (OrderId × Fill)}

omit [Book B ObOrderId] in
theorem owed_cons (seq : Nat) : owed (trade :: trades) seq =
    (if trade.maker = .Sequential seq then trade.quantity else 0) + owed trades seq := by
  unfold owed
  rw [List.filter_cons]
  split_ifs with hmaker hmaker' hmaker'
  · rw [List.map_cons, List.sum_cons]
  · exact absurd (of_decide_eq_true hmaker) hmaker'
  · exact absurd (decide_eq_true hmaker') hmaker
  · rw [Nat.zero_add]

/-- A captured trade is charged to the tracked order it took from. -/
theorem captureTrade_owned (h : Owned seeded (trade :: trades) m.books m.restingStrategy)
    (hcapture : captureTrade contract tick snap (m, out) trade = .ok (m', out')) :
    m'.books = m.books ∧ m'.restingSeedIds = m.restingSeedIds ∧
      m'.liquidityProfile = m.liquidityProfile ∧ m'.nextMakerId = m.nextMakerId ∧
      (∃ carried, out' = out ++ carried ∧ ∀ e ∈ carried, e.2.contract = contract) ∧
      Owned seeded trades m'.books m'.restingStrategy := by
  obtain ⟨carried, hfill, rfl⟩ := captureTrade_eq_ok hcapture
  rcases captureRefreshFill_cases hfill with ⟨rfl, rfl, huntracked⟩ |
    ⟨seq, order, fill, groups, live, hmaker, horder, rfl, -, -, hcontract, -, -, -, -, -, rfl⟩
  · refine ⟨rfl, rfl, rfl, rfl, ⟨[], rfl, List.forall_mem_nil _⟩, fun c book i left hbook hleft => ?_⟩
    obtain ⟨hsize, s, rfl, howner⟩ := h c book i left hbook hleft
    refine ⟨hsize, s, rfl, howner.imp_right ?_⟩
    rintro ⟨tracked, htracked, hside, hremaining⟩
    rw [owed_cons, if_neg, Nat.zero_add] at hremaining
    · exact ⟨tracked, htracked, hside, hremaining⟩
    · intro hmaker
      cases (huntracked s hmaker).symm.trans htracked
  · refine ⟨rfl, rfl, rfl, rfl,
      ⟨[(order.orderId, fill)], rfl, List.forall_mem_singleton.2 hcontract⟩, fun c book i left hbook hleft => ?_⟩
    obtain ⟨hsize, s, rfl, howner⟩ := h c book i left hbook hleft
    refine ⟨hsize, s, rfl, howner.imp_right ?_⟩
    rintro ⟨tracked, htracked, hside, hremaining⟩
    rw [owed_cons] at hremaining
    by_cases hseq : s = seq
    · subst hseq
      cases horder.symm.trans htracked
      rw [if_pos hmaker] at hremaining
      have hkept : order.remaining ≠ trade.quantity := by omega
      refine ⟨{ order with firstFillDone := true, remaining := order.remaining - trade.quantity },
        ?_, hside, ?_⟩
      · simp only [afterRefresh, if_neg hkept, OrderedMap.getElem?_insert, if_true]
      · change order.remaining - trade.quantity = _
        omega
    · have hother : trade.maker ≠ .Sequential s := by
        rw [hmaker]
        exact fun heq => hseq (by injection heq with heq; exact heq.symm)
      rw [if_neg hother, Nat.zero_add] at hremaining
      refine ⟨tracked, ?_, hside, hremaining⟩
      simp only [afterRefresh]
      split_ifs
      · rw [OrderedMap.getElem?_erase, if_neg hseq, OrderedMap.getElem?_insert, if_neg hseq]
        exact htracked
      · rw [OrderedMap.getElem?_insert, if_neg hseq]
        exact htracked

/-- Capturing the trades of one reseed order charges all of them. -/
theorem captureTrades_owned (h : Owned seeded trades m.books m.restingStrategy)
    (hcapture : trades.foldlM (captureTrade contract tick snap) (m, out) = .ok (m', out')) :
    m'.books = m.books ∧ m'.restingSeedIds = m.restingSeedIds ∧
      m'.liquidityProfile = m.liquidityProfile ∧ m'.nextMakerId = m.nextMakerId ∧
      (∃ carried, out' = out ++ carried ∧ ∀ e ∈ carried, e.2.contract = contract) ∧
      Owned seeded [] m'.books m'.restingStrategy := by
  induction trades generalizing m out with
  | nil =>
    cases foldlM_nil_ok.1 hcapture
    exact ⟨rfl, rfl, rfl, rfl, ⟨[], by simp, List.forall_mem_nil _⟩, h⟩
  | cons trade trades ih =>
    obtain ⟨⟨m₁, out₁⟩, hfirst, hrest⟩ := foldlM_cons_ok.1 hcapture
    obtain ⟨hbooks, hids, hprofile, hmaker, ⟨mine, rfl, hmine⟩, howned⟩ :=
      captureTrade_owned h hfirst
    obtain ⟨hbooks', hids', hprofile', hmaker', ⟨carried, rfl, hcarried⟩, howned'⟩ :=
      ih howned hrest
    exact ⟨hbooks'.trans hbooks, hids'.trans hids, hprofile'.trans hprofile, hmaker'.trans hmaker,
      ⟨mine ++ carried, List.append_assoc .., List.forall_mem_append.2 ⟨hmine, hcarried⟩⟩, howned'⟩

end Capture

section Cancels

variable [LawfulBook B]

/-- A cancelled seed rests in no book of its contract. -/
theorem cancelSeeds_clears {books books' : Std.TreeMap ContractKey B}
    {entry : ContractKey × List Nat} (h : cancelSeeds books entry = .ok books')
    {contract : ContractKey} (hcontract : compare entry.1 contract = .eq) {book : B}
    (hbook : books'[contract]? = some book) :
    ∀ seq ∈ entry.2, Book.rests book (ObOrderId.Sequential seq) = none := by
  rcases cancelSeeds_cases h with ⟨hnone, rfl⟩ | ⟨before, after, -, rfl, hfold⟩
  · cases hnone.symm.trans ((Std.TreeMap.getElem?_congr hcontract).trans hbook)
  · rw [Std.TreeMap.getElem?_insert, if_pos hcontract] at hbook
    cases hbook
    refine foldlM_each (fun seq (b : B) => Book.rests b (ObOrderId.Sequential seq) = none) ?_ ?_
      hfold
    · intro b seq b' hstep
      simp only [bind_ok_iff, orderBookError_eq_ok, pure_ok_iff, Prod.exists] at hstep
      obtain ⟨_, _, hcancel, rfl⟩ := hstep
      rw [LawfulBook.cancel_removes hcancel, if_pos rfl]
    · intro b seq b' s hs hstep
      simp only [bind_ok_iff, orderBookError_eq_ok, pure_ok_iff, Prod.exists] at hstep
      obtain ⟨_, _, hcancel, rfl⟩ := hstep
      rw [LawfulBook.cancel_removes hcancel, hs]
      split_ifs <;> rfl

/-- After the stale seeds are cancelled none of them rests, and none is left to cancel. -/
theorem cancelStaleSeed_clears (h : m.cancelStaleSeed = .ok m') :
    (∀ (contract : ContractKey) (book : B) (seq : Nat), m'.books[contract]? = some book →
      seq ∈ m.seedsOf contract → Book.rests book (ObOrderId.Sequential seq) = none) ∧
      ∀ contract, m'.seedsOf contract = [] := by
  obtain ⟨books, hfold, h⟩ := bind_ok_iff.1 h
  cases h
  constructor
  · intro contract book seq hbook hseq
    unfold seedsOf at hseq
    rcases hids : m.restingSeedIds[contract]? with _ | ids
    · rw [hids] at hseq
      cases hseq
    rw [hids] at hseq
    obtain ⟨key, hkey, hmem⟩ :=
      Std.TreeMap.getElem?_eq_some_iff_exists_compare_eq_eq_and_mem_toList.1 hids
    have hclear := foldlM_each (fun (e : ContractKey × List Nat)
      (books : Std.TreeMap ContractKey B) => ∀ (c : ContractKey) (b : B), compare e.1 c = .eq →
        books[c]? = some b → ∀ s ∈ e.2, Book.rests b (ObOrderId.Sequential s) = none)
      (fun _ _ _ hstep c b hc hb => cancelSeeds_clears hstep hc hb) ?_ hfold (key, ids) hmem
    · exact hclear contract book (Std.OrientedCmp.eq_symm hkey) hbook seq hseq
    · intro books entry books' e he hstep c b hc hb s hs
      refine Option.eq_none_iff_forall_ne_some.2 fun left hleft => ?_
      obtain ⟨b₀, hb₀, hleft₀⟩ := cancelSeeds_shrinks hstep c b _ left hb hleft
      rw [he c b₀ hc hb₀ s hs] at hleft₀
      cases hleft₀
  · intro contract
    simp only [seedsOf, OrderedMap.getElem?_foldl_insert]
    split_ifs with hkey
    · rfl
    · rcases hids : m.restingSeedIds[contract]? with _ | ids
      · rfl
      · obtain ⟨key, hk, hmem⟩ :=
          Std.TreeMap.getElem?_eq_some_iff_exists_compare_eq_eq_and_mem_toList.1 hids
        exact absurd ⟨(key, ids), hmem, Std.OrientedCmp.eq_symm hk⟩ hkey

end Cancels

section Plan

variable [DecimalArith] {profile : LiquidityProfile}

theorem sideLadder_contract {contract : ContractKey} {isAsk : Bool} {touchCents tick : PriceCents}
    {decay factor : Decimal} {touch : Bounded u32} {levels level : Nat} {ladder : List SeedOrder}
    (h : sideLadder contract isAsk touchCents tick decay touch levels level factor = .ok ladder) :
    ∀ order ∈ ladder, order.contract = contract ∧ order.isAsk = isAsk := by
  induction levels generalizing level factor ladder with
  | zero =>
    cases h
    exact List.forall_mem_nil _
  | succ levels ih =>
    obtain ⟨size, -, h⟩ := bind_ok_iff.1 h
    split_ifs at h
    · cases h
      exact List.forall_mem_nil _
    · obtain ⟨price, -, h⟩ := bind_ok_iff.1 h
      cases price with
      | none =>
        cases h
        exact List.forall_mem_nil _
      | some price =>
        simp only [bind_ok_iff, pure_ok_iff] at h
        obtain ⟨_, -, _, -, deeper, hdeeper, rfl⟩ := h
        exact List.forall_mem_cons.2 ⟨⟨rfl, rfl⟩, ih hdeeper⟩

/-- Only quoted contracts are seeded. -/
theorem planSeed_quotes {plan : List SeedOrder} (h : planSeed snap profile = .ok plan) :
    ∀ order ∈ plan, snap.Quotes order.contract := by
  obtain ⟨_, -, hfold⟩ := bind_ok_iff.1 h
  refine foldlM_invariant_mem (fun plan => ∀ order ∈ plan, snap.Quotes order.contract) ?_
    (List.forall_mem_nil _) hfold
  rintro plan ⟨contract, quote⟩ plan' hentry hplan hstep
  simp only [planContract, bind_ok_iff, pure_ok_iff] at hstep
  obtain ⟨bids, hbids, asks, hasks, rfl⟩ := hstep
  have hquoted : snap.Quotes contract := by
    unfold ChainSnapshot.Quotes
    rw [Std.TreeMap.getElem?_eq_some_iff_exists_compare_eq_eq_and_mem_toList.2
      ⟨contract, Std.ReflCmp.compare_self, hentry⟩]
    rfl
  refine List.forall_mem_append.2 ⟨List.forall_mem_append.2 ⟨hplan, fun order horder => ?_⟩,
    fun order horder => ?_⟩
  · rw [(sideLadder_contract hbids order horder).1]
    exact hquoted
  · rw [(sideLadder_contract hasks order horder).1]
    exact hquoted

end Plan

section Operations

variable [LawfulBook B] {profile : LiquidityProfile}

omit [Book B ObOrderId] [LawfulBook B] in
theorem seedsAfter_eq (ids : Std.TreeMap ContractKey (List Nat)) (contract c : ContractKey)
    (seq remaining : Nat) :
    (seedIdsAfter ids contract seq remaining)[c]?.getD [] = ids[c]?.getD [] ++
      if compare contract c = .eq ∧ 0 < remaining then [seq] else [] := by
  unfold seedIdsAfter
  by_cases hrest : 0 < remaining
  · rw [if_pos hrest, Std.TreeMap.getElem?_insert]
    by_cases hc : compare contract c = .eq
    · rw [if_pos hc, if_pos ⟨hc, hrest⟩, Option.getD_some, Std.TreeMap.getElem?_congr hc]
    · rw [if_neg hc, if_neg fun h => hc h.1, List.append_nil]
  · rw [if_neg hrest, if_neg fun h => hrest h.2, List.append_nil]

/-- Seeds rest only where the snapshot quotes. -/
def SeedsQuoted (snap : ChainSnapshot) (m : RealisticFill B) : Prop :=
  ∀ contract seq, seq ∈ m.seedsOf contract → snap.Quotes contract

/-- One seed order, in a quoted contract. -/
theorem reseedOrder_stocked {tick : PriceCents} {order : SeedOrder} {out out' : List (OrderId × Fill)}
    (h : Stocked profile m) (hquoted : SeedsQuoted snap m) (horder : snap.Quotes order.contract)
    (hstep : reseedOrder snap tick (m, out) order = .ok (m', out')) :
    Stocked profile m' ∧ SeedsQuoted snap m' ∧
      ∃ carried, out' = out ++ carried ∧ ∀ e ∈ carried, snap.Quotes e.2.contract := by
  obtain ⟨hplaced, -⟩ := reseedOrder_placed h.placed hstep
  obtain ⟨ticks, book, book', result, captured, -, hleaf, hadd, hcapture, rfl⟩ :=
    reseedOrder_eq_ok hstep
  have howned := addLimit_owned h.placed h.owned hleaf (h.placed.maker_fresh hleaf) hadd
  obtain ⟨-, hids, hprofile, hmaker, ⟨carried, hout, hcarried⟩, hleft⟩ :=
    captureTrades_owned (m := m.afterSeed order.contract book') howned hcapture
  have hseeds : ∀ c s, s ∈ ({ captured with
      restingSeedIds := seedIdsAfter captured.restingSeedIds order.contract m.nextMakerId
        result.remaining } : RealisticFill B).seedsOf c ↔ s ∈ m.seedsOf c ∨
      compare order.contract c = .eq ∧ s = m.nextMakerId ∧ 0 < result.remaining := by
    intro c s
    rw [seedsOf, seedsAfter_eq, hids, List.mem_append]
    refine or_congr_right ?_
    split_ifs with hc <;> simp_all
  refine ⟨⟨hprofile.trans h.seeding, hplaced, fun c s hs => ?_,
    hleft.mono fun c s left hseed => ?_⟩, fun c s hs => ?_, carried, hout,
    fun e he => hcarried e he ▸ horder⟩
  · change makerIdBase ≤ s ∧ s < captured.nextMakerId
    rw [hmaker]
    change makerIdBase ≤ s ∧ s < m.nextMakerId + 1
    rcases (hseeds c s).1 hs with hold | ⟨-, rfl, -⟩
    · have := h.seeds c s hold
      omega
    · exact ⟨h.placed.makers, Nat.lt_succ_self _⟩
  · exact (hseeds c s).2 (hseed.imp_right fun ⟨hc, hs, hrest, _⟩ => ⟨hc, hs, hrest⟩)
  · rcases (hseeds c s).1 hs with hold | ⟨hc, -⟩
    · exact hquoted c s hold
    · unfold ChainSnapshot.Quotes at horder ⊢
      rwa [← Std.TreeMap.getElem?_congr hc]

/-- Before it seeds, the refresh leaves nothing but tracked orders. -/
theorem clearStale_stocked (h : Stocked profile m) (hstale : m.cancelStaleSeed = .ok m') :
    Stocked profile (m'.evictDeparted snap) ∧ ∀ c, (m'.evictDeparted snap).seedsOf c = [] := by
  have hshrinks : Shrinks m.books (m'.evictDeparted snap).books :=
    (cancelStaleSeed_shrinks hstale).trans evictDeparted_shrinks
  obtain ⟨hclears, hnone⟩ := cancelStaleSeed_clears hstale
  have hempty : ∀ c, (m'.evictDeparted snap).seedsOf c = [] := by
    intro c
    have hc := hnone c
    unfold seedsOf at hc ⊢
    simp only [evictDeparted, OrderedMap.getElem?_retain keeps_congr]
    split_ifs
    · exact hc
    · rfl
  obtain ⟨books, -, h₁⟩ := bind_ok_iff.1 hstale
  cases h₁
  refine ⟨⟨h.seeding, h.placed.narrow hshrinks.thins rfl rfl .refl, fun c seq hseq => ?_,
    h.owned.shrink hshrinks (fun c book seq left hbook hleft hseed => ?_)
      fun _ _ _ _ _ _ _ horder => horder⟩, hempty⟩
  · rw [hempty c] at hseq
    cases hseq
  obtain ⟨book₁, hbook₁, hleft₁⟩ := evictDeparted_shrinks c book _ left hbook hleft
  rw [hclears c book₁ seq hbook₁ hseed] at hleft₁
  cases hleft₁

/-- The refresh leaves nothing of the previous snapshot's seeds, and trades only where the
snapshot quotes. -/
theorem refreshBooks_stocked [DecimalArith] {carried : List (OrderId × Fill)}
    (h : Stocked profile m) (hrefresh : m.refreshBooks snap = .ok (m', carried)) :
    Stocked profile m' ∧ SeedsQuoted snap m' ∧ ∀ e ∈ carried, snap.Quotes e.2.contract := by
  unfold refreshBooks at hrefresh
  rw [h.seeding] at hrefresh
  simp only [bind_ok_iff] at hrefresh
  obtain ⟨_, -, m₁, hstale, plan, hplan, hreseed⟩ := hrefresh
  obtain ⟨hstart, hempty⟩ := clearStale_stocked h hstale
  refine foldlM_invariant_mem (fun acc => Stocked profile acc.1 ∧ SeedsQuoted snap acc.1 ∧
    ∀ e ∈ acc.2, snap.Quotes e.2.contract) ?_ ⟨hstart, fun c seq hseq => ?_, List.forall_mem_nil _⟩
    hreseed
  · rintro ⟨x, xs⟩ order ⟨y, ys⟩ horder ⟨hx, hquoted, hxs⟩ hstep
    obtain ⟨hy, hquoted', mine, rfl, hmine⟩ :=
      reseedOrder_stocked hx hquoted (planSeed_quotes hplan order horder) hstep
    exact ⟨hy, hquoted', List.forall_mem_append.2 ⟨hxs, hmine⟩⟩
  · rw [hempty c] at hseq
    cases hseq

/-- A cancel takes its order out of the one book it rests in, and touches no seed. -/
theorem cancelCommand_stocked {cmd : OrderCommand} (h : Stocked profile m)
    (hcancel : m.cancelCommand cmd = .ok m') :
    Stocked profile m' ∧ m'.restingSeedIds = m.restingSeedIds ∧ Shrinks m.books m'.books := by
  have hplaced := cancelCommand_placed h.placed hcancel
  unfold cancelCommand at hcancel
  split at hcancel
  · rcases cancelResting_cases hcancel with ⟨-, rfl⟩ | ⟨_, -, -, rfl⟩ |
      ⟨seq, order, books, live, -, horder, hbooks, rfl⟩
    · exact ⟨h, rfl, .refl⟩
    · exact ⟨⟨h.seeding, hplaced, h.seeds, h.owned⟩, rfl, .refl⟩
    · have hshrinks := cancelInBook_shrinks hbooks
      refine ⟨⟨h.seeding, hplaced, h.seeds, h.owned.shrink hshrinks
        (fun _ _ _ _ _ _ hseed => hseed) fun c book s left tracked hbook hleft htracked => ?_⟩,
        rfl, hshrinks⟩
      simp only [afterCancel, OrderedMap.getElem?_erase]
      split_ifs with hs
      · -- the cancelled order rested in this book, and no longer does
        subst hs
        obtain ⟨book₀, hbook₀, hleft₀⟩ := hshrinks c book _ left hbook hleft
        obtain ⟨hc, -⟩ := h.placed.placed c book₀ s left order hbook₀ hleft₀ horder
        have hown := (Std.TreeMap.getElem?_congr hc).symm.trans hbook₀
        rcases cancelInBook_cases hbooks with ⟨hnone, -⟩ | ⟨b, b', _, hb, hdone, rfl⟩
        · cases hnone.symm.trans hown
        · simp only [afterCancel] at hbook
          rw [Std.TreeMap.getElem?_insert, if_pos (Std.OrientedCmp.eq_symm hc)] at hbook
          cases hbook
          rw [LawfulBook.cancel_removes hdone, if_pos rfl] at hleft
          cases hleft
      · exact htracked
  · cases hcancel
    exact ⟨h, rfl, .refl⟩

/-- The makers a routed intent trades with are seeds of its contract. -/
theorem Submitted.makers {intent : OrderIntent} {orderId : OrderId} {fills : List Fill}
    {limit : PriceCents} {ticks : Nat} {before after : B} {result : MatchResult ObOrderId}
    (hsubmitted : Submitted m intent orderId snap m' fills limit ticks before after result)
    (h : Stocked profile m) :
    ∀ trade ∈ result.trades, ∃ seq, trade.maker = .Sequential seq ∧
      seq ∈ m.seedsOf intent.contract := by
  intro trade htrade
  obtain ⟨book, hadd, -⟩ := hsubmitted.matched
  obtain ⟨maker, hrests, -⟩ := LawfulBook.trade_maker hadd htrade
  obtain ⟨-, seq, hmaker, howner⟩ := h.owned intent.contract before trade.maker maker
    (leafBook_rests hsubmitted.leaf hrests) hrests
  refine ⟨seq, hmaker, howner.resolve_right ?_⟩
  rintro ⟨order, horder, -⟩
  cases (hsubmitted.untracked trade htrade seq hmaker).symm.trans horder

/-- A routed intent trades with seeds alone, and rests as itself or not at all. -/
theorem fillSubmit_stocked {intent : OrderIntent} {orderId : OrderId} {fills : List Fill}
    (h : Stocked profile m) (hsubmit : m.fillSubmit intent orderId snap = .ok (m', fills)) :
    Stocked profile m' := by
  have hplaced := fillSubmit_placed h.placed (fun _ _ => trivial) hsubmit
  obtain ⟨limit, ticks, before, after, result, hsubmitted⟩ := fillSubmit_eq_ok hsubmit
  obtain ⟨book, hadd, hafter⟩ := hsubmitted.matched
  have hlt := hsubmitted.strategyId
  have hfresh := h.placed.strategy_fresh hlt hsubmitted.leaf
  have howned := (addLimit_owned h.placed h.owned hsubmitted.leaf hfresh hadd).uncharged
    hsubmitted.untracked
  have htracked := hsubmitted.tracked
  split_ifs at htracked with hgtc
  · obtain ⟨live, rfl⟩ := trackResting_eq_ok htracked
    obtain rfl : after = book := by
      rcases cancelRemainder_eq_ok hafter with ⟨-, rfl⟩ | ⟨_, hioc, -⟩
      · rfl
      · rw [hgtc.1] at hioc
        cases hioc
    refine ⟨h.seeding, hplaced, h.seeds, fun c found i left hfound hleft => ?_⟩
    obtain ⟨hsize, seq, rfl, howner⟩ := howned c found i left hfound hleft
    refine ⟨hsize, seq, rfl, ?_⟩
    simp only [OrderedMap.getElem?_insert]
    rcases howner with (hseed | ⟨-, rfl, -, rfl⟩) | ⟨order, horder, hrest⟩
    · exact .inl hseed
    · exact .inr ⟨_, if_pos rfl, rfl, rfl⟩
    · refine .inr ⟨order, ?_, hrest⟩
      rw [if_neg]
      · exact horder
      · rintro rfl
        exact lt_irrefl _ (h.placed.tracked _ order horder)
  · subst htracked
    refine ⟨h.seeding, hplaced, h.seeds, ?_⟩
    rcases cancelRemainder_eq_ok hafter with ⟨hioc, rfl⟩ | ⟨_, -, hcancel⟩
    · have hdone : ¬ 0 < result.remaining := by
        cases htif : intent.tif with
        | Ioc => exact fun hrest => hioc ⟨htif, hrest⟩
        | Gtc => exact fun hrest => hgtc ⟨htif, hrest⟩
      exact howned.mono fun c seq left hseed =>
        hseed.elim id fun ⟨_, _, hrest, _⟩ => absurd hrest hdone
    · refine howned.shrink (.replace fun i left hleft => LawfulBook.rests_of_cancel hcancel hleft)
        (fun c found seq left hfound hleft hseed => ?_) fun _ _ _ _ _ _ _ horder => horder
      rcases hseed with hseed | ⟨hc, rfl, -⟩
      · exact hseed
      · simp only [afterSubmit] at hfound
        rw [Std.TreeMap.getElem?_insert, if_pos hc] at hfound
        cases hfound
        rw [LawfulBook.cancel_removes hcancel, if_pos rfl] at hleft
        cases hleft

/-- What a routed intent trades, the snapshot quotes. -/
theorem fillSubmit_quotes {intent : OrderIntent} {orderId : OrderId} {fills : List Fill}
    (h : Stocked profile m) (hquoted : SeedsQuoted snap m)
    (hsubmit : m.fillSubmit intent orderId snap = .ok (m', fills)) :
    SeedsQuoted snap m' ∧ ∀ fill ∈ fills, snap.Quotes fill.contract := by
  obtain ⟨limit, ticks, before, after, result, hsubmitted⟩ := fillSubmit_eq_ok hsubmit
  obtain ⟨-, -, hids, -⟩ := hsubmitted.frame
  refine ⟨fun c seq hseq => hquoted c seq (by rwa [seedsOf, hids] at hseq), fun fill hfill => ?_⟩
  obtain ⟨trade, htrade, hlevel⟩ := Pointwise.exists_left hsubmitted.levels hfill
  obtain ⟨seq, -, hseq⟩ := hsubmitted.makers h trade htrade
  rw [hlevel.contract]
  exact hquoted _ seq hseq

end Operations

end IronCondor.RealisticFill
