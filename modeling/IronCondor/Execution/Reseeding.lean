import IronCondor.Execution.Ladder
import IronCondor.Execution.Supply
import IronCondor.Lib.StandingOrders

/-! # Reseeding

The refresh cancels the seeds it tracks and places the ladder of the new quote, level by level. What
is left in the book of a contract is that ladder, whole, exactly when nothing else rested there and
no planned ask meets a planned bid. -/
namespace IronCondor.RealisticFill

open Checked ExceptRun OrderBook

section Books

variable {B : Type} [Book B ObOrderId] {m m' : RealisticFill B} {contract : ContractKey}
  {books : Std.TreeMap ContractKey B} {book : B}

/-- The book of a contract, empty where there is none yet. -/
def bookOf (m : RealisticFill B) (contract : ContractKey) : B :=
  m.books[contract]?.getD Book.empty

/-- Whatever rests in a book has a size, and an id that was minted before. -/
def Resident (m : RealisticFill B) : Prop :=
  ∀ (contract : ContractKey) (i : ObOrderId) (left : Resting),
    Book.rests (m.bookOf contract) i = some left →
      0 < left.size ∧ ∃ seq, i = .Sequential seq ∧ seq < m.nextMakerId

/-- Everything that rests in the book of a contract is a seed that the next refresh cancels. -/
def SeedsAlone (m : RealisticFill B) (contract : ContractKey) : Prop :=
  ∀ (i : ObOrderId) (left : Resting), Book.rests (m.bookOf contract) i = some left →
    ∃ seq ∈ m.seedsOf contract, i = .Sequential seq

/-- A planned order rests under an id, at its price in ticks and with its whole size. -/
def RestsWhole (tick : PriceCents) (book : B) (order : SeedOrder) (i : ObOrderId) : Prop :=
  ∃ ticks : Nat, (ticks : Int) * tick.value = order.price.value ∧
    Book.rests book i = some ⟨bookSide order, ticks, order.size.value.toNat⟩

/-- The ladder rests in the book of a contract, level by level and whole, under the ids the next
refresh cancels, and nothing else rests there. -/
structure Restored (tick : PriceCents) (contract : ContractKey) (m : RealisticFill B)
    (ladder : List SeedOrder) : Prop where
  levels : List.Forall₂ (RestsWhole tick (m.bookOf contract)) ladder
    ((m.seedsOf contract).map ObOrderId.Sequential)
  alone : m.SeedsAlone contract

theorem leafBook_eq_ok (h : leafBook books contract = .ok book) :
    book = books[contract]?.getD Book.empty := by
  unfold leafBook at h
  split at h
  · rename_i hbook
    cases h
    rw [hbook]
    rfl
  · rename_i hnone
    obtain ⟨_, -, h⟩ := bind_ok_iff.1 h
    cases h
    rw [hnone]
    rfl

omit [Book B ObOrderId] in
/-- Capturing trades touches neither the books nor the seeds. -/
theorem captureTrades_seeds {tick : PriceCents} {snap : ChainSnapshot}
    {trades : List (Trade ObOrderId)} {out out' : List (OrderId × Fill)}
    (h : trades.foldlM (captureTrade contract tick snap) (m, out) = .ok (m', out')) :
    m'.books = m.books ∧ m'.restingSeedIds = m.restingSeedIds ∧ m'.nextMakerId = m.nextMakerId := by
  refine foldlM_invariant (fun acc => acc.1.books = m.books ∧
    acc.1.restingSeedIds = m.restingSeedIds ∧ acc.1.nextMakerId = m.nextMakerId) ?_
    ⟨rfl, rfl, rfl⟩ h
  rintro ⟨x, xs⟩ trade ⟨y, ys⟩ hx hstep
  obtain ⟨carried, hfill, -⟩ := captureTrade_eq_ok hstep
  rcases captureRefreshFill_cases hfill with ⟨-, rfl, -⟩ |
    ⟨seq, order, fill, groups, live, -, -, -, -, -, -, -, -, -, -, -, rfl⟩
  · exact hx
  · exact hx

end Books

section Cancels

variable {B : Type} [Book B ObOrderId] [LawfulBook B] {m m' : RealisticFill B}
  {books books' : Std.TreeMap ContractKey B}

/-- A cancel of seeds leaves every other order where it rests. -/
theorem cancelSeeds_spares {entry : ContractKey × List Nat}
    (h : cancelSeeds books entry = .ok books') {contract : ContractKey} {book : B} {i : ObOrderId}
    {left : Resting} (hbook : books[contract]? = some book) (hleft : Book.rests book i = some left)
    (hspared : compare entry.1 contract = .eq → ∀ seq ∈ entry.2, i ≠ .Sequential seq) :
    ∃ book', books'[contract]? = some book' ∧ Book.rests book' i = some left := by
  rcases cancelSeeds_cases h with ⟨-, rfl⟩ | ⟨before, after, hbefore, rfl, hfold⟩
  · exact ⟨book, hbook, hleft⟩
  · rw [Std.TreeMap.getElem?_insert]
    split_ifs with hc
    · rw [Std.TreeMap.getElem?_congr hc] at hbefore
      cases hbook.symm.trans hbefore
      refine ⟨after, rfl, ?_⟩
      refine foldlM_invariant_mem (fun b => Book.rests b i = some left) ?_ hleft hfold
      intro b seq b' hseq hb hstep
      simp only [bind_ok_iff, orderBookError_eq_ok, pure_ok_iff, Prod.exists] at hstep
      obtain ⟨_, _, hcancel, rfl⟩ := hstep
      rw [LawfulBook.cancel_removes hcancel, if_neg (hspared hc seq hseq)]
      exact hb
    · exact ⟨book, hbook, hleft⟩

/-- The stale cancels remove the tracked seeds and nothing else. -/
theorem cancelStaleSeed_spares (h : m.cancelStaleSeed = .ok m') {contract : ContractKey} {book : B}
    {i : ObOrderId} {left : Resting} (hbook : m.books[contract]? = some book)
    (hleft : Book.rests book i = some left)
    (hspared : ∀ seq ∈ m.seedsOf contract, i ≠ .Sequential seq) :
    ∃ book', m'.books[contract]? = some book' ∧ Book.rests book' i = some left := by
  obtain ⟨books, hfold, h⟩ := bind_ok_iff.1 h
  cases h
  refine foldlM_invariant_mem (fun books => ∃ book' : B, books[contract]? = some book' ∧
    Book.rests book' i = some left) ?_ ⟨book, hbook, hleft⟩ hfold
  rintro before entry after hentry ⟨b, hb, hrests⟩ hstep
  refine cancelSeeds_spares hstep hb hrests fun hc seq hseq => hspared seq ?_
  have hids : m.restingSeedIds[contract]? = some entry.2 :=
    Std.TreeMap.getElem?_eq_some_iff_exists_compare_eq_eq_and_mem_toList.2
      ⟨entry.1, Std.OrientedCmp.eq_symm hc, hentry⟩
  rw [seedsOf, hids]
  exact hseq

end Cancels

section Start

variable {B : Type} [Book B ObOrderId] [LawfulBook B] {m m' : RealisticFill B}
  {snap : ChainSnapshot} {contract : ContractKey}

omit [LawfulBook B] in
theorem evictDeparted_bookOf (hquoted : snap.quotes.contains contract = true) :
    (m.evictDeparted snap).bookOf contract = m.bookOf contract := by
  unfold bookOf
  simp only [evictDeparted, OrderedMap.getElem?_retain keeps_congr, hquoted, Bool.true_or, if_true]

/-- Before it reseeds, the refresh leaves in the book of a quoted contract what it does not
track. -/
theorem cleared_rests (h : m.cancelStaleSeed = .ok m')
    (hquoted : snap.quotes.contains contract = true) (i : ObOrderId) (left : Resting) :
    Book.rests ((m'.evictDeparted snap).bookOf contract) i = some left ↔
      Book.rests (m.bookOf contract) i = some left ∧
        ∀ seq ∈ m.seedsOf contract, i ≠ .Sequential seq := by
  rw [evictDeparted_bookOf hquoted]
  unfold bookOf
  constructor
  · intro hleft
    rcases hbook : m'.books[contract]? with _ | book'
    · rw [hbook, Option.getD_none, LawfulBook.rests_empty] at hleft
      cases hleft
    rw [hbook, Option.getD_some] at hleft
    obtain ⟨book, hfound, hrests⟩ := cancelStaleSeed_shrinks h contract book' i left hbook hleft
    refine ⟨by rw [hfound]; exact hrests, ?_⟩
    rintro seq hseq rfl
    rw [(cancelStaleSeed_clears h).1 contract book' seq hbook hseq] at hleft
    cases hleft
  · rintro ⟨hleft, hspared⟩
    rcases hbook : m.books[contract]? with _ | book
    · rw [hbook, Option.getD_none, LawfulBook.rests_empty] at hleft
      cases hleft
    rw [hbook, Option.getD_some] at hleft
    obtain ⟨book', hfound, hrests⟩ := cancelStaleSeed_spares h hbook hleft hspared
    rw [hfound]
    exact hrests

theorem cleared_empty_iff (h : m.cancelStaleSeed = .ok m')
    (hquoted : snap.quotes.contains contract = true) :
    (∀ i, Book.rests ((m'.evictDeparted snap).bookOf contract) i = none) ↔
      m.SeedsAlone contract := by
  simp only [Option.eq_none_iff_forall_ne_some]
  constructor
  · intro hempty i left hleft
    by_contra hnone
    refine hempty i left ((cleared_rests h hquoted i left).2 ⟨hleft, fun seq hseq heq => ?_⟩)
    exact hnone ⟨seq, hseq, heq⟩
  · intro halone i left hleft
    obtain ⟨hrests, hspared⟩ := (cleared_rests h hquoted i left).1 hleft
    obtain ⟨seq, hseq, heq⟩ := halone i left hrests
    exact hspared seq hseq heq

end Start

section Placements

variable {B : Type} [Book B ObOrderId] {m m' start : RealisticFill B} {snap : ChainSnapshot}
  {tick : PriceCents} {contract : ContractKey} {done : List SeedOrder}
  {placed : List (LimitOrder ObOrderId)} {seqs : List Nat}

/-- A planned seed as its book gets it, in ticks. -/
structure Scaled (tick : PriceCents) (order : SeedOrder) (o : LimitOrder ObOrderId) : Prop where
  side : o.side = bookSide order
  price : (o.price : Int) * tick.value = order.price.value
  size : o.size = order.size.value.toNat

/-- What the planned orders of `done` have placed in the book of a contract since `start`, under
which ids, and which of these the next refresh cancels. -/
structure Placements (tick : PriceCents) (contract : ContractKey) (start m : RealisticFill B)
    (done : List SeedOrder) (placed : List (LimitOrder ObOrderId)) (seqs : List Nat) : Prop where
  scaled : List.Forall₂ (Scaled tick)
    (done.filter fun order => compare order.contract contract = .eq) placed
  ids : placed.map LimitOrder.id = seqs.map ObOrderId.Sequential
  increasing : seqs.Pairwise (· < ·)
  fresh : ∀ seq ∈ seqs, start.nextMakerId ≤ seq ∧ seq < m.nextMakerId
  run : placed.foldlM place (start.bookOf contract) = .ok (m.bookOf contract)
  tracked : (m.seedsOf contract).Sublist seqs
  spent : ∀ seq ∈ seqs, seq ∉ m.seedsOf contract →
    Book.rests (m.bookOf contract) (.Sequential seq) = none
  minted : start.nextMakerId ≤ m.nextMakerId
  below : ∀ (i : ObOrderId) (left : Resting), Book.rests (m.bookOf contract) i = some left →
    ∃ seq, i = .Sequential seq ∧ seq < m.nextMakerId

theorem Placements.nil (hids : start.seedsOf contract = [])
    (hbelow : ∀ (i : ObOrderId) (left : Resting),
      Book.rests (start.bookOf contract) i = some left →
        ∃ seq, i = .Sequential seq ∧ seq < start.nextMakerId) :
    Placements tick contract start start [] [] [] where
  scaled := .nil
  ids := rfl
  increasing := .nil
  fresh := List.forall_mem_nil _
  run := foldlM_nil_ok.2 rfl
  tracked := hids ▸ .slnil
  spent := List.forall_mem_nil _
  minted := le_rfl
  below := hbelow

/-- A reseed order, read off the books and the seeds. -/
theorem reseedOrder_effect {order : SeedOrder} {out out' : List (OrderId × Fill)}
    (h : reseedOrder snap tick (m, out) order = .ok (m', out')) :
    ∃ (ticks : Nat) (book : B) (result : MatchResult ObOrderId),
      centsToTicks order.price tick = .ok ticks ∧
      Book.addLimit (m.bookOf order.contract) (.Sequential m.nextMakerId) (bookSide order) ticks
        order.size.value.toNat = .ok (book, result) ∧
      m'.nextMakerId = m.nextMakerId + 1 ∧
      (∀ c, m'.bookOf c = if compare order.contract c = .eq then book else m.bookOf c) ∧
      ∀ c, m'.seedsOf c = m.seedsOf c ++
        if compare order.contract c = .eq ∧ 0 < result.remaining then [m.nextMakerId] else [] := by
  obtain ⟨ticks, before, book, result, captured, hticks, hleaf, hadd, hcapture, rfl⟩ :=
    reseedOrder_eq_ok h
  obtain ⟨hbooks, hseeds, hmaker⟩ := captureTrades_seeds hcapture
  rw [leafBook_eq_ok hleaf] at hadd
  refine ⟨ticks, book, result, hticks, hadd, hmaker, fun c => ?_, fun c => ?_⟩
  · change (captured.books[c]?).getD Book.empty = _
    rw [hbooks]
    change ((m.books.insert order.contract book)[c]?).getD Book.empty = _
    rw [Std.TreeMap.getElem?_insert]
    split_ifs <;> rfl
  · rw [seedsOf, seedsAfter_eq, hseeds]
    rfl

variable [LawfulBook B]

/-- An order planned for the contract is placed in its book under the next id. -/
theorem Placements.add (h : Placements tick contract start m done placed seqs) {order : SeedOrder}
    {ticks : Nat} {book : B} {result : MatchResult ObOrderId}
    (hc : compare order.contract contract = .eq)
    (hticks : centsToTicks order.price tick = .ok ticks)
    (hadd : Book.addLimit (m.bookOf contract) (.Sequential m.nextMakerId) (bookSide order) ticks
      order.size.value.toNat = .ok (book, result))
    (hnext : m'.nextMakerId = m.nextMakerId + 1) (hbook : m'.bookOf contract = book)
    (hseed : m'.seedsOf contract = m.seedsOf contract ++
      if 0 < result.remaining then [m.nextMakerId] else []) :
    Placements tick contract start m' (done ++ [order])
      (placed ++ [⟨.Sequential m.nextMakerId, bookSide order, ticks, order.size.value.toNat⟩])
      (seqs ++ [m.nextMakerId]) := by
  have hplace : place (m.bookOf contract) ⟨.Sequential m.nextMakerId, bookSide order, ticks,
      order.size.value.toNat⟩ = .ok book := place_eq_ok.2 ⟨result, hadd⟩
  have hfresh : Book.rests (m.bookOf contract) (.Sequential m.nextMakerId) = none := by
    refine Option.eq_none_iff_forall_ne_some.2 fun left hleft => ?_
    obtain ⟨seq, heq, hlt⟩ := h.below _ left hleft
    cases heq
    exact lt_irrefl _ hlt
  subst hbook
  constructor
  case scaled =>
    rw [List.filter_append, List.filter_singleton, decide_eq_true hc]
    exact List.rel_append h.scaled (.cons ⟨rfl, (centsToTicks_eq_ok hticks).2, rfl⟩ .nil)
  case ids =>
    rw [List.map_append, List.map_append, h.ids]
    rfl
  case increasing =>
    rw [List.pairwise_append]
    refine ⟨h.increasing, List.pairwise_singleton _ _, fun seq hseq last hlast => ?_⟩
    rw [List.mem_singleton.1 hlast]
    exact (h.fresh seq hseq).2
  case fresh =>
    rw [hnext]
    refine List.forall_mem_append.2 ⟨fun seq hseq => ?_, List.forall_mem_singleton.2 ?_⟩
    · have hrange := h.fresh seq hseq
      omega
    · have hminted := h.minted
      omega
  case run => exact foldlM_append_ok.2 ⟨_, h.run, foldlM_singleton_ok.2 hplace⟩
  case tracked =>
    rw [hseed]
    refine h.tracked.append ?_
    split_ifs
    · exact .refl _
    · exact List.nil_sublist _
  case spent =>
    rw [hseed]
    refine List.forall_mem_append.2 ⟨fun seq hseq hnot => ?_, List.forall_mem_singleton.2 ?_⟩
    · have hspent := h.spent seq hseq fun hold => hnot (List.mem_append_left _ hold)
      refine Option.eq_none_iff_forall_ne_some.2 fun left hleft => ?_
      rcases rests_of_place hplace hleft with heq | ⟨before, hbefore⟩
      · cases heq
        exact lt_irrefl _ (h.fresh _ hseq).2
      · rw [hspent] at hbefore
        cases hbefore
    · intro hnot
      rw [LawfulBook.addLimit_self hfresh hadd, if_pos]
      by_contra hleft
      refine hnot (List.mem_append_right _ ?_)
      rw [if_pos (Nat.pos_of_ne_zero hleft)]
      exact List.mem_singleton_self _
  case minted =>
    rw [hnext]
    exact h.minted.trans (Nat.le_succ _)
  case below =>
    rw [hnext]
    intro i left hleft
    rcases rests_of_place hplace hleft with rfl | ⟨before, hbefore⟩
    · exact ⟨_, rfl, Nat.lt_succ_self _⟩
    · obtain ⟨seq, rfl, hlt⟩ := h.below i before hbefore
      exact ⟨seq, rfl, hlt.trans (Nat.lt_succ_self _)⟩

omit [LawfulBook B] in
/-- An order planned for another contract. -/
theorem Placements.skip (h : Placements tick contract start m done placed seqs) {order : SeedOrder}
    (hc : compare order.contract contract ≠ .eq) (hnext : m'.nextMakerId = m.nextMakerId + 1)
    (hbook : m'.bookOf contract = m.bookOf contract)
    (hseed : m'.seedsOf contract = m.seedsOf contract) :
    Placements tick contract start m' (done ++ [order]) placed seqs where
  scaled := by
    rw [List.filter_append, List.filter_singleton, decide_eq_false hc]
    simpa using h.scaled
  ids := h.ids
  increasing := h.increasing
  fresh seq hseq := by
    have hrange := h.fresh seq hseq
    omega
  run := hbook ▸ h.run
  tracked := hseed ▸ h.tracked
  spent := by
    rw [hseed, hbook]
    exact h.spent
  minted := by
    rw [hnext]
    exact h.minted.trans (Nat.le_succ _)
  below := by
    rw [hbook, hnext]
    intro i left hleft
    obtain ⟨seq, rfl, hlt⟩ := h.below i left hleft
    exact ⟨seq, rfl, hlt.trans (Nat.lt_succ_self _)⟩

omit [LawfulBook B] in
theorem Placements.nodup (h : Placements tick contract start m done placed seqs) :
    seqs.Nodup ∧ (placed.map LimitOrder.id).Nodup := by
  have hseqs : seqs.Nodup := h.increasing.imp fun hlt => hlt.ne
  refine ⟨hseqs, ?_⟩
  rw [h.ids, List.nodup_map_iff fun _ _ heq => by injection heq]
  exact hseqs

omit [LawfulBook B] in
/-- The ids placed rested nowhere in the book before. -/
theorem Placements.unused (h : Placements tick contract start m done placed seqs)
    (hbelow : ∀ (i : ObOrderId) (left : Resting),
      Book.rests (start.bookOf contract) i = some left →
        ∃ seq, i = .Sequential seq ∧ seq < start.nextMakerId) :
    ∀ o ∈ placed, Book.rests (start.bookOf contract) o.id = none := by
  intro o ho
  have hmem : o.id ∈ seqs.map ObOrderId.Sequential := h.ids ▸ List.mem_map_of_mem ho
  obtain ⟨seq, hseq, hid⟩ := List.mem_map.1 hmem
  refine Option.eq_none_iff_forall_ne_some.2 fun left hleft => ?_
  obtain ⟨seq', hid', hlt⟩ := hbelow o.id left hleft
  cases hid.trans hid'
  exact absurd (h.fresh seq hseq).1 (not_le.2 hlt)

theorem Placements.step (h : Placements tick contract start m done placed seqs) {order : SeedOrder}
    {out out' : List (OrderId × Fill)}
    (hstep : reseedOrder snap tick (m, out) order = .ok (m', out')) :
    ∃ placed' seqs', Placements tick contract start m' (done ++ [order]) placed' seqs' := by
  obtain ⟨ticks, book, result, hticks, hadd, hnext, hbooks, hseeds⟩ := reseedOrder_effect hstep
  have hbook := hbooks contract
  have hseed := hseeds contract
  by_cases hc : compare order.contract contract = .eq
  · have hsame : m.bookOf order.contract = m.bookOf contract :=
      congrArg (Option.getD · Book.empty) (Std.TreeMap.getElem?_congr hc)
    rw [hsame] at hadd
    rw [if_pos hc] at hbook
    simp only [hc, true_and] at hseed
    exact ⟨_, _, h.add hc hticks hadd hnext hbook hseed⟩
  · rw [if_neg hc] at hbook
    rw [if_neg fun hboth => hc hboth.1, List.append_nil] at hseed
    exact ⟨_, _, h.skip hc hnext hbook hseed⟩

/-- What a run of planned orders places in the book of a contract. -/
theorem reseed_placements {plan : List SeedOrder} {carried : List (OrderId × Fill)}
    (h : plan.foldlM (reseedOrder snap tick) (start, []) = .ok (m, carried))
    (hids : start.seedsOf contract = [])
    (hbelow : ∀ (i : ObOrderId) (left : Resting),
      Book.rests (start.bookOf contract) i = some left →
        ∃ seq, i = .Sequential seq ∧ seq < start.nextMakerId) :
    ∃ placed seqs, Placements tick contract start m plan placed seqs := by
  have hrun : ∃ placed seqs, Placements tick contract start m ([] ++ plan) placed seqs := by
    refine foldlM_invariant_done (fun done acc => ∃ placed seqs,
      Placements tick contract start acc.1 done placed seqs) (fun _ _ => True) ?_
      ⟨[], [], .nil hids hbelow⟩ along_true h
    rintro done ⟨x, xs⟩ order ⟨y, ys⟩ - ⟨placed, seqs, hx⟩ - hstep
    exact hx.step hstep
  exact hrun

end Placements

section Ladders

variable {B : Type} [Book B ObOrderId] {m start : RealisticFill B} {tick : PriceCents}
  {contract : ContractKey} {plan ladder bids asks : List SeedOrder}
  {placed : List (LimitOrder ObOrderId)} {seqs : List Nat}

/-- The depth is restored when what was placed stands in the book. -/
theorem restored_iff_standing (htick : 0 < tick.value)
    (h : Placements tick contract start m plan placed seqs)
    (hladder : (plan.filter fun order => compare order.contract contract = .eq) = ladder) :
    Restored tick contract m ladder ↔ Standing (m.bookOf contract) placed := by
  have hscaled : List.Forall₂ (Scaled tick) ladder placed := hladder ▸ h.scaled
  constructor
  · intro hrestored
    have hlength : seqs.length = (m.seedsOf contract).length := by
      have hids := congrArg List.length h.ids
      have hlevels := hrestored.levels.length_eq
      have hplaced := hscaled.length_eq
      simp only [List.length_map] at hids hlevels
      omega
    have hseeds : m.seedsOf contract = seqs := h.tracked.eq_of_length hlength.symm
    have hlevels := hrestored.levels
    rw [hseeds, ← h.ids, List.forall₂_map_right_iff] at hlevels
    constructor
    · have hwhole : List.Forall₂ (fun (_ : SeedOrder) o =>
          Book.rests (m.bookOf contract) o.id = some o.resting) ladder placed := by
        refine List.Forall₂.mp ?_ hscaled hlevels
        rintro order o ⟨hside, hprice, hsize⟩ ⟨ticks, hticks, hrests⟩
        have hsame : o.price = ticks := by
          exact_mod_cast mul_right_cancel₀ htick.ne' (hprice.trans hticks.symm)
        rw [hrests, LimitOrder.resting, hside, hsame, hsize]
      intro o ho
      obtain ⟨_, -, hrests⟩ := Pointwise.exists_left hwhole ho
      exact hrests
    · intro i left hleft
      obtain ⟨seq, hseq, rfl⟩ := hrestored.alone i left hleft
      have hid : ObOrderId.Sequential seq ∈ placed.map LimitOrder.id := by
        rw [h.ids, ← hseeds]
        exact List.mem_map_of_mem hseq
      exact List.mem_map.1 hid
  · intro hstand
    -- an id that the next refresh does not cancel rests no more
    have hrests : seqs ⊆ m.seedsOf contract := by
      intro seq hseq
      by_contra hnot
      have hid : ObOrderId.Sequential seq ∈ placed.map LimitOrder.id := by
        rw [h.ids]
        exact List.mem_map_of_mem hseq
      obtain ⟨o, ho, hid⟩ := List.mem_map.1 hid
      have hwhole := hstand.whole o ho
      rw [hid, h.spent seq hseq hnot] at hwhole
      cases hwhole
    have hseeds : m.seedsOf contract = seqs :=
      h.tracked.eq_of_length_le (h.nodup.1.subperm hrests).length_le
    constructor
    · rw [hseeds, ← h.ids, List.forall₂_map_right_iff]
      refine Pointwise.imp_right hscaled fun order o ho hsame => ⟨o.price, hsame.price, ?_⟩
      rw [hstand.whole o ho, LimitOrder.resting, hsame.side, hsame.size]
    · intro i left hleft
      obtain ⟨o, ho, hid⟩ := hstand.only i left hleft
      have hmem : o.id ∈ seqs.map ObOrderId.Sequential := h.ids ▸ List.mem_map_of_mem ho
      obtain ⟨seq, hseq, hseqid⟩ := List.mem_map.1 hmem
      exact ⟨seq, hseeds ▸ hseq, by rw [← hid, hseqid]⟩

end Ladders

section Crossing

variable {tick : PriceCents} {ladder bids asks : List SeedOrder} {d o : SeedOrder}
  {placed : List (LimitOrder ObOrderId)}

/-- The later of two planned orders would trade with the earlier one. -/
def SeedsCross (d o : SeedOrder) : Prop :=
  d.isAsk ≠ o.isAsk ∧ if o.isAsk then o.price.value ≤ d.price.value
    else d.price.value ≤ o.price.value

theorem Scaled.crosses_iff {a b : LimitOrder ObOrderId} (htick : 0 < tick.value)
    (hd : Scaled tick d a) (ho : Scaled tick o b) : a.Crosses b ↔ SeedsCross d o := by
  have hscale : ∀ x y : Nat, x ≤ y ↔ (x : Int) * tick.value ≤ (y : Int) * tick.value := by
    intro x y
    rw [mul_le_mul_iff_left₀ htick]
    exact Nat.cast_le.symm
  unfold LimitOrder.Crosses SeedsCross
  rw [hd.side, ho.side, ← hd.price, ← ho.price]
  unfold bookSide
  cases d.isAsk <;> cases o.isAsk <;> simp [BookSide.opposite, BookSide.Accepts, hscale]

theorem placed_pairwise_iff (htick : 0 < tick.value)
    (h : List.Forall₂ (Scaled tick) ladder placed) :
    (placed.Pairwise fun a b => ¬ a.Crosses b) ↔ ladder.Pairwise fun d o => ¬ SeedsCross d o :=
  (Pointwise.pairwise_iff (fun _ _ _ _ hd ho => not_congr (hd.crosses_iff htick ho).symm) h).symm

variable [DecimalArith] {profile : LiquidityProfile} {contract : ContractKey} {quote : QuoteView}

/-- The ladders of a quote meet exactly when its bid is not below its ask. -/
theorem ladders_pairwise_iff (hbids : SideLadder profile contract quote false tick bids)
    (hasks : SideLadder profile contract quote true tick asks) :
    ((bids ++ asks).Pairwise fun d o => ¬ SeedsCross d o) ↔ quote.bid.value < quote.ask.value := by
  have hside : ∀ (isAsk : Bool) (orders : List SeedOrder), (∀ order ∈ orders, order.isAsk = isAsk) →
      orders.Pairwise fun d o => ¬ SeedsCross d o := by
    intro isAsk orders hsame
    refine List.pairwise_of_forall_mem_list fun d hd o ho hcross => hcross.1 ?_
    rw [hsame d hd, hsame o ho]
  have hbidSide : ∀ bid ∈ bids, bid.isAsk = false := fun bid hbid => (hbids.side bid hbid).2
  have haskSide : ∀ ask ∈ asks, ask.isAsk = true := fun ask hask => (hasks.side ask hask).2
  rw [List.pairwise_append]
  constructor
  · rintro ⟨-, -, happart⟩
    obtain ⟨bid, hbid, hbidPrice, -⟩ := hbids.touch
    obtain ⟨ask, hask, haskPrice, -⟩ := hasks.touch
    have hmem := List.mem_of_getElem? hbid
    have hmem' := List.mem_of_getElem? hask
    have hnot := happart bid hmem ask hmem'
    unfold SeedsCross at hnot
    rw [hbidSide bid hmem, haskSide ask hmem', hbidPrice, haskPrice] at hnot
    simpa using hnot
  · intro hlt
    refine ⟨hside _ _ hbidSide, hside _ _ haskSide, fun bid hbid ask hask hcross => ?_⟩
    obtain ⟨k, hk⟩ := List.getElem?_of_mem hbid
    obtain ⟨l, hl⟩ := List.getElem?_of_mem hask
    have hbelow : bid.price.value ≤ quote.bid.value := by simpa using hbids.away hk
    have habove : quote.ask.value ≤ ask.price.value := by simpa using hasks.away hl
    have hmet := hcross.2
    rw [haskSide ask hask, if_pos rfl] at hmet
    omega

end Crossing

section Refresh

variable [arith : DecimalArith] {profile : LiquidityProfile} {snap : ChainSnapshot}
  {tick : PriceCents} {contract : ContractKey} {quote : QuoteView} {plan : List SeedOrder}

/-- Both ladders of a quote, as the plan takes them. -/
def PlansLadders (tick : PriceCents) (profile : LiquidityProfile) (entry : ContractKey × QuoteView)
    (ladder : List SeedOrder × List SeedOrder) : Prop :=
  pushSideLadder entry.1 false tick profile entry.2 = .ok ladder.1 ∧
    pushSideLadder entry.1 true tick profile entry.2 = .ok ladder.2

theorem PlansLadders.contract_eq {entry : ContractKey × QuoteView}
    {ladder : List SeedOrder × List SeedOrder} (h : PlansLadders tick profile entry ladder) :
    ∀ order ∈ ladder.1 ++ ladder.2, order.contract = entry.1 :=
  List.forall_mem_append.2 ⟨fun order horder => (sideLadder_contract h.1 order horder).1,
    fun order horder => (sideLadder_contract h.2 order horder).1⟩

/-- Of a plan, the orders of one contract are its own ladders. -/
theorem ladders_filter {entries : List (ContractKey × QuoteView)}
    {ladders : List (List SeedOrder × List SeedOrder)}
    (h : List.Forall₂ (PlansLadders tick profile) entries ladders)
    (hkeys : entries.Pairwise fun entry later => compare entry.1 later.1 ≠ .eq)
    {entry : ContractKey × QuoteView} (hentry : entry ∈ entries) :
    ∃ ladder, PlansLadders tick profile entry ladder ∧
      ((ladders.flatMap fun ladder => ladder.1 ++ ladder.2).filter fun order =>
        compare order.contract entry.1 = .eq) = ladder.1 ++ ladder.2 := by
  induction h with
  | nil => cases hentry
  | @cons first ladder entries ladders hfirst hrest ih =>
    obtain ⟨hother, hkeys⟩ := List.pairwise_cons.1 hkeys
    rw [List.flatMap_cons, List.filter_append]
    rcases List.mem_cons.1 hentry with rfl | hentry
    · refine ⟨ladder, hfirst, ?_⟩
      rw [List.filter_eq_self.2, List.filter_eq_nil_iff.2, List.append_nil]
      · intro order horder heq
        obtain ⟨later, hlater, horder⟩ := List.mem_flatMap.1 horder
        obtain ⟨e, he, hplans⟩ := Pointwise.exists_left hrest hlater
        rw [hplans.contract_eq order horder] at heq
        exact hother e he (Std.OrientedCmp.eq_symm (of_decide_eq_true heq))
      · intro order horder
        rw [hfirst.contract_eq order horder]
        exact decide_eq_true Std.ReflCmp.compare_self
    · obtain ⟨mine, hmine, hfilter⟩ := ih hkeys hentry
      refine ⟨mine, hmine, ?_⟩
      rw [hfilter, List.filter_eq_nil_iff.2, List.nil_append]
      intro order horder heq
      rw [hfirst.contract_eq order horder] at heq
      exact hother entry hentry (of_decide_eq_true heq)

theorem planSeed_filter (hplan : planSeed snap profile = .ok plan)
    (hentry : (contract, quote) ∈ snap.quotes.toList) :
    ∃ ladder, PlansLadders snap.spec.tickSizeCents profile (contract, quote) ladder ∧
      (plan.filter fun order => compare order.contract contract = .eq) = ladder.1 ++ ladder.2 := by
  obtain ⟨_, -, hfold⟩ := bind_ok_iff.1 hplan
  obtain ⟨ladders, hladders, rfl⟩ := planContracts_ladders hfold
  rw [List.nil_append]
  refine ladders_filter hladders ?_ hentry
  exact Std.TreeMap.ordered_keys_toList.imp fun hlt heq => by cases hlt.symm.trans heq

variable {B : Type} [Book B ObOrderId] [PriceTimeBook B] {m m' : RealisticFill B}

/-- Reseeding restores the planned depth of a quoted contract exactly when its bid is below its ask
and nothing rests in its book but the seeds of the refresh before. -/
theorem reseeding_restores_depth [RoundedArith arith] (hprofile : profile.validate = .ok ())
    (hseeding : m.liquidityProfile = some profile) (hresident : Resident m)
    {carried : List (OrderId × Fill)}
    (hrefresh : m.refreshBooks snap = .ok (m', carried))
    (hentry : (contract, quote) ∈ snap.quotes.toList)
    (hgrid : quote.OnGrid snap.spec.tickSizeCents) :
    ∃ bids asks, pushSideLadder contract false snap.spec.tickSizeCents profile quote = .ok bids ∧
      pushSideLadder contract true snap.spec.tickSizeCents profile quote = .ok asks ∧
      (Restored snap.spec.tickSizeCents contract m' (bids ++ asks) ↔
        quote.bid.value < quote.ask.value ∧ m.SeedsAlone contract) := by
  unfold refreshBooks at hrefresh
  rw [hseeding] at hrefresh
  simp only [bind_ok_iff, require_eq_ok] at hrefresh
  obtain ⟨_, htick, cleared, hstale, plan, hplan, hreseed⟩ := hrefresh
  obtain ⟨⟨bids, asks⟩, ⟨hbids, hasks⟩, hladder⟩ := planSeed_filter hplan hentry
  refine ⟨bids, asks, hbids, hasks, ?_⟩
  have hquoted : snap.quotes.contains contract = true := by
    rw [Std.TreeMap.contains_eq_isSome_getElem?,
      Std.TreeMap.getElem?_eq_some_iff_exists_compare_eq_eq_and_mem_toList.2
        ⟨contract, Std.ReflCmp.compare_self, hentry⟩]
    rfl
  have hpositive : 0 < snap.spec.tickSizeCents.value := snap.spec.tickSizeCents_pos
  -- what the cancels leave was there before, under the maker counter as it still stands
  have hmaker : cleared.nextMakerId = m.nextMakerId := by
    obtain ⟨_, -, h⟩ := bind_ok_iff.1 hstale
    cases h
    rfl
  have hbefore : ∀ (i : ObOrderId) (left : Resting),
      Book.rests ((cleared.evictDeparted snap).bookOf contract) i = some left → 0 < left.size ∧
        ∃ seq, i = .Sequential seq ∧ seq < (cleared.evictDeparted snap).nextMakerId := by
    intro i left hleft
    obtain ⟨hsize, seq, hid, hlt⟩ :=
      hresident contract i left ((cleared_rests hstale hquoted i left).1 hleft).1
    exact ⟨hsize, seq, hid, hmaker.symm ▸ hlt⟩
  have hnone : (cleared.evictDeparted snap).seedsOf contract = [] := by
    have hcleared := (cancelStaleSeed_clears hstale).2 contract
    unfold seedsOf at hcleared ⊢
    simp only [evictDeparted, OrderedMap.getElem?_retain keeps_congr, hquoted, Bool.true_or,
      if_true]
    exact hcleared
  have hbelow := fun (i : ObOrderId) left hleft => (hbefore i left hleft).2
  obtain ⟨placed, seqs, h⟩ := reseed_placements hreseed hnone hbelow
  have hscaled : List.Forall₂ (Scaled snap.spec.tickSizeCents) (bids ++ asks) placed :=
    hladder ▸ h.scaled
  have hsizes : ∀ o ∈ placed, 0 < o.size := by
    intro o ho
    obtain ⟨order, -, hsame⟩ := Pointwise.exists_left hscaled ho
    have hpos := order.size.pos
    rw [hsame.size]
    omega
  rw [restored_iff_standing hpositive h hladder,
    placed_standing_iff h.run hsizes (fun i left hleft => (hbefore i left hleft).1)
      (h.unused hbelow) h.nodup.2,
    cleared_empty_iff hstale hquoted, placed_pairwise_iff hpositive hscaled,
    ladders_pairwise_iff (pushSideLadder_ladder hprofile hgrid hbids)
      (pushSideLadder_ladder hprofile hgrid hasks), and_comm]

end Refresh

section Residents

variable {B : Type} [Book B ObOrderId] [LawfulBook B] {m m' : RealisticFill B}

theorem bookOf_some {contract : ContractKey} {i : ObOrderId} {left : Resting}
    (h : Book.rests (m.bookOf contract) i = some left) :
    ∃ book, m.books[contract]? = some book ∧ Book.rests book i = some left := by
  unfold bookOf at h
  rcases hbook : m.books[contract]? with _ | book
  · rw [hbook, Option.getD_none, LawfulBook.rests_empty] at h
    cases h
  · rw [hbook] at h
    exact ⟨book, rfl, h⟩

/-- Between the calls of a run whatever rests was minted. -/
theorem Stocked.resident {profile : LiquidityProfile} (h : Stocked profile m) : Resident m := by
  intro contract i left hleft
  obtain ⟨book, hbook, hrests⟩ := bookOf_some hleft
  obtain ⟨hsize, seq, rfl, -⟩ := h.owned contract book i left hbook hrests
  refine ⟨hsize, seq, rfl, ?_⟩
  have hbelow := h.placed.below
  have hmakers := h.placed.makers
  rcases h.placed.minted contract book seq left hbook hrests with hlt | ⟨-, hlt⟩ <;> omega

/-- Where nothing of the strategy is tracked, the seeds are alone. -/
theorem Stocked.seedsAlone {profile : LiquidityProfile} (h : Stocked profile m)
    (hidle : ∀ seq : Nat, m.restingStrategy[seq]? = none) (contract : ContractKey) :
    m.SeedsAlone contract := by
  intro i left hleft
  obtain ⟨book, hbook, hrests⟩ := bookOf_some hleft
  obtain ⟨-, seq, rfl, hseed | ⟨order, horder, -⟩⟩ := h.owned contract book i left hbook hrests
  · exact ⟨seq, hseed, rfl⟩
  · rw [hidle seq] at horder
    cases horder

/-- Depth seeded by hand was minted as well; the refresh does not cancel it. -/
theorem seedMakerLimit_resident {contract : ContractKey} {isAsk : Bool} {price tick : PriceCents}
    {quantity : Quantity} (h : Resident m)
    (hseed : m.seedMakerLimit contract isAsk price quantity tick = .ok m') :
    Resident m' ∧ ∀ c, m'.seedsOf c = m.seedsOf c := by
  simp only [seedMakerLimit, bind_ok_iff, pure_ok_iff, orderBookError_eq_ok, Prod.exists] at hseed
  obtain ⟨ticks, -, x, seq, hnext, before, hleaf, book, result, hadd, rfl⟩ := hseed
  obtain ⟨rfl, rfl⟩ := nextMakerOrderId_eq_ok hnext
  refine ⟨fun c i left hleft => ?_, fun _ => rfl⟩
  change Book.rests ((m.books.insert contract book)[c]?.getD Book.empty) i = some left at hleft
  change 0 < left.size ∧ ∃ seq, i = .Sequential seq ∧ seq < m.nextMakerId + 1
  rw [Std.TreeMap.getElem?_insert] at hleft
  split_ifs at hleft with hc
  · rw [leafBook_eq_ok hleaf] at hadd
    have hfresh : Book.rests (m.bookOf contract) (.Sequential m.nextMakerId) = none := by
      refine Option.eq_none_iff_forall_ne_some.2 fun left hleft => ?_
      obtain ⟨-, seq, heq, hlt⟩ := h contract _ left hleft
      cases heq
      exact lt_irrefl _ hlt
    have hplace : place (m.bookOf contract) ⟨.Sequential m.nextMakerId,
        if isAsk then .Sell else .Buy, ticks, quantity.value.toNat⟩ = .ok book :=
      place_eq_ok.2 ⟨result, hadd⟩
    refine ⟨place_sizes hplace hfresh i left hleft, ?_⟩
    rcases rests_of_place hplace hleft with rfl | ⟨order, horder⟩
    · exact ⟨_, rfl, Nat.lt_succ_self _⟩
    · obtain ⟨-, seq, rfl, hlt⟩ := h contract i order horder
      exact ⟨seq, rfl, hlt.trans (Nat.lt_succ_self _)⟩
  · obtain ⟨hsize, seq, rfl, hlt⟩ := h c i left hleft
    exact ⟨hsize, seq, rfl, hlt.trans (Nat.lt_succ_self _)⟩

end Residents

section Small

open SmallMarket

/-- A model that seeds three contracts at the touch and fewer below it. -/
def halvingModel : RealisticFill (ReferenceBook ObOrderId) :=
  withLiquidityProfile ⟨lit 65, lit 100⟩ (lit 5) halvingProfile

/-- The first quote is seeded into an empty book. -/
theorem reseeding_restores_depth_small : ∃ m carried bids asks,
    halvingModel.refreshBooks firstStep = .ok (m, carried) ∧
    pushSideLadder call false firstStep.spec.tickSizeCents halvingProfile
      (quote call ⟨100, by decide⟩ ⟨105, by decide⟩ ⟨110, by decide⟩) = .ok bids ∧
    pushSideLadder call true firstStep.spec.tickSizeCents halvingProfile
      (quote call ⟨100, by decide⟩ ⟨105, by decide⟩ ⟨110, by decide⟩) = .ok asks ∧
    Restored firstStep.spec.tickSizeCents call m (bids ++ asks) := by
  have hrounded := SmallMarket.roundedArith
  obtain ⟨⟨m, carried⟩, hrefresh⟩ := exists_eq_ok
    (r := halvingModel.refreshBooks firstStep) (by decide +kernel)
  have hempty : ∀ (contract : ContractKey) (i : ObOrderId),
      Book.rests (halvingModel.bookOf contract) i = none := fun _ _ => rfl
  have hresident : Resident halvingModel := fun contract i left hleft => by
    rw [hempty] at hleft
    cases hleft
  have halone : halvingModel.SeedsAlone call := fun i left hleft => by
    rw [hempty] at hleft
    cases hleft
  have hentry : (call, quote call ⟨100, by decide⟩ ⟨105, by decide⟩ ⟨110, by decide⟩) ∈
      firstStep.quotes.toList := List.mem_cons_self
  obtain ⟨bids, asks, hbids, hasks, hrestored⟩ := reseeding_restores_depth (by decide) rfl hresident
    hrefresh hentry (by constructor <;> decide)
  exact ⟨m, carried, bids, asks, hrefresh, hbids, hasks, hrestored.2 ⟨by decide, halone⟩⟩

/-- A quote whose bid is its ask. -/
def lockedStep : ChainSnapshot :=
  fiveTick (lit 0) [quote call (lit 100) (lit 100) (lit 100)]

/-- The ask seeded at the touch takes the bid seeded there: neither rests. -/
theorem locked_touch_traded : ∃ m plan,
    (quote call ⟨100, by decide⟩ ⟨100, by decide⟩ ⟨100, by decide⟩).OnGrid
      lockedStep.spec.tickSizeCents ∧
    planSeed lockedStep halvingProfile = .ok plan ∧
    halvingModel.refreshBooks lockedStep = .ok (m, []) ∧
    plan.length = 6 ∧ (m.seedsOf call).length = 5 ∧
    ¬ Restored lockedStep.spec.tickSizeCents call m plan := by
  obtain ⟨⟨m, carried⟩, hrefresh, hcheck⟩ := exists_ok_of_check
    (r := halvingModel.refreshBooks lockedStep)
    (fun run => decide (run.2 = [] ∧ (run.1.seedsOf call).length = 5)) (by decide +kernel)
  obtain ⟨plan, hplan, hlength⟩ := exists_ok_of_check (r := planSeed lockedStep halvingProfile)
    (fun plan => decide (plan.length = 6)) (by decide +kernel)
  obtain ⟨rfl, hseeds⟩ := of_decide_eq_true hcheck
  refine ⟨m, plan, by constructor <;> decide, hplan, hrefresh, of_decide_eq_true hlength, hseeds,
    fun hrestored => ?_⟩
  have hlevels := hrestored.levels.length_eq
  rw [of_decide_eq_true hlength, List.length_map, hseeds] at hlevels
  cases hlevels

end Small

end IronCondor.RealisticFill
