import IronCondor.Execution.RealisticSteps

/-! # Where the strategy's orders rest

The model mints the ids of its books from two disjoint ranges, so an id it tracks rests only in
the book of its own order's contract, at the price it was placed with. -/
namespace IronCondor.RealisticFill

open Checked ExceptRun OrderBook

variable {B : Type} [Book B ObOrderId] {m m' : RealisticFill B} {snap : ChainSnapshot}

section Shelves

/-- `books'` holds nothing but what `books` holds, at the same prices, for the ids in `keep`. -/
def Thins (keep : Nat → Prop) (books books' : Std.TreeMap ContractKey B) : Prop :=
  ∀ (contract : ContractKey) (book' : B) (seq : Nat) (left : Resting), keep seq →
    books'[contract]? = some book' → Book.rests book' (.Sequential seq) = some left →
      ∃ (book : B) (order : Resting), books[contract]? = some book ∧
        Book.rests book (.Sequential seq) = some order ∧ order.price = left.price

variable {keep : Nat → Prop} {books books₁ books' : Std.TreeMap ContractKey B}

theorem Thins.refl : Thins keep books books := fun _ book _ left _ hbook hleft =>
  ⟨book, left, hbook, hleft, rfl⟩

theorem Thins.trans (h : Thins keep books books₁) (h' : Thins keep books₁ books') :
    Thins keep books books' := by
  intro contract book' seq left hseq hbook' hleft
  obtain ⟨book₁, order₁, hbook₁, horder₁, hprice₁⟩ := h' contract book' seq left hseq hbook' hleft
  obtain ⟨book, order, hbook, horder, hprice⟩ := h contract book₁ seq order₁ hseq hbook₁ horder₁
  exact ⟨book, order, hbook, horder, hprice.trans hprice₁⟩

/-- Replacing one book by a thinner one. -/
theorem Thins.insert {contract : ContractKey} {book' : B}
    (h : ∀ seq left, keep seq → Book.rests book' (.Sequential seq) = some left →
      ∃ (book : B) (order : Resting), books[contract]? = some book ∧
        Book.rests book (.Sequential seq) = some order ∧ order.price = left.price) :
    Thins keep books (books.insert contract book') := by
  intro c book seq left hseq hbook hleft
  rw [Std.TreeMap.getElem?_insert] at hbook
  split_ifs at hbook with hc
  · cases hbook
    rw [← Std.TreeMap.getElem?_congr hc]
    exact h seq left hseq hleft
  · exact ⟨book, left, hbook, hleft, rfl⟩

/-- `books'` rests nothing but what `books` rests, in the same books at the same sizes. -/
def Shrinks (books books' : Std.TreeMap ContractKey B) : Prop :=
  ∀ (contract : ContractKey) (book' : B) (i : ObOrderId) (left : Resting),
    books'[contract]? = some book' → Book.rests book' i = some left →
      ∃ book : B, books[contract]? = some book ∧ Book.rests book i = some left

theorem Shrinks.refl : Shrinks books books := fun _ book _ _ hbook hleft => ⟨book, hbook, hleft⟩

theorem Shrinks.trans (h : Shrinks books books₁) (h' : Shrinks books₁ books') :
    Shrinks books books' := by
  intro contract book' i left hbook' hleft
  obtain ⟨book₁, hbook₁, hleft₁⟩ := h' contract book' i left hbook' hleft
  exact h contract book₁ i left hbook₁ hleft₁

theorem Shrinks.thins (h : Shrinks books books') : Thins keep books books' := by
  intro contract book' seq left _ hbook' hleft
  obtain ⟨book, hbook, horder⟩ := h contract book' _ left hbook' hleft
  exact ⟨book, left, hbook, horder, rfl⟩

/-- Replacing one book by one that rests less. -/
theorem Shrinks.replace {contract : ContractKey} {book book' : B}
    (h : ∀ i left, Book.rests book' i = some left → Book.rests book i = some left) :
    Shrinks (books.insert contract book) (books.insert contract book') := by
  intro c found i left hfound hleft
  rw [Std.TreeMap.getElem?_insert] at hfound ⊢
  split_ifs at hfound ⊢ with hc
  · cases hfound
    exact ⟨book, rfl, h i left hleft⟩
  · exact ⟨found, hfound, hleft⟩

theorem Shrinks.insert {contract : ContractKey} {book book' : B}
    (hbook : books[contract]? = some book)
    (h : ∀ i left, Book.rests book' i = some left → Book.rests book i = some left) :
    Shrinks books (books.insert contract book') := by
  refine Shrinks.trans (fun c found i left hfound hleft => ⟨found, ?_, hleft⟩) (.replace h)
  rw [Std.TreeMap.getElem?_insert] at hfound
  split_ifs at hfound with hc
  · cases hfound
    rw [← Std.TreeMap.getElem?_congr hc]
    exact hbook
  · exact hfound

end Shelves

section Books

variable [LawfulBook B] {books books' : Std.TreeMap ContractKey B} {keep : Nat → Prop}

/-- What rests in a leaf book rests in the hierarchy: a new leaf is empty. -/
theorem leafBook_rests {contract : ContractKey} {book : B}
    (h : leafBook books contract = .ok book) {i : ObOrderId} {order : Resting}
    (horder : Book.rests book i = some order) : books[contract]? = some book := by
  unfold leafBook at h
  split at h
  · cases h
    assumption
  · obtain ⟨_, -, h⟩ := bind_ok_iff.1 h
    cases h
    rw [LawfulBook.rests_empty] at horder
    cases horder

theorem cancelInBook_shrinks {contract : ContractKey} {seq : Nat}
    (h : cancelInBook books contract seq = .ok books') : Shrinks books books' := by
  rcases cancelInBook_cases h with ⟨-, rfl⟩ | ⟨book, book', found, hbook, hcancel, rfl⟩
  · exact .refl
  · exact .insert hbook fun i left hleft => LawfulBook.rests_of_cancel hcancel hleft

omit [LawfulBook B] in
theorem cancelSeeds_cases {entry : ContractKey × List Nat}
    (h : cancelSeeds books entry = .ok books') :
    (books[entry.1]? = none ∧ books' = books) ∨
    ∃ book book', books[entry.1]? = some book ∧ books' = books.insert entry.1 book' ∧
      entry.2.foldlM (fun (book : B) (seq : Nat) => do
        let (book, _) ← orderBookError (Book.cancel book (ObOrderId.Sequential seq))
        return book) book = .ok book' := by
  unfold cancelSeeds at h
  split at h
  · rename_i hnone
    cases h
    exact .inl ⟨hnone, rfl⟩
  · rename_i book hbook
    obtain ⟨book', hfold, h⟩ := bind_ok_iff.1 h
    cases h
    exact .inr ⟨book, book', hbook, rfl, hfold⟩

theorem cancelSeeds_shrinks {entry : ContractKey × List Nat}
    (h : cancelSeeds books entry = .ok books') : Shrinks books books' := by
  rcases cancelSeeds_cases h with ⟨-, rfl⟩ | ⟨book, book', hbook, rfl, hfold⟩
  · exact .refl
  · refine .insert hbook fun i left hleft => ?_
    refine foldlM_invariant (fun b => ∀ left, Book.rests b i = some left →
      Book.rests book i = some left) ?_ (fun _ h => h) hfold left hleft
    intro b s b' hb hstep left hleft
    simp only [bind_ok_iff, orderBookError_eq_ok, pure_ok_iff, Prod.exists] at hstep
    obtain ⟨_, _, hcancel, rfl⟩ := hstep
    exact hb left (LawfulBook.rests_of_cancel hcancel hleft)

theorem cancelStaleSeed_shrinks (h : m.cancelStaleSeed = .ok m') : Shrinks m.books m'.books := by
  obtain ⟨books, hfold, h⟩ := bind_ok_iff.1 h
  cases h
  exact foldlM_invariant (Shrinks m.books)
    (fun _ _ _ hb hstep => hb.trans (cancelSeeds_shrinks hstep)) .refl hfold

omit [LawfulBook B] [Book B ObOrderId] in
/-- The contracts the refresh keeps, by key order. -/
theorem keeps_congr (j k : ContractKey) (hjk : compare j k = .eq) :
    (snap.quotes.contains j || m.liveOrders.contains j) =
      (snap.quotes.contains k || m.liveOrders.contains k) := by
  rw [Std.TreeMap.contains_congr hjk, Std.TreeMap.contains_congr hjk]

omit [LawfulBook B] in
theorem evictDeparted_shrinks : Shrinks m.books (m.evictDeparted snap).books := by
  intro contract book i left hbook hleft
  simp only [evictDeparted, OrderedMap.getElem?_retain keeps_congr] at hbook
  split_ifs at hbook
  exact ⟨book, hbook, hleft⟩

/-- A submitted order adds nothing but itself. -/
theorem addLimit_thins {contract : ContractKey} {book book' : B} {seq price quantity : Nat}
    {side : BookSide} {result : MatchResult ObOrderId}
    (hleaf : leafBook books contract = .ok book)
    (hadd : Book.addLimit book (.Sequential seq) side price quantity = .ok (book', result)) :
    Thins (· ≠ seq) books (books.insert contract book') := by
  refine .insert fun s left hs hleft => ?_
  obtain ⟨order, horder, hprice, -⟩ := LawfulBook.rests_of_addLimit hadd
    (show ObOrderId.Sequential s ≠ .Sequential seq from fun heq => hs (by injection heq)) hleft
  exact ⟨book, order, leafBook_rests hleaf horder, horder, hprice⟩

end Books

section Invariant

variable {keep : Nat → Prop}

/-- `m'` tracks nothing but what `m` tracks, for the ids in `keep`. -/
def Narrows (keep : Nat → Prop) (m m' : RealisticFill B) : Prop :=
  ∀ (seq : Nat) (order' : RestingStrategyOrder), keep seq →
    m'.restingStrategy[seq]? = some order' → ∃ order : RestingStrategyOrder,
      m.restingStrategy[seq]? = some order ∧ order.orderId = order'.orderId ∧
        order.contract = order'.contract ∧ order.side = order'.side

omit [Book B ObOrderId] in
theorem Narrows.refl : Narrows keep m m := fun _ order _ horder => ⟨order, horder, rfl, rfl, rfl⟩

omit [Book B ObOrderId] in
theorem Narrows.trans {m₁ : RealisticFill B} (h : Narrows keep m m₁) (h' : Narrows keep m₁ m') :
    Narrows keep m m' := by
  intro seq order' hseq horder'
  obtain ⟨order₁, horder₁, hid₁, hc₁, hs₁⟩ := h' seq order' hseq horder'
  obtain ⟨order, horder, hid, hc, hs⟩ := h seq order₁ hseq horder₁
  exact ⟨order, horder, hid.trans hid₁, hc.trans hc₁, hs.trans hs₁⟩

/-- The two id ranges never meet, and a tracked order that rests in a book rests in the book of
its own contract, at a price of which `R` holds. -/
structure Placed (R : OrderId → ContractKey → Side → Nat → Prop) (m : RealisticFill B) : Prop where
  below : m.nextStrategyId ≤ makerIdBase
  makers : makerIdBase ≤ m.nextMakerId
  tracked : ∀ (seq : Nat) (order : RestingStrategyOrder), m.restingStrategy[seq]? = some order →
    seq < m.nextStrategyId
  minted : ∀ (contract : ContractKey) (book : B) (seq : Nat) (left : Resting),
    m.books[contract]? = some book → Book.rests book (.Sequential seq) = some left →
      seq < m.nextStrategyId ∨ makerIdBase ≤ seq ∧ seq < m.nextMakerId
  placed : ∀ (contract : ContractKey) (book : B) (seq : Nat) (left : Resting)
    (order : RestingStrategyOrder), m.books[contract]? = some book →
      Book.rests book (.Sequential seq) = some left → m.restingStrategy[seq]? = some order →
        compare contract order.contract = .eq ∧
          R order.orderId order.contract order.side left.price

namespace Placed

variable {R R' : OrderId → ContractKey → Side → Nat → Prop} {keep : Nat → Prop}

theorem mono (h : Placed R m) (hR : ∀ orderId contract side price,
    R orderId contract side price → R' orderId contract side price) : Placed R' m :=
  { h with placed := fun contract book seq left order hbook hleft horder =>
      (h.placed contract book seq left order hbook hleft horder).imp_right (hR _ _ _ _) }

/-- What an operation has to show: the ids in `keep` are thinned, and the others are in range and
placed. -/
theorem step (h : Placed R m) (hthins : Thins keep m.books m'.books)
    (hstrategy : m.nextStrategyId ≤ m'.nextStrategyId) (hbelow : m'.nextStrategyId ≤ makerIdBase)
    (hmaker : m.nextMakerId ≤ m'.nextMakerId)
    (hkept : Narrows keep m m')
    (hrange : ∀ seq, ¬ keep seq →
      seq < m'.nextStrategyId ∨ makerIdBase ≤ seq ∧ seq < m'.nextMakerId)
    (hnew : ∀ (seq : Nat) (order : RestingStrategyOrder), ¬ keep seq →
      m'.restingStrategy[seq]? = some order → seq < m'.nextStrategyId ∧
        ∀ (contract : ContractKey) (book : B) (left : Resting), m'.books[contract]? = some book →
          Book.rests book (.Sequential seq) = some left →
            compare contract order.contract = .eq ∧
              R order.orderId order.contract order.side left.price) : Placed R m' where
  below := hbelow
  makers := h.makers.trans hmaker
  tracked seq order horder := by
    by_cases hseq : keep seq
    · obtain ⟨old, hold, -⟩ := hkept seq order hseq horder
      exact (h.tracked seq old hold).trans_le hstrategy
    · exact (hnew seq order hseq horder).1
  minted contract book seq left hbook hleft := by
    by_cases hseq : keep seq
    · obtain ⟨book₀, left₀, hbook₀, hleft₀, -⟩ := hthins contract book seq left hseq hbook hleft
      rcases h.minted contract book₀ seq left₀ hbook₀ hleft₀ with hlt | ⟨hge, hlt⟩
      · exact .inl (hlt.trans_le hstrategy)
      · exact .inr ⟨hge, hlt.trans_le hmaker⟩
    · exact hrange seq hseq
  placed contract book seq left order hbook hleft horder := by
    by_cases hseq : keep seq
    · obtain ⟨book₀, left₀, hbook₀, hleft₀, hprice⟩ :=
        hthins contract book seq left hseq hbook hleft
      obtain ⟨old, hold, hid, hcontract, hside⟩ := hkept seq order hseq horder
      have hplaced := h.placed contract book₀ seq left₀ old hbook₀ hleft₀ hold
      rwa [hid, hcontract, hside, hprice] at hplaced
    · exact (hnew seq order hseq horder).2 contract book left hbook hleft

/-- An operation that mints nothing. -/
theorem narrow (h : Placed R m) (hthins : Thins (fun _ => True) m.books m'.books)
    (hstrategy : m'.nextStrategyId = m.nextStrategyId) (hmaker : m'.nextMakerId = m.nextMakerId)
    (hkept : Narrows (fun _ => True) m m') : Placed R m' :=
  h.step hthins hstrategy.ge (hstrategy ▸ h.below) hmaker.ge hkept
    (fun _ hseq => (hseq trivial).elim) (fun _ _ hseq => (hseq trivial).elim)

/-- The next maker id rests nowhere. -/
theorem maker_fresh [LawfulBook B] (h : Placed R m) {contract : ContractKey} {book : B}
    (hleaf : leafBook m.books contract = .ok book) :
    Book.rests book (.Sequential m.nextMakerId) = none := by
  refine Option.eq_none_iff_forall_ne_some.2 fun left hleft => ?_
  have hbelow := h.below.trans h.makers
  rcases h.minted contract book _ left (leafBook_rests hleaf hleft) hleft with hlt | ⟨-, hlt⟩
  · exact absurd (hlt.trans_le hbelow) (lt_irrefl _)
  · exact lt_irrefl _ hlt

/-- The next strategy id rests nowhere, in any book. -/
theorem strategy_unused (h : Placed R m) (hlt : m.nextStrategyId < makerIdBase)
    (contract : ContractKey) (book : B) (left : Resting) (hbook : m.books[contract]? = some book) :
    Book.rests book (.Sequential m.nextStrategyId) ≠ some left := by
  intro hleft
  rcases h.minted contract book _ left hbook hleft with hlt' | ⟨hge, -⟩
  · exact lt_irrefl _ hlt'
  · exact absurd hlt (not_lt.2 hge)

theorem strategy_fresh [LawfulBook B] (h : Placed R m) (hlt : m.nextStrategyId < makerIdBase)
    {contract : ContractKey} {book : B} (hleaf : leafBook m.books contract = .ok book) :
    Book.rests book (.Sequential m.nextStrategyId) = none :=
  Option.eq_none_iff_forall_ne_some.2 fun left hleft =>
    h.strategy_unused hlt contract book left (leafBook_rests hleaf hleft) hleft

end Placed

variable {R : OrderId → ContractKey → Side → Nat → Prop}

/-- A refresh fill of an order `m` tracks, at the price the order was placed with. -/
def Refilled (R : OrderId → ContractKey → Side → Nat → Prop) (m : RealisticFill B)
    (tick : PriceCents) (e : OrderId × Fill) : Prop :=
  ∃ (contract : ContractKey) (price : Nat), m.Tracks e.1 contract e.2.side ∧
    compare e.2.contract contract = .eq ∧ R e.1 contract e.2.side price ∧
    e.2.price.value = price * tick.value

omit [Book B ObOrderId] in
theorem Refilled.widen {m₁ : RealisticFill B} {tick : PriceCents} {e : OrderId × Fill}
    (hnarrow : Narrows (fun _ => True) m m₁) (h : Refilled R m₁ tick e) : Refilled R m tick e := by
  obtain ⟨contract, price, ⟨seq, order, horder, hid, hc, hs⟩, hrest⟩ := h
  obtain ⟨old, hold, hid', hc', hs'⟩ := hnarrow seq order trivial horder
  exact ⟨contract, price, ⟨seq, old, hold, hid'.trans hid, hc'.trans hc, hs'.trans hs⟩, hrest⟩

omit [Book B ObOrderId] in
theorem afterRefresh_narrows {seq quantity : Nat} {order : RestingStrategyOrder}
    {groups : List CarryGroup} {live : Std.TreeMap ContractKey Nat}
    (horder : m.restingStrategy[seq]? = some order) :
    Narrows keep m (m.afterRefresh seq order quantity groups live) := by
  intro seq' order' _ horder'
  simp only [afterRefresh] at horder'
  split_ifs at horder'
  · rw [OrderedMap.getElem?_erase, OrderedMap.getElem?_insert] at horder'
    split_ifs at horder'
    exact ⟨order', horder', rfl, rfl, rfl⟩
  · rw [OrderedMap.getElem?_insert] at horder'
    split_ifs at horder' with hseq
    · cases horder'
      exact ⟨order, hseq ▸ horder, rfl, rfl, rfl⟩
    · exact ⟨order', horder', rfl, rfl, rfl⟩

/-- The trades of a reseed order hit tracked orders only where and as they were placed. -/
def TradesPlaced (R : OrderId → ContractKey → Side → Nat → Prop) (m : RealisticFill B)
    (contract : ContractKey) (trades : List (Trade ObOrderId)) : Prop :=
  ∀ trade ∈ trades, ∀ (seq : Nat) (order : RestingStrategyOrder), trade.maker = .Sequential seq →
    m.restingStrategy[seq]? = some order → compare contract order.contract = .eq ∧
      R order.orderId order.contract order.side trade.price

/-- Capturing the trades of one reseed order. -/
theorem captureTrades_placed {contract : ContractKey} {tick : PriceCents}
    {out out' : List (OrderId × Fill)} {trades : List (Trade ObOrderId)} (h : Placed R m)
    (htrades : TradesPlaced R m contract trades)
    (hcapture : trades.foldlM (captureTrade contract tick snap) (m, out) = .ok (m', out')) :
    Placed R m' ∧ Narrows (fun _ => True) m m' ∧ m'.nextMakerId = m.nextMakerId ∧
      ∃ carried, out' = out ++ carried ∧ ∀ e ∈ carried, Refilled R m tick e := by
  refine foldlM_invariant_mem (fun acc => Placed R acc.1 ∧ Narrows (fun _ => True) m acc.1 ∧
    acc.1.nextMakerId = m.nextMakerId ∧
    ∃ carried, acc.2 = out ++ carried ∧ ∀ e ∈ carried, Refilled R m tick e) ?_
    ⟨h, .refl, rfl, [], by simp, List.forall_mem_nil _⟩ hcapture
  rintro ⟨x, xs⟩ trade ⟨y, ys⟩ htrade ⟨hx, hnarrow, hmaker, carried, rfl, hcarried⟩ hstep
  obtain ⟨mine, hfill, rfl⟩ := captureTrade_eq_ok hstep
  rcases captureRefreshFill_cases hfill with ⟨rfl, rfl, -⟩ |
    ⟨seq, order, fill, groups, live, hseq, horder, rfl, -, -, hcontract, hside, -, hprice, -, -, rfl⟩
  · exact ⟨hx, hnarrow, hmaker, carried, by simp, hcarried⟩
  obtain ⟨old, hold, hid, hc, hs⟩ := hnarrow seq order trivial horder
  obtain ⟨hplace, hR⟩ := htrades trade htrade seq old hseq hold
  refine ⟨hx.narrow .refl rfl rfl (afterRefresh_narrows horder),
    hnarrow.trans (afterRefresh_narrows horder), hmaker, carried ++ [(order.orderId, fill)],
    by simp, List.forall_mem_append.2 ⟨hcarried, List.forall_mem_singleton.2 ?_⟩⟩
  refine ⟨old.contract, trade.price, ⟨seq, old, hold, hid, rfl, hs.trans hside.symm⟩, ?_, ?_, hprice⟩
  · rw [hcontract]
    exact hplace
  · rwa [hid, hs, ← hside] at hR

end Invariant

section Calls

variable [LawfulBook B] {R : OrderId → ContractKey → Side → Nat → Prop}

/-- One seed order: the makers it hits rest in its own book. -/
theorem reseedOrder_placed {tick : PriceCents} {order : SeedOrder} {out out' : List (OrderId × Fill)}
    (h : Placed R m) (hstep : reseedOrder snap tick (m, out) order = .ok (m', out')) :
    Placed R m' ∧ Narrows (fun _ => True) m m' ∧
      ∃ carried, out' = out ++ carried ∧ ∀ e ∈ carried, Refilled R m tick e := by
  obtain ⟨ticks, book, book', result, captured, -, hleaf, hadd, hcapture, rfl⟩ :=
    reseedOrder_eq_ok hstep
  have huntracked : ∀ tracked, m.restingStrategy[m.nextMakerId]? ≠ some tracked := by
    intro tracked htracked
    exact absurd ((h.tracked _ _ htracked).trans_le (h.below.trans h.makers)) (lt_irrefl _)
  have hseeded : Placed R (m.afterSeed order.contract book') := by
    refine h.step (addLimit_thins hleaf hadd) le_rfl h.below (Nat.le_succ _) .refl ?_ ?_
    · intro seq hseq
      rw [not_not.1 hseq]
      exact .inr ⟨h.makers, Nat.lt_succ_self _⟩
    · intro seq tracked hseq htracked
      exact absurd htracked (not_not.1 hseq ▸ huntracked tracked)
  have htrades : TradesPlaced R (m.afterSeed order.contract book') order.contract result.trades := by
    intro trade htrade seq tracked hmaker htracked
    obtain ⟨left, hleft, -, hprice, -⟩ := LawfulBook.trade_maker hadd htrade
    rw [hmaker] at hleft
    rw [← hprice]
    exact h.placed _ book seq left tracked (leafBook_rests hleaf hleft) hleft htracked
  obtain ⟨hplaced, hnarrow, -, carried, hout, hcarried⟩ :=
    captureTrades_placed hseeded htrades hcapture
  exact ⟨⟨hplaced.below, hplaced.makers, hplaced.tracked, hplaced.minted, hplaced.placed⟩, hnarrow,
    carried, hout, hcarried⟩

theorem refreshBooks_placed [DecimalArith] {carried : List (OrderId × Fill)} (h : Placed R m)
    (hrefresh : m.refreshBooks snap = .ok (m', carried)) :
    Placed R m' ∧ Narrows (fun _ => True) m m' ∧
      ∀ e ∈ carried, Refilled R m snap.spec.tickSizeCents e := by
  unfold refreshBooks at hrefresh
  split at hrefresh
  · cases hrefresh
    exact ⟨h, .refl, List.forall_mem_nil _⟩
  · simp only [bind_ok_iff] at hrefresh
    obtain ⟨_, -, m₁, hstale, plan, -, hreseed⟩ := hrefresh
    have hthins : Thins (fun _ => True) m.books (m₁.evictDeparted snap).books :=
      ((cancelStaleSeed_shrinks hstale).trans evictDeparted_shrinks).thins
    obtain ⟨books, -, h₁⟩ := bind_ok_iff.1 hstale
    cases h₁
    have hstart := h.narrow hthins rfl rfl .refl
    refine foldlM_invariant (fun acc => Placed R acc.1 ∧ Narrows (fun _ => True) m acc.1 ∧
      ∀ e ∈ acc.2, Refilled R m snap.spec.tickSizeCents e) ?_ ⟨hstart, .refl, List.forall_mem_nil _⟩
      hreseed
    rintro ⟨x, xs⟩ order ⟨y, ys⟩ ⟨hx, hnarrow, hxs⟩ hstep
    obtain ⟨hy, hnarrow', mine, rfl, hmine⟩ := reseedOrder_placed hx hstep
    exact ⟨hy, hnarrow.trans hnarrow', List.forall_mem_append.2
      ⟨hxs, fun e he => (hmine e he).widen hnarrow⟩⟩

theorem cancelCommand_placed {cmd : OrderCommand} (h : Placed R m)
    (hcancel : m.cancelCommand cmd = .ok m') : Placed R m' := by
  unfold cancelCommand at hcancel
  split at hcancel
  · rcases cancelResting_cases hcancel with ⟨-, rfl⟩ | ⟨_, -, -, rfl⟩ |
      ⟨seq, order, books, live, -, -, hbooks, rfl⟩
    · exact h
    · exact ⟨h.below, h.makers, h.tracked, h.minted, h.placed⟩
    · refine h.narrow (cancelInBook_shrinks hbooks).thins rfl rfl fun seq' order' _ horder' => ?_
      simp only [afterCancel, OrderedMap.getElem?_erase] at horder'
      split_ifs at horder'
      exact ⟨order', horder', rfl, rfl, rfl⟩
  · cases hcancel
    exact h

/-- What a submitted order's limit says of the price it is placed at. -/
def LimitTicks (intent : OrderIntent) (tick : PriceCents) (ticks : Nat) : Prop :=
  ∀ limit, intent.limit = some limit → (ticks : Int) * tick.value = limit.value

omit [LawfulBook B] in
theorem Submitted.limitTicks {intent : OrderIntent} {orderId : OrderId} {fills : List Fill}
    {limit : PriceCents} {ticks : Nat} {before after : B} {result : MatchResult ObOrderId}
    (h : Submitted m intent orderId snap m' fills limit ticks before after result) :
    LimitTicks intent snap.spec.tickSizeCents ticks := by
  intro own hown
  have hlimit := h.limit_eq
  unfold limitCents at hlimit
  rw [hown] at hlimit
  cases hlimit
  exact (centsToTicks_eq_ok h.ticks_eq).2

theorem cancelRemainder_thins {books : Std.TreeMap ContractKey B} {contract : ContractKey}
    {book after : B} {seq remaining : Nat} {tif : TimeInForce}
    (hbook : Thins (· ≠ seq) books (books.insert contract book))
    (h : cancelRemainder book seq tif remaining = .ok after) :
    Thins (· ≠ seq) books (books.insert contract after) := by
  rcases cancelRemainder_eq_ok h with ⟨-, rfl⟩ | ⟨_, -, hcancel⟩
  · exact hbook
  · refine .insert fun s left hs hleft => ?_
    exact hbook contract book s left hs (by simp) (LawfulBook.rests_of_cancel hcancel hleft)

/-- A routed intent is placed in its own contract's book, at its own limit. -/
theorem fillSubmit_placed {intent : OrderIntent} {orderId : OrderId} {fills : List Fill}
    (h : Placed R m)
    (hR : ∀ ticks, LimitTicks intent snap.spec.tickSizeCents ticks →
      R orderId intent.contract intent.side ticks)
    (hsubmit : m.fillSubmit intent orderId snap = .ok (m', fills)) : Placed R m' := by
  obtain ⟨limit, ticks, before, after, result, hsubmitted⟩ := fillSubmit_eq_ok hsubmit
  obtain ⟨book, hadd, hafter⟩ := hsubmitted.matched
  have hlt := hsubmitted.strategyId
  have hthins := cancelRemainder_thins (addLimit_thins hsubmitted.leaf hadd) hafter
  have hunused := h.strategy_unused hlt
  have hfresh := h.strategy_fresh hlt hsubmitted.leaf
  have huntracked : ∀ order, m.restingStrategy[m.nextStrategyId]? ≠ some order :=
    fun order horder => lt_irrefl _ (h.tracked _ order horder)
  have htracked := hsubmitted.tracked
  split_ifs at htracked with hgtc
  · obtain ⟨live, rfl⟩ := trackResting_eq_ok htracked
    obtain rfl : after = book := by
      rcases cancelRemainder_eq_ok hafter with ⟨-, rfl⟩ | ⟨_, hioc, -⟩
      · rfl
      · rw [hgtc.1] at hioc
        cases hioc
    refine h.step hthins (Nat.le_succ _) hlt le_rfl ?_ ?_ ?_
    · intro seq order' hseq horder'
      rw [OrderedMap.getElem?_insert, if_neg hseq] at horder'
      exact ⟨order', horder', rfl, rfl, rfl⟩
    · intro seq hseq
      rw [not_not.1 hseq]
      exact .inl (Nat.lt_succ_self _)
    · intro seq order hseq horder
      obtain rfl := not_not.1 hseq
      rw [OrderedMap.getElem?_insert, if_pos rfl] at horder
      cases horder
      refine ⟨Nat.lt_succ_self _, fun contract b left hb hleft => ?_⟩
      change (m.books.insert intent.contract after)[contract]? = some b at hb
      rw [Std.TreeMap.getElem?_insert] at hb
      split_ifs at hb with hcontract
      · cases hb
        rw [LawfulBook.addLimit_self hfresh hadd, if_neg hgtc.2.ne'] at hleft
        cases hleft
        exact ⟨Std.OrientedCmp.eq_symm hcontract, hR ticks hsubmitted.limitTicks⟩
      · exact absurd hleft (hunused contract b left hb)
  · subst htracked
    refine h.step hthins (Nat.le_succ _) hlt le_rfl .refl ?_ ?_
    · intro seq hseq
      rw [not_not.1 hseq]
      exact .inl (Nat.lt_succ_self _)
    · intro seq order hseq horder
      exact absurd horder (not_not.1 hseq ▸ huntracked order)

end Calls

end IronCondor.RealisticFill
