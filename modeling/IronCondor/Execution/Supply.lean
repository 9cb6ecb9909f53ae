import IronCondor.Execution.Stock

/-! # The displayed depth of one call

A call seeds the ladder of its snapshot and trades against nothing else. What its fills take
from a side of a book and what is left of the seeds there never exceed what the ladder planned
for that side. -/
namespace IronCondor.RealisticFill

open Checked ExceptRun OrderBook

variable {B : Type} [Book B ObOrderId] {m m' : RealisticFill B} {snap : ChainSnapshot}

/-- The book side a planned seed rests on. -/
def bookSide (order : SeedOrder) : BookSide := if order.isAsk then .Sell else .Buy

/-- The total size a plan seeds on one side of a contract. -/
def plannedOn (contract : ContractKey) (side : BookSide) (plan : List SeedOrder) : Nat :=
  ((plan.filter fun order => compare order.contract contract = .eq ∧ bookSide order = side).map
    fun order => order.size.value.toNat).sum

/-- A fill takes from the side of the book its own trade is on the other side of. -/
def takesFrom (contract : ContractKey) (side : BookSide) (fill : Fill) : Prop :=
  compare fill.contract contract = .eq ∧ (obSide fill.side).opposite = side

instance (contract : ContractKey) (side : BookSide) (fill : Fill) :
    Decidable (takesFrom contract side fill) :=
  inferInstanceAs (Decidable (_ ∧ _))

/-- The quantity some fills take from one side of a contract's book. -/
def takenOn (contract : ContractKey) (side : BookSide) (fills : List Fill) : Nat :=
  ((fills.filter fun fill => takesFrom contract side fill).map
    fun fill => fill.quantity.value.toNat).sum

/-- The size of an order on one side. -/
def sizeOn (side : BookSide) : Option Resting → Nat
  | some left => if left.side = side then left.size else 0
  | none => 0

/-- What rests of a seed on one side of a contract's book. -/
def seedSize (books : Std.TreeMap ContractKey B) (contract : ContractKey) (side : BookSide)
    (seq : Nat) : Nat :=
  sizeOn side (books[contract]?.bind fun book => Book.rests book (ObOrderId.Sequential seq))

/-- What rests of the seeds on one side of a contract's book. -/
def supply (m : RealisticFill B) (contract : ContractKey) (side : BookSide) : Nat :=
  ((m.seedsOf contract).map (seedSize m.books contract side)).sum

section Sums

variable {contract : ContractKey} {side : BookSide}

theorem takenOn_append (fills fills' : List Fill) :
    takenOn contract side (fills ++ fills') =
      takenOn contract side fills + takenOn contract side fills' := by
  simp [takenOn]

theorem takenOn_none {fills : List Fill} (h : ∀ fill ∈ fills, ¬ takesFrom contract side fill) :
    takenOn contract side fills = 0 := by
  rw [takenOn, List.filter_eq_nil_iff.2 fun fill hfill htakes =>
    h fill hfill (of_decide_eq_true htakes)]
  rfl

theorem takenOn_le (fills : List Fill) :
    takenOn contract side fills ≤ (fills.map fun fill => fill.quantity.value.toNat).sum := by
  exact (List.filter_sublist.map _).sum_le_sum fun _ _ => Nat.zero_le _

theorem plannedOn_concat (plan : List SeedOrder) (order : SeedOrder) :
    plannedOn contract side (plan ++ [order]) = plannedOn contract side plan +
      if compare order.contract contract = .eq ∧ bookSide order = side then
        order.size.value.toNat else 0 := by
  unfold plannedOn
  rw [List.filter_append, List.map_append, List.sum_append, List.filter_singleton]
  split_ifs with h <;> simp [h]

theorem owed_none {trades : List (Trade ObOrderId)} {seq : Nat}
    (h : ∀ trade ∈ trades, trade.maker ≠ .Sequential seq) : owed trades seq = 0 := by
  rw [owed, List.filter_eq_nil_iff.2 fun trade htrade hmaker =>
    h trade htrade (of_decide_eq_true hmaker)]
  rfl

/-- Trades whose makers are all in a list take no more than what they take from each of it. -/
theorem traded_le_owed {trades : List (Trade ObOrderId)} {ids : List Nat}
    (h : ∀ trade ∈ trades, ∃ seq ∈ ids, trade.maker = .Sequential seq) :
    (trades.map Trade.quantity).sum ≤ (ids.map (owed trades)).sum := by
  induction trades with
  | nil => exact Nat.zero_le _
  | cons trade trades ih =>
    obtain ⟨⟨seq, hseq, hmaker⟩, hrest⟩ := List.forall_mem_cons.1 h
    have hown : trade.quantity ≤
        (ids.map fun s => if trade.maker = .Sequential s then trade.quantity else 0).sum := by
      refine le_trans ?_ (List.single_le_sum (fun _ _ => Nat.zero_le _) _
        (List.mem_map_of_mem hseq))
      rw [if_pos hmaker]
    have hsplit : (ids.map (owed (trade :: trades))).sum =
        (ids.map fun s => if trade.maker = .Sequential s then trade.quantity else 0).sum +
          (ids.map (owed trades)).sum := by
      rw [← List.sum_map_add]
      exact congrArg List.sum (List.map_congr_left fun s _ => owed_cons s)
    rw [List.map_cons, List.sum_cons, hsplit]
    exact Nat.add_le_add hown (ih hrest)

end Sums

section Supply

variable {books books' : Std.TreeMap ContractKey B} {contract c : ContractKey} {side d : BookSide}
  {seq seq' price quantity : Nat} {book book' : B} {result : MatchResult ObOrderId}

omit [Book B ObOrderId] in
theorem sizeOn_after {order : Resting} {matched : Nat} (h : matched ≤ order.size) :
    sizeOn d (order.after matched) + (if order.side = d then matched else 0) ≤
      sizeOn d (some order) := by
  unfold Resting.after sizeOn
  by_cases hside : order.side = d
  · rw [if_pos hside]
    split_ifs <;> simp [hside] <;> omega
  · rw [if_neg hside]
    split_ifs <;> simp [hside]

theorem seedSize_shrinks (h : Shrinks books books') :
    seedSize books' contract d seq ≤ seedSize books contract d seq := by
  unfold seedSize
  rcases hbook' : books'[contract]? with _ | found
  · exact Nat.zero_le _
  rcases hleft : Book.rests found (ObOrderId.Sequential seq) with _ | left
  · rw [Option.bind_some, hleft]
    exact Nat.zero_le _
  · obtain ⟨before, hbook, hrests⟩ := h contract found _ left hbook' hleft
    rw [hbook, Option.bind_some, Option.bind_some, hleft, hrests]

/-- A submitted order takes from every seed of the other side no more than it loses. -/
theorem seedSize_addLimit [BoundsMakers B] (hleaf : leafBook books contract = .ok book)
    (hadd : Book.addLimit book (.Sequential seq') side price quantity = .ok (book', result))
    (hne : seq ≠ seq') (hc : compare contract c = .eq) :
    seedSize (books.insert contract book') c d seq +
      (if d = side.opposite then owed result.trades seq else 0) ≤ seedSize books c d seq := by
  have hother : (ObOrderId.Sequential seq) ≠ .Sequential seq' :=
    fun heq => hne (by injection heq)
  have hafter := LawfulBook.addLimit_others hadd hother
  have hmaker : ∀ trade ∈ result.trades, trade.maker = .Sequential seq → ∃ order,
      Book.rests book (ObOrderId.Sequential seq) = some order ∧ order.side = side.opposite := by
    intro trade htrade hmaker
    obtain ⟨order, horder, hside, -⟩ := LawfulBook.trade_maker hadd htrade
    exact ⟨order, hmaker ▸ horder, hside⟩
  unfold seedSize
  rw [Std.TreeMap.getElem?_insert, if_pos hc, Option.bind_some, hafter]
  rcases horder : Book.rests book (ObOrderId.Sequential seq) with _ | order
  · have hnone : owed result.trades seq = 0 := owed_none fun trade htrade heq => by
      obtain ⟨order, hsome, -⟩ := hmaker trade htrade heq
      cases horder.symm.trans hsome
    rw [hnone, ite_self]
    exact Nat.zero_le _
  · have hbook := (Std.TreeMap.getElem?_congr hc).symm.trans (leafBook_rests hleaf horder)
    rw [Option.bind_some, hbook, Option.bind_some, horder]
    refine le_trans (Nat.add_le_add_left ?_ _) (sizeOn_after (BoundsMakers.matched_le hadd horder))
    change _ ≤ if order.side = d then owed result.trades seq else 0
    by_cases hside : order.side = d
    · rw [if_pos hside]
      split_ifs
      · exact le_rfl
      · exact Nat.zero_le _
    · have hnone : (if d = side.opposite then owed result.trades seq else 0) = 0 := by
        split_ifs with hd
        · refine owed_none fun trade htrade heq => ?_
          obtain ⟨found, hfound, hfside⟩ := hmaker trade htrade heq
          cases horder.symm.trans hfound
          exact hside (hfside.trans hd.symm)
        · rfl
      rw [hnone]
      exact Nat.zero_le _

omit [Book B ObOrderId] in
theorem opposite_opposite (d : BookSide) : d.opposite.opposite = d := by cases d <;> rfl

/-- A submitted order takes from the seeds of the other side no more than they lose. -/
theorem seeds_addLimit [BoundsMakers B] {ids : List Nat}
    (hleaf : leafBook books contract = .ok book)
    (hadd : Book.addLimit book (.Sequential seq') side price quantity = .ok (book', result))
    (hne : ∀ seq ∈ ids, seq ≠ seq') :
    (ids.map (seedSize (books.insert contract book') c d)).sum +
      (if compare contract c = .eq ∧ d = side.opposite then (ids.map (owed result.trades)).sum
        else 0) ≤ (ids.map (seedSize books c d)).sum := by
  by_cases hc : compare contract c = .eq
  · have hpoint : ∀ seq ∈ ids, seedSize (books.insert contract book') c d seq +
        (if d = side.opposite then owed result.trades seq else 0) ≤ seedSize books c d seq :=
      fun seq hseq => seedSize_addLimit hleaf hadd (hne seq hseq) hc
    have hsum := List.sum_le_sum hpoint
    rw [List.sum_map_add] at hsum
    refine le_trans (Nat.add_le_add_left ?_ _) hsum
    split_ifs with hboth hd hd
    · exact le_rfl
    · exact absurd hboth.2 hd
    · exact absurd ⟨hc, hd⟩ hboth
    · exact Nat.zero_le _
  · have hsame : ∀ seq, seedSize (books.insert contract book') c d seq = seedSize books c d seq := by
      intro seq
      unfold seedSize
      rw [Std.TreeMap.getElem?_insert, if_neg hc]
    rw [if_neg (fun h => hc h.1), Nat.add_zero, funext hsame]

end Supply

section Calls

variable [BoundsMakers B] {profile : LiquidityProfile} {c : ContractKey} {d : BookSide}

omit [Book B ObOrderId] [BoundsMakers B] in
/-- The refresh fills of one seed order trade on the other side of it, and no more than it did. -/
theorem captureTrades_taken {contract : ContractKey} {tick : PriceCents} {side : BookSide}
    {trades : List (Trade ObOrderId)} {out out' : List (OrderId × Fill)}
    (hsides : ∀ trade ∈ trades, ∀ (seq : Nat) (order : RestingStrategyOrder),
      trade.maker = .Sequential seq → m.restingStrategy[seq]? = some order → obSide order.side = side)
    (hcapture : trades.foldlM (captureTrade contract tick snap) (m, out) = .ok (m', out')) :
    ∃ carried, out' = out ++ carried ∧
      (∀ e ∈ carried, e.2.contract = contract ∧ obSide e.2.side = side) ∧
      (carried.map fun e => e.2.quantity.value.toNat).sum ≤ (trades.map Trade.quantity).sum := by
  induction trades generalizing m out with
  | nil =>
    cases foldlM_nil_ok.1 hcapture
    exact ⟨[], by simp, List.forall_mem_nil _, le_rfl⟩
  | cons trade trades ih =>
    obtain ⟨⟨m₁, out₁⟩, hfirst, hrest⟩ := foldlM_cons_ok.1 hcapture
    obtain ⟨hown, hothers⟩ := List.forall_mem_cons.1 hsides
    obtain ⟨mine, hfill, rfl⟩ := captureTrade_eq_ok hfirst
    rcases captureRefreshFill_cases hfill with ⟨rfl, rfl, -⟩ |
      ⟨seq, order, fill, groups, live, hmaker, horder, rfl, -, -, hcontract, hside, hquantity, -, -,
        -, rfl⟩
    · obtain ⟨carried, rfl, hall, hsum⟩ := ih hothers hrest
      refine ⟨carried, by simp, hall, hsum.trans ?_⟩
      rw [List.map_cons, List.sum_cons]
      exact Nat.le_add_left _ _
    · have hkept : ∀ later ∈ trades, ∀ (s : Nat) (tracked : RestingStrategyOrder),
          later.maker = .Sequential s →
            (m.afterRefresh seq order trade.quantity groups live).restingStrategy[s]? =
              some tracked → obSide tracked.side = side := by
        intro later hlater s tracked hmaker' htracked
        have hnarrow : Narrows (fun _ => True) m
            (m.afterRefresh seq order trade.quantity groups live) := afterRefresh_narrows horder
        obtain ⟨old, hold, -, -, hside'⟩ := hnarrow s tracked trivial htracked
        rw [← hside']
        exact hothers later hlater s old hmaker' hold
      obtain ⟨carried, rfl, hall, hsum⟩ := ih hkept hrest
      refine ⟨(order.orderId, fill) :: carried, by simp, List.forall_mem_cons.2
        ⟨⟨hcontract, hside ▸ hown seq order hmaker horder⟩, hall⟩, ?_⟩
      simp only [List.map_cons, List.sum_cons, hquantity, Int.toNat_natCast]
      exact Nat.add_le_add_left hsum _

/-- The fills of one side of one contract take from one side of one book. -/
theorem takenOn_uniform {contract : ContractKey} {side : BookSide} {fills : List Fill}
    (h : ∀ fill ∈ fills, fill.contract = contract ∧ obSide fill.side = side.opposite) :
    takenOn c d fills ≤ if compare contract c = .eq ∧ side = d then
      (fills.map fun fill => fill.quantity.value.toNat).sum else 0 := by
  split_ifs with hon
  · exact takenOn_le fills
  · refine (takenOn_none fun fill hfill htakes => hon ?_).le
    obtain ⟨hcontract, hside⟩ := h fill hfill
    obtain ⟨hc, hd⟩ := htakes
    rw [hside, opposite_opposite] at hd
    exact ⟨hcontract ▸ hc, hd⟩

/-- The makers a seed order hits that are tracked are on the other side of it. -/
theorem reseed_sides {order : SeedOrder} {ticks : Nat} {book book' : B}
    {result : MatchResult ObOrderId} (h : Stocked profile m)
    (hleaf : leafBook m.books order.contract = .ok book)
    (hadd : Book.addLimit book (.Sequential m.nextMakerId) (bookSide order) ticks
      order.size.value.toNat = .ok (book', result)) :
    ∀ trade ∈ result.trades, ∀ (seq : Nat) (tracked : RestingStrategyOrder),
      trade.maker = .Sequential seq → m.restingStrategy[seq]? = some tracked →
        obSide tracked.side = (bookSide order).opposite := by
  intro trade htrade seq tracked hmaker htracked
  obtain ⟨maker, hrests, hside, -⟩ := LawfulBook.trade_maker hadd htrade
  obtain ⟨-, s, hs, howner⟩ := h.owned order.contract book trade.maker maker
    (leafBook_rests hleaf hrests) hrests
  cases hmaker.symm.trans hs
  rcases howner with hseed | ⟨found, hfound, hfside, -⟩
  · have hlow := (h.placed.tracked seq tracked htracked).trans_le h.placed.below
    exact absurd (h.seeds _ _ hseed).1 (not_le.2 hlow)
  · cases hfound.symm.trans htracked
    exact hfside.symm.trans hside

/-- The new seed rests at most as what its order left. -/
theorem seedSize_self {contract : ContractKey} {side : BookSide} {price quantity seq : Nat}
    {book book' : B} {result : MatchResult ObOrderId} {books : Std.TreeMap ContractKey B}
    (hfresh : Book.rests book (.Sequential seq) = none)
    (hadd : Book.addLimit book (.Sequential seq) side price quantity = .ok (book', result))
    (hc : compare contract c = .eq) :
    seedSize (books.insert contract book') c d seq ≤ if side = d then result.remaining else 0 := by
  unfold seedSize
  rw [Std.TreeMap.getElem?_insert, if_pos hc, Option.bind_some,
    LawfulBook.addLimit_self hfresh hadd]
  by_cases hzero : result.remaining = 0
  · rw [if_pos hzero]
    exact Nat.zero_le _
  · rw [if_neg hzero]
    exact le_rfl

/-- A seed order adds at most its own size to what the fills take and what the seeds have
left. -/
theorem reseedOrder_supply {tick : PriceCents} {order : SeedOrder} {out out' : List (OrderId × Fill)}
    (h : Stocked profile m) (hstep : reseedOrder snap tick (m, out) order = .ok (m', out')) :
    ∃ carried, out' = out ++ carried ∧ ∀ c d,
      takenOn c d (carried.map Prod.snd) + supply m' c d ≤ supply m c d +
        if compare order.contract c = .eq ∧ bookSide order = d then order.size.value.toNat else 0 := by
  obtain ⟨ticks, book, book', result, captured, -, hleaf, hadd, hcapture, rfl⟩ :=
    reseedOrder_eq_ok hstep
  have hfresh := h.placed.maker_fresh hleaf
  obtain ⟨hbooks, hids, -⟩ := captureTrades_owned (m := m.afterSeed order.contract book')
    (addLimit_owned h.placed h.owned hleaf hfresh hadd) hcapture
  have hsides := reseed_sides h hleaf hadd
  obtain ⟨carried, rfl, hall, hsum⟩ :=
    captureTrades_taken (m := m.afterSeed order.contract book') hsides hcapture
  refine ⟨carried, rfl, fun c d => ?_⟩
  have hconserved : result.traded + result.remaining = order.size.value.toNat :=
    ConservesQuantity.addLimit_conserves hadd
  have htaken := takenOn_uniform (c := c) (d := d) (List.forall_mem_map.2 hall)
  rw [List.map_map] at htaken
  have hold : ((m.seedsOf c).map (seedSize (m.books.insert order.contract book') c d)).sum ≤
      supply m c d := le_trans (Nat.le_add_right _ _)
    (seeds_addLimit hleaf hadd fun seq hseq => (h.seeds c seq hseq).2.ne)
  have hseeds : ({ captured with
      restingSeedIds := seedIdsAfter captured.restingSeedIds order.contract m.nextMakerId
        result.remaining } : RealisticFill B).seedsOf c = m.seedsOf c ++
      if compare order.contract c = .eq ∧ 0 < result.remaining then [m.nextMakerId] else [] := by
    rw [seedsOf, seedsAfter_eq, hids]
    rfl
  have hsupply : supply { captured with
      restingSeedIds := seedIdsAfter captured.restingSeedIds order.contract m.nextMakerId
        result.remaining } c d =
      ((m.seedsOf c).map (seedSize (m.books.insert order.contract book') c d)).sum +
        ((if compare order.contract c = .eq ∧ 0 < result.remaining then [m.nextMakerId]
          else []).map (seedSize (m.books.insert order.contract book') c d)).sum := by
    rw [supply, hseeds, hbooks, List.map_append, List.sum_append]
    rfl
  have hnew : ((if compare order.contract c = .eq ∧ 0 < result.remaining then [m.nextMakerId]
      else []).map (seedSize (m.books.insert order.contract book') c d)).sum ≤
      if compare order.contract c = .eq ∧ bookSide order = d then result.remaining else 0 := by
    split_ifs with hc hon hon
    · rw [List.map_singleton, List.sum_singleton]
      exact (seedSize_self hfresh hadd hc.1).trans (if_pos hon.2).le
    · rw [List.map_singleton, List.sum_singleton]
      exact (seedSize_self hfresh hadd hc.1).trans
        (if_neg fun hd => hon ⟨hc.1, hd⟩).le
    · exact Nat.zero_le _
    · exact le_rfl
  have htrades : (carried.map fun e => e.2.quantity.value.toNat).sum ≤ result.traded := hsum
  rw [hsupply]
  by_cases hon : compare order.contract c = .eq ∧ bookSide order = d
  · rw [if_pos hon] at htaken hnew ⊢
    have := htaken.trans htrades
    omega
  · rw [if_neg hon] at htaken hnew ⊢
    omega

/-- What the refresh takes and what it leaves displayed is at most what it planned. -/
theorem refreshBooks_supply [DecimalArith] {carried : List (OrderId × Fill)}
    (h : Stocked profile m) (hrefresh : m.refreshBooks snap = .ok (m', carried)) :
    ∃ plan, planSeed snap profile = .ok plan ∧ ∀ c d,
      takenOn c d (carried.map Prod.snd) + supply m' c d ≤ plannedOn c d plan := by
  have hseeding := h.seeding
  unfold refreshBooks at hrefresh
  rw [hseeding] at hrefresh
  simp only [bind_ok_iff] at hrefresh
  obtain ⟨_, -, m₁, hstale, plan, hplan, hreseed⟩ := hrefresh
  obtain ⟨hstart, hempty⟩ := clearStale_stocked h hstale
  have hrun : (Stocked profile m' ∧ SeedsQuoted snap m') ∧ ∀ c d,
      takenOn c d (carried.map Prod.snd) + supply m' c d ≤ plannedOn c d ([] ++ plan) := by
    refine foldlM_invariant_done (fun done acc => (Stocked profile acc.1 ∧ SeedsQuoted snap acc.1) ∧
      ∀ c d, takenOn c d (acc.2.map Prod.snd) + supply acc.1 c d ≤ plannedOn c d done)
      (fun _ _ => True) ?_ ⟨⟨hstart, fun c seq hseq => ?_⟩, fun c d => ?_⟩ along_true hreseed
    · rintro done ⟨x, xs⟩ order ⟨y, ys⟩ horder ⟨⟨hx, hquoted⟩, hsupply⟩ - hstep
      obtain ⟨hy, hquoted', -⟩ :=
        reseedOrder_stocked hx hquoted (planSeed_quotes hplan order horder) hstep
      obtain ⟨mine, rfl, hmine⟩ := reseedOrder_supply hx hstep
      refine ⟨⟨hy, hquoted'⟩, fun c d => ?_⟩
      have hbefore := hsupply c d
      have hafter := hmine c d
      simp only [List.map_append, takenOn_append, plannedOn_concat] at hbefore hafter ⊢
      omega
    · rw [hempty c] at hseq
      cases hseq
    · rw [supply, hempty c]
      exact Nat.zero_le _
  exact ⟨plan, hplan, hrun.2⟩

/-- What a routed intent takes, the displayed depth loses. -/
theorem fillSubmit_supply {intent : OrderIntent} {orderId : OrderId} {fills : List Fill}
    (h : Stocked profile m) (hsubmit : m.fillSubmit intent orderId snap = .ok (m', fills)) :
    takenOn c d fills + supply m' c d ≤ supply m c d := by
  obtain ⟨limit, ticks, before, after, result, hsubmitted⟩ := fillSubmit_eq_ok hsubmit
  obtain ⟨book, hadd, hafter⟩ := hsubmitted.matched
  obtain ⟨-, -, hids, -, -, hbooks⟩ := hsubmitted.frame
  have hseeds := seeds_addLimit (c := c) (d := d) hsubmitted.leaf hadd fun seq hseq =>
    ((hsubmitted.strategyId.trans_le (h.seeds c seq hseq).1)).ne'
  have hown : ∀ fill ∈ fills, fill.contract = intent.contract ∧
      obSide fill.side = (obSide intent.side).opposite.opposite := by
    intro fill hfill
    obtain ⟨trade, -, hlevel⟩ := Pointwise.exists_left hsubmitted.levels hfill
    rw [opposite_opposite]
    exact ⟨hlevel.contract, congrArg obSide hlevel.side⟩
  have htaken := takenOn_uniform (c := c) (d := d) hown
  have hquantities : (fills.map fun fill => fill.quantity.value.toNat).sum =
      (result.trades.map Trade.quantity).sum := by
    refine congrArg List.sum (Pointwise.map_eq hsubmitted.levels fun trade fill _ hlevel => ?_).symm
    rw [hlevel.quantity, Int.toNat_natCast]
  have hmakers : (result.trades.map Trade.quantity).sum ≤
      ((m.seedsOf intent.contract).map (owed result.trades)).sum :=
    traded_le_owed fun trade htrade => by
      obtain ⟨seq, hmaker, hseq⟩ := hsubmitted.makers h trade htrade
      exact ⟨seq, hseq, hmaker⟩
  have hleft : supply m' c d ≤
      ((m.seedsOf c).map (seedSize (m.books.insert intent.contract book) c d)).sum := by
    have hshrinks : Shrinks (m.books.insert intent.contract book)
        (m.books.insert intent.contract after) := by
      rcases cancelRemainder_eq_ok hafter with ⟨-, rfl⟩ | ⟨_, -, hcancel⟩
      · exact .refl
      · exact .replace fun i left hrests => LawfulBook.rests_of_cancel hcancel hrests
    rw [supply, seedsOf, hids, hbooks]
    exact List.sum_le_sum fun seq _ => seedSize_shrinks hshrinks
  change _ ≤ ((m.seedsOf c).map (seedSize m.books c d)).sum
  by_cases hon : compare intent.contract c = .eq ∧ (obSide intent.side).opposite = d
  · rw [if_pos hon] at htaken
    have hsame : m.seedsOf c = m.seedsOf intent.contract :=
      congrArg (Option.getD · []) (Std.TreeMap.getElem?_congr hon.1).symm
    rw [if_pos ⟨hon.1, hon.2.symm⟩] at hseeds
    rw [← hsame] at hmakers
    omega
  · rw [if_neg hon] at htaken
    omega

end Calls

section Ladder

variable [LawfulBook B] {profile : LiquidityProfile} {plan : List SeedOrder} {tick : PriceCents}

/-- The seeds rest on the sides and at the prices of the planned ladder. -/
def Laddered (plan : List SeedOrder) (tick : PriceCents) (m : RealisticFill B) : Prop :=
  ∀ (contract : ContractKey) (book : B) (seq : Nat) (left : Resting), m.books[contract]? = some book →
    Book.rests book (.Sequential seq) = some left → seq ∈ m.seedsOf contract →
      ∃ order ∈ plan, compare order.contract contract = .eq ∧ bookSide order = left.side ∧
        (left.price : Int) * tick.value = order.price.value

omit [LawfulBook B] in
/-- Cancels keep the ladder. -/
theorem Laddered.shrink (h : Laddered plan tick m) (hshrinks : Shrinks m.books m'.books)
    (hids : m'.restingSeedIds = m.restingSeedIds) : Laddered plan tick m' := by
  intro contract book seq left hbook hleft hseq
  obtain ⟨before, hbefore, hrests⟩ := hshrinks contract book _ left hbook hleft
  exact h contract before seq left hbefore hrests (by rwa [seedsOf, hids] at hseq)

/-- One planned seed order rests where it was planned. -/
theorem reseedOrder_laddered {order : SeedOrder} {out out' : List (OrderId × Fill)}
    (hstocked : Stocked profile m) (h : Laddered plan tick m) (horder : order ∈ plan)
    (hstep : reseedOrder snap tick (m, out) order = .ok (m', out')) : Laddered plan tick m' := by
  obtain ⟨ticks, book, book', result, captured, hticks, hleaf, hadd, hcapture, rfl⟩ :=
    reseedOrder_eq_ok hstep
  have hfresh := hstocked.placed.maker_fresh hleaf
  obtain ⟨hbooks, hids, -⟩ := captureTrades_owned (m := m.afterSeed order.contract book')
    (addLimit_owned hstocked.placed hstocked.owned hleaf hfresh hadd) hcapture
  intro contract found seq left hfound hleft hseq
  change captured.books[contract]? = some found at hfound
  rw [hbooks] at hfound
  change (m.books.insert order.contract book')[contract]? = some found at hfound
  rw [seedsOf, seedsAfter_eq, hids, List.mem_append] at hseq
  rw [Std.TreeMap.getElem?_insert] at hfound
  split_ifs at hfound with hc
  · cases hfound
    by_cases hself : seq = m.nextMakerId
    · subst hself
      rw [LawfulBook.addLimit_self hfresh hadd] at hleft
      by_cases hzero : result.remaining = 0
      · rw [if_pos hzero] at hleft
        cases hleft
      · rw [if_neg hzero] at hleft
        cases hleft
        exact ⟨order, horder, hc, rfl, (centsToTicks_eq_ok hticks).2⟩
    · obtain ⟨old, hold, hprice, hside⟩ := LawfulBook.rests_of_addLimit hadd
        (fun heq => hself (by injection heq)) hleft
      have hseed : seq ∈ m.seedsOf contract := by
        refine hseq.resolve_right fun hnew => ?_
        split_ifs at hnew
        · exact hself (List.mem_singleton.1 hnew)
        · cases hnew
      have hbook := (Std.TreeMap.getElem?_congr hc).symm.trans (leafBook_rests hleaf hold)
      obtain ⟨planned, hplanned, hcp, hsp, hpp⟩ := h contract book seq old hbook hold hseed
      exact ⟨planned, hplanned, hcp, hsp.trans hside, hprice ▸ hpp⟩
  · refine h contract found seq left hfound hleft (hseq.resolve_right fun hnew => ?_)
    split_ifs at hnew with hboth
    · exact hc hboth.1
    · cases hnew

/-- After the refresh the seeds are the planned ladder. -/
theorem refreshBooks_laddered [DecimalArith] {carried : List (OrderId × Fill)}
    (h : Stocked profile m) (hplan : planSeed snap profile = .ok plan)
    (hrefresh : m.refreshBooks snap = .ok (m', carried)) :
    Laddered plan snap.spec.tickSizeCents m' := by
  have hseeding := h.seeding
  unfold refreshBooks at hrefresh
  rw [hseeding] at hrefresh
  simp only [bind_ok_iff] at hrefresh
  obtain ⟨_, -, m₁, hstale, plan', hplan', hreseed⟩ := hrefresh
  cases hplan.symm.trans hplan'
  have hstart : Stocked profile (m₁.evictDeparted snap) := (clearStale_stocked h hstale).1
  have hnone : ∀ contract seq, seq ∉ (m₁.evictDeparted snap).seedsOf contract := by
    intro contract seq hseq
    rw [(clearStale_stocked h hstale).2 contract] at hseq
    cases hseq
  refine (foldlM_invariant_mem (fun acc => (Stocked profile acc.1 ∧ SeedsQuoted snap acc.1) ∧
    Laddered plan snap.spec.tickSizeCents acc.1) ?_ ⟨⟨hstart, ?_⟩, ?_⟩ hreseed).2
  · rintro ⟨x, xs⟩ order ⟨y, ys⟩ horder ⟨⟨hx, hquoted⟩, hladder⟩ hstep
    obtain ⟨hy, hquoted', -⟩ :=
      reseedOrder_stocked hx hquoted (planSeed_quotes hplan order horder) hstep
    exact ⟨⟨hy, hquoted'⟩, reseedOrder_laddered hx hladder horder hstep⟩
  · exact fun contract seq hseq => absurd hseq (hnone contract seq)
  · exact fun contract book seq left _ _ hseq => absurd hseq (hnone contract seq)

/-- A routed intent leaves the ladder where it is, and trades at its prices, within its own
limit. -/
theorem fillSubmit_laddered {intent : OrderIntent} {orderId : OrderId} {fills : List Fill}
    (hstocked : Stocked profile m) (h : Laddered plan snap.spec.tickSizeCents m)
    (hsubmit : m.fillSubmit intent orderId snap = .ok (m', fills)) :
    Laddered plan snap.spec.tickSizeCents m' ∧ ∀ fill ∈ fills, fill.contract = intent.contract ∧
      fill.side = intent.side ∧ ∃ (limit : PriceCents) (ticks price : Nat),
        m.limitCents intent snap = .ok limit ∧
        (ticks : Int) * snap.spec.tickSizeCents.value = limit.value ∧
        (obSide intent.side).Accepts ticks price ∧
        fill.price.value = price * snap.spec.tickSizeCents.value ∧
        ∃ order ∈ plan, compare order.contract intent.contract = .eq ∧
          bookSide order = (obSide intent.side).opposite ∧
          (price : Int) * snap.spec.tickSizeCents.value = order.price.value := by
  obtain ⟨limit, ticks, before, after, result, hsubmitted⟩ := fillSubmit_eq_ok hsubmit
  obtain ⟨book, hadd, hafter⟩ := hsubmitted.matched
  obtain ⟨-, -, hids, -, -, hbooks⟩ := hsubmitted.frame
  constructor
  · intro contract found seq left hfound hleft hseq
    rw [seedsOf, hids] at hseq
    rw [hbooks, Std.TreeMap.getElem?_insert] at hfound
    split_ifs at hfound with hc
    · cases hfound
      have hrests : Book.rests book (ObOrderId.Sequential seq) = some left := by
        rcases cancelRemainder_eq_ok hafter with ⟨-, rfl⟩ | ⟨_, -, hcancel⟩
        · exact hleft
        · exact LawfulBook.rests_of_cancel hcancel hleft
      have hne : seq ≠ m.nextStrategyId :=
        (hsubmitted.strategyId.trans_le (hstocked.seeds contract seq hseq).1).ne'
      obtain ⟨old, hold, hprice, hside⟩ := LawfulBook.rests_of_addLimit hadd
        (fun heq => hne (by injection heq)) hrests
      have hbook := (Std.TreeMap.getElem?_congr hc).symm.trans
        (leafBook_rests hsubmitted.leaf hold)
      obtain ⟨planned, hplanned, hcp, hsp, hpp⟩ := h contract before seq old hbook hold hseq
      exact ⟨planned, hplanned, hcp, hsp.trans hside, hprice ▸ hpp⟩
    · exact h contract found seq left hfound hleft hseq
  · intro fill hfill
    obtain ⟨trade, htrade, hlevel⟩ := Pointwise.exists_left hsubmitted.levels hfill
    obtain ⟨seq, hmaker, hseq⟩ := hsubmitted.makers hstocked trade htrade
    obtain ⟨maker, hrests, hside, hprice, haccepts⟩ := LawfulBook.trade_maker hadd htrade
    rw [hmaker] at hrests
    obtain ⟨planned, hplanned, hcp, hsp, hpp⟩ := h intent.contract before seq maker
      (leafBook_rests hsubmitted.leaf hrests) hrests hseq
    exact ⟨hlevel.contract, hlevel.side, limit, ticks, trade.price, hsubmitted.limit_eq,
      (centsToTicks_eq_ok hsubmitted.ticks_eq).2, haccepts, hlevel.price, planned, hplanned, hcp,
      hsp.trans hside, hprice ▸ hpp⟩

end Ladder

end IronCondor.RealisticFill
