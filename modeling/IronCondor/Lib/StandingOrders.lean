import IronCondor.Lib.Fold
import IronCondor.Lib.ReferenceBook

/-! # Standing orders

A list of limit orders stands in a book when each of them rests there whole and nothing else rests.
Orders placed one after another stand exactly when the book was empty and no later order crosses an
earlier one. -/
namespace OrderBook

open Checked ExceptRun

/-- A price-time book: an order that is not filled has taken all that it accepts. -/
class PriceTimeBook (B : Type) {ι : Type} [DecidableEq ι] [Book B ι] : Prop
    extends LawfulBook B where
  exhausts {b b' : B} {i : ι} {side : BookSide} {price quantity : Nat} {r : MatchResult ι}
    (h : Book.addLimit b i side price quantity = .ok (b', r)) (hleft : 0 < r.remaining) {j : ι}
    {order : Resting} (horder : Book.rests b j = some order) (hside : order.side = side.opposite)
    (haccepts : side.Accepts price order.price) : order.size ≤ r.matchedOf j

namespace ReferenceBook

variable {ι : Type} [DecidableEq ι]

/-- A walk that is not filled took all of every maker. -/
theorem consume_exhausts {ms : List (ι × Resting)} {quantity : Nat}
    (h : 0 < (consume ms quantity).remaining) {o : ι × Resting} (ho : o ∈ ms) :
    o.2.size ≤ (consume ms quantity).matchedOf o.1 := by
  induction ms generalizing quantity with
  | nil => cases ho
  | cons maker ms ih =>
    by_cases hq : quantity = 0
    · simp [consume, hq] at h
    simp only [consume, hq, if_false] at h ⊢
    have hrest := consume_conserves ms (quantity - min maker.2.size quantity)
    rcases List.mem_cons.1 ho with rfl | ho
    · simp only [MatchResult.matchedOf, List.filter_cons, decide_true, if_true, List.map_cons,
        List.sum_cons]
      omega
    · have hmine := ih h ho
      simp only [MatchResult.matchedOf, List.filter_cons] at hmine ⊢
      split_ifs
      · rw [List.map_cons, List.sum_cons]
        omega
      · exact hmine

instance : PriceTimeBook (ReferenceBook ι) where
  exhausts {b b' i side price quantity r} h hleft {j order} horder hside haccepts := by
    obtain ⟨-, rfl, -⟩ := addLimit_eq h
    obtain ⟨o, ho, rfl⟩ := Option.map_eq_some_iff.1 horder
    have hid : o.1 = j := by simpa using List.find?_some ho
    rw [← hid]
    exact consume_exhausts hleft (mem_makers.2 ⟨List.mem_of_find?_eq_some ho, hside, haccepts⟩)

end ReferenceBook

structure LimitOrder (ι : Type) where
  id : ι
  side : BookSide
  price : Nat
  size : Nat

namespace LimitOrder

variable {ι : Type}

/-- The order as it waits in a book. -/
def resting (o : LimitOrder ι) : Resting := ⟨o.side, o.price, o.size⟩

/-- A later order accepts this one. -/
def Crosses (d o : LimitOrder ι) : Prop := d.side = o.side.opposite ∧ o.side.Accepts o.price d.price

end LimitOrder

section Results

variable {ι : Type} [DecidableEq ι] {r : MatchResult ι}

theorem MatchResult.matchedOf_le_traded (j : ι) : r.matchedOf j ≤ r.traded :=
  (List.filter_sublist.map Trade.quantity).sum_le_sum fun _ _ => Nat.zero_le _

end Results

section Placing

variable {B ι : Type} [DecidableEq ι] [Book B ι] {b b' : B} {o : LimitOrder ι}
  {orders done : List (LimitOrder ι)}

/-- Submit an order to the book. -/
def place (b : B) (o : LimitOrder ι) : Except String B := do
  let (b, _) ← Book.addLimit b o.id o.side o.price o.size
  return b

omit [DecidableEq ι] in
theorem place_eq_ok : place b o = .ok b' ↔
    ∃ r, Book.addLimit b o.id o.side o.price o.size = .ok (b', r) := by
  simp only [place, bind_ok_iff, pure_ok_iff, Prod.exists]
  constructor
  · rintro ⟨_, r, h, rfl⟩
    exact ⟨r, h⟩
  · rintro ⟨r, h⟩
    exact ⟨b', r, h, rfl⟩

/-- Each of the orders rests whole, and nothing else rests. -/
structure Standing (b : B) (orders : List (LimitOrder ι)) : Prop where
  whole : ∀ o ∈ orders, Book.rests b o.id = some o.resting
  only : ∀ (j : ι) (left : Resting), Book.rests b j = some left → ∃ o ∈ orders, o.id = j

variable [LawfulBook B]

/-- What rests after an order was placed is that order or rested before. -/
theorem rests_of_place (h : place b o = .ok b') {j : ι} {left : Resting}
    (hleft : Book.rests b' j = some left) :
    j = o.id ∨ ∃ order, Book.rests b j = some order := by
  obtain ⟨r, hadd⟩ := place_eq_ok.1 h
  by_cases hj : j = o.id
  · exact .inl hj
  · obtain ⟨order, horder, -⟩ := LawfulBook.rests_of_addLimit hadd hj hleft
    exact .inr ⟨order, horder⟩

/-- What is placed has a size, so that all that rests keeps having one. -/
theorem place_sizes (h : place b o = .ok b') (hfresh : Book.rests b o.id = none) :
    ∀ j left, Book.rests b' j = some left → 0 < left.size := by
  intro j left hleft
  obtain ⟨r, hadd⟩ := place_eq_ok.1 h
  by_cases hj : j = o.id
  · subst hj
    rw [LawfulBook.addLimit_self hfresh hadd] at hleft
    split_ifs at hleft with hzero
    cases hleft
    exact Nat.pos_of_ne_zero hzero
  · rw [LawfulBook.addLimit_others hadd hj] at hleft
    obtain ⟨order, -, hafter⟩ := Option.bind_eq_some_iff.1 hleft
    unfold Resting.after at hafter
    split_ifs at hafter with hle
    cases hafter
    exact Nat.sub_pos_of_lt (Nat.lt_of_not_le hle)

/-- An order that trades nothing rests whole, and leaves the others as they are. -/
theorem rests_untraded {r : MatchResult ι} (hpos : 0 < o.size)
    (hsizes : ∀ j left, Book.rests b j = some left → 0 < left.size)
    (hfresh : Book.rests b o.id = none)
    (hadd : Book.addLimit b o.id o.side o.price o.size = .ok (b', r)) (hnone : r.traded = 0)
    (j : ι) : Book.rests b' j = if j = o.id then some o.resting else Book.rests b j := by
  have hconserved := ConservesQuantity.addLimit_conserves hadd
  have hremaining : r.remaining = o.size := by omega
  split_ifs with hj
  · rw [hj, LawfulBook.addLimit_self hfresh hadd, if_neg (by omega), hremaining]
    rfl
  · rw [LawfulBook.addLimit_others hadd hj]
    have hmatched : r.matchedOf j = 0 :=
      Nat.le_zero.1 (hnone ▸ MatchResult.matchedOf_le_traded j)
    rcases horder : Book.rests b j with _ | order
    · rfl
    · have hsize := hsizes j order horder
      rw [hmatched, Option.bind_some, Resting.after, if_neg (by omega)]
      rfl

theorem placed_fresh (h : orders.foldlM place b = .ok b') {i : ι} (hfresh : Book.rests b i = none)
    (hi : ∀ o ∈ orders, o.id ≠ i) : Book.rests b' i = none := by
  refine foldlM_invariant_mem (fun b => Book.rests b i = none) ?_ hfresh h
  intro b o b' ho hb hplace
  refine Option.eq_none_iff_forall_ne_some.2 fun left hleft => ?_
  rcases rests_of_place hplace hleft with rfl | ⟨order, horder⟩
  · exact hi o ho rfl
  · rw [hb] at horder
    cases horder

end Placing

section Standing

variable {B ι : Type} [DecidableEq ι] [Book B ι] [PriceTimeBook B] {b b' : B} {o : LimitOrder ι}
  {orders done : List (LimitOrder ι)}

/-- One more order stands with the others exactly when these stood before and it crosses none. -/
theorem place_standing_iff (h : place b o = .ok b') (hpos : 0 < o.size)
    (hsizes : ∀ j left, Book.rests b j = some left → 0 < left.size)
    (hfresh : Book.rests b o.id = none) (hdone : ∀ d ∈ done, d.id ≠ o.id) :
    Standing b' (done ++ [o]) ↔ Standing b done ∧ ∀ d ∈ done, ¬ d.Crosses o := by
  obtain ⟨r, hadd⟩ := place_eq_ok.1 h
  have hconserved := ConservesQuantity.addLimit_conserves hadd
  constructor
  · intro hstand
    -- the order rests whole, so it traded with none of the others
    have hnone : r.traded = 0 := by
      have hself := hstand.whole o (by simp)
      rw [LawfulBook.addLimit_self hfresh hadd] at hself
      split_ifs at hself
      have hsize : r.remaining = o.size := congrArg Resting.size (Option.some.inj hself)
      omega
    have hrests := rests_untraded hpos hsizes hfresh hadd hnone
    have hbefore : ∀ d ∈ done, Book.rests b d.id = some d.resting := by
      intro d hd
      have hwhole := hstand.whole d (List.mem_append_left _ hd)
      rwa [hrests, if_neg (hdone d hd)] at hwhole
    refine ⟨⟨hbefore, fun j left hleft => ?_⟩, fun d hd hcross => ?_⟩
    · have hj : j ≠ o.id := by
        rintro rfl
        rw [hfresh] at hleft
        cases hleft
      obtain ⟨d, hd, rfl⟩ := hstand.only j left (by rw [hrests, if_neg hj, hleft])
      rcases List.mem_append.1 hd with hd | hd
      · exact ⟨d, hd, rfl⟩
      · cases List.mem_singleton.1 hd
        exact absurd rfl hj
    · have hsize := hsizes d.id d.resting (hbefore d hd)
      have htaken : d.resting.size ≤ r.matchedOf d.id :=
        PriceTimeBook.exhausts hadd (by omega) (hbefore d hd) hcross.1 hcross.2
      have hmatched := MatchResult.matchedOf_le_traded (r := r) d.id
      omega
  · rintro ⟨hstand, hcross⟩
    -- a maker would be one of the standing orders
    have hnone : r.traded = 0 := by
      have htrades : r.trades = [] := List.eq_nil_iff_forall_not_mem.2 fun t ht => by
        obtain ⟨order, horder, hside, hprice, haccepts⟩ := LawfulBook.trade_maker hadd ht
        obtain ⟨d, hd, hid⟩ := hstand.only t.maker order horder
        have hwhole := hstand.whole d hd
        rw [hid, horder] at hwhole
        cases hwhole
        rw [← hprice] at haccepts
        exact hcross d hd ⟨hside, haccepts⟩
      rw [MatchResult.traded, htrades]
      rfl
    have hrests := rests_untraded hpos hsizes hfresh hadd hnone
    refine ⟨List.forall_mem_append.2 ⟨fun d hd => ?_, List.forall_mem_singleton.2 ?_⟩,
      fun j left hleft => ?_⟩
    · rw [hrests, if_neg (hdone d hd)]
      exact hstand.whole d hd
    · rw [hrests, if_pos rfl]
    · rw [hrests] at hleft
      split_ifs at hleft with hj
      · exact ⟨o, by simp, hj.symm⟩
      · obtain ⟨d, hd, hid⟩ := hstand.only j left hleft
        exact ⟨d, List.mem_append_left _ hd, hid⟩

/-- Orders placed one after another stand exactly when the book was empty and no later one crosses
an earlier one. -/
theorem placed_standing_iff (h : orders.foldlM place b = .ok b')
    (hpos : ∀ o ∈ orders, 0 < o.size)
    (hsizes : ∀ j left, Book.rests b j = some left → 0 < left.size)
    (hfresh : ∀ o ∈ orders, Book.rests b o.id = none) (hnodup : (orders.map LimitOrder.id).Nodup) :
    Standing b' orders ↔
      (∀ j, Book.rests b j = none) ∧ orders.Pairwise fun d o => ¬ d.Crosses o := by
  suffices hboth : (∀ j left, Book.rests b' j = some left → 0 < left.size) ∧
      (Standing b' orders ↔
        (∀ j, Book.rests b j = none) ∧ orders.Pairwise fun d o => ¬ d.Crosses o) from hboth.2
  induction orders using List.reverseRecOn generalizing b' with
  | nil =>
    cases foldlM_nil_ok.1 h
    refine ⟨hsizes, fun hstand => ⟨fun j => ?_, .nil⟩,
      fun hempty => ⟨by simp, fun j left hleft => ?_⟩⟩
    · refine Option.eq_none_iff_forall_ne_some.2 fun left hleft => ?_
      obtain ⟨o, ho, -⟩ := hstand.only j left hleft
      cases ho
    · rw [hempty.1 j] at hleft
      cases hleft
  | append_singleton orders o ih =>
    obtain ⟨mid, hmid, hlast⟩ := foldlM_append_ok.1 h
    have hplace := foldlM_singleton_ok.1 hlast
    rw [List.forall_mem_append, List.forall_mem_singleton] at hpos hfresh
    rw [List.map_append, List.nodup_append] at hnodup
    obtain ⟨hearlier, -, hdistinct⟩ := hnodup
    have hdone : ∀ d ∈ orders, d.id ≠ o.id := fun d hd =>
      hdistinct _ (List.mem_map_of_mem hd) _ (by simp)
    obtain ⟨hmidSizes, hstand⟩ := ih hmid hpos.1 hfresh.1 hearlier
    have hmidFresh : Book.rests mid o.id = none := placed_fresh hmid hfresh.2 hdone
    refine ⟨place_sizes hplace hmidFresh, ?_⟩
    rw [place_standing_iff hplace hpos.2 hmidSizes hmidFresh hdone, hstand, List.pairwise_append]
    simp only [List.pairwise_singleton, List.mem_singleton, forall_eq, true_and, and_assoc]

end Standing

end OrderBook
