import IronCondor.Lib.OrderBook

/-! # A reference price-time book

Orders are kept in arrival order. A taker walks the acceptable makers of the other side from
the best price on, the earliest arrival first at one price. -/
namespace OrderBook

set_option linter.unusedSectionVars false

variable {ι : Type} [DecidableEq ι]

/-- A book whose order ids are distinct. -/
structure ReferenceBook (ι : Type) where
  orders : List (ι × Resting)
  nodup : (orders.map Prod.fst).Nodup

/-- A maker that a taker of `side` reaches no later than another. -/
def BookSide.Prefers : BookSide → ι × Resting → ι × Resting → Prop
  | .Buy, a, b => a.2.price ≤ b.2.price
  | .Sell, a, b => b.2.price ≤ a.2.price

instance (side : BookSide) : DecidableRel (side.Prefers (ι := ι)) := fun a b => by
  cases side <;> exact inferInstanceAs (Decidable (_ ≤ _))

/-- Walk the makers in order until the quantity is used up. -/
def consume : List (ι × Resting) → Nat → MatchResult ι
  | [], quantity => ⟨[], quantity⟩
  | (i, order) :: makers, quantity =>
    if quantity = 0 then ⟨[], 0⟩
    else
      let rest := consume makers (quantity - min order.size quantity)
      ⟨⟨i, order.price, min order.size quantity⟩ :: rest.trades, rest.remaining⟩

namespace ReferenceBook

/-- The makers a taker can trade with, in price-time order. -/
def makers (b : ReferenceBook ι) (side : BookSide) (price : Nat) : List (ι × Resting) :=
  (b.orders.filter fun o => o.2.side = side.opposite ∧ side.Accepts price o.2.price).insertionSort
    side.Prefers

def matched (b : ReferenceBook ι) (side : BookSide) (price quantity : Nat) : MatchResult ι :=
  consume (b.makers side price) quantity

/-- What is left of one order after a match. -/
def leave (r : MatchResult ι) (o : ι × Resting) : Option (ι × Resting) :=
  (o.2.after (r.matchedOf o.1)).map fun order => (o.1, order)

def lookup (orders : List (ι × Resting)) (i : ι) : Option Resting :=
  (orders.find? fun o => o.1 = i).map Prod.snd

theorem map_fst_filterMap_leave_sublist (r : MatchResult ι) (orders : List (ι × Resting)) :
    List.Sublist ((orders.filterMap (leave r)).map Prod.fst) (orders.map Prod.fst) := by
  induction orders with
  | nil => simp
  | cons o orders ih =>
    rcases ho : leave r o with _ | o'
    · rw [List.filterMap_cons_none ho]
      exact ih.cons _
    · rw [List.filterMap_cons_some ho]
      have hfst : o'.1 = o.1 := by
        obtain ⟨order, -, rfl⟩ := Option.map_eq_some_iff.1 ho
        rfl
      simpa [hfst] using ih

/-- The orders left by a match of a fresh taker, the taker's remainder last. -/
def settled (b : ReferenceBook ι) (i : ι) (side : BookSide) (price : Nat) (r : MatchResult ι) :
    List (ι × Resting) :=
  b.orders.filterMap (leave r) ++
    if r.remaining = 0 then [] else [(i, ⟨side, price, r.remaining⟩)]

theorem settled_nodup {b : ReferenceBook ι} {i : ι} (hi : i ∉ b.orders.map Prod.fst)
    (side : BookSide) (price : Nat) (r : MatchResult ι) :
    ((b.settled i side price r).map Prod.fst).Nodup := by
  have hsub := map_fst_filterMap_leave_sublist r b.orders
  have hleft := b.nodup.sublist hsub
  unfold settled
  split_ifs
  · simpa using hleft
  · rw [List.map_append, List.nodup_append]
    refine ⟨hleft, by simp, fun j hj k hk => ?_⟩
    obtain rfl : k = i := by simpa using hk
    rintro rfl
    exact hi (hsub.subset hj)

theorem filter_nodup (b : ReferenceBook ι) (i : ι) :
    ((b.orders.filter fun o => o.1 ≠ i).map Prod.fst).Nodup :=
  b.nodup.sublist ((List.filter_sublist).map _)

instance : Book (ReferenceBook ι) ι where
  empty := ⟨[], by simp⟩
  addLimit b i side price quantity :=
    if h : i ∈ b.orders.map Prod.fst then .error "duplicate order id"
    else
      let r := b.matched side price quantity
      .ok (⟨b.settled i side price r, settled_nodup h side price r⟩, r)
  cancel b i :=
    .ok (⟨b.orders.filter fun o => o.1 ≠ i, b.filter_nodup i⟩,
      decide (i ∈ b.orders.map Prod.fst))
  rests b i := lookup b.orders i

section Laws

theorem consume_conserves (ms : List (ι × Resting)) (quantity : Nat) :
    (consume ms quantity).traded + (consume ms quantity).remaining = quantity := by
  induction ms generalizing quantity with
  | nil => simp [consume, MatchResult.traded]
  | cons o ms ih =>
    by_cases hq : quantity = 0
    · simp [consume, MatchResult.traded, hq]
    · have h := ih (quantity - min o.2.size quantity)
      simp only [MatchResult.traded] at h
      simp only [consume, hq, if_false, MatchResult.traded, List.map_cons, List.sum_cons]
      omega

theorem consume_maker {ms : List (ι × Resting)} {quantity : Nat} {t : Trade ι}
    (ht : t ∈ (consume ms quantity).trades) : ∃ o ∈ ms, o.1 = t.maker ∧ o.2.price = t.price := by
  induction ms generalizing quantity with
  | nil => simp [consume] at ht
  | cons o ms ih =>
    by_cases hq : quantity = 0
    · simp [consume, hq] at ht
    · simp only [consume, hq, if_false, List.mem_cons] at ht
      rcases ht with rfl | ht
      · exact ⟨o, List.mem_cons_self, rfl, rfl⟩
      · obtain ⟨o', ho', h⟩ := ih ht
        exact ⟨o', List.mem_cons_of_mem _ ho', h⟩

theorem lookup_eq_none {orders : List (ι × Resting)} {i : ι} (hi : i ∉ orders.map Prod.fst) :
    lookup orders i = none := by
  simp only [lookup, Option.map_eq_none_iff, List.find?_eq_none, decide_eq_true_eq]
  exact fun o ho h => hi (h ▸ List.mem_map_of_mem ho)

/-- The walk takes from one maker at most once, and at most its size. -/
theorem consume_matchedOf {ms : List (ι × Resting)} (hn : (ms.map Prod.fst).Nodup)
    (quantity : Nat) (j : ι) : (consume ms quantity).matchedOf j ≤
      ((lookup ms j).map Resting.size).getD 0 := by
  induction ms generalizing quantity with
  | nil => simp [consume, MatchResult.matchedOf]
  | cons o ms ih =>
    rw [List.map_cons, List.nodup_cons] at hn
    by_cases hq : quantity = 0
    · simp [consume, hq, MatchResult.matchedOf]
    have hrest := ih hn.2 (quantity - min o.2.size quantity)
    simp only [MatchResult.matchedOf] at hrest ⊢
    simp only [consume, hq, if_false, List.filter_cons, lookup, List.find?_cons]
    by_cases hj : o.1 = j
    · have hnone : lookup ms j = none := lookup_eq_none (hj ▸ hn.1)
      rw [hnone] at hrest
      simp only [hj, decide_true, if_true, List.map_cons, List.sum_cons, Option.map_some,
        Option.getD_some]
      simp only [Option.map_none, Option.getD_none] at hrest
      omega
    · simpa [hj, lookup] using hrest

theorem mem_makers {b : ReferenceBook ι} {side : BookSide} {price : Nat} {o : ι × Resting} :
    o ∈ b.makers side price ↔
      o ∈ b.orders ∧ o.2.side = side.opposite ∧ side.Accepts price o.2.price := by
  simp [makers, List.mem_insertionSort]

theorem lookup_of_mem {orders : List (ι × Resting)} (hn : (orders.map Prod.fst).Nodup)
    {o : ι × Resting} (ho : o ∈ orders) : lookup orders o.1 = some o.2 := by
  induction orders with
  | nil => simp at ho
  | cons p orders ih =>
    rw [List.map_cons, List.nodup_cons] at hn
    rcases List.mem_cons.1 ho with rfl | ho
    · simp [lookup]
    · have hne : p.1 ≠ o.1 := fun h => hn.1 (h ▸ List.mem_map_of_mem ho)
      simpa [lookup, List.find?_cons, hne] using ih hn.2 ho

theorem lookup_append (xs ys : List (ι × Resting)) (i : ι) :
    lookup (xs ++ ys) i = (lookup xs i).or (lookup ys i) := by
  unfold lookup
  rw [List.find?_append]
  cases xs.find? _ <;> rfl

theorem lookup_filter_ne (orders : List (ι × Resting)) (i j : ι) :
    lookup (orders.filter fun o => o.1 ≠ i) j = if j = i then none else lookup orders j := by
  split_ifs with h
  · exact lookup_eq_none (by simp [h])
  · simp only [lookup, List.find?_filter]
    congr 2
    funext o
    by_cases ho : o.1 = j <;> simp [ho, h]

/-- A match leaves every maker its size minus what it traded. -/
theorem lookup_filterMap_leave (r : MatchResult ι) {orders : List (ι × Resting)}
    (hn : (orders.map Prod.fst).Nodup) (j : ι) :
    lookup (orders.filterMap (leave r)) j =
      (lookup orders j).bind fun order => order.after (r.matchedOf j) := by
  induction orders with
  | nil => rfl
  | cons o orders ih =>
    rw [List.map_cons, List.nodup_cons] at hn
    have htail : o.1 = j → lookup (orders.filterMap (leave r)) j = none := by
      rintro rfl
      exact lookup_eq_none fun h => hn.1 ((map_fst_filterMap_leave_sublist r orders).subset h)
    by_cases hj : o.1 = j
    · have hhead : lookup (o :: orders) j = some o.2 := by simp [lookup, hj]
      rw [hhead, Option.bind_some]
      rcases ho : o.2.after (r.matchedOf j) with _ | order
      · rw [List.filterMap_cons_none (by simp [leave, hj, ho]), htail hj]
      · rw [List.filterMap_cons_some (b := (o.1, order)) (by simp [leave, hj, ho])]
        simp [lookup, hj]
    · have hhead : lookup (o :: orders) j = lookup orders j := by simp [lookup, hj]
      rw [hhead, ← ih hn.2]
      rcases ho : leave r o with _ | o'
      · rw [List.filterMap_cons_none ho]
      · obtain ⟨order, -, rfl⟩ := Option.map_eq_some_iff.1 ho
        rw [List.filterMap_cons_some ho]
        simp [lookup, hj]

end Laws

theorem addLimit_eq {b b' : ReferenceBook ι} {i : ι} {side : BookSide} {price quantity : Nat}
    {r : MatchResult ι} (h : Book.addLimit b i side price quantity = .ok (b', r)) :
    i ∉ b.orders.map Prod.fst ∧ r = b.matched side price quantity ∧
      b'.orders = b.settled i side price r := by
  simp only [Book.addLimit] at h
  split_ifs at h with hi
  cases h
  exact ⟨hi, rfl, rfl⟩

instance : LawfulBook (ReferenceBook ι) where
  addLimit_conserves h := by
    obtain ⟨-, rfl, -⟩ := addLimit_eq h
    exact consume_conserves _ _
  rests_empty _ := rfl
  cancel_removes {b b' i found} h j := by
    cases h
    exact lookup_filter_ne b.orders i j
  trade_maker {b b' i side price quantity r} h {t} ht := by
    obtain ⟨-, rfl, -⟩ := addLimit_eq h
    obtain ⟨o, ho, hm, hp⟩ := consume_maker ht
    obtain ⟨ho, hs, ha⟩ := mem_makers.1 ho
    exact ⟨o.2, hm ▸ lookup_of_mem b.nodup ho, hs, hp, hp ▸ ha⟩
  addLimit_others {b b' i side price quantity r} h {j} hj := by
    obtain ⟨-, -, hb⟩ := addLimit_eq h
    change lookup b'.orders j = _
    have hlast : lookup (if r.remaining = 0 then [] else [(i, ⟨side, price, r.remaining⟩)]) j =
        none := by
      split_ifs <;> simp [lookup, Ne.symm hj]
    rw [hb, settled, lookup_append, lookup_filterMap_leave r b.nodup, hlast, Option.or_none]
    rfl
  addLimit_self {b b' i side price quantity r} hfresh h := by
    obtain ⟨hi, -, hb⟩ := addLimit_eq h
    change lookup b'.orders i = _
    rw [hb, settled, lookup_append, lookup_filterMap_leave r b.nodup, lookup_eq_none hi]
    split_ifs <;> simp [lookup]

theorem makers_nodup (b : ReferenceBook ι) (side : BookSide) (price : Nat) :
    ((b.makers side price).map Prod.fst).Nodup :=
  ((List.perm_insertionSort _ _).map Prod.fst).nodup_iff.2
    (b.nodup.sublist ((List.filter_sublist).map _))

instance : BoundsMakers (ReferenceBook ι) where
  matched_le {b b' i side price quantity r} h {j order} horder := by
    obtain ⟨-, rfl, -⟩ := addLimit_eq h
    refine (consume_matchedOf (b.makers_nodup side price) quantity j).trans ?_
    rcases hmaker : lookup (b.makers side price) j with _ | maker
    · exact Nat.zero_le _
    -- a maker of the walk is the order of its id
    obtain ⟨o, ho, rfl⟩ := Option.map_eq_some_iff.1 hmaker
    have hid : o.1 = j := by simpa using List.find?_some ho
    have hmem := (mem_makers.1 (List.mem_of_find?_eq_some ho)).1
    have hrests : lookup b.orders j = some order := horder
    rw [← hid, lookup_of_mem b.nodup hmem] at hrests
    cases hrests
    exact le_rfl

end ReferenceBook

end OrderBook
