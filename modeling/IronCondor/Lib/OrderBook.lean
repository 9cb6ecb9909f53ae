import Mathlib.Tactic

/-! # Price-time order books

The interface of a limit order book and the laws its users rely on: a taker trades with
resting orders of the other side, at the maker's own price and within its own limit, no
quantity is created or lost, and a cancel removes exactly one order. -/
namespace OrderBook

inductive BookSide where
  | Buy
  | Sell
deriving DecidableEq, Repr

namespace BookSide

def opposite : BookSide → BookSide
  | Buy => Sell
  | Sell => Buy

/-- A taker of this side with limit `limit` accepts a maker at `price`. -/
def Accepts : BookSide → (limit price : Nat) → Prop
  | Buy, limit, price => price ≤ limit
  | Sell, limit, price => limit ≤ price

instance (side : BookSide) (limit price : Nat) : Decidable (side.Accepts limit price) := by
  cases side <;> exact inferInstanceAs (Decidable (_ ≤ _))

end BookSide

/-- An order waiting in the book. -/
structure Resting where
  side : BookSide
  price : Nat
  size : Nat
deriving DecidableEq

/-- What is left of a resting order after `matched` of it traded. -/
def Resting.after (order : Resting) (matched : Nat) : Option Resting :=
  if order.size ≤ matched then none else some { order with size := order.size - matched }

structure Trade (ι : Type) where
  maker : ι
  price : Nat
  quantity : Nat
deriving DecidableEq

/-- The outcome of submitting an order: its trades and what of it did not trade. -/
structure MatchResult (ι : Type) where
  trades : List (Trade ι)
  remaining : Nat

namespace MatchResult

variable {ι : Type} [DecidableEq ι]

def traded (r : MatchResult ι) : Nat := (r.trades.map Trade.quantity).sum

/-- The quantity taken from one maker. -/
def matchedOf (r : MatchResult ι) (i : ι) : Nat :=
  ((r.trades.filter fun t => t.maker = i).map Trade.quantity).sum

end MatchResult

/-- A limit order book over order ids `ι`, with the view of what rests in it. -/
class Book (B : Type) (ι : outParam Type) where
  empty : B
  addLimit : B → ι → BookSide → (price quantity : Nat) → Except String (B × MatchResult ι)
  cancel : B → ι → Except String (B × Bool)
  rests : B → ι → Option Resting

/-- A submitted order either trades or rests: no quantity is created or lost. -/
class ConservesQuantity (B : Type) {ι : Type} [Book B ι] : Prop where
  addLimit_conserves {b b' : B} {i : ι} {side : BookSide} {price quantity : Nat}
    {r : MatchResult ι} (h : Book.addLimit b i side price quantity = .ok (b', r)) :
    r.traded + r.remaining = quantity

/-- The laws of a price-time book. -/
class LawfulBook (B : Type) {ι : Type} [DecidableEq ι] [Book B ι] : Prop
    extends ConservesQuantity B where
  rests_empty (i : ι) : Book.rests (Book.empty : B) i = none
  cancel_removes {b b' : B} {i : ι} {found : Bool} (h : Book.cancel b i = .ok (b', found)) (j : ι) :
    Book.rests b' j = if j = i then none else Book.rests b j
  trade_maker {b b' : B} {i : ι} {side : BookSide} {price quantity : Nat} {r : MatchResult ι}
    (h : Book.addLimit b i side price quantity = .ok (b', r)) {t : Trade ι} (ht : t ∈ r.trades) :
    ∃ order, Book.rests b t.maker = some order ∧ order.side = side.opposite ∧
      order.price = t.price ∧ side.Accepts price t.price
  addLimit_others {b b' : B} {i : ι} {side : BookSide} {price quantity : Nat} {r : MatchResult ι}
    (h : Book.addLimit b i side price quantity = .ok (b', r)) {j : ι} (hj : j ≠ i) :
    Book.rests b' j = (Book.rests b j).bind fun order => order.after (r.matchedOf j)
  addLimit_self {b b' : B} {i : ι} {side : BookSide} {price quantity : Nat} {r : MatchResult ι}
    (hfresh : Book.rests b i = none) (h : Book.addLimit b i side price quantity = .ok (b', r)) :
    Book.rests b' i = if r.remaining = 0 then none else some ⟨side, price, r.remaining⟩

/-- No order gives more than what rests of it. -/
class BoundsMakers (B : Type) {ι : Type} [DecidableEq ι] [Book B ι] : Prop
    extends LawfulBook B where
  matched_le {b b' : B} {i : ι} {side : BookSide} {price quantity : Nat} {r : MatchResult ι}
    (h : Book.addLimit b i side price quantity = .ok (b', r)) {j : ι} {order : Resting}
    (horder : Book.rests b j = some order) : r.matchedOf j ≤ order.size

section Rests

variable {B ι : Type} [DecidableEq ι] [Book B ι] [LawfulBook B] {b b' : B} {i j : ι}

theorem Resting.price_after {order left : Resting} {matched : Nat}
    (h : order.after matched = some left) : left.price = order.price ∧ left.side = order.side := by
  unfold Resting.after at h
  split_ifs at h
  cases h
  exact ⟨rfl, rfl⟩

/-- What another order's submission leaves in the book was there, on the same side and at the
same price. -/
theorem LawfulBook.rests_of_addLimit {side : BookSide} {price quantity : Nat} {r : MatchResult ι}
    (h : Book.addLimit b i side price quantity = .ok (b', r)) (hj : j ≠ i) {left : Resting}
    (hleft : Book.rests b' j = some left) :
    ∃ order, Book.rests b j = some order ∧ order.price = left.price ∧ order.side = left.side := by
  rw [LawfulBook.addLimit_others h hj] at hleft
  obtain ⟨order, horder, hafter⟩ := Option.bind_eq_some_iff.1 hleft
  obtain ⟨hprice, hside⟩ := Resting.price_after hafter
  exact ⟨order, horder, hprice.symm, hside.symm⟩

/-- What a cancel leaves in the book was there. -/
theorem LawfulBook.rests_of_cancel {found : Bool} (h : Book.cancel b i = .ok (b', found))
    {left : Resting} (hleft : Book.rests b' j = some left) : Book.rests b j = some left := by
  rw [LawfulBook.cancel_removes h j] at hleft
  split_ifs at hleft
  exact hleft

end Rests

end OrderBook
