import IronCondor.Error

/-! # Integer-cents money

Money crosses every boundary as integer cents, and its arithmetic is checked. -/
namespace IronCondor

open Checked

abbrev u32 : IntRange := .unsigned 32
abbrev u64 : IntRange := .unsigned 64
abbrev u128 : IntRange := .unsigned 128
abbrev i64 : IntRange := .signed 64
abbrev i128 : IntRange := .signed 128

section Small

theorem u32.contains_zero : u32.Contains 0 := by decide

theorem u32.contains_one : u32.Contains 1 := by decide

theorem u64.contains_zero : u64.Contains 0 := by decide

theorem u64.contains_one : u64.Contains 1 := by decide

theorem u128.contains_zero : u128.Contains 0 := by decide

theorem i64.contains_zero : i64.Contains 0 := by decide

theorem i128.contains_zero : i128.Contains 0 := by decide

end Small

/-- Signed ledger money in integer cents. -/
abbrev Cents := Bounded i64

/-- Quoted prices, premiums and strikes in integer cents; zero is a valid premium. -/
abbrev PriceCents := Bounded u64

/-- An order-book price in venue ticks. -/
abbrev Ticks := Bounded u128

namespace Cents

def zero : Cents := ⟨0, i64.contains_zero⟩

@[simp] theorem zero_value : zero.value = 0 := rfl

def checkedAdd (a b : Cents) : Outcome Cents := checked i64 (a.value + b.value)

def checkedSub (a b : Cents) : Outcome Cents := checked i64 (a.value - b.value)

end Cents

/-- A chain of `checked_mul` in `i128`. -/
def checkedProduct (x : Int) : List Int → Outcome (Bounded i128)
  | [] => checked i128 x
  | y :: ys => do
    let p ← checked i128 (x * y)
    checkedProduct p.value ys

theorem checkedProduct_eq_ok {x : Int} {ys : List Int} {p : Bounded i128}
    (h : checkedProduct x ys = .ok p) : p.value = x * ys.prod := by
  induction ys generalizing x with
  | nil => simpa [checkedProduct] using h
  | cons y ys ih =>
    simp only [checkedProduct, bind_ok_iff, narrow_eq_ok] at h
    obtain ⟨q, hq, h⟩ := h
    rw [ih h, hq, List.prod_cons, mul_assoc]

/-- A contract count: strictly positive and within `u32`. -/
@[ext] structure Quantity where
  value : Int
  pos : 0 < value
  le_max : value ≤ u32.max
deriving DecidableEq

namespace Quantity

/-- `Quantity::new` on a `u32`. -/
def new (n : Bounded u32) : Outcome Quantity :=
  if h : n.value = 0 then .error (.InvalidQuantity n.value)
  else .ok ⟨n.value, lt_of_le_of_ne n.nonneg (Ne.symm h), n.le_max⟩

@[simp] theorem new_eq_ok {n : Bounded u32} {q : Quantity} : new n = .ok q ↔ q.value = n.value := by
  have hq := q.pos
  unfold new
  split_ifs with h
  · constructor
    · nofun
    · omega
  · rw [Except.ok.injEq, Quantity.ext_iff, eq_comm]

def toU32 (q : Quantity) : Bounded u32 := ⟨q.value, q.pos.le, q.le_max⟩

@[simp] theorem toU32_value (q : Quantity) : q.toU32.value = q.value := rfl

/-- The checked narrowing of an integer to a contract count: out of `u32` overflows, zero is
invalid. -/
def ofInt (x : Int) : Outcome Quantity := do
  let n ← checked u32 x
  new n

@[simp] theorem ofInt_eq_ok {x : Int} {q : Quantity} : ofInt x = .ok q ↔ q.value = x := by
  simp only [ofInt, bind_ok_iff, narrow_eq_ok, new_eq_ok]
  constructor
  · rintro ⟨n, rfl, h⟩
    exact h
  · rintro rfl
    exact ⟨q.toU32, rfl, rfl⟩

end Quantity

/-- `Cents::checked_mul_qty`. -/
def Cents.checkedMulQty (a : Cents) (q : Quantity) : Outcome Cents :=
  checked i64 (a.value * q.value)

end IronCondor
