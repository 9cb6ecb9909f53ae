import IronCondor.Lib.Checked

/-! # Integers as text

The reader of decimal integers: an optional sign, then at least one digit, then the range check.
Only a range that has negative values takes a minus sign. -/
namespace IntegerText

open Checked

/-- The number that a non-empty row of digits writes. -/
def digits (cs : List Char) : Option Nat :=
  if cs ≠ [] ∧ cs.all Char.isDigit then some (Nat.ofDigitChars 10 cs 0) else none

def unsigned : List Char → Option Int
  | '+' :: cs => (digits cs).map Int.ofNat
  | cs => (digits cs).map Int.ofNat

def signed : List Char → Option Int
  | '-' :: cs => (digits cs).map fun n => -(n : Int)
  | cs => unsigned cs

/-- The value of range `r` that a text writes. -/
def parse (r : IntRange) (text : String) : Option (Bounded r) :=
  (if r.min < 0 then signed text.toList else unsigned text.toList).bind fun n =>
    if h : r.Contains n then some ⟨n, h⟩ else none

@[simp] theorem digits_toDigits (n : Nat) : digits (Nat.toDigits 10 n) = some n := by
  have hall : (Nat.toDigits 10 n).all Char.isDigit = true :=
    List.all_eq_true.2 fun c hc => Nat.isDigit_of_mem_toDigits (by decide) (by decide) hc
  simp [digits, hall, Nat.toDigits_ne_nil, Nat.ofDigitChars_ten_toDigits]

/-- The digits of a number do not start with a sign. -/
theorem head_toDigits {n : Nat} {c : Char} {cs : List Char} (h : Nat.toDigits 10 n = c :: cs) :
    c.isDigit = true :=
  Nat.isDigit_of_mem_toDigits (by decide) (by decide) (h ▸ List.mem_cons_self)

@[simp] theorem unsigned_toDigits (n : Nat) : unsigned (Nat.toDigits 10 n) = some (n : Int) := by
  unfold unsigned
  split
  · rename_i cs h
    exact absurd (head_toDigits h) (by decide)
  · simp

@[simp] theorem signed_toDigits (n : Nat) : signed (Nat.toDigits 10 n) = some (n : Int) := by
  unfold signed
  split
  · rename_i cs h
    exact absurd (head_toDigits h) (by decide)
  · simp

@[simp] theorem signed_neg (n : Nat) :
    signed ('-' :: Nat.toDigits 10 n) = some (-(n : Int)) := by
  simp [signed]

theorem unsigned_neg (cs : List Char) : unsigned ('-' :: cs) = none := by
  simp [unsigned, digits, Char.isDigit]

theorem toList_toString_ofNat (n : Nat) : (toString (n : Int)).toList = Nat.toDigits 10 n :=
  Nat.toList_repr

theorem toList_toString_negSucc (n : Nat) :
    (toString (Int.negSucc n)).toList = '-' :: Nat.toDigits 10 (n + 1) := by
  change ("-" ++ (n + 1).repr).toList = _
  rw [String.toList_append, Nat.toList_repr]
  rfl

/-- Reading the decimal text of a number gives the number back, if it is in range. -/
theorem parse_toString {r : IntRange} (n : Int) :
    parse r (toString n) = if h : r.Contains n then some ⟨n, h⟩ else none := by
  unfold parse
  rcases n with n | n
  · change Option.bind (if r.min < 0 then signed (toString (n : Int)).toList
      else unsigned (toString (n : Int)).toList) _ = _
    rw [toList_toString_ofNat, signed_toDigits, unsigned_toDigits, ite_self]
    rfl
  · rw [toList_toString_negSucc, signed_neg, unsigned_neg]
    by_cases hmin : r.min < 0
    · rw [if_pos hmin]
      rfl
    · have hout : ¬ r.Contains (Int.negSucc n) := by
        intro h
        have := h.1
        omega
      rw [if_neg hmin, dif_neg hout]
      rfl

theorem parse_toString_eq_some {r : IntRange} {n : Int} {b : Bounded r} :
    parse r (toString n) = some b ↔ b.value = n := by
  rw [parse_toString]
  split_ifs with h
  · rw [Option.some.injEq, Bounded.ext_iff, eq_comm]
  · constructor
    · intro hnone
      cases hnone
    · rintro rfl
      exact absurd b.inRange h

end IntegerText
