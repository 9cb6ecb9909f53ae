import IronCondor.Data.SmallMarket
import IronCondor.Lib.HalfEven

/-! # Decimal rounding

The decimal type has a 96-bit mantissa and at most 28 decimals. A result that does not fit is
rounded, by one monotone rounding that leaves what fits alone. -/
namespace IronCondor

open HalfEven

namespace Decimal

/-- A decimal that the upstream type can hold. -/
def Representable (d : Decimal) : Prop := |d.mantissa| < 2 ^ 96 ∧ d.scale ≤ 28

instance (d : Decimal) : Decidable d.Representable := inferInstanceAs (Decidable (_ ∧ _))

/-- A rounding of exact results to decimals. -/
structure Rounding (rnd : ℚ → ℚ) : Prop where
  mono : Monotone rnd
  representable : ∀ d : Decimal, d.Representable → rnd d.toRat = d.toRat
  idem : ∀ q, rnd (rnd q) = rnd q

@[simp] theorem toRat_ofInt (n : Int) : (ofInt n).toRat = n := by
  simp [ofInt, toRat]

/-- The decimal rounding is that of its value. -/
theorem roundHalfEven_eq (d : Decimal) : d.roundHalfEven = halfEven d.toRat := by
  have hpow : (0 : Int) < 10 ^ d.scale := by positivity
  have hpow' : (0 : ℚ) < 10 ^ d.scale := by positivity
  have hfloor : ⌊d.toRat⌋ = d.mantissa / 10 ^ d.scale := by
    have h := Rat.floor_intCast_div_natCast d.mantissa (10 ^ d.scale)
    push_cast at h
    exact h
  have hsplit := Int.mul_ediv_add_emod d.mantissa (10 ^ d.scale)
  have hcast : (d.mantissa : ℚ) = 10 ^ d.scale * (d.mantissa / 10 ^ d.scale : Int) +
      (d.mantissa % 10 ^ d.scale : Int) := by exact_mod_cast hsplit.symm
  have hrem : 2 * (d.toRat - ⌊d.toRat⌋) =
      (2 * (d.mantissa % 10 ^ d.scale) : Int) / (10 ^ d.scale : Int) := by
    rw [hfloor, toRat]
    push_cast
    field_simp
    linarith
  unfold roundHalfEven halfEven
  rw [hrem, hfloor]
  have hone : ((2 * (d.mantissa % 10 ^ d.scale) : Int) : ℚ) / (10 ^ d.scale : Int) < 1 ↔
      2 * (d.mantissa % 10 ^ d.scale) < 10 ^ d.scale := by
    rw [div_lt_one (by exact_mod_cast hpow)]
    exact_mod_cast Iff.rfl
  have hone' : 1 < ((2 * (d.mantissa % 10 ^ d.scale) : Int) : ℚ) / (10 ^ d.scale : Int) ↔
      10 ^ d.scale < 2 * (d.mantissa % 10 ^ d.scale) := by
    rw [one_lt_div (by exact_mod_cast hpow)]
    exact_mod_cast Iff.rfl
  simp only [hone, hone']

end Decimal

/-- Products and halves are exact results rounded, and a result that fits is returned. -/
class RoundedArith (arith : DecimalArith) : Prop where
  product : ∃ rnd, Decimal.Rounding rnd ∧
    ∀ a b p, arith.checkedMul a b = some p → p.toRat = rnd (a.toRat * b.toRat)
  product_fits : ∀ a b d : Decimal, d.Representable → d.toRat = a.toRat * b.toRat →
    ∃ p, arith.checkedMul a b = some p
  half : ∃ rnd, Decimal.Rounding rnd ∧
    ∀ a q, arith.checkedDiv a (.ofInt 2) = some q → q.toRat = rnd (a.toRat / 2)
  half_fits : ∀ a d : Decimal, d.Representable → d.toRat = a.toRat / 2 →
    ∃ q, arith.checkedDiv a (.ofInt 2) = some q

theorem Decimal.rounding_id : Decimal.Rounding id := ⟨monotone_id, fun _ _ => rfl, fun _ => rfl⟩

open SmallMarket in
/-- Exact products and halves round nothing. -/
theorem SmallMarket.roundedArith : RoundedArith inferInstance where
  product := by
    refine ⟨id, Decimal.rounding_id, ?_⟩
    rintro a b _ ⟨⟩
    simp only [Decimal.toRat, pow_add, id_eq]
    push_cast
    field_simp
  product_fits a b _ _ _ := ⟨_, rfl⟩
  half := by
    refine ⟨id, Decimal.rounding_id, ?_⟩
    rintro a _ ⟨⟩
    simp only [Decimal.toRat, pow_succ, id_eq]
    push_cast
    field_simp
    ring
  half_fits a _ _ _ := ⟨_, if_pos rfl⟩

end IronCondor
