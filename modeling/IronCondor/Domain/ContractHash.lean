import IronCondor.Domain.Contract

/-! # Hashing a contract

Maps over contracts are hashed as well as ordered. A decimal day count has many spellings, so
the hash takes the one with no trailing zero, and equal contracts feed the hasher the same. -/
namespace IronCondor

open Std (TransCmp OrientedCmp)

namespace Decimal

/-- Trailing zeros leave a mantissa as long as its scale allows. -/
def stripZeros (mantissa : Int) : Nat → Decimal
  | 0 => ⟨mantissa, 0⟩
  | scale + 1 =>
    if mantissa % 10 = 0 then stripZeros (mantissa / 10) scale else ⟨mantissa, scale + 1⟩

/-- `Decimal::normalize`. -/
def normalize (d : Decimal) : Decimal := stripZeros d.mantissa d.scale

/-- No zero ends the digits after the point. -/
def IsNormal (d : Decimal) : Prop := d.scale = 0 ∨ d.mantissa % 10 ≠ 0

theorem stripZeros_isNormal (mantissa : Int) (scale : Nat) :
    (stripZeros mantissa scale).IsNormal := by
  induction scale generalizing mantissa with
  | zero => exact .inl rfl
  | succ scale ih =>
    unfold stripZeros
    by_cases hzero : mantissa % 10 = 0
    · rw [if_pos hzero]
      exact ih _
    · rw [if_neg hzero]
      exact .inr hzero

theorem stripZeros_toRat (mantissa : Int) (scale : Nat) :
    (stripZeros mantissa scale).toRat = toRat ⟨mantissa, scale⟩ := by
  induction scale generalizing mantissa with
  | zero => rfl
  | succ scale ih =>
    unfold stripZeros
    by_cases hzero : mantissa % 10 = 0
    · have hten : (mantissa : ℚ) = (mantissa / 10 : Int) * 10 := by
        have h : mantissa = mantissa / 10 * 10 := by omega
        exact_mod_cast h
      rw [if_pos hzero, ih]
      simp only [toRat]
      rw [hten, pow_succ, mul_div_mul_right _ _ (by norm_num)]
    · rw [if_neg hzero]

@[simp] theorem normalize_toRat (d : Decimal) : d.normalize.toRat = d.toRat := stripZeros_toRat _ _

theorem normalize_isNormal (d : Decimal) : d.normalize.IsNormal := stripZeros_isNormal _ _

/-- Of two spellings of a number, the longer one ends in a zero unless they are one. -/
theorem IsNormal.eq_of_le {a b : Decimal} (hb : b.IsNormal) (hle : a.scale ≤ b.scale)
    (h : a.toRat = b.toRat) : a = b := by
  obtain ⟨k, hk⟩ := Nat.exists_eq_add_of_le hle
  have hcross : b.mantissa = a.mantissa * 10 ^ k := by
    have hscale : (0 : ℚ) < 10 ^ a.scale := by positivity
    have hpow : (0 : ℚ) < 10 ^ k := by positivity
    unfold toRat at h
    rw [hk, pow_add, div_eq_div_iff hscale.ne' (by positivity)] at h
    have hcast : (b.mantissa : ℚ) = a.mantissa * 10 ^ k := by
      apply mul_right_cancel₀ hscale.ne'
      rw [← h]
      ring
    exact_mod_cast hcast
  cases k with
  | zero =>
    obtain ⟨mantissa, scale⟩ := b
    simp only [pow_zero, mul_one] at hcross
    rw [Nat.add_zero] at hk
    subst hcross hk
    rfl
  | succ k =>
    have hzero : b.mantissa % 10 = 0 := by
      rw [hcross, pow_succ, ← mul_assoc]
      exact Int.mul_emod_left _ _
    rcases hb with hb | hb
    · omega
    · exact absurd hzero hb

/-- Spellings of one number normalise to the same digits. -/
theorem normalize_eq_of_cmp {a b : Decimal} (h : a.cmp b = .eq) : a.normalize = b.normalize := by
  have hvalue : a.normalize.toRat = b.normalize.toRat := by
    rw [cmp_eq_compareOn] at h
    rw [normalize_toRat, normalize_toRat]
    exact compare_eq_iff_eq.1 h
  rcases Nat.le_total a.normalize.scale b.normalize.scale with hle | hle
  · exact b.normalize_isNormal.eq_of_le hle hvalue
  · exact (a.normalize_isNormal.eq_of_le hle hvalue.symm).symm

end Decimal

/-- One call of a hasher: a text with its terminator, or an integer of a width. -/
inductive HashWrite where
  | text (value : String)
  | int (bits : Nat) (value : Int)
deriving DecidableEq

/-- What an expiration feeds to a hasher: its variant, then its day count without trailing zeros,
or its instant as day, second of the day and fraction. -/
def ExpirationDate.hash : ExpirationDate → List HashWrite
  | .Days days =>
    let normalized := days.normalize
    [.int 8 0, .int 128 normalized.mantissa, .int 32 normalized.scale]
  | .DateTime instant =>
    [.int 8 1, .int 32 (instant.timestamp / 86400), .int 32 (instant.timestamp % 86400),
      .int 32 instant.subsecNanos]

theorem ExpirationDate.hash_eq_of_cmp {a b : ExpirationDate} (h : expirationExactCmp a b = .eq) :
    a.hash = b.hash := by
  cases a with
  | Days d =>
    cases b with
    | Days d' => simp only [hash, Decimal.normalize_eq_of_cmp h]
    | DateTime t' => cases h
  | DateTime t =>
    cases b with
    | Days d' => cases h
    | DateTime t' => rw [Std.compare_eq_iff_eq.1 h]

namespace ContractKey

/-- The writes of `Hash for ContractKey`. -/
def hash (key : ContractKey) : List HashWrite :=
  [.text key.underlying.ticker] ++ key.expiration.hash ++
    [.int 64 key.strike.value, .int 64 key.style.ctorIdx]

/-- The fields of contracts that compare equal. -/
theorem cmp_eq_iff {a b : ContractKey} : a.cmp b = .eq ↔ a.underlying = b.underlying ∧
    expirationExactCmp a.expiration b.expiration = .eq ∧ a.strike = b.strike ∧
      a.style = b.style := by
  simp only [cmp, Ordering.then_eq_eq, Std.compare_eq_iff_eq]

theorem hash_eq_of_cmp {a b : ContractKey} (h : a.cmp b = .eq) : a.hash = b.hash := by
  obtain ⟨hunderlying, hexpiration, hstrike, hstyle⟩ := cmp_eq_iff.1 h
  simp only [hash, hunderlying, ExpirationDate.hash_eq_of_cmp hexpiration, hstrike, hstyle]

/-- Equality, order and hash of contracts agree, and the order is total. -/
theorem coherent (a b c : ContractKey) :
    ((a == b) = true ↔ a.cmp b = .eq) ∧
    ((a == b) = true → a.hash = b.hash) ∧
    a.cmp b = (b.cmp a).swap ∧
    ((a.cmp b).isLE = true → (b.cmp a).isLE = true → (a == b) = true) ∧
    ((a.cmp b).isLE = true → (b.cmp c).isLE = true → (a.cmp c).isLE = true) ∧
    ((a.cmp b).isLE = true ∨ (b.cmp a).isLE = true) := by
  have htrans : TransCmp cmp := inferInstanceAs (TransCmp (α := ContractKey) compare)
  have hswap : a.cmp b = (b.cmp a).swap := OrientedCmp.eq_swap
  have heq : (a == b) = true ↔ a.cmp b = .eq := beq_iff_cmp_eq
  refine ⟨heq, ?_, hswap, ?_, ?_, ?_⟩
  · intro h
    exact hash_eq_of_cmp (heq.1 h)
  · intro hab hba
    rw [hswap] at hab
    rw [heq, hswap]
    cases hcmp : b.cmp a with
    | lt => simp [hcmp] at hab
    | eq => rfl
    | gt => simp [hcmp] at hba
  · intro hab hbc
    exact htrans.isLE_trans hab hbc
  · rw [hswap]
    cases b.cmp a with
    | lt => exact .inr rfl
    | eq => exact .inl rfl
    | gt => exact .inl rfl

end ContractKey

end IronCondor
