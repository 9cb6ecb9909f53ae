import Mathlib.Tactic

/-! # Rounding to the nearest integer, midpoints to even

The rounding is monotone and leaves integers alone; nothing else about it is needed to bound what
it makes of a fraction. -/

/-- The nearest integer, the even one of two that are equally near. -/
def halfEven (q : ℚ) : Int :=
  if 2 * (q - ⌊q⌋) < 1 then ⌊q⌋
  else if 1 < 2 * (q - ⌊q⌋) then ⌊q⌋ + 1
  else if ⌊q⌋ % 2 = 0 then ⌊q⌋
  else ⌊q⌋ + 1

namespace HalfEven

variable {p q : ℚ} {n : Int}

/-- The result is within a half, and even when it is exactly a half away. -/
theorem halfEven_near (q : ℚ) :
    (2 * q ≤ 2 * halfEven q + 1 ∧ 2 * halfEven q - 1 ≤ 2 * q) ∧
      (2 * q = 2 * halfEven q + 1 ∨ 2 * q = 2 * halfEven q - 1 → halfEven q % 2 = 0) := by
  have hle := Int.floor_le q
  have hlt := Int.lt_floor_add_one q
  unfold halfEven
  split_ifs with hlow hhigh heven
  · refine ⟨⟨by linarith, by linarith⟩, ?_⟩
    rintro (h | h) <;> exfalso <;> linarith
  · push_cast
    refine ⟨⟨by linarith, by linarith⟩, ?_⟩
    rintro (h | h) <;> exfalso <;> linarith
  · exact ⟨⟨by linarith, by linarith⟩, fun _ => heven⟩
  · push_cast
    exact ⟨⟨by linarith, by linarith⟩, fun _ => by omega⟩

/-- Only one integer is nearest in this sense. -/
theorem halfEven_mono (h : p ≤ q) : halfEven p ≤ halfEven q := by
  obtain ⟨⟨-, hp⟩, hp'⟩ := halfEven_near p
  obtain ⟨⟨hq, -⟩, hq'⟩ := halfEven_near q
  by_contra hlt
  have hstep : halfEven q + 1 ≤ halfEven p := by omega
  have hstep' : (halfEven q : ℚ) + 1 ≤ halfEven p := by exact_mod_cast hstep
  -- the two results can only be neighbours, with `p = q` halfway between them
  have hpeq : 2 * p = 2 * halfEven p - 1 := by linarith
  have hqeq : 2 * q = 2 * halfEven q + 1 := by linarith
  have hnext : (halfEven p : ℚ) = halfEven q + 1 := by linarith
  have hnext' : halfEven p = halfEven q + 1 := by exact_mod_cast hnext
  have hpeven := hp' (.inr hpeq)
  have hqeven := hq' (.inl hqeq)
  omega

@[simp] theorem halfEven_intCast (n : Int) : halfEven n = n := by
  simp [halfEven]

theorem halfEven_le (h : q ≤ n) : halfEven q ≤ n := by
  simpa using halfEven_mono h

theorem le_halfEven (h : (n : ℚ) ≤ q) : n ≤ halfEven q := by
  simpa using halfEven_mono h

/-- The rounding of a fraction, read off the quotient and twice the remainder. -/
theorem halfEven_div {t : Int} (n : Int) (ht : 0 < t) :
    halfEven (n / t) = if n % t * 2 < t then n / t else if t < n % t * 2 then n / t + 1
      else if n / t % 2 = 0 then n / t else n / t + 1 := by
  have htq : (0 : ℚ) < t := by exact_mod_cast ht
  have hfloor : ⌊(n : ℚ) / t⌋ = n / t := by
    lift t to ℕ using ht.le
    exact_mod_cast Rat.floor_intCast_div_natCast n t
  have hsplit : (n : ℚ) = t * (n / t : Int) + (n % t : Int) := by
    exact_mod_cast (Int.mul_ediv_add_emod n t).symm
  have hrem : 2 * ((n : ℚ) / t - (n / t : Int)) = (n % t * 2 : Int) / t := by
    push_cast
    field_simp
    linarith
  have hlow : ((n % t * 2 : Int) : ℚ) / t < 1 ↔ n % t * 2 < t := by
    rw [div_lt_one htq]
    exact_mod_cast Iff.rfl
  have hhigh : 1 < ((n % t * 2 : Int) : ℚ) / t ↔ t < n % t * 2 := by
    rw [one_lt_div htq]
    exact_mod_cast Iff.rfl
  simp only [halfEven, hfloor, hrem, hlow, hhigh]

/-- Halves of odd numbers go to the even neighbour. -/
theorem halfEven_half (n : Int) :
    halfEven (n / 2) = if n % 4 = 3 then (n + 1) / 2 else n / 2 := by
  have hfloor : ⌊(n : ℚ) / 2⌋ = n / 2 := by exact_mod_cast Rat.floor_intCast_div_natCast n 2
  have hsplit := Int.mul_ediv_add_emod n 2
  have hcast : (n : ℚ) = 2 * (n / 2 : Int) + (n % 2 : Int) := by exact_mod_cast hsplit.symm
  have hrem : 2 * ((n : ℚ) / 2 - (n / 2 : Int)) = (n % 2 : Int) := by linarith
  rw [halfEven, hfloor, hrem]
  rcases Int.emod_two_eq_zero_or_one n with h | h
  · rw [h]
    norm_num
    omega
  · rw [h]
    norm_num
    split_ifs <;> omega

end HalfEven
