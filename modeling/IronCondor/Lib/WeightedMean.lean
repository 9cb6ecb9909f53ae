import Mathlib.Tactic
import IronCondor.Lib.HalfEven

/-! # Weighted means of integers

A mean with positive weights lies between the least and the greatest of its values, and so does
its rounding. The mean may pool values with an earlier mean of their kind. -/
namespace WeightedMean

open HalfEven

variable {α : Type} {value weight : α → Int} {xs : List α} {v lo hi : Int}

/-- `v` lies between the least and the greatest value of `xs`. -/
def Between (value : α → Int) (xs : List α) (v : Int) : Prop :=
  ∃ least ∈ xs, ∃ greatest ∈ xs, (∀ a ∈ xs, value least ≤ value a ∧ value a ≤ value greatest) ∧
    value least ≤ v ∧ v ≤ value greatest

/-- To lie between the extremes is to respect every pair of bounds. -/
theorem between_iff : Between value xs v ↔
    xs ≠ [] ∧ ∀ lo hi, (∀ a ∈ xs, lo ≤ value a ∧ value a ≤ hi) → lo ≤ v ∧ v ≤ hi := by
  constructor
  · rintro ⟨least, hleast, greatest, hgreatest, -, hlow, hhigh⟩
    refine ⟨List.ne_nil_of_mem hleast, fun lo hi h => ⟨?_, ?_⟩⟩
    · exact (h least hleast).1.trans hlow
    · exact hhigh.trans (h greatest hgreatest).2
  · rintro ⟨hne, h⟩
    have hfinite : {a | a ∈ xs}.Finite := xs.finite_toSet
    obtain ⟨least, hleast, hlow⟩ := Set.exists_min_image _ value hfinite
      (List.exists_mem_of_ne_nil xs hne)
    obtain ⟨greatest, hgreatest, hhigh⟩ := Set.exists_max_image _ value hfinite
      (List.exists_mem_of_ne_nil xs hne)
    have hbounds : ∀ a ∈ xs, value least ≤ value a ∧ value a ≤ value greatest :=
      fun a ha => ⟨hlow a ha, hhigh a ha⟩
    exact ⟨least, hleast, greatest, hgreatest, hbounds, h _ _ hbounds⟩

/-- More values leave more room. -/
theorem Between.mono {ys : List α} (h : Between value xs v) (hsub : xs ⊆ ys) :
    Between value ys v := by
  rw [between_iff] at h ⊢
  obtain ⟨hne, hbounds⟩ := h
  obtain ⟨a, ha⟩ := List.exists_mem_of_ne_nil xs hne
  exact ⟨List.ne_nil_of_mem (hsub ha), fun lo hi hall =>
    hbounds lo hi fun b hb => hall b (hsub hb)⟩

/-- A weighted sum lies where its values lie. -/
theorem weighted_between (hweight : ∀ a ∈ xs, 0 ≤ weight a)
    (h : ∀ a ∈ xs, lo ≤ value a ∧ value a ≤ hi) :
    lo * (xs.map weight).sum ≤ (xs.map fun a => value a * weight a).sum ∧
      (xs.map fun a => value a * weight a).sum ≤ hi * (xs.map weight).sum := by
  induction xs with
  | nil => simp
  | cons a xs ih =>
    obtain ⟨hpos, hrest⟩ := List.forall_mem_cons.1 hweight
    obtain ⟨⟨hlo, hhi⟩, htail⟩ := List.forall_mem_cons.1 h
    obtain ⟨hlow, hhigh⟩ := ih hrest htail
    simp only [List.map_cons, List.sum_cons, mul_add]
    exact ⟨add_le_add (mul_le_mul_of_nonneg_right hlo hpos) hlow,
      add_le_add (mul_le_mul_of_nonneg_right hhi hpos) hhigh⟩

/-- The rounded quotient of a bounded sum keeps the bounds. -/
theorem halfEven_between {n t : Int} (ht : 0 < t) (hlo : lo * t ≤ n) (hhi : n ≤ hi * t) :
    lo ≤ halfEven (n / t) ∧ halfEven (n / t) ≤ hi := by
  have htq : (0 : ℚ) < t := by exact_mod_cast ht
  constructor
  · apply le_halfEven
    rw [le_div_iff₀ htq]
    exact_mod_cast hlo
  · apply halfEven_le
    rw [div_le_iff₀ htq]
    exact_mod_cast hhi

/-- The rounded mean of some values lies between them. -/
theorem mean_between (hne : xs ≠ []) (hweight : ∀ a ∈ xs, 0 ≤ weight a)
    (hpos : 0 < (xs.map weight).sum) :
    Between value xs (halfEven ((xs.map fun a => value a * weight a).sum /
      (xs.map weight).sum)) := by
  rw [between_iff]
  refine ⟨hne, fun lo hi h => ?_⟩
  obtain ⟨hlow, hhigh⟩ := weighted_between hweight h
  exact_mod_cast halfEven_between hpos hlow hhigh

end WeightedMean
