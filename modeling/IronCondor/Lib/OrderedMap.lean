import Mathlib.Tactic
import Std.Data.TreeMap

/-! # Ordered maps

Lookups after the updates of a `TreeMap` that a run makes. -/
namespace OrderedMap

open Std

variable {κ ν : Type} {cmp : κ → κ → Ordering}

/-- Keep the entries whose key satisfies `keep`. -/
def retain (keep : κ → Bool) (m : TreeMap κ ν cmp) : TreeMap κ ν cmp :=
  (m.toList.filter fun e => !keep e.1).foldl (fun m e => m.erase e.1) m

variable [TransCmp cmp]

theorem getElem?_foldl_erase (es : List (κ × ν)) (m : TreeMap κ ν cmp) (k : κ) :
    (es.foldl (fun m e => m.erase e.1) m)[k]? =
      if ∃ e ∈ es, cmp e.1 k = .eq then none else m[k]? := by
  induction es generalizing m with
  | nil => simp
  | cons e es ih =>
    rw [List.foldl_cons, ih, TreeMap.getElem?_erase]
    by_cases hes : ∃ e ∈ es, cmp e.1 k = .eq
    · rw [if_pos hes, if_pos]
      obtain ⟨e', he', hk⟩ := hes
      exact ⟨e', List.mem_cons_of_mem _ he', hk⟩
    · simp [hes]

theorem getElem?_foldl_insert (v : ν) (es : List (κ × ν)) (m : TreeMap κ ν cmp) (k : κ) :
    (es.foldl (fun m e => m.insert e.1 v) m)[k]? =
      if ∃ e ∈ es, cmp e.1 k = .eq then some v else m[k]? := by
  induction es generalizing m with
  | nil => simp
  | cons e es ih =>
    rw [List.foldl_cons, ih, TreeMap.getElem?_insert]
    by_cases hes : ∃ e ∈ es, cmp e.1 k = .eq
    · rw [if_pos hes, if_pos]
      obtain ⟨e', he', hk⟩ := hes
      exact ⟨e', List.mem_cons_of_mem _ he', hk⟩
    · simp [hes]

/-- A key either is retained with its value, or is gone. -/
theorem getElem?_retain {keep : κ → Bool} (hkeep : ∀ j k, cmp j k = .eq → keep j = keep k)
    (m : TreeMap κ ν cmp) (k : κ) :
    (retain keep m)[k]? = if keep k then m[k]? else none := by
  unfold retain
  rw [getElem?_foldl_erase]
  by_cases hk : keep k = true
  · rw [if_neg, if_pos hk]
    rintro ⟨e, he, hek⟩
    have hf : keep e.1 = false := by simpa using (List.mem_filter.1 he).2
    rw [hkeep _ _ hek, hk] at hf
    cases hf
  · rw [if_neg hk]
    rw [Bool.not_eq_true] at hk
    split_ifs with h
    · rfl
    · rcases hv : m[k]? with _ | v
      · rfl
      · obtain ⟨k', hk', hmem⟩ :=
          TreeMap.getElem?_eq_some_iff_exists_compare_eq_eq_and_mem_toList.1 hv
        have hf : keep k' = false := (hkeep _ _ hk').symm.trans hk
        exact absurd ⟨(k', v), List.mem_filter.2 ⟨hmem, by simp [hf]⟩, OrientedCmp.eq_symm hk'⟩ h

section LawfulKeys

variable [Ord κ] [TransOrd κ] [LawfulEqOrd κ] [DecidableEq κ]

theorem getElem?_insert (m : TreeMap κ ν) (k a : κ) (v : ν) :
    (m.insert k v)[a]? = if a = k then some v else m[a]? := by
  rw [TreeMap.getElem?_insert]
  simp only [Std.compare_eq_iff_eq, @eq_comm _ k a]

theorem getElem?_erase (m : TreeMap κ ν) (k a : κ) :
    (m.erase k)[a]? = if a = k then none else m[a]? := by
  rw [TreeMap.getElem?_erase]
  simp only [Std.compare_eq_iff_eq, @eq_comm _ k a]

end LawfulKeys

end OrderedMap
