import IronCondor.Lib.OrderedMap

/-! # Counting the entries of an ordered map

The number of values that satisfy a condition moves by one with every entry that comes or goes,
and not at all when a value is replaced by one that counts the same. -/
namespace Tally

open Std

variable {κ ν : Type} [Ord κ] [TransOrd κ] [LawfulEqOrd κ] [DecidableEq κ] {p : ν → Prop}
  [DecidablePred p] {m : TreeMap κ ν} {k : κ} {v v' : ν}

/-- How many values of the map satisfy `p`. -/
def tally (p : ν → Prop) [DecidablePred p] (m : TreeMap κ ν) : Nat :=
  m.toList.countP fun e => p e.2

omit [TransOrd κ] [LawfulEqOrd κ] [DecidableEq κ] in
@[simp] theorem tally_empty : tally p (∅ : TreeMap κ ν) = 0 := rfl

omit [LawfulEqOrd κ] [DecidableEq κ] in
theorem nodup_toList (m : TreeMap κ ν) : m.toList.Nodup := by
  refine TreeMap.distinct_keys_toList.imp ?_
  rintro a b hne rfl
  exact hne ReflCmp.compare_self

omit [DecidableEq κ] in
/-- Maps with the same lookups count alike. -/
theorem tally_congr {m' : TreeMap κ ν} (h : ∀ a : κ, m[a]? = m'[a]?) :
    tally p m = tally p m' := by
  refine List.Perm.countP_eq _ ?_
  rw [List.perm_ext_iff_of_nodup (nodup_toList m) (nodup_toList m')]
  rintro ⟨a, w⟩
  rw [TreeMap.mem_toList_iff_getElem?_eq_some, TreeMap.mem_toList_iff_getElem?_eq_some, h]

/-- A new entry counts for itself. -/
theorem tally_insert (hnew : m[k]? = none) :
    tally p (m.insert k v) = tally p m + if p v then 1 else 0 := by
  have hall : (m.toList.filter fun e => ¬ (k == e.1)) = m.toList := by
    refine List.filter_eq_self.2 fun e he => ?_
    have hfound := TreeMap.getElem?_eq_some_iff_exists_compare_eq_eq_and_mem_toList.2
      ⟨e.1, ReflCmp.compare_self, he⟩
    simp only [beq_iff_eq, decide_eq_true_eq]
    rintro rfl
    cases hnew.symm.trans hfound
  have hperm := TreeMap.toList_insert_perm (t := m) (k := k) (v := v)
  rw [hall] at hperm
  rw [tally, hperm.countP_eq, List.countP_cons]
  simp [tally]

/-- An entry that goes counts no more. -/
theorem tally_erase (hold : m[k]? = some v) :
    tally p (m.erase k) + (if p v then 1 else 0) = tally p m := by
  have hback : ∀ a : κ, ((m.erase k).insert k v)[a]? = m[a]? := by
    intro a
    rw [OrderedMap.getElem?_insert, OrderedMap.getElem?_erase]
    split_ifs with ha
    · rw [ha, hold]
    · rfl
  rw [← tally_congr hback, tally_insert]
  rw [OrderedMap.getElem?_erase, if_pos rfl]

/-- A replaced value counts as the old one did. -/
theorem tally_replace (hold : m[k]? = some v) (hsame : p v ↔ p v') :
    tally p (m.insert k v') = tally p m := by
  have hback : ∀ a : κ, ((m.erase k).insert k v')[a]? = (m.insert k v')[a]? := by
    intro a
    simp only [OrderedMap.getElem?_insert, OrderedMap.getElem?_erase]
    split_ifs <;> rfl
  have hnew : (m.erase k)[k]? = none := by
    rw [OrderedMap.getElem?_erase, if_pos rfl]
  rw [← tally_congr hback, tally_insert hnew, ← tally_erase hold]
  simp only [hsame]

omit [LawfulEqOrd κ] [DecidableEq κ] in
theorem tally_pos : 0 < tally p m ↔ ∃ (k : κ) (v : ν), m[k]? = some v ∧ p v := by
  rw [tally, List.countP_pos_iff]
  constructor
  · rintro ⟨e, he, hp⟩
    refine ⟨e.1, e.2, ?_, of_decide_eq_true hp⟩
    rw [TreeMap.getElem?_eq_some_iff_exists_compare_eq_eq_and_mem_toList]
    exact ⟨e.1, ReflCmp.compare_self, he⟩
  · rintro ⟨k, v, hfound, hp⟩
    obtain ⟨k', -, hmem⟩ :=
      TreeMap.getElem?_eq_some_iff_exists_compare_eq_eq_and_mem_toList.1 hfound
    exact ⟨(k', v), hmem, decide_eq_true hp⟩

end Tally
