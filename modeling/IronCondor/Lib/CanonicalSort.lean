import Mathlib.Data.List.Sort
import Std.Data.TreeMap

/-! # Sorting as a canonical form

A list sorted by a comparison under which only equal values tie does not show the order it came
in. -/
namespace CanonicalSort

open Std (TransCmp LawfulEqCmp OrientedCmp)

variable {α : Type*} {cmp : α → α → Ordering} {l l' : List α}

theorem isLE_total [OrientedCmp cmp] (a b : α) :
    ((cmp a b).isLE || (cmp b a).isLE) = true := by
  have hswap : cmp b a = (cmp a b).swap := OrientedCmp.eq_swap
  rw [hswap]
  cases cmp a b <;> rfl

variable [TransCmp cmp]

theorem pairwise_sort (l : List α) :
    (l.mergeSort fun a b => (cmp a b).isLE).Pairwise fun a b => (cmp a b).isLE = true :=
  List.pairwise_mergeSort (fun _ _ _ => TransCmp.isLE_trans) isLE_total l

theorem sort_sort (l : List α) :
    (l.mergeSort fun a b => (cmp a b).isLE).mergeSort (fun a b => (cmp a b).isLE) =
      l.mergeSort fun a b => (cmp a b).isLE :=
  List.mergeSort_of_pairwise (pairwise_sort l)

theorem sort_perm [LawfulEqCmp cmp] (h : l.Perm l') :
    (l.mergeSort fun a b => (cmp a b).isLE) = l'.mergeSort fun a b => (cmp a b).isLE := by
  have hperm := (List.mergeSort_perm l fun a b => (cmp a b).isLE).trans
    (h.trans (List.mergeSort_perm l' fun a b => (cmp a b).isLE).symm)
  refine hperm.eq_of_pairwise ?_ (pairwise_sort l) (pairwise_sort l')
  intro a b _ _ hab hba
  exact LawfulEqCmp.eq_of_compare (OrientedCmp.isLE_antisymm hab hba)

end CanonicalSort
