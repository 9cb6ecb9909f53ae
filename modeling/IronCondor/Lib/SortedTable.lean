import IronCondor.Lib.CanonicalSort
import Mathlib

/-! # Tables sorted by a key

Rows sorted by a key that no two of them share do not show the order they came in, and a repeated
key shows up in adjacent rows. Rows are written in chunks of a fixed size. -/
namespace SortedTable

open Std (TransCmp LawfulEqCmp OrientedCmp)

variable {α κ : Type*} {cmp : κ → κ → Ordering} {key : α → κ} {rows rows' : List α}

/-- The first row may stand before the second. -/
abbrev Precedes (cmp : κ → κ → Ordering) (key : α → κ) (a b : α) : Prop :=
  (cmp (key a) (key b)).isLE = true

/-- The rows in the order of their keys; rows that share a key keep their order. -/
def sort (cmp : κ → κ → Ordering) (key : α → κ) (rows : List α) : List α :=
  rows.insertionSort (Precedes cmp key)

section Order

theorem sort_perm (cmp : κ → κ → Ordering) (key : α → κ) (rows : List α) :
    (sort cmp key rows).Perm rows :=
  List.perm_insertionSort _ _

@[simp] theorem mem_sort {a : α} : a ∈ sort cmp key rows ↔ a ∈ rows :=
  (sort_perm cmp key rows).mem_iff

@[simp] theorem length_sort : (sort cmp key rows).length = rows.length :=
  (sort_perm cmp key rows).length_eq

theorem nodup_sort : ((sort cmp key rows).map key).Nodup ↔ (rows.map key).Nodup :=
  ((sort_perm cmp key rows).map key).nodup_iff

/-- The rows are in the order of their keys. -/
def Sorted (cmp : κ → κ → Ordering) (key : α → κ) (rows : List α) : Prop :=
  rows.Pairwise (Precedes cmp key)

theorem sort_of_sorted (h : Sorted cmp key rows) : sort cmp key rows = rows :=
  List.Pairwise.insertionSort_eq h

variable [TransCmp cmp]

instance : IsTrans α (Precedes cmp key) := ⟨fun _ _ _ => TransCmp.isLE_trans⟩

instance : Std.Total (Precedes cmp key) := ⟨fun a b => by
  have htotal : ((cmp (key a) (key b)).isLE || (cmp (key b) (key a)).isLE) = true :=
    CanonicalSort.isLE_total (key a) (key b)
  exact Bool.or_eq_true_iff.1 htotal⟩

theorem sorted_sort (rows : List α) : Sorted cmp key (sort cmp key rows) :=
  List.pairwise_insertionSort _ rows

theorem sort_sort (rows : List α) : sort cmp key (sort cmp key rows) = sort cmp key rows :=
  sort_of_sorted (sorted_sort rows)

variable [LawfulEqCmp cmp]

/-- Of sorted rows only adjacent ones need to be compared to find a repeated key. -/
theorem isChain_ne_iff_nodup (h : Sorted cmp key rows) :
    (rows.map key).IsChain (· ≠ ·) ↔ (rows.map key).Nodup := by
  constructor
  · intro hchain
    induction rows with
    | nil => exact List.nodup_nil
    | cons a rows ih =>
      obtain ⟨hle, hrest⟩ := List.pairwise_cons.1 h
      rw [List.map_cons, List.nodup_cons]
      refine ⟨fun hmem => ?_, ih hrest hchain.tail⟩
      obtain ⟨b, hb, hkey⟩ := List.mem_map.1 hmem
      rcases rows with _ | ⟨c, rows⟩
      · cases hb
      · -- the next row lies between two rows of one key, so it has this key too
        rw [List.map_cons, List.map_cons] at hchain
        apply hchain.rel
        have hcb : (cmp (key c) (key b)).isLE = true := by
          rcases List.mem_cons.1 hb with rfl | hb
          · have hself : cmp (key b) (key b) = .eq := Std.ReflCmp.compare_self
            rw [hself]
            rfl
          · exact (List.pairwise_cons.1 hrest).1 b hb
        rw [hkey] at hcb
        exact LawfulEqCmp.eq_of_compare
          (OrientedCmp.isLE_antisymm (hle c List.mem_cons_self) hcb)
  · exact List.Pairwise.isChain

end Order

section Positions

/-- Of rows where a later one bounds an earlier one only the last needs to be bounded. -/
theorem forall_last_iff {R : α → α → Prop} {P : α → Prop} (h : rows.Pairwise R)
    (hmono : ∀ a b, R a b → P b → P a) : (∀ a ∈ rows.getLast?, P a) ↔ ∀ a ∈ rows, P a := by
  constructor
  · intro hlast
    rcases List.eq_nil_or_concat' rows with rfl | ⟨front, last, rfl⟩
    · exact List.forall_mem_nil _
    · have hP : P last := hlast last (by simp)
      intro a ha
      rcases List.mem_append.1 ha with ha | ha
      · exact hmono a last ((List.pairwise_append.1 h).2.2 a ha last (by simp)) hP
      · rwa [List.mem_singleton.1 ha]
  · exact fun hall a ha => hall a (List.mem_of_getLast? ha)

/-- Sorted numbers count up from zero when they are distinct and less than their number. -/
theorem counts_up_iff {keys : List Int} (hsorted : keys.Pairwise (· ≤ ·))
    (hnonneg : ∀ k ∈ keys, 0 ≤ k) : keys = (List.range keys.length).map Nat.cast ↔
      keys.Nodup ∧ ∀ k ∈ keys, k < keys.length := by
  have hrange : ∀ k : Int, k ∈ (List.range keys.length).map (Nat.cast : Nat → Int) ↔
      0 ≤ k ∧ k < keys.length := by
    intro k
    simp only [List.mem_map, List.mem_range]
    constructor
    · rintro ⟨n, hn, rfl⟩
      omega
    · rintro ⟨hk, hlt⟩
      exact ⟨k.toNat, by omega, by omega⟩
  constructor
  · intro h
    refine ⟨?_, fun k hk => ((hrange k).1 (h ▸ hk)).2⟩
    rw [h]
    exact List.nodup_range.map Nat.cast_injective
  · rintro ⟨hnodup, hbound⟩
    have hsub : keys ⊆ (List.range keys.length).map Nat.cast :=
      fun k hk => (hrange k).2 ⟨hnonneg k hk, hbound k hk⟩
    have hperm : keys.Perm ((List.range keys.length).map Nat.cast) :=
      (hnodup.subperm hsub).perm_of_length_le (by simp)
    refine hperm.eq_of_pairwise (fun a b _ _ hab hba => le_antisymm hab hba) hsorted ?_
    rw [List.pairwise_map]
    exact List.pairwise_lt_range.imp fun h => by omega

end Positions

section Chunks

/-- The chunks of at most `n` rows, `fuel` of them at most. -/
def chunksFuel (n : Nat) : Nat → List α → List (List α)
  | 0, _ => []
  | fuel + 1, rows => if rows.isEmpty then [] else rows.take n :: chunksFuel n fuel (rows.drop n)

/-- The rows in chunks of at most `n`. -/
def chunks (n : Nat) (rows : List α) : List (List α) := chunksFuel n rows.length rows

theorem flatten_chunksFuel {n fuel : Nat} (hn : 0 < n) (h : rows.length ≤ fuel) :
    (chunksFuel n fuel rows).flatten = rows := by
  induction fuel generalizing rows with
  | zero => rw [chunksFuel, List.flatten_nil, List.eq_nil_of_length_eq_zero (Nat.le_zero.1 h)]
  | succ fuel ih =>
    rw [chunksFuel]
    split_ifs with hempty
    · rw [List.flatten_nil, List.isEmpty_iff.1 hempty]
    · have hpos : 0 < rows.length := List.length_pos_iff.2 fun hnil => hempty (by simp [hnil])
      rw [List.flatten_cons, ih (by rw [List.length_drop]; omega), List.take_append_drop]

/-- The chunks are the rows. -/
theorem flatten_chunks {n : Nat} (hn : 0 < n) (rows : List α) : (chunks n rows).flatten = rows :=
  flatten_chunksFuel hn le_rfl

end Chunks

end SortedTable
