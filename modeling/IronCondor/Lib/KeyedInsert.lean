import IronCondor.Lib.Fold
import Std.Data.TreeMap

/-! # Filing items under their keys

Items are filed into an ordered map one after the other, and an item whose key is taken is
refused. Which lists are filed, and what the map then holds, does not depend on their order. -/
namespace KeyedInsert

open Checked ExceptRun Std

variable {α κ ν ε : Type} [Ord κ] [TransOrd κ] {key : ν → κ}

/-- No two entries share a key. -/
def Distinct (key : ν → κ) (entries : List ν) : Prop :=
  entries.Pairwise fun v w => compare (key v) (key w) ≠ .eq

/-- The entries filed one after the other. -/
def file (key : ν → κ) (map : TreeMap κ ν) (entries : List ν) : TreeMap κ ν :=
  entries.foldl (fun map v => map.insert (key v) v) map

omit [TransOrd κ] in
@[simp] theorem file_cons (map : TreeMap κ ν) (v : ν) (entries : List ν) :
    file key map (v :: entries) = file key (map.insert (key v) v) entries := rfl

theorem Distinct.perm {entries entries' : List ν} (h : Distinct key entries)
    (hperm : entries.Perm entries') : Distinct key entries' := by
  refine (hperm.pairwise_iff ?_).1 h
  intro v w hne heq
  exact hne (OrientedCmp.eq_symm heq)

/-- A key is free when no entry has it. -/
theorem contains_insert_false {map : TreeMap κ ν} {v w : ν} :
    (map.insert (key v) v).contains (key w) = false ↔
      compare (key v) (key w) ≠ .eq ∧ map.contains (key w) = false := by
  rw [TreeMap.contains_insert, Bool.or_eq_false_iff, beq_eq_false_iff_ne]

/-- A run that files its items succeeds when each is read, and no key is met twice. -/
theorem foldlM_file {step : TreeMap κ ν → α → Except ε (TreeMap κ ν)} {Reads : α → ν → Prop}
    (hstep : ∀ (map : TreeMap κ ν) (a : α) (map' : TreeMap κ ν), step map a = .ok map' ↔
      ∃ v, Reads a v ∧ map.contains (key v) = false ∧ map' = map.insert (key v) v)
    {items : List α} {map out : TreeMap κ ν} :
    items.foldlM step map = Except.ok out ↔ ∃ entries, List.Forall₂ Reads items entries ∧
      Distinct key entries ∧ (∀ v ∈ entries, map.contains (key v) = false) ∧
      out = file key map entries := by
  induction items generalizing map with
  | nil =>
    constructor
    · intro h
      cases foldlM_nil_ok.1 h
      exact ⟨[], .nil, .nil, by simp, rfl⟩
    · rintro ⟨_, ⟨⟩, -, -, rfl⟩
      exact foldlM_nil_ok.2 rfl
  | cons a items ih =>
    rw [foldlM_cons_ok]
    constructor
    · rintro ⟨_, hfirst, hrest⟩
      obtain ⟨v, hread, hfree, rfl⟩ := (hstep _ _ _).1 hfirst
      obtain ⟨entries, hreads, hdistinct, hfresh, rfl⟩ := ih.1 hrest
      have hboth := fun w hw => contains_insert_false.1 (hfresh w hw)
      refine ⟨v :: entries, .cons hread hreads, ?_, ?_, rfl⟩
      · exact List.pairwise_cons.2 ⟨fun w hw => (hboth w hw).1, hdistinct⟩
      · exact List.forall_mem_cons.2 ⟨hfree, fun w hw => (hboth w hw).2⟩
    · rintro ⟨_, hreads, hdistinct, hfresh, rfl⟩
      cases hreads with
      | @cons _ v _ entries hread hreads =>
        obtain ⟨hne, hdistinct⟩ := List.pairwise_cons.1 hdistinct
        obtain ⟨hfree, hfresh⟩ := List.forall_mem_cons.1 hfresh
        refine ⟨_, (hstep _ _ _).2 ⟨v, hread, hfree, rfl⟩,
          ih.2 ⟨entries, hreads, hdistinct, ?_, rfl⟩⟩
        exact fun w hw => contains_insert_false.2 ⟨hne w hw, hfresh w hw⟩

/-- A new key adds its entry to the listing. -/
theorem toList_insert_new {map : TreeMap κ ν} {v : ν} (h : map.contains (key v) = false) :
    (map.insert (key v) v).toList.Perm ((key v, v) :: map.toList) := by
  have hbeq : ∀ a b : κ, @BEq.beq κ ⟨fun a b => compare a b == .eq⟩ a b = (compare a b == .eq) :=
    fun _ _ => rfl
  let order : BEq κ := ⟨fun a b => compare a b == .eq⟩
  have hlawful : LawfulBEqCmp (compare : κ → κ → Ordering) := ⟨beq_iff_eq.symm⟩
  have hne : ∀ entry ∈ map.toList, compare (key v) entry.1 ≠ .eq := by
    rintro ⟨k, w⟩ hmem heq
    have hk := (TreeMap.getElem?_eq_some_iff_exists_compare_eq_eq_and_mem_toList.2 ⟨k, heq, hmem⟩)
    rw [TreeMap.getElem?_eq_none_of_contains_eq_false h] at hk
    cases hk
  have hperm := TreeMap.toList_insert_perm (t := map) (k := key v) (v := v)
  rwa [List.filter_eq_self.2 fun entry hentry => by
    simp only [hbeq]
    simpa using hne entry hentry] at hperm

/-- Filing distinct new keys adds their entries to the listing, and nothing else. -/
theorem toList_file (map : TreeMap κ ν) {entries : List ν} (hdistinct : Distinct key entries)
    (hfresh : ∀ v ∈ entries, map.contains (key v) = false) :
    (file key map entries).toList.Perm (map.toList ++ entries.map fun v => (key v, v)) := by
  induction entries generalizing map with
  | nil => simp [file]
  | cons v entries ih =>
    obtain ⟨hne, hdistinct⟩ := List.pairwise_cons.1 hdistinct
    obtain ⟨hfree, hfresh⟩ := List.forall_mem_cons.1 hfresh
    have hrest := ih _ hdistinct fun w hw => contains_insert_false.2 ⟨hne w hw, hfresh w hw⟩
    rw [file_cons, List.map_cons]
    apply hrest.trans
    exact ((toList_insert_new hfree).append_right _).trans List.perm_middle.symm

/-- The order in which distinct keys are filed does not show. -/
theorem toList_file_perm {entries entries' : List ν} (hdistinct : Distinct key entries)
    (hperm : entries.Perm entries') :
    (file key (∅ : TreeMap κ ν) entries).toList = (file key (∅ : TreeMap κ ν) entries').toList := by
  have hlist := toList_file ∅ hdistinct (by simp)
  have hlist' := toList_file ∅ (hdistinct.perm hperm) (by simp)
  refine (TreeMap.Equiv.of_toList_perm ?_).toList_eq
  apply hlist.trans
  apply List.Perm.trans _ hlist'.symm
  exact (hperm.map _).append_left _

end KeyedInsert
