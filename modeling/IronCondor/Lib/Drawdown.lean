import Mathlib

/-! # The largest fall of a series

A scan with a running peak finds the largest fall of a series: of all the differences between a
value and one that does not come before it, the greatest. -/
namespace Drawdown

variable {α : Type*} [AddCommGroup α] [LinearOrder α]

/-- The falls of a series: an earlier value less a later one, or less itself. -/
def falls (xs : List α) : Set α :=
  {d | ∃ (i j : Nat) (a b : α), i ≤ j ∧ xs[i]? = some a ∧ xs[j]? = some b ∧ d = a - b}

/-- One step of the scan: the peak so far, and the largest fall so far. -/
def next (acc : α × α) (x : α) : α × α :=
  let peak := max acc.1 x
  (peak, max acc.2 (peak - x))

/-- The scan of a series from its first value. -/
def scan (start : α) (xs : List α) : α × α := xs.foldl next (start, 0)

theorem scan_append (start : α) (xs : List α) (x : α) :
    scan start (xs ++ [x]) = next (scan start xs) x :=
  List.foldl_append ..

theorem next_fall (acc : α × α) (x : α) : (next acc x).2 = max acc.2 ((next acc x).1 - x) := rfl

omit [LinearOrder α] in
/-- A value at the end adds its own falls. -/
theorem mem_falls_append {xs : List α} {x d : α} :
    d ∈ falls (xs ++ [x]) ↔ d ∈ falls xs ∨ ∃ a ∈ xs ++ [x], d = a - x := by
  constructor
  · rintro ⟨i, j, a, b, hij, ha, hb, rfl⟩
    rcases lt_or_ge j xs.length with hj | hj
    · rw [List.getElem?_append_left (by omega)] at ha
      rw [List.getElem?_append_left hj] at hb
      exact .inl ⟨i, j, a, b, hij, ha, hb, rfl⟩
    · rw [List.getElem?_append_right hj, List.getElem?_singleton] at hb
      split_ifs at hb
      cases hb
      exact .inr ⟨a, List.mem_of_getElem? ha, rfl⟩
  · rintro (⟨i, j, a, b, hij, ha, hb, rfl⟩ | ⟨a, ha, rfl⟩)
    · refine ⟨i, j, a, b, hij, ?_, ?_, rfl⟩
      · rwa [List.getElem?_append_left (List.getElem?_eq_some_iff.1 ha).1]
      · rwa [List.getElem?_append_left (List.getElem?_eq_some_iff.1 hb).1]
    · obtain ⟨i, hi⟩ := List.mem_iff_getElem?.1 ha
      have hlt := (List.getElem?_eq_some_iff.1 hi).1
      rw [List.length_append, List.length_singleton] at hlt
      exact ⟨i, xs.length, a, x, by omega, hi, by simp, rfl⟩

/-- The peak of the scan is the greatest value. -/
theorem scan_peak (start : α) (xs : List α) :
    IsGreatest {a | a ∈ start :: xs} (scan start xs).1 := by
  induction xs using List.reverseRecOn with
  | nil => exact ⟨List.mem_singleton_self start, fun a ha => (List.mem_singleton.1 ha).le⟩
  | append_singleton xs x ih =>
    rw [scan_append]
    have hset : {a | a ∈ start :: (xs ++ [x])} = insert x {a | a ∈ start :: xs} := by
      ext a
      simp [or_comm, or_left_comm]
    rw [hset, next]
    simpa [max_comm] using ih.insert x

variable [IsOrderedAddMonoid α]

/-- The scan finds the largest fall. -/
theorem scan_fall (start : α) (xs : List α) :
    IsGreatest (falls (start :: xs)) (scan start xs).2 := by
  induction xs using List.reverseRecOn with
  | nil =>
    refine ⟨⟨0, 0, start, start, le_rfl, rfl, rfl, (sub_self start).symm⟩, ?_⟩
    rintro d ⟨i, j, a, b, -, ha, hb, rfl⟩
    have hmem : ∀ {k : Nat} {c : α}, [start][k]? = some c → c = start := fun h =>
      List.mem_singleton.1 (List.mem_of_getElem? h)
    rw [hmem ha, hmem hb, sub_self]
    exact le_rfl
  | append_singleton xs x ih =>
    have hpeak := scan_peak start (xs ++ [x])
    rw [scan_append] at hpeak ⊢
    rw [next_fall, ← List.cons_append]
    -- the falls to the last value are largest from the peak
    constructor
    · rcases max_choice (scan start xs).2 ((next (scan start xs) x).1 - x) with h | h
      · rw [h]
        exact mem_falls_append.2 (.inl ih.1)
      · rw [h]
        exact mem_falls_append.2 (.inr ⟨_, hpeak.1, rfl⟩)
    · intro d hd
      rcases mem_falls_append.1 hd with hd | ⟨a, ha, rfl⟩
      · exact (ih.2 hd).trans (le_max_left _ _)
      · exact (sub_le_sub_right (hpeak.2 ha) x).trans (le_max_right _ _)

theorem scan_nonneg (start : α) (xs : List α) : 0 ≤ (scan start xs).2 :=
  (scan_fall start xs).2 ⟨0, 0, start, start, le_rfl, rfl, rfl, (sub_self start).symm⟩

end Drawdown
