import Mathlib.Data.List.Basic
import Mathlib.Data.List.DropRight

/-! # Cutting a list

A list is cut at the first occurrence of a pattern, at the last occurrence of an entry, or where
a predicate first fails. Each cut is found again in a list that agrees up to it. -/
namespace Cut

variable {α : Type*} [DecidableEq α]

/-- What stands before and after the first occurrence of a pattern. -/
def first (pattern : List α) : List α → Option (List α × List α)
  | [] => if pattern = [] then some ([], []) else none
  | a :: l =>
    if pattern <+: a :: l then some ([], (a :: l).drop pattern.length)
    else (first pattern l).map fun cut => (a :: cut.1, cut.2)

/-- What stands before and after the last occurrence of an entry. -/
def last (c : α) : List α → Option (List α × List α)
  | [] => none
  | a :: l =>
    match last c l with
    | some (before, after) => some (a :: before, after)
    | none => if a = c then some ([], l) else none

variable {pattern before after l : List α}

theorem first_eq_some (h : first pattern l = some (before, after)) :
    l = before ++ pattern ++ after := by
  induction l generalizing before after with
  | nil =>
    unfold first at h
    split_ifs at h with hnil
    cases h
    rw [hnil]
    rfl
  | cons a l ih =>
    unfold first at h
    split_ifs at h with hprefix
    · cases h
      rw [List.nil_append]
      exact (List.prefix_iff_eq_append.1 hprefix).symm
    · obtain ⟨⟨before', after'⟩, hcut, heq⟩ := Option.map_eq_some_iff.1 h
      cases heq
      rw [ih hcut]
      rfl

theorem first_eq_none (h : first pattern l = none) : ¬ pattern <:+: l := by
  induction l with
  | nil =>
    unfold first at h
    split_ifs at h with hnil
    simpa using hnil
  | cons a l ih =>
    unfold first at h
    split_ifs at h with hprefix
    rw [List.infix_cons_iff]
    rintro (h' | h')
    · exact hprefix h'
    · exact ih (Option.map_eq_none_iff.1 h) h'

/-- The first occurrence stays where it is when what follows it changes. -/
theorem first_append (h : first pattern l = some (before, after)) (after' : List α) :
    first pattern (before ++ pattern ++ after') = some (before, after') := by
  induction l generalizing before after with
  | nil =>
    unfold first at h
    split_ifs at h with hnil
    cases h
    subst hnil
    cases after' with
    | nil => rfl
    | cons b after' => simp [first]
  | cons a l ih =>
    have hl := first_eq_some h
    unfold first at h
    split_ifs at h with hprefix
    · cases h
      cases hcut : pattern ++ after' with
      | nil =>
        obtain ⟨rfl, rfl⟩ := List.append_eq_nil_iff.1 hcut
        rfl
      | cons b rest =>
        rw [List.nil_append, hcut, first, if_pos (hcut ▸ List.prefix_append _ _), ← hcut,
          List.drop_left]
    · obtain ⟨⟨before', after''⟩, hcut, heq⟩ := Option.map_eq_some_iff.1 h
      cases heq
      have hnot : ¬ pattern <+: a :: (before' ++ pattern ++ after') := by
        intro hother
        apply hprefix
        have hwithin : pattern <+: a :: (before' ++ pattern) := by
          refine List.prefix_of_prefix_length_le hother (List.prefix_append (a :: _) after') ?_
          simp only [List.length_cons, List.length_append]
          omega
        rw [hl]
        exact hwithin.trans (List.prefix_append _ _)
      rw [List.cons_append, List.cons_append, first, if_neg hnot, ih hcut]
      rfl

variable {c : α}

theorem last_eq_none : last c l = none ↔ c ∉ l := by
  induction l with
  | nil => exact iff_of_true rfl List.not_mem_nil
  | cons a l ih =>
    unfold last
    cases hcut : last c l with
    | some cut =>
      have hmem : c ∈ l := by
        by_contra hnot
        rw [ih.2 hnot] at hcut
        cases hcut
      exact iff_of_false nofun fun h => h (List.mem_cons_of_mem a hmem)
    | none =>
      have hnot := ih.1 hcut
      by_cases hac : a = c
      · simp [hac]
      · simp [hac, hnot, Ne.symm hac]

theorem last_eq_some (h : last c l = some (before, after)) :
    l = before ++ c :: after ∧ c ∉ after := by
  induction l generalizing before after with
  | nil => cases h
  | cons a l ih =>
    unfold last at h
    cases hcut : last c l with
    | some cut =>
      rw [hcut] at h
      cases h
      obtain ⟨hl, hafter⟩ := ih hcut
      exact ⟨by rw [hl]; rfl, hafter⟩
    | none =>
      rw [hcut] at h
      by_cases hac : a = c
      · rw [if_pos hac] at h
        cases h
        exact ⟨by rw [hac]; rfl, last_eq_none.1 hcut⟩
      · rw [if_neg hac] at h
        cases h

theorem last_append (hafter : c ∉ after) :
    last c (before ++ c :: after) = some (before, after) := by
  induction before with
  | nil => rw [List.nil_append, last, last_eq_none.2 hafter, if_pos rfl]
  | cons b before ih => rw [List.cons_append, last, ih]

section Stop

variable {p : α → Bool}

omit [DecidableEq α] in
/-- The part that passes is cut where the first entry fails, whatever follows that entry. -/
theorem takeWhile_append_stop {stop : α} (hmem : stop ∈ before) (hstop : p stop = false) :
    (before ++ after).takeWhile p = before.takeWhile p := by
  induction before with
  | nil => cases hmem
  | cons b before ih =>
    rw [List.cons_append, List.takeWhile_cons, List.takeWhile_cons]
    by_cases hb : p b = true
    · rcases List.mem_cons.1 hmem with rfl | hmem
      · rw [hstop] at hb
        cases hb
      · rw [if_pos hb, if_pos hb, ih hmem]
    · rw [if_neg hb, if_neg hb]

omit [DecidableEq α] in
/-- A passing part put before what a cut left is cut off again. -/
theorem takeWhile_append_dropWhile (hall : ∀ a ∈ before, p a = true) (l : List α) :
    (before ++ l.dropWhile p).takeWhile p = before ∧
      (before ++ l.dropWhile p).dropWhile p = l.dropWhile p := by
  rw [List.takeWhile_append_of_pos hall, List.dropWhile_append_of_pos hall]
  have hdrop := List.dropWhile_idempotent p l
  have hnil : (l.dropWhile p).takeWhile p = [] := by
    have happend := List.takeWhile_append_dropWhile (p := p) (l := l.dropWhile p)
    rwa [hdrop, List.append_left_eq_self] at happend
  exact ⟨by rw [hnil, List.append_nil], hdrop⟩

end Stop

end Cut
