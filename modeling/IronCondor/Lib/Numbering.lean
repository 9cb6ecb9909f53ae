import Mathlib.Data.List.Basic
import Mathlib.Tactic.Ring

/-! # Consecutive numbers

A list whose elements are numbered consecutively from a start: the number of an element is its
position, so no number is missing and none is given twice. -/

/-- The elements are numbered `start`, `start + 1`, and so on. -/
inductive Numbered {α : Type} (number : α → Int) : Int → List α → Prop
  | nil {start : Int} : Numbered number start []
  | cons {start : Int} {a : α} {as : List α} (head : number a = start)
      (tail : Numbered number (start + 1) as) : Numbered number start (a :: as)

namespace Numbered

variable {α : Type} {number : α → Int} {start : Int} {as bs : List α}

theorem append (h : Numbered number start as) (h' : Numbered number (start + as.length) bs) :
    Numbered number start (as ++ bs) := by
  induction h with
  | nil => simpa using h'
  | @cons start a as head tail ih =>
    refine .cons head (ih ?_)
    rw [List.length_cons] at h'
    push_cast at h'
    rwa [add_assoc, add_comm 1]

theorem lower (h : Numbered number start as) : ∀ a ∈ as, start ≤ number a := by
  induction h with
  | nil => exact List.forall_mem_nil _
  | @cons start a as head tail ih =>
    refine List.forall_mem_cons.2 ⟨head.ge, fun b hb => ?_⟩
    have := ih b hb
    omega

theorem strict (h : Numbered number start as) : as.Pairwise fun a b => number a < number b := by
  induction h with
  | nil => exact .nil
  | @cons start a as head tail ih =>
    refine .cons (fun b hb => ?_) ih
    have := tail.lower b hb
    omega

theorem map_eq (h : Numbered number start as) :
    as.map number = (List.range as.length).map fun k : Nat => start + k := by
  induction h with
  | nil => rfl
  | @cons start a as head tail ih =>
    rw [List.map_cons, ih, head, List.length_cons, List.range_succ_eq_map, List.map_cons,
      List.map_map]
    simp only [Nat.cast_zero, add_zero, List.cons.injEq, true_and]
    refine List.map_congr_left fun k _ => ?_
    simp only [Function.comp_apply, Nat.cast_succ]
    ring

end Numbered

/-- A list of the successive changes of a quantity adds up to its whole change. -/
theorem List.sum_telescope {M : Type} [AddCommGroup M] (q : Nat → M) {changes : List M}
    (h : ∀ k change, changes[k]? = some change → change = q (k + 1) - q k) :
    changes.sum = q changes.length - q 0 := by
  induction changes generalizing q with
  | nil => simp
  | cons first changes ih =>
    have hfirst := h 0 first rfl
    have hrest := ih (fun k => q (k + 1)) fun k change hchange => h (k + 1) change hchange
    rw [List.sum_cons, hrest, hfirst, List.length_cons, add_comm, sub_add_sub_cancel]

/-- A relation that holds along each group of a list holds along the list within groups. -/
theorem List.pairwise_of_filter {α κ : Type} [DecidableEq κ] (key : α → κ) {rel : α → α → Prop}
    {as : List α} (h : ∀ k, (as.filter fun a => key a = k).Pairwise rel) :
    as.Pairwise fun a b => key a = key b → rel a b := by
  induction as with
  | nil => exact .nil
  | cons a as ih =>
    refine .cons (fun b hb hkey => ?_) (ih fun k => ?_)
    · have hgroup := h (key a)
      rw [List.filter_cons_of_pos (by simp)] at hgroup
      exact (List.pairwise_cons.1 hgroup).1 b (List.mem_filter.2 ⟨hb, by simp [hkey]⟩)
    · have hgroup := h k
      rw [List.filter_cons] at hgroup
      split_ifs at hgroup
      · exact (List.pairwise_cons.1 hgroup).2
      · exact hgroup
