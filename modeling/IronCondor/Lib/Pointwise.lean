import IronCondor.Lib.Fold
import Mathlib.Data.List.Forall2

/-! # Lists related entry by entry

Consequences of `List.Forall₂` that a proof reads off a relation between two lists, and the runs
that build the one list from the other. -/
namespace Pointwise

open Checked ExceptRun

variable {α β γ : Type} {R : α → β → Prop} {xs : List α} {ys : List β}

/-- A run whose every step appends one related entry builds a related list, and any such list. -/
theorem foldlM_appends_iff {ε : Type} {f : List α → β → Except ε (List α)} {s t : List α}
    (hstep : ∀ s y t, f s y = .ok t ↔ ∃ x, t = s ++ [x] ∧ R x y) :
    ys.foldlM f s = .ok t ↔ ∃ xs, t = s ++ xs ∧ List.Forall₂ R xs ys := by
  induction ys generalizing s with
  | nil =>
    simp only [foldlM_nil_ok, List.forall₂_nil_right_iff, exists_eq_right, List.append_nil]
    exact eq_comm
  | cons y ys ih =>
    simp only [foldlM_cons_ok, hstep, ih, List.forall₂_cons_right_iff]
    constructor
    · rintro ⟨_, ⟨x, rfl, hxy⟩, xs, rfl, hxs⟩
      exact ⟨x :: xs, by simp, x, xs, hxy, hxs, rfl⟩
    · rintro ⟨_, rfl, x, xs, hxy, hxs, rfl⟩
      exact ⟨s ++ [x], ⟨x, rfl, hxy⟩, xs, by simp, hxs⟩

/-- A fallible map relates every entry to its result. -/
theorem mapM_ok_iff {ε : Type} {f : α → Except ε β} :
    xs.mapM f = .ok ys ↔ List.Forall₂ (fun x y => f x = .ok y) xs ys := by
  induction xs generalizing ys with
  | nil =>
    rw [List.mapM_nil, pure_ok_iff, List.forall₂_nil_left_iff]
    exact eq_comm
  | cons x xs ih =>
    simp only [List.mapM_cons, bind_ok_iff, pure_ok_iff, ih, List.forall₂_cons_left_iff]
    constructor
    · rintro ⟨y, hxy, ys, hys, rfl⟩
      exact ⟨y, ys, hxy, hys, rfl⟩
    · rintro ⟨y, ys, hxy, hys, rfl⟩
      exact ⟨y, hxy, ys, hys, rfl⟩

/-- A list related to a split list splits with it. -/
theorem append_left_iff {xs' : List α} : List.Forall₂ R (xs ++ xs') ys ↔
    ∃ first second, List.Forall₂ R xs first ∧ List.Forall₂ R xs' second ∧
      ys = first ++ second := by
  constructor
  · intro h
    exact ⟨ys.take xs.length, ys.drop xs.length, (List.forall₂_take_append ys xs xs' h.flip).flip,
      (List.forall₂_drop_append ys xs xs' h.flip).flip, (List.take_append_drop _ _).symm⟩
  · rintro ⟨first, second, hfirst, hsecond, rfl⟩
    exact List.rel_append hfirst hsecond

/-- Related entries with equal images give equal lists of images. -/
theorem map_eq {f : α → γ} {g : β → γ} (h : List.Forall₂ R xs ys)
    (hfg : ∀ x, ∀ y ∈ ys, R x y → f x = g y) : xs.map f = ys.map g := by
  induction h with
  | nil => rfl
  | cons hxy _ ih =>
    rw [List.map_cons, List.map_cons, hfg _ _ List.mem_cons_self hxy,
      ih fun x y hy => hfg x y (List.mem_cons_of_mem _ hy)]

/-- What two relations have in common holds of lists related by both. -/
theorem imp_both {S T : α → β → Prop} (hRST : ∀ x y, R x y → S x y → T x y)
    (hR : List.Forall₂ R xs ys) (hS : List.Forall₂ S xs ys) : List.Forall₂ T xs ys := by
  induction hR with
  | nil => exact .nil
  | cons hxy _ ih =>
    cases hS with
    | cons hxy' hrest' => exact .cons (hRST _ _ hxy hxy') (ih hrest')

theorem forall_left {P : α → Prop} (h : List.Forall₂ R xs ys) (hP : ∀ x y, R x y → P x) :
    ∀ x ∈ xs, P x := by
  induction h with
  | nil => exact List.forall_mem_nil P
  | cons hxy _ ih => exact List.forall_mem_cons.2 ⟨hP _ _ hxy, ih⟩

/-- Every entry on the right is related to one on the left. -/
theorem exists_left (h : List.Forall₂ R xs ys) {y : β} (hy : y ∈ ys) : ∃ x ∈ xs, R x y := by
  induction h with
  | nil => cases hy
  | cons hxy _ ih =>
    rcases List.mem_cons.1 hy with rfl | hy
    · exact ⟨_, List.mem_cons_self, hxy⟩
    · obtain ⟨x, hx, hR⟩ := ih hy
      exact ⟨x, List.mem_cons_of_mem _ hx, hR⟩

/-- Every entry on the left is related to one on the right. -/
theorem exists_right (h : List.Forall₂ R xs ys) {x : α} (hx : x ∈ xs) : ∃ y ∈ ys, R x y :=
  exists_left h.flip hx

/-- The entries of one place are related. -/
theorem related_at (h : List.Forall₂ R xs ys) {k : Nat} {x : α} {y : β} (hx : xs[k]? = some x)
    (hy : ys[k]? = some y) : R x y := by
  induction h generalizing k with
  | nil => cases hx
  | cons hxy _ ih =>
    cases k with
    | zero =>
      cases hx
      cases hy
      exact hxy
    | succ k => exact ih hx hy

/-- What holds of every two entries holds of their related ones. -/
theorem pairwise_iff {P : α → α → Prop} {Q : β → β → Prop}
    (hPQ : ∀ x x' y y', R x y → R x' y' → (P x x' ↔ Q y y')) (h : List.Forall₂ R xs ys) :
    xs.Pairwise P ↔ ys.Pairwise Q := by
  induction h with
  | nil => exact ⟨fun _ => .nil, fun _ => .nil⟩
  | cons hxy hrest ih =>
    rw [List.pairwise_cons, List.pairwise_cons, ih]
    refine and_congr_left fun _ => ⟨fun hP y' hy' => ?_, fun hQ x' hx' => ?_⟩
    · obtain ⟨x', hx', hrelated⟩ := exists_left hrest hy'
      exact (hPQ _ _ _ _ hxy hrelated).1 (hP x' hx')
    · obtain ⟨y', hy', hrelated⟩ := exists_right hrest hx'
      exact (hPQ _ _ _ _ hxy hrelated).2 (hQ y' hy')

/-- Past the entries of a list, a list with one more has only that one. -/
theorem last_of_getElem? {x y : α} {k : Nat} (hk : xs.length ≤ k) (h : (xs ++ [x])[k]? = some y) :
    k = xs.length ∧ y = x := by
  rw [List.getElem?_append_right hk] at h
  have hbound := (List.getElem?_eq_some_iff.1 h).1
  rw [List.length_singleton] at hbound
  have hlast : k - xs.length = 0 := by omega
  rw [hlast] at h
  exact ⟨by omega, (Option.some.inj h).symm⟩

/-- Entries that each have a related one have a related list. -/
theorem exists_related (h : ∀ y ∈ ys, ∃ x, R x y) : ∃ xs, List.Forall₂ R xs ys := by
  induction ys with
  | nil => exact ⟨[], .nil⟩
  | cons y ys ih =>
    obtain ⟨⟨x, hx⟩, hrest⟩ := List.forall_mem_cons.1 h
    obtain ⟨xs, hxs⟩ := ih hrest
    exact ⟨x :: xs, .cons hx hxs⟩

/-- A weaker relation, for entries that occur on the right. -/
theorem imp_right {Q : α → β → Prop} (h : List.Forall₂ R xs ys)
    (himp : ∀ x, ∀ y ∈ ys, R x y → Q x y) : List.Forall₂ Q xs ys := by
  induction h with
  | nil => exact .nil
  | cons hxy _ ih =>
    exact .cons (himp _ _ List.mem_cons_self hxy)
      (ih fun x y hy => himp x y (List.mem_cons_of_mem _ hy))

end Pointwise
