import Mathlib.Tactic

/-! # Tables acted on by keyed events

An event acts on the slot of its own key. Events of different keys commute, so a table only
depends on the order of the events of one key. -/
namespace Keyed

variable {κ ν α : Type} [DecidableEq κ] {key : α → κ} {slot : ν → α → ν}

/-- Act on the slot of the event's key. -/
def act (key : α → κ) (slot : ν → α → ν) (t : κ → ν) (a : α) : κ → ν :=
  Function.update t (key a) (slot (t (key a)) a)

@[simp] theorem act_self (t : κ → ν) (a : α) : act key slot t a (key a) = slot (t (key a)) a :=
  Function.update_self ..

theorem act_of_ne {t : κ → ν} {a : α} {k : κ} (h : k ≠ key a) : act key slot t a k = t k :=
  Function.update_of_ne h ..

theorem act_comm {a b : α} (h : key a ≠ key b) (t : κ → ν) :
    act key slot (act key slot t a) b = act key slot (act key slot t b) a := by
  unfold act
  rw [Function.update_of_ne h.symm, Function.update_of_ne h, Function.update_comm h]

/-- Reordering events keeps the table when two events of one key are the same event. -/
theorem foldl_perm {as bs : List α} (hperm : as.Perm bs)
    (hkeys : ∀ a ∈ as, ∀ b ∈ as, key a = key b → a = b) (t : κ → ν) :
    as.foldl (act key slot) t = bs.foldl (act key slot) t := by
  refine hperm.foldl_eq' (fun a ha b hb t => ?_) t
  by_cases h : key a = key b
  · rw [hkeys a ha b hb h]
  · exact act_comm h t

/-- A slot value no event of the list leaves stays where it was. -/
theorem foldl_fixed {as : List α} {v : ν} {k : κ} (hfix : ∀ a ∈ as, key a = k → slot v a = v)
    {t : κ → ν} (ht : t k = v) : as.foldl (act key slot) t k = v := by
  induction as generalizing t with
  | nil => exact ht
  | cons a as ih =>
    rw [List.forall_mem_cons] at hfix
    refine ih hfix.2 ?_
    by_cases h : key a = k
    · subst h
      rw [act_self, ht, hfix.1 rfl]
    · rw [act_of_ne (Ne.symm h), ht]

end Keyed
