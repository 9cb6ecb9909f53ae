import IronCondor.Lib.Interleave

/-! # Programs under one fault

A program is run against a store while the environment strikes one of its operations: it answers
with a refusal, or stops the program there. What the struck operation did of its effect is part of
the fault. -/
namespace Prog

variable {Op Ans α β σ : Type}

theorem bind_ret (p : Prog Op Ans α) : p.bind ret = p := by
  induction p with
  | ret a => rfl
  | op o next ih => exact congrArg (op o) (funext ih)

theorem bind_bind {γ : Type} (p : Prog Op Ans α) (f : α → Prog Op Ans β) (g : β → Prog Op Ans γ) :
    (p.bind f).bind g = p.bind fun a => (f a).bind g := by
  induction p with
  | ret a => rfl
  | op o next ih => exact congrArg (op o) (funext ih)

instance : LawfulMonad (Prog Op Ans) := LawfulMonad.mk' _ bind_ret (fun _ _ => rfl) bind_bind

/-- A fault that is still to come, after `position` more operations; without a refusal the program
is stopped. -/
structure Fault (Op Ans σ : Type) where
  position : Nat
  refusal : Option Ans
  damage : Op → σ → σ

/-- The store, the fault to come, and the operations served so far with their answers. -/
structure Machine (Op Ans σ : Type) where
  store : σ
  pending : Option (Fault Op Ans σ)
  served : List (Op × Ans)

namespace Machine

/-- One operation is asked. -/
def serve (exec : σ → Op → Ans × σ) (m : Machine Op Ans σ) (o : Op) :
    Option Ans × Machine Op Ans σ :=
  match m.pending with
  | some ⟨0, refusal, damage⟩ => (refusal, ⟨damage o m.store, none, m.served⟩)
  | some ⟨n + 1, refusal, damage⟩ => (some (exec m.store o).1,
      ⟨(exec m.store o).2, some ⟨n, refusal, damage⟩, m.served ++ [(o, (exec m.store o).1)]⟩)
  | none => (some (exec m.store o).1,
      ⟨(exec m.store o).2, none, m.served ++ [(o, (exec m.store o).1)]⟩)

end Machine

/-- The program run against the machine: its value, unless it is stopped, and the machine. -/
def attempt (exec : σ → Op → Ans × σ) :
    Prog Op Ans α → Machine Op Ans σ → Option α × Machine Op Ans σ
  | ret a, m => (some a, m)
  | op o next, m =>
    match m.serve exec o with
    | (some answer, m') => (next answer).attempt exec m'
    | (none, m') => (none, m')

variable {exec : σ → Op → Ans × σ}

theorem attempt_bind (p : Prog Op Ans α) (f : α → Prog Op Ans β) (m : Machine Op Ans σ) :
    (p.bind f).attempt exec m = match p.attempt exec m with
      | (some a, m') => (f a).attempt exec m'
      | (none, m') => (none, m') := by
  induction p generalizing m with
  | ret a => rfl
  | op o next ih =>
    simp only [Prog.bind, attempt]
    rcases m.serve exec o with ⟨_ | answer, m'⟩
    · rfl
    · exact ih answer m'

end Prog
