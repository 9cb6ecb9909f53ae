import IronCondor.Lib.Fold

/-! # What a computation can fail with

`FailsIn E x` bounds the errors of `x`: whenever `x` fails, its error meets `E`. A bound on a
sequence needs a bound on each part only, the later part knowing what the earlier one returned;
a bound on a run needs an invariant of the states the run goes through. -/
namespace ExceptRun

open Checked

variable {ε σ α β : Type} {E E' : ε → Prop} {x : Except ε α}

/-- Whenever `x` fails, its error meets `E`. -/
def FailsIn (E : ε → Prop) (x : Except ε α) : Prop :=
  ∀ e, x = .error e → E e

namespace FailsIn

theorem ok (a : α) : FailsIn E (.ok a : Except ε α) := nofun

theorem pure (a : α) : FailsIn E (Pure.pure a : Except ε α) := nofun

theorem error {e : ε} (h : E e) : FailsIn E (.error e : Except ε α) := by
  rintro _ ⟨⟩
  exact h

theorem of_eq_ok {a : α} (h : x = .ok a) : FailsIn E x := by
  rw [h]
  exact ok a

theorem mono (h : FailsIn E x) (himp : ∀ e, E e → E' e) : FailsIn E' x :=
  fun e he => himp e (h e he)

/-- What cannot fail succeeds. -/
theorem exists_ok (h : FailsIn (fun _ => False) x) : ∃ a, x = .ok a := by
  rcases x with e | a
  · exact (h e rfl).elim
  · exact ⟨a, rfl⟩

/-- A sequence fails as its first part does, or as its second does on what the first returned. -/
theorem bind {next : α → Except ε β} (hx : FailsIn E x)
    (hnext : ∀ a, x = .ok a → FailsIn E (next a)) : FailsIn E (x >>= next) := by
  intro e h
  rcases bind_error_iff.1 h with h | ⟨a, ha, h⟩
  · exact hx e h
  · exact hnext a ha e h

@[simp] theorem ok_iff {a : α} : FailsIn E (.ok a : Except ε α) ↔ True := iff_true_intro (ok a)

@[simp] theorem pure_iff {a : α} : FailsIn E (Pure.pure a : Except ε α) ↔ True :=
  iff_true_intro (pure a)

@[simp] theorem error_iff {e : ε} : FailsIn E (.error e : Except ε α) ↔ E e :=
  ⟨fun h => h e rfl, error⟩

@[simp] theorem bind_iff {next : α → Except ε β} : FailsIn E (x >>= next) ↔
    FailsIn E x ∧ ∀ a, x = .ok a → FailsIn E (next a) := by
  constructor
  · intro h
    refine ⟨fun e he => h e (bind_error_iff.2 (.inl he)), fun a ha e he => ?_⟩
    exact h e (bind_error_iff.2 (.inr ⟨a, ha, he⟩))
  · rintro ⟨hx, hnext⟩
    exact bind hx hnext

@[simp] theorem map_iff {f : α → β} : FailsIn E (f <$> x) ↔ FailsIn E x := by
  rw [map_eq_pure_bind, bind_iff]
  simp

theorem narrow {r : IntRange} {e : ε} {n : Int} (h : ¬ r.Contains n → E e) :
    FailsIn E (Checked.narrow r e n) := by
  intro e' he
  obtain ⟨hout, rfl⟩ := narrow_eq_error.1 he
  exact h hout

theorem okOr {o : Option α} {e : ε} (h : o = none → E e) : FailsIn E (Checked.okOr o e) := by
  intro e' he
  obtain ⟨hnone, rfl⟩ := okOr_eq_error.1 he
  exact h hnone

theorem require {p : Prop} [Decidable p] {e : ε} (h : ¬ p → E e) :
    FailsIn E (Checked.require p e) := by
  intro e' he
  obtain ⟨hnot, rfl⟩ := require_eq_error.1 he
  exact h hnot

/-- The run rule: a run whose states keep an invariant of the inputs seen so far fails only as
its steps do in such states. -/
theorem foldlM {f : σ → α → Except ε σ} {s : σ} {xs : List α} (I : List α → σ → Prop)
    (hs : I [] s)
    (hstep : ∀ done a rest s, xs = done ++ a :: rest → I done s → FailsIn E (f s a) ∧
      ∀ t, f s a = .ok t → I (done ++ [a]) t) : FailsIn E (xs.foldlM f s) := by
  intro e he
  obtain ⟨done, a, rest, m, hsplit, hdone, ha⟩ := foldlM_error_iff.1 he
  refine (hstep done a rest m hsplit (foldlM_invariant_at I hs ?_ hdone)).1 e ha
  intro before b after s t hdone hs ht
  exact (hstep before b (after ++ a :: rest) s (by simp [hsplit, hdone]) hs).2 t ht

/-- The run rule for steps that need no invariant. -/
theorem foldlM_each {f : σ → α → Except ε σ} {s : σ} {xs : List α}
    (hstep : ∀ s, ∀ a ∈ xs, FailsIn E (f s a)) : FailsIn E (xs.foldlM f s) :=
  foldlM (fun _ _ => True) trivial fun done a rest s hsplit _ =>
    ⟨hstep s a (by simp [hsplit]), fun _ _ => trivial⟩

/-- A check of every element fails as the check of one does. -/
theorem forM {check : α → Except ε Unit} {xs : List α} (h : ∀ a ∈ xs, FailsIn E (check a)) :
    FailsIn E (ForM.forM xs check) := by
  induction xs with
  | nil => exact ok ()
  | cons a xs ih =>
    rw [List.forM_cons]
    exact bind (h a List.mem_cons_self) fun _ _ => ih fun b hb => h b (List.mem_cons_of_mem a hb)

theorem mapM {f : α → Except ε β} {xs : List α} (h : ∀ a ∈ xs, FailsIn E (f a)) :
    FailsIn E (xs.mapM f) := by
  induction xs with
  | nil => exact ok []
  | cons a xs ih =>
    rw [List.mapM_cons]
    refine bind (h a List.mem_cons_self) fun _ _ => bind ?_ fun _ _ => ok _
    exact ih fun b hb => h b (List.mem_cons_of_mem a hb)

end FailsIn

end ExceptRun
