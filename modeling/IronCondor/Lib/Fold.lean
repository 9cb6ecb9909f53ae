import IronCondor.Lib.Checked

/-! # Runs of a fallible step

A run is a `foldlM` of a step over a list of inputs. The rules below turn a fact about one
step into a fact about a whole run; `Along` monitors a condition on every state and input
met on the way. -/
namespace ExceptRun

open Checked

variable {ε σ α β : Type} {f : σ → α → Except ε σ} {s t : σ} {xs ys : List α}

theorem foldlM_cons_ok {a : α} :
    List.foldlM f s (a :: xs) = .ok t ↔ ∃ m, f s a = .ok m ∧ xs.foldlM f m = .ok t := by
  rw [List.foldlM_cons, bind_ok_iff]

theorem foldlM_append_ok :
    (xs ++ ys).foldlM f s = .ok t ↔ ∃ m, xs.foldlM f s = .ok m ∧ ys.foldlM f m = .ok t := by
  rw [List.foldlM_append, bind_ok_iff]

@[simp] theorem foldlM_nil_ok : List.foldlM f s [] = .ok t ↔ s = t := by
  simp

theorem foldlM_singleton_ok {a : α} : List.foldlM f s [a] = .ok t ↔ f s a = .ok t := by
  rw [foldlM_cons_ok]
  simp

/-- A run fails at the first input that fails, in the state the inputs before it lead to. -/
theorem foldlM_error_iff {e : ε} :
    xs.foldlM f s = .error e ↔ ∃ done a rest m, xs = done ++ a :: rest ∧
      done.foldlM f s = .ok m ∧ f m a = .error e := by
  induction xs generalizing s with
  | nil =>
    constructor
    · exact fun h => absurd h pure_ne_error
    · rintro ⟨done, a, rest, m, hsplit, -⟩
      exact absurd hsplit (by simp)
  | cons x xs ih =>
    rw [List.foldlM_cons, bind_error_iff]
    constructor
    · rintro (hx | ⟨m, hm, hrest⟩)
      · exact ⟨[], x, xs, s, rfl, foldlM_nil_ok.2 rfl, hx⟩
      · obtain ⟨done, a, rest, m', rfl, hdone, ha⟩ := ih.1 hrest
        exact ⟨x :: done, a, rest, m', rfl, foldlM_cons_ok.2 ⟨m, hm, hdone⟩, ha⟩
    · rintro ⟨done, a, rest, m', hsplit, hdone, ha⟩
      cases done with
      | nil =>
        obtain ⟨rfl, rfl⟩ := List.cons.inj hsplit
        cases foldlM_nil_ok.1 hdone
        exact .inl ha
      | cons y done =>
        obtain ⟨rfl, rfl⟩ := List.cons.inj hsplit
        obtain ⟨m, hm, hdone⟩ := foldlM_cons_ok.1 hdone
        exact .inr ⟨m, hm, ih.2 ⟨done, a, rest, m', rfl, hdone, ha⟩⟩

theorem forM_ok_iff {check : α → Except ε Unit} {u : Unit} :
    xs.forM check = .ok u ↔ ∀ x ∈ xs, check x = .ok () := by
  induction xs with
  | nil => simp
  | cons x xs ih =>
    change (check x >>= fun _ => xs.forM check) = .ok u ↔ _
    rw [bind_ok_iff, List.forall_mem_cons, ← ih]
    exact ⟨fun ⟨_, hx, h⟩ => ⟨hx, h⟩, fun ⟨hx, h⟩ => ⟨(), hx, h⟩⟩

/-- Every input of the run meets `C` in the state it is applied to. -/
def Along (f : σ → α → Except ε σ) (C : σ → α → Prop) : σ → List α → Prop
  | _, [] => True
  | s, a :: as => C s a ∧ ∀ m, f s a = .ok m → Along f C m as

instance Along.decidable {C : σ → α → Prop} [∀ s a, Decidable (C s a)] :
    ∀ s as, Decidable (Along f C s as)
  | _, [] => .isTrue trivial
  | s, a :: as =>
    match h : f s a with
    | .error _ => decidable_of_iff (C s a)
        ⟨fun hC => ⟨hC, fun _ hm => nomatch h.symm.trans hm⟩, And.left⟩
    | .ok m =>
      have : Decidable (Along f C m as) := Along.decidable m as
      decidable_of_iff (C s a ∧ Along f C m as)
        ⟨fun ⟨hC, hm⟩ => ⟨hC, fun _ hm' => Except.ok.inj (h.symm.trans hm') ▸ hm⟩,
          fun ⟨hC, hrest⟩ => ⟨hC, hrest m h⟩⟩

@[simp] theorem along_nil {C : σ → α → Prop} : Along f C s [] := trivial

theorem along_append {C : σ → α → Prop} (h : Along f C s (xs ++ ys)) :
    Along f C s xs ∧ ∀ m, xs.foldlM f s = .ok m → Along f C m ys := by
  induction xs generalizing s with
  | nil =>
    refine ⟨along_nil, fun m hm => ?_⟩
    rw [foldlM_nil_ok] at hm
    exact hm ▸ h
  | cons a xs ih =>
    obtain ⟨hC, hrest⟩ := h
    refine ⟨⟨hC, fun m hm => (ih (hrest m hm)).1⟩, fun t ht => ?_⟩
    obtain ⟨m, hm, ht⟩ := foldlM_cons_ok.1 ht
    exact (ih (hrest m hm)).2 t ht

/-- The invariant rule: a property kept by every successful step is kept by every run. -/
theorem foldlM_invariant (P : σ → Prop) (hstep : ∀ s a t, P s → f s a = .ok t → P t)
    (hs : P s) (h : xs.foldlM f s = .ok t) : P t := by
  induction xs generalizing s with
  | nil => exact foldlM_nil_ok.1 h ▸ hs
  | cons a xs ih =>
    obtain ⟨m, hm, ht⟩ := foldlM_cons_ok.1 h
    exact ih (hstep s a m hs hm) ht

/-- The invariant rule under a monitored condition, with the input known to be one of the
run's. -/
theorem foldlM_invariant_along (P : σ → Prop) (C : σ → α → Prop)
    (hstep : ∀ s a t, a ∈ xs → P s → C s a → f s a = .ok t → P t)
    (hs : P s) (hC : Along f C s xs) (h : xs.foldlM f s = .ok t) : P t := by
  induction xs generalizing s with
  | nil => exact foldlM_nil_ok.1 h ▸ hs
  | cons a xs ih =>
    obtain ⟨m, hm, ht⟩ := foldlM_cons_ok.1 h
    exact ih (fun s b t hb => hstep s b t (List.mem_cons_of_mem _ hb))
      (hstep s a m List.mem_cons_self hs hC.1 hm) (hC.2 m hm) ht

/-- The invariant rule of a property of the inputs seen so far and the state they lead to. -/
theorem foldlM_invariant_done (P : List α → σ → Prop) (C : σ → α → Prop) {done : List α}
    (hstep : ∀ done s a t, a ∈ xs → P done s → C s a → f s a = .ok t → P (done ++ [a]) t)
    (hs : P done s) (hC : Along f C s xs) (h : xs.foldlM f s = .ok t) : P (done ++ xs) t := by
  induction xs generalizing s done with
  | nil =>
    rw [List.append_nil]
    exact foldlM_nil_ok.1 h ▸ hs
  | cons a xs ih =>
    obtain ⟨m, hm, ht⟩ := foldlM_cons_ok.1 h
    have hrest := ih (fun done s b t hb => hstep done s b t (List.mem_cons_of_mem _ hb))
      (hstep done s a m List.mem_cons_self hs hC.1 hm) (hC.2 m hm) ht
    rwa [List.append_assoc, List.singleton_append] at hrest

/-- The invariant rule, with the input known by its place in the run. -/
theorem foldlM_invariant_at (I : List α → σ → Prop) (hs : I [] s)
    (hstep : ∀ done a rest s t, xs = done ++ a :: rest → I done s → f s a = .ok t →
      I (done ++ [a]) t) (h : xs.foldlM f s = .ok t) : I xs t := by
  induction xs using List.reverseRecOn generalizing t with
  | nil => exact foldlM_nil_ok.1 h ▸ hs
  | append_singleton xs a ih =>
    obtain ⟨m, hm, ht⟩ := foldlM_append_ok.1 h
    refine hstep xs a [] m t rfl (ih ?_ hm) (foldlM_singleton_ok.1 ht)
    intro done b rest s t hsplit
    exact hstep done b (rest ++ [a]) s t (by rw [hsplit, List.append_assoc, List.cons_append])

theorem along_true : Along f (fun _ _ => True) s xs := by
  induction xs generalizing s with
  | nil => exact along_nil
  | cons a xs ih => exact ⟨trivial, fun _ _ => ih⟩

/-- The invariant rule, with the input known to be one of the run's. -/
theorem foldlM_invariant_mem (P : σ → Prop)
    (hstep : ∀ s a t, a ∈ xs → P s → f s a = .ok t → P t)
    (hs : P s) (h : xs.foldlM f s = .ok t) : P t :=
  foldlM_invariant_along P (fun _ _ => True) (fun s a t ha hs _ => hstep s a t ha hs) hs along_true h

/-- What a step makes of its input, and no later step undoes, holds of every input of the run. -/
theorem foldlM_each (P : α → σ → Prop) (hmake : ∀ s a t, f s a = .ok t → P a t)
    (hkeep : ∀ s a b t, P b s → f s a = .ok t → P b t) (h : xs.foldlM f s = .ok t) :
    ∀ a ∈ xs, P a t := by
  induction xs generalizing s with
  | nil => exact List.forall_mem_nil _
  | cons a xs ih =>
    obtain ⟨m, hm, ht⟩ := foldlM_cons_ok.1 h
    exact List.forall_mem_cons.2
      ⟨foldlM_invariant (P a) (fun s b t hs hstep => hkeep s b a t hs hstep) (hmake s a m hm) ht,
        ih ht⟩

/-- A quantity that every step moves by `g` is moved by the sum of `g` over the run. -/
theorem foldlM_sum {M : Type} [AddCommMonoid M] (q : σ → M) (g : α → M)
    (hstep : ∀ s a t, f s a = .ok t → q t = q s + g a)
    (h : xs.foldlM f s = .ok t) : q t = q s + (xs.map g).sum := by
  induction xs generalizing s with
  | nil => simp [foldlM_nil_ok.1 h]
  | cons a xs ih =>
    obtain ⟨m, hm, ht⟩ := foldlM_cons_ok.1 h
    rw [ih ht, hstep s a m hm, List.map_cons, List.sum_cons, add_assoc]

/-- A log that every step extends by `g` is extended by the run's inputs in order. -/
theorem foldlM_log (q : σ → List β) (g : α → List β)
    (hstep : ∀ s a t, f s a = .ok t → q t = q s ++ g a)
    (h : xs.foldlM f s = .ok t) : q t = q s ++ xs.flatMap g := by
  induction xs generalizing s with
  | nil => simp [foldlM_nil_ok.1 h]
  | cons a xs ih =>
    obtain ⟨m, hm, ht⟩ := foldlM_cons_ok.1 h
    rw [ih ht, hstep s a m hm, List.flatMap_cons, List.append_assoc]

/-- A view that every step moves by `g` is moved by `g` along the run. -/
theorem foldlM_view {τ : Type} (view : σ → τ) (g : τ → α → τ)
    (hstep : ∀ s a t, f s a = .ok t → view t = g (view s) a)
    (h : xs.foldlM f s = .ok t) : view t = xs.foldl g (view s) := by
  induction xs generalizing s with
  | nil => rw [foldlM_nil_ok.1 h, List.foldl_nil]
  | cons a xs ih =>
    obtain ⟨m, hm, ht⟩ := foldlM_cons_ok.1 h
    rw [ih ht, hstep s a m hm, List.foldl_cons]

end ExceptRun
