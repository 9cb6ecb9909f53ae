import Mathlib.Tactic

/-! # Checked integer arithmetic

Integers of a fixed machine range, and the `Except` vocabulary of code that fails instead of
wrapping. A value of `Bounded r` cannot lie outside `r`, so later arguments are about plain
integers. -/
namespace Checked

variable {ε α β : Type}

/-- A closed range of integers, such as the values of a machine word. -/
structure IntRange where
  min : Int
  max : Int
deriving DecidableEq, Repr

namespace IntRange

def Contains (r : IntRange) (x : Int) : Prop := r.min ≤ x ∧ x ≤ r.max

instance (r : IntRange) (x : Int) : Decidable (r.Contains x) :=
  inferInstanceAs (Decidable (_ ∧ _))

def unsigned (bits : Nat) : IntRange := ⟨0, 2 ^ bits - 1⟩

def signed (bits : Nat) : IntRange := ⟨-2 ^ (bits - 1), 2 ^ (bits - 1) - 1⟩

end IntRange

/-- An integer together with the fact that it lies in `r`. -/
@[ext] structure Bounded (r : IntRange) where
  value : Int
  inRange : r.Contains value
deriving DecidableEq

namespace Bounded

variable {r : IntRange}

instance : Ord (Bounded r) := ⟨compareOn value⟩

instance : Std.TransOrd (Bounded r) :=
  inferInstanceAs (Std.TransCmp (compareOn (value (r := r))))

instance : Std.LawfulEqOrd (Bounded r) where
  eq_of_compare h := Bounded.ext (Std.compare_eq_iff_eq.1 h)

theorem value_injective : Function.Injective (Bounded.value (r := r)) := fun _ _ => Bounded.ext

theorem le_max (a : Bounded r) : a.value ≤ r.max := a.inRange.2

theorem min_le (a : Bounded r) : r.min ≤ a.value := a.inRange.1

theorem nonneg {bits : Nat} (a : Bounded (.unsigned bits)) : 0 ≤ a.value := a.min_le

end Bounded

/-- The value of `x` in range `r`, or the error `e` when it does not fit. -/
def narrow (r : IntRange) (e : ε) (x : Int) : Except ε (Bounded r) :=
  if h : r.Contains x then .ok ⟨x, h⟩ else .error e

/-- Rust's `ok_or`: the value of an option, or an error. -/
def okOr : Option α → ε → Except ε α
  | some a, _ => .ok a
  | none, e => .error e

/-- Continue only when `p` holds. -/
def require (p : Prop) [Decidable p] (e : ε) : Except ε Unit :=
  if p then .ok () else .error e

section Inversion

/-- A sequenced computation succeeds through the success of both parts. -/
theorem bind_ok_iff {first : Except ε α} {next : α → Except ε β} {out : β} :
    first >>= next = .ok out ↔ ∃ mid, first = .ok mid ∧ next mid = .ok out := by
  rcases first with e | mid
  · exact ⟨nofun, nofun⟩
  · exact ⟨fun h => ⟨mid, rfl, h⟩, fun ⟨_, hm, h⟩ => by cases hm; exact h⟩

@[simp] theorem narrow_eq_ok {r : IntRange} {e : ε} {x : Int} {y : Bounded r} :
    narrow r e x = .ok y ↔ y.value = x := by
  unfold narrow
  split_ifs with h
  · constructor
    · intro hy
      cases hy
      rfl
    · rintro rfl
      rfl
  · constructor
    · intro hy
      cases hy
    · rintro rfl
      exact absurd y.inRange h

@[simp] theorem okOr_eq_ok {o : Option α} {e : ε} {a : α} : okOr o e = .ok a ↔ o = some a := by
  cases o <;> simp [okOr]

@[simp] theorem require_eq_ok {p : Prop} [Decidable p] {e : ε} {u : Unit} :
    require p e = .ok u ↔ p := by
  unfold require
  split_ifs with h <;> simp [h]

@[simp] theorem ok_bind (a : α) (f : α → Except ε β) : (.ok a >>= f) = f a := rfl

@[simp] theorem pure_ok_iff {a out : α} : (pure a : Except ε α) = .ok out ↔ a = out :=
  ⟨fun h => Except.ok.inj h, congrArg _⟩

/-- A computation that is seen to succeed has a result. -/
theorem exists_eq_ok {r : Except ε α} (h : r.isOk = true) : ∃ a, r = .ok a := by
  rcases r with e | a
  · cases h
  · exact ⟨a, rfl⟩

/-- A computation that is seen to succeed in a result that passes a check has such a result. -/
theorem exists_ok_of_check {r : Except ε α} (check : α → Bool)
    (h : r.toOption.any check = true) : ∃ a, r = .ok a ∧ check a = true := by
  rcases r with e | a
  · cases h
  · exact ⟨a, rfl, h⟩

/-- A narrowing fails exactly when the value is out of range. -/
theorem narrow_eq_error {r : IntRange} {e e' : ε} {x : Int} :
    narrow r e x = .error e' ↔ ¬ r.Contains x ∧ e = e' := by
  unfold narrow
  split_ifs with h <;> simp [h]

theorem okOr_eq_error {o : Option α} {e e' : ε} : okOr o e = .error e' ↔ o = none ∧ e = e' := by
  cases o <;> simp [okOr]

theorem require_eq_error {p : Prop} [Decidable p] {e e' : ε} :
    require p e = .error e' ↔ ¬ p ∧ e = e' := by
  unfold require
  split_ifs with h <;> simp [h]

theorem pure_ne_error {a : α} {e : ε} : (pure a : Except ε α) ≠ .error e := nofun

/-- A sequenced computation fails in its first part, or in its second after the first. -/
theorem bind_error_iff {first : Except ε α} {next : α → Except ε β} {e : ε} :
    first >>= next = .error e ↔
      first = .error e ∨ ∃ mid, first = .ok mid ∧ next mid = .error e := by
  rcases first with e' | mid
  · exact ⟨fun h => .inl (congrArg _ (Except.error.inj h)), fun h => by
      rcases h with h | ⟨_, h, -⟩
      · exact congrArg _ (Except.error.inj h)
      · cases h⟩
  · constructor
    · exact fun h => .inr ⟨mid, rfl, h⟩
    · rintro (h | ⟨_, hm, h⟩)
      · cases h
      · cases hm
        exact h

end Inversion

end Checked
