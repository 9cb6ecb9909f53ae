import IronCondor.Bundle.Writer
import IronCondor.Lib.Faults

/-! # The bundle writer under one fault

Each operation of a call may be refused, or be the one the process is stopped at. A removal that
is struck may have removed some of the files, a write may have happened; a rename is all or
nothing. -/
namespace IronCondor

open Checked Prog

variable {M T α β : Type}

/-- What a struck operation has done. -/
def FsOp.interrupted (keeps : BundleFile M T → Bool) (o : FsOp M T) (disk : Disk M T) : Disk M T :=
  match o with
  | .removeDirAll path => Function.update disk path ((disk path).map (·.filter keeps))
  | .writeFile _ file => if keeps file then (o.effect disk).2 else disk
  | _ => disk

/-- The fault of a call: it strikes one operation, which is refused with a message, or the last
one before the process stops. -/
structure FsFault (M T : Type) where
  position : Nat
  refusal : Option String
  keeps : BundleFile M T → Bool

def FsFault.fault (f : FsFault M T) : Fault (FsOp M T) FsAnswer (Disk M T) where
  position := f.position
  refusal := f.refusal.map .error
  damage := FsOp.interrupted f.keeps

abbrev FsMachine (M T : Type) := Machine (FsOp M T) FsAnswer (Disk M T)

/-- How a call ends: with its result, or stopped. -/
abbrev FsEnd (α : Type) := Option (Outcome α)

namespace FsProgram

/-- The program run under the fault that is to come. -/
def attempt (p : FsProgram M T α) (m : FsMachine M T) : FsEnd α × FsMachine M T :=
  Prog.attempt (fun disk o => FsOp.effect disk o) p.run m

variable {p : FsProgram M T α} {f : α → FsProgram M T β} {m m' : FsMachine M T} {a : α}
  {error : BacktestError}

theorem attempt_bind (p : FsProgram M T α) (f : α → FsProgram M T β) (m : FsMachine M T) :
    attempt (p >>= f) m = match attempt p m with
      | (some (.ok a), m') => attempt (f a) m'
      | (some (.error error), m') => (some (.error error), m')
      | (none, m') => (none, m') := by
  unfold attempt
  change Prog.attempt _ (Prog.bind p.run _) m = _
  rw [Prog.attempt_bind]
  rcases Prog.attempt (fun disk o => FsOp.effect disk o) p.run m with ⟨_ | (error | a), m'⟩ <;> rfl

@[simp] theorem attempt_pure (a : α) (m : FsMachine M T) :
    attempt (pure a : FsProgram M T α) m = (some (.ok a), m) := rfl

@[simp] theorem attempt_throw (error : BacktestError) (m : FsMachine M T) :
    attempt (throw error : FsProgram M T α) m = (some (.error error), m) := rfl

theorem attempt_lift (r : Outcome α) (m : FsMachine M T) :
    attempt (liftOutcome r : FsProgram M T α) m = (some r, m) := rfl

theorem attempt_fs (o : FsOp M T) (context : String) (m : FsMachine M T) :
    attempt (fs o context) m = match m.serve (fun disk o => FsOp.effect disk o) o with
      | (some (.ok answer), m') => (some (.ok answer), m')
      | (some (.error error), m') => (some (.error (bundleErr context error)), m')
      | (none, m') => (none, m') := by
  obtain ⟨next, hrun, hok, herror⟩ : ∃ next, (fs o context : FsProgram M T Bool).run =
      Prog.op o next ∧ (∀ answer, next (.ok answer) = (pure answer : FsProgram M T Bool).run) ∧
      ∀ error, next (.error error) =
        (throw (bundleErr context error) : FsProgram M T Bool).run :=
    ⟨_, rfl, fun _ => rfl, fun _ => rfl⟩
  rw [attempt, hrun, Prog.attempt]
  rcases m.serve (fun disk o => FsOp.effect disk o) o with ⟨_ | (error | answer), m'⟩
  · rfl
  · exact congrArg (Prog.attempt _ · m') (herror error)
  · exact congrArg (Prog.attempt _ · m') (hok answer)

theorem attempt_fsBestEffort (o : FsOp M T) (m : FsMachine M T) :
    attempt (fsBestEffort o) m = match m.serve (fun disk o => FsOp.effect disk o) o with
      | (some _, m') => (some (.ok ()), m')
      | (none, m') => (none, m') := by
  have hrun : (fsBestEffort o : FsProgram M T Unit).run = Prog.op o fun _ => .ret (.ok ()) := rfl
  rw [attempt, hrun, Prog.attempt]
  rcases m.serve (fun disk o => FsOp.effect disk o) o with ⟨_ | answer, m'⟩ <;> rfl

theorem attempt_onError (p : FsProgram M T α) (cleanUp : BacktestError → FsProgram M T α)
    (m : FsMachine M T) :
    attempt (onError p cleanUp) m = match attempt p m with
      | (some (.ok a), m') => (some (.ok a), m')
      | (some (.error error), m') => attempt (cleanUp error) m'
      | (none, m') => (none, m') := by
  unfold attempt onError
  change Prog.attempt _ (Prog.bind p.run _) m = _
  rw [Prog.attempt_bind]
  rcases Prog.attempt (fun disk o => FsOp.effect disk o) p.run m with ⟨_ | (error | a), m'⟩ <;> rfl

end FsProgram

end IronCondor
