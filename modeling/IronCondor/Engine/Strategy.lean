import IronCondor.Engine.State

/-! # The strategy seam

A strategy sees the current snapshot, its open legs, its resting orders and the carried marks,
and rewrites the step's command queue. -/
namespace IronCondor

open Checked

/-- What a strategy sees of one step; `R` is the state of the run's random generator. -/
structure ChainContext (R : Type) where
  snapshot : ChainSnapshot
  openLegs : List OpenPosition
  pending : List PendingOrder
  marks : Std.TreeMap ContractKey PriceCents
  rng : R
  step : StepIndex

/-- The hooks of a strategy. `exits` sees the generator but cannot advance it. -/
class Strategy (S : Type) (R : outParam Type) where
  onStart : S → ChainContext R → List OrderCommand → Outcome (S × R × List OrderCommand)
  exits : S → ChainContext R → List OrderCommand → Outcome (S × List OrderCommand)
  onSnapshot : S → ChainContext R → List OrderCommand → Outcome (S × R × List OrderCommand)
  onEnd : S → ChainContext R → List OrderCommand → Outcome (S × R × List OrderCommand)
  exitReason : S → ExitReason

/-- A generator that a run can seed. -/
class SeedableRng (R : Type) where
  seedFromU64 : Bounded u64 → R

/-- A strategy that issues prepared commands, one list a step, and draws nothing. -/
structure Script where
  opening : List OrderCommand
  steps : List (List OrderCommand)

namespace Script

instance : SeedableRng Unit := ⟨fun _ => ()⟩

instance : Strategy Script Unit where
  onStart s ctx cmds := .ok (s, ctx.rng, cmds ++ s.opening)
  exits s _ cmds := .ok (s, cmds)
  onSnapshot s ctx cmds :=
    .ok ({ s with steps := s.steps.tail }, ctx.rng, cmds ++ s.steps.head?.getD [])
  onEnd s ctx cmds := .ok (s, ctx.rng, cmds)
  exitReason _ := .ManualClose

end Script

end IronCondor
