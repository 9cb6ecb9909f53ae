import IronCondor.Domain.Market

/-! # Feeds and tape metadata

Every feed materialises a strictly ordered tape before the run and yields from it in order. -/
namespace IronCondor

open Checked

/-- The provenance of a simulator session; the session request is kept as its JSON text. -/
structure SimulatorSourceSpec where
  session : String
  baseUrl : String
  dataSeed : Bounded u64
  tapeSha256 : String
  simulatorVersion : Option String
deriving DecidableEq

/-- Where a run's chain data comes from. -/
inductive DataSourceSpec where
  | Csv (path sha256 : String)
  | Parquet (path sha256 : String)
  | Simulator (spec : SimulatorSourceSpec)
deriving DecidableEq

/-- The facts about a tape that are known before the run. -/
structure TapeMeta where
  dataIdentity : String
  nonEmpty : Bool
  firstTs : SimTime
  finalStep : StepIndex
deriving DecidableEq

namespace TapeMeta

/-- Timestamps strictly increase and steps are consecutive; the last step is returned. -/
def checkTape (prev : SimTime) (prevStep : StepIndex) : List ChainSnapshot → Outcome StepIndex
  | [] => .ok prevStep
  | snapshot :: rest => do
    require (prev.value < snapshot.ts.value)
      (.DataOutOfOrder snapshot.step.value snapshot.ts.value prev.value)
    let expected ← checked u32 (prevStep.value + 1)
    require (snapshot.step = expected) (.Conversion
      (s!"tape step {snapshot.step.value} is out of sequence: expected consecutive step " ++
        s!"{expected.value} (the StepIndex contract is 0-based and +1 per snapshot)"))
    checkTape snapshot.ts snapshot.step rest

def fromTape (dataIdentity : String) (tape : List ChainSnapshot) : Outcome TapeMeta :=
  match tape with
  | [] => .error (.Conversion "cannot build tape meta from an empty tape")
  | first :: rest => do
    require (first.step.value = 0) (.Conversion
      (s!"tape must start at step 0, got step {first.step.value} (the StepIndex contract is " ++
        "0-based and consecutive)"))
    let finalStep ← checkTape first.ts first.step rest
    return { dataIdentity, nonEmpty := true, firstTs := first.ts, finalStep }

theorem checkTape_eq_ok {prev : SimTime} {prevStep finalStep : StepIndex}
    {tape : List ChainSnapshot} (h : checkTape prev prevStep tape = .ok finalStep) :
    finalStep.value = prevStep.value + tape.length ∧
      ∀ (k : Nat) (snapshot : ChainSnapshot), tape[k]? = some snapshot →
        snapshot.step.value = prevStep.value + (k + 1) := by
  induction tape generalizing prev prevStep with
  | nil =>
    cases h
    simp
  | cons snapshot rest ih =>
    simp only [checkTape, bind_ok_iff, require_eq_ok, narrow_eq_ok] at h
    obtain ⟨_, -, expected, hexpected, _, rfl, h⟩ := h
    obtain ⟨hlast, hsteps⟩ := ih h
    refine ⟨?_, ?_⟩
    · rw [hlast, hexpected, List.length_cons]
      push_cast
      ring
    · rintro (_ | k) s hs
      · cases hs
        simpa using hexpected
      · rw [hsteps k s hs, hexpected]
        push_cast
        ring

/-- The snapshot at position `k` of an accepted tape is step `k`, and the final step is the
last. -/
theorem fromTape_eq_ok {dataIdentity : String} {tape : List ChainSnapshot} {tapeMeta : TapeMeta}
    (h : fromTape dataIdentity tape = .ok tapeMeta) :
    tapeMeta.nonEmpty = true ∧ tapeMeta.finalStep.value + 1 = tape.length ∧
      ∀ (k : Nat) (snapshot : ChainSnapshot), tape[k]? = some snapshot →
        snapshot.step.value = k := by
  unfold fromTape at h
  split at h
  · cases h
  · rename_i first rest
    simp only [bind_ok_iff, require_eq_ok, pure_ok_iff] at h
    obtain ⟨_, hzero, finalStep, hcheck, rfl⟩ := h
    obtain ⟨hlast, hsteps⟩ := checkTape_eq_ok hcheck
    refine ⟨rfl, ?_, ?_⟩
    · rw [hlast, hzero, List.length_cons]
      push_cast
      ring
    · rintro (_ | k) s hs
      · cases hs
        simpa using hzero
      · rw [hsteps k s hs, hzero]
        push_cast
        ring

end TapeMeta

/-- A feed: its metadata and the snapshots it has not yielded yet. -/
structure Feed where
  tapeMeta : TapeMeta
  source : DataSourceSpec
  tape : List ChainSnapshot

/-- A feed whose metadata was built from its own tape, as every shipped feed does. -/
structure MaterialisedFeed extends Feed where
  accepted : TapeMeta.fromTape tapeMeta.dataIdentity tape = .ok tapeMeta

end IronCondor
