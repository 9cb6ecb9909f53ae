import IronCondor.Config

/-! # Materialising a tape

Every feed pushes its finished snapshots through one check of the `max_steps` and
`max_total_bytes` ceilings. -/
namespace IronCondor

open Checked

/-- The sizes the compiler gives the types a tape is made of. -/
class TypeSizes where
  contractKey : Nat
  quoteView : Nat
  chainSnapshot : Nat

/-- The snapshots pushed so far, with the running byte estimate of all of them. -/
structure TapeBuffer where
  tape : List ChainSnapshot
  totalBytes : Bounded u64

def TapeBuffer.empty : TapeBuffer := ⟨[], ⟨0, u64.contains_zero⟩⟩

/-- Whether a tape is accepted does not depend on its identity, which is only recorded. -/
theorem TapeMeta.fromTape_identity {identity identity' : String} {tape : List ChainSnapshot}
    {tapeMeta : TapeMeta} (h : TapeMeta.fromTape identity tape = .ok tapeMeta) :
    TapeMeta.fromTape identity' tape = .ok { tapeMeta with dataIdentity := identity' } := by
  unfold TapeMeta.fromTape at h ⊢
  split at h
  · cases h
  · simp only [bind_ok_iff, require_eq_ok, pure_ok_iff] at h ⊢
    obtain ⟨_, hzero, finalStep, hcheck, rfl⟩ := h
    exact ⟨(), hzero, finalStep, hcheck, rfl⟩

theorem TapeMeta.checkTape_ascends {prev : SimTime} {prevStep finalStep : StepIndex}
    {tape : List ChainSnapshot} (h : TapeMeta.checkTape prev prevStep tape = .ok finalStep) :
    (∀ snapshot ∈ tape, prev.value < snapshot.ts.value) ∧
      tape.Pairwise fun snapshot later => snapshot.ts.value < later.ts.value := by
  induction tape generalizing prev prevStep with
  | nil => simp
  | cons snapshot rest ih =>
    simp only [checkTape, bind_ok_iff, require_eq_ok] at h
    obtain ⟨_, hfirst, _, -, _, -, hrest⟩ := h
    obtain ⟨hlater, hpairwise⟩ := ih hrest
    refine ⟨List.forall_mem_cons.2 ⟨hfirst, fun s hs => hfirst.trans (hlater s hs)⟩, ?_⟩
    exact List.pairwise_cons.2 ⟨hlater, hpairwise⟩

/-- The timestamps of an accepted tape strictly increase. -/
theorem TapeMeta.fromTape_ascends {identity : String} {tape : List ChainSnapshot}
    {tapeMeta : TapeMeta} (h : TapeMeta.fromTape identity tape = .ok tapeMeta) :
    tape.Pairwise fun snapshot later => snapshot.ts.value < later.ts.value := by
  unfold TapeMeta.fromTape at h
  split at h
  · cases h
  · simp only [bind_ok_iff] at h
    obtain ⟨_, -, finalStep, hcheck, -⟩ := h
    obtain ⟨hlater, hpairwise⟩ := checkTape_ascends hcheck
    exact List.pairwise_cons.2 ⟨hlater, hpairwise⟩

section Push

variable [TypeSizes]

/-- `snapshot_byte_estimate`. -/
def snapshotByteEstimate (snapshot : ChainSnapshot) : Outcome (Bounded u64) := do
  let perQuote ← checked u64 (TypeSizes.contractKey + TypeSizes.quoteView : Nat)
  let overhead ← checked u64 (TypeSizes.chainSnapshot : Nat)
  let quotes ← checked u64 (snapshot.quotes.size : Nat)
  let scaled ← checked u64 (quotes.value * perQuote.value)
  checked u64 (scaled.value + overhead.value)

/-- `push_checked`. -/
def pushChecked (buffer : TapeBuffer) (snapshot : ChainSnapshot) (limits : ResourceLimits) :
    Outcome TapeBuffer := do
  let nextLen ← checked u64 (buffer.tape.length + 1 : Nat)
  require (nextLen.value ≤ limits.maxSteps.value)
    (.TapeTooLarge "max_steps" nextLen.value limits.maxSteps.value)
  let snapshotBytes ← snapshotByteEstimate snapshot
  let nextTotal ← checked u64 (buffer.totalBytes.value + snapshotBytes.value)
  require (nextTotal.value ≤ limits.maxTotalBytes.value)
    (.TapeTooLarge "max_total_bytes" nextTotal.value limits.maxTotalBytes.value)
  return { tape := buffer.tape ++ [snapshot], totalBytes := nextTotal }

/-- A push appends the snapshot, within the step ceiling. -/
theorem pushChecked_eq_ok {buffer pushed : TapeBuffer} {snapshot : ChainSnapshot}
    {limits : ResourceLimits} (h : pushChecked buffer snapshot limits = .ok pushed) :
    pushed.tape = buffer.tape ++ [snapshot] ∧
      (pushed.tape.length : Int) ≤ limits.maxSteps.value := by
  simp only [pushChecked, bind_ok_iff, narrow_eq_ok, require_eq_ok, pure_ok_iff] at h
  obtain ⟨nextLen, hlen, _, hcap, _, -, total, -, _, -, rfl⟩ := h
  refine ⟨rfl, ?_⟩
  rw [List.length_append, List.length_singleton]
  omega

end Push

end IronCondor
