import IronCondor.Data.CsvFiles

/-! # Draining a simulator session

A session is advanced until the counters of the server say that it ended; every response becomes
one snapshot. Whatever the server answers, the step ceiling ends the loop. -/
namespace IronCondor

open Checked

/-- The state of a session. -/
inductive SessionState where
  | Initialized
  | InProgress
  | Modified
  | Reinitialized
  | Completed
  | Error
  | Unknown
deriving DecidableEq

namespace SessionState

def fromWire (raw : String) : SessionState :=
  match String.ofList (((trimBlanks raw).toList.map Char.toLower).filter (· ≠ ' ')) with
  | "initialized" => .Initialized
  | "inprogress" => .InProgress
  | "modified" => .Modified
  | "reinitialized" => .Reinitialized
  | "completed" => .Completed
  | "error" => .Error
  | _ => .Unknown

def fromProgress (currentStep totalSteps : Nat) : SessionState :=
  if totalSteps ≤ currentStep then .Completed else .InProgress

def isTerminal : SessionState → Bool
  | .Completed | .Error => true
  | _ => false

end SessionState

def sessionEnded (state : SessionState) (currentStep totalSteps : Nat) : Bool :=
  state.isTerminal || (SessionState.fromProgress currentStep totalSteps).isTerminal

/-- What the materialiser reads of a created session. -/
structure SessionResponse where
  currentStep : Nat
  totalSteps : Nat
  state : String

/-- The responses of the server: what the loop reads of them, and their conversion. -/
class ChainResponses (Resp : Type) where
  contracts : Resp → Nat
  responseTs : Resp → Outcome SimTime
  toSnapshot : Resp → StepIndex → InstrumentSpec → SimTime → Quantity → Outcome ChainSnapshot
  currentStep : Resp → Nat
  totalSteps : Resp → Nat

/-- The variables of the loop. -/
structure DrainLoop where
  buffer : TapeBuffer
  anchorTs : Option SimTime
  prevTs : Option SimTime
  ended : Bool
  expectedStep : Nat

/-- The loop at its start, from the response that created the session. -/
def DrainLoop.init (session : SessionResponse) : DrainLoop where
  buffer := .empty
  anchorTs := none
  prevTs := none
  ended := sessionEnded (.fromWire session.state) session.currentStep session.totalSteps
  expectedStep := session.currentStep

section Drain

variable {Resp : Type} [ChainResponses Resp] [TypeSizes] (instrument : InstrumentSpec)
  (quoteSize : Quantity) (limits : ResourceLimits)

/-- One response. -/
def DrainLoop.receive (loop : DrainLoop) (resp : Resp) : Outcome DrainLoop := do
  let contracts ← checked u64 (ChainResponses.contracts resp : Nat)
  let quoteCount ← checked u64 (contracts.value * 2)
  require (quoteCount.value ≤ limits.maxContractsPerSnapshot.value)
    (.TapeTooLarge "max_contracts_per_snapshot" quoteCount.value
      limits.maxContractsPerSnapshot.value)
  let step ← checked u32 (loop.buffer.tape.length : Nat)
  let anchor ← loop.anchorTs.elim (ChainResponses.responseTs resp) pure
  let snapshot ← ChainResponses.toSnapshot resp step instrument anchor quoteSize
  require (loop.prevTs.all (·.value < snapshot.ts.value))
    (.DataOutOfOrder step.value snapshot.ts.value ((loop.prevTs.map (·.value)).getD 0))
  let buffer ← pushChecked loop.buffer snapshot limits
  let currentStep := ChainResponses.currentStep resp
  return {
    buffer
    anchorTs := some anchor
    prevTs := some snapshot.ts
    ended := (SessionState.fromProgress currentStep (ChainResponses.totalSteps resp)).isTerminal
    expectedStep := currentStep }

/-- One advance: the request carries the step it expects, and the server answers at will. -/
def DrainLoop.advance (server : Nat → Nat → Outcome Resp) (loop : DrainLoop) :
    Outcome DrainLoop := do
  let resp ← server loop.buffer.tape.length loop.expectedStep
  loop.receive instrument quoteSize limits resp

variable {instrument quoteSize limits}

/-- Every response that is taken pushes one snapshot. -/
theorem DrainLoop.receive_pushes {loop loop' : DrainLoop} {resp : Resp}
    (h : loop.receive instrument quoteSize limits resp = .ok loop') :
    ∃ snapshot, pushChecked loop.buffer snapshot limits = .ok loop'.buffer := by
  simp only [receive, bind_ok_iff, pure_ok_iff] at h
  obtain ⟨_, -, _, -, _, -, _, -, _, -, snapshot, -, _, -, buffer, hpush, rfl⟩ := h
  exact ⟨snapshot, hpush⟩

theorem DrainLoop.advance_pushes {server : Nat → Nat → Outcome Resp} {loop loop' : DrainLoop}
    (h : loop.advance instrument quoteSize limits server = .ok loop') :
    ∃ snapshot, pushChecked loop.buffer snapshot limits = .ok loop'.buffer := by
  obtain ⟨resp, -, hreceive⟩ := bind_ok_iff.1 h
  exact receive_pushes hreceive

/-- Every response that is taken brings the tape nearer to the step ceiling. -/
theorem DrainLoop.receive_decreases {loop loop' : DrainLoop} {resp : Resp}
    (h : loop.receive instrument quoteSize limits resp = .ok loop') :
    (limits.maxSteps.value - loop'.buffer.tape.length).toNat <
      (limits.maxSteps.value - loop.buffer.tape.length).toNat := by
  obtain ⟨snapshot, hpush⟩ := receive_pushes h
  obtain ⟨htape, hsteps⟩ := pushChecked_eq_ok hpush
  rw [htape, List.length_append, List.length_singleton] at hsteps ⊢
  omega

theorem DrainLoop.advance_decreases {server : Nat → Nat → Outcome Resp} {loop loop' : DrainLoop}
    (h : loop.advance instrument quoteSize limits server = .ok loop') :
    (limits.maxSteps.value - loop'.buffer.tape.length).toNat <
      (limits.maxSteps.value - loop.buffer.tape.length).toNat := by
  obtain ⟨resp, -, hreceive⟩ := bind_ok_iff.1 h
  exact receive_decreases hreceive

variable (instrument quoteSize limits)

/-- `drain`. -/
def drain (server : Nat → Nat → Outcome Resp) (loop : DrainLoop) : Outcome (List ChainSnapshot) :=
  if loop.ended then .ok loop.buffer.tape
  else
    match _hnext : loop.advance instrument quoteSize limits server with
    | .error e => .error e
    | .ok next => drain server next
termination_by (limits.maxSteps.value - loop.buffer.tape.length).toNat
decreasing_by exact DrainLoop.advance_decreases _hnext

variable {instrument quoteSize limits} {server server' : Nat → Nat → Outcome Resp}
  {loop next : DrainLoop}

theorem drain_ended (hended : loop.ended = true) :
    drain instrument quoteSize limits server loop = .ok loop.buffer.tape := by
  rw [drain, if_pos hended]

theorem drain_failed (hrunning : ¬ loop.ended = true) {e : BacktestError}
    (h : loop.advance instrument quoteSize limits server = .error e) :
    drain instrument quoteSize limits server loop = .error e := by
  rw [drain, if_neg hrunning]
  split
  · rename_i hnext
    exact congrArg Except.error (Except.error.inj (hnext.symm.trans h))
  · rename_i hnext
    cases hnext.symm.trans h

theorem drain_next (hrunning : ¬ loop.ended = true)
    (h : loop.advance instrument quoteSize limits server = .ok next) :
    drain instrument quoteSize limits server loop =
      drain instrument quoteSize limits server next := by
  rw [drain, if_neg hrunning]
  split
  · rename_i hnext
    cases hnext.symm.trans h
  · rename_i hnext
    cases hnext.symm.trans h
    rfl

/-- The loop asks for the answers of the positions it has yet to fill, and no others. -/
theorem drain_congr (h : ∀ k expected, loop.buffer.tape.length ≤ k →
      server k expected = server' k expected) :
    drain instrument quoteSize limits server loop =
      drain instrument quoteSize limits server' loop := by
  fun_induction drain instrument quoteSize limits server loop with
  | case1 loop hended => exact (drain_ended hended).symm
  | case2 loop hrunning e hnext =>
    refine (drain_failed hrunning ?_).symm
    rw [← hnext, DrainLoop.advance, DrainLoop.advance, h _ _ (le_refl _)]
  | case3 loop hrunning next hnext ih =>
    have hsame : loop.advance instrument quoteSize limits server' = .ok next := by
      rw [← hnext, DrainLoop.advance, DrainLoop.advance, h _ _ (le_refl _)]
    rw [drain_next hrunning hsame]
    obtain ⟨snapshot, hpush⟩ := DrainLoop.advance_pushes hnext
    have hlonger := (pushChecked_eq_ok hpush).1
    refine ih fun k expected hk => h k expected (le_trans ?_ hk)
    rw [hlonger, List.length_append]
    exact Nat.le_add_right _ _

end Drain

end IronCondor
