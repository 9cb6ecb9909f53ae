import IronCondor.Engine.Registry

/-! # The phases of a step

A step runs the exits, the entries and, when it is the last one, the final closes of the strategy
over one shared queue. Of a strategy that only appends, the phase of a command is the hook that
appended it; the replay loop recovers it from the command's place in the queue. -/
namespace IronCondor

open Checked ExceptRun

/-- What appended a command to the queue of a call; the exits phase with the strategy's policy
reason. -/
inductive Phase where
  | startup
  | exits (policy : ExitReason)
  | entries
  | onEnd
deriving DecidableEq

/-- The exit reason of a close appended in a phase. -/
def Phase.exitReason : Phase → ExitReason
  | .exits policy => policy
  | .onEnd => .Other "end_of_data"
  | .startup => .ManualClose
  | .entries => .ManualClose

/-- A strategy whose hooks leave the commands already queued alone and append to them. -/
structure AppendsOnly (S : Type) {R : Type} [Strategy S R] : Prop where
  onStart : ∀ (strategy strategy' : S) (ctx : ChainContext R) (rng : R)
    (cmds cmds' : List OrderCommand),
    Strategy.onStart strategy ctx cmds = .ok (strategy', rng, cmds') → cmds <+: cmds'
  exits : ∀ (strategy strategy' : S) (ctx : ChainContext R) (cmds cmds' : List OrderCommand),
    Strategy.exits strategy ctx cmds = .ok (strategy', cmds') → cmds <+: cmds'
  onSnapshot : ∀ (strategy strategy' : S) (ctx : ChainContext R) (rng : R)
    (cmds cmds' : List OrderCommand),
    Strategy.onSnapshot strategy ctx cmds = .ok (strategy', rng, cmds') → cmds <+: cmds'
  onEnd : ∀ (strategy strategy' : S) (ctx : ChainContext R) (rng : R)
    (cmds cmds' : List OrderCommand),
    Strategy.onEnd strategy ctx cmds = .ok (strategy', rng, cmds') → cmds <+: cmds'

variable {S X R : Type}

/-- What a hook appended to the queue it was handed. -/
def appended (cmds cmds' : List OrderCommand) : List OrderCommand := cmds'.drop cmds.length

/-- Commands appended in one phase. -/
def inPhase (phase : Phase) (cmds : List OrderCommand) : List (OrderCommand × Phase) :=
  cmds.map (·, phase)

namespace RunState

variable [Strategy S R]

/-- The queue of the startup. -/
def startQueue (s : RunState S X R) (snapshot : ChainSnapshot) :
    Outcome (List (OrderCommand × Phase)) := do
  let (_, _, cmds) ← Strategy.onStart s.strategy (s.context snapshot []) []
  return inPhase .startup cmds

/-- The queue of a step, every command with the hook that appended it. -/
def stepQueue (s : RunState S X R) (snapshot : ChainSnapshot) (isLast : Bool) :
    Outcome (List (OrderCommand × Phase)) := do
  let pending := pendingView s.engine.pending
  let (strategy, exits) ← Strategy.exits s.strategy (s.context snapshot pending) []
  let (strategy, rng, entries) ← Strategy.onSnapshot strategy (s.context snapshot pending) exits
  let s := { s with strategy, rng }
  let (strategy, all) ←
    if isLast then do
      let (strategy, _, all) ← Strategy.onEnd s.strategy (s.context snapshot pending) entries
      pure (strategy, all)
    else pure (s.strategy, entries)
  return inPhase (.exits (Strategy.exitReason strategy)) exits ++
    inPhase .entries (appended exits entries) ++ inPhase .onEnd (appended entries all)

end RunState

section Ranges

/-- Commands of a queue with the exit reason the loop gives a close at their place. -/
def CloseReasons.tag (reasons : CloseReasons) (entries : List (OrderCommand × Nat)) :
    List (OrderCommand × ExitReason) :=
  entries.map (Prod.map id reasons.reasonFor)

/-- The exit reasons of the closes of a queue, by phase. -/
def phaseReasons (queue : List (OrderCommand × Phase)) : List (OrderCommand × ExitReason) :=
  queue.map (Prod.map id Phase.exitReason)

theorem phaseReasons_append (queue queue' : List (OrderCommand × Phase)) :
    phaseReasons (queue ++ queue') = phaseReasons queue ++ phaseReasons queue' :=
  List.map_append

theorem tag_append (reasons : CloseReasons) (entries entries' : List (OrderCommand × Nat)) :
    reasons.tag (entries ++ entries') = reasons.tag entries ++ reasons.tag entries' :=
  List.map_append

/-- A range of the queue whose places all have the reason of one phase. -/
theorem tag_range {reasons : CloseReasons} {cmds : List OrderCommand} {start : Nat} {phase : Phase}
    (h : ∀ idx, start ≤ idx → idx < start + cmds.length →
      reasons.reasonFor idx = phase.exitReason) :
    reasons.tag (cmds.zipIdx start) = phaseReasons (inPhase phase cmds) := by
  induction cmds generalizing start with
  | nil => rfl
  | cons cmd cmds ih =>
    have hhead : reasons.reasonFor start = phase.exitReason :=
      h start le_rfl (by rw [List.length_cons]; omega)
    have htail : reasons.tag (cmds.zipIdx (start + 1)) = phaseReasons (inPhase phase cmds) :=
      ih fun idx hle hlt => h idx (by omega) (by rw [List.length_cons]; omega)
    simp only [CloseReasons.tag, phaseReasons, inPhase, List.zipIdx_cons, List.map_cons] at htail ⊢
    rw [htail, Prod.map_apply, Prod.map_apply, hhead]

/-- The three ranges of a queue have the reasons of the three phases. -/
theorem tag_ranges (exits entries ends : List OrderCommand) (policy : ExitReason) :
    CloseReasons.tag ⟨exits.length, (exits ++ entries).length,
        if 0 < exits.length then policy else .ManualClose⟩ (exits ++ entries ++ ends).zipIdx =
      phaseReasons (inPhase (.exits policy) exits ++ inPhase .entries entries ++
        inPhase .onEnd ends) := by
  rw [List.zipIdx_append, List.zipIdx_append, tag_append, tag_append, phaseReasons_append,
    phaseReasons_append]
  congr 1
  · congr 1
    · apply tag_range
      intro idx _ hlt
      have hidx : idx < exits.length := by omega
      rw [CloseReasons.reasonFor, if_pos hidx, if_pos (by omega)]
      rfl
    · apply tag_range
      intro idx hle hlt
      rw [CloseReasons.reasonFor, if_neg (by dsimp only; omega), if_neg]
      · rfl
      · dsimp only
        rw [List.length_append]
        omega
  · apply tag_range
    intro idx hle hlt
    rw [List.length_append] at hle
    rw [CloseReasons.reasonFor, if_neg (by dsimp only; omega), if_pos]
    · rfl
    · dsimp only
      rw [List.length_append]
      omega

end Ranges

section Queues

variable [Strategy S R] {s s' : RunState S X R} {snapshot : ChainSnapshot} {isLast : Bool}
  {cmds : List OrderCommand} {reasons : CloseReasons}

theorem appended_append (cmds added : List OrderCommand) :
    appended cmds (cmds ++ added) = added :=
  List.drop_left

/-- The close-phase ranges of a step tell the phases of an appending strategy. -/
theorem collectCommands_queue (happends : AppendsOnly S)
    (h : s.collectCommands snapshot isLast = .ok (s', cmds, reasons)) :
    ∃ queue, s.stepQueue snapshot isLast = .ok queue ∧
      reasons.tag cmds.zipIdx = phaseReasons queue := by
  simp only [RunState.collectCommands, bind_ok_iff, Prod.exists] at h
  obtain ⟨clock, -, strategy, exits, hexits, strategy', rng, entries, hentries, h⟩ := h
  obtain ⟨added, rfl⟩ := happends.onSnapshot _ _ _ _ _ _ hentries
  cases isLast with
  | true =>
    simp only [if_true, bind_ok_iff, pure_ok_iff, Prod.exists, Prod.mk.injEq] at h
    obtain ⟨strategy'', rng', all, hends, _, -, _, _, ⟨rfl, rfl⟩, rfl, rfl, rfl⟩ := h
    obtain ⟨ends, rfl⟩ := happends.onEnd _ _ _ _ _ _ hends
    refine ⟨_, ?_, tag_ranges exits added ends _⟩
    simp only [RunState.stepQueue, bind_ok_iff, Prod.exists, if_true]
    refine ⟨strategy, exits, hexits, strategy', rng, _, hentries, strategy'', rng', _, hends, _, _,
      rfl, ?_⟩
    rw [appended_append, appended_append]
    rfl
  | false =>
    simp only [Bool.false_eq_true, if_false, bind_ok_iff, pure_ok_iff, Prod.exists,
      Prod.mk.injEq] at h
    obtain ⟨_, _, ⟨rfl, rfl⟩, rfl, rfl, rfl⟩ := h
    refine ⟨inPhase (.exits (Strategy.exitReason strategy')) exits ++ inPhase .entries added ++
      inPhase .onEnd [], ?_, ?_⟩
    · simp only [RunState.stepQueue, bind_ok_iff, Prod.exists, Bool.false_eq_true, if_false]
      refine ⟨strategy, exits, hexits, strategy', rng, _, hentries, strategy', _, rfl, ?_⟩
      rw [appended_append, appended, List.drop_length]
      rfl
    · have htag := tag_ranges exits added [] (Strategy.exitReason strategy')
      rw [List.append_nil] at htag
      exact htag

end Queues

namespace Batch

/-- The submitting commands of a queue, under the order ids minted for them in command order. -/
def ordered {α : Type} (b : Batch X) (queue : List (OrderCommand × α)) :
    List (OrderId × OrderCommand × α) :=
  b.submitIds.zip (queue.filter fun entry => entry.1.intent?.isSome)

/-- The exit reason the call gives each order it submits, should it close a leg. -/
def orderReasons (b : Batch X) : List (OrderId × ExitReason) :=
  (b.ordered (b.reasons.tag b.cmds.zipIdx)).map fun entry => (entry.1, entry.2.2)

theorem ordered_phaseReasons (b : Batch X) (queue : List (OrderCommand × Phase)) :
    b.ordered (phaseReasons queue) =
      (b.ordered queue).map fun entry => (entry.1, entry.2.1, entry.2.2.exitReason) := by
  unfold ordered phaseReasons
  rw [List.filter_map, List.zip_map_right]
  rfl

end Batch

/-- The exit reasons of the orders of a log. -/
def orderReasons (log : List (Batch X)) : List (OrderId × ExitReason) :=
  log.flatMap Batch.orderReasons

namespace Setup

variable [Strategy S R] [ExecutionModel X] [SeedableRng R] {r : Setup S X} {n : Nat}
  {log : List (Batch X)} {s : RunState S X R}

/-- The queue of the `k`-th call of a run, call zero being the startup. -/
def queueAt (r : Setup S X) : Nat → Outcome (List (OrderCommand × Phase))
  | 0 => do
    let initial ← BacktestEngine.initialCents r.config
    let first ← okOr r.feed.tape.head? (.Data "tape is empty")
    let s := BacktestEngine.initialState r.config initial r.execution r.strategy
    s.startQueue first
  | k + 1 => do
    let (_, s) ← r.play k
    let snapshot ← okOr r.feed.tape[k]?
      (.Data "feed exhausted before reaching the declared final step")
    s.stepQueue snapshot (r.isLast snapshot)

/-- The order was issued by a command appended in the phase. -/
def IssuedIn (r : Setup S X) (log : List (Batch X)) (orderId : OrderId) (phase : Phase) : Prop :=
  ∃ k b queue cmd, log[k]? = some b ∧ r.queueAt k = .ok queue ∧
    (orderId, cmd, phase) ∈ b.ordered queue

omit [SeedableRng R] in
theorem startup_queue {s' : RunState S X R} {snapshot : ChainSnapshot}
    (h : s.onStart snapshot = .ok s') : ∃ queue, s.startQueue snapshot = .ok queue ∧
      CloseReasons.tag ⟨0, s'.cmds.length, .ManualClose⟩ s'.cmds.zipIdx = phaseReasons queue := by
  simp only [RunState.onStart, bind_ok_iff, Prod.exists] at h
  obtain ⟨strategy, rng, cmds, hcmds, hexec⟩ := h
  have hkept : s'.cmds = cmds := congrArg RunState.cmds (execute_eq_ok hexec).2
  refine ⟨inPhase .startup cmds, ?_, ?_⟩
  · simp only [RunState.startQueue, hcmds, ok_bind]
    rfl
  · rw [hkept]
    apply tag_range
    intro idx _ hlt
    rw [CloseReasons.reasonFor, if_neg (by dsimp only; omega), if_neg (by dsimp only; omega)]
    rfl

/-- The calls of a run of an appending strategy give every command the reason of its phase. -/
theorem play_queues (happends : AppendsOnly S) (h : r.play n = .ok (log, s)) :
    log.length = n + 1 ∧ ∀ (k : Nat) (b : Batch X), log[k]? = some b →
      ∃ queue, r.queueAt k = .ok queue ∧ b.reasons.tag b.cmds.zipIdx = phaseReasons queue := by
  induction n generalizing log s with
  | zero =>
    simp only [play, bind_ok_iff, pure_ok_iff, Prod.mk.injEq] at h
    obtain ⟨initial, hinitial, first, hfirst, s', hstart, rfl, rfl⟩ := h
    obtain ⟨queue, hqueue, htag⟩ := startup_queue hstart
    refine ⟨rfl, fun k b hb => ?_⟩
    obtain ⟨hk, rfl⟩ := List.getElem?_eq_some_iff.1 hb
    obtain rfl : k = 0 := by simpa using hk
    refine ⟨queue, ?_, htag⟩
    simp only [queueAt, hinitial, hfirst, ok_bind, hqueue]
  | succ n ih =>
    simp only [play, bind_ok_iff, pure_ok_iff, Prod.exists, Prod.mk.injEq] at h
    obtain ⟨prior, t, hprior, snapshot, hsnapshot, t₁, cmds, reasons, hcollect, t₂, hexec, t₃, -,
      rfl, rfl⟩ := h
    obtain ⟨hlength, hall⟩ := ih hprior
    obtain ⟨queue, hqueue, htag⟩ := collectCommands_queue happends hcollect
    have hkept : t₂.cmds = cmds := congrArg RunState.cmds (execute_eq_ok hexec).2
    refine ⟨by simp [hlength], fun k b hb => ?_⟩
    rw [List.getElem?_append] at hb
    split_ifs at hb with hk
    · exact hall k b hb
    · obtain ⟨hlast, rfl⟩ := List.getElem?_eq_some_iff.1 hb
      obtain rfl : k = n + 1 := by
        rw [List.length_singleton] at hlast
        omega
      refine ⟨queue, ?_, ?_⟩
      · simp only [queueAt, hprior, hsnapshot, ok_bind, hqueue]
      · simp only [List.getElem_singleton, Batch.of, hkept]
        exact htag

/-- An order issued in a phase has the reason of the phase. -/
theorem IssuedIn.reason (happends : AppendsOnly S) (h : r.play n = .ok (log, s))
    {orderId : OrderId} {phase : Phase} (hissued : r.IssuedIn log orderId phase) :
    (orderId, phase.exitReason) ∈ orderReasons log := by
  obtain ⟨k, b, queue, cmd, hb, hqueue, hmem⟩ := hissued
  obtain ⟨_, hqueue', htag⟩ := (play_queues happends h).2 k b hb
  cases hqueue.symm.trans hqueue'
  refine List.mem_flatMap.2 ⟨b, List.mem_of_getElem? hb, List.mem_map.2 ?_⟩
  rw [htag, Batch.ordered_phaseReasons]
  exact ⟨_, List.mem_map_of_mem hmem, rfl⟩

/-- Every reason of an order goes back to the phase it was issued in. -/
theorem exists_issuedIn (happends : AppendsOnly S) (h : r.play n = .ok (log, s))
    {orderId : OrderId} {reason : ExitReason} (hreason : (orderId, reason) ∈ orderReasons log) :
    ∃ phase, r.IssuedIn log orderId phase ∧ phase.exitReason = reason := by
  obtain ⟨b, hb, hreason⟩ := List.mem_flatMap.1 hreason
  obtain ⟨k, hk⟩ := List.getElem?_of_mem hb
  obtain ⟨queue, hqueue, htag⟩ := (play_queues happends h).2 k b hk
  obtain ⟨entry, hentry, heq⟩ := List.mem_map.1 hreason
  rw [htag, Batch.ordered_phaseReasons] at hentry
  obtain ⟨⟨_, cmd, phase⟩, hmem, rfl⟩ := List.mem_map.1 hentry
  cases heq
  exact ⟨phase, ⟨k, b, queue, cmd, hk, hqueue, hmem⟩, rfl⟩

end Setup

end IronCondor
