import IronCondor.Engine.StepFills
import IronCondor.Lib.Fold

/-! # A step as a list of order events

The correlation of a step's fills does not depend on the engine's books: it is a parse of the
commands, the order ids, the groups and the flat fill list into order events. A step that
succeeds is exactly a successful parse followed by the fold of its events. -/
namespace IronCondor

open Checked ExceptRun

/-- What happens to one order in a step. -/
inductive OrderEvent where
  | carried (orderId : OrderId) (run : List Fill)
  | withdrawn (orderId : OrderId)
  | submitted (idx : Nat) (orderId : OrderId) (intent : OrderIntent) (run : List Fill)
deriving DecidableEq

namespace OrderEvent

/-- The fills an event accounts for. -/
def fills : OrderEvent → List Fill
  | carried _ run => run
  | withdrawn _ => []
  | submitted _ _ _ run => run

/-- The order an event is about. -/
def orderId : OrderEvent → OrderId
  | carried orderId _ => orderId
  | withdrawn orderId => orderId
  | submitted _ orderId _ _ => orderId

/-- The order an event submits, with the id it is submitted under. -/
def submission? : OrderEvent → Option (OrderId × OrderIntent)
  | submitted _ orderId intent _ => some (orderId, intent)
  | _ => none

/-- The resting order an event withdraws. -/
def withdrawal? : OrderEvent → Option OrderId
  | withdrawn orderId => some orderId
  | _ => none

/-- The resting order an event fills. -/
def carried? : OrderEvent → Option (OrderId × List Fill)
  | carried orderId run => some (orderId, run)
  | _ => none

end OrderEvent

/-- The engine's books together with the trade the step's opens share. -/
structure StepState where
  engine : EngineState
  stepTrade : Option TradeId

/-- One order event applied to the engine's books. -/
def applyEvent (reasons : CloseReasons) (snapshot : ChainSnapshot) (s : StepState) :
    OrderEvent → Outcome StepState
  | .carried orderId run => do
    let engine ← s.engine.applyCarryGroup orderId run snapshot
    return { s with engine }
  | .withdrawn orderId => .ok { s with engine := s.engine.withdraw orderId }
  | .submitted idx orderId intent run => do
    let (engine, stepTrade) ← s.engine.applySubmit s.stepTrade idx orderId intent run reasons
      snapshot
    return ⟨engine, stepTrade⟩

section Correlate

/-- The carried prefix, group by group, and where it ends. -/
def carryEvents (fills : List Fill) : Nat → List CarryGroup → Outcome (List OrderEvent × Nat)
  | cursor, [] => .ok ([], cursor)
  | cursor, group :: groups => do
    let run ← okOr (fillRun fills cursor group.fillCount.value.toNat)
      (.Execution "carry correlation ran past the produced fills")
    let (events, cursor) ← carryEvents fills (cursor + group.fillCount.value.toNat) groups
    return (.carried group.orderId run :: events, cursor)

def withdrawals (cmd : OrderCommand) : List OrderEvent :=
  cmd.target?.toList.map .withdrawn

/-- The events of one command and the advanced cursor. -/
def commandEvents (fills : List Fill) (submitIds : List OrderId) (cursor : Cursor)
    (entry : OrderCommand × Nat) : Outcome (List OrderEvent × Cursor) :=
  match entry.1.intent? with
  | none => .ok (withdrawals entry.1, cursor)
  | some intent => do
    let (orderId, run, cursor) ← cursor.next fills submitIds entry.2
    return (withdrawals entry.1 ++ [.submitted entry.2 orderId intent run], cursor)

def walkEvents (fills : List Fill) (submitIds : List OrderId) :
    Cursor → List (OrderCommand × Nat) → Outcome (List OrderEvent × Cursor)
  | cursor, [] => .ok ([], cursor)
  | cursor, entry :: entries => do
    let (events, cursor) ← commandEvents fills submitIds cursor entry
    let (rest, cursor) ← walkEvents fills submitIds cursor entries
    return (events ++ rest, cursor)

/-- The whole parse: every fill and every group must be consumed. -/
def correlate (cmds : List OrderCommand) (fills : List Fill) (groups : Option (List FillGroup))
    (carry : List CarryGroup) (submitIds : List OrderId) : Outcome (List OrderEvent) := do
  let (carried, cursor) ← carryEvents fills 0 carry
  let (walked, cursor) ← walkEvents fills submitIds ⟨cursor, groups, 0⟩ cmds.zipIdx
  require (cursor.cursor = fills.length ∧ cursor.groups.getD [] = [])
    (.Execution "execution fills were not fully correlated to submitted orders")
  return carried ++ walked

end Correlate

section Inversion

variable {cmds : List OrderCommand} {fills : List Fill} {groups : Option (List FillGroup)}
  {carry : List CarryGroup} {submitIds : List OrderId} {snapshot : ChainSnapshot}
  {reasons : CloseReasons} {st st' : EngineState}

theorem carryStep_foldlM_ok {cursor : Nat} {acc : EngineState × Nat} (trade : Option TradeId) :
    carry.foldlM (carryStep fills snapshot) (st, cursor) = .ok acc ↔
      ∃ events, carryEvents fills cursor carry = .ok (events, acc.2) ∧
        events.foldlM (applyEvent reasons snapshot) ⟨st, trade⟩ = .ok ⟨acc.1, trade⟩ := by
  induction carry generalizing st cursor with
  | nil =>
    rcases acc with ⟨engine, stop⟩
    simp only [foldlM_nil_ok, carryEvents, Except.ok.injEq, Prod.mk.injEq]
    constructor
    · rintro ⟨rfl, rfl⟩
      exact ⟨[], ⟨rfl, rfl⟩, foldlM_nil_ok.2 rfl⟩
    · rintro ⟨events, ⟨rfl, rfl⟩, h⟩
      cases foldlM_nil_ok.1 h
      exact ⟨rfl, rfl⟩
  | cons group groups ih =>
    simp only [foldlM_cons_ok, carryStep, carryEvents, bind_ok_iff, okOr_eq_ok, pure_ok_iff,
      Prod.exists, Prod.mk.injEq]
    constructor
    · rintro ⟨engine, next, ⟨run, hrun, engine', happly, rfl, rfl⟩, hrest⟩
      obtain ⟨events, hevents, hfold⟩ := ih.1 hrest
      refine ⟨_, ⟨run, hrun, events, acc.2, hevents, rfl, rfl⟩, foldlM_cons_ok.2 ?_⟩
      exact ⟨⟨engine', trade⟩, bind_ok_iff.2 ⟨engine', happly, rfl⟩, hfold⟩
    · rintro ⟨events, ⟨run, hrun, rest, stop, hevents, rfl, rfl⟩, hfold⟩
      obtain ⟨mid, hmid, hfold⟩ := foldlM_cons_ok.1 hfold
      obtain ⟨engine, happly, hmk⟩ := bind_ok_iff.1 hmid
      cases hmk
      exact ⟨engine, _, ⟨run, hrun, engine, happly, rfl, rfl⟩, ih.2 ⟨rest, hevents, hfold⟩⟩

theorem withdrawals_foldlM (s : StepState) (cmd : OrderCommand) :
    (withdrawals cmd).foldlM (applyEvent reasons snapshot) s =
      .ok { s with engine := s.engine.withdrawTarget cmd } := by
  unfold withdrawals EngineState.withdrawTarget
  cases cmd.target? <;> rfl

theorem walkCommand_ok {w : Walk} {entry : OrderCommand × Nat} {engine : EngineState}
    {trade : Option TradeId} {cursor : Cursor} :
    w.command fills submitIds reasons snapshot entry = .ok ⟨engine, trade, cursor⟩ ↔
      ∃ events, commandEvents fills submitIds w.cursor entry = .ok (events, cursor) ∧
        events.foldlM (applyEvent reasons snapshot) ⟨w.engine, w.stepTrade⟩ =
          .ok ⟨engine, trade⟩ := by
  unfold Walk.command commandEvents
  cases entry.1.intent? with
  | none =>
    simp only [pure_ok_iff, Except.ok.injEq, Prod.mk.injEq, Walk.mk.injEq]
    constructor
    · rintro ⟨rfl, rfl, rfl⟩
      exact ⟨_, ⟨rfl, rfl⟩, withdrawals_foldlM _ _⟩
    · rintro ⟨events, ⟨rfl, rfl⟩, hfold⟩
      rw [withdrawals_foldlM] at hfold
      cases hfold
      exact ⟨rfl, rfl, rfl⟩
  | some intent =>
    simp only [bind_ok_iff, pure_ok_iff, Prod.exists, Prod.mk.injEq, Walk.mk.injEq]
    constructor
    · rintro ⟨orderId, run, _, hnext, _, _, happly, rfl, rfl, rfl⟩
      refine ⟨_, ⟨orderId, run, _, hnext, rfl, rfl⟩, foldlM_append_ok.2 ?_⟩
      refine ⟨_, withdrawals_foldlM _ _, foldlM_singleton_ok.2 ?_⟩
      exact bind_ok_iff.2 ⟨_, happly, rfl⟩
    · rintro ⟨events, ⟨orderId, run, _, hnext, rfl, rfl⟩, hfold⟩
      obtain ⟨mid, hmid, hfold⟩ := foldlM_append_ok.1 hfold
      rw [withdrawals_foldlM] at hmid
      cases hmid
      rw [foldlM_singleton_ok] at hfold
      obtain ⟨⟨_, _⟩, happly, hmk⟩ := bind_ok_iff.1 hfold
      cases hmk
      exact ⟨orderId, run, _, hnext, _, _, happly, rfl, rfl, rfl⟩

theorem walk_foldlM_ok {entries : List (OrderCommand × Nat)} {w : Walk} {engine : EngineState}
    {trade : Option TradeId} {cursor : Cursor} :
    entries.foldlM (Walk.command fills submitIds reasons snapshot) w =
        .ok ⟨engine, trade, cursor⟩ ↔
      ∃ events, walkEvents fills submitIds w.cursor entries = .ok (events, cursor) ∧
        events.foldlM (applyEvent reasons snapshot) ⟨w.engine, w.stepTrade⟩ =
          .ok ⟨engine, trade⟩ := by
  induction entries generalizing w with
  | nil =>
    rcases w with ⟨engine', trade', cursor'⟩
    simp only [foldlM_nil_ok, walkEvents, Except.ok.injEq, Prod.mk.injEq, Walk.mk.injEq]
    constructor
    · rintro ⟨rfl, rfl, rfl⟩
      exact ⟨[], ⟨rfl, rfl⟩, foldlM_nil_ok.2 rfl⟩
    · rintro ⟨events, ⟨rfl, rfl⟩, h⟩
      cases foldlM_nil_ok.1 h
      exact ⟨rfl, rfl, rfl⟩
  | cons entry entries ih =>
    rw [foldlM_cons_ok]
    simp only [walkEvents, bind_ok_iff, pure_ok_iff, Prod.exists, Prod.mk.injEq]
    constructor
    · rintro ⟨mid, hmid, hrest⟩
      obtain ⟨events, hevents, hfold⟩ := walkCommand_ok.1 hmid
      obtain ⟨rest, hwalk, hfold'⟩ := ih.1 hrest
      exact ⟨_, ⟨events, _, hevents, rest, _, hwalk, rfl, rfl⟩,
        foldlM_append_ok.2 ⟨_, hfold, hfold'⟩⟩
    · rintro ⟨_, ⟨events, next, hevents, rest, _, hwalk, rfl, rfl⟩, hfold⟩
      obtain ⟨⟨engine', trade'⟩, hfold, hfold'⟩ := foldlM_append_ok.1 hfold
      exact ⟨⟨engine', trade', next⟩, walkCommand_ok.2 ⟨events, hevents, hfold⟩,
        ih.2 ⟨rest, hwalk, hfold'⟩⟩

/-- The carried prefix does not touch the step's trade. -/
theorem carried_stepTrade {cursor stop : Nat} {events : List OrderEvent} {s t : StepState}
    (hevents : carryEvents fills cursor carry = .ok (events, stop))
    (h : events.foldlM (applyEvent reasons snapshot) s = .ok t) : t.stepTrade = s.stepTrade := by
  induction carry generalizing cursor events s with
  | nil =>
    cases hevents
    rw [foldlM_nil_ok.1 h]
  | cons group groups ih =>
    obtain ⟨run, -, hevents⟩ := bind_ok_iff.1 hevents
    obtain ⟨⟨rest, _⟩, hrest, hevents⟩ := bind_ok_iff.1 hevents
    cases hevents
    obtain ⟨mid, hmid, h⟩ := foldlM_cons_ok.1 h
    obtain ⟨engine, -, hmk⟩ := bind_ok_iff.1 hmid
    cases hmk
    have htail := ih hrest h
    exact htail

/-- A step's fills apply exactly when its lifecycle commands name pending orders, the channels
cover the fills, and the parsed events apply one after the other. -/
theorem applyStepFills_eq_ok :
    applyStepFills cmds fills groups carry submitIds snapshot reasons st = .ok st' ↔
      (∀ cmd ∈ cmds, prevalidate st.pending cmd = .ok ()) ∧
      coverage cmds fills groups carry = .ok () ∧
      ∃ events trade, correlate cmds fills groups carry submitIds = .ok events ∧
        events.foldlM (applyEvent reasons snapshot) ⟨st, none⟩ = .ok ⟨st', trade⟩ := by
  unfold applyStepFills correlate
  constructor
  · intro h
    obtain ⟨_, hpre, h⟩ := bind_ok_iff.1 h
    obtain ⟨_, hcover, h⟩ := bind_ok_iff.1 h
    obtain ⟨⟨mid, stop⟩, hcarry, h⟩ := bind_ok_iff.1 h
    obtain ⟨⟨engine, trade, cursor⟩, hwalk, h⟩ := bind_ok_iff.1 h
    obtain ⟨_, hdone, h⟩ := bind_ok_iff.1 h
    cases h
    obtain ⟨carried, hcarried, hfold⟩ := (carryStep_foldlM_ok none).1 hcarry
    obtain ⟨walked, hwalked, hfold'⟩ := walk_foldlM_ok.1 hwalk
    refine ⟨forM_ok_iff.1 hpre, hcover, carried ++ walked, trade, ?_,
      foldlM_append_ok.2 ⟨_, hfold, hfold'⟩⟩
    exact bind_ok_iff.2 ⟨_, hcarried, bind_ok_iff.2 ⟨_, hwalked, bind_ok_iff.2 ⟨_, hdone, rfl⟩⟩⟩
  · rintro ⟨hpre, hcover, events, trade, hparse, hfold⟩
    obtain ⟨⟨carried, stop⟩, hcarried, h⟩ := bind_ok_iff.1 hparse
    obtain ⟨⟨walked, cursor⟩, hwalked, h⟩ := bind_ok_iff.1 h
    obtain ⟨_, hdone, h⟩ := bind_ok_iff.1 h
    cases h
    obtain ⟨⟨mid, trade'⟩, hfold, hfold'⟩ := foldlM_append_ok.1 hfold
    obtain rfl := carried_stepTrade hcarried hfold
    refine bind_ok_iff.2 ⟨(), forM_ok_iff.2 hpre, bind_ok_iff.2 ⟨(), hcover, ?_⟩⟩
    refine bind_ok_iff.2 ⟨(mid, stop), (carryStep_foldlM_ok _).2 ⟨carried, hcarried, hfold⟩, ?_⟩
    refine bind_ok_iff.2 ⟨_, walk_foldlM_ok.2 ⟨walked, hwalked, hfold'⟩, ?_⟩
    exact bind_ok_iff.2 ⟨_, hdone, rfl⟩

end Inversion

section Accounting

variable {cmds : List OrderCommand} {fills : List Fill} {groups : Option (List FillGroup)}
  {carry : List CarryGroup} {submitIds : List OrderId}

theorem fillRun_eq_some {cursor count : Nat} {run : List Fill}
    (h : fillRun fills cursor count = some run) :
    fills.take cursor ++ run = fills.take (cursor + count) := by
  unfold fillRun at h
  split_ifs at h
  cases h
  rw [List.take_add]

theorem carryEvents_fills {cursor stop : Nat} {events : List OrderEvent}
    (h : carryEvents fills cursor carry = .ok (events, stop)) :
    fills.take cursor ++ events.flatMap OrderEvent.fills = fills.take stop := by
  induction carry generalizing cursor events with
  | nil =>
    cases h
    simp
  | cons group groups ih =>
    simp only [carryEvents, bind_ok_iff, okOr_eq_ok, pure_ok_iff, Prod.exists,
      Prod.mk.injEq] at h
    obtain ⟨run, hrun, rest, _, hrest, rfl, rfl⟩ := h
    rw [List.flatMap_cons, ← List.append_assoc]
    exact (congrArg (· ++ _) (fillRun_eq_some hrun)).trans (ih hrest)

theorem carryEvents_carried {cursor stop : Nat} {events : List OrderEvent}
    (h : carryEvents fills cursor carry = .ok (events, stop)) :
    ∀ ev ∈ events, ∃ orderId run, ev = .carried orderId run := by
  induction carry generalizing cursor events with
  | nil =>
    cases h
    nofun
  | cons group groups ih =>
    simp only [carryEvents, bind_ok_iff, okOr_eq_ok, pure_ok_iff, Prod.exists,
      Prod.mk.injEq] at h
    obtain ⟨run, -, rest, _, hrest, rfl, rfl⟩ := h
    exact List.forall_mem_cons.2 ⟨⟨_, _, rfl⟩, ih hrest⟩

/-- The next submitting command takes the next id and the next run. -/
theorem Cursor.next_eq_ok {c c' : Cursor} {idx : Nat} {orderId : OrderId} {run : List Fill}
    (h : c.next fills submitIds idx = .ok (orderId, run, c')) :
    submitIds.drop c.submitOrdinal = orderId :: submitIds.drop c'.submitOrdinal ∧
      fills.take c.cursor ++ run = fills.take c'.cursor := by
  simp only [Cursor.next, bind_ok_iff, okOr_eq_ok, pure_ok_iff, Prod.mk.injEq] at h
  obtain ⟨_, hid, run, hrun, rfl, rfl, rfl⟩ := h
  obtain ⟨hlt, rfl⟩ := List.getElem?_eq_some_iff.1 hid
  exact ⟨List.drop_eq_getElem_cons hlt, fillRun_eq_some hrun⟩

@[simp] theorem withdrawals_fills (cmd : OrderCommand) :
    (withdrawals cmd).flatMap OrderEvent.fills = [] := by
  unfold withdrawals
  cases cmd.target? <;> rfl

@[simp] theorem withdrawals_submission (cmd : OrderCommand) :
    (withdrawals cmd).filterMap OrderEvent.submission? = [] := by
  unfold withdrawals
  cases cmd.target? <;> rfl

@[simp] theorem withdrawals_withdrawal (cmd : OrderCommand) :
    (withdrawals cmd).filterMap OrderEvent.withdrawal? = cmd.target?.toList := by
  unfold withdrawals
  cases cmd.target? <;> rfl

/-- What the walk of some commands reads off the streams. -/
theorem walkEvents_eq_ok {entries : List (OrderCommand × Nat)} {c c' : Cursor}
    {events : List OrderEvent} (h : walkEvents fills submitIds c entries = .ok (events, c')) :
    fills.take c.cursor ++ events.flatMap OrderEvent.fills = fills.take c'.cursor ∧
      events.filterMap OrderEvent.submission? =
        (submitIds.drop c.submitOrdinal).zip (entries.filterMap fun e => e.1.intent?) ∧
      events.filterMap OrderEvent.withdrawal? = entries.filterMap fun e => e.1.target? := by
  induction entries generalizing c events with
  | nil =>
    cases h
    simp
  | cons entry entries ih =>
    simp only [walkEvents, bind_ok_iff, pure_ok_iff, Prod.exists, Prod.mk.injEq] at h
    obtain ⟨mine, mid, hmine, rest, _, hrest, rfl, rfl⟩ := h
    obtain ⟨hfills, hsub, hwith⟩ := ih hrest
    unfold commandEvents at hmine
    cases hintent : entry.1.intent? with
    | none =>
      rw [hintent] at hmine
      cases hmine
      refine ⟨?_, ?_, ?_⟩
      · simpa using hfills
      · simpa [hintent] using hsub
      · cases htarget : entry.1.target? <;> simp [hwith, htarget]
    | some intent =>
      rw [hintent] at hmine
      simp only [bind_ok_iff, pure_ok_iff, Prod.exists, Prod.mk.injEq] at hmine
      obtain ⟨orderId, run, _, hnext, rfl, rfl⟩ := hmine
      obtain ⟨hids, hrun⟩ := Cursor.next_eq_ok hnext
      refine ⟨?_, ?_, ?_⟩
      · rw [← hfills, ← hrun]
        simp [OrderEvent.fills]
      · rw [hids]
        simp [hintent, hsub, OrderEvent.submission?]
      · cases htarget : entry.1.target? <;>
          simp [List.filterMap_cons, hwith, htarget, OrderEvent.withdrawal?]

variable {events : List OrderEvent}

/-- A parse is a carried prefix followed by the walk of the commands. -/
theorem correlate_eq_ok (h : correlate cmds fills groups carry submitIds = .ok events) :
    ∃ carried walked stop c, events = carried ++ walked ∧
      carryEvents fills 0 carry = .ok (carried, stop) ∧
      walkEvents fills submitIds ⟨stop, groups, 0⟩ cmds.zipIdx = .ok (walked, c) ∧
      c.cursor = fills.length := by
  simp only [correlate, bind_ok_iff, require_eq_ok, pure_ok_iff, Prod.exists] at h
  obtain ⟨carried, stop, hcarried, walked, c, hwalked, _, ⟨hall, -⟩, rfl⟩ := h
  exact ⟨carried, walked, stop, c, rfl, hcarried, hwalked, hall⟩

/-- The events account for every fill once, in order. -/
theorem correlate_fills (h : correlate cmds fills groups carry submitIds = .ok events) :
    events.flatMap OrderEvent.fills = fills := by
  obtain ⟨carried, walked, stop, c, rfl, hcarried, hwalked, hall⟩ := correlate_eq_ok h
  have hprefix := carryEvents_fills hcarried
  have hrest := (walkEvents_eq_ok hwalked).1
  rw [hall, List.take_length, ← hprefix] at hrest
  simpa using hrest

/-- The events submit every intent once, under the minted ids, in order. -/
theorem correlate_submissions (h : correlate cmds fills groups carry submitIds = .ok events) :
    events.filterMap OrderEvent.submission? = submitIds.zip (cmds.filterMap (·.intent?)) := by
  obtain ⟨carried, walked, stop, c, rfl, hcarried, hwalked, -⟩ := correlate_eq_ok h
  have hnone : carried.filterMap OrderEvent.submission? = [] := by
    rw [List.filterMap_eq_nil_iff]
    intro ev hev
    obtain ⟨orderId, run, rfl⟩ := carryEvents_carried hcarried ev hev
    rfl
  have hmap : cmds.zipIdx.filterMap (fun e => e.1.intent?) = cmds.filterMap (·.intent?) := by
    conv_rhs => rw [← List.zipIdx_map_fst 0 cmds, List.filterMap_map]
    rfl
  rw [List.filterMap_append, hnone, (walkEvents_eq_ok hwalked).2.1, hmap]
  simp

/-- The events withdraw every target once, in order. -/
theorem correlate_withdrawals (h : correlate cmds fills groups carry submitIds = .ok events) :
    events.filterMap OrderEvent.withdrawal? = cmds.filterMap (·.target?) := by
  obtain ⟨carried, walked, stop, c, rfl, hcarried, hwalked, -⟩ := correlate_eq_ok h
  have hnone : carried.filterMap OrderEvent.withdrawal? = [] := by
    rw [List.filterMap_eq_nil_iff]
    intro ev hev
    obtain ⟨orderId, run, rfl⟩ := carryEvents_carried hcarried ev hev
    rfl
  have hmap : cmds.zipIdx.filterMap (fun e => e.1.target?) = cmds.filterMap (·.target?) := by
    conv_rhs => rw [← List.zipIdx_map_fst 0 cmds, List.filterMap_map]
    rfl
  rw [List.filterMap_append, hnone, (walkEvents_eq_ok hwalked).2.2, hmap, List.nil_append]

end Accounting

end IronCondor
