import IronCondor.Data.Simulator
import IronCondor.Data.SmallMarket
import IronCondor.Data.TapeHash
import IronCondor.Engine.Scenario
import IronCondor.Lib.LossyRequests
import IronCondor.Lib.Pointwise

/-! # A simulator session over a network

Opening a simulator feed creates a session, drains it and deletes it, each request retried on any
failure. The advance carries the step it expects, so a retry of one whose answer was lost is
refused, and never skips a snapshot. -/
namespace IronCondor

open Checked LossyRequests

/-- The answer to a created session: what the loop reads, its id, and the walk seed in effect. -/
structure CreatedSession extends SessionResponse where
  id : String
  seed : Option (Bounded u64)

/-- The requests a materialisation makes; a session request is kept as its JSON text. -/
inductive SessionRequest where
  | create (params : String)
  | advance (sessionId : String) (expectedStep : Nat)
  | delete (sessionId : String)
deriving DecidableEq

/-- A server: how it serves each request, from any state. -/
structure SimulatorServer (σ Resp : Type) where
  create : String → σ → Outcome CreatedSession × σ
  advance : String → Nat → σ → Outcome Resp × σ
  delete : String → σ → Outcome Unit × σ

/-- The server, the network and the requests sent so far. -/
abbrev SessionChannel (σ : Type) := Channel σ SessionRequest BacktestError

/-- `MATERIALISE_ATTEMPTS`. -/
def materialiseAttempts : Nat := 3

/-- `with_retry`. -/
def withRetry {σ α : Type} (what : String) (call : SessionChannel σ → Outcome α × SessionChannel σ) :
    SessionChannel σ → Outcome α × SessionChannel σ :=
  retry call materialiseAttempts (.Session s!"{what}: retry bound exhausted without an error")

namespace SimulatorServer

variable {σ Resp : Type} (server : SimulatorServer σ Resp)

def createSession (params : String) : SessionChannel σ → Outcome CreatedSession × SessionChannel σ :=
  withRetry "create_session" (Channel.attempt (.create params) (server.create params))

def getNextStepExpecting (sessionId : String) (expectedStep : Nat) :
    SessionChannel σ → Outcome Resp × SessionChannel σ :=
  withRetry "get_next_step"
    (Channel.attempt (.advance sessionId expectedStep) (server.advance sessionId expectedStep))

def deleteSession (sessionId : String) : SessionChannel σ → Outcome Unit × SessionChannel σ :=
  withRetry "delete_session" (Channel.attempt (.delete sessionId) (server.delete sessionId))

variable [ChainResponses Resp] [TypeSizes] (instrument : InstrumentSpec) (quoteSize : Quantity)
  (limits : ResourceLimits)

/-- `drain`, request by request. -/
def drain (sessionId : String) (loop : DrainLoop) (w : SessionChannel σ) :
    Outcome (List ChainSnapshot) × SessionChannel σ :=
  if loop.ended then (.ok loop.buffer.tape, w)
  else
    match server.getNextStepExpecting sessionId loop.expectedStep w with
    | (.error e, w) => (.error e, w)
    | (.ok resp, w) =>
      match _hnext : loop.receive instrument quoteSize limits resp with
      | .error e => (.error e, w)
      | .ok next => drain sessionId next w
termination_by (limits.maxSteps.value - loop.buffer.tape.length).toNat
decreasing_by exact DrainLoop.receive_decreases _hnext

variable [SessionWalk] [Sha256]

/-- The feed of a drained tape, with the walk seed in effect and the identity of the tape. -/
def feedOf (spec : SimulatorSourceSpec) (session : CreatedSession) (tape : List ChainSnapshot) :
    Outcome Feed := do
  require (tape ≠ []) (.Conversion
    (s!"simulator session {session.id} produced an empty tape; " ++
      "an empty tape fails to construct"))
  let sha256 ← tapeSha256 tape
  let tapeMeta ← TapeMeta.fromTape sha256 tape
  let dataSeed := session.seed.getD spec.dataSeed
  return {
    tapeMeta
    source := .Simulator { spec with
      session := SessionWalk.withSeed spec.session dataSeed
      dataSeed
      tapeSha256 := sha256 }
    tape }

/-- `open_async`: create, drain, delete on every path, and pin the identity. -/
def openAsync (client : Outcome Unit) (spec : SimulatorSourceSpec) (w : SessionChannel σ) :
    Outcome Feed × SessionChannel σ :=
  match client with
  | .error e => (.error e, w)
  | .ok _ =>
    match server.createSession (SessionWalk.withSeed spec.session spec.dataSeed) w with
    | (.error e, w) => (.error e, w)
    | (.ok session, w) =>
      let (drained, w) := server.drain instrument quoteSize limits session.id
        (.init session.toSessionResponse) w
      let (_, w) := server.deleteSession session.id w
      (drained >>= feedOf spec session, w)

end SimulatorServer

/-- One session, as the server keeps it: its cursor, and what it produced. -/
structure ServedSession (Resp : Type) where
  cursor : Nat
  produced : List Resp

/-- A server that advances a session only when the request expects its cursor, answers with what
it advanced to and the new cursor, and refuses otherwise. -/
structure SimulatorServer.AdvancesExpected {σ Resp : Type} [ChainResponses Resp]
    (server : SimulatorServer σ Resp) (session : σ → String → ServedSession Resp) : Prop where
  created : ∀ params s created s', server.create params s = (.ok created, s') →
    session s' created.id = ⟨created.currentStep, []⟩
  advanced : ∀ sessionId expected s resp s', server.advance sessionId expected s = (.ok resp, s') →
    (session s sessionId).cursor = expected ∧ ChainResponses.currentStep resp ≠ expected ∧
      session s' sessionId =
        ⟨ChainResponses.currentStep resp, (session s sessionId).produced ++ [resp]⟩
  refused : ∀ sessionId expected s e s', server.advance sessionId expected s = (.error e, s') →
    session s' sessionId = session s sessionId
  deleted : ∀ sessionId s reply s', server.delete sessionId s = (reply, s') →
    (session s' sessionId).produced = (session s sessionId).produced

/-- The response says that its session ended. -/
def Final {Resp : Type} [ChainResponses Resp] (resp : Resp) : Bool :=
  (SessionState.fromProgress (ChainResponses.currentStep resp)
    (ChainResponses.totalSteps resp)).isTerminal

/-- The tape holds the conversion of every response, each once and in order, anchored at the first
of them. -/
def Materialised {Resp : Type} [ChainResponses Resp] (instrument : InstrumentSpec)
    (quoteSize : Quantity) (resps : List Resp) (tape : List ChainSnapshot) : Prop :=
  tape.length = resps.length ∧ ∃ anchor : SimTime,
    (∀ first, resps.head? = some first → ChainResponses.responseTs first = .ok anchor) ∧
      ∀ (k : Nat) resp, resps[k]? = some resp → ∃ (step : StepIndex) (snapshot : ChainSnapshot),
        step.value = k ∧ tape[k]? = some snapshot ∧
          ChainResponses.toSnapshot resp step instrument anchor quoteSize = .ok snapshot

/-- The responses run up to the end of the session, and not beyond it. -/
def RunsToEnd {Resp : Type} [ChainResponses Resp] (resps : List Resp) : Prop :=
  ∀ (k : Nat) resp, resps[k]? = some resp → (Final resp = true ↔ k + 1 = resps.length)

section Loop

variable {Resp : Type} [ChainResponses Resp] [TypeSizes] {instrument : InstrumentSpec}
  {quoteSize : Quantity} {limits : ResourceLimits} {loop next : DrainLoop} {resp : Resp}
  {resps : List Resp}

/-- A response that is taken: its conversion is pushed, and it decides whether the loop goes on. -/
theorem DrainLoop.receive_eq_ok
    (h : loop.receive instrument quoteSize limits resp = .ok next) :
    ∃ (anchor : SimTime) (step : StepIndex) (snapshot : ChainSnapshot),
      loop.anchorTs.elim (ChainResponses.responseTs resp) pure = .ok anchor ∧
        step.value = loop.buffer.tape.length ∧
        ChainResponses.toSnapshot resp step instrument anchor quoteSize = .ok snapshot ∧
        next.buffer.tape = loop.buffer.tape ++ [snapshot] ∧ next.anchorTs = some anchor ∧
        next.ended = Final resp := by
  simp only [receive, bind_ok_iff, narrow_eq_ok, pure_ok_iff] at h
  obtain ⟨_, -, _, -, _, -, step, hstep, anchor, hanchor, snapshot, hconverted, _, -, buffer, hpush,
    rfl⟩ := h
  exact ⟨anchor, step, snapshot, hanchor, hstep, hconverted, (pushChecked_eq_ok hpush).1, rfl, rfl⟩

/-- The loop has taken these responses: their conversions are its tape, and it goes on until the
first that is final. -/
structure DrainLoop.Holds (instrument : InstrumentSpec) (quoteSize : Quantity) (resps : List Resp)
    (loop : DrainLoop) : Prop where
  fresh : resps = [] → loop.anchorTs = none
  anchored : ∀ first, resps.head? = some first → ∃ anchor, loop.anchorTs = some anchor ∧
    ChainResponses.responseTs first = .ok anchor
  length : loop.buffer.tape.length = resps.length
  converted : ∀ (k : Nat) resp, resps[k]? = some resp → ∃ (anchor : SimTime) (step : StepIndex)
    (snapshot : ChainSnapshot), loop.anchorTs = some anchor ∧ step.value = k ∧
      loop.buffer.tape[k]? = some snapshot ∧
      ChainResponses.toSnapshot resp step instrument anchor quoteSize = .ok snapshot
  running : ∀ (k : Nat) resp, resps[k]? = some resp →
    (Final resp = true ↔ k + 1 = resps.length ∧ loop.ended = true)

/-- A running loop that takes one more response holds one more. -/
theorem DrainLoop.Holds.receive (hloop : loop.Holds instrument quoteSize resps)
    (hrunning : loop.ended = false)
    (h : loop.receive instrument quoteSize limits resp = .ok next) :
    next.Holds instrument quoteSize (resps ++ [resp]) := by
  obtain ⟨anchor, step, snapshot, hanchor, hstep, hconverted, htape, hnext, hended⟩ :=
    DrainLoop.receive_eq_ok h
  have hkept : ∀ held, loop.anchorTs = some held → anchor = held := by
    intro held hheld
    rw [hheld] at hanchor
    exact (Except.ok.inj hanchor).symm
  constructor
  · intro hnil
    exact absurd hnil (by simp)
  · intro first hfirst
    refine ⟨anchor, hnext, ?_⟩
    cases resps with
    | nil =>
      cases hfirst
      rw [hloop.fresh rfl] at hanchor
      exact hanchor
    | cons head rest =>
      obtain ⟨held, hheld, hts⟩ := hloop.anchored first hfirst
      rw [hkept held hheld, hts]
  · rw [htape, List.length_append, List.length_append, hloop.length]
    rfl
  · intro k r hk
    rcases Nat.lt_or_ge k resps.length with hlt | hge
    · rw [List.getElem?_append_left hlt] at hk
      obtain ⟨held, step', snapshot', hheld, hstep', hsnapshot', hconverted'⟩ :=
        hloop.converted k r hk
      refine ⟨anchor, step', snapshot', hnext, hstep', ?_, ?_⟩
      · rw [htape, List.getElem?_append_left (by rw [hloop.length]; exact hlt), hsnapshot']
      · rw [hkept held hheld]
        exact hconverted'
    · obtain ⟨rfl, rfl⟩ := Pointwise.last_of_getElem? hge hk
      refine ⟨anchor, step, snapshot, hnext, by rw [hstep, hloop.length], ?_, hconverted⟩
      rw [htape, ← hloop.length, List.getElem?_append_right (le_refl _), Nat.sub_self]
      rfl
  · intro k r hk
    rcases Nat.lt_or_ge k resps.length with hlt | hge
    · rw [List.getElem?_append_left hlt] at hk
      rw [hloop.running k r hk, hrunning]
      simp only [Bool.false_eq_true, and_false, false_iff, List.length_append,
        List.length_singleton]
      omega
    · obtain ⟨rfl, rfl⟩ := Pointwise.last_of_getElem? hge hk
      rw [hended]
      simp

omit [TypeSizes] in
/-- The loop at its start has taken nothing. -/
theorem DrainLoop.holds_init (session : SessionResponse) :
    (DrainLoop.init session).Holds instrument quoteSize ([] : List Resp) where
  fresh _ := rfl
  anchored _ hfirst := nomatch hfirst
  length := rfl
  converted _ _ hk := nomatch hk
  running _ _ hk := nomatch hk

omit [TypeSizes] in
/-- A loop that ended holds the whole session. -/
theorem DrainLoop.Holds.materialised (hloop : loop.Holds instrument quoteSize resps)
    (hended : loop.ended = true) (hne : loop.buffer.tape ≠ []) :
    Materialised instrument quoteSize resps loop.buffer.tape ∧ RunsToEnd resps := by
  obtain ⟨first, hfirst⟩ : ∃ first, resps.head? = some first := by
    cases resps with
    | nil => exact absurd (List.eq_nil_of_length_eq_zero hloop.length) hne
    | cons head rest => exact ⟨head, rfl⟩
  obtain ⟨anchor, hanchor, hts⟩ := hloop.anchored first hfirst
  refine ⟨⟨hloop.length, anchor, fun other hother => ?_, fun k resp hk => ?_⟩, fun k resp hk => ?_⟩
  · cases hfirst.symm.trans hother
    exact hts
  · obtain ⟨held, step, snapshot, hheld, hstep, hsnapshot, hconverted⟩ := hloop.converted k resp hk
    cases hanchor.symm.trans hheld
    exact ⟨step, snapshot, hstep, hsnapshot, hconverted⟩
  · rw [hloop.running k resp hk]
    exact and_iff_left hended

end Loop

section Requests

variable {σ Resp : Type} [ChainResponses Resp] {server : SimulatorServer σ Resp}
  {session : σ → String → ServedSession Resp} {sessionId : String} {expected : Nat}
  {w w' : SessionChannel σ}

/-- An advance is conditional on the cursor it expects. -/
theorem SimulatorServer.AdvancesExpected.conditional (h : server.AdvancesExpected session)
    (sessionId : String) (expected : Nat) :
    Conditional (fun s => session s sessionId) (fun served => served.cursor = expected)
      (server.advance sessionId expected) where
  refused _ _ _ hreply := h.refused _ _ _ _ _ hreply
  served _ _ _ hreply := (h.advanced _ _ _ _ _ hreply).1
  spent _ _ _ hreply hcursor := by
    obtain ⟨-, hmoved, hnext⟩ := h.advanced _ _ _ _ _ hreply
    rw [hnext] at hcursor
    exact hmoved hcursor

/-- A retried advance that succeeds produced exactly the response it returns. -/
theorem SimulatorServer.AdvancesExpected.next_step (h : server.AdvancesExpected session)
    {resp : Resp} (hreply : server.getNextStepExpecting sessionId expected w = (.ok resp, w')) :
    (session w'.server sessionId).produced = (session w.server sessionId).produced ++ [resp] := by
  obtain ⟨s, hview, hserved⟩ := (h.conditional sessionId expected).retry_once hreply
  obtain ⟨-, -, hnext⟩ := h.advanced _ _ _ _ _ hserved
  have hsame : session s sessionId = session w.server sessionId := hview
  rw [hnext, hsame]

/-- Deleting a session, however often, produces nothing. -/
theorem SimulatorServer.AdvancesExpected.delete (h : server.AdvancesExpected session)
    {reply : Outcome Unit} (hreply : server.deleteSession sessionId w = (reply, w')) :
    (session w'.server sessionId).produced = (session w.server sessionId).produced := by
  let Kept (v : SessionChannel σ) : Prop :=
    (session v.server sessionId).produced = (session w.server sessionId).produced
  have hserve : ∀ v : SessionChannel σ, Kept v →
      (session (server.delete sessionId v.server).2 sessionId).produced =
        (session w.server sessionId).produced :=
    fun v hv => (h.deleted sessionId v.server _ _ rfl).trans hv
  have hfail : ∀ v e v', Kept v →
      Channel.attempt (.delete sessionId) (server.delete sessionId) v = (.error e, v') →
        Kept v' := by
    intro v e v' hv hattempt
    rcases (Channel.attempt_error hattempt).1 with hsame | hserved
    · exact (congrArg (fun s => (session s sessionId).produced) hsame).trans hv
    · exact (congrArg (fun s => (session s sessionId).produced) hserved).trans (hserve v hv)
  cases reply with
  | error e =>
    have hkept : Kept w' := retry_error hfail rfl hreply
    exact hkept
  | ok _ =>
    obtain ⟨v, hv, hattempt⟩ := retry_ok hfail rfl hreply
    have hserved := congrArg Prod.snd (Channel.attempt_ok hattempt).1
    exact (congrArg (fun s => (session s sessionId).produced) hserved).symm.trans (hserve v hv)

/-- A create that succeeds leaves a session that has produced nothing. -/
theorem SimulatorServer.AdvancesExpected.create (h : server.AdvancesExpected session)
    {params : String} {created : CreatedSession}
    (hreply : server.createSession params w = (.ok created, w')) :
    (session w'.server created.id).produced = [] := by
  obtain ⟨v, -, hattempt⟩ := retry_ok (I := fun _ => True) (fun _ _ _ _ _ => trivial) trivial hreply
  rw [h.created _ _ _ _ (Channel.attempt_ok hattempt).1]

end Requests

section Drain

variable {σ Resp : Type} [ChainResponses Resp] [TypeSizes] {server : SimulatorServer σ Resp}
  {session : σ → String → ServedSession Resp} {sessionId : String} {instrument : InstrumentSpec}
  {quoteSize : Quantity} {limits : ResourceLimits} {loop : DrainLoop} {w w' : SessionChannel σ}
  {outcome : Outcome (List ChainSnapshot)}

/-- A drain that succeeds took what its session produced, up to the end. -/
theorem SimulatorServer.AdvancesExpected.drain (h : server.AdvancesExpected session)
    (hloop : loop.Holds instrument quoteSize (session w.server sessionId).produced)
    {tape : List ChainSnapshot}
    (hdrain : server.drain instrument quoteSize limits sessionId loop w = (.ok tape, w')) :
    ∃ last : DrainLoop, last.ended = true ∧ last.buffer.tape = tape ∧
      last.Holds instrument quoteSize (session w'.server sessionId).produced := by
  fun_induction SimulatorServer.drain server instrument quoteSize limits sessionId loop w with
  | case1 loop w hended =>
    cases hdrain
    exact ⟨loop, hended, rfl, hloop⟩
  | case2 => cases hdrain
  | case3 => cases hdrain
  | case4 loop w hrunning resp w₁ hresp next hnext ih =>
    refine ih ?_ hdrain
    rw [h.next_step hresp]
    exact hloop.receive (Bool.eq_false_iff.2 hrunning) hnext

/-- Request by request, the loop comes to what it comes to over the answers it gets. -/
theorem SimulatorServer.drain_answers (server : SimulatorServer σ Resp) (sessionId : String)
    (loop : DrainLoop) (w : SessionChannel σ) :
    ∃ answers : Nat → Nat → Outcome Resp,
      (server.drain instrument quoteSize limits sessionId loop w).1 =
        IronCondor.drain instrument quoteSize limits answers loop := by
  fun_induction SimulatorServer.drain server instrument quoteSize limits sessionId loop w with
  | case1 loop w hended =>
    exact ⟨fun _ _ => .error .ArithmeticOverflow, (drain_ended hended).symm⟩
  | case2 loop w hrunning e w₁ hresp =>
    exact ⟨fun _ _ => .error e, (drain_failed hrunning rfl).symm⟩
  | case3 loop w hrunning resp w₁ hresp e hnext =>
    have hfailed : loop.advance instrument quoteSize limits (fun _ _ => .ok resp) = .error e :=
      hnext
    exact ⟨fun _ _ => .ok resp, (drain_failed hrunning hfailed).symm⟩
  | case4 loop w hrunning resp w₁ hresp next hnext ih =>
    obtain ⟨answers, hanswers⟩ := ih
    let answers' (k expected : Nat) : Outcome Resp :=
      if k = loop.buffer.tape.length then .ok resp else answers k expected
    have hfirst : loop.advance instrument quoteSize limits answers' = .ok next := by
      rw [← hnext, DrainLoop.advance, show answers' loop.buffer.tape.length loop.expectedStep =
        .ok resp from if_pos rfl]
      rfl
    refine ⟨answers', ?_⟩
    rw [hanswers, drain_next hrunning hfirst]
    obtain ⟨snapshot, hpush⟩ := DrainLoop.receive_pushes hnext
    have hlonger := congrArg List.length (pushChecked_eq_ok hpush).1
    rw [List.length_append, List.length_singleton] at hlonger
    exact drain_congr fun k expected hk => (if_neg (by omega)).symm

/-- Whatever the server answers, a drain sends advances of its session alone, and at most one more
of them succeeds than the step ceiling leaves room for. -/
theorem SimulatorServer.drain_sent
    (hdrain : server.drain instrument quoteSize limits sessionId loop w = (outcome, w')) :
    ∃ sent, w'.sent = w.sent ++ sent ∧
      (∀ exchange ∈ sent, ∃ expected, exchange.request = .advance sessionId expected) ∧
      sent.countP Exchange.succeeded ≤
        (limits.maxSteps.value - loop.buffer.tape.length).toNat + 1 := by
  fun_induction SimulatorServer.drain server instrument quoteSize limits sessionId loop w with
  | case1 loop w hended =>
    cases hdrain
    exact ⟨[], (List.append_nil _).symm, List.forall_mem_nil _, Nat.zero_le _⟩
  | case2 loop w hrunning e w₁ hresp =>
    cases hdrain
    obtain ⟨sent, hsent, hrequests, hcount, -, -⟩ := Channel.retry_sent hresp
    exact ⟨sent, hsent, fun exchange hmem => ⟨_, hrequests exchange hmem⟩,
      hcount ▸ Nat.zero_le _⟩
  | case3 loop w hrunning resp w₁ hresp e hnext =>
    cases hdrain
    obtain ⟨sent, hsent, hrequests, hcount, -, -⟩ := Channel.retry_sent hresp
    exact ⟨sent, hsent, fun exchange hmem => ⟨_, hrequests exchange hmem⟩,
      hcount ▸ Nat.le_add_left 1 _⟩
  | case4 loop w hrunning resp w₁ hresp next hnext ih =>
    obtain ⟨sent, hsent, hrequests, hcount, -, -⟩ := Channel.retry_sent hresp
    obtain ⟨rest, hrest, hadvances, hbound⟩ := ih hdrain
    refine ⟨sent ++ rest, by rw [hrest, hsent, List.append_assoc], ?_, ?_⟩
    · exact List.forall_mem_append.2 ⟨fun exchange hmem => ⟨_, hrequests exchange hmem⟩, hadvances⟩
    · have hroom := DrainLoop.receive_decreases hnext
      have hone : sent.countP Exchange.succeeded = 1 := hcount
      rw [List.countP_append, hone]
      omega

end Drain

section Open

variable {σ Resp : Type} [ChainResponses Resp] [TypeSizes] [SessionWalk] [Sha256]
  {server : SimulatorServer σ Resp} {instrument : InstrumentSpec} {quoteSize : Quantity}
  {limits : ResourceLimits} {client : Outcome Unit} {spec : SimulatorSourceSpec}
  {w w' : SessionChannel σ} {created : CreatedSession}

omit [TypeSizes] [ChainResponses Resp] in
/-- The feed of a drained tape holds that tape, and it is not empty. -/
theorem SimulatorServer.feedOf_eq_ok {tape : List ChainSnapshot} {feed : Feed}
    (h : feedOf spec created tape = .ok feed) : tape ≠ [] ∧ feed.tape = tape := by
  simp only [feedOf, bind_ok_iff, require_eq_ok, pure_ok_iff] at h
  obtain ⟨_, hne, _, -, _, -, rfl⟩ := h
  exact ⟨hne, rfl⟩

/-- An open that creates its session drains it and deletes it, whatever the drain comes to. -/
theorem SimulatorServer.openAsync_created (hclient : client = .ok ())
    (hcreate : server.createSession (SessionWalk.withSeed spec.session spec.dataSeed) w =
      (.ok created, w')) :
    ∃ drained w₁ deleted w₂,
      server.drain instrument quoteSize limits created.id (.init created.toSessionResponse) w' =
          (drained, w₁) ∧
        server.deleteSession created.id w₁ = (deleted, w₂) ∧
        server.openAsync instrument quoteSize limits client spec w =
          (drained >>= feedOf spec created, w₂) := by
  refine ⟨_, _, _, _, rfl, rfl, ?_⟩
  simp only [openAsync, hclient, hcreate]
  rfl

/-- An open that succeeds created its session. -/
theorem SimulatorServer.openAsync_ok {feed : Feed}
    (h : server.openAsync instrument quoteSize limits client spec w = (.ok feed, w')) :
    client = .ok () ∧ ∃ created w₁,
      server.createSession (SessionWalk.withSeed spec.session spec.dataSeed) w =
        (.ok created, w₁) := by
  unfold openAsync at h
  split at h
  · cases h
  · split at h
    · cases h
    · exact ⟨rfl, _, _, ‹_›⟩

/-- A session is drained whole and deleted: on a server that advances only as expected, and for
every pattern of lost requests and lost answers, an opened feed holds what its session produced
after its creation up to its end, each snapshot once and in order; a created session is asked to
be deleted on every path; and whatever the server answers, a drain advances it at most once more
than the step ceiling. -/
theorem simulator_session_drained (server : SimulatorServer σ Resp) (instrument : InstrumentSpec)
    (quoteSize : Quantity) (limits : ResourceLimits) (w : SessionChannel σ) :
    (∀ session, server.AdvancesExpected session → ∀ client spec feed w',
      server.openAsync instrument quoteSize limits client spec w = (.ok feed, w') →
        ∃ created w₁, server.createSession (SessionWalk.withSeed spec.session spec.dataSeed) w =
            (.ok created, w₁) ∧
          Materialised instrument quoteSize (session w'.server created.id).produced feed.tape ∧
          RunsToEnd (session w'.server created.id).produced) ∧
    (∀ spec created w₁, server.createSession (SessionWalk.withSeed spec.session spec.dataSeed) w =
        (.ok created, w₁) →
      ∃ exchange ∈ (server.openAsync instrument quoteSize limits (.ok ()) spec w).2.sent.drop
        w₁.sent.length, exchange.request = .delete created.id) ∧
    ∀ (created : CreatedSession) outcome w',
      server.drain instrument quoteSize limits created.id (.init created.toSessionResponse) w =
          (outcome, w') →
        ∃ sent, w'.sent = w.sent ++ sent ∧
          (∀ exchange ∈ sent, ∃ expected, exchange.request = .advance created.id expected) ∧
          (sent.countP Exchange.succeeded : Int) ≤ limits.maxSteps.value + 1 := by
  refine ⟨fun session hserver client spec feed w' h => ?_, fun spec created w₁ hcreate => ?_,
    fun created outcome w' h => ?_⟩
  · obtain ⟨hclient, created, w₁, hcreate⟩ := SimulatorServer.openAsync_ok h
    obtain ⟨drained, w₂, deleted, w₃, hdrain, hdelete, hopen⟩ :=
      SimulatorServer.openAsync_created hclient hcreate
    obtain ⟨hfeed, rfl⟩ := Prod.mk.inj (hopen.symm.trans h)
    obtain ⟨tape, rfl, hfeed⟩ := bind_ok_iff.1 hfeed
    obtain ⟨hne, htape⟩ := SimulatorServer.feedOf_eq_ok hfeed
    have hstart : (DrainLoop.init created.toSessionResponse).Holds instrument quoteSize
        (session w₁.server created.id).produced := by
      rw [hserver.create hcreate]
      exact DrainLoop.holds_init _
    obtain ⟨last, hended, hlast, hholds⟩ := hserver.drain hstart hdrain
    refine ⟨created, w₁, hcreate, ?_⟩
    rw [hserver.delete hdelete, htape, ← hlast]
    exact hholds.materialised hended (hlast ▸ hne)
  · obtain ⟨drained, w₂, deleted, w₃, hdrain, hdelete, hopen⟩ :=
      SimulatorServer.openAsync_created rfl hcreate
    obtain ⟨advances, hadvances, -⟩ := SimulatorServer.drain_sent hdrain
    obtain ⟨deletes, hdeletes, hrequests, -, -, hsome⟩ := Channel.retry_sent hdelete
    obtain ⟨exchange, rest, rfl⟩ := List.exists_cons_of_ne_nil (hsome (by decide))
    refine ⟨exchange, ?_, hrequests exchange List.mem_cons_self⟩
    rw [hopen, hdeletes, hadvances, List.append_assoc, List.drop_left]
    exact List.mem_append_right _ List.mem_cons_self
  · obtain ⟨sent, hsent, hadvances, hbound⟩ := SimulatorServer.drain_sent h
    refine ⟨sent, hsent, hadvances, ?_⟩
    have hnonneg := limits.maxSteps.nonneg
    have hempty : (DrainLoop.init created.toSessionResponse).buffer.tape.length = 0 := rfl
    rw [hempty] at hbound
    omega

end Open

namespace SmallSimulator

open SmallMarket

/-- Snapshots as their own responses. -/
scoped instance : ChainResponses ChainSnapshot where
  contracts snapshot := snapshot.quotes.size
  responseTs snapshot := .ok snapshot.ts
  toSnapshot snapshot step _ _ _ := .ok { snapshot with step }
  currentStep snapshot := snapshot.step.value.toNat + 1
  totalSteps _ := 3

scoped instance : TypeSizes := ⟨56, 200, 128⟩
scoped instance : SessionWalk := ⟨fun session _ => session, fun session _ => .ok session⟩
scoped instance : Sha256 := ⟨id⟩

/-- A server of one session, three steps long. -/
def server : SimulatorServer (ServedSession ChainSnapshot) ChainSnapshot where
  create _ _ := (.ok ⟨⟨0, 3, "Initialized"⟩, "s1", some (lit 7)⟩, ⟨0, []⟩)
  advance _ expected s :=
    match dip[s.cursor]? with
    | none => (.error (.Session "http 410: Gone"), s)
    | some snapshot =>
      if expected = s.cursor then (.ok snapshot, ⟨s.cursor + 1, s.produced ++ [snapshot]⟩)
      else (.error (.Session "http 412: Precondition Failed"), s)
  delete _ s := (.ok (), s)

theorem server_advancesExpected : server.AdvancesExpected fun s _ => s where
  created := by
    intro _ _ _ _ h
    cases h
    rfl
  advanced := by
    intro _ expected s resp s' h
    have hstep : ∀ (k : Nat) (snapshot : ChainSnapshot), dip[k]? = some snapshot →
        snapshot.step.value.toNat = k := by
      intro k snapshot hk
      rcases k with _ | _ | _ | k
      · cases hk
        rfl
      · cases hk
        rfl
      · cases hk
        rfl
      · cases hk
    simp only [server] at h
    split at h
    · cases h
    · rename_i snapshot hsnapshot
      by_cases hexpected : expected = s.cursor
      · rw [if_pos hexpected] at h
        cases h
        have hnext : ChainResponses.currentStep resp = s.cursor + 1 :=
          congrArg (· + 1) (hstep _ _ hsnapshot)
        exact ⟨hexpected.symm, by omega, by rw [hnext]⟩
      · rw [if_neg hexpected] at h
        cases h
  refused := by
    intro _ expected s _ _ h
    simp only [server] at h
    split at h
    · exact (Prod.mk.inj h).2.symm
    · by_cases hexpected : expected = s.cursor
      · rw [if_pos hexpected] at h
        cases h
      · rw [if_neg hexpected] at h
        exact (Prod.mk.inj h).2.symm
  deleted := by
    intro _ _ _ _ h
    cases h
    rfl

/-- The answer to the first create and the first advance are lost on the way. -/
def lossy : SessionChannel (ServedSession ChainSnapshot) where
  server := ⟨0, []⟩
  deliveries k :=
    if k = 0 then .failed true (.Session "create_session request failed: timeout")
    else if k = 2 then .failed false (.Session "get_next_step request failed: refused")
    else .answered
  sent := []

def spec : SimulatorSourceSpec := ⟨"{}", "http://localhost:7070", lit 7, "", none⟩

/-- The feed of three steps is opened all the same. -/
theorem simulator_session_drained_lossy : ∃ feed w',
    server.openAsync firstStep.spec (lots 3 (by decide) (by decide)) (config .Naive).limits
      (.ok ()) spec lossy = (.ok feed, w') ∧
    feed.tape.length = 3 ∧
    Materialised firstStep.spec (lots 3 (by decide) (by decide)) w'.server.produced feed.tape ∧
    RunsToEnd w'.server.produced := by
  have hlength : ((server.openAsync firstStep.spec (lots 3 (by decide) (by decide))
      (config .Naive).limits (.ok ()) spec lossy).1.toOption.map fun feed => feed.tape.length) =
        some 3 := by decide +kernel
  rcases hopen : server.openAsync firstStep.spec (lots 3 (by decide) (by decide))
    (config .Naive).limits (.ok ()) spec lossy with ⟨outcome, w'⟩
  rw [hopen] at hlength
  cases outcome with
  | error e => cases hlength
  | ok feed =>
    obtain ⟨hdrained, -, -⟩ := simulator_session_drained server firstStep.spec
      (lots 3 (by decide) (by decide)) (config .Naive).limits lossy
    obtain ⟨created, w₁, -, hmaterialised, hend⟩ :=
      hdrained _ server_advancesExpected _ _ feed w' hopen
    exact ⟨feed, w', rfl, Option.some.inj hlength, hmaterialised, hend⟩

end SmallSimulator

end IronCondor
