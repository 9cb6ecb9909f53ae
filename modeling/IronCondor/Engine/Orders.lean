import IronCondor.Engine.Linked
import IronCondor.Engine.Tracking

/-! # Runs of a tracking fill model

Order ids tie the two sides of a run together: what the engine holds in its registry and what
the model keeps resting both go back to the one order issued under an id. So every fill an
event applies trades on the order's own side, and the legs stay linked. -/
namespace IronCondor

open Checked ExceptRun

/-- A settlement leaves the legs and the registry alone. -/
theorem EngineState.Settled.sameLegs {st st' : EngineState} {snapshot : ChainSnapshot}
    {isLast : Bool} {point : EquityPoint} (h : st.Settled snapshot isLast point st') :
    SameLegs st st' := by
  obtain ⟨_, -, hbundle⟩ := BundleCollector.collectStep_eq_ok h.bundle
  rw [h.books, hbundle]
  exact ⟨rfl, rfl, rfl, rfl, rfl⟩

variable {S X R : Type} [ExecutionModel X] [TrackingModel X] {log : List (Batch X)} {b : Batch X}
  {after : EngineState}

/-- The orders of a run, seen by the engine and by the model. -/
structure OrdersTracked (log : List (Batch X)) (x : X) (st : EngineState) : Prop
    extends OrdersIssued log st where
  resting : ∀ orderId contract side, TrackingModel.resting x orderId contract side →
    ∃ intent, (orderId, intent) ∈ issued log ∧ intent.contract = contract ∧ intent.side = side

/-- The law of a call that a run made. -/
theorem Batch.Executed.law (h : b.Executed after) :
    FillLaw (TrackingModel.resting b.model) (TrackingModel.resting b.modelAfter) b.snapshot
      b.events :=
  TrackingModel.fill_lawful h.filled h.correlated

/-- The carried fills of a call trade the contracts of the orders they fill, up to `Own`. -/
def CarriesOwn (Own : ContractKey → ContractKey → Prop) (b : Batch X) : Prop :=
  ∀ orderId run, .carried orderId run ∈ b.events → ∀ fill ∈ run,
    ∃ contract, TrackingModel.resting b.model orderId contract fill.side ∧
      Own fill.contract contract

theorem Batch.Executed.carriesOwn (h : b.Executed after) : CarriesOwn (fun _ _ => True) b := by
  intro orderId run hev fill hfill
  obtain ⟨contract, hresting⟩ := h.law.carried orderId run hev fill hfill
  exact ⟨contract, hresting, trivial⟩

/-- In books whose entries go back to issued orders, every event of a call echoes its order. -/
theorem OrdersTracked.echoes (h : OrdersTracked log b.model b.before) (hexec : b.Executed after)
    {Own : ContractKey → ContractKey → Prop} (hrefl : ∀ contract, Own contract contract)
    (hown : CarriesOwn Own b) {st : EngineState}
    (hsourced : Sourced (issued (log ++ [b])) st.pending) {ev : OrderEvent}
    (hev : ev ∈ b.events) : Echoes Own st ev := by
  cases ev with
  | carried orderId run =>
    intro entry hentry fill hfill
    obtain ⟨contract, hresting, hcontract⟩ := hown orderId run hev fill hfill
    obtain ⟨intent, hmem, rfl, hside⟩ := h.resting _ _ _ hresting
    obtain ⟨-, intent', hmem', hremains⟩ := hsourced orderId entry hentry
    have hsame := (h.fresh hexec).1.unique
      (by rw [issued_append]; exact List.mem_append_left _ hmem) hmem'
    rw [hremains, ← hsame, ← hside]
    exact ⟨rfl, hcontract⟩
  | withdrawn orderId => exact trivial
  | submitted idx orderId intent run =>
    intro fill hfill
    obtain ⟨hside, hcontract⟩ := hexec.law.submitted idx orderId intent run hev fill hfill
    exact ⟨hside, hcontract ▸ hrefl _⟩

/-- The event rule of a run: what every echoing event of a call that meets the monitored condition
makes of the events before it, all of them make of none. -/
theorem OrdersTracked.events_done (h : OrdersTracked log b.model b.before)
    (hexec : b.Executed after) {Own : ContractKey → ContractKey → Prop}
    (hrefl : ∀ contract, Own contract contract) (hown : CarriesOwn Own b)
    {C : StepState → OrderEvent → Prop}
    (hC : Along (applyEvent b.reasons b.snapshot) C ⟨b.start, none⟩ b.events)
    (P : List OrderEvent → EngineState → Prop)
    (hstep : ∀ done (s t : StepState) ev, ev ∈ b.events → C s ev → Echoes Own s.engine ev →
      Sourced (issued (log ++ [b])) s.engine.pending → P done s.engine →
      applyEvent b.reasons b.snapshot s ev = .ok t → P (done ++ [ev]) t.engine)
    (hstart : P [] b.start) : P b.events after ∧ Sourced (issued (log ++ [b])) after.pending := by
  obtain ⟨ids, -, hminted⟩ := hexec.minted
  obtain ⟨trade, hfold⟩ := hexec.applied
  have hsourced : Sourced (issued (log ++ [b])) b.start.pending := by
    rw [hminted, issued_append]
    exact h.sourced.mono (List.subset_append_left _ _)
  refine foldlM_invariant_done (fun done (s : StepState) =>
    P done s.engine ∧ Sourced (issued (log ++ [b])) s.engine.pending) C ?_ ⟨hstart, hsourced⟩ hC hfold
  rintro done s ev t hev ⟨hP, hs⟩ hmeets happly
  refine ⟨hstep done s t ev hev hmeets (h.echoes hexec hrefl hown hs hev) hs hP happly, ?_⟩
  refine hs.step (fun sub hsub => ?_) (applyEvent_registry happly).1
  rw [issued_append]
  exact List.mem_append_right _ (hexec.submission_mem hev hsub)

/-- What survives every echoing event of a call that meets the monitored condition holds after
the call. -/
theorem OrdersTracked.events_along (h : OrdersTracked log b.model b.before)
    (hexec : b.Executed after) {Own : ContractKey → ContractKey → Prop}
    (hrefl : ∀ contract, Own contract contract) (hown : CarriesOwn Own b)
    {C : StepState → OrderEvent → Prop}
    (hC : Along (applyEvent b.reasons b.snapshot) C ⟨b.start, none⟩ b.events)
    (P : EngineState → Prop)
    (hstep : ∀ (s t : StepState) ev, ev ∈ b.events → C s ev → Echoes Own s.engine ev →
      P s.engine → applyEvent b.reasons b.snapshot s ev = .ok t → P t.engine)
    (hstart : P b.start) : P after ∧ Sourced (issued (log ++ [b])) after.pending :=
  h.events_done hexec hrefl hown hC (fun _ => P)
    (fun _ s t ev hev hmeets hecho _ => hstep s t ev hev hmeets hecho) hstart

/-- One call keeps the orders tracked. -/
theorem OrdersTracked.call (h : OrdersTracked log b.model b.before) (hexec : b.Executed after) :
    OrdersTracked (log ++ [b]) b.modelAfter after := by
  obtain ⟨hinOrder, hminted⟩ := h.fresh hexec
  obtain ⟨-, hsourced⟩ := h.events_along hexec (fun _ => trivial) hexec.carriesOwn along_true
    (fun _ => True) (fun _ _ _ _ _ _ _ _ => trivial) trivial
  refine ⟨⟨hinOrder, hminted, hsourced⟩, fun orderId contract side hresting => ?_⟩
  rw [issued_append]
  rcases hexec.law.kept orderId contract side hresting with hresting | ⟨intent, hmem, hfacts⟩
  · obtain ⟨intent, hmem, hfacts⟩ := h.resting _ _ _ hresting
    exact ⟨intent, List.mem_append_left _ hmem, hfacts⟩
  · exact ⟨intent, List.mem_append_right _ (hexec.submissions ▸ hmem), hfacts⟩

section Runs

variable [Strategy S R] [SeedableRng R] {r : Setup S X} {n : Nat} {s : RunState S X R}

/-- A model that keeps no order resting yet. -/
def Idle (x : X) : Prop := ∀ orderId contract side, ¬ TrackingModel.resting x orderId contract side

/-- On fresh books no order is tracked. -/
theorem OrdersTracked.start {x : X} (hidle : Idle x) (initial : Cents) :
    OrdersTracked [] x (.new initial) := by
  refine ⟨⟨.nil, List.forall_mem_nil _, fun orderId entry he => ?_⟩,
    fun orderId contract side hr => (hidle orderId contract side hr).elim⟩
  simp [EngineState.new] at he

/-- The run rule of a tracking model: calls and settlements may use that the orders are
tracked. -/
theorem Setup.play_tracked (hidle : Idle r.execution)
    (I : List (Batch X) → X → EngineState → Prop)
    (hstart : ∀ initial, BacktestEngine.initialCents r.config = .ok initial →
      I [] r.execution (.new initial))
    (hexecute : ∀ log b after, OrdersTracked log b.model b.before → I log b.model b.before →
      b.Executed after → b.snapshot ∈ r.feed.tape → I (log ++ [b]) b.modelAfter after)
    (hsettle : ∀ log x st snapshot isLast point st', I log x st →
      st.Settled snapshot isLast point st' → I log x st')
    (h : r.play n = .ok (log, s)) :
    OrdersTracked log s.execution s.engine ∧ I log s.execution s.engine := by
  refine r.play_invariant (fun log x st => OrdersTracked log x st ∧ I log x st) ?_ ?_ ?_ h
  · exact fun initial hinitial => ⟨.start hidle initial, hstart initial hinitial⟩
  · exact fun log b after ⟨ht, hI⟩ hexec hmem => ⟨ht.call hexec, hexecute log b after ht hI hexec hmem⟩
  · rintro log x st snapshot isLast point st' ⟨ht, hI⟩ hsettled
    refine ⟨?_, hsettle log x st snapshot isLast point st' hI hsettled⟩
    rw [hsettled.books]
    exact ⟨⟨ht.inOrder, ht.minted, ht.sourced⟩, ht.resting⟩

/-- One call keeps the legs linked. -/
theorem linked_call (h : OrdersTracked log b.model b.before)
    {Own : ContractKey → ContractKey → Prop} (hrefl : ∀ contract, Own contract contract)
    (hown : CarriesOwn Own b) (hlinked : Linked b.before) (hanchored : OpensAnchored Own b.before)
    (hexec : b.Executed after) : Linked after ∧ OpensAnchored Own after := by
  obtain ⟨ids, hmint, hstart⟩ := hexec.minted
  obtain ⟨hposition, -⟩ := mintSubmitIds_eq_ok hmint
  refine (h.events_along hexec hrefl hown along_true
    (fun st => Linked st ∧ OpensAnchored Own st) ?_ ?_).1
  · rintro s t ev - - hecho ⟨hl, ha⟩ happly
    obtain ⟨hl', ha', -⟩ := applyEvent_linked hl ha hecho happly
    exact ⟨hl', ha'⟩
  · rw [hstart]
    have hkeeps : Keeps b.before { b.before with ids } := .frame hposition rfl
    exact ⟨hlinked.frame rfl hposition rfl rfl, hkeeps.opensAnchored rfl hanchored⟩

/-- Every reachable state of a run with a tracking model has linked legs. -/
theorem Setup.play_linked (hidle : Idle r.execution) (h : r.play n = .ok (log, s)) :
    OrdersTracked log s.execution s.engine ∧ Linked s.engine ∧
      OpensAnchored (fun _ _ => True) s.engine := by
  refine r.play_tracked hidle (fun _ _ st => Linked st ∧ OpensAnchored _ st) ?_ ?_ ?_ h
  · exact fun initial _ => ⟨linked_new initial, opensAnchored_new initial⟩
  · exact fun log b after ht ⟨hl, ha⟩ hexec _ =>
      linked_call ht (fun _ => trivial) hexec.carriesOwn hl ha hexec
  · rintro log x st snapshot isLast point st' ⟨hl, ha⟩ hsettled
    obtain ⟨hl', hkeeps, hpending⟩ := hsettled.sameLegs.linked hl
    exact ⟨hl', hkeeps.opensAnchored hpending ha⟩

end Runs

end IronCondor
