import IronCondor.Engine.FillIdentity
import IronCondor.Engine.Lifecycle

/-! # The quantity of a terminal row

The run that takes the last contract of a leg writes the terminal row with its own quantity.
When it is the only run that closes contracts of the leg at that step, this is what the step
closed of the leg. -/
namespace IronCondor

open Checked ExceptRun OrderBook

/-- An order that closes this leg. -/
def ClosesOn (orders : List (OrderId × OrderIntent)) (orderId : OrderId)
    (positionId : PositionId) : Prop :=
  ∃ sub ∈ orders, sub.1 = orderId ∧ sub.2.action = .Close positionId

instance (orders : List (OrderId × OrderIntent)) (orderId : OrderId) (positionId : PositionId) :
    Decidable (ClosesOn orders orderId positionId) :=
  inferInstanceAs (Decidable (∃ sub ∈ orders, _))

/-- The closing fills recorded on a leg at a step. -/
def closingFills (orders : List (OrderId × OrderIntent)) (records : List FillRecord)
    (positionId : PositionId) (step : StepIndex) : List Fill :=
  (records.filter fun record => record.positionId = positionId ∧ record.fill.step = step ∧
    ClosesOn orders record.orderId positionId).map FillRecord.fill

/-- The order events of a log, each with the step it happened at. -/
def trace {X : Type} [ExecutionModel X] (log : List (Batch X)) : List (StepIndex × OrderEvent) :=
  log.flatMap fun b => b.events.map (b.snapshot.step, ·)

/-- The fills with which an event closes contracts of the leg at the step. -/
def closingRun? (orders : List (OrderId × OrderIntent)) (positionId : PositionId)
    (step : StepIndex) (entry : StepIndex × OrderEvent) : Option (List Fill) :=
  if entry.1 = step ∧ entry.2.fills ≠ [] ∧ ClosesOn orders entry.2.orderId positionId then
    some entry.2.fills
  else none

/-- The runs that close contracts of a leg at a step, in order. -/
def closingRuns (orders : List (OrderId × OrderIntent)) (events : List (StepIndex × OrderEvent))
    (positionId : PositionId) (step : StepIndex) : List (List Fill) :=
  events.filterMap (closingRun? orders positionId step)

/-- Every terminal row shows the last run that closed its leg, the leg is gone, and the closing
fills on record are those of the closing runs. -/
structure TerminalLast (orders : List (OrderId × OrderIntent))
    (events : List (StepIndex × OrderEvent)) (st : EngineState) : Prop where
  fills : ∀ positionId step, closingFills orders st.bundle.fills positionId step =
    (closingRuns orders events positionId step).flatten
  gone : ∀ row ∈ st.bundle.positions, row.exitReason ≠ none →
    row.positionId.value < st.ids.position.value ∧ st.bundle.openLegs[row.positionId]? = none
  last : ∀ row ∈ st.bundle.positions, row.exitReason ≠ none →
    ∃ run, (closingRuns orders events row.positionId row.step).getLast? = some run ∧
      row.quantity.value = totalQuantity run

section Step

variable {orders : List (OrderId × OrderIntent)} {events : List (StepIndex × OrderEvent)}
  {st st' : EngineState} {orderId : OrderId} {tradeId : TradeId} {positionId : PositionId}
  {base : Int} {run : List Fill} {records : List FillRecord} {held : Option PositionId}
  {intent : OrderIntent} {step : StepIndex} {ev : OrderEvent}

theorem closingRuns_append (orders : List (OrderId × OrderIntent))
    (events : List (StepIndex × OrderEvent)) (entry : StepIndex × OrderEvent)
    (positionId : PositionId) (step : StepIndex) :
    closingRuns orders (events ++ [entry]) positionId step =
      closingRuns orders events positionId step ++
        (closingRun? orders positionId step entry).toList := by
  rw [closingRuns, List.filterMap_append, closingRuns]
  cases h : closingRun? orders positionId step entry <;> simp [h]

theorem closingFills_append (orders : List (OrderId × OrderIntent))
    (records records' : List FillRecord) (positionId : PositionId) (step : StepIndex) :
    closingFills orders (records ++ records') positionId step =
      closingFills orders records positionId step ++
        closingFills orders records' positionId step := by
  rw [closingFills, List.filter_append, List.map_append]
  rfl

/-- The order of an event, as the issued orders have it. -/
def Orders (orders : List (OrderId × OrderIntent)) (orderId : OrderId)
    (action : PositionAction) : Prop :=
  ∀ positionId, ClosesOn orders orderId positionId ↔ action = .Close positionId

/-- The closing fills of the run an event records are the closing run of the event. -/
theorem Tagged.closingFills (h : Tagged orderId tradeId positionId base run records)
    (horders : Orders orders orderId intent.action)
    (hleg : intent.action = .Open ∨ intent.action = .Close positionId)
    (hev : ev.orderId = orderId ∧ ev.fills = run) (hrun : run ≠ [])
    (hstamped : ∀ fill ∈ run, fill.step = step) (other : PositionId) (now : StepIndex) :
    IronCondor.closingFills orders records other now =
      (closingRun? orders other now (step, ev)).toList.flatten := by
  have hsteps : ∀ record ∈ records, record.fill.step = step := fun record hrecord =>
    hstamped record.fill (h.fills ▸ List.mem_map_of_mem hrecord)
  by_cases hcloses : step = now ∧ ClosesOn orders orderId other
  · obtain ⟨rfl, hcloses⟩ := hcloses
    have hclose := (horders other).1 hcloses
    have hpos : positionId = other := by
      rcases hleg with hopen | hclose'
      · cases hopen.symm.trans hclose
      · cases hclose'.symm.trans hclose
        rfl
    have hall : records.filter (fun record => record.positionId = other ∧ record.fill.step = step ∧
        ClosesOn orders record.orderId other) = records :=
      List.filter_eq_self.2 fun record hrecord => by
        obtain ⟨ho, -, hp⟩ := h.tags record hrecord
        exact decide_eq_true ⟨hp.trans hpos, hsteps record hrecord, ho ▸ hcloses⟩
    rw [IronCondor.closingFills, hall, h.fills, closingRun?,
      if_pos ⟨rfl, by rw [hev.2]; exact hrun, by rw [hev.1]; exact hcloses⟩, hev.2]
    simp
  · have hnone : records.filter (fun record => record.positionId = other ∧ record.fill.step = now ∧
        ClosesOn orders record.orderId other) = [] :=
      List.filter_eq_nil_iff.2 fun record hrecord hin => by
        obtain ⟨-, hnow, hc⟩ := of_decide_eq_true hin
        refine hcloses ⟨(hsteps record hrecord).symm.trans hnow, ?_⟩
        exact (h.tags record hrecord).1 ▸ hc
    rw [IronCondor.closingFills, hnone, closingRun?, if_neg fun hin => hcloses
      ⟨hin.1, hev.1 ▸ hin.2.2⟩]
    rfl

theorem closingRun?_ne (horders : Orders orders orderId intent.action)
    (hleg : intent.action = .Open ∨ intent.action = .Close positionId)
    (hev : ev.orderId = orderId) {other : PositionId}
    (hne : intent.action = .Close positionId → other ≠ positionId) (now : StepIndex) :
    closingRun? orders other now (step, ev) = none := by
  refine if_neg fun hin => ?_
  have hclose := (horders other).1 (hev ▸ hin.2.2)
  rcases hleg with hopen | hclose'
  · cases hopen.symm.trans hclose
  · cases hclose'.symm.trans hclose
    exact hne hclose' rfl

/-- The fills of one order keep every terminal row showing the last run on its leg. -/
theorem Recorded.terminalLast
    (h : Recorded orderId held intent base run st.inventory st.ids.position.value st.bundle tradeId
      positionId st'.ids.position.value st'.bundle)
    (ht : TerminalLast orders events st) (horders : Orders orders orderId intent.action)
    (hev : ev.orderId = orderId ∧ ev.fills = run) (hrun : run ≠ [])
    (hstamped : ∀ fill ∈ run, fill.step = step)
    (hlegs : (findLeg st.inventory positionId).isSome →
      (st.bundle.openLegs[positionId]?).isSome)
    (hminted : (st.bundle.openLegs[positionId]?).isSome →
      positionId.value < st.ids.position.value) :
    TerminalLast orders (events ++ [(step, ev)]) st' := by
  have hleg := h.leg
  obtain ⟨records, htagged, hfills⟩ := h.fills
  have hall : ∀ other now, IronCondor.closingFills orders st'.bundle.fills other now =
      (closingRuns orders (events ++ [(step, ev)]) other now).flatten := fun other now => by
    rw [hfills, closingFills_append, ht.fills, closingRuns_append, List.flatten_append,
      htagged.closingFills horders hleg hev hrun hstamped]
  generalize hnext : st'.ids.position.value = next at h
  generalize hbundle : st'.bundle = b at h
  -- a leg with a terminal row is closed, so no run closes contracts of it
  have hkept : ∀ row ∈ st.bundle.positions, row.exitReason ≠ none →
      (intent.action = .Close positionId → (st.bundle.openLegs[positionId]?).isSome) →
      ∃ last, (closingRuns orders (events ++ [(step, ev)]) row.positionId row.step).getLast? =
        some last ∧ row.quantity.value = totalQuantity last := by
    intro row hrow hexit hopen
    rw [closingRuns_append, closingRun?_ne horders hleg hev.1 (fun hclose heq => ?_)]
    · simpa using ht.last row hrow hexit
    · have hsome := hopen hclose
      rw [← heq, (ht.gone row hrow hexit).2] at hsome
      cases hsome
  cases h with
  | opened records entry action fresh minted trade tagged =>
    refine ⟨hall, fun row hrow hexit => ?_, fun row hrow hexit => ?_⟩
    · rw [hbundle] at hrow
      obtain ⟨hlt, hgone⟩ := ht.gone row hrow hexit
      refine ⟨by omega, ?_⟩
      rw [hbundle, OrderedMap.getElem?_insert, if_neg fun heq => by rw [heq, minted] at hlt; omega]
      exact hgone
    · rw [hbundle] at hrow
      exact hkept row hrow hexit fun hclose => nomatch action.symm.trans hclose
  | extended records entry action found leg_some trade tagged =>
    refine ⟨hall, fun row hrow hexit => ?_, fun row hrow hexit => ?_⟩
    · rw [hbundle] at hrow
      obtain ⟨hlt, hgone⟩ := ht.gone row hrow hexit
      refine ⟨by rw [hnext]; exact hlt, ?_⟩
      rw [hbundle, OrderedMap.getElem?_insert, if_neg fun heq => ?_]
      · exact hgone
      · have hsome := hlegs leg_some
        rw [← heq, hgone] at hsome
        cases hsome
    · rw [hbundle] at hrow
      exact hkept row hrow hexit fun hclose => nomatch action.symm.trans hclose
  | reduced records leg entry action leg_eq entry_eq trade part tagged =>
    refine ⟨hall, fun row hrow hexit => ?_, fun row hrow hexit => ?_⟩
    · rw [hbundle] at hrow ⊢
      rw [hnext]
      exact ht.gone row hrow hexit
    · rw [hbundle] at hrow
      exact hkept row hrow hexit fun _ => by rw [entry_eq]; rfl
  | flattened records leg entry row first action leg_eq entry_eq trade all head tagged terminal =>
    have hopen : (st.bundle.openLegs[positionId]?).isSome := by rw [entry_eq]; rfl
    refine ⟨hall, fun other hother hexit => ?_, fun other hother hexit => ?_⟩
    · rw [hbundle] at hother ⊢
      rw [hnext, OrderedMap.getElem?_erase]
      rcases List.mem_append.1 hother with hold | hnew
      · obtain ⟨hlt, hgone⟩ := ht.gone other hold hexit
        exact ⟨hlt, by split_ifs; exacts [rfl, hgone]⟩
      · rw [List.mem_singleton.1 hnew, terminal.positionId]
        exact ⟨hminted hopen, if_pos rfl⟩
    · rw [hbundle] at hother
      rcases List.mem_append.1 hother with hold | hnew
      · exact hkept other hold hexit fun _ => hopen
      · rw [List.mem_singleton.1 hnew, terminal.positionId, terminal.step,
          hstamped first (List.mem_of_mem_head? head), closingRuns_append, closingRun?,
          if_pos ⟨rfl, by rw [hev.2]; exact hrun, by rw [hev.1]; exact (horders _).2 action⟩, hev.2]
        exact ⟨run, by simp, terminal.quantity⟩

/-- An issued order closes the leg its own intent names. -/
theorem Orders.of_mem {action : PositionAction} (hinOrder : IssuedInOrder orders)
    (hmem : (orderId, intent) ∈ orders) (haction : intent.action = action) :
    Orders orders orderId action := by
  intro positionId
  constructor
  · rintro ⟨⟨other, found⟩, hfound, rfl, hclose⟩
    rw [← haction, hinOrder.unique hmem hfound]
    exact hclose
  · exact fun hclose => ⟨_, hmem, rfl, haction.trans hclose⟩

/-- What touches neither the collector nor the leg counter changes no terminal row. -/
theorem TerminalLast.congr (ht : TerminalLast orders events st) (hbundle : st'.bundle = st.bundle)
    (hids : st'.ids.position = st.ids.position) : TerminalLast orders events st' := by
  constructor <;> simp only [hbundle, hids]
  exacts [ht.fills, ht.gone, ht.last]

/-- An event that fills nothing is no closing run. -/
theorem TerminalLast.quiet (ht : TerminalLast orders events st) (hev : ev.fills = []) :
    TerminalLast orders (events ++ [(step, ev)]) st := by
  have hnone : ∀ positionId now, closingRuns orders (events ++ [(step, ev)]) positionId now =
      closingRuns orders events positionId now := fun positionId now => by
    have hrun : closingRun? orders positionId now (step, ev) = none :=
      if_neg fun hin => hin.2.1 hev
    rw [closingRuns_append, hrun, Option.toList_none, List.append_nil]
  refine ⟨fun positionId now => ?_, ht.gone, fun row hrow hexit => ?_⟩
  · rw [hnone]
    exact ht.fills positionId now
  · rw [hnone]
    exact ht.last row hrow hexit

/-- One event keeps every terminal row showing the last run on its leg. -/
theorem TerminalLast.event {snapshot : ChainSnapshot} {reasons : CloseReasons} {s t : StepState}
    (ht : TerminalLast orders events s.engine) (hlinked : Linked s.engine)
    (hinOrder : IssuedInOrder orders) (hsourced : Sourced orders s.engine.pending)
    (hmem : ∀ sub, ev.submission? = some sub → sub ∈ orders)
    (hstamped : ∀ fill ∈ ev.fills, fill.step = step)
    (h : applyEvent reasons snapshot s ev = .ok t) :
    TerminalLast orders (events ++ [(step, ev)]) t.engine := by
  have hopen : ∀ positionId, (s.engine.bundle.openLegs[positionId]?).isSome →
      (findLeg s.engine.inventory positionId).isSome := fun positionId hsome => by
    rw [← hlinked.openLegs_isSome]
    exact hsome
  have hlegs : ∀ positionId, (findLeg s.engine.inventory positionId).isSome →
      (s.engine.bundle.openLegs[positionId]?).isSome := fun positionId hsome => by
    rw [hlinked.openLegs_isSome]
    exact hsome
  have hminted : ∀ positionId : PositionId, (s.engine.bundle.openLegs[positionId]?).isSome →
      positionId.value < s.engine.ids.position.value := fun positionId hsome =>
    hlinked.minted positionId (findLeg_isSome.2 (hopen positionId hsome))
  cases ev with
  | carried orderId run =>
    obtain ⟨entry, tradeId, positionId, hstep⟩ := carried_recorded h
    obtain ⟨-, intent, hissued, hremains⟩ := hsourced orderId entry hstep.pending
    have haction : entry.pending.intent.action = intent.action := by rw [hremains]
    exact hstep.recorded.terminalLast ht (.of_mem hinOrder hissued haction.symm) ⟨rfl, rfl⟩
      hstep.nonempty hstamped (hlegs positionId) (hminted positionId)
  | withdrawn orderId =>
    cases h
    have hkept : TerminalLast orders events (s.engine.withdraw orderId) := ht.congr rfl rfl
    exact hkept.quiet rfl
  | submitted idx orderId intent run =>
    obtain ⟨tradeId, held, hstep⟩ := submitted_recorded h
    rcases hstep.recorded with ⟨rfl, -, hbundle, hids⟩ | ⟨hrun, positionId, -, hrecorded⟩
    · exact (ht.congr hbundle hids).quiet rfl
    · exact hrecorded.terminalLast ht (.of_mem hinOrder (hmem _ rfl) rfl) ⟨rfl, rfl⟩ hrun hstamped
        (hlegs positionId) (hminted positionId)

end Step

section Calls

variable {S X R : Type} [ExecutionModel X] [TrackingModel X] [Strategy S R] [SeedableRng R]
  {r : Setup S X} {n : Nat} {log : List (Batch X)} {b : Batch X} {after : EngineState}
  {s : RunState S X R} {orders : List (OrderId × OrderIntent)}

omit [TrackingModel X] in
theorem trace_append (log : List (Batch X)) (b : Batch X) :
    trace (log ++ [b]) = trace log ++ b.events.map (b.snapshot.step, ·) := by
  rw [trace, List.flatMap_append, List.flatMap_singleton]
  rfl

omit [Strategy S R] [SeedableRng R] in
/-- One call keeps every terminal row showing the last run on its leg. -/
theorem terminalLast_call (ht : OrdersTracked log b.model b.before) (hlinked : Linked b.before)
    (ha : OpensAnchored (fun _ _ => True) b.before) (hinOrder : IssuedInOrder orders)
    (hissued : issued (log ++ [b]) ⊆ orders) (hl : TerminalLast orders (trace log) b.before)
    (hexec : b.Executed after) :
    Linked after ∧ TerminalLast orders (trace (log ++ [b])) after := by
  obtain ⟨ids, hmint, hstart⟩ := hexec.minted
  obtain ⟨hposition, -⟩ := mintSubmitIds_eq_ok hmint
  have hrun := (ht.events_done hexec (fun _ => trivial) hexec.carriesOwn along_true
    (fun done st => Linked st ∧ OpensAnchored (fun _ _ => True) st ∧
      TerminalLast orders (trace log ++ done.map (b.snapshot.step, ·)) st) ?_ ?_).1
  · rw [trace_append]
    exact ⟨hrun.1, hrun.2.2⟩
  · rintro done s t ev hev - hecho hsourced ⟨hlinked, ha, hl⟩ happly
    obtain ⟨hlinked', ha', -⟩ := applyEvent_linked hlinked ha hecho happly
    refine ⟨hlinked', ha', ?_⟩
    rw [List.map_append, ← List.append_assoc]
    refine hl.event hlinked hinOrder (hsourced.mono hissued) (fun sub hsub => hissued ?_)
      (hexec.law.stamped ev hev) happly
    rw [issued_append]
    exact List.mem_append_right _ (hexec.submission_mem hev hsub)
  · rw [hstart]
    have hkeeps : Keeps b.before { b.before with ids } := .frame hposition rfl
    refine ⟨hlinked.frame rfl hposition rfl rfl, hkeeps.opensAnchored rfl ha, ?_⟩
    rw [List.map_nil, List.append_nil]
    exact hl.congr rfl hposition

/-- The settlement adds open rows only. -/
theorem TerminalLast.settle {events : List (StepIndex × OrderEvent)} {st st' : EngineState}
    {snapshot : ChainSnapshot} {isLast : Bool} {point : EquityPoint} (hlinked : Linked st)
    (hl : TerminalLast orders events st) (h : st.Settled snapshot isLast point st') :
    TerminalLast orders events st' := by
  obtain ⟨rows, hbundle, hall, -⟩ := settled_kinds hlinked h
  have hids : st'.ids = st.ids := by rw [h.books]
  have hold : ∀ row ∈ st'.bundle.positions, row.exitReason ≠ none →
      row ∈ st.bundle.positions := by
    intro row hrow hexit
    rw [hbundle] at hrow
    exact (List.mem_append.1 hrow).resolve_right fun hnew => hexit (hall row hnew).2.1
  refine ⟨fun positionId now => ?_, fun row hrow hexit => ?_, fun row hrow hexit =>
    hl.last row (hold row hrow hexit) hexit⟩
  · rw [hbundle]
    exact hl.fills positionId now
  · rw [hbundle, hids]
    exact hl.gone row (hold row hrow hexit) hexit

/-- In every reachable state every terminal row shows the last run on its leg. -/
theorem Setup.play_terminalLast (hidle : Idle r.execution) (h : r.play n = .ok (log, s)) :
    TerminalLast (issued log) (trace log) s.engine := by
  suffices hrun : OrdersTracked log s.execution s.engine ∧ Linked s.engine ∧
      OpensAnchored (fun _ _ => True) s.engine ∧ ∀ orders, IssuedInOrder orders →
        issued log ⊆ orders → TerminalLast orders (trace log) s.engine from
    hrun.2.2.2 _ hrun.1.inOrder (List.Subset.refl _)
  refine r.play_tracked hidle (fun log _ st => Linked st ∧
    OpensAnchored (fun _ _ => True) st ∧ ∀ orders, IssuedInOrder orders → issued log ⊆ orders →
      TerminalLast orders (trace log) st) ?_ ?_ ?_ h
  · refine fun initial _ => ⟨linked_new initial, opensAnchored_new initial, fun orders _ _ => ?_⟩
    exact ⟨fun _ _ => rfl, List.forall_mem_nil _, List.forall_mem_nil _⟩
  · rintro log b after ht ⟨hlinked, ha, hl⟩ hexec -
    obtain ⟨hlinked', ha'⟩ := linked_call ht (fun _ => trivial) hexec.carriesOwn hlinked ha hexec
    have hprior : issued log ⊆ issued (log ++ [b]) := by
      rw [issued_append]
      exact List.subset_append_left _ _
    obtain ⟨hinOrder, -⟩ := ht.toOrdersIssued.fresh hexec
    refine ⟨hlinked', ha', fun orders hsorted hissued => ?_⟩
    exact (terminalLast_call ht hlinked ha hsorted hissued
      (hl orders hsorted (List.Subset.trans hprior hissued)) hexec).2
  · rintro log x st snapshot isLast point st' ⟨hlinked, ha, hl⟩ hsettled
    obtain ⟨hlinked', hkeeps, hpending⟩ := hsettled.sameLegs.linked hlinked
    exact ⟨hlinked', hkeeps.opensAnchored hpending ha, fun orders hsorted hissued =>
      (hl orders hsorted hissued).settle hlinked hsettled⟩

end Calls

/-- A row shows the contracts closed at its step exactly when one run closed them all. -/
def TerminalQuantities {X : Type} [ExecutionModel X] (log : List (Batch X)) (st : EngineState) :
    Prop :=
  ∀ row ∈ st.bundle.positions, row.exitReason ≠ none →
    (row.quantity.value =
        totalQuantity (closingFills (issued log) st.bundle.fills row.positionId row.step) ↔
      (closingRuns (issued log) (trace log) row.positionId row.step).length = 1)

theorem closingRuns_pos {orders : List (OrderId × OrderIntent)}
    {events : List (StepIndex × OrderEvent)} {positionId : PositionId} {step : StepIndex} :
    ∀ run ∈ closingRuns orders events positionId step, 0 < totalQuantity run := by
  intro run hrun
  obtain ⟨entry, -, hentry⟩ := List.mem_filterMap.1 hrun
  unfold closingRun? at hentry
  split_ifs at hentry with hin
  cases hentry
  exact totalQuantity_pos hin.2.1

/-- The last of some runs has all their contracts exactly when it is the only one. -/
theorem totalQuantity_last {runs : List (List Fill)} {last : List Fill}
    (hpos : ∀ run ∈ runs, 0 < totalQuantity run) (hlast : runs.getLast? = some last) :
    totalQuantity last = totalQuantity runs.flatten ↔ runs.length = 1 := by
  obtain ⟨before, rfl⟩ := List.getLast?_eq_some_iff.1 hlast
  rw [List.flatten_append, totalQuantity_append, List.flatten_singleton]
  cases before with
  | nil => simp
  | cons first rest =>
    have hfirst := hpos first (by simp)
    have hrest := totalQuantity_nonneg rest.flatten
    rw [List.flatten_cons, totalQuantity_append]
    simp only [List.length_append, List.length_cons, List.length_nil]
    omega

theorem TerminalLast.quantities {X : Type} [ExecutionModel X] {log : List (Batch X)}
    {st : EngineState} (h : TerminalLast (issued log) (trace log) st) :
    TerminalQuantities log st := by
  intro row hrow hexit
  obtain ⟨last, hlast, hquantity⟩ := h.last row hrow hexit
  rw [h.fills, hquantity]
  exact totalQuantity_last closingRuns_pos hlast

section Modes

variable {S R B : Type} [DecimalArith] [Book B ObOrderId] [Strategy S R] [SeedableRng R]

/-- Terminal rows over whole runs: in either mode, the terminal row of a leg shows the contracts
closed at its step exactly when a single order closed contracts of the leg at that step. -/
theorem terminal_row_quantity (config : BacktestConfig) (feed : MaterialisedFeed) (strategy : S)
    (n : Nat) :
    (∀ log s, (Setup.naive config feed strategy).play n = .ok (log, s) →
        TerminalQuantities log s.engine) ∧
      ∀ log s, (Setup.realistic B config feed strategy).play n = .ok (log, s) →
        TerminalQuantities log s.engine :=
  ⟨fun _ _ h => (Setup.play_terminalLast (idle_naive config feed strategy) h).quantities,
    fun _ _ h => (Setup.play_terminalLast (idle_realistic config feed strategy) h).quantities⟩

end Modes

open SmallMarket in
/-- Two lots are bought and sold again one by one, at two steps. -/
theorem terminal_row_quantity_roundTrip : ∃ log s,
    (Setup.naive (config .Naive) dipFeed
      (⟨take, [closeOne .Short, closeOne .Short]⟩ : Script)).play 3 = .ok (log, s) ∧
      TerminalQuantities log s.engine := by
  obtain ⟨⟨log, s⟩, h⟩ := exists_eq_ok (r := (Setup.naive (config .Naive) dipFeed
    (⟨take, [closeOne .Short, closeOne .Short]⟩ : Script)).play 3) (by decide +kernel)
  exact ⟨log, s, h, (terminal_row_quantity (B := ReferenceBook ObOrderId) _ _ _ 3).1 log s h⟩

open SmallMarket in
/-- Two lots are sold by two orders of one step: the terminal row shows the last one only. -/
theorem terminal_row_twoCloses : ∃ log s,
    (Setup.naive (config .Naive) dipFeed
      (⟨take, [closeOne .Short ++ closeOne .Short]⟩ : Script)).play 1 = .ok (log, s) ∧
      ∃ row ∈ s.engine.bundle.positions, row.exitReason ≠ none ∧ row.quantity.value = 1 ∧
        totalQuantity (closingFills (issued log) s.engine.bundle.fills row.positionId row.step) =
          2 := by
  obtain ⟨⟨log, s⟩, h, hcheck⟩ := exists_ok_of_check (r := (Setup.naive (config .Naive) dipFeed
    (⟨take, [closeOne .Short ++ closeOne .Short]⟩ : Script)).play 1)
    (fun run => decide (∃ row ∈ run.2.engine.bundle.positions, row.exitReason ≠ none ∧
      row.quantity.value = 1 ∧ totalQuantity (closingFills (issued run.1)
        run.2.engine.bundle.fills row.positionId row.step) = 2)) (by decide +kernel)
  exact ⟨log, s, h, of_decide_eq_true hcheck⟩

end IronCondor
