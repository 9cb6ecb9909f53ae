import IronCondor.Engine.FillIdentity
import IronCondor.Engine.Replacement

/-! # The account of an order

The fills table and the cancels of the strategy say what every order has left: the registry of
resting orders, and the book side of the realistic model, show it and nothing else. -/
namespace IronCondor

open Checked ExceptRun OrderBook RealisticFill

section Events

/-- What some events fill of an order. -/
def filledIn (orderId : OrderId) (events : List OrderEvent) : Int :=
  totalQuantity ((events.filter fun ev => ev.orderId = orderId).flatMap OrderEvent.fills)

/-- What of an order goes on resting, once so much of it is filled: a good-till-cancelled order
rests until it is withdrawn or filled. -/
def stillResting (intent : OrderIntent) (withdrawn : Prop) [Decidable withdrawn] (filled : Int) :
    Option Int :=
  if intent.tif = .Gtc ∧ ¬ withdrawn ∧ filled < intent.quantity.value then
    some (intent.quantity.value - filled)
  else none

theorem stillResting_eq_some {intent : OrderIntent} {withdrawn : Prop} [Decidable withdrawn]
    {filled left : Int} : stillResting intent withdrawn filled = some left ↔
      intent.tif = .Gtc ∧ ¬ withdrawn ∧ 0 < left ∧ filled + left = intent.quantity.value := by
  unfold stillResting
  split_ifs with hopen
  · rw [Option.some.injEq]
    constructor
    · exact fun hleft => ⟨hopen.1, hopen.2.1, by omega⟩
    · exact fun hleft => by omega
  · refine ⟨False.elim, fun h => hopen ?_⟩
    exact ⟨h.1, h.2.1, by omega⟩

theorem stillResting_congr {intent : OrderIntent} {withdrawn withdrawn' : Prop}
    [Decidable withdrawn] [Decidable withdrawn'] (h : withdrawn ↔ withdrawn') (filled : Int) :
    stillResting intent withdrawn filled = stillResting intent withdrawn' filled := by
  simp only [stillResting, h]

/-- The account of one order: it is filled within its size, and rests for what is left. -/
structure OrderAccount (events : List OrderEvent) (pending : Std.TreeMap OrderId PendingEntry)
    (orderId : OrderId) (intent : OrderIntent) : Prop where
  within : filledIn orderId events ≤ intent.quantity.value
  rests : remainingOf pending orderId =
    stillResting intent (.withdrawn orderId ∈ events) (filledIn orderId events)

/-- Every submitted order has its account, and no other order rests. -/
structure Accounted (events : List OrderEvent) (pending : Std.TreeMap OrderId PendingEntry) :
    Prop where
  submitted : ∀ ev ∈ events, ∃ intent,
    (ev.orderId, intent) ∈ events.filterMap OrderEvent.submission?
  account : ∀ orderId intent, (orderId, intent) ∈ events.filterMap OrderEvent.submission? →
    OrderAccount events pending orderId intent
  unknown : ∀ orderId, (∀ intent, (orderId, intent) ∉ events.filterMap OrderEvent.submission?) →
    remainingOf pending orderId = none

variable {events : List OrderEvent} {ev : OrderEvent} {orderId : OrderId} {intent : OrderIntent}
  {run : List Fill} {idx : Nat} {pending pending' : Std.TreeMap OrderId PendingEntry}

theorem filledIn_append (events : List OrderEvent) (ev : OrderEvent) (orderId : OrderId) :
    filledIn orderId (events ++ [ev]) = filledIn orderId events +
      if ev.orderId = orderId then totalQuantity ev.fills else 0 := by
  unfold filledIn
  rw [List.filter_append, List.flatMap_append, totalQuantity_append]
  by_cases h : ev.orderId = orderId <;> simp [h]

theorem filledIn_none (h : ∀ ev ∈ events, ev.orderId ≠ orderId) : filledIn orderId events = 0 := by
  have hnone : events.filter (fun ev => ev.orderId = orderId) = [] :=
    List.filter_eq_nil_iff.2 fun ev hev heq => h ev hev (of_decide_eq_true heq)
  rw [filledIn, hnone]
  rfl

theorem Accounted.empty : Accounted [] ∅ where
  submitted := List.forall_mem_nil _
  account _ _ h := absurd h List.not_mem_nil
  unknown orderId _ := by simp [remainingOf]

/-- An event of another order leaves the account of an order alone. -/
theorem OrderAccount.other (h : OrderAccount events pending orderId intent)
    (hstep : RegistryStep pending pending' ev) (hne : ev.orderId ≠ orderId) :
    OrderAccount (events ++ [ev]) pending' orderId intent := by
  have hfilled : filledIn orderId (events ++ [ev]) = filledIn orderId events := by
    rw [filledIn_append, if_neg hne, add_zero]
  have hwithdrawn : .withdrawn orderId ∈ events ++ [ev] ↔ .withdrawn orderId ∈ events := by
    rw [List.mem_append, List.mem_singleton, or_iff_left]
    rintro rfl
    exact hne rfl
  have hslot : remainingOf pending' orderId = remainingOf pending orderId := by
    rw [hstep.remaining]
    exact Keyed.act_of_ne (Ne.symm hne)
  refine ⟨hfilled.trans_le h.within, ?_⟩
  rw [hslot, h.rests, hfilled]
  exact stillResting_congr hwithdrawn.symm _

/-- A refill fills an order no further than its size, and leaves the rest of it resting. -/
theorem OrderAccount.carried (h : OrderAccount events pending orderId intent)
    (hstep : RegistryStep pending pending' (.carried orderId run)) :
    OrderAccount (events ++ [.carried orderId run]) pending' orderId intent := by
  have hfilled : filledIn orderId (events ++ [.carried orderId run]) =
      filledIn orderId events + totalQuantity run := by
    rw [filledIn_append, OrderEvent.orderId, if_pos rfl]
    rfl
  have hwithdrawn : .withdrawn orderId ∈ events ++ [.carried orderId run] ↔
      .withdrawn orderId ∈ events := by simp
  obtain ⟨entry, hentry, hcases⟩ := hstep
  have hslot : remainingOf pending orderId = some entry.remaining.value := by
    rw [remainingOf, hentry, Option.map_some]
  obtain ⟨hgtc, hkept, -, hleft⟩ := stillResting_eq_some.1 (h.rests.symm.trans hslot)
  constructor <;> rw [hfilled]
  · rcases hcases with ⟨hall, -⟩ | ⟨left, -, hremains, -⟩
    · omega
    · have hpos := left.remaining.pos
      omega
  · rw [stillResting_congr hwithdrawn]
    rcases hcases with ⟨hall, rfl⟩ | ⟨left, rfl, hremains, -⟩
    · rw [remainingOf_erase, Function.update_self]
      exact (if_neg fun hopen => absurd hopen.2.2 (by omega)).symm
    · have hpos := left.remaining.pos
      rw [remainingOf_insert, Function.update_self, eq_comm]
      exact stillResting_eq_some.2 ⟨hgtc, hkept, hpos, by omega⟩

/-- A withdrawn order rests no longer. -/
theorem OrderAccount.withdrawn (h : OrderAccount events pending orderId intent)
    (hstep : RegistryStep pending pending' (.withdrawn orderId)) :
    OrderAccount (events ++ [.withdrawn orderId]) pending' orderId intent := by
  have hfilled : filledIn orderId (events ++ [.withdrawn orderId]) = filledIn orderId events := by
    rw [filledIn_append, OrderEvent.orderId, if_pos rfl]
    exact add_zero _
  refine ⟨hfilled.trans_le h.within, ?_⟩
  rw [show pending' = pending.erase orderId from hstep, remainingOf_erase, Function.update_self]
  exact (if_neg fun hopen => hopen.2.1 (List.mem_append_right _ List.mem_cons_self)).symm

/-- A new order rests for what its first call leaves of it, when it is good till cancelled. -/
theorem Accounted.fresh (h : Accounted events pending)
    (hstep : RegistryStep pending pending' (.submitted idx orderId intent run))
    (hnew : ∀ intent, (orderId, intent) ∉ events.filterMap OrderEvent.submission?)
    (hwithin : totalQuantity run ≤ intent.quantity.value) :
    OrderAccount (events ++ [.submitted idx orderId intent run]) pending' orderId intent := by
  have hquiet : ∀ ev ∈ events, ev.orderId ≠ orderId := by
    rintro ev hev rfl
    obtain ⟨other, hother⟩ := h.submitted ev hev
    exact hnew other hother
  have hwithdrawn : .withdrawn orderId ∉ events ++ [.submitted idx orderId intent run] := by
    simp only [List.mem_append, List.mem_singleton, reduceCtorEq, or_false]
    exact fun hev => hquiet _ hev rfl
  have hfilled : filledIn orderId (events ++ [.submitted idx orderId intent run]) =
      totalQuantity run := by
    rw [filledIn_append, filledIn_none hquiet, OrderEvent.orderId, if_pos rfl, zero_add]
    rfl
  refine ⟨hfilled.trans_le hwithin, ?_⟩
  rw [hfilled]
  rcases hstep with ⟨hnot, rfl⟩ | ⟨left, hgtc, rfl, hleft, -⟩
  · rw [h.unknown orderId hnew]
    exact (if_neg fun hopen => hnot ⟨hopen.1, hopen.2.2⟩).symm
  · have hpos := left.remaining.pos
    rw [remainingOf_insert, Function.update_self, eq_comm]
    exact stillResting_eq_some.2 ⟨hgtc, hwithdrawn, hpos, by omega⟩

/-- One event keeps the accounts: it withdraws or refills a submitted order, or submits a new one
that it fills within its size. -/
theorem Accounted.step (h : Accounted events pending) (hstep : RegistryStep pending pending' ev)
    (hfresh : ∀ sub, ev.submission? = some sub → totalQuantity ev.fills ≤ sub.2.quantity.value ∧
      ∀ intent, (sub.1, intent) ∉ events.filterMap OrderEvent.submission?)
    (hknown : ev.submission? = none →
      ∃ intent, (ev.orderId, intent) ∈ events.filterMap OrderEvent.submission?) :
    Accounted (events ++ [ev]) pending' := by
  have hothers : ∀ orderId intent, (orderId, intent) ∈ events.filterMap OrderEvent.submission? →
      ev.submission?.map Prod.fst ≠ some orderId → 
        OrderAccount (events ++ [ev]) pending' orderId intent := by
    intro orderId intent hsub hold
    by_cases hid : ev.orderId = orderId
    · subst hid
      cases ev with
      | carried orderId run => exact (h.account orderId intent hsub).carried hstep
      | withdrawn orderId => exact (h.account orderId intent hsub).withdrawn hstep
      | submitted idx orderId other run => exact absurd rfl hold
    · exact (h.account orderId intent hsub).other hstep hid
  cases hev : ev.submission? with
  | none =>
    have hsame : (events ++ [ev]).filterMap OrderEvent.submission? =
        events.filterMap OrderEvent.submission? := by simp [hev]
    constructor <;> rw [hsame]
    · exact List.forall_mem_append.2 ⟨h.submitted, List.forall_mem_singleton.2 (hknown hev)⟩
    · exact fun orderId intent hsub => hothers orderId intent hsub (by simp [hev])
    · intro orderId hnone
      rw [hstep.remaining]
      refine (Keyed.act_of_ne ?_).trans (h.unknown orderId hnone)
      rintro rfl
      obtain ⟨intent, hsub⟩ := hknown hev
      exact hnone intent hsub
  | some sub =>
    obtain ⟨orderId, intent⟩ := sub
    obtain ⟨hwithin, hnew⟩ := hfresh _ hev
    have hmore : (events ++ [ev]).filterMap OrderEvent.submission? =
        events.filterMap OrderEvent.submission? ++ [(orderId, intent)] := by simp [hev]
    obtain ⟨idx, run, rfl⟩ : ∃ idx run, ev = .submitted idx orderId intent run := by
      cases ev with
      | carried orderId run => cases hev
      | withdrawn orderId => cases hev
      | submitted idx orderId intent run =>
        cases hev
        exact ⟨idx, run, rfl⟩
    constructor <;> rw [hmore]
    · refine List.forall_mem_append.2 ⟨fun ev hev => ?_, List.forall_mem_singleton.2 ?_⟩
      · obtain ⟨other, hother⟩ := h.submitted ev hev
        exact ⟨other, List.mem_append_left _ hother⟩
      · exact ⟨intent, List.mem_append_right _ List.mem_cons_self⟩
    · intro other wanted hsub
      rcases List.mem_append.1 hsub with hold | hnow
      · refine hothers other wanted hold fun heq => ?_
        cases heq
        exact hnew wanted hold
      · cases List.mem_singleton.1 hnow
        exact h.fresh hstep hnew hwithin
    · intro other hnone
      simp only [List.mem_append, not_or, forall_and, List.mem_singleton, Prod.mk.injEq] at hnone
      rw [hstep.remaining]
      refine (Keyed.act_of_ne ?_).trans (h.unknown other hnone.1)
      rintro rfl
      exact hnone.2 intent ⟨rfl, rfl⟩

/-- An event fills no more of its order than the events do. -/
theorem le_filledIn (hev : ev ∈ events) : totalQuantity ev.fills ≤ filledIn ev.orderId events := by
  obtain ⟨done, rest, rfl⟩ := List.append_of_mem hev
  have hdone := totalQuantity_nonneg
    ((done.filter fun other => other.orderId = ev.orderId).flatMap OrderEvent.fills)
  have hrest := totalQuantity_nonneg
    ((rest.filter fun other => other.orderId = ev.orderId).flatMap OrderEvent.fills)
  simp only [filledIn, List.filter_append, List.filter_cons, decide_true, if_true,
    List.flatMap_append, List.flatMap_cons, totalQuantity_append]
  omega

end Events

section Calls

variable {X : Type} [ExecutionModel X]

/-- A fill model that fills no order of a call beyond its size. -/
def FillsWithin (X : Type) [ExecutionModel X] : Prop :=
  ∀ (b : Batch X) (after : EngineState), b.Executed after → ∀ idx orderId intent run,
    .submitted idx orderId intent run ∈ b.events → totalQuantity run ≤ intent.quantity.value

/-- The order events of a run. -/
def happened (log : List (Batch X)) : List OrderEvent := log.flatMap Batch.events

/-- A command of the run cancels or replaces the order. -/
def CalledOff (log : List (Batch X)) (orderId : OrderId) : Prop :=
  ∃ b ∈ log, ∃ cmd ∈ b.cmds, cmd.target? = some orderId

instance (log : List (Batch X)) (orderId : OrderId) : Decidable (CalledOff log orderId) :=
  inferInstanceAs (Decidable (∃ b ∈ log, ∃ cmd ∈ b.cmds, cmd.target? = some orderId))

/-- What the fills table has of an order. -/
def filledOf (orderId : OrderId) (records : List FillRecord) : Int :=
  totalQuantity ((recordsOf orderId records).map FillRecord.fill)

variable {log : List (Batch X)} {b : Batch X} {after : EngineState}

theorem happened_append (log : List (Batch X)) (b : Batch X) :
    happened (log ++ [b]) = happened log ++ b.events := by
  simp [happened]

/-- One call keeps the accounts. -/
theorem accounted_call (hwithin : FillsWithin X) (hissued : OrdersIssued log b.before)
    (hsubs : (happened log).filterMap OrderEvent.submission? = issued log)
    (h : Accounted (happened log) b.before.pending) (hexec : b.Executed after) :
    Accounted (happened (log ++ [b])) after.pending ∧
      (happened (log ++ [b])).filterMap OrderEvent.submission? = issued (log ++ [b]) := by
  obtain ⟨ids, -, hstart⟩ := hexec.minted
  obtain ⟨trade, hfold⟩ := hexec.applied
  have hsubs' : (happened (log ++ [b])).filterMap OrderEvent.submission? = issued (log ++ [b]) := by
    rw [happened_append, issued_append, List.filterMap_append, hsubs, hexec.submissions]
  refine ⟨?_, hsubs'⟩
  have hunique := (hissued.fresh hexec).1
  rw [← hsubs', happened_append] at hunique
  rw [happened_append]
  refine foldlM_invariant_at (fun done (s : StepState) =>
    Accounted (happened log ++ done) s.engine.pending) ?_ ?_ hfold
  · rw [List.append_nil, hstart]
    exact h
  · intro done ev rest s t hsplit hdone happly
    have hev : ev ∈ b.events := by
      rw [hsplit]
      exact List.mem_append_right _ List.mem_cons_self
    rw [← List.append_assoc]
    refine hdone.step (applyEvent_registry happly).1 (fun sub hsub => ⟨?_, ?_⟩) fun hnone => ?_
    · cases ev with
      | carried orderId run => cases hsub
      | withdrawn orderId => cases hsub
      | submitted idx orderId intent run =>
        cases hsub
        exact hwithin b after hexec idx orderId intent run hev
    · -- ids are minted in order, so none is submitted twice
      intro intent hmem
      rw [hsplit, ← List.append_assoc, List.filterMap_append,
        List.filterMap_cons_some hsub] at hunique
      exact absurd ((List.pairwise_append.1 hunique).2.2 _ hmem sub List.mem_cons_self)
        (lt_irrefl _)
    · have hpending : (s.engine.pending[ev.orderId]?).isSome ∨
          (b.before.pending[ev.orderId]?).isSome := by
        cases ev with
        | carried orderId run =>
          obtain ⟨entry, hentry, -⟩ := (applyEvent_registry happly).1
          exact .inl (Option.isSome_iff_exists.2 ⟨entry, hentry⟩)
        | withdrawn orderId =>
          have hmem : orderId ∈ b.events.filterMap OrderEvent.withdrawal? :=
            List.mem_filterMap.2 ⟨_, hev, rfl⟩
          rw [correlate_withdrawals hexec.correlated] at hmem
          obtain ⟨cmd, hcmd, htarget⟩ := List.mem_filterMap.1 hmem
          have hpre := hexec.prevalidated cmd hcmd
          rw [prevalidate, htarget] at hpre
          rw [Std.TreeMap.isSome_getElem?_eq_contains, Std.TreeMap.isSome_getElem?_eq_contains]
          exact .inr (require_eq_ok.1 hpre)
        | submitted idx orderId intent run => cases hnone
      by_contra hunknown
      push Not at hunknown
      rcases hpending with hrests | hrests
      · have hslot := hdone.unknown _ hunknown
        rw [remainingOf, Option.map_eq_none_iff] at hslot
        rw [hslot] at hrests
        cases hrests
      · have hslot := h.unknown ev.orderId fun intent hmem => hunknown intent <| by
          rw [List.filterMap_append]
          exact List.mem_append_left _ hmem
        rw [remainingOf, Option.map_eq_none_iff] at hslot
        rw [hslot] at hrests
        cases hrests

end Calls

section Runs

variable {S X R : Type} [ExecutionModel X] [TrackingModel X] [Strategy S R] [SeedableRng R]
  {r : Setup S X} {n : Nat} {log : List (Batch X)} {s : RunState S X R}

omit [TrackingModel X] in
/-- What the fills table has of an order is what the events of the run fill of it. -/
theorem filledOf_eq {records : List FillRecord}
    (htable : records.map (fun record => (record.orderId, record.fill)) =
      log.flatMap Batch.entries) (orderId : OrderId) :
    filledOf orderId records = filledIn orderId (happened log) := by
  have hentries : log.flatMap Batch.entries = (happened log).flatMap OrderEvent.entries := by
    rw [happened, List.flatMap_assoc]
    rfl
  have hrecords : (recordsOf orderId records).map FillRecord.fill =
      ((records.map fun record => (record.orderId, record.fill)).filter
        fun entry => entry.1 = orderId).map Prod.snd := by
    simp [recordsOf, List.filter_map, Function.comp_def]
  rw [filledOf, filledIn, hrecords, htable, hentries]
  congr 1
  induction happened log with
  | nil => rfl
  | cons ev events ih =>
    rw [List.flatMap_cons, List.filter_append, List.map_append, ih, List.filter_cons]
    by_cases h : ev.orderId = orderId <;>
      simp [h, OrderEvent.entries, List.filter_map, Function.comp_def]

omit [TrackingModel X] in
/-- The events withdraw exactly the orders that the commands cancel or replace. -/
theorem withdrawn_iff (h : ∀ b ∈ log, ∃ after, b.Executed after) (orderId : OrderId) :
    .withdrawn orderId ∈ happened log ↔ CalledOff log orderId := by
  rw [happened, List.mem_flatMap, CalledOff]
  refine exists_congr fun b => and_congr_right fun hb => ?_
  obtain ⟨after, hexec⟩ := h b hb
  rw [← List.mem_filterMap, ← correlate_withdrawals hexec.correlated, List.mem_filterMap]
  constructor
  · exact fun hev => ⟨_, hev, rfl⟩
  · rintro ⟨ev, hev, hid⟩
    cases ev with
    | withdrawn other =>
      cases hid
      exact hev
    | carried other run => cases hid
    | submitted idx other intent run => cases hid

/-- The accounts of all orders of a run: every issued order is filled within its size, and rests
for what is left of it, exactly when it is good till cancelled and was neither cancelled nor
replaced; no other order is filled or rests. -/
structure OrdersAccounted (log : List (Batch X)) (st : EngineState) : Prop where
  within : ∀ orderId intent, (orderId, intent) ∈ issued log →
    filledOf orderId st.bundle.fills ≤ intent.quantity.value
  rests : ∀ orderId intent, (orderId, intent) ∈ issued log →
    remainingOf st.pending orderId =
      stillResting intent (CalledOff log orderId) (filledOf orderId st.bundle.fills)
  unknown : ∀ orderId, (∀ intent, (orderId, intent) ∉ issued log) →
    filledOf orderId st.bundle.fills = 0 ∧ remainingOf st.pending orderId = none

/-- Every reachable state accounts for the orders issued so far. -/
theorem Setup.play_accounted (hidle : Idle r.execution) (hwithin : FillsWithin X)
    (h : r.play n = .ok (log, s)) :
    Accounted (happened log) s.engine.pending ∧
      (happened log).filterMap OrderEvent.submission? = issued log ∧
      ∀ b ∈ log, ∃ after, b.Executed after := by
  refine (Setup.play_tracked hidle (fun log _ st => Accounted (happened log) st.pending ∧
    (happened log).filterMap OrderEvent.submission? = issued log ∧
      ∀ b ∈ log, ∃ after, b.Executed after) ?_ ?_ ?_ h).2
  · exact fun _ _ => ⟨.empty, rfl, List.forall_mem_nil _⟩
  · intro log b after ht ⟨haccounted, hsubs, hexecuted⟩ hexec _
    obtain ⟨haccounted', hsubs'⟩ :=
      accounted_call hwithin ht.toOrdersIssued hsubs haccounted hexec
    exact ⟨haccounted', hsubs', List.forall_mem_append.2
      ⟨hexecuted, List.forall_mem_singleton.2 ⟨after, hexec⟩⟩⟩
  · intro log _ st snapshot isLast point st' haccounted hsettled
    rw [hsettled.books]
    exact haccounted

/-- In every reachable state the accounts can be read off the fills table and the commands. -/
theorem Setup.play_ordersAccounted (hidle : Idle r.execution) (hwithin : FillsWithin X)
    (h : r.play n = .ok (log, s)) : OrdersAccounted log s.engine := by
  obtain ⟨haccounted, hsubs, hexecuted⟩ := Setup.play_accounted hidle hwithin h
  obtain ⟨_, -, hbalanced⟩ := play_balanced h
  have hfilled := filledOf_eq hbalanced.table
  constructor <;> rw [← hsubs] <;> intro orderId
  · intro intent hsub
    rw [hfilled]
    exact (haccounted.account orderId intent hsub).within
  · intro intent hsub
    rw [hfilled, (haccounted.account orderId intent hsub).rests]
    exact stillResting_congr (withdrawn_iff hexecuted orderId) _
  · intro hnone
    refine ⟨?_, haccounted.unknown orderId hnone⟩
    rw [hfilled]
    refine filledIn_none fun ev hev => ?_
    rintro rfl
    obtain ⟨intent, hsub⟩ := haccounted.submitted ev hev
    exact hnone intent hsub

end Runs

section Models

variable {B : Type} [DecimalArith] [Book B ObOrderId]

/-- The naive model fills every order of a call whole. -/
theorem NaiveFill.fills_whole {b : Batch NaiveFill} {after : EngineState} (h : b.Executed after)
    {idx : Nat} {orderId : OrderId} {intent : OrderIntent} {run : List Fill}
    (hev : .submitted idx orderId intent run ∈ b.events) :
    totalQuantity run = intent.quantity.value := by
  rcases naive_events h.filled h.correlated _ hev with ⟨_, heq⟩ | ⟨_, _, _, fill, heq, hfilled⟩
  · cases heq
  · cases heq
    obtain ⟨-, -, -, -, hquantity⟩ := NaiveFill.fillIntent_eq_ok hfilled
    rw [totalQuantity_cons, totalQuantity_nil, add_zero, hquantity]

theorem NaiveFill.fillsWithin : FillsWithin NaiveFill :=
  fun _ _ hexec _ _ _ _ hev => (NaiveFill.fills_whole hexec hev).le

theorem RealisticFill.fillsWithin [ConservesQuantity B] : FillsWithin (RealisticFill B) := by
  intro b after hexec idx orderId intent run hev
  obtain ⟨a, ha, -, hevents⟩ := hexec.attributed
  rw [hevents] at hev
  rcases mem_attribution_events ha hev with ⟨_, -, heq⟩ | ⟨routed, hrouted, heq⟩ | ⟨_, heq⟩
  · cases heq
  · cases heq
    exact fillAttributed_le ha routed hrouted
  · cases heq

variable {S R : Type} [ConservesQuantity B] [Strategy S R] [SeedableRng R]

/-- The accounts of the orders over whole runs: in either mode an order is never filled beyond its
size, and what the registry keeps of it is what the fills table and the cancels leave; the naive
model fills every order whole. -/
theorem orders_accounted (config : BacktestConfig) (feed : MaterialisedFeed) (strategy : S)
    (n : Nat) :
    (∀ log s, (Setup.naive config feed strategy).play n = .ok (log, s) →
        OrdersAccounted log s.engine ∧ ∀ orderId intent, (orderId, intent) ∈ issued log →
          filledOf orderId s.engine.bundle.fills = intent.quantity.value) ∧
      ∀ log s, (Setup.realistic B config feed strategy).play n = .ok (log, s) →
        OrdersAccounted log s.engine := by
  constructor
  · intro log s h
    have hidle := idle_naive config feed strategy
    have haccounted := Setup.play_ordersAccounted hidle NaiveFill.fillsWithin h
    refine ⟨haccounted, fun orderId intent hissued => le_antisymm ?_ ?_⟩
    · exact haccounted.within orderId intent hissued
    · obtain ⟨-, hsubs, hexecuted⟩ := Setup.play_accounted hidle NaiveFill.fillsWithin h
      obtain ⟨_, -, hbalanced⟩ := play_balanced h
      rw [← hsubs] at hissued
      obtain ⟨ev, hev, hsub⟩ := List.mem_filterMap.1 hissued
      obtain ⟨b, hb, hcalled⟩ := List.mem_flatMap.1 hev
      obtain ⟨after, hexec⟩ := hexecuted b hb
      rw [filledOf_eq hbalanced.table]
      cases ev with
      | carried other run => cases hsub
      | withdrawn other => cases hsub
      | submitted idx other wanted run =>
        cases hsub
        rw [← NaiveFill.fills_whole hexec hcalled]
        exact le_filledIn hev
  · intro log s h
    exact Setup.play_ordersAccounted (idle_realistic config feed strategy)
      RealisticFill.fillsWithin h

end Models

open SmallMarket in
/-- The resting buy of the dip is filled in part, and rests for the other part. -/
theorem orders_accounted_dip : ∃ log s,
    (Setup.realistic (ReferenceBook ObOrderId) (config .Realistic) dipFeed
      (⟨restAndTake, []⟩ : Script)).play 3 = .ok (log, s) ∧ OrdersAccounted log s.engine := by
  obtain ⟨⟨log, s⟩, h⟩ := exists_eq_ok (r := (Setup.realistic (ReferenceBook ObOrderId)
    (config .Realistic) dipFeed (⟨restAndTake, []⟩ : Script)).play 3) (by decide +kernel)
  exact ⟨log, s, h, (orders_accounted _ _ _ 3).2 log s h⟩

end IronCondor
