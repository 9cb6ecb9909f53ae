import IronCondor.Engine.Remaining

/-! # Replacing a resting order

A replace withdraws what the refresh of the same call has left of its target, and submits its
replacement in full. -/
namespace IronCondor

open Checked ExceptRun OrderBook RealisticFill

section Refresh

/-- What an event refreshes of an order. -/
def OrderEvent.refreshed (orderId : OrderId) : OrderEvent → Int
  | carried other run => if other = orderId then totalQuantity run else 0
  | _ => 0

/-- What the refresh of a call fills of an order. -/
def refreshed (orderId : OrderId) (events : List OrderEvent) : Int :=
  (events.map (OrderEvent.refreshed orderId)).sum

variable {pending pending' : Std.TreeMap OrderId PendingEntry} {ev : OrderEvent}
  {orderId : OrderId}

theorem remainingOf_getD_nonneg (orderId : OrderId) : 0 ≤ (remainingOf pending orderId).getD 0 := by
  unfold remainingOf
  cases pending[orderId]? with
  | none => exact le_rfl
  | some entry => exact entry.remaining.pos.le

/-- One event refreshes no more of an order than it takes from what remains of it. -/
theorem RegistryStep.refreshed_le (h : RegistryStep pending pending' ev)
    (hold : ∀ sub, ev.submission? = some sub → sub.1 ≠ orderId) :
    ev.refreshed orderId + (remainingOf pending' orderId).getD 0 ≤
      (remainingOf pending orderId).getD 0 := by
  by_cases hid : ev.orderId = orderId
  · subst hid
    have hnonneg : 0 ≤ (remainingOf pending ev.orderId).getD 0 := remainingOf_getD_nonneg _
    cases ev with
    | carried other run =>
      obtain ⟨entry, hentry, ⟨hall, rfl⟩ | ⟨left, rfl, hleft, -⟩⟩ := h
      · simp [OrderEvent.refreshed, OrderEvent.orderId, remainingOf, hentry, hall]
      · simp [OrderEvent.refreshed, OrderEvent.orderId, remainingOf, hentry, hleft]
    | withdrawn other =>
      obtain rfl := h
      simpa [OrderEvent.refreshed, OrderEvent.orderId, remainingOf] using hnonneg
    | submitted idx other intent run => exact absurd rfl (hold _ rfl)
  · have hslot : remainingOf pending' orderId = remainingOf pending orderId := by
      rw [h.remaining]
      exact Keyed.act_of_ne (Ne.symm hid)
    have hnone : ev.refreshed orderId = 0 := by
      cases ev with
      | carried other run => exact if_neg hid
      | withdrawn other => rfl
      | submitted idx other intent run => rfl
    rw [hslot, hnone, zero_add]

variable {X : Type} [ExecutionModel X] {b : Batch X} {after : EngineState}

/-- A call refreshes no more of a resting order than what remains of it. -/
theorem Batch.Executed.refreshed_le (h : b.Executed after) (hold : orderId ∉ b.submitIds) :
    refreshed orderId b.events + (remainingOf after.pending orderId).getD 0 ≤
      (remainingOf b.before.pending orderId).getD 0 := by
  obtain ⟨ids, -, hstart⟩ := h.minted
  obtain ⟨trade, hfold⟩ := h.applied
  have hpending : b.start.pending = b.before.pending := by rw [hstart]
  rw [← hpending]
  refine foldlM_invariant_at (fun done s => refreshed orderId done +
    (remainingOf s.engine.pending orderId).getD 0 ≤ (remainingOf b.start.pending orderId).getD 0)
    (by simp [refreshed]) ?_ hfold
  intro done ev rest s t hsplit hs ht
  have hev : ev ∈ b.events := by
    rw [hsplit]
    exact List.mem_append_right _ List.mem_cons_self
  have hstep : ev.refreshed orderId + _ ≤ _ := (applyEvent_registry ht).1.refreshed_le <| by
    rintro sub hsub rfl
    exact hold (List.of_mem_zip (h.submission_mem hev hsub)).1
  have hsum : refreshed orderId (done ++ [ev]) = refreshed orderId done + ev.refreshed orderId := by
    simp [refreshed]
  omega

theorem refreshed_nonneg (orderId : OrderId) (events : List OrderEvent) :
    0 ≤ refreshed orderId events := by
  refine List.sum_nonneg (List.forall_mem_map.2 fun ev _ => ?_)
  cases ev with
  | carried other run =>
    change 0 ≤ if other = orderId then totalQuantity run else 0
    split_ifs
    · exact totalQuantity_nonneg run
    · exact le_rfl
  | withdrawn other => exact le_rfl
  | submitted idx other intent run => exact le_rfl

/-- An order withdrawn in a call, and not submitted in it, does not rest after it. -/
theorem Batch.Executed.withdrawn_gone (h : b.Executed after) (hold : orderId ∉ b.submitIds)
    (hev : .withdrawn orderId ∈ b.events) : remainingOf after.pending orderId = none := by
  obtain ⟨done, rest, hsplit⟩ := List.append_of_mem hev
  rw [h.remaining, hsplit, List.foldl_append, List.foldl_cons]
  refine Keyed.foldl_fixed (fun ev hmem hid => ?_) (Keyed.act_self _ _)
  cases ev with
  | carried other run => rfl
  | withdrawn other => rfl
  | submitted idx other intent run =>
    have hin : .submitted idx other intent run ∈ b.events := by
      rw [hsplit]
      exact List.mem_append_right _ (List.mem_cons_of_mem _ hmem)
    exact absurd (hid ▸ (List.of_mem_zip (h.submission_mem hin rfl)).1) hold

end Refresh

section Submits

variable {B : Type} [Book B ObOrderId] [ConservesQuantity B] {m m' : RealisticFill B}
  {snap : ChainSnapshot} {submitIds : List OrderId}

/-- A routed intent fills no more than its quantity. -/
theorem fillSubmit_le {intent : OrderIntent} {orderId : OrderId} {fills : List Fill}
    (h : m.fillSubmit intent orderId snap = .ok (m', fills)) :
    totalQuantity fills ≤ intent.quantity.value := by
  obtain ⟨_, _, before, after, result, hsubmitted⟩ := fillSubmit_eq_ok h
  obtain ⟨book, hadd, -⟩ := hsubmitted.matched
  have hconserved := ConservesQuantity.addLimit_conserves hadd
  have htotal := hsubmitted.totalQuantity_eq
  have hpos := intent.quantity.pos
  omega

/-- No routed command of a call fills more than its intent asks for. -/
theorem fillAttributed_le [DecimalArith] {cmds : List OrderCommand} {a : Attribution}
    (h : m.fillAttributed cmds submitIds snap = .ok (m', a)) :
    ∀ run ∈ a.routed, totalQuantity run.fills ≤ run.intent.quantity.value := by
  simp only [fillAttributed, bind_ok_iff, pure_ok_iff, Prod.exists, Prod.mk.injEq] at h
  obtain ⟨_, _, -, _, -, r, hroute, rfl, rfl⟩ := h
  refine foldlM_invariant (fun r : Routing B => ∀ run ∈ r.routed,
    totalQuantity run.fills ≤ run.intent.quantity.value) ?_ (List.forall_mem_nil _) hroute
  rintro r ⟨cmd, idx⟩ r' hr hstep
  rcases routeCommand_cases hstep with ⟨-, rfl⟩ | ⟨intent, orderId, m₁, fills, -, -, hsubmit, hrouted, -⟩
  · exact hr
  · rw [hrouted]
    exact List.forall_mem_append.2 ⟨hr, List.forall_mem_singleton.2 (fillSubmit_le hsubmit)⟩

end Submits

section Replace

/-- A replace fills no more than one order would: what the refresh fills of its target and what
its replacement fills are together within the larger of the two sizes. -/
def Batch.ReplacesAsOne {X : Type} [ExecutionModel X] (b : Batch X) : Prop :=
  ∀ target replacement i, (.Replace target replacement, i) ∈ b.cmds.zipIdx →
    ∀ resting, remainingOf b.before.pending target = some resting →
      ∀ orderId intent run, .submitted i orderId intent run ∈ b.events →
        refreshed target b.events + totalQuantity run ≤ max resting replacement.quantity.value

variable {B : Type} [DecimalArith] [Book B ObOrderId]

/-- What a replace does, the command being the `i`th of its call: its target rested at the start,
the refresh fills no more of it than rested, and it is gone; its replacement is submitted in full
whatever the refresh filled. -/
structure Batch.Replaced (b : Batch (RealisticFill B)) (target : OrderId)
    (replacement : OrderIntent) (i : Nat) (resting : Int) : Prop where
  rested : remainingOf b.before.pending target = some resting
  refreshed_le : refreshed target b.events ≤ resting
  gone : b.modelAfter.orderIndex[target]? = none
  submitted : ∃ orderId run, .submitted i orderId replacement run ∈ b.events
  submitted_le : ∀ orderId intent run, .submitted i orderId intent run ∈ b.events →
    intent = replacement ∧ totalQuantity run ≤ replacement.quantity.value

variable {log : List (Batch (RealisticFill B))} {b : Batch (RealisticFill B)}
  {after : EngineState} {target : OrderId} {replacement : OrderIntent} {i : Nat}

theorem Batch.Replaced.within {resting : Int} (h : b.Replaced target replacement i resting)
    {orderId : OrderId} {intent : OrderIntent} {run : List Fill}
    (hev : .submitted i orderId intent run ∈ b.events) :
    refreshed target b.events + totalQuantity run ≤ resting + replacement.quantity.value ∧
      (refreshed target b.events = 0 →
        refreshed target b.events + totalQuantity run ≤ max resting replacement.quantity.value) := by
  obtain ⟨-, hle⟩ := h.submitted_le orderId intent run hev
  refine ⟨add_le_add h.refreshed_le hle, fun hnone => ?_⟩
  rw [hnone, zero_add]
  exact hle.trans (le_max_right _ _)

/-- The indices of the routed commands are distinct, and each is its own command's. -/
theorem Attribution.routed_of_command {m m' : RealisticFill B} {cmds : List OrderCommand}
    {submitIds : List OrderId} {snap : ChainSnapshot} {a : Attribution}
    (h : m.fillAttributed cmds submitIds snap = .ok (m', a)) {cmd : OrderCommand}
    (hcmd : (cmd, i) ∈ cmds.zipIdx) (hintent : cmd.intent? = some replacement) :
    (∃ run ∈ a.routed, run.commandIndex = i ∧ run.intent = replacement) ∧
      ∀ run ∈ a.routed, run.commandIndex = i → run.intent = replacement := by
  obtain ⟨-, haligned⟩ := fillAttributed_described h
  have horigin := haligned.origin.1
  constructor
  · have hmem : (i, replacement) ∈ a.routed.map fun r => (r.commandIndex, r.intent) := by
      rw [horigin]
      exact List.mem_filterMap.2 ⟨(cmd, i), hcmd, by simp [hintent]⟩
    obtain ⟨run, hrun, heq⟩ := List.mem_map.1 hmem
    exact ⟨run, hrun, (Prod.mk.inj heq).1, (Prod.mk.inj heq).2⟩
  · intro run hrun hidx
    have hmem : (run.commandIndex, run.intent) ∈
        a.routed.map fun r => (r.commandIndex, r.intent) := List.mem_map_of_mem hrun
    rw [horigin] at hmem
    obtain ⟨⟨other, j⟩, hother, heq⟩ := List.mem_filterMap.1 hmem
    obtain ⟨intent, hown, heq⟩ := Option.map_eq_some_iff.1 heq
    obtain ⟨hj, hrunIntent⟩ := Prod.mk.inj heq
    obtain rfl : j = i := hj.trans hidx
    rw [List.mem_zipIdx_iff_getElem?] at hcmd hother
    obtain rfl : other = cmd := Option.some.inj (hother.symm.trans hcmd)
    exact hrunIntent ▸ Option.some.inj (hown.symm.trans hintent)

variable [ConservesQuantity B]

/-- One call: every replace of a resting order withdraws it and submits its replacement. -/
theorem replaced_call (htracked : OrdersTracked log b.model b.before) (hm : b.model.Indexed)
    (hlive : b.model.liveOf = remainingOf b.before.pending) (hexec : b.Executed after)
    (hcmd : (.Replace target replacement, i) ∈ b.cmds.zipIdx) :
    ∃ resting, b.Replaced target replacement i resting := by
  obtain ⟨a, ha, -, hevents⟩ := hexec.attributed
  obtain ⟨⟨run, hrun, hidx, hintent⟩, hown⟩ := Attribution.routed_of_command ha hcmd rfl
  have hmem : .Replace target replacement ∈ b.cmds := List.fst_mem_of_mem_zipIdx hcmd
  obtain ⟨entry, hentry⟩ : ∃ entry, b.before.pending[target]? = some entry := by
    have hpre := require_eq_ok.1 (hexec.prevalidated _ hmem)
    rw [← Std.TreeMap.isSome_getElem?_eq_contains] at hpre
    exact Option.isSome_iff_exists.1 hpre
  have hrested : remainingOf b.before.pending target = some entry.remaining.value := by
    rw [remainingOf, hentry, Option.map_some]
  have hold : target ∉ b.submitIds := by
    intro hid
    rw [(htracked.toOrdersIssued.mints_new hexec).2 target hid] at hentry
    cases hentry
  have hwithdrawn : .withdrawn target ∈ b.events := by
    have hperm := (fillAttributed_described ha).2.perm
    rw [List.zipIdx_map_fst] at hperm
    rw [hevents, Attribution.events]
    refine List.mem_append_right _ (hperm.mem_iff.2 (List.mem_append_left _ ?_))
    exact List.mem_flatMap.2 ⟨_, hmem, List.mem_singleton_self _⟩
  refine ⟨entry.remaining.value, hrested, ?_, ?_, ?_, fun orderId intent run hev => ?_⟩
  · have hle := hexec.refreshed_le hold
    rw [hrested, hexec.withdrawn_gone hold hwithdrawn] at hle
    simpa using hle
  · obtain ⟨hindexed, hafter⟩ := remaining_call htracked hm hlive hexec
    rw [← hindexed.liveOf_eq_none, hafter]
    exact hexec.withdrawn_gone hold hwithdrawn
  · have hev := mem_attribution_routed ha hrun
    rw [hidx, hintent] at hev
    exact ⟨run.orderId, run.fills, hevents ▸ hev⟩
  · rw [hevents] at hev
    rcases mem_attribution_events ha hev with ⟨_, -, heq⟩ | ⟨routed, hrouted, heq⟩ | ⟨_, heq⟩
    · cases heq
    · cases heq
      have hsame := hown routed hrouted rfl
      refine ⟨hsame, ?_⟩
      rw [← hsame]
      exact fillAttributed_le ha routed hrouted
    · cases heq

end Replace

section Runs

variable {S R B : Type} [DecimalArith] [Book B ObOrderId] [ConservesQuantity B] [Strategy S R]
  [SeedableRng R]

/-- Replaces of a realistic run: every replace of a resting order takes the order out and submits
the replacement in full. What the refresh fills of the order and what the replacement fills are
each within their own size, and together within the larger one when the refresh fills nothing. -/
theorem replaces_by_parts (config : BacktestConfig) (feed : MaterialisedFeed) (strategy : S)
    (n : Nat) (log : List (Batch (RealisticFill B))) (s : RunState S (RealisticFill B) R)
    (h : (Setup.realistic B config feed strategy).play n = .ok (log, s)) :
    ∀ b ∈ log, ∀ target replacement i, (.Replace target replacement, i) ∈ b.cmds.zipIdx →
      ∃ resting, b.Replaced target replacement i resting ∧
        ∀ orderId intent run, .submitted i orderId intent run ∈ b.events →
          refreshed target b.events + totalQuantity run ≤ resting + replacement.quantity.value ∧
            (refreshed target b.events = 0 → refreshed target b.events + totalQuantity run ≤
              max resting replacement.quantity.value) := by
  suffices hrun : ∀ b ∈ log, ∀ target replacement i,
      (.Replace target replacement, i) ∈ b.cmds.zipIdx →
        ∃ resting, b.Replaced target replacement i resting by
    intro b hb target replacement i hcmd
    obtain ⟨resting, hreplaced⟩ := hrun b hb target replacement i hcmd
    exact ⟨resting, hreplaced, fun orderId intent run hev => hreplaced.within hev⟩
  refine (Setup.play_tracked (idle_realistic config feed strategy)
    (fun log x st => (x.Indexed ∧ x.liveOf = remainingOf st.pending) ∧
      ∀ b ∈ log, ∀ target replacement i, (.Replace target replacement, i) ∈ b.cmds.zipIdx →
        ∃ resting, b.Replaced target replacement i resting) ?_ ?_ ?_ h).2.2
  · exact fun initial _ => ⟨remaining_start config feed strategy initial, List.forall_mem_nil _⟩
  · rintro log b after ht ⟨⟨hi, hlive⟩, hlog⟩ hexec -
    refine ⟨remaining_call ht hi hlive hexec, List.forall_mem_append.2
      ⟨hlog, List.forall_mem_singleton.2 fun target replacement i hcmd => ?_⟩⟩
    exact replaced_call ht hi hlive hexec hcmd
  · rintro log x st snapshot isLast point st' ⟨⟨hi, hlive⟩, hlog⟩ hsettled
    rw [hsettled.books]
    exact ⟨⟨hi, hlive⟩, hlog⟩

end Runs

section Small

open SmallMarket

/-- Rest a buy of two at one hundred. -/
def restTwo : List OrderCommand :=
  [.Submit (order .Open .Long (lot 2) (some (lit 100)) .Gtc)]

/-- Buy one at the market. -/
def buyOne : OrderIntent := order .Open .Long (lot 1) none .Ioc

def firstOrder : OrderId := ⟨lit 1⟩

/-- Nothing on the first snapshot, and on the dip the first order is replaced by a buy of one. -/
def replaceFirst : List (List OrderCommand) := [[], [.Replace firstOrder buyOne]]

/-- The call of the dip: two of the order rest, and are refreshed; the replacement is filled. -/
def FillsBoth {B : Type} [DecimalArith] [Book B ObOrderId] (b : Batch (RealisticFill B)) : Prop :=
  b.cmds = [.Replace firstOrder buyOne] ∧ remainingOf b.before.pending firstOrder = some 2 ∧
    refreshed firstOrder b.events = 2 ∧ ∃ ev ∈ b.events, ev.routed?.map (fun run =>
      (run.commandIndex, run.intent, totalQuantity run.fills)) = some (0, buyOne, 1)

instance {B : Type} [DecimalArith] [Book B ObOrderId] (b : Batch (RealisticFill B)) :
    Decidable (FillsBoth b) := by
  unfold FillsBoth
  infer_instance

theorem FillsBoth.not_asOne {B : Type} [DecimalArith] [Book B ObOrderId]
    {b : Batch (RealisticFill B)} (h : FillsBoth b) : ¬ b.ReplacesAsOne := by
  obtain ⟨hcmds, hrested, hrefreshed, ev, hev, hrun⟩ := h
  intro hasOne
  cases ev with
  | carried orderId run => cases hrun
  | withdrawn orderId => cases hrun
  | submitted idx orderId intent run =>
    simp only [OrderEvent.routed?, Option.map_some, Option.some.injEq, Prod.mk.injEq] at hrun
    obtain ⟨rfl, rfl, hone⟩ := hrun
    have hle := hasOne firstOrder buyOne 0 (by rw [hcmds]; exact List.mem_singleton_self _) 2 hrested
      orderId buyOne run hev
    rw [hrefreshed, hone] at hle
    exact absurd hle (by decide)

/-- On the dip the refresh fills the whole order of two, and its replacement fills another one. -/
theorem replaces_by_parts_dip : ∃ log s,
    (Setup.realistic (ReferenceBook ObOrderId) (config .Realistic) dipFeed
      (⟨restTwo, replaceFirst⟩ : Script)).play 2 = .ok (log, s) ∧
      ∃ b ∈ log, b.Replaced firstOrder buyOne 0 2 := by
  obtain ⟨⟨log, s⟩, h, hcheck⟩ := exists_ok_of_check (r := (Setup.realistic
    (ReferenceBook ObOrderId) (config .Realistic) dipFeed
    (⟨restTwo, replaceFirst⟩ : Script)).play 2)
    (fun run => decide (∃ b ∈ run.1, FillsBoth b)) (by decide +kernel)
  obtain ⟨b, hb, hcmds, hrested, -⟩ := of_decide_eq_true hcheck
  obtain ⟨resting, hreplaced, -⟩ := replaces_by_parts _ _ _ 2 log s h b hb firstOrder buyOne 0
    (by rw [hcmds]; exact List.mem_singleton_self _)
  obtain rfl : resting = 2 := Option.some.inj (hreplaced.rested.symm.trans hrested)
  exact ⟨log, s, h, b, hb, hreplaced⟩

/-- There they fill three, more than the larger of the two sizes. -/
theorem replace_fills_both : ∃ log s,
    (Setup.realistic (ReferenceBook ObOrderId) (config .Realistic) dipFeed
      (⟨restTwo, replaceFirst⟩ : Script)).play 2 = .ok (log, s) ∧
      ∃ b ∈ log, FillsBoth b ∧ ¬ b.ReplacesAsOne := by
  obtain ⟨⟨log, s⟩, h, hcheck⟩ := exists_ok_of_check (r := (Setup.realistic
    (ReferenceBook ObOrderId) (config .Realistic) dipFeed
    (⟨restTwo, replaceFirst⟩ : Script)).play 2)
    (fun run => decide (∃ b ∈ run.1, FillsBoth b)) (by decide +kernel)
  obtain ⟨b, hb, hboth⟩ := of_decide_eq_true hcheck
  exact ⟨log, s, h, b, hb, hboth, hboth.not_asOne⟩

end Small

end IronCondor
