import IronCondor.Engine.Correlation
import IronCondor.Engine.Registry
import IronCondor.Execution.Naive
import IronCondor.Lib.Pointwise

/-! # Fill models that trade orders on their own side

A fill model keeps resting orders under the ids the engine gave it. What it may produce for
them in one call is a law of the call; both shipped models obey it, whatever book they use. -/
namespace IronCondor

open Checked ExceptRun OrderBook RealisticFill

/-- What a call may produce, `before` and `after` being the orders the model keeps resting, each
with its contract and side. -/
structure FillLaw (before after : OrderId → ContractKey → Side → Prop) (snapshot : ChainSnapshot)
    (events : List OrderEvent) : Prop where
  stamped : ∀ ev ∈ events, ∀ fill ∈ ev.fills, fill.step = snapshot.step
  carried : ∀ orderId run, .carried orderId run ∈ events → ∀ fill ∈ run,
    ∃ contract, before orderId contract fill.side
  submitted : ∀ idx orderId intent run, .submitted idx orderId intent run ∈ events →
    ∀ fill ∈ run, fill.side = intent.side ∧ fill.contract = intent.contract
  kept : ∀ orderId contract side, after orderId contract side → before orderId contract side ∨
    ∃ intent, (orderId, intent) ∈ events.filterMap OrderEvent.submission? ∧
      intent.contract = contract ∧ intent.side = side

/-- A fill model with the orders it keeps resting. -/
class TrackingModel (X : Type) [ExecutionModel X] where
  resting : X → OrderId → ContractKey → Side → Prop
  fill_lawful {m m' : X} {cmds : List OrderCommand} {submitIds : List OrderId}
    {snapshot : ChainSnapshot} {fills : List Fill} {events : List OrderEvent}
    (hfill : ExecutionModel.fill m cmds submitIds snapshot = .ok (m', fills))
    (hevents : correlate cmds fills (ExecutionModel.fillGroups m') (ExecutionModel.carryFills m')
      submitIds = .ok events) : FillLaw (resting m) (resting m') snapshot events

section Naive

variable [DecimalArith] {m : NaiveFill} {snapshot : ChainSnapshot} {fills : List Fill}
  {submitIds : List OrderId}

/-- The intent of a plain submit. -/
def OrderCommand.submit? : OrderCommand → Option OrderIntent
  | Submit intent => some intent
  | _ => none

omit [DecimalArith] in
theorem submits_sublist (cmds : List OrderCommand) :
    (cmds.filterMap OrderCommand.submit?).Sublist (cmds.filterMap OrderCommand.intent?) := by
  induction cmds with
  | nil => exact .slnil
  | cons cmd cmds ih =>
    cases cmd with
    | Submit intent => exact ih.cons_cons intent
    | Cancel orderId => exact ih
    | Replace orderId replacement => exact ih.cons replacement

/-- The naive model fills each submit, in order. -/
theorem naive_fills {cmds : List OrderCommand} {out : List Fill}
    (h : cmds.foldlM (m.fillCommand snapshot) out = .ok fills) :
    ∃ mine, fills = out ++ mine ∧
      List.Forall₂ (fun intent f => m.fillIntent intent snapshot = .ok f)
        (cmds.filterMap OrderCommand.submit?) mine := by
  induction cmds generalizing out with
  | nil =>
    cases foldlM_nil_ok.1 h
    exact ⟨[], by simp, .nil⟩
  | cons cmd cmds ih =>
    obtain ⟨mid, hcmd, h⟩ := foldlM_cons_ok.1 h
    obtain ⟨mine, rfl, hall⟩ := ih h
    cases cmd with
    | Submit intent =>
      simp only [NaiveFill.fillCommand, bind_ok_iff, pure_ok_iff] at hcmd
      obtain ⟨f, hf, rfl⟩ := hcmd
      exact ⟨f :: mine, by simp, .cons hf hall⟩
    | Cancel orderId =>
      cases hcmd
      exact ⟨mine, rfl, hall⟩
    | Replace orderId replacement =>
      cases hcmd
      exact ⟨mine, rfl, hall⟩

omit [DecimalArith] in
/-- Without groups every submitting command takes one fill. -/
theorem walkEvents_ungrouped {R : OrderIntent → Fill → Prop} {entries : List (OrderCommand × Nat)}
    {c c' : Cursor} {events : List OrderEvent} (hgroups : c.groups = none)
    (h : walkEvents fills submitIds c entries = .ok (events, c')) :
    c'.cursor = c.cursor + (entries.filterMap fun e => e.1.intent?).length ∧
      (List.Forall₂ R (entries.filterMap fun e => e.1.intent?) (fills.drop c.cursor) →
        ∀ ev ∈ events, (∃ orderId, ev = .withdrawn orderId) ∨
          ∃ idx orderId intent f, ev = .submitted idx orderId intent [f] ∧ R intent f) := by
  induction entries generalizing c events with
  | nil =>
    cases h
    exact ⟨rfl, fun _ => List.forall_mem_nil _⟩
  | cons entry entries ih =>
    simp only [walkEvents, bind_ok_iff, pure_ok_iff, Prod.exists, Prod.mk.injEq] at h
    obtain ⟨mine, mid, hmine, rest, _, hrest, rfl, rfl⟩ := h
    have hwith : ∀ ev ∈ withdrawals entry.1, ∃ orderId, ev = .withdrawn orderId := by
      unfold withdrawals
      cases entry.1.target? <;> simp
    unfold commandEvents at hmine
    cases hintent : entry.1.intent? with
    | none =>
      rw [hintent] at hmine
      cases hmine
      obtain ⟨hcursor, hall⟩ := ih hgroups hrest
      refine ⟨by simpa [hintent] using hcursor, fun hR => List.forall_mem_append.2
        ⟨fun ev hev => .inl (hwith ev hev), hall (by simpa [hintent] using hR)⟩⟩
    | some intent =>
      rw [hintent] at hmine
      simp only [Cursor.next, Cursor.takeCount, hgroups, bind_ok_iff, okOr_eq_ok, pure_ok_iff,
        Prod.exists, Prod.mk.injEq] at hmine
      obtain ⟨orderId, _, _, ⟨_, -, run, hrun, rfl, rfl, rfl⟩, rfl, rfl⟩ := hmine
      obtain ⟨hcursor, hall⟩ := ih rfl hrest
      have hcons : (entry :: entries).filterMap (fun e => e.1.intent?) =
          intent :: entries.filterMap fun e => e.1.intent? := by simp [hintent]
      rw [hcons]
      refine ⟨?_, fun hR => ?_⟩
      · rw [hcursor, List.length_cons, Nat.add_assoc, Nat.add_comm 1]
      obtain ⟨f, later, hf, hlater, hdrop⟩ := List.forall₂_cons_left_iff.1 hR
      obtain rfl : run = [f] := by
        unfold fillRun at hrun
        split_ifs at hrun
        rw [hdrop] at hrun
        exact (Option.some.inj hrun).symm
      refine List.forall_mem_append.2 ⟨List.forall_mem_append.2 ⟨fun ev hev => .inl (hwith ev hev),
        List.forall_mem_singleton.2 (.inr ⟨_, _, _, f, rfl, hf⟩)⟩, hall ?_⟩
      rw [← List.drop_drop, hdrop]
      exact hlater

/-- In naive mode every event is the full fill of a submit, or a withdrawal. -/
theorem naive_events {cmds : List OrderCommand} {events : List OrderEvent} {m' : NaiveFill}
    (hfill : ExecutionModel.fill m cmds submitIds snapshot = .ok (m', fills))
    (hevents : correlate cmds fills (ExecutionModel.fillGroups m') (ExecutionModel.carryFills m')
      submitIds = .ok events) :
    ∀ ev ∈ events, (∃ orderId, ev = .withdrawn orderId) ∨
      ∃ idx orderId intent f, ev = .submitted idx orderId intent [f] ∧
        m.fillIntent intent snapshot = .ok f := by
  obtain ⟨out, hfold, h⟩ := bind_ok_iff.1 hfill
  cases h
  obtain ⟨mine, rfl, hall⟩ := naive_fills hfold
  obtain ⟨carried, walked, stop, c, rfl, hcarried, hwalked, hdone⟩ := correlate_eq_ok hevents
  cases hcarried
  obtain ⟨hcursor, hwalk⟩ := walkEvents_ungrouped
    (R := fun intent f => m.fillIntent intent snapshot = .ok f) rfl hwalked
  have hmap : cmds.zipIdx.filterMap (fun e => e.1.intent?) = cmds.filterMap (·.intent?) := by
    conv_rhs => rw [← List.zipIdx_map_fst 0 cmds, List.filterMap_map]
    rfl
  rw [hmap] at hcursor hwalk
  -- a replace would take a fill that no command produced
  have hplain : cmds.filterMap OrderCommand.submit? = cmds.filterMap (·.intent?) := by
    refine (submits_sublist cmds).eq_of_length ?_
    rw [hall.length_eq, ← hdone, hcursor, Nat.zero_add]
  rw [List.nil_append]
  exact hwalk (by rw [← hplain]; exact hall)

/-- Nothing rests in naive mode. -/
instance : TrackingModel NaiveFill where
  resting _ _ _ _ := False
  fill_lawful hfill hevents := by
    have hnaive := naive_events hfill hevents
    refine ⟨fun ev hev fill hf => ?_, fun orderId run hev => ?_,
      fun idx orderId intent run hev fill hf => ?_, fun _ _ _ h => h.elim⟩
    · rcases hnaive ev hev with ⟨_, rfl⟩ | ⟨_, _, _, f, rfl, hfilled⟩
      · cases hf
      · rw [List.mem_singleton.1 hf]
        exact (NaiveFill.fillIntent_eq_ok hfilled).1
    · rcases hnaive _ hev with ⟨_, h⟩ | ⟨_, _, _, _, h, -⟩ <;> cases h
    · rcases hnaive _ hev with ⟨_, h⟩ | ⟨_, _, _, f, h, hfilled⟩
      · cases h
      · cases h
        rw [List.mem_singleton.1 hf]
        obtain ⟨-, -, hcontract, hside, -⟩ := NaiveFill.fillIntent_eq_ok hfilled
        exact ⟨hside, hcontract⟩

end Naive

section Realistic

variable {B : Type} {m m' : RealisticFill B} {snap : ChainSnapshot} {cmds : List OrderCommand}
  {submitIds : List OrderId}

/-- A refresh fill belongs to an order tracked before it, trades on that order's side, and
leaves no new order tracked. -/
theorem captureTrade_tracks {contract : ContractKey} {tick : PriceCents}
    {out out' : List (OrderId × Fill)} {trade : Trade ObOrderId}
    (h : captureTrade contract tick snap (m, out) trade = .ok (m', out')) :
    (∀ orderId c side, m'.Tracks orderId c side → m.Tracks orderId c side) ∧
      ∃ carried : Option (OrderId × Fill), out' = out ++ carried.toList ∧
        ∀ e ∈ carried, e.2.step = snap.step ∧ ∃ c, m.Tracks e.1 c e.2.side := by
  obtain ⟨carried, hfill, rfl⟩ := captureTrade_eq_ok h
  rcases captureRefreshFill_cases hfill with ⟨rfl, rfl, -⟩ |
    ⟨seq, order, fill, groups, live, -, horder, rfl, hstep, -, -, hside, -, -, -, -, rfl⟩
  · exact ⟨fun _ _ _ h => h, none, rfl, fun e he => absurd he (Option.not_mem_none e)⟩
  · refine ⟨?_, some (order.orderId, fill), rfl, ?_⟩
    · rintro orderId c side ⟨seq', order', h', rfl, rfl, rfl⟩
      have hsame : m.Tracks order.orderId order.contract order.side :=
        ⟨seq, order, horder, rfl, rfl, rfl⟩
      simp only [afterRefresh] at h'
      split_ifs at h'
      · rw [OrderedMap.getElem?_erase, OrderedMap.getElem?_insert] at h'
        split_ifs at h'
        exact ⟨seq', order', h', rfl, rfl, rfl⟩
      · rw [OrderedMap.getElem?_insert] at h'
        split_ifs at h'
        · cases h'
          exact hsame
        · exact ⟨seq', order', h', rfl, rfl, rfl⟩
    · rintro e he
      cases he
      exact ⟨hstep, order.contract, seq, order, horder, rfl, rfl, hside.symm⟩

variable [Book B ObOrderId]

theorem refreshBooks_tracks [DecimalArith] {carried : List (OrderId × Fill)}
    (h : m.refreshBooks snap = .ok (m', carried)) :
    (∀ orderId c side, m'.Tracks orderId c side → m.Tracks orderId c side) ∧
      ∀ e ∈ carried, e.2.step = snap.step ∧ ∃ c, m.Tracks e.1 c e.2.side := by
  refine refreshBooks_invariant
    (fun x out => (∀ orderId c side, x.Tracks orderId c side → m.Tracks orderId c side) ∧
      ∀ e ∈ out, e.2.step = snap.step ∧ ∃ c, m.Tracks e.1 c e.2.side) ?_ ?_ ?_ h
  · exact fun _ _ _ _ _ h => h
  · rintro x out contract tick trade x' out' ⟨hx, hout⟩ hcapture
    obtain ⟨hkept, carried, rfl, hcarried⟩ := captureTrade_tracks hcapture
    refine ⟨fun _ _ _ ht => hx _ _ _ (hkept _ _ _ ht), List.forall_mem_append.2 ⟨hout, ?_⟩⟩
    intro e he
    obtain ⟨hstep, c, ht⟩ := hcarried e (Option.mem_toList.1 he)
    exact ⟨hstep, c, hx _ _ _ ht⟩
  · exact ⟨fun _ _ _ h => h, List.forall_mem_nil _⟩

theorem cancelCommand_tracks {cmd : OrderCommand} (h : m.cancelCommand cmd = .ok m') :
    ∀ orderId c side, m'.Tracks orderId c side → m.Tracks orderId c side := by
  unfold cancelCommand at h
  split at h
  · rcases cancelResting_cases h with ⟨-, rfl⟩ | ⟨_, -, -, rfl⟩ | ⟨seq, _, _, _, -, -, -, rfl⟩
    · exact fun _ _ _ h => h
    · exact fun _ _ _ h => h
    · rintro orderId c side ⟨seq', order', h', hrest⟩
      simp only [afterCancel, OrderedMap.getElem?_erase] at h'
      split_ifs at h'
      exact ⟨seq', order', h', hrest⟩
  · cases h
    exact fun _ _ _ h => h

theorem fillSubmit_tracks {intent : OrderIntent} {orderId : OrderId} {fills : List Fill}
    (h : m.fillSubmit intent orderId snap = .ok (m', fills)) :
    (∀ oid c side, m'.Tracks oid c side → m.Tracks oid c side ∨
      (oid = orderId ∧ intent.contract = c ∧ intent.side = side)) ∧
      ∀ fill ∈ fills, fill.step = snap.step ∧ fill.side = intent.side ∧
        fill.contract = intent.contract := by
  obtain ⟨_, _, _, after, result, hsubmitted⟩ := fillSubmit_eq_ok h
  refine ⟨?_, Pointwise.forall_left hsubmitted.levels.flip fun fill trade hlevel =>
    ⟨hlevel.step, hlevel.side, hlevel.contract⟩⟩
  have htracked := hsubmitted.tracked
  rintro oid c side ⟨seq, order, horder, rfl, rfl, rfl⟩
  split_ifs at htracked
  · obtain ⟨live, rfl⟩ := trackResting_eq_ok htracked
    rw [OrderedMap.getElem?_insert] at horder
    split_ifs at horder
    · cases horder
      exact .inr ⟨rfl, rfl, rfl⟩
    · exact .inl ⟨seq, order, horder, rfl, rfl, rfl⟩
  · subst htracked
    exact .inl ⟨seq, order, horder, rfl, rfl, rfl⟩

/-- The submit phase: only routed orders become tracked, and every fill shows its intent. -/
theorem routeCommands_tracks {entries : List (OrderCommand × Nat)} {r r' : Routing B}
    (h : entries.foldlM (routeCommand submitIds snap) r = .ok r') :
    ∃ routed, r'.routed = r.routed ++ routed ∧
      (∀ oid c side, r'.model.Tracks oid c side → r.model.Tracks oid c side ∨
        ∃ run ∈ routed, run.orderId = oid ∧ run.intent.contract = c ∧ run.intent.side = side) ∧
      ∀ run ∈ routed, ∀ fill ∈ run.fills, fill.step = snap.step ∧ fill.side = run.intent.side ∧
        fill.contract = run.intent.contract := by
  induction entries generalizing r with
  | nil =>
    obtain rfl := foldlM_nil_ok.1 h
    exact ⟨[], by simp, fun _ _ _ h => .inl h, List.forall_mem_nil _⟩
  | cons entry entries ih =>
    obtain ⟨mid, hmid, h⟩ := foldlM_cons_ok.1 h
    obtain ⟨routed, hrouted, htracks, hfills⟩ := ih h
    rcases routeCommand_cases hmid with ⟨-, rfl⟩ |
      ⟨intent, orderId, m₁, fills, -, -, hsubmit, hr, -, hmodel⟩
    · exact ⟨routed, hrouted, htracks, hfills⟩
    obtain ⟨hkept, hmine⟩ := fillSubmit_tracks hsubmit
    have hmid : ∀ oid c side, mid.model.Tracks oid c side → m₁.Tracks oid c side := by
      rcases hmodel with ⟨-, hm⟩ | ⟨_, -, -, hm⟩ <;> rw [hm] <;> exact fun _ _ _ h => h
    refine ⟨⟨entry.2, orderId, intent, fills⟩ :: routed, ?_, ?_, List.forall_mem_cons.2 ⟨hmine, hfills⟩⟩
    · rw [hrouted, hr, List.append_assoc, List.singleton_append]
    · intro oid c side ht
      rcases htracks oid c side ht with ht | ⟨run, hrun, hfacts⟩
      · rcases hkept oid c side (hmid oid c side ht) with ht | ⟨rfl, hc, hs⟩
        · exact .inl ht
        · exact .inr ⟨_, List.mem_cons_self, rfl, hc, hs⟩
      · exact .inr ⟨run, List.mem_cons_of_mem _ hrun, hfacts⟩

theorem mem_carryRuns {carried : List (OrderId × Fill)} {run : OrderId × List Fill}
    (hrun : run ∈ carryRuns carried) {fill : Fill} (hfill : fill ∈ run.2) :
    (run.1, fill) ∈ carried := by
  rw [← runFills_carryRuns carried]
  exact List.mem_flatMap.2 ⟨run, hrun, List.mem_map_of_mem hfill⟩

/-- The events of an attribution are its carried runs, its routed commands, and withdrawals. -/
theorem mem_attribution_events {a : Attribution} {ev : OrderEvent}
    [DecimalArith] (h : m.fillAttributed cmds submitIds snap = .ok (m', a))
    (hev : ev ∈ a.events cmds) :
    (∃ run ∈ carryRuns a.carried, ev = .carried run.1 run.2) ∨
      (∃ run ∈ a.routed, ev = .submitted run.commandIndex run.orderId run.intent run.fills) ∨
      ∃ orderId, ev = .withdrawn orderId := by
  have hrouted := (Attribution.events_routed h).1
  cases ev with
  | carried orderId run =>
    rcases List.mem_append.1 hev with hev | hev
    · obtain ⟨r, hr, he⟩ := List.mem_map.1 hev
      exact .inl ⟨r, hr, he.symm⟩
    · obtain ⟨-, haligned⟩ := fillAttributed_described h
      have hnone := haligned.routedEvents.2
      have hmem : (orderId, run) ∈ (routedEvents cmds.zipIdx a.routed).filterMap
          OrderEvent.carried? := List.mem_filterMap.2 ⟨_, hev, rfl⟩
      rw [hnone] at hmem
      cases hmem
  | withdrawn orderId => exact .inr (.inr ⟨orderId, rfl⟩)
  | submitted idx orderId intent run =>
    have hmem : (⟨idx, orderId, intent, run⟩ : RoutedFills) ∈ a.routed :=
      hrouted ▸ List.mem_filterMap.2 ⟨_, hev, rfl⟩
    exact .inr (.inl ⟨_, hmem, rfl⟩)

theorem mem_attribution_routed {a : Attribution} {run : RoutedFills}
    [DecimalArith] (h : m.fillAttributed cmds submitIds snap = .ok (m', a)) (hrun : run ∈ a.routed) :
    .submitted run.commandIndex run.orderId run.intent run.fills ∈ a.events cmds := by
  rw [← (Attribution.events_routed h).1] at hrun
  obtain ⟨ev, hev, heq⟩ := List.mem_filterMap.1 hrun
  cases ev with
  | carried _ _ => cases heq
  | withdrawn _ => cases heq
  | submitted _ _ _ _ =>
    cases heq
    exact hev

instance [DecimalArith] : TrackingModel (RealisticFill B) where
  resting m := m.Tracks
  fill_lawful {m m' cmds submitIds snapshot fills events} hfill hevents := by
    obtain ⟨⟨m₁, a⟩, ha, hfills⟩ := bind_ok_iff.1 hfill
    cases hfills
    cases hevents.symm.trans (fillAttributed_correlate ha)
    have hattributed := ha
    simp only [fillAttributed, bind_ok_iff, pure_ok_iff, Prod.exists, Prod.mk.injEq] at ha
    obtain ⟨m₂, carried, hrefresh, m₃, hcancel, r, hroute, rfl, rfl⟩ := ha
    obtain ⟨hkept₂, hcarried⟩ := refreshBooks_tracks hrefresh
    have hkept₃ : ∀ oid c side, m₃.Tracks oid c side → m₂.Tracks oid c side :=
      foldlM_invariant (fun x => ∀ oid c side, x.Tracks oid c side → m₂.Tracks oid c side)
        (fun x cmd y hx hy oid c side ht => hx oid c side (cancelCommand_tracks hy oid c side ht))
        (fun _ _ _ h => h) hcancel
    obtain ⟨routed, hr, htracks, hrouted⟩ := routeCommands_tracks hroute
    rw [List.nil_append] at hr
    subst hr
    refine ⟨fun ev hev fill hf => ?_, fun orderId run hev fill hf => ?_,
      fun idx orderId intent run hev fill hf => ?_, fun orderId c side ht => ?_⟩
    · rcases mem_attribution_events hattributed hev with ⟨run, hrun, rfl⟩ | ⟨run, hrun, rfl⟩ |
        ⟨_, rfl⟩
      · exact (hcarried _ (mem_carryRuns hrun hf)).1
      · exact (hrouted run hrun fill hf).1
      · cases hf
    · rcases mem_attribution_events hattributed hev with ⟨r, hrun, heq⟩ | ⟨_, -, heq⟩ |
        ⟨_, heq⟩ <;> cases heq
      exact (hcarried _ (mem_carryRuns hrun hf)).2
    · rcases mem_attribution_events hattributed hev with ⟨_, -, heq⟩ | ⟨r, hrun, heq⟩ |
        ⟨_, heq⟩ <;> cases heq
      exact (hrouted r hrun fill hf).2
    · rcases htracks orderId c side ht with ht | ⟨run, hrun, rfl, hc, hs⟩
      · exact .inl (hkept₂ _ _ _ (hkept₃ _ _ _ ht))
      · exact .inr ⟨run.intent, List.mem_filterMap.2
          ⟨_, mem_attribution_routed hattributed hrun, rfl⟩, hc, hs⟩

end Realistic

end IronCondor
