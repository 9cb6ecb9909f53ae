import IronCondor.Data.SmallMarket
import IronCondor.Engine.Events
import IronCondor.Execution.RealisticSteps
import IronCondor.Lib.ReferenceBook

/-! # The realistic model and the engine agree on whose fill is whose

The model processes the refresh, then all cancels, then all submits, and describes its fills by
two channels of counts. The engine walks the commands in the strategy's order and reads the
counts back. Both attribute every fill to the same order. -/
namespace IronCondor

open Checked ExceptRun OrderBook RealisticFill

variable {B : Type}

section Runs

/-- Consecutive carried fills of one order form one run. -/
def pushRun (runs : List (OrderId × List Fill)) (carried : OrderId × Fill) :
    List (OrderId × List Fill) :=
  match runs.getLast? with
  | some last =>
    if last.1 = carried.1 then runs.dropLast ++ [(last.1, last.2 ++ [carried.2])]
    else runs ++ [(carried.1, [carried.2])]
  | none => runs ++ [(carried.1, [carried.2])]

def carryRuns (carried : List (OrderId × Fill)) : List (OrderId × List Fill) :=
  carried.foldl pushRun []

/-- The fills of some runs, each with its order. -/
def runFills (runs : List (OrderId × List Fill)) : List (OrderId × Fill) :=
  runs.flatMap fun run => run.2.map (run.1, ·)

theorem runFills_pushRun (runs : List (OrderId × List Fill)) (carried : OrderId × Fill) :
    runFills (pushRun runs carried) = runFills runs ++ [carried] := by
  unfold pushRun runFills
  rcases List.eq_nil_or_concat runs with rfl | ⟨init, last, rfl⟩
  · simp
  · by_cases h : last.1 = carried.1 <;> simp [h]

theorem runFills_carryRuns (carried : List (OrderId × Fill)) :
    runFills (carryRuns carried) = carried := by
  unfold carryRuns
  induction carried using List.reverseRecOn with
  | nil => rfl
  | append_singleton carried last ih =>
    rw [List.foldl_append, List.foldl_cons, List.foldl_nil, runFills_pushRun, ih]

/-- The groups count the runs: the same orders, the same lengths. -/
def Counts (groups : List CarryGroup) (runs : List (OrderId × List Fill)) : Prop :=
  groups.map (fun g => (g.orderId, g.fillCount.value)) =
    runs.map fun run => (run.1, (run.2.length : Int))

theorem pushCarry_counts {groups groups' : List CarryGroup} {runs : List (OrderId × List Fill)}
    {carried : OrderId × Fill} (hcounts : Counts groups runs)
    (h : pushCarry groups carried.1 = .ok groups') : Counts groups' (pushRun runs carried) := by
  unfold Counts at hcounts ⊢
  unfold pushCarry at h
  unfold pushRun
  have hlast := congrArg List.getLast? hcounts
  rw [List.getLast?_map, List.getLast?_map] at hlast
  rcases hg : groups.getLast? with _ | group
  · have hr : runs.getLast? = none := by simpa [hg] using hlast.symm
    rw [hg] at h
    cases h
    simp [hr, hcounts]
  · rw [hg, Option.map_some] at hlast
    obtain ⟨run, hr, hkey⟩ := Option.map_eq_some_iff.1 hlast.symm
    simp only [Prod.mk.injEq] at hkey
    simp only [hg, ← hkey.1] at h
    simp only [hr]
    split_ifs at h ⊢ with hsame
    · simp only [bind_ok_iff, narrow_eq_ok, pure_ok_iff] at h
      obtain ⟨count, hcount, rfl⟩ := h
      have hinit := congrArg List.dropLast hcounts
      rw [← List.map_dropLast, ← List.map_dropLast] at hinit
      simp [hinit, hcount, hkey]
    · cases h
      simp [hcounts]

theorem fillRun_append (before run rest : List Fill) :
    fillRun (before ++ run ++ rest) before.length run.length = some run := by
  unfold fillRun
  rw [if_pos (by simp), List.append_assoc, List.drop_left, List.take_left]

/-- The carried prefix of the flat list, read back by the groups. -/
theorem carryEvents_of_counts {groups : List CarryGroup} {runs : List (OrderId × List Fill)}
    (before rest : List Fill) (hcounts : Counts groups runs) :
    carryEvents (before ++ runs.flatMap Prod.snd ++ rest) before.length groups =
      .ok (runs.map fun run => .carried run.1 run.2,
        (before ++ runs.flatMap Prod.snd).length) := by
  induction runs generalizing groups before with
  | nil =>
    obtain rfl : groups = [] := by simpa [Counts] using hcounts
    simp [carryEvents]
  | cons run runs ih =>
    obtain ⟨group, groups, rfl⟩ : ∃ g gs, groups = g :: gs := by
      cases groups with
      | nil => simp [Counts] at hcounts
      | cons g gs => exact ⟨g, gs, rfl⟩
    simp only [Counts, List.map_cons, List.cons.injEq, Prod.mk.injEq] at hcounts
    obtain ⟨⟨hid, hcount⟩, htail⟩ := hcounts
    have hlen : group.fillCount.value.toNat = run.2.length := by omega
    have hrun := fillRun_append before run.2 (runs.flatMap Prod.snd ++ rest)
    have hrest := ih (before ++ run.2) htail
    rw [List.append_assoc, ← List.append_assoc run.2, ← List.flatMap_cons] at hrun
    simp only [List.append_assoc, List.flatMap_cons, List.length_append] at hrun hrest ⊢
    simp [carryEvents, hlen, hrun, hrest, hid, okOr]

theorem Counts.total {groups : List CarryGroup} {runs : List (OrderId × List Fill)}
    (h : Counts groups runs) : carryTotal groups = (runFills runs).length := by
  have hcounts := congrArg (List.map fun key : OrderId × Int => key.2.toNat) h
  rw [List.map_map, List.map_map] at hcounts
  unfold carryTotal runFills
  rw [List.length_flatMap]
  exact congrArg List.sum (hcounts.trans (by simp [Function.comp_def]))

end Runs

section Routing

variable {submitIds : List OrderId} {snap : ChainSnapshot}

/-- The groups a list of routed commands is described by: one for every command that filled. -/
inductive Aligned :
    List (OrderCommand × Nat) → List OrderId → List FillGroup → List RoutedFills → Prop
  | done (ids : List OrderId) : Aligned [] ids [] []
  | cancel {cmd idx entries ids groups routed} (hintent : cmd.intent? = none)
      (rest : Aligned entries ids groups routed) : Aligned ((cmd, idx) :: entries) ids groups routed
  | silent {cmd idx entries orderId ids groups intent routed} (hintent : cmd.intent? = some intent)
      (rest : Aligned entries ids groups routed) :
      Aligned ((cmd, idx) :: entries) (orderId :: ids) groups (⟨idx, orderId, intent, []⟩ :: routed)
  | filled {cmd idx entries orderId ids groups intent fills routed} {count : Bounded u32}
      (hintent : cmd.intent? = some intent) (hcount : count.value = fills.length)
      (hfills : fills ≠ []) (rest : Aligned entries ids groups routed) :
      Aligned ((cmd, idx) :: entries) (orderId :: ids) (⟨idx, count⟩ :: groups)
        (⟨idx, orderId, intent, fills⟩ :: routed)

/-- The order events of the routed commands, in the strategy's order. -/
def routedEvents : List (OrderCommand × Nat) → List RoutedFills → List OrderEvent
  | [], _ => []
  | (cmd, _) :: entries, routed =>
    match cmd.intent?, routed with
    | some _, run :: routed =>
      withdrawals cmd ++ .submitted run.commandIndex run.orderId run.intent run.fills ::
        routedEvents entries routed
    | _, routed => withdrawals cmd ++ routedEvents entries routed

theorem Aligned.index_mem {entries : List (OrderCommand × Nat)} {ids : List OrderId}
    {groups : List FillGroup} {routed : List RoutedFills}
    (h : Aligned entries ids groups routed) :
    ∀ group ∈ groups, group.commandIndex ∈ entries.map Prod.snd := by
  induction h with
  | done => nofun
  | cancel _ _ ih => exact fun g hg => List.mem_cons_of_mem _ (ih g hg)
  | silent _ _ ih => exact fun g hg => List.mem_cons_of_mem _ (ih g hg)
  | filled _ _ _ _ ih =>
    exact List.forall_mem_cons.2 ⟨List.mem_cons_self, fun g hg => List.mem_cons_of_mem _ (ih g hg)⟩

/-- Every routed command keeps its own index and intent and takes the ids in order. -/
theorem Aligned.origin {entries : List (OrderCommand × Nat)} {ids : List OrderId}
    {groups : List FillGroup} {routed : List RoutedFills}
    (h : Aligned entries ids groups routed) :
    routed.map (fun r => (r.commandIndex, r.intent)) =
        entries.filterMap (fun e => e.1.intent?.map (e.2, ·)) ∧
      routed.map RoutedFills.orderId = ids.take routed.length := by
  induction h with
  | done => simp
  | cancel hintent _ ih => simpa [hintent] using ih
  | silent hintent _ ih => simpa [hintent] using ih
  | filled hintent _ _ _ ih => simpa [hintent] using ih

theorem Aligned.total {entries : List (OrderCommand × Nat)} {ids : List OrderId}
    {groups : List FillGroup} {routed : List RoutedFills}
    (h : Aligned entries ids groups routed) :
    (groups.map fun g => g.fillCount.value.toNat).sum =
      (routed.flatMap RoutedFills.fills).length := by
  induction h with
  | done => rfl
  | cancel _ _ ih => exact ih
  | silent _ _ ih => simpa using ih
  | filled _ hcount _ _ ih => simp [ih, hcount]

/-- A submitted event read back as a routed command. -/
def OrderEvent.routed? : OrderEvent → Option RoutedFills
  | submitted idx orderId intent run => some ⟨idx, orderId, intent, run⟩
  | _ => none

theorem Aligned.routedEvents {entries : List (OrderCommand × Nat)} {ids : List OrderId}
    {groups : List FillGroup} {routed : List RoutedFills}
    (h : Aligned entries ids groups routed) :
    (routedEvents entries routed).filterMap OrderEvent.routed? = routed ∧
      (IronCondor.routedEvents entries routed).filterMap OrderEvent.carried? = [] := by
  have hwith (cmd : OrderCommand) :
      (withdrawals cmd).filterMap OrderEvent.routed? = [] ∧
        (withdrawals cmd).filterMap OrderEvent.carried? = [] := by
    unfold withdrawals
    cases cmd.target? <;> exact ⟨rfl, rfl⟩
  induction h with
  | done => exact ⟨rfl, rfl⟩
  | @cancel cmd _ _ _ _ _ hintent _ ih =>
    simpa [IronCondor.routedEvents, hintent, (hwith cmd).1, (hwith cmd).2] using ih
  | @silent cmd _ _ _ _ _ _ _ hintent _ ih =>
    simpa [IronCondor.routedEvents, hintent, (hwith cmd).1, (hwith cmd).2, OrderEvent.routed?,
      OrderEvent.carried?] using ih
  | @filled cmd _ _ _ _ _ _ _ _ _ hintent _ _ _ ih =>
    simpa [IronCondor.routedEvents, hintent, (hwith cmd).1, (hwith cmd).2, OrderEvent.routed?,
      OrderEvent.carried?] using ih

/-- A command that filled nothing does not take the group of a later one. -/
theorem takeCount_silent {groups : List FillGroup} {cursor ordinal idx : Nat}
    (hlater : ∀ group ∈ groups, idx < group.commandIndex) :
    Cursor.takeCount ⟨cursor, some groups, ordinal⟩ idx = (0, some groups) := by
  cases groups with
  | nil => rfl
  | cons group groups =>
    have hne : group.commandIndex ≠ idx := (hlater group List.mem_cons_self).ne'
    simp [Cursor.takeCount, hne]

theorem drop_eq_cons {ordinal : Nat} {orderId : OrderId} {ids : List OrderId}
    (h : submitIds.drop ordinal = orderId :: ids) :
    submitIds[ordinal]? = some orderId ∧ submitIds.drop (ordinal + 1) = ids := by
  refine ⟨?_, ?_⟩
  · rw [← List.head?_drop, h, List.head?_cons]
  · rw [← List.tail_drop, h, List.tail_cons]

/-- A submitting command whose run has the announced length takes exactly that run. -/
theorem Cursor.next_of_count (before run rest : List Fill) {groups : Option (List FillGroup)}
    {ordinal idx : Nat} {orderId : OrderId} {c : Cursor} (hcursor : c.cursor = before.length)
    (hordinal : c.submitOrdinal = ordinal) (hid : submitIds[ordinal]? = some orderId)
    (hcount : c.takeCount idx = (run.length, groups)) :
    c.next (before ++ run ++ rest) submitIds idx =
      .ok (orderId, run, ⟨(before ++ run).length, groups, ordinal + 1⟩) := by
  have hrun := fillRun_append before run rest
  simp only [Cursor.next, hcursor, hordinal, hid, hcount, hrun, okOr, ok_bind, List.length_append]
  rfl

/-- The walk reads an aligned description back as the routed commands' own events. -/
theorem walkEvents_of_aligned {entries : List (OrderCommand × Nat)} {ids : List OrderId}
    {groups : List FillGroup} {routed : List RoutedFills} (before : List Fill) {ordinal : Nat}
    (h : Aligned entries ids groups routed) (hids : submitIds.drop ordinal = ids)
    (horder : (entries.map Prod.snd).Pairwise (· < ·)) :
    walkEvents (before ++ routed.flatMap RoutedFills.fills) submitIds
        ⟨before.length, some groups, ordinal⟩ entries =
      .ok (routedEvents entries routed,
        ⟨(before ++ routed.flatMap RoutedFills.fills).length, some [],
          ordinal + routed.length⟩) := by
  induction h generalizing before ordinal with
  | done => simp [walkEvents, routedEvents]
  | cancel hintent rest ih =>
    have htail := ih before hids (List.pairwise_cons.1 horder).2
    simp [walkEvents, commandEvents, hintent, htail, routedEvents]
  | @silent cmd idx entries orderId ids groups intent routed hintent rest ih =>
    obtain ⟨hfirst, hlater⟩ := List.pairwise_cons.1 horder
    obtain ⟨hid, hids⟩ := drop_eq_cons hids
    have hcount : Cursor.takeCount ⟨before.length, some groups, ordinal⟩ idx = (0, some groups) :=
      takeCount_silent fun group hgroup => hfirst _ (rest.index_mem group hgroup)
    have hnext := Cursor.next_of_count before [] (routed.flatMap RoutedFills.fills) rfl rfl hid
      hcount
    have htail := ih before hids hlater
    simp only [List.append_nil] at hnext
    simp [walkEvents, commandEvents, hintent, hnext, htail, routedEvents, Nat.add_assoc,
      Nat.add_comm 1]
  | @filled cmd idx entries orderId ids groups intent fills routed count hintent hlen hfills rest
      ih =>
    obtain ⟨-, hlater⟩ := List.pairwise_cons.1 horder
    obtain ⟨hid, hids⟩ := drop_eq_cons hids
    have hcount : Cursor.takeCount ⟨before.length, some (⟨idx, count⟩ :: groups), ordinal⟩ idx =
        (fills.length, some groups) := by
      simp [Cursor.takeCount, hlen]
    have hnext := Cursor.next_of_count before fills (routed.flatMap RoutedFills.fills) rfl rfl hid
      hcount
    have htail := ih (before ++ fills) hids hlater
    rw [List.append_assoc] at hnext
    rw [List.append_assoc] at htail
    have hmine : commandEvents (before ++ (fills ++ routed.flatMap RoutedFills.fills)) submitIds
        ⟨before.length, some (⟨idx, count⟩ :: groups), ordinal⟩ (cmd, idx) =
          .ok (withdrawals cmd ++ [.submitted idx orderId intent fills],
            ⟨(before ++ fills).length, some groups, ordinal + 1⟩) := by
      simp only [commandEvents, hintent, hnext, ok_bind]
      rfl
    rw [List.flatMap_cons, walkEvents, hmine, ok_bind]
    simp only [htail, ok_bind, routedEvents, hintent, List.append_assoc, List.length_cons]
    rw [Nat.add_comm routed.length 1, ← Nat.add_assoc]
    rfl

section Model

variable [Book B ObOrderId]

theorem routeCommand_cases {r r' : Routing B} {cmd : OrderCommand} {idx : Nat}
    (h : routeCommand submitIds snap r (cmd, idx) = .ok r') :
    (cmd.intent? = none ∧ r' = r) ∨
    ∃ intent orderId m fills, cmd.intent? = some intent ∧
      submitIds[r.nextSubmitId]? = some orderId ∧
      r.model.fillSubmit intent orderId snap = .ok (m, fills) ∧
      r'.routed = r.routed ++ [⟨idx, orderId, intent, fills⟩] ∧
      r'.nextSubmitId = r.nextSubmitId + 1 ∧
      ((fills = [] ∧ r'.model = m) ∨ ∃ count : Bounded u32, fills ≠ [] ∧
        count.value = fills.length ∧
        r'.model = { m with fillGroups := m.fillGroups ++ [⟨idx, count⟩] }) := by
  unfold routeCommand at h
  split at h
  · rename_i hintent
    cases h
    exact .inl ⟨hintent, rfl⟩
  · rename_i intent hintent
    simp only [bind_ok_iff, okOr_eq_ok, Prod.exists] at h
    obtain ⟨orderId, hid, m, fills, hsubmit, h⟩ := h
    refine .inr ⟨intent, orderId, m, fills, hintent, hid, hsubmit, ?_⟩
    split_ifs at h with hpos
    · simp only [bind_ok_iff, narrow_eq_ok, pure_ok_iff] at h
      obtain ⟨count, hcount, rfl⟩ := h
      exact ⟨rfl, rfl, .inr ⟨count, List.length_pos_iff.1 hpos, hcount, rfl⟩⟩
    · cases h
      exact ⟨rfl, rfl, .inl ⟨List.length_eq_zero_iff.1 (by omega), rfl⟩⟩

/-- The submit phase describes what it routed. -/
theorem routeCommands_aligned {entries : List (OrderCommand × Nat)} {r r' : Routing B}
    (h : entries.foldlM (routeCommand submitIds snap) r = .ok r') :
    ∃ groups routed, Aligned entries (submitIds.drop r.nextSubmitId) groups routed ∧
      r'.routed = r.routed ++ routed ∧
      r'.model.fillGroups = r.model.fillGroups ++ groups ∧
      r'.model.carryGroups = r.model.carryGroups := by
  induction entries generalizing r with
  | nil =>
    obtain rfl := foldlM_nil_ok.1 h
    exact ⟨[], [], .done _, by simp, by simp, rfl⟩
  | cons entry entries ih =>
    obtain ⟨mid, hmid, h⟩ := foldlM_cons_ok.1 h
    obtain ⟨groups, routed, haligned, hrouted, hgroups, hcarry⟩ := ih h
    rcases entry with ⟨cmd, idx⟩
    rcases routeCommand_cases hmid with ⟨hintent, rfl⟩ |
      ⟨intent, orderId, m, fills, hintent, hid, hsubmit, hr, hnext, hmodel⟩
    · exact ⟨groups, routed, .cancel hintent haligned, hrouted, hgroups, hcarry⟩
    obtain ⟨_, _, _, _, _, hsubmitted⟩ := fillSubmit_eq_ok hsubmit
    obtain ⟨hfg, hcg, -⟩ := hsubmitted.frame
    obtain ⟨hlt, rfl⟩ := List.getElem?_eq_some_iff.1 hid
    rw [List.drop_eq_getElem_cons hlt]
    rw [hnext] at haligned
    rcases hmodel with ⟨rfl, hm⟩ | ⟨count, hne, hcount, hm⟩
    · refine ⟨groups, _, .silent hintent haligned, ?_, ?_, ?_⟩
      · rw [hrouted, hr, List.append_assoc, List.singleton_append]
      · rw [hgroups, hm, hfg]
      · rw [hcarry, hm, hcg]
    · refine ⟨_, _, .filled hintent hcount hne haligned, ?_, ?_, ?_⟩
      · rw [hrouted, hr, List.append_assoc, List.singleton_append]
      · rw [hgroups, hm, List.append_assoc, List.singleton_append, hfg]
      · rw [hcarry, hm, hcg]

/-- The refresh describes what it carried. -/
theorem refreshBooks_counts [DecimalArith] {m m' : RealisticFill B}
    {carried : List (OrderId × Fill)} (hclear : m.carryGroups = [])
    (h : m.refreshBooks snap = .ok (m', carried)) :
    Counts m'.carryGroups (carryRuns carried) ∧ m'.fillGroups = m.fillGroups := by
  refine refreshBooks_invariant
    (fun x out => Counts x.carryGroups (carryRuns out) ∧ x.fillGroups = m.fillGroups) ?_ ?_ ?_ h
  · exact fun _ _ _ _ _ h => h
  · intro x out contract tick trade x' out' ⟨hcounts, hfg⟩ hcapture
    obtain ⟨carried, hfill, rfl⟩ := captureTrade_eq_ok hcapture
    rcases captureRefreshFill_cases hfill with ⟨rfl, rfl, -⟩ |
      ⟨_, order, fill, groups, _, -, -, rfl, -, -, -, -, -, -, -, hpush, rfl⟩
    · rw [Option.toList_none, List.append_nil]
      exact ⟨hcounts, hfg⟩
    · refine ⟨?_, hfg⟩
      simp only [carryRuns, Option.toList_some, List.foldl_append, List.foldl_cons,
        List.foldl_nil]
      exact pushCarry_counts hcounts hpush
  · rw [hclear]
    exact ⟨rfl, rfl⟩

end Model

end Routing

section Attribution

/-- The engine's reading of what one call produced: the carried runs, then the commands in the
strategy's order. -/
def RealisticFill.Attribution.events (a : Attribution) (cmds : List OrderCommand) : List OrderEvent :=
  ((carryRuns a.carried).map fun run => .carried run.1 run.2) ++ routedEvents cmds.zipIdx a.routed

variable [Book B ObOrderId] [DecimalArith] {m m' : RealisticFill B} {cmds : List OrderCommand}
  {submitIds : List OrderId} {snap : ChainSnapshot} {a : Attribution}

/-- The two channels of a successful call describe its attribution. -/
theorem fillAttributed_described (h : m.fillAttributed cmds submitIds snap = .ok (m', a)) :
    Counts m'.carryGroups (carryRuns a.carried) ∧
      Aligned cmds.zipIdx submitIds m'.fillGroups a.routed := by
  simp only [fillAttributed, bind_ok_iff, pure_ok_iff, Prod.exists, Prod.mk.injEq] at h
  obtain ⟨m₁, carried, hrefresh, m₂, hcancel, r, hroute, rfl, rfl⟩ := h
  obtain ⟨hcounts, hclear⟩ := refreshBooks_counts rfl hrefresh
  have hkept : m₂.fillGroups = m₁.fillGroups ∧ m₂.carryGroups = m₁.carryGroups := by
    refine foldlM_invariant (fun x => x.fillGroups = m₁.fillGroups ∧ x.carryGroups = m₁.carryGroups)
      ?_ ⟨rfl, rfl⟩ hcancel
    intro x cmd y hx hy
    obtain ⟨hfg, hcg, -⟩ := cancelCommand_frame hy
    exact ⟨hfg.trans hx.1, hcg.trans hx.2⟩
  obtain ⟨groups, routed, haligned, hrouted, hgroups, hcarry⟩ := routeCommands_aligned hroute
  rw [hkept.1, hclear, List.nil_append] at hgroups
  rw [List.nil_append] at hrouted
  rw [hcarry, hkept.2, hgroups, hrouted]
  exact ⟨hcounts, haligned⟩

theorem fillAttributed_correlate (h : m.fillAttributed cmds submitIds snap = .ok (m', a)) :
    correlate cmds a.fills (some m'.fillGroups) m'.carryGroups submitIds = .ok (a.events cmds) := by
  obtain ⟨hcounts, haligned⟩ := fillAttributed_described h
  have hprefix : (carryRuns a.carried).flatMap Prod.snd = a.carried.map Prod.snd := by
    conv_rhs => rw [← runFills_carryRuns a.carried]
    simp [runFills, List.map_flatMap, Function.comp_def]
  have hcarry := carryEvents_of_counts [] (a.routed.flatMap RoutedFills.fills) hcounts
  rw [List.nil_append, hprefix] at hcarry
  have hsorted : (cmds.zipIdx.map Prod.snd).Pairwise (· < ·) := by
    rw [List.zipIdx_map_snd]
    exact List.pairwise_lt_range'
  have hwalk := walkEvents_of_aligned (a.carried.map Prod.snd) haligned (List.drop_zero ..) hsorted
  simp only [correlate, Attribution.fills, Attribution.events]
  refine bind_ok_iff.2 ⟨_, hcarry, bind_ok_iff.2 ⟨_, hwalk, bind_ok_iff.2 ⟨(), ?_, rfl⟩⟩⟩
  exact require_eq_ok.2 ⟨rfl, rfl⟩

theorem Attribution.events_routed (h : m.fillAttributed cmds submitIds snap = .ok (m', a)) :
    (a.events cmds).filterMap OrderEvent.routed? = a.routed ∧
      runFills ((a.events cmds).filterMap OrderEvent.carried?) = a.carried := by
  obtain ⟨-, haligned⟩ := fillAttributed_described h
  obtain ⟨hrouted, hnone⟩ := haligned.routedEvents
  have hcarried : ((carryRuns a.carried).map fun run => OrderEvent.carried run.1 run.2).filterMap
      OrderEvent.carried? = carryRuns a.carried := by
    simp [List.filterMap_map, Function.comp_def, OrderEvent.carried?]
  have hprefix : ((carryRuns a.carried).map fun run => OrderEvent.carried run.1 run.2).filterMap
      OrderEvent.routed? = [] := by
    simp [List.filterMap_map, Function.comp_def, OrderEvent.routed?]
  simp only [Attribution.events, List.filterMap_append, hcarried, hprefix, hrouted, hnone,
    List.append_nil, List.nil_append, runFills_carryRuns, and_self]

end Attribution

end IronCondor
