import IronCondor.Engine.Failures

/-! # The closes of a shipped strategy

The exits and the final hook write into one queue. What they leave in it is one close of the whole
leg for every leg that the policy triggers and, at the final step, for every other one: no leg is
closed twice. -/
namespace IronCondor

open Checked ExceptRun

section Queue

variable {R : Type} {snapshot : ChainSnapshot} {leg : OpenPosition} {legs : List OpenPosition}
  {out out' : List OrderCommand}

/-- The order that closes a leg whole. -/
def closeIntent (snapshot : ChainSnapshot) (leg : OpenPosition) : OrderIntent where
  contract := leg.contract
  action := .Close leg.positionId
  side := flipSide leg.side
  quantity := leg.quantity
  limit := none
  tif := .Ioc
  decisionMid := (snapshot.quotes[leg.contract]?.map QuoteView.mid).getD leg.entryPremium

theorem closeCommand_eq : closeCommand snapshot leg = .Submit (closeIntent snapshot leg) := rfl

/-- The underlying's price as a policy reads it. -/
def underlyingAmount (price : PriceCents) : Positive :=
  ⟨toDecimalDollars price, isNegative_toDecimalDollars price⟩

theorem positiveFromPrice_underlying (field : String) (price : PriceCents) :
    positiveFromPrice field price = .ok (underlyingAmount price) := by
  simp [positiveFromPrice, Positive.newDecimal, okOr, underlyingAmount]

variable [DecimalArith]

theorem daysToExpiry_notExecution (contract : ContractKey) (ts : SimTime) :
    FailsIn NotExecution (daysToExpiry contract ts) := by
  refine .bind (expirationNs_notExecution contract) fun expiry _ => ?_
  dsimp only
  split_ifs
  · exact .pure _
  · exact .bind (.okOr fun _ => nofun) fun days _ => .okOr fun _ => nofun

variable [ExitChecks]

/-- The policy asks for a leg to be closed. -/
def triggers (exit : ExitPolicy) (snapshot : ChainSnapshot)
    (marks : Std.TreeMap ContractKey PriceCents) (leg : OpenPosition) : Bool :=
  (daysToExpiry leg.contract snapshot.ts).toOption.any fun daysLeft =>
    policyTriggered (toDecimalDollars leg.entryPremium) (currentPremium snapshot marks leg)
      snapshot.step.value.toNat daysLeft (underlyingAmount snapshot.underlyingPrice)
      (decide (leg.side = .Long)) exit

variable {exit : ExitPolicy} {ctx : ChainContext R}

theorem exitLeg_eq_ok (hstep : ctx.step = ctx.snapshot.step)
    (h : exitLeg exit ctx (underlyingAmount ctx.snapshot.underlyingPrice) out leg = .ok out') :
    out' = out ++ if triggers exit ctx.snapshot ctx.marks leg then
      [closeCommand ctx.snapshot leg] else [] := by
  obtain ⟨daysLeft, hdays, h⟩ := bind_ok_iff.1 h
  simp only [triggers, hdays, Except.toOption, Option.any_some, ← hstep]
  dsimp only at h
  split_ifs at h ⊢ with htrigger <;> cases h <;> simp

/-- The exits append one close for every leg that the policy triggers. -/
theorem evaluateExits_eq_ok (hstep : ctx.step = ctx.snapshot.step)
    (h : evaluateExits exit ctx out = .ok out') :
    out' = out ++ (ctx.openLegs.filter (triggers exit ctx.snapshot ctx.marks)).map
      (closeCommand ctx.snapshot) := by
  simp only [evaluateExits, positiveFromPrice_underlying, ok_bind] at h
  have hlog := foldlM_log (fun out => out) _ (fun _ _ _ h => exitLeg_eq_ok hstep h) h
  rw [hlog]
  congr 1
  induction ctx.openLegs with
  | nil => rfl
  | cons leg legs ih =>
    rw [List.flatMap_cons, ih, List.filter_cons]
    split_ifs <;> simp

theorem evaluateExits_notExecution : FailsIn NotExecution (evaluateExits exit ctx out) := by
  simp only [evaluateExits, positiveFromPrice_underlying, ok_bind]
  refine .foldlM_each fun out leg _ => .bind (daysToExpiry_notExecution _ _) fun daysLeft _ => ?_
  dsimp only
  split_ifs <;> exact .pure _

end Queue

section FinalCloses

variable {snapshot : ChainSnapshot} {legs closed : List OpenPosition} {out : List OrderCommand}

/-- What is scheduled for a leg is what the closes of that leg add up to. -/
theorem scheduledCloseQty_closes {total : Bounded u32} {positionId : PositionId}
    (h : scheduledCloseQty (closed.map (closeCommand snapshot)) positionId = .ok total) :
    total.value =
      (closed.map fun leg =>
        if leg.positionId = positionId then leg.quantity.value else 0).sum := by
  rw [scheduledCloseQty, List.foldlM_map] at h
  rw [foldlM_sum (fun total : Bounded u32 => total.value)
    (fun leg => if leg.positionId = positionId then leg.quantity.value else 0) ?_ h, zero_add]
  intro total leg total' hadd
  simp only [closeCommand, closeCommandQty, addCoverage, coverage?,
    PositionAction.Close.injEq] at hadd
  split_ifs at hadd ⊢ with hleg
  · exact narrow_eq_ok.1 hadd
  · cases hadd
    simp

/-- A leg that the queue closes is not closed again, and one that it does not close is closed
whole. -/
theorem closeRemaining_eq_ok {leg : OpenPosition}
    (hclosed : leg.positionId ∈ legIds closed → leg ∈ closed)
    (h : closeRemaining [] snapshot (closed.map (closeCommand snapshot)) leg = .ok out) :
    out = (closed ++ if leg.positionId ∈ legIds closed then [] else [leg]).map
      (closeCommand snapshot) := by
  simp only [closeRemaining, List.foldlM_nil, bind_ok_iff, pure_ok_iff] at h
  obtain ⟨scheduled, hscheduled, _, rfl, h⟩ := h
  have hsum := scheduledCloseQty_closes hscheduled
  by_cases hmem : leg.positionId ∈ legIds closed
  · have hle : leg.quantity.value ≤ scheduled.value := by
      rw [hsum]
      refine List.single_le_sum ?_ _ (List.mem_map.2 ⟨leg, hclosed hmem, if_pos rfl⟩)
      intro x hx
      obtain ⟨other, -, rfl⟩ := List.mem_map.1 hx
      split_ifs
      · exact other.quantity.pos.le
      · exact le_rfl
    rw [if_pos hle] at h
    cases h
    simp [hmem]
  · have hzero : scheduled.value = 0 := by
      rw [hsum]
      refine List.sum_eq_zero fun x hx => ?_
      obtain ⟨other, hother, rfl⟩ := List.mem_map.1 hx
      rw [if_neg]
      intro heq
      rw [← heq] at hmem
      exact hmem (List.mem_map_of_mem hother)
    have hpos := leg.quantity.pos
    rw [if_neg (by omega)] at h
    simp only [bind_ok_iff, narrow_eq_ok, Quantity.new_eq_ok, pure_ok_iff] at h
    obtain ⟨remaining, hremaining, quantity, hquantity, rfl⟩ := h
    obtain rfl : quantity = leg.quantity := Quantity.ext (by omega)
    simp [hmem, closeCommand]

/-- The final closes append one close for every leg that the queue does not close yet. -/
theorem closeAll_eq_ok (hnodup : (legIds legs).Nodup)
    (hclosed : ∀ leg ∈ legs, leg.positionId ∈ legIds closed → leg ∈ closed)
    (h : closeAll legs [] snapshot (closed.map (closeCommand snapshot)) = .ok out) :
    out = (closed ++ legs.filter fun leg => leg.positionId ∉ legIds closed).map
      (closeCommand snapshot) := by
  unfold closeAll at h
  induction legs generalizing closed with
  | nil =>
    cases foldlM_nil_ok.1 h
    simp
  | cons leg legs ih =>
    obtain ⟨mid, hmid, h⟩ := foldlM_cons_ok.1 h
    obtain ⟨hnot, hrest⟩ := List.nodup_cons.1 hnodup
    obtain ⟨hfirst, hlater⟩ := List.forall_mem_cons.1 hclosed
    rw [closeRemaining_eq_ok hfirst hmid] at h
    by_cases hmem : leg.positionId ∈ legIds closed
    · rw [if_pos hmem, List.append_nil] at h
      rw [ih hrest hlater h, List.filter_cons_of_neg (by simpa using hmem)]
    · rw [if_neg hmem] at h
      -- the legs still to come carry other ids
      have hother : ∀ other ∈ legs, other.positionId ∈ legIds (closed ++ [leg]) ↔
          other.positionId ∈ legIds closed := by
        intro other hin
        have hne : other.positionId ≠ leg.positionId := fun heq =>
          hnot (heq ▸ List.mem_map_of_mem hin)
        simp [legIds, hne]
      rw [ih hrest (fun other hin hmem => List.mem_append_left _
        (hlater other hin ((hother other hin).1 hmem))) h,
        List.filter_cons_of_pos (by simpa using hmem), List.append_assoc, List.singleton_append]
      congr 3
      exact List.filter_congr fun other hin => by simp only [hother other hin]

theorem addCoverage_notExecution (positionId : PositionId) (total : Bounded u32)
    (intent : OrderIntent) : FailsIn NotExecution (addCoverage positionId total intent) := by
  unfold addCoverage
  split
  · exact checked_notExecution _
  · exact .ok _

theorem closeAll_notExecution {pending : List PendingOrder} :
    FailsIn NotExecution (closeAll legs pending snapshot out) := by
  refine .foldlM_each fun out leg _ => .bind ?_ fun _ _ => .bind ?_ fun scheduled _ => ?_
  · refine .foldlM_each fun total cmd _ => ?_
    cases cmd with
    | Submit intent => exact addCoverage_notExecution _ _ _
    | Cancel orderId => exact .ok _
    | Replace orderId replacement => exact .ok _
  · exact .foldlM_each fun total pend _ => addCoverage_notExecution _ _ _
  · split_ifs <;> simp

end FinalCloses

section Collection

variable {S : Type} [PositionableStrategy S] [DecimalArith] [ExitChecks] {R X : Type}

/-- The legs a step closes: those that the policy triggers and, at the final step, the others. -/
def closing (exit : ExitPolicy) (snapshot : ChainSnapshot)
    (marks : Std.TreeMap ContractKey PriceCents) (openLegs : List OpenPosition) (isLast : Bool) :
    List OpenPosition :=
  let due := openLegs.filter (triggers exit snapshot marks)
  if isLast then due ++ openLegs.filter fun leg => leg.positionId ∉ legIds due else due

variable {exit : ExitPolicy} {snapshot : ChainSnapshot}
  {marks : Std.TreeMap ContractKey PriceCents} {openLegs : List OpenPosition} {isLast : Bool}

omit [PositionableStrategy S] [DecimalArith] [ExitChecks] in
/-- Among distinct ids, a leg whose id is kept is kept itself. -/
theorem mem_filter_of_id {p : OpenPosition → Bool} (hnodup : (legIds openLegs).Nodup) :
    ∀ leg ∈ openLegs, leg.positionId ∈ legIds (openLegs.filter p) → leg ∈ openLegs.filter p := by
  intro leg hleg hmem
  obtain ⟨other, hother, hid⟩ := List.mem_map.1 hmem
  have hin := (List.mem_filter.1 hother).1
  rwa [List.inj_on_of_nodup_map hnodup hin hleg hid] at hother

omit [PositionableStrategy S] in
/-- A leg is closed when the policy triggers it, or when the step is the final one. -/
theorem mem_closing (hnodup : (legIds openLegs).Nodup) {leg : OpenPosition} :
    leg ∈ closing exit snapshot marks openLegs isLast ↔
      leg ∈ openLegs ∧ (triggers exit snapshot marks leg = true ∨ isLast = true) := by
  unfold closing
  cases isLast with
  | false => simp
  | true =>
    simp only [if_true, List.mem_append, List.mem_filter, decide_eq_true_eq, or_true, and_true]
    constructor
    · rintro (h | h) <;> exact h.1
    · intro hleg
      by_cases htrigger : triggers exit snapshot marks leg = true
      · exact .inl ⟨hleg, htrigger⟩
      · refine .inr ⟨hleg, fun hmem => htrigger ?_⟩
        exact (List.mem_filter.1 (mem_filter_of_id hnodup leg hleg hmem)).2

omit [PositionableStrategy S] in
theorem closing_nodup (hnodup : (legIds openLegs).Nodup) :
    (legIds (closing exit snapshot marks openLegs isLast)).Nodup := by
  have hsub (p : OpenPosition → Bool) : (legIds (openLegs.filter p)).Nodup :=
    hnodup.sublist (List.filter_sublist.map _)
  unfold closing
  split_ifs
  · rw [legIds, List.map_append]
    refine (hsub _).append (hsub _) fun pid hdue hother => ?_
    obtain ⟨leg, hleg, rfl⟩ := List.mem_map.1 hother
    have hnot := (List.mem_filter.1 hleg).2
    exact of_decide_eq_true hnot hdue
  · exact hsub _

namespace ShippedStrategy

variable {s s' : ShippedStrategy S} {ctx : ChainContext R} {out out' : List OrderCommand}

/-- Nothing is left to be entered. -/
def Entered : ShippedStrategy S → Prop
  | .adapter a => a.entered = true ∨
      ∀ legs, PositionableStrategy.getPositions a.inner = .ok legs → legs = []
  | .legSet _ => True

omit [ExitChecks] in
theorem onSnapshot_eq_ok (he : s.Entered) (h : s.onSnapshot snapshot out = .ok (s', out')) :
    s' = s ∧ out' = out := by
  cases s with
  | legSet inner =>
    cases h
    exact ⟨rfl, rfl⟩
  | adapter a =>
    simp only [onSnapshot, openEntries, OptStratAdapter.openEntries, bind_ok_iff, Prod.exists,
      pure_ok_iff, Prod.mk.injEq] at h
    obtain ⟨a', _, h, rfl, rfl⟩ := h
    split_ifs at h with hentered
    · cases h
      exact ⟨rfl, rfl⟩
    · simp only [bind_ok_iff, strategyError_eq_ok, pure_ok_iff, Prod.mk.injEq] at h
      obtain ⟨legs, hlegs, _, hfold, rfl, rfl⟩ := h
      obtain rfl := he.resolve_left hentered legs hlegs
      cases foldlM_nil_ok.1 hfold
      exact ⟨by simp, rfl⟩

omit [ExitChecks] in
theorem onSnapshot_notExecution (he : s.Entered) :
    FailsIn NotExecution (s.onSnapshot snapshot out) := by
  cases s with
  | legSet inner => exact .ok _
  | adapter a =>
    refine .bind ?_ fun _ _ => .pure _
    unfold OptStratAdapter.openEntries
    split_ifs with hentered
    · exact .ok _
    · cases hlegs : PositionableStrategy.getPositions a.inner with
      | error e => exact .bind (.error nofun) fun _ _ => by simp_all [strategyError]
      | ok legs =>
        obtain rfl := he.resolve_left hentered legs hlegs
        simp [strategyError]

omit [PositionableStrategy S] in
/-- The exits append one close for every leg that the policy triggers, and change nothing. -/
theorem exits_eq_ok [PositionableStrategy S] (hstep : ctx.step = ctx.snapshot.step)
    (h : s.exits ctx out = .ok (s', out')) :
    s' = s ∧ out' = out ++ (ctx.openLegs.filter (triggers s.exit ctx.snapshot ctx.marks)).map
      (closeCommand ctx.snapshot) := by
  cases s with
  | legSet inner =>
    simp only [exits, LegSetStrategy.exits, bind_ok_iff, Prod.exists, pure_ok_iff,
      Prod.mk.injEq] at h
    obtain ⟨_, _, h, rfl, rfl⟩ := h
    split_ifs at h with hnone
    · cases h
      simp [hnone]
    · simp only [bind_ok_iff, pure_ok_iff, Prod.mk.injEq] at h
      obtain ⟨_, hout, rfl, rfl⟩ := h
      exact ⟨rfl, evaluateExits_eq_ok hstep hout⟩
  | adapter a =>
    simp only [exits, OptStratAdapter.exits, bind_ok_iff, Prod.exists, pure_ok_iff,
      Prod.mk.injEq] at h
    obtain ⟨_, _, h, rfl, rfl⟩ := h
    split_ifs at h with hnone
    · cases h
      simp [hnone]
    · rename_i hreads
      simp at hreads
    · simp only [bind_ok_iff, pure_ok_iff, Prod.mk.injEq] at h
      obtain ⟨_, rfl, _, hout, rfl, rfl⟩ := h
      exact ⟨rfl, evaluateExits_eq_ok hstep hout⟩

theorem exits_notExecution : FailsIn NotExecution (s.exits ctx out) := by
  cases s with
  | legSet inner =>
    refine .bind ?_ fun _ _ => .pure _
    unfold LegSetStrategy.exits
    split_ifs
    · exact .ok _
    · exact .bind evaluateExits_notExecution fun _ _ => .pure _
  | adapter a =>
    refine .bind ?_ fun _ _ => .pure _
    unfold OptStratAdapter.exits
    split_ifs with _ hreads
    · exact .ok _
    · simp at hreads
    · exact .bind (.pure _) fun _ _ => .bind evaluateExits_notExecution fun _ _ => .pure _

variable {ctx : ChainContext Unit} {rng : Unit}

omit [DecimalArith] [ExitChecks] in
theorem isClose_closeCommand (leg : OpenPosition) : isClose (closeCommand snapshot leg) = true := by
  simp [closeCommand_eq, isClose, closeIntent]

/-- An entered strategy hands the queue on as the exits left it. -/
theorem onSnapshot_hook (he : s.Entered)
    (h : Strategy.onSnapshot s ctx out = .ok (s', rng, out')) : s' = s ∧ out' = out := by
  simp only [Strategy.onSnapshot, bind_ok_iff, pure_ok_iff, Prod.exists, Prod.mk.injEq] at h
  obtain ⟨_, _, hentries, rfl, -, rfl⟩ := h
  exact onSnapshot_eq_ok he hentries

theorem onEnd_hook (h : Strategy.onEnd s ctx out = .ok (s', rng, out')) :
    s' = s ∧ closeAll ctx.openLegs ctx.pending ctx.snapshot out = .ok out' := by
  simp only [Strategy.onEnd, bind_ok_iff, pure_ok_iff, Prod.mk.injEq] at h
  obtain ⟨_, hclose, rfl, -, rfl⟩ := h
  exact ⟨rfl, hclose⟩

end ShippedStrategy

variable {s s' : RunState (ShippedStrategy S) X Unit} {cmds : List OrderCommand}
  {reasons : CloseReasons}

/-- Once entered, a strategy with nothing resting asks for the step's closes and nothing else. -/
theorem collectCommands_closing (he : s.strategy.Entered)
    (hpending : pendingView s.engine.pending = []) (hnodup : (legIds s.engine.inventory).Nodup)
    (h : s.collectCommands snapshot isLast = .ok (s', cmds, reasons)) :
    s'.strategy = s.strategy ∧ cmds = (closing s.strategy.exit snapshot s.engine.ledger.marks
      s.engine.inventory isLast).map (closeCommand snapshot) := by
  simp only [RunState.collectCommands, bind_ok_iff, Prod.exists, hpending] at h
  obtain ⟨clock, -, strategy, exits, hexits, strategy', rng, entries, hentries, h⟩ := h
  obtain ⟨rfl, rfl⟩ := ShippedStrategy.exits_eq_ok rfl hexits
  obtain ⟨rfl, rfl⟩ := ShippedStrategy.onSnapshot_hook he hentries
  cases isLast with
  | false =>
    simp only [Bool.false_eq_true, if_false, bind_ok_iff, pure_ok_iff, Prod.exists,
      Prod.mk.injEq] at h
    obtain ⟨_, _, ⟨rfl, rfl⟩, rfl, rfl, -⟩ := h
    exact ⟨rfl, by simp [closing, RunState.context]⟩
  | true =>
    simp only [if_true, bind_ok_iff, pure_ok_iff, Prod.exists, Prod.mk.injEq] at h
    obtain ⟨_, _, _, hend, _, -, _, _, ⟨rfl, rfl⟩, rfl, rfl, -⟩ := h
    obtain ⟨rfl, hclose⟩ := ShippedStrategy.onEnd_hook hend
    exact ⟨rfl, closeAll_eq_ok hnodup (mem_filter_of_id hnodup) hclose⟩

/-- Collecting them is refused by no hook. -/
theorem collectCommands_notExecution (he : s.strategy.Entered)
    (hpending : pendingView s.engine.pending = []) (hnodup : (legIds s.engine.inventory).Nodup) :
    FailsIn NotExecution (s.collectCommands snapshot isLast) := by
  simp only [RunState.collectCommands, hpending]
  refine .bind (SimClock.advanceTo_notExecution _ _ _) fun clock _ => ?_
  refine .bind ShippedStrategy.exits_notExecution fun exited hexits => ?_
  obtain ⟨hsame, hexits⟩ := ShippedStrategy.exits_eq_ok rfl hexits
  obtain ⟨strategy, exits⟩ := exited
  obtain rfl : strategy = s.strategy := hsame
  refine .bind (.bind (ShippedStrategy.onSnapshot_notExecution he) fun _ _ => .pure _)
    fun entered hentries => ?_
  obtain ⟨strategy, rng, entries⟩ := entered
  obtain ⟨rfl, rfl⟩ := ShippedStrategy.onSnapshot_hook he hentries
  cases isLast with
  | false => exact .bind (.pure _) fun _ _ => .pure _
  | true =>
    refine .bind (.bind closeAll_notExecution fun _ _ => .pure _) fun ended hend => ?_
    obtain ⟨strategy, rng, out⟩ := ended
    obtain ⟨rfl, hclose⟩ := ShippedStrategy.onEnd_hook hend
    obtain rfl := hexits
    have hout := closeAll_eq_ok hnodup (mem_filter_of_id hnodup) hclose
    refine .bind (.require fun hnot => absurd ?_ hnot) fun _ _ => .bind (.pure _) fun _ _ => .pure _
    rw [List.all_eq_true]
    intro cmd hcmd
    have hmem := List.mem_of_mem_drop hcmd
    rw [show out = _ from hout] at hmem
    obtain ⟨leg, -, rfl⟩ := List.mem_map.1 hmem
    exact ShippedStrategy.isClose_closeCommand leg

end Collection

end IronCondor
