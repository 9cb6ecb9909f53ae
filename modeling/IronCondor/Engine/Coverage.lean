import IronCondor.Data.SmallMarket
import IronCondor.Engine.ClosingStep

/-! # What the final closes cover

A leg is covered by the closes queued in the step, its own and those that replace a resting one,
and by the resting closes that no queued command withdraws. The final closes count the queued
submits and every resting close. -/
namespace IronCondor

open Checked ExceptRun

section Sizes

variable {positionId : PositionId} {xs ys : List OrderIntent}

/-- How much an intent closes of a position. -/
def closedBy (positionId : PositionId) (intent : OrderIntent) : Int :=
  if intent.action = .Close positionId then intent.quantity.value else 0

/-- How much a list of intents closes of a position. -/
def closeSize (positionId : PositionId) (intents : List OrderIntent) : Int :=
  (intents.map (closedBy positionId)).sum

@[simp] theorem closeSize_nil : closeSize positionId [] = 0 := rfl

@[simp] theorem closeSize_cons {intent : OrderIntent} :
    closeSize positionId (intent :: xs) = closedBy positionId intent + closeSize positionId xs := by
  simp [closeSize]

@[simp] theorem closeSize_append :
    closeSize positionId (xs ++ ys) = closeSize positionId xs + closeSize positionId ys := by
  simp [closeSize]

theorem closedBy_nonneg (intent : OrderIntent) : 0 ≤ closedBy positionId intent := by
  unfold closedBy
  split_ifs
  · exact intent.quantity.pos.le
  · exact le_rfl

theorem closeSize_nonneg : 0 ≤ closeSize positionId xs :=
  List.sum_nonneg fun _ hx => by
    obtain ⟨intent, -, rfl⟩ := List.mem_map.1 hx
    exact closedBy_nonneg intent

theorem addCoverage_eq_ok {total total' : Bounded u32} {intent : OrderIntent} :
    addCoverage positionId total intent = .ok total' ↔
      total'.value = total.value + closedBy positionId intent := by
  unfold addCoverage coverage? closedBy
  split_ifs
  · exact narrow_eq_ok
  · rw [Int.add_zero, Except.ok.injEq, eq_comm, Bounded.ext_iff]

/-- The checked sum of the closes of a leg is their sum, and is refused when that is too large. -/
theorem foldlM_addCoverage {total total' : Bounded u32} :
    xs.foldlM (addCoverage positionId) total = .ok total' ↔
      total'.value = total.value + closeSize positionId xs := by
  induction xs generalizing total with
  | nil =>
    rw [foldlM_nil_ok, closeSize_nil, Int.add_zero, eq_comm, Bounded.ext_iff]
  | cons intent xs ih =>
    simp only [foldlM_cons_ok, addCoverage_eq_ok, ih, closeSize_cons]
    constructor
    · rintro ⟨mid, hmid, htotal⟩
      omega
    · intro htotal
      -- the sum so far is below the final one, which fits
      have hfirst : 0 ≤ closedBy positionId intent := closedBy_nonneg intent
      have hrest : 0 ≤ closeSize positionId xs := closeSize_nonneg
      have hnonneg := total.nonneg
      have hmax := total'.le_max
      exact ⟨⟨total.value + closedBy positionId intent,
        ⟨by change 0 ≤ _; omega, by omega⟩⟩, rfl, by dsimp only; omega⟩

end Sizes

section Queue

variable {positionId : PositionId} {out new : List OrderCommand} {pending : List PendingOrder}

/-- The intent of a replacement. -/
def OrderCommand.replacement? : OrderCommand → Option OrderIntent
  | Replace _ replacement => some replacement
  | _ => none

/-- A queued command cancels or replaces the resting order. -/
def Withdrawn (out : List OrderCommand) (pend : PendingOrder) : Prop :=
  ∃ cmd ∈ out, cmd.target? = some pend.orderId

instance : DecidablePred (Withdrawn out) := fun _ =>
  inferInstanceAs (Decidable (∃ cmd ∈ out, _))

/-- What the queued submits close of a position. -/
def submitCloses (positionId : PositionId) (out : List OrderCommand) : Int :=
  closeSize positionId (out.filterMap OrderCommand.submit?)

/-- What the queued replacements close of a position. -/
def replaceCloses (positionId : PositionId) (out : List OrderCommand) : Int :=
  closeSize positionId (out.filterMap OrderCommand.replacement?)

/-- What the queue closes of a position. -/
def queuedCloses (positionId : PositionId) (out : List OrderCommand) : Int :=
  closeSize positionId (out.filterMap OrderCommand.intent?)

/-- What the resting orders close of a position. -/
def restingCloses (positionId : PositionId) (pending : List PendingOrder) : Int :=
  closeSize positionId (pending.map PendingOrder.intent)

/-- What the resting orders close of a position that the queue leaves alone. -/
def survivingCloses (positionId : PositionId) (out : List OrderCommand)
    (pending : List PendingOrder) : Int :=
  restingCloses positionId (pending.filter fun pend => ¬ Withdrawn out pend)

/-- What the resting orders close of a position that the queue withdraws. -/
def withdrawnCloses (positionId : PositionId) (out : List OrderCommand)
    (pending : List PendingOrder) : Int :=
  restingCloses positionId (pending.filter fun pend => Withdrawn out pend)

theorem queuedCloses_eq : queuedCloses positionId out = submitCloses positionId out +
    replaceCloses positionId out := by
  unfold queuedCloses submitCloses replaceCloses
  induction out with
  | nil => rfl
  | cons cmd out ih =>
    cases cmd with
    | Submit intent =>
      change closeSize positionId (intent :: out.filterMap OrderCommand.intent?) =
        closeSize positionId (intent :: out.filterMap OrderCommand.submit?) +
          closeSize positionId (out.filterMap OrderCommand.replacement?)
      rw [closeSize_cons, closeSize_cons, ih, Int.add_assoc]
    | Cancel orderId => exact ih
    | Replace orderId replacement =>
      change closeSize positionId (replacement :: out.filterMap OrderCommand.intent?) =
        closeSize positionId (out.filterMap OrderCommand.submit?) +
          closeSize positionId (replacement :: out.filterMap OrderCommand.replacement?)
      rw [closeSize_cons, closeSize_cons, ih, Int.add_left_comm]

theorem restingCloses_eq (out : List OrderCommand) (pending : List PendingOrder) :
    restingCloses positionId pending =
      survivingCloses positionId out pending + withdrawnCloses positionId out pending := by
  unfold survivingCloses withdrawnCloses restingCloses
  induction pending with
  | nil => rfl
  | cons pend pending ih =>
    by_cases h : Withdrawn out pend <;> simp [h, ih] <;> omega

theorem queuedCloses_append : queuedCloses positionId (out ++ new) =
    queuedCloses positionId out + queuedCloses positionId new := by
  simp [queuedCloses, List.filterMap_append]

theorem submitCloses_append : submitCloses positionId (out ++ new) =
    submitCloses positionId out + submitCloses positionId new := by
  simp [submitCloses, List.filterMap_append]

end Queue

section Closes

variable {positionId : PositionId} {out out' : List OrderCommand} {pending : List PendingOrder}
  {snapshot : ChainSnapshot} {leg : OpenPosition} {legs : List OpenPosition}

/-- What the final closes take to be scheduled: the queued submits and every resting close. -/
def countedCloses (positionId : PositionId) (out : List OrderCommand)
    (pending : List PendingOrder) : Int :=
  submitCloses positionId out + restingCloses positionId pending

theorem countedCloses_nonneg : 0 ≤ countedCloses positionId out pending :=
  Int.add_nonneg closeSize_nonneg closeSize_nonneg

/-- The final close of a leg: what it counts as not scheduled yet, if that is anything. -/
def finalClose (pending : List PendingOrder) (snapshot : ChainSnapshot) (out : List OrderCommand)
    (leg : OpenPosition) : List OrderCommand :=
  if h : countedCloses leg.positionId out pending < leg.quantity.value then
    [closeCommandQty snapshot leg ⟨leg.quantity.value - countedCloses leg.positionId out pending,
      by omega, by
        have hcounted : 0 ≤ countedCloses leg.positionId out pending := countedCloses_nonneg
        have hmax := leg.quantity.le_max
        omega⟩]
  else []

theorem scheduledCloseQty_eq_ok {total : Bounded u32} :
    scheduledCloseQty out positionId = .ok total ↔ total.value = submitCloses positionId out := by
  have hfold : scheduledCloseQty out positionId =
      (out.filterMap OrderCommand.submit?).foldlM (addCoverage positionId) ⟨0, by decide⟩ := by
    rw [List.foldlM_filterMap]
    unfold scheduledCloseQty
    congr 1
    funext total cmd
    cases cmd <;> rfl
  rw [hfold, foldlM_addCoverage, Int.zero_add]
  rfl

/-- One leg: the count fits, and what it leaves open is closed. -/
theorem closeRemaining_ok_iff : closeRemaining pending snapshot out leg = .ok out' ↔
    countedCloses leg.positionId out pending ≤ u32.max ∧
      out' = out ++ finalClose pending snapshot out leg := by
  have hpending : ∀ total : Bounded u32,
      pending.foldlM (fun total pend => addCoverage leg.positionId total pend.intent) total =
        (pending.map PendingOrder.intent).foldlM (addCoverage leg.positionId) total :=
    fun total => by rw [List.foldlM_map]
  simp only [closeRemaining, bind_ok_iff, scheduledCloseQty_eq_ok, hpending, foldlM_addCoverage]
  constructor
  · rintro ⟨queued, hqueued, total, htotal, h⟩
    have hcounted : total.value = countedCloses leg.positionId out pending := by
      rw [htotal, hqueued]
      rfl
    refine ⟨hcounted ▸ total.le_max, ?_⟩
    unfold finalClose
    by_cases hcover : leg.quantity.value ≤ total.value
    · rw [if_pos hcover] at h
      cases h
      rw [dif_neg (by omega), List.append_nil]
    · rw [if_neg hcover] at h
      simp only [bind_ok_iff, narrow_eq_ok, Quantity.new_eq_ok, pure_ok_iff] at h
      obtain ⟨remaining, hremaining, quantity, hquantity, rfl⟩ := h
      rw [dif_pos (by omega)]
      congr 3
      exact Quantity.ext (by dsimp only; omega)
  · rintro ⟨hfits, rfl⟩
    have hsubmitted : 0 ≤ submitCloses leg.positionId out := closeSize_nonneg
    have hawaiting : 0 ≤ restingCloses leg.positionId pending := closeSize_nonneg
    unfold countedCloses at hfits
    refine ⟨⟨submitCloses leg.positionId out, ⟨hsubmitted, by omega⟩⟩, rfl,
      ⟨countedCloses leg.positionId out pending, ⟨countedCloses_nonneg, hfits⟩⟩, rfl, ?_⟩
    unfold finalClose
    by_cases hcover : leg.quantity.value ≤ countedCloses leg.positionId out pending
    · rw [if_pos hcover, dif_neg (by omega), List.append_nil]
      rfl
    · rw [if_neg hcover, dif_pos (by omega)]
      simp only [bind_ok_iff, narrow_eq_ok, Quantity.new_eq_ok, pure_ok_iff]
      have hmax := leg.quantity.le_max
      have hcounted : 0 ≤ countedCloses leg.positionId out pending := countedCloses_nonneg
      exact ⟨⟨leg.quantity.value - countedCloses leg.positionId out pending,
        ⟨by change 0 ≤ _; omega, by omega⟩⟩, rfl, _, rfl, rfl⟩

/-- The final close of a leg closes nothing of another. -/
theorem finalClose_other (h : leg.positionId ≠ positionId) :
    queuedCloses positionId (finalClose pending snapshot out leg) = 0 := by
  unfold finalClose
  split_ifs
  · simp [queuedCloses, closeCommandQty, OrderCommand.intent?, closeSize, closedBy, h]
  · rfl

theorem finalClose_self : queuedCloses leg.positionId (finalClose pending snapshot out leg) =
    max 0 (leg.quantity.value - countedCloses leg.positionId out pending) := by
  unfold finalClose
  split_ifs
  · simp [queuedCloses, closeCommandQty, OrderCommand.intent?, closeSize, closedBy]
    omega
  · rw [max_eq_left (by omega)]
    rfl

/-- The final close of a leg leaves the count of another as it is. -/
theorem countedCloses_finalClose (h : leg.positionId ≠ positionId) :
    countedCloses positionId (out ++ finalClose pending snapshot out leg) pending =
      countedCloses positionId out pending := by
  have hnone : queuedCloses positionId (finalClose pending snapshot out leg) = 0 :=
    finalClose_other h
  have hsubmitted : 0 ≤ submitCloses positionId (finalClose pending snapshot out leg) :=
    closeSize_nonneg
  have hreplacing : 0 ≤ replaceCloses positionId (finalClose pending snapshot out leg) :=
    closeSize_nonneg
  rw [queuedCloses_eq] at hnone
  rw [countedCloses, countedCloses, submitCloses_append]
  omega

theorem finalClose_congr
    (h : countedCloses leg.positionId out pending = countedCloses leg.positionId out' pending) :
    finalClose pending snapshot out leg = finalClose pending snapshot out' leg := by
  simp only [finalClose, h]

/-- The final closes succeed when every count fits, and close what each count leaves open. -/
theorem closeAll_ok_iff (hnodup : (legIds legs).Nodup) :
    closeAll legs pending snapshot out = .ok out' ↔
      (∀ leg ∈ legs, countedCloses leg.positionId out pending ≤ u32.max) ∧
        out' = out ++ legs.flatMap (finalClose pending snapshot out) := by
  unfold closeAll
  induction legs generalizing out with
  | nil =>
    rw [foldlM_nil_ok, List.flatMap_nil, List.append_nil]
    exact ⟨fun h => ⟨List.forall_mem_nil _, h.symm⟩, fun h => h.2.symm⟩
  | cons leg legs ih =>
    obtain ⟨hnot, hrest⟩ := List.nodup_cons.1 hnodup
    -- the legs still to come carry other ids
    have hother : ∀ other ∈ legs,
        countedCloses other.positionId (out ++ finalClose pending snapshot out leg) pending =
          countedCloses other.positionId out pending := fun other hin =>
      countedCloses_finalClose fun heq => hnot (heq ▸ List.mem_map_of_mem hin)
    have hlater : legs.flatMap (finalClose pending snapshot
        (out ++ finalClose pending snapshot out leg)) =
          legs.flatMap (finalClose pending snapshot out) :=
      List.flatMap_congr fun other hin => finalClose_congr (hother other hin)
    simp only [foldlM_cons_ok, closeRemaining_ok_iff]
    constructor
    · rintro ⟨_, ⟨hfits, rfl⟩, h⟩
      obtain ⟨hlegs, rfl⟩ := (ih hrest).1 h
      refine ⟨List.forall_mem_cons.2 ⟨hfits, fun other hin => ?_⟩, ?_⟩
      · exact hother other hin ▸ hlegs other hin
      · rw [hlater, List.flatMap_cons, List.append_assoc]
    · rintro ⟨hlegs, rfl⟩
      obtain ⟨hfits, hlegs⟩ := List.forall_mem_cons.1 hlegs
      refine ⟨_, ⟨hfits, rfl⟩, (ih hrest).2 ⟨fun other hin => ?_, ?_⟩⟩
      · rw [hother other hin]
        exact hlegs other hin
      · rw [hlater, List.flatMap_cons, List.append_assoc]

theorem queuedCloses_finalCloses_none (h : positionId ∉ legIds legs) :
    queuedCloses positionId (legs.flatMap (finalClose pending snapshot out)) = 0 := by
  induction legs with
  | nil => rfl
  | cons leg legs ih =>
    rw [legIds, List.map_cons, List.mem_cons, not_or] at h
    obtain ⟨hne, hrest⟩ := h
    rw [List.flatMap_cons, queuedCloses_append, finalClose_other (Ne.symm hne), ih hrest,
      Int.add_zero]

/-- Together the final closes close of each leg what its own does. -/
theorem queuedCloses_finalCloses (hnodup : (legIds legs).Nodup) (hleg : leg ∈ legs) :
    queuedCloses leg.positionId (legs.flatMap (finalClose pending snapshot out)) =
      max 0 (leg.quantity.value - countedCloses leg.positionId out pending) := by
  induction legs with
  | nil => cases hleg
  | cons first legs ih =>
    obtain ⟨hnot, hrest⟩ := List.nodup_cons.1 hnodup
    rw [List.flatMap_cons, queuedCloses_append]
    rcases List.mem_cons.1 hleg with rfl | hleg
    · rw [queuedCloses_finalCloses_none hnot, finalClose_self, Int.add_zero]
    · rw [finalClose_other fun heq => hnot (heq ▸ List.mem_map_of_mem hleg), Int.zero_add,
        ih hrest hleg]

/-- The queue withdraws what it did: the final closes are submits. -/
theorem withdrawn_finalCloses {pend : PendingOrder} :
    Withdrawn (out ++ legs.flatMap (finalClose pending snapshot out)) pend ↔
      Withdrawn out pend := by
  constructor
  · rintro ⟨cmd, hcmd, htarget⟩
    rcases List.mem_append.1 hcmd with hcmd | hcmd
    · exact ⟨cmd, hcmd, htarget⟩
    · obtain ⟨leg, -, hclose⟩ := List.mem_flatMap.1 hcmd
      unfold finalClose at hclose
      split_ifs at hclose
      · cases List.mem_singleton.1 hclose
        cases htarget
      · cases hclose
  · rintro ⟨cmd, hcmd, htarget⟩
    exact ⟨cmd, List.mem_append_left _ hcmd, htarget⟩

/-- How much of a position is covered: what the queue closes of it, and the resting closes that the
queue leaves alone. -/
def coveredSize (positionId : PositionId) (out : List OrderCommand) (pending : List PendingOrder) :
    Int :=
  queuedCloses positionId out + survivingCloses positionId out pending

theorem coveredSize_finalCloses (hnodup : (legIds legs).Nodup) (hleg : leg ∈ legs) :
    coveredSize leg.positionId (out ++ legs.flatMap (finalClose pending snapshot out)) pending =
      coveredSize leg.positionId out pending +
        max 0 (leg.quantity.value - countedCloses leg.positionId out pending) := by
  have hsurviving : survivingCloses leg.positionId
      (out ++ legs.flatMap (finalClose pending snapshot out)) pending =
        survivingCloses leg.positionId out pending := by
    unfold survivingCloses
    congr 1
    exact List.filter_congr fun pend _ => by simp only [withdrawn_finalCloses]
  rw [coveredSize, queuedCloses_append, queuedCloses_finalCloses hnodup hleg, hsurviving,
    coveredSize]
  omega

/-- A queue that closes nothing of a position holds no close of it. -/
theorem not_close_of_scheduled (h : queuedCloses positionId out = 0) {cmd : OrderCommand}
    (hcmd : cmd ∈ out) {intent : OrderIntent} (hintent : cmd.intent? = some intent) :
    intent.action ≠ .Close positionId := by
  intro hclose
  have hmem : closedBy positionId intent ∈
      (out.filterMap OrderCommand.intent?).map (closedBy positionId) :=
    List.mem_map_of_mem (List.mem_filterMap.2 ⟨cmd, hcmd, hintent⟩)
  have hle : closedBy positionId intent ≤ queuedCloses positionId out :=
    List.single_le_sum (fun x hx => by
      obtain ⟨other, -, rfl⟩ := List.mem_map.1 hx
      exact closedBy_nonneg other) _ hmem
  have hpos := intent.quantity.pos
  rw [h, closedBy, if_pos hclose] at hle
  omega

/-- The count of a leg does no harm: the resting closes that the queue withdraws are as large as its
replacements, or the leg is covered and the count, too, reaches its size. -/
def RightlyCounted (out : List OrderCommand) (pending : List PendingOrder) (leg : OpenPosition) :
    Prop :=
  withdrawnCloses leg.positionId out pending = replaceCloses leg.positionId out ∨
    coveredSize leg.positionId out pending = leg.quantity.value ∧
      leg.quantity.value ≤ countedCloses leg.positionId out pending ∧
        countedCloses leg.positionId out pending ≤ u32.max

/-- The final closes cover every leg exactly, after the commands queued before and with none for a
leg that these cover, if and only if every leg is rightly counted. -/
theorem close_all_covers (hnodup : (legIds legs).Nodup)
    (hroom : ∀ leg ∈ legs, coveredSize leg.positionId out pending ≤ leg.quantity.value) :
    (∃ new, closeAll legs pending snapshot out = .ok (out ++ new) ∧ ∀ leg ∈ legs,
      coveredSize leg.positionId (out ++ new) pending = leg.quantity.value ∧
        (coveredSize leg.positionId out pending = leg.quantity.value → ∀ cmd ∈ new,
          ∀ intent, cmd.intent? = some intent → intent.action ≠ .Close leg.positionId)) ↔
      ∀ leg ∈ legs, RightlyCounted out pending leg := by
  have hcounted : ∀ leg : OpenPosition, countedCloses leg.positionId out pending =
      coveredSize leg.positionId out pending + withdrawnCloses leg.positionId out pending -
        replaceCloses leg.positionId out := by
    intro leg
    have hqueue : queuedCloses leg.positionId out = _ := queuedCloses_eq
    have hresting : restingCloses leg.positionId pending = _ := restingCloses_eq out pending
    rw [countedCloses, coveredSize]
    omega
  constructor
  · rintro ⟨new, h, hlegs⟩ leg hleg
    obtain ⟨hfits, hnew⟩ := (closeAll_ok_iff hnodup).1 h
    obtain ⟨hcovered, -⟩ := hlegs leg hleg
    rw [List.append_cancel_left hnew, coveredSize_finalCloses hnodup hleg] at hcovered
    have hcount := hcounted leg
    have hfits := hfits leg hleg
    unfold RightlyCounted
    omega
  · intro h
    have hexact : ∀ leg ∈ legs, coveredSize leg.positionId out pending +
        max 0 (leg.quantity.value - countedCloses leg.positionId out pending) =
          leg.quantity.value := by
      intro leg hleg
      have hcount := hcounted leg
      have hleft := hroom leg hleg
      rcases h leg hleg with hsame | ⟨hcovered, hreach, -⟩ <;> omega
    have hfits : ∀ leg ∈ legs, countedCloses leg.positionId out pending ≤ u32.max := by
      intro leg hleg
      have hcount := hcounted leg
      have hleft := hroom leg hleg
      have hmax := leg.quantity.le_max
      rcases h leg hleg with hsame | ⟨-, -, hfits⟩ <;> omega
    refine ⟨_, (closeAll_ok_iff hnodup).2 ⟨hfits, rfl⟩, fun leg hleg => ⟨?_, ?_⟩⟩
    · rw [coveredSize_finalCloses hnodup hleg, hexact leg hleg]
    · intro hcovered cmd hcmd intent hintent
      refine not_close_of_scheduled ?_ hcmd hintent
      have hsum := hexact leg hleg
      rw [queuedCloses_finalCloses hnodup hleg]
      omega

end Closes

section Small

open SmallMarket

/-- A long position of two calls. -/
def twoLotLeg : OpenPosition where
  positionId := ⟨lit 1⟩
  contract := call
  side := .Long
  quantity := lot 2
  entryPremium := lit 105

/-- A resting close of the position. -/
def restingClose (quantity : Quantity) : PendingOrder :=
  ⟨⟨lit 7⟩, order (.Close twoLotLeg.positionId) .Short quantity (some (lit 120)) .Gtc⟩

/-- Replace the resting close by one of as much. -/
def replaceClose (quantity : Quantity) : List OrderCommand :=
  [.Replace (restingClose quantity).orderId (restingClose quantity).intent]

/-- A resting close of one is replaced by another: one is left to close. -/
theorem close_all_covers_replaced : ∃ new,
    closeAll [twoLotLeg] [restingClose (lots 1 (by decide) (by decide))] firstStep
      (replaceClose (lots 1 (by decide) (by decide))) =
        .ok (replaceClose (lots 1 (by decide) (by decide)) ++ new) ∧
      ∀ leg ∈ [twoLotLeg], coveredSize leg.positionId
        (replaceClose (lots 1 (by decide) (by decide)) ++ new)
        [restingClose (lots 1 (by decide) (by decide))] = leg.quantity.value := by
  have hcounted : ∀ leg ∈ [twoLotLeg],
      RightlyCounted (replaceClose (lots 1 (by decide) (by decide)))
        [restingClose (lots 1 (by decide) (by decide))] leg :=
    List.forall_mem_singleton.2 (.inl (by decide))
  obtain ⟨new, h, hlegs⟩ := (close_all_covers (by decide) (by decide)).2 hcounted
  exact ⟨new, h, fun leg hleg => (hlegs leg hleg).1⟩

/-- The resting close of both is cancelled in the step: the final closes count it, and leave both
open. -/
theorem cancelled_close_uncovered :
    coveredSize twoLotLeg.positionId [.Cancel ⟨⟨7, by decide⟩⟩]
      [restingClose (lots 2 (by decide) (by decide))] ≤ twoLotLeg.quantity.value ∧
    closeAll [twoLotLeg] [restingClose (lots 2 (by decide) (by decide))] firstStep
      [.Cancel ⟨⟨7, by decide⟩⟩] = .ok [.Cancel ⟨⟨7, by decide⟩⟩] ∧
    coveredSize twoLotLeg.positionId [.Cancel ⟨⟨7, by decide⟩⟩]
      [restingClose (lots 2 (by decide) (by decide))] = 0 ∧
    twoLotLeg.quantity.value = 2 := by
  decide +kernel

end Small

end IronCondor
