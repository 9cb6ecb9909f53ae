import IronCondor.Data.SmallMarket
import IronCondor.Engine.Openings
import IronCondor.Lib.ReferenceBook

/-! # The marks of the open legs

A leg quoted at a step is marked at its mid; an absent one keeps the mid of the last snapshot
that quoted it, up to its expiry. The carried mids are kept per contract, the law is per leg. -/
namespace IronCondor

open Checked ExceptRun Ledger OrderBook

section Settlement

variable {l l' : Ledger} {leg : OpenPosition} {snapshot : ChainSnapshot} {mark : PriceCents}
  {stale : Bool} {value value' : Bounded i128} {openLegs : List OpenPosition}

/-- The mid a snapshot shows of a contract, over the one carried so far. -/
def markOf (snapshot : ChainSnapshot) (marks : Std.TreeMap ContractKey PriceCents)
    (contract : ContractKey) : Option PriceCents :=
  (snapshot.quotes[contract]?.map QuoteView.mid).or marks[contract]?

/-- The mark of a leg: the mid of its contract, or its entry premium when none was ever kept. -/
structure MarkOf (snapshot : ChainSnapshot) (marks : Std.TreeMap ContractKey PriceCents)
    (m : PositionMark) (leg : OpenPosition) : Prop where
  positionId : m.positionId = leg.positionId
  contract : m.contract = leg.contract
  mark : m.mark = (markOf snapshot marks leg.contract).getD leg.entryPremium
  stale : m.staleMark = true ↔ ¬ snapshot.Quotes leg.contract

theorem resolveMark_marks (h : l.resolveMark leg snapshot = .ok (l', mark, stale)) :
    mark = (markOf snapshot l.marks leg.contract).getD leg.entryPremium ∧
      (stale = true ↔ ¬ snapshot.Quotes leg.contract) ∧
      ∀ contract, l'.marks[contract]? = if compare leg.contract contract = .eq then
        markOf snapshot l.marks contract else l.marks[contract]? := by
  unfold resolveMark at h
  unfold markOf ChainSnapshot.Quotes
  cases hquote : snapshot.quotes[leg.contract]? with
  | some quote =>
    rw [hquote] at h
    cases h
    refine ⟨rfl, by simp, fun contract => ?_⟩
    rw [Std.TreeMap.getElem?_insert]
    split_ifs with hc
    · rw [← Std.TreeMap.getElem?_congr hc, hquote]
      rfl
    · rfl
  | none =>
    simp only [hquote, bind_ok_iff, require_eq_ok, pure_ok_iff, Prod.mk.injEq] at h
    obtain ⟨_, -, _, -, rfl, rfl, rfl⟩ := h
    refine ⟨rfl, by simp, fun contract => ?_⟩
    split_ifs with hc
    · have habsent := (Std.TreeMap.getElem?_congr hc).symm.trans hquote
      rw [habsent]
      rfl
    · rfl

/-- Marking one leg moves no contract that the snapshot does not quote. -/
theorem markOf_congr {marks marks' : Std.TreeMap ContractKey PriceCents}
    (h : ∀ contract, marks'[contract]? = if compare leg.contract contract = .eq then
      markOf snapshot marks contract else marks[contract]?) (contract : ContractKey) :
    markOf snapshot marks' contract = markOf snapshot marks contract := by
  unfold markOf
  rw [h contract, markOf]
  cases snapshot.quotes[contract]? with
  | some quote => rfl
  | none => simp

theorem settleLeg_marks (h : settleLeg snapshot (l, value) leg = .ok (l', value')) :
    (∃ m, l'.positionMarks = l.positionMarks ++ [m] ∧ MarkOf snapshot l.marks m leg) ∧
      ∀ contract, l'.marks[contract]? = if compare leg.contract contract = .eq then
        markOf snapshot l.marks contract else l.marks[contract]? := by
  simp only [settleLeg, bind_ok_iff, pure_ok_iff, Prod.exists, Prod.mk.injEq] at h
  obtain ⟨l₂, mark, stale, hmark, _, -, _, -, rfl, -⟩ := h
  have hpositions := (resolveMark_eq_ok hmark).2.2
  obtain ⟨rfl, hstale, hmarked⟩ := resolveMark_marks hmark
  exact ⟨⟨_, congrArg (· ++ _) hpositions, rfl, rfl, rfl, hstale⟩, hmarked⟩

/-- The settlement loop marks every open leg from the marks it started with, and keeps the marks
it used. -/
theorem settleLegs_marks
    (h : openLegs.foldlM (settleLeg snapshot) (l, value) = .ok (l', value')) :
    (∃ marks, l'.positionMarks = l.positionMarks ++ marks ∧
      List.Forall₂ (MarkOf snapshot l.marks) marks openLegs) ∧
    ∀ contract, l'.marks[contract]? =
      if ∃ leg ∈ openLegs, compare leg.contract contract = .eq then
        markOf snapshot l.marks contract else l.marks[contract]? := by
  induction openLegs generalizing l value with
  | nil =>
    cases foldlM_nil_ok.1 h
    exact ⟨⟨[], by simp, .nil⟩, by simp⟩
  | cons leg legs ih =>
    obtain ⟨⟨l₁, value₁⟩, hleg, h⟩ := foldlM_cons_ok.1 h
    obtain ⟨⟨m, hpositions, hm⟩, hmarked⟩ := settleLeg_marks hleg
    obtain ⟨⟨marks, hmarks, hall⟩, hkept⟩ := ih h
    have hsame (contract : ContractKey) := markOf_congr hmarked contract
    refine ⟨⟨m :: marks, ?_, .cons hm ?_⟩, fun contract => ?_⟩
    · rw [hmarks, hpositions, List.append_assoc, List.singleton_append]
    · refine hall.imp fun m' leg' hm' => ⟨hm'.positionId, hm'.contract, ?_, hm'.stale⟩
      rw [hm'.mark, hsame leg'.contract]
    · rw [hkept contract, hsame contract, hmarked contract]
      by_cases hhead : compare leg.contract contract = .eq
      · simp [hhead]
      · simp [hhead]

/-- What a settlement marks, and the marks it keeps. -/
theorem settle_marks {step : StepIndex} {ts : SimTime} {point : EquityPoint}
    (h : l.settle step ts openLegs snapshot = .ok (l', point)) :
    List.Forall₂ (MarkOf snapshot l.marks) l'.positionMarks openLegs ∧
    ∀ contract, l'.marks[contract]? =
      if ∃ leg ∈ openLegs, compare leg.contract contract = .eq then
        markOf snapshot l.marks contract else l.marks[contract]? := by
  simp only [settle, bind_ok_iff, pure_ok_iff, Prod.exists, Prod.mk.injEq] at h
  obtain ⟨l₁, total, hlegs, _, -, _, -, _, -, _, -, _, -, _, -, rfl, -⟩ := h
  obtain ⟨⟨marks, hmarks, hall⟩, hkept⟩ := settleLegs_marks hlegs
  rw [List.nil_append] at hmarks
  exact ⟨hmarks ▸ hall, hkept⟩

/-- The carried mids follow the quotes. -/
theorem marks_followQuotes :
    FollowsQuotes QuoteView.mid (fun l contract => l.marks[contract]?) where
  fresh initial contract := by simp [Ledger.new]
  fills h := by
    ext1 contract
    rw [(applyFills_eq_ok h).2.2]
  sampled _ _ _ := rfl
  settled h := (settle_marks h).2

/-- A leg that must be settled but is not quoted: its contract is absent at or after its
expiry. -/
structure Overdue (snapshot : ChainSnapshot) (leg : OpenPosition) : Prop where
  absent : ¬ snapshot.Quotes leg.contract
  expired : ∃ expiry, leg.contract.expirationNs = .ok expiry ∧ expiry.value ≤ snapshot.ts.value

instance (snapshot : ChainSnapshot) (leg : OpenPosition) : Decidable (Overdue snapshot leg) :=
  decidable_of_iff ((snapshot.quotes[leg.contract]?).isNone = true ∧
      (leg.contract.expirationNs.toOption.any fun expiry =>
        expiry.value ≤ snapshot.ts.value) = true) <| by
    constructor
    · rintro ⟨habsent, hlate⟩
      refine ⟨by simpa [ChainSnapshot.Quotes] using habsent, ?_⟩
      cases hexpiry : leg.contract.expirationNs with
      | ok expiry => exact ⟨expiry, rfl, by simpa [hexpiry, Except.toOption] using hlate⟩
      | error e => simp [hexpiry, Except.toOption] at hlate
    · rintro ⟨habsent, expiry, hexpiry, hlate⟩
      exact ⟨by simpa [ChainSnapshot.Quotes] using habsent,
        by simpa [hexpiry, Except.toOption] using hlate⟩

theorem resolveMark_outOfOrder {step ts prev : Int}
    (h : l.resolveMark leg snapshot = .error (.DataOutOfOrder step ts prev)) :
    Overdue snapshot leg := by
  unfold resolveMark at h
  cases hquote : snapshot.quotes[leg.contract]? with
  | some quote =>
    rw [hquote] at h
    cases h
  | none =>
    simp only [hquote, bind_error_iff, require_eq_error, pure_ne_error, and_false, or_false,
      exists_false] at h
    rcases h with h | ⟨expiry, hexpiry, hlate, -⟩
    · unfold ContractKey.expirationNs at h
      split at h
      · cases (narrow_eq_error.1 h).2
      · cases h
    · exact ⟨by simp [ChainSnapshot.Quotes, hquote], expiry, hexpiry, not_lt.1 hlate⟩

theorem resolveMark_overdue (h : Overdue snapshot leg) : ∃ step ts prev,
    l.resolveMark leg snapshot = .error (.DataOutOfOrder step ts prev) := by
  obtain ⟨expiry, hexpiry, hlate⟩ := h.expired
  have habsent : snapshot.quotes[leg.contract]? = none := by
    simpa [ChainSnapshot.Quotes] using h.absent
  refine ⟨snapshot.step.value, expiry.value, snapshot.ts.value, ?_⟩
  simp only [resolveMark, habsent, hexpiry, ok_bind]
  rw [require, if_neg (not_lt.2 hlate)]
  rfl

theorem checkedProduct_error {x : Int} {ys : List Int} {e : BacktestError}
    (h : checkedProduct x ys = .error e) : e = .ArithmeticOverflow := by
  induction ys generalizing x with
  | nil => exact (narrow_eq_error.1 h).2.symm
  | cons y ys ih =>
    rcases bind_error_iff.1 h with h | ⟨p, -, h⟩
    · exact (narrow_eq_error.1 h).2.symm
    · exact ih h

/-- A leg stops the settlement as out of order exactly when it is overdue. -/
theorem settleLeg_outOfOrder_iff :
    (∃ step ts prev, settleLeg snapshot (l, value) leg = .error (.DataOutOfOrder step ts prev)) ↔
      Overdue snapshot leg := by
  constructor
  · rintro ⟨step, ts, prev, h⟩
    simp only [settleLeg, bind_error_iff, Prod.exists, pure_ne_error, and_false, or_false,
      exists_false] at h
    rcases h with h | ⟨l₁, mark, stale, -, h | ⟨legValue, -, h⟩⟩
    · exact resolveMark_outOfOrder h
    · cases checkedProduct_error h
    · cases (narrow_eq_error.1 h).2
  · intro h
    obtain ⟨step, ts, prev, hmark⟩ := resolveMark_overdue (l := l) h
    refine ⟨step, ts, prev, ?_⟩
    rw [settleLeg, hmark]
    rfl

/-- The settlement loop at its start. -/
def settleStart (l : Ledger) : Ledger × Bounded i128 :=
  ({ l with positionMarks := [] }, ⟨0, i128.contains_zero⟩)

/-- Outside its loop a settlement fails by overflow alone. -/
theorem settle_outOfOrder {step : StepIndex} {ts : SimTime} {s t prev : Int} :
    l.settle step ts openLegs snapshot = .error (.DataOutOfOrder s t prev) ↔
      openLegs.foldlM (settleLeg snapshot) (settleStart l) =
        .error (.DataOutOfOrder s t prev) := by
  have hchecked {r : IntRange} {x : Int} :
      (checked r x : Outcome (Bounded r)) ≠ .error (.DataOutOfOrder s t prev) := fun h => by
    cases (narrow_eq_error.1 h).2
  simp only [settle, bind_error_iff, pure_ne_error, hchecked, and_false, or_false, exists_false]
  rfl

/-- A settlement is out of order exactly when the first open leg that stops it is overdue. -/
theorem settle_outOfOrder_iff {step : StepIndex} {ts : SimTime} :
    (∃ s t prev, l.settle step ts openLegs snapshot = .error (.DataOutOfOrder s t prev)) ↔
      ∃ done leg rest acc, openLegs = done ++ leg :: rest ∧ Overdue snapshot leg ∧
        done.foldlM (settleLeg snapshot) (settleStart l) = .ok acc := by
  simp only [settle_outOfOrder, foldlM_error_iff]
  constructor
  · rintro ⟨s, t, prev, done, leg, rest, acc, hsplit, hdone, hleg⟩
    exact ⟨done, leg, rest, acc, hsplit, settleLeg_outOfOrder_iff.1 ⟨s, t, prev, hleg⟩, hdone⟩
  · rintro ⟨done, leg, rest, acc, hsplit, hover, hdone⟩
    obtain ⟨s, t, prev, hleg⟩ := settleLeg_outOfOrder_iff.2 hover
    exact ⟨s, t, prev, done, leg, rest, acc, hsplit, hdone, hleg⟩

/-- No settlement passes over an overdue leg. -/
theorem settle_not_overdue {step : StepIndex} {ts : SimTime} {point : EquityPoint}
    (h : l.settle step ts openLegs snapshot = .ok (l', point)) :
    ∀ leg ∈ openLegs, ¬ Overdue snapshot leg := by
  intro leg hleg hover
  obtain ⟨done, rest, rfl⟩ := List.append_of_mem hleg
  simp only [settle, bind_ok_iff, Prod.exists] at h
  obtain ⟨l₁, total, hlegs, -⟩ := h
  obtain ⟨acc, -, hrest⟩ := foldlM_append_ok.1 hlegs
  obtain ⟨mid, hmid, -⟩ := foldlM_cons_ok.1 hrest
  obtain ⟨s, t, prev, hstop⟩ := settleLeg_outOfOrder_iff.2 hover
  cases hmid.symm.trans hstop

end Settlement

section Rows

/-- An open row of step `n` shows the mark it was taken from. -/
structure RowOf (n : Nat) (row : PositionSnapshot) (m : PositionMark) : Prop where
  step : row.step.value = n
  positionId : row.positionId = m.positionId
  contract : row.contract = m.contract
  mark : row.markCents = m.mark
  stale : row.staleMark = m.staleMark
  open_row : row.exitReason = none

theorem collectStep_rows {b b' : BundleCollector} {step : StepIndex} {ts : SimTime}
    {marks : List PositionMark} {openAtEnd : Bool} {n : Nat} (hn : step.value = n)
    (h : b.collectStep step ts marks openAtEnd = .ok b') :
    ∃ rows, b'.positions = b.positions ++ rows ∧ List.Forall₂ (RowOf n) rows marks := by
  unfold BundleCollector.collectStep at h
  induction marks generalizing b with
  | nil =>
    cases foldlM_nil_ok.1 h
    exact ⟨[], by simp, .nil⟩
  | cons mark marks ih =>
    obtain ⟨b₁, hmark, h⟩ := foldlM_cons_ok.1 h
    obtain ⟨rows, hrows, hall⟩ := ih h
    simp only [BundleCollector.collectMark, bind_ok_iff, pure_ok_iff] at hmark
    obtain ⟨leg, -, unrealized, -, rfl⟩ := hmark
    rw [List.append_assoc, List.singleton_append] at hrows
    exact ⟨_, hrows, .cons ⟨hn, rfl, rfl, rfl, rfl, rfl⟩ hall⟩

end Rows

section Runs

variable {S X R : Type} [ExecutionModel X] [Strategy S R] [SeedableRng R]

/-- The mark of a leg at step `n`: the mid of the last snapshot that quotes its contract, of
those from the step it opened at up to `n`; it is stale when that snapshot is an earlier one. -/
structure Carries (tape : List ChainSnapshot) (n : Nat) (fills : List FillRecord)
    (m : PositionMark) (leg : OpenPosition) : Prop where
  positionId : m.positionId = leg.positionId
  contract : m.contract = leg.contract
  mark : ∃ first : Nat, first ≤ n ∧ OpenedAt tape fills leg first ∧
    lastQuoted QuoteView.mid leg.contract (between tape first (n + 1)) = some m.mark
  stale : ∃ snapshot, tape[n]? = some snapshot ∧
    (m.staleMark = true ↔ ¬ snapshot.Quotes leg.contract)

/-- The marks of the legs held after step `n`, and the rows recorded of them. -/
structure MarksCarried (tape : List ChainSnapshot) (n : Nat) (st : EngineState) : Prop where
  marks : List.Forall₂ (Carries tape n st.bundle.fills) st.ledger.positionMarks st.inventory
  rows : ∃ earlier rows, st.bundle.positions = earlier ++ rows ∧
    List.Forall₂ (RowOf n) rows st.ledger.positionMarks

/-- The settlement of the legs that survive the fills of a step. -/
def settlement (s : RunState S X R) (beginOfStep : List OpenPosition) (snapshot : ChainSnapshot) :
    Outcome (Ledger × EquityPoint) :=
  (s.engine.ledger.collectAttributionMarks beginOfStep snapshot.spec.contractMultiplier).settle
    snapshot.step snapshot.ts s.engine.inventory snapshot

/-- The settlement of step `n` is out of order exactly when some surviving leg is overdue and
those before it can be marked and valued, and never succeeds over an overdue leg. -/
structure SettlesInOrder (r : Setup S X) (n : Nat) (s : RunState S X R) : Prop where
  outOfOrder : ∀ snapshot s₁ cmds reasons s₂, r.feed.tape[n]? = some snapshot →
    s.collectCommands snapshot (r.isLast snapshot) = .ok (s₁, cmds, reasons) →
    s₁.execute cmds reasons snapshot = .ok s₂ →
    ((∃ step ts prev, settlement s₂ s₁.engine.inventory snapshot =
        .error (.DataOutOfOrder step ts prev)) ↔
      ∃ done leg rest acc, s₂.engine.inventory = done ++ leg :: rest ∧ Overdue snapshot leg ∧
        done.foldlM (settleLeg snapshot) (settleStart (s₂.engine.ledger.collectAttributionMarks
          s₁.engine.inventory snapshot.spec.contractMultiplier)) = .ok acc)
  fails : ∀ snapshot s₁ cmds reasons s₂, r.feed.tape[n]? = some snapshot →
    s.collectCommands snapshot (r.isLast snapshot) = .ok (s₁, cmds, reasons) →
    s₁.execute cmds reasons snapshot = .ok s₂ →
    (∃ leg ∈ s₂.engine.inventory, Overdue snapshot leg) →
      ∀ settled, settlement s₂ s₁.engine.inventory snapshot ≠ .ok settled

omit [SeedableRng R] in
theorem settlesInOrder (r : Setup S X) (n : Nat) (s : RunState S X R) : SettlesInOrder r n s where
  outOfOrder _ _ _ _ _ _ _ _ := settle_outOfOrder_iff
  fails _ _ _ _ _ _ _ _ hover _ hsettled := by
    obtain ⟨leg, hleg, hover⟩ := hover
    exact settle_not_overdue hsettled leg hleg hover

variable [TrackingModel X] {r : Setup S X} {n : Nat} {log : List (Batch X)} {s : RunState S X R}

theorem Setup.play_marksCarried (hidle : Idle r.execution) (hstamps : StampsSteps X)
    (hquotes : ∀ n log (s : RunState S X R), r.play n = .ok (log, s) → ∀ b ∈ log, b.TradesQuotes)
    (h : r.play (n + 1) = .ok (log, s)) : MarksCarried r.feed.tape n s.engine := by
  obtain ⟨-, -, hsteps⟩ := TapeMeta.fromTape_eq_ok r.feed.accepted
  obtain ⟨beginOfStep, snapshot, after, point, hstep⟩ :=
    Setup.play_retainedStep marks_followQuotes hidle hstamps hquotes h
  have hlength := (List.getElem?_eq_some_iff.1 hstep.snapshot_eq).1
  have hinventory : s.engine.inventory = after.inventory := by rw [hstep.settled.books]
  obtain ⟨_, -, hbundle⟩ := BundleCollector.collectStep_eq_ok hstep.settled.bundle
  constructor
  · rw [hinventory, hbundle]
    refine Pointwise.imp_right (settle_marks hstep.ledger).1 fun m leg hleg hm => ?_
    obtain ⟨first, hle, hopened, hlast⟩ := hstep.legs leg hleg
    obtain ⟨opening, hopening, hquoted⟩ := hopened.quoted
    have hsome := lastQuoted_isSome (f := QuoteView.mid) hopening hquoted
      (Nat.lt_succ_of_le hle) hlength
    obtain ⟨mid, hmid⟩ := Option.isSome_iff_exists.1 hsome
    refine ⟨hm.positionId, hm.contract, ⟨first, hle, hopened, ?_⟩, snapshot, hstep.snapshot_eq,
      hm.stale⟩
    have hmark := hm.mark
    rw [show markOf snapshot (after.ledger.collectAttributionMarks beginOfStep
      snapshot.spec.contractMultiplier).marks leg.contract = some mid from hlast.trans hmid,
      Option.getD_some] at hmark
    rw [hmark]
    exact hmid
  · exact ⟨_, collectStep_rows (hsteps n _ hstep.snapshot_eq) hstep.settled.bundle⟩

end Runs

section Modes

variable {S R B : Type} [DecimalArith] [Book B ObOrderId] [LawfulBook B] [Strategy S R]
  [SeedableRng R]

/-- Mark carry-forward: at every settled step of either mode, every held leg is marked, in the
ledger and on its row, at the mid of the last snapshot since it opened that quoted its contract,
and is stale exactly when the step does not quote it. A step's settlement is out of order exactly
when a leg that survived its fills is overdue and no leg before it stops the settlement. -/
theorem marks_carried_forward (config : BacktestConfig) (feed : MaterialisedFeed) (strategy : S)
    (n : Nat) :
    (∀ log (s : RunState S NaiveFill R), (Setup.naive config feed strategy).play n = .ok (log, s) →
      (∀ k, n = k + 1 → MarksCarried feed.tape k s.engine) ∧
        SettlesInOrder (Setup.naive config feed strategy) n s) ∧
    ∀ log (s : RunState S (RealisticFill B) R),
      (Setup.realistic B config feed strategy).play n = .ok (log, s) →
      (∀ k, n = k + 1 → MarksCarried feed.tape k s.engine) ∧
        SettlesInOrder (Setup.realistic B config feed strategy) n s := by
  constructor
  · refine fun log s h => ⟨?_, settlesInOrder _ n s⟩
    rintro k rfl
    exact Setup.play_marksCarried (idle_naive config feed strategy) NaiveFill.stampsSteps
      (fun _ _ _ h => Setup.play_naive_quotes h) h
  · refine fun log s h => ⟨?_, settlesInOrder _ n s⟩
    rintro k rfl
    exact Setup.play_marksCarried (idle_realistic config feed strategy)
      RealisticFill.stampsSteps (fun _ _ _ h => (Setup.play_stocked h).2) h

end Modes

section Scenario

open SmallMarket

/-- The resting buy of the dip is marked at the mid of the step it fills at, and later ones. -/
theorem marks_carried_forward_dip : ∃ log s,
    (Setup.realistic (ReferenceBook ObOrderId) (config .Realistic) dipFeed
      (⟨restAndTake, []⟩ : Script)).play 3 = .ok (log, s) ∧
      (∀ k, 3 = k + 1 → MarksCarried dipFeed.tape k s.engine) ∧
        SettlesInOrder (Setup.realistic (ReferenceBook ObOrderId) (config .Realistic) dipFeed
          (⟨restAndTake, []⟩ : Script)) 3 s := by
  obtain ⟨⟨log, s⟩, h⟩ := exists_eq_ok (r := (Setup.realistic (ReferenceBook ObOrderId)
    (config .Realistic) dipFeed (⟨restAndTake, []⟩ : Script)).play 3) (by decide +kernel)
  exact ⟨log, s, h, (marks_carried_forward _ _ _ 3).2 log s h⟩

/-- A put that expires at the second step. -/
def expiring : ContractKey := { put with expiration := .DateTime (.ofNanos 1) }

/-- A free market on the largest multiplier. -/
def free (step : StepIndex) (quotes : List QuoteView) : ChainSnapshot :=
  { fiveTick step quotes with
    spec := { (fiveTick step quotes).spec with
      contractMultiplier := ⟨u32.max, by decide⟩
      contractMultiplier_pos := by decide } }

def spike : List ChainSnapshot :=
  [free (lit 0) [quote call (lit 0) (lit 0) (lit 0), quote expiring (lit 0) (lit 0) (lit 0)],
    free (lit 1)
      [quote call ⟨u64.max, by decide⟩ ⟨u64.max, by decide⟩ ⟨u64.max, by decide⟩]]

def spikeFeed : MaterialisedFeed := feed spike (lit 1) rfl

def buyFree (contract : ContractKey) (quantity : Quantity) : OrderCommand :=
  .Submit
    { contract
      action := .Open
      side := .Long
      quantity
      limit := none
      tif := .Ioc
      decisionMid := lit 0 }

def spikeSetup : Setup Script NaiveFill :=
  .naive { config .Naive with slippage := .None } spikeFeed
    ⟨[buyFree call (lots u32.max (by decide) (by decide)),
      buyFree expiring (lot 1)], []⟩

/-- The second step of the spike up to its settlement. -/
def spikeStep : Outcome (RunState Script NaiveFill Unit × ChainSnapshot ×
    RunState Script NaiveFill Unit × List OrderCommand × CloseReasons ×
    RunState Script NaiveFill Unit) := do
  let (_, s) ← spikeSetup.play 1
  let snapshot ← okOr spikeFeed.tape[1]? (.Data "no second step")
  let (s₁, cmds, reasons) ← s.collectCommands snapshot (spikeSetup.isLast snapshot)
  let s₂ ← s₁.execute cmds reasons snapshot
  return (s, snapshot, s₁, cmds, reasons, s₂)

/-- The put is overdue, but the call before it is worth more than the settlement can add up: it
stops first, by overflow. -/
theorem overdue_after_overflow : ∃ log s snapshot s₁ cmds reasons s₂,
    spikeSetup.play 1 = .ok (log, s) ∧ spikeFeed.tape[1]? = some snapshot ∧
      s.collectCommands snapshot (spikeSetup.isLast snapshot) = .ok (s₁, cmds, reasons) ∧
      s₁.execute cmds reasons snapshot = .ok s₂ ∧
      (∃ leg ∈ s₂.engine.inventory, Overdue snapshot leg) ∧
      settlement s₂ s₁.engine.inventory snapshot = .error .ArithmeticOverflow := by
  obtain ⟨⟨s, snapshot, s₁, cmds, reasons, s₂⟩, h, hcheck⟩ := exists_ok_of_check (r := spikeStep)
    (fun t => (t.2.2.2.2.2.engine.inventory.any fun leg => Overdue t.2.1 leg) &&
      match settlement t.2.2.2.2.2 t.2.2.1.engine.inventory t.2.1 with
      | .error e => e = .ArithmeticOverflow
      | .ok _ => false) (by decide +kernel)
  simp only [spikeStep, bind_ok_iff, okOr_eq_ok, pure_ok_iff, Prod.exists, Prod.mk.injEq] at h
  obtain ⟨log, _, hplay, _, hsnapshot, _, _, _, hcollect, _, hexecute, rfl, rfl, rfl, rfl, rfl,
    rfl⟩ := h
  simp only [Bool.and_eq_true, List.any_eq_true, decide_eq_true_eq] at hcheck
  obtain ⟨hover, hstop⟩ := hcheck
  refine ⟨log, _, _, _, _, _, _, hplay, hsnapshot, hcollect, hexecute, hover, ?_⟩
  split at hstop
  · rename_i e he
    rw [he, of_decide_eq_true hstop]
  · cases hstop

end Scenario

end IronCondor
