import IronCondor.Engine.Accounting
import IronCondor.Engine.Correlation

/-! # Where the fills of a call come from

Either model builds every fill with `assembleFill`, from a draft at the snapshot it was called
with. What `assembleFill` promises of one fill, a model therefore promises of all of them. -/
namespace IronCondor

open Checked ExceptRun OrderBook

/-- The fill was assembled from a draft at this snapshot. -/
def AssembledAt (snapshot : ChainSnapshot) (fill : Fill) : Prop :=
  ∃ (draft : FillDraft) (mode : ExecutionMode) (schedule : FeeSchedule) (charge : FeeCharge),
    draft.step = snapshot.step ∧ draft.ts = snapshot.ts ∧
      assembleFill draft mode schedule charge = .ok fill

/-- A fill model that assembles every fill it returns, at the snapshot it is called with. -/
def AssemblesFills (X : Type) [ExecutionModel X] : Prop :=
  ∀ (m m' : X) cmds submitIds snapshot fills,
    ExecutionModel.fill m cmds submitIds snapshot = .ok (m', fills) →
      ∀ fill ∈ fills, AssembledAt snapshot fill

section Assembled

variable {snapshot : ChainSnapshot} {fill : Fill}

theorem AssembledAt.step (h : AssembledAt snapshot fill) : fill.step = snapshot.step := by
  obtain ⟨draft, mode, schedule, charge, hstep, -, hfill⟩ := h
  obtain ⟨_, _, -, -, rfl⟩ := assembleFill_eq_ok hfill
  exact hstep

theorem AssembledAt.ts (h : AssembledAt snapshot fill) : fill.ts = snapshot.ts := by
  obtain ⟨draft, mode, schedule, charge, -, hts, hfill⟩ := h
  obtain ⟨_, _, -, -, rfl⟩ := assembleFill_eq_ok hfill
  exact hts

theorem feeForFill_nonneg {schedule : FeeSchedule} {quantity : Quantity} {charge : FeeCharge}
    {fees : Cents} (h : feeForFill schedule quantity charge = .ok fees) : 0 ≤ fees.value := by
  obtain ⟨perContractTotal, -, h⟩ := bind_ok_iff.1 h
  cases charge with
  | FirstFill =>
    simp only [bind_ok_iff, narrow_eq_ok] at h
    obtain ⟨total, -, hfees⟩ := h
    exact hfees ▸ total.nonneg
  | LaterFill =>
    simp only [ok_bind, narrow_eq_ok] at h
    exact h ▸ perContractTotal.nonneg

theorem AssemblesFills.stampsSteps {X : Type} [ExecutionModel X] (h : AssemblesFills X) :
    StampsSteps X :=
  fun _ _ _ _ _ _ hfilled fill hfill => (h _ _ _ _ _ _ hfilled fill hfill).step

/-- No assembled fill has a negative fee. -/
theorem AssembledAt.fees_nonneg (h : AssembledAt snapshot fill) : 0 ≤ fill.fees.value := by
  obtain ⟨draft, mode, schedule, charge, -, -, hfill⟩ := h
  obtain ⟨fees, _, hfees, -, rfl⟩ := assembleFill_eq_ok hfill
  exact feeForFill_nonneg hfees

end Assembled

theorem NaiveFill.assemblesFills [DecimalArith] : AssemblesFills NaiveFill := by
  intro m m' cmds submitIds snapshot fills h
  obtain ⟨out, hfold, h⟩ := bind_ok_iff.1 h
  cases h
  refine foldlM_invariant (fun out => ∀ fill ∈ out, AssembledAt snapshot fill) ?_
    (List.forall_mem_nil _) hfold
  intro out cmd out' hout hcmd
  cases cmd with
  | Submit intent =>
    simp only [fillCommand, fillIntent, bind_ok_iff, pure_ok_iff] at hcmd
    obtain ⟨fill, ⟨_, -, _, -, _, -, hfill⟩, rfl⟩ := hcmd
    exact List.forall_mem_append.2 ⟨hout, List.forall_mem_singleton.2
      ⟨_, _, _, _, rfl, rfl, hfill⟩⟩
  | Cancel orderId =>
    cases hcmd
    exact hout
  | Replace orderId replacement =>
    cases hcmd
    exact hout

namespace RealisticFill

variable {B : Type} {m m' : RealisticFill B} {snap : ChainSnapshot}

theorem captureRefreshFill_assembles {trade : Trade ObOrderId} {contract : ContractKey}
    {tick : PriceCents} {carried : Option (OrderId × Fill)}
    (h : m.captureRefreshFill trade contract tick snap = .ok (m', carried)) :
    ∀ entry ∈ carried, AssembledAt snap entry.2 := by
  unfold captureRefreshFill at h
  split at h
  · cases h
    simp
  · split at h
    · cases h
      simp
    · simp only [bind_ok_iff] at h
      obtain ⟨_, -, _, -, _, -, fill, hfill, _, -, h⟩ := h
      have hassembled : AssembledAt snap fill := ⟨_, _, _, _, rfl, rfl, hfill⟩
      split_ifs at h
      · obtain ⟨_, -, h⟩ := bind_ok_iff.1 h
        cases h
        simpa using hassembled
      · cases h
        simpa using hassembled

theorem levelFills_assembles {fees : FeeSchedule} {intent : OrderIntent} {tick : PriceCents}
    {charge : FeeCharge} {trades : List (Trade ObOrderId)} {fills : List Fill}
    (h : levelFills fees snap intent tick charge trades = .ok fills) :
    ∀ fill ∈ fills, AssembledAt snap fill := by
  induction trades generalizing charge fills with
  | nil =>
    cases h
    exact List.forall_mem_nil _
  | cons trade trades ih =>
    simp only [levelFills, bind_ok_iff, pure_ok_iff] at h
    obtain ⟨_, -, _, -, fill, hfill, later, hlater, rfl⟩ := h
    exact List.forall_mem_cons.2 ⟨⟨_, _, _, _, rfl, rfl, hfill⟩, ih hlater⟩

variable [Book B ObOrderId]

theorem fillSubmit_assembles {intent : OrderIntent} {orderId : OrderId} {fills : List Fill}
    (h : m.fillSubmit intent orderId snap = .ok (m', fills)) :
    ∀ fill ∈ fills, AssembledAt snap fill := by
  simp only [fillSubmit, bind_ok_iff, Prod.exists] at h
  obtain ⟨_, -, _, -, _, -, _, _, -, _, -, _, _, -, _, -, _, -, fills', hfills, h⟩ := h
  split_ifs at h
  · obtain ⟨_, -, h⟩ := bind_ok_iff.1 h
    cases h
    exact levelFills_assembles hfills
  · cases h
    exact levelFills_assembles hfills

variable [DecimalArith]

theorem refreshBooks_assembles {carried : List (OrderId × Fill)}
    (h : m.refreshBooks snap = .ok (m', carried)) :
    ∀ entry ∈ carried, AssembledAt snap entry.2 := by
  refine refreshBooks_invariant (fun _ out => ∀ entry ∈ out, AssembledAt snap entry.2)
    (fun _ _ _ _ _ hout => hout) ?_ (List.forall_mem_nil _) h
  intro x out contract tick trade x' out' hout hcapture
  obtain ⟨carried, hfill, rfl⟩ := captureTrade_eq_ok hcapture
  refine List.forall_mem_append.2 ⟨hout, fun entry hentry => ?_⟩
  exact captureRefreshFill_assembles hfill entry (Option.mem_toList.1 hentry)

theorem assemblesFills : AssemblesFills (RealisticFill B) := by
  intro m m' cmds submitIds snapshot fills h
  simp only [ExecutionModel.fill, fillAttributed, bind_ok_iff, pure_ok_iff, Prod.exists,
    Prod.mk.injEq] at h
  obtain ⟨_, a, ⟨_, carried, hrefresh, _, -, r, hroute, -, rfl⟩, -, rfl⟩ := h
  have hrouted : ∀ run ∈ r.routed, ∀ fill ∈ run.fills, AssembledAt snapshot fill := by
    refine foldlM_invariant (fun r : Routing B => ∀ run ∈ r.routed, ∀ fill ∈ run.fills,
      AssembledAt snapshot fill) ?_ (List.forall_mem_nil _) hroute
    intro r entry r' hr hstep
    rcases routeCommand_cases hstep with ⟨-, rfl⟩ |
      ⟨intent, orderId, m₁, fills, -, -, hsubmit, hrouted, -⟩
    · exact hr
    · rw [hrouted]
      exact List.forall_mem_append.2 ⟨hr, List.forall_mem_singleton.2
        (fillSubmit_assembles hsubmit)⟩
  refine List.forall_mem_append.2 ⟨?_, fun fill hfill => ?_⟩
  · exact List.forall_mem_map.2 (refreshBooks_assembles hrefresh)
  · obtain ⟨run, hrun, hfill⟩ := List.mem_flatMap.1 hfill
    exact hrouted run hrun fill hfill

end RealisticFill

section Runs

variable {S X R : Type} [ExecutionModel X] [Strategy S R] [SeedableRng R] {r : Setup S X} {n : Nat}
  {log : List (Batch X)} {s : RunState S X R}

/-- Every recorded fill was assembled at a snapshot of the tape. -/
theorem Setup.play_assembled (hassembles : AssemblesFills X) (h : r.play n = .ok (log, s)) :
    ∀ fill ∈ s.engine.bundle.fills.map FillRecord.fill,
      ∃ snapshot ∈ r.feed.tape, AssembledAt snapshot fill := by
  refine r.play_invariant (fun _ _ st => ∀ fill ∈ st.bundle.fills.map FillRecord.fill,
    ∃ snapshot ∈ r.feed.tape, AssembledAt snapshot fill) (fun _ _ => List.forall_mem_nil _) ?_ ?_ h
  · intro log b after hrecorded hexec hsnapshot
    have hbooked := hexec.booked
    rw [(hbooked.fills hexec).1]
    exact List.forall_mem_append.2 ⟨hrecorded, fun fill hfill =>
      ⟨b.snapshot, hsnapshot, hassembles _ _ _ _ _ _ hexec.filled fill hfill⟩⟩
  · intro log x st snapshot isLast point st' hrecorded hsettled
    obtain ⟨rows, -, hbundle⟩ := BundleCollector.collectStep_eq_ok hsettled.bundle
    rw [hbundle]
    exact hrecorded

end Runs

end IronCondor
