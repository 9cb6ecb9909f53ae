import IronCondor.Engine.Inventory
import IronCondor.Engine.Provenance

/-! # Signed inventory

The signed size of a contract, once over the recorded fills and once over the open legs. The
two agree as long as every close that is applied flattens the leg it names; the engine itself
reduces a leg by its id and quantity alone. -/
namespace IronCondor

open Checked ExceptRun OrderBook RealisticFill

/-- What a trade of this contract, side and size adds to the holding of `contract`. -/
def signedSize (contract traded : ContractKey) (side : Side) (size : Int) : Int :=
  if traded == contract then sideSign side * size else 0

def signedFill (contract : ContractKey) (fill : Fill) : Int :=
  signedSize contract fill.contract fill.side fill.quantity.value

def signedLeg (contract : ContractKey) (leg : OpenPosition) : Int :=
  signedSize contract leg.contract leg.side leg.quantity.value

/-- For every contract, the recorded fills net to the open legs. -/
def NetAgrees (st : EngineState) : Prop :=
  ∀ contract, (st.bundle.fills.map fun record => signedFill contract record.fill).sum =
    legSum (signedLeg contract) st.inventory

/-- A close names a leg of its own contract and of the other side. -/
def Flattens (inventory : List OpenPosition) (intent : OrderIntent) : Prop :=
  match intent.action with
  | .Open => True
  | .Close positionId => ∀ leg ∈ findLeg inventory positionId,
      (leg.contract == intent.contract) = true ∧ intent.side = leg.side.opposite

/-- Every close whose fills the event applies flattens its leg. -/
def OrderEvent.Flattens (st : EngineState) : OrderEvent → Prop
  | carried orderId _ => ∀ entry ∈ st.pending[orderId]?,
      IronCondor.Flattens st.inventory entry.pending.intent
  | withdrawn _ => True
  | submitted _ _ intent run => run ≠ [] → IronCondor.Flattens st.inventory intent

/-- Every close a call applies flattens its leg, at the moment it is applied. -/
def Batch.Flattens {X : Type} [ExecutionModel X] (b : Batch X) : Prop :=
  Along (applyEvent b.reasons b.snapshot) (fun s ev => ev.Flattens s.engine) ⟨b.start, none⟩ b.events

instance (inventory : List OpenPosition) (intent : OrderIntent) :
    Decidable (Flattens inventory intent) := by
  unfold Flattens
  split <;> infer_instance

instance (st : EngineState) : (ev : OrderEvent) → Decidable (ev.Flattens st)
  | .carried orderId _ => inferInstanceAs (Decidable (∀ entry ∈ st.pending[orderId]?, _))
  | .withdrawn _ => .isTrue trivial
  | .submitted _ _ _ _ => inferInstanceAs (Decidable (_ → _))

instance {X : Type} [ExecutionModel X] (b : Batch X) : Decidable b.Flattens :=
  Along.decidable _ _

section Steps

variable {contract : ContractKey} {intent : OrderIntent} {run : List Fill}
  {inventory inventory' : List OpenPosition} {held : Option PositionId}

theorem signedSize_congr {a b : ContractKey} (h : (a == b) = true) (side : Side) (size : Int) :
    signedSize contract a side size = signedSize contract b side size := by
  rw [signedSize, signedSize, BEq.congr_left h]

theorem signedSize_add (traded : ContractKey) (side : Side) (size size' : Int) :
    signedSize contract traded side (size + size') =
      signedSize contract traded side size + signedSize contract traded side size' := by
  unfold signedSize
  split_ifs
  · ring
  · rfl

theorem signedSize_sub (traded : ContractKey) (side : Side) (size size' : Int) :
    signedSize contract traded side (size - size') =
      signedSize contract traded side size - signedSize contract traded side size' := by
  unfold signedSize
  split_ifs
  · ring
  · rfl

theorem signedSize_opposite (traded : ContractKey) (side : Side) (size : Int) :
    signedSize contract traded side.opposite size = -signedSize contract traded side size := by
  unfold signedSize
  split_ifs
  · rw [sideSign_opposite]
    ring
  · rfl

/-- The fills of an order on its own side and contract add up to its filled size. -/
theorem signedFill_sum (h : ∀ fill ∈ run, fill.side = intent.side ∧
      (fill.contract == intent.contract) = true) :
    (run.map (signedFill contract)).sum =
      signedSize contract intent.contract intent.side (totalQuantity run) := by
  induction run with
  | nil => simp [signedSize]
  | cons fill run ih =>
    obtain ⟨⟨hside, hcontract⟩, hrest⟩ := List.forall_mem_cons.1 h
    rw [List.map_cons, List.sum_cons, ih hrest, totalQuantity_cons, signedSize_add, signedFill,
      hside, signedSize_congr hcontract]

/-- The legs move by what the fills of the order trade, when the close flattens its leg and the
open grows its own. -/
theorem LegStep.net (h : LegStep held intent run inventory inventory')
    (hecho : ∀ fill ∈ run, fill.side = intent.side ∧ (fill.contract == intent.contract) = true)
    (hown : intent.action = .Open → ∀ positionId leg, held = some positionId →
      findLeg inventory positionId = some leg →
        leg.side = intent.side ∧ (leg.contract == intent.contract) = true)
    (hflat : Flattens inventory intent) :
    legSum (signedLeg contract) inventory' =
      legSum (signedLeg contract) inventory + (run.map (signedFill contract)).sum := by
  rw [signedFill_sum hecho]
  cases h with
  | opened first agg leg action fresh head average hcontract hside hquantity entry =>
    obtain ⟨hfirst, hfirst'⟩ := hecho first (List.mem_of_mem_head? head)
    rw [legSum_append, legSum_singleton, signedLeg, hcontract, hside, hquantity,
      (aggregateFills_eq_ok average).1, hfirst, signedSize_congr hfirst']
  | extended positionId leg quantity premium action found leg_eq grown =>
    obtain ⟨hside, hcontract⟩ := hown action positionId leg found leg_eq
    rw [legSum_updateLeg _ _ leg_eq]
    simp only [signedLeg, grown, signedSize_add, hside]
    rw [signedSize_congr hcontract intent.side (totalQuantity run)]
    ring
  | reduced positionId leg quantity action leg_eq left =>
    unfold Flattens at hflat
    rw [action] at hflat
    obtain ⟨hcontract, hside⟩ := hflat leg leg_eq
    rw [legSum_updateLeg _ _ leg_eq]
    simp only [signedLeg, left, signedSize_sub]
    rw [hside, signedSize_opposite, ← signedSize_congr hcontract]
    ring
  | flattened positionId leg action leg_eq all =>
    unfold Flattens at hflat
    rw [action] at hflat
    obtain ⟨hcontract, hside⟩ := hflat leg leg_eq
    rw [legSum_removeLeg _ leg_eq, signedLeg, hside, signedSize_opposite, all,
      ← signedSize_congr hcontract]
    ring

/-- A close that names a leg but does not flatten it breaks the agreement, however much it
fills. -/
theorem LegStep.net_ne {positionId : PositionId} {leg : OpenPosition}
    (h : LegStep held intent run inventory inventory')
    (haction : intent.action = .Close positionId) (hleg : findLeg inventory positionId = some leg)
    (hecho : ∀ fill ∈ run, fill.side = intent.side ∧ (fill.contract == intent.contract) = true)
    (hrun : run ≠ []) (hflat : ¬ Flattens inventory intent) :
    legSum (signedLeg intent.contract) inventory' ≠
      legSum (signedLeg intent.contract) inventory +
        (run.map (signedFill intent.contract)).sum := by
  have htotal := totalQuantity_pos hrun
  have hown : signedSize intent.contract intent.contract intent.side (totalQuantity run) =
      sideSign intent.side * totalQuantity run := if_pos BEq.rfl
  have hmoved : legSum (signedLeg intent.contract) inventory' =
      legSum (signedLeg intent.contract) inventory -
        signedSize intent.contract leg.contract leg.side (totalQuantity run) := by
    cases h with
    | opened _ _ _ action => cases haction.symm.trans action
    | extended _ _ _ _ action => cases haction.symm.trans action
    | reduced _ _ quantity action leg_eq left =>
      cases haction.symm.trans action
      cases hleg.symm.trans leg_eq
      rw [legSum_updateLeg _ _ hleg]
      simp only [signedLeg, left, signedSize_sub]
      ring
    | flattened _ _ action leg_eq all =>
      cases haction.symm.trans action
      cases hleg.symm.trans leg_eq
      rw [legSum_removeLeg _ hleg, all]
      rfl
  rw [hmoved, signedFill_sum hecho, hown]
  unfold Flattens at hflat
  rw [haction] at hflat
  unfold signedSize
  split_ifs with hcontract
  · have hside : intent.side ≠ leg.side.opposite :=
      fun hside => hflat fun other hother => by
        cases hleg.symm.trans hother
        exact ⟨hcontract, hside⟩
    cases hi : intent.side <;> cases hl : leg.side <;> rw [hi, hl] at hside <;>
      simp_all [sideSign, Side.opposite] <;> omega
  · cases intent.side <;> simp only [sideSign] <;> omega

end Steps

section Events

variable {snapshot : ChainSnapshot} {reasons : CloseReasons}

/-- The order of a registry entry and the leg it has built agree on side and contract. -/
theorem OpensAnchored.own {st : EngineState} {Own : ContractKey → ContractKey → Prop}
    (h : OpensAnchored Own st) (hlinked : Linked st) {orderId : OrderId} {entry : PendingEntry}
    (hentry : st.pending[orderId]? = some entry) (haction : entry.pending.intent.action = .Open)
    {positionId : PositionId} {leg : OpenPosition} (hheld : entry.positionId = some positionId)
    (hleg : findLeg st.inventory positionId = some leg) :
    leg.side = entry.pending.intent.side ∧ Own leg.contract entry.pending.intent.contract := by
  obtain ⟨opened, hopened, hcontract, hside, -⟩ := hlinked.opens_of_findLeg hleg
  obtain ⟨-, hside', hown⟩ := (h orderId entry hentry haction).leg positionId opened hheld hopened
  exact ⟨hside.symm.trans hside', hcontract ▸ hown⟩

/-- One event whose closes flatten keeps the recorded fills and the legs in agreement. -/
theorem NetAgrees.step {s t : StepState} {ev : OrderEvent} (hnet : NetAgrees s.engine)
    (hlinked : Linked s.engine)
    (ha : OpensAnchored (fun traded own => (traded == own) = true) s.engine)
    (hecho : Echoes (fun traded own => (traded == own) = true) s.engine ev)
    (hflat : ev.Flattens s.engine) (h : applyEvent reasons snapshot s ev = .ok t) :
    NetAgrees t.engine := by
  intro contract
  obtain ⟨records, htable, hentries⟩ := (applyEvent_booked h).table
  have hfills : (records.map fun record => signedFill contract record.fill).sum =
      (ev.fills.map (signedFill contract)).sum := by
    have hmap := congrArg (List.map fun e : OrderId × Fill => signedFill contract e.2) hentries
    simp only [List.map_map, OrderEvent.entries] at hmap
    exact congrArg List.sum hmap
  rw [htable, List.map_append, List.sum_append, hnet contract, hfills]
  have hstep := applyEvent_legStep h
  cases ev with
  | carried orderId run =>
    obtain ⟨entry, hentry, hstep⟩ := hstep
    refine (hstep.net (hecho entry hentry) (fun haction positionId leg hheld hleg => ?_)
      (hflat entry hentry)).symm
    exact ha.own hlinked hentry haction hheld hleg
  | withdrawn orderId =>
    rw [hstep, OrderEvent.fills]
    simp
  | submitted idx orderId intent run =>
    rcases hstep with ⟨rfl, hkept⟩ | ⟨hrun, hstep⟩
    · rw [hkept, OrderEvent.fills]
      simp
    · exact (hstep.net hecho (fun _ _ _ hheld => (Option.some_ne_none _ hheld.symm).elim)
        (hflat hrun)).symm

/-- A new ids counter, a new mark and new rows move neither the fills nor the legs. -/
theorem NetAgrees.frame {st st' : EngineState} (h : NetAgrees st)
    (hfills : st'.bundle.fills = st.bundle.fills) (hinventory : st'.inventory = st.inventory) :
    NetAgrees st' := by
  unfold NetAgrees
  rw [hfills, hinventory]
  exact h

end Events

section Calls

variable {S X R : Type} [ExecutionModel X] [TrackingModel X] [Strategy S R] [SeedableRng R]
  {log : List (Batch X)} {b : Batch X} {after : EngineState} {r : Setup S X} {n : Nat}
  {s : RunState S X R}

omit [Strategy S R] [SeedableRng R] in
/-- A call whose closes flatten keeps the fills and the legs in agreement. -/
theorem net_call (ht : OrdersTracked log b.model b.before)
    (hown : CarriesOwn (fun traded own => (traded == own) = true) b) (hlinked : Linked b.before)
    (ha : OpensAnchored (fun traded own => (traded == own) = true) b.before)
    (hnet : NetAgrees b.before) (hexec : b.Executed after) (hflat : b.Flattens) :
    NetAgrees after := by
  obtain ⟨ids, hmint, hstart⟩ := hexec.minted
  obtain ⟨hposition, -⟩ := mintSubmitIds_eq_ok hmint
  refine (ht.events_along hexec (fun _ => BEq.rfl) hown hflat (fun st => Linked st ∧
    OpensAnchored (fun traded own => (traded == own) = true) st ∧ NetAgrees st) ?_ ?_).1.2.2
  · rintro s t ev - hev hecho ⟨hl, ha, hn⟩ happly
    obtain ⟨hl', ha', -⟩ := applyEvent_linked hl ha hecho happly
    exact ⟨hl', ha', hn.step hl ha hecho hev happly⟩
  · rw [hstart]
    have hkeeps : Keeps b.before { b.before with ids } := .frame hposition rfl
    exact ⟨hlinked.frame rfl hposition rfl rfl, hkeeps.opensAnchored rfl ha, hnet.frame rfl rfl⟩

/-- The net rule of a run: a model whose carried fills trade their orders' contracts keeps the
fills and the legs in agreement, as long as the closes flatten. -/
theorem Setup.play_net (hidle : Idle r.execution) (J : List (Batch X) → X → Prop)
    (hstart : J [] r.execution)
    (hcall : ∀ log b after, J log b.model → Batch.Executed b after →
      CarriesOwn (fun traded own => (traded == own) = true) b ∧ J (log ++ [b]) b.modelAfter)
    (h : r.play n = .ok (log, s)) (hflat : ∀ b ∈ log, b.Flattens) : NetAgrees s.engine := by
  suffices hinv : J log s.execution ∧ Linked s.engine ∧
      OpensAnchored (fun traded own => (traded == own) = true) s.engine ∧
      ((∀ b ∈ log, b.Flattens) → NetAgrees s.engine) from hinv.2.2.2 hflat
  refine (Setup.play_tracked hidle (fun log x st => J log x ∧ Linked st ∧
    OpensAnchored (fun traded own => (traded == own) = true) st ∧
    ((∀ b ∈ log, b.Flattens) → NetAgrees st)) ?_ ?_ ?_ h).2
  · exact fun initial _ => ⟨hstart, linked_new initial, opensAnchored_new initial,
      fun _ contract => rfl⟩
  · rintro log b after ht ⟨hJ, hl, ha, hn⟩ hexec -
    obtain ⟨hown, hJ'⟩ := hcall log b after hJ hexec
    obtain ⟨hl', ha'⟩ := linked_call ht (fun _ => BEq.rfl) hown hl ha hexec
    refine ⟨hJ', hl', ha', fun hall => ?_⟩
    obtain ⟨hprior, hlast⟩ := List.forall_mem_append.1 hall
    exact net_call ht hown hl ha (hn hprior) hexec (hlast b (List.mem_singleton_self b))
  · rintro log x st snapshot isLast point st' ⟨hJ, hl, ha, hn⟩ hsettled
    obtain ⟨hl', hkeeps, hpending⟩ := hsettled.sameLegs.linked hl
    refine ⟨hJ, hl', hkeeps.opensAnchored hpending ha, fun hall => (hn hall).frame ?_ ?_⟩
    · obtain ⟨rows, -, hbundle⟩ := BundleCollector.collectStep_eq_ok hsettled.bundle
      rw [hbundle]
    · rw [hsettled.books]

end Calls

section Modes

variable {S R B : Type} [DecimalArith] [Book B ObOrderId] [LawfulBook B] [Strategy S R]
  [SeedableRng R]

/-- In naive mode no fill is carried. -/
theorem Batch.Executed.not_carried {b : Batch NaiveFill} {after : EngineState}
    (h : b.Executed after) {orderId : OrderId} {run : List Fill} :
    .carried orderId run ∉ b.events := by
  intro hev
  rcases naive_events h.filled h.correlated _ hev with ⟨_, heq⟩ | ⟨_, _, _, _, heq, -⟩ <;> cases heq

/-- Signed inventory conservation: in every run of either mode whose closes flatten the legs
they name, the recorded fills of every contract net to its open legs. -/
theorem net_inventory_conserved (config : BacktestConfig) (feed : MaterialisedFeed) (strategy : S)
    (n : Nat) :
    (∀ log s, (Setup.naive config feed strategy).play n = .ok (log, s) →
        (∀ b ∈ log, b.Flattens) → NetAgrees s.engine) ∧
      ∀ log s, (Setup.realistic B config feed strategy).play n = .ok (log, s) →
        (∀ b ∈ log, b.Flattens) → NetAgrees s.engine := by
  refine ⟨fun log s h => ?_, fun log s h => ?_⟩
  · exact Setup.play_net (idle_naive config feed strategy) (fun _ _ => True) trivial
      (fun _ _ _ _ hexec => ⟨fun _ _ hev => (hexec.not_carried hev).elim, trivial⟩) h
  · exact Setup.play_net (idle_realistic config feed strategy)
      (fun log x => Placed (PlacedBy log) x) (placed_realistic _ config feed strategy)
      (fun _ _ _ hplaced hexec => ⟨placed_carriesOwn hplaced hexec, (placed_call hplaced hexec).1⟩)
      h

end Modes

open SmallMarket in
/-- Two lots are bought and sold again one by one. -/
theorem net_inventory_conserved_roundTrip : ∃ log s,
    (Setup.naive (config .Naive) dipFeed
      (⟨take, [closeOne .Short, closeOne .Short]⟩ : Script)).play 3 = .ok (log, s) ∧
      (∀ b ∈ log, b.Flattens) ∧ NetAgrees s.engine := by
  obtain ⟨⟨log, s⟩, h, hcheck⟩ := exists_ok_of_check (r := (Setup.naive (config .Naive) dipFeed
    (⟨take, [closeOne .Short, closeOne .Short]⟩ : Script)).play 3)
    (fun run => decide (∀ b ∈ run.1, b.Flattens)) (by decide +kernel)
  have hflat := of_decide_eq_true hcheck
  exact ⟨log, s, h, hflat,
    (net_inventory_conserved (B := ReferenceBook ObOrderId) _ _ _ 3).1 log s h hflat⟩

open SmallMarket in
/-- A close on the side of its leg is applied to the leg all the same: two lots are bought, one
more is bought to close one of them, and one lot is left of the three. -/
theorem net_inventory_sameSide : ∃ log s,
    (Setup.naive (config .Naive) dipFeed (⟨take, [closeOne .Long]⟩ : Script)).play 1 =
      .ok (log, s) ∧
      (s.engine.bundle.fills.map fun record => signedFill call record.fill).sum = 3 ∧
      legSum (signedLeg call) s.engine.inventory = 1 ∧ ¬ NetAgrees s.engine := by
  obtain ⟨⟨log, s⟩, h, hcheck⟩ := exists_ok_of_check (r := (Setup.naive (config .Naive) dipFeed
    (⟨take, [closeOne .Long]⟩ : Script)).play 1)
    (fun run => decide (
      (run.2.engine.bundle.fills.map fun record => signedFill call record.fill).sum = 3 ∧
        legSum (signedLeg call) run.2.engine.inventory = 1)) (by decide +kernel)
  obtain ⟨hfills, hlegs⟩ := of_decide_eq_true hcheck
  refine ⟨log, s, h, hfills, hlegs, fun hnet => ?_⟩
  have hsame := hnet call
  rw [hfills, hlegs] at hsame
  cases hsame

end IronCondor
