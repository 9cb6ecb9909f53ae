import IronCondor.Engine.ClosingStep
import IronCondor.Engine.Trades
import IronCondor.Engine.WholeOrders

/-! # Holding to the close

The legs that entry opened are, at any time, either open or closed once, each for its whole size.
A step closes its legs without a refusal when their contracts are quoted, and the final step closes
all that are left. -/
namespace IronCondor

open Checked ExceptRun

/-- A leg, whatever it was opened at. -/
abbrev Lot := PositionId × ContractKey × Side × Quantity

def OpenPosition.lot (leg : OpenPosition) : Lot :=
  (leg.positionId, leg.contract, leg.side, leg.quantity)

def ClosedTrade.lot (trade : ClosedTrade) : Lot :=
  (trade.positionId, trade.contract, trade.side, trade.quantity)

/-- The lots closed so far and the lots still open. -/
def EngineState.lots (st : EngineState) : List Lot :=
  st.tradeLog.closed.map ClosedTrade.lot ++ st.inventory.map OpenPosition.lot

section Close

variable {st st' : EngineState} {orderId : OrderId} {positionId : PositionId} {first : Fill}
  {agg : FillAggregate} {base : Bounded u32} {snapshot : ChainSnapshot} {leg : OpenPosition}
  {orderFills : List Fill} {reason : ExitReason} {reasons : CloseReasons}

/-- A close of a whole leg turns it into one row of the trade log. -/
theorem closeLeg_full (h : Linked st) (hleg : findLeg st.inventory positionId = some leg)
    (hfull : agg.quantity.value = leg.quantity.value)
    (hclose : st.closeLeg orderId positionId orderFills first agg base reason snapshot =
      .ok st') :
    st'.inventory = removeLeg st.inventory positionId ∧ st'.pending = st.pending ∧
      ∃ trade : ClosedTrade, st'.tradeLog.closed = st.tradeLog.closed ++ [trade] ∧
        trade.lot = leg.lot := by
  obtain ⟨entry, hentry, hcontract, hside, -, -⟩ := h.opens_of_findLeg hleg
  simp only [EngineState.closeLeg, reduceLeg_full hleg hfull, ok_bind, if_true, bind_ok_iff,
    pure_ok_iff] at hclose
  obtain ⟨tradeLog, hrecord, st₁, hfills, bundle, -, rfl⟩ := hclose
  obtain ⟨hinventory, -, hlog, -, hpending⟩ :=
    fills_sameLegs (fun _ _ _ h => closeFill_sameLegs h) hfills
  refine ⟨hinventory, hpending, ?_⟩
  have hid := (findLeg_some hleg).2
  have hquantity : agg.quantity = leg.quantity := Quantity.ext hfull
  simp only [TradeLogCollector.recordClose, hentry, okOr, ok_bind, bind_ok_iff] at hrecord
  obtain ⟨pnl, -, hrecord⟩ := hrecord
  dsimp only
  rw [hlog]
  split_ifs at hrecord
  · cases hrecord
    exact ⟨_, rfl, by simp [ClosedTrade.lot, OpenPosition.lot, hcontract, hside, hid, hquantity]⟩
  · simp only [bind_ok_iff, pure_ok_iff] at hrecord
    obtain ⟨_, -, rfl⟩ := hrecord
    exact ⟨_, rfl, by simp [ClosedTrade.lot, OpenPosition.lot, hcontract, hside, hid, hquantity]⟩

theorem removeLeg_perm {inventory : List OpenPosition}
    (hleg : findLeg inventory positionId = some leg) :
    inventory.Perm (leg :: removeLeg inventory positionId) := by
  induction inventory with
  | nil => cases hleg
  | cons other legs ih =>
    by_cases hid : other.positionId = positionId
    · obtain rfl : other = leg := by simpa [findLeg, hid] using hleg
      simp [removeLeg, hid]
    · have hrest := ih (by simpa [findLeg, hid] using hleg)
      have hremove : removeLeg (other :: legs) positionId = other :: removeLeg legs positionId := by
        simp [removeLeg, hid]
      rw [hremove]
      exact (hrest.cons other).trans (.swap leg other _)

/-- The books after some of the legs to close are closed. -/
structure Closing (before : EngineState) (done : List OpenPosition) (st : EngineState) : Prop where
  linked : Linked st
  pending : st.pending = before.pending
  lots : st.lots.Perm before.lots
  left : ∀ positionId, findLeg st.inventory positionId =
    if positionId ∈ legIds done then none else findLeg before.inventory positionId

/-- An immediate close of a whole leg is refused by no store, and moves its lot from the open ones
to the closed ones. -/
theorem Closing.close {before : EngineState} {done : List OpenPosition} {fill : Fill}
    {trade : Option TradeId} {idx : Nat} (h : Closing before done st)
    (hleg : findLeg before.inventory leg.positionId = some leg)
    (hnew : leg.positionId ∉ legIds done) (hfull : fill.quantity = leg.quantity) :
    FailsIn NotExecution
        (st.applySubmit trade idx orderId (closeIntent snapshot leg) [fill] reasons snapshot) ∧
      ∀ st' trade', st.applySubmit trade idx orderId (closeIntent snapshot leg) [fill] reasons
        snapshot = .ok (st', trade') → Closing before (done ++ [leg]) st' := by
  have hfound : findLeg st.inventory leg.positionId = some leg := by
    rw [h.left, if_neg hnew, hleg]
  refine ⟨applySubmit_close_notExecution h.linked rfl rfl hfound hfull, ?_⟩
  intro st' trade' happly
  rcases applySubmit_cases happly with ⟨hnone, -⟩ | ⟨agg, first, -, hagg, hcases⟩
  · cases hnone
  rcases hcases with ⟨hopen, -⟩ | ⟨positionId, st₁, haction, -, hclose, hregister⟩
  · cases hopen
  cases haction
  rw [registerRemainder_ioc rfl] at hregister
  cases hregister
  have htotal : agg.quantity.value = leg.quantity.value := by
    rw [(aggregateFills_eq_ok hagg).1, ← hfull]
    simp
  obtain ⟨hinventory, hpending, row, hclosed, hlot⟩ := closeLeg_full h.linked hfound htotal hclose
  refine ⟨(closeLeg_linked h.linked hclose).1, hpending.trans h.pending, ?_, fun positionId => ?_⟩
  · refine List.Perm.trans ?_ h.lots
    have hperm := (removeLeg_perm hfound).map OpenPosition.lot
    rw [List.map_cons] at hperm
    rw [EngineState.lots, EngineState.lots, hclosed, hinventory, List.map_append,
      List.map_singleton, hlot, List.append_assoc, List.singleton_append]
    exact hperm.symm.append_left _
  · rw [hinventory, findLeg_removeLeg h.linked.nodup, h.left]
    by_cases hid : positionId = leg.positionId
    · simp [legIds, hid]
    · simp [legIds, hid]

end Close

section Open

variable {st st' : EngineState} {orderId : OrderId} {snapshot : ChainSnapshot} {fill : Fill}
  {reasons : CloseReasons}

/-- The books after some immediate opens on fresh ones. -/
structure Opening (orders : List OrderIntent) (st : EngineState) : Prop where
  linked : Linked st
  pending : st.pending = ∅
  closed : st.tradeLog.closed = []
  contracts : st.inventory.map OpenPosition.contract = orders.map OrderIntent.contract

/-- An immediate open is refused by no store and adds its leg. -/
theorem Opening.open_next {orders : List OrderIntent} {order : OrderIntent}
    {trade : Option TradeId} {idx : Nat} (h : Opening orders st)
    (haction : order.action = .Open) (htif : order.tif = .Ioc)
    (hcontract : fill.contract = order.contract) :
    FailsIn NotExecution (st.applySubmit trade idx orderId order [fill] reasons snapshot) ∧
      ∀ st' trade', st.applySubmit trade idx orderId order [fill] reasons snapshot =
        .ok (st', trade') → Opening (orders ++ [order]) st' := by
  refine ⟨applySubmit_open_notExecution haction htif, ?_⟩
  intro st' trade' happly
  rcases applySubmit_cases happly with ⟨hnone, -⟩ | ⟨agg, first, hfirst, -, hcases⟩
  · cases hnone
  cases hfirst
  rcases hcases with ⟨-, st₁, tradeId, st₂, positionId, st₃, htrade, -, hleg, hfills, hregister⟩ |
    ⟨positionId, st₁, hclose, -⟩
  · obtain ⟨⟨ids, hids, -, rfl⟩, -⟩ := tradeFor_eq_ok htrade
    have hlinked₁ : Linked { st with ids } := h.linked.frame rfl hids rfl rfl
    obtain ⟨hlinked₂, -, hpending₂, -⟩ := openLeg_linked hlinked₁ hleg
    have hsame := fills_sameLegs (fun _ _ _ h => openFill_sameLegs h) hfills
    obtain ⟨hlinked₃, -, hpending₃⟩ := hsame.linked hlinked₂
    rw [registerRemainder_ioc htif] at hregister
    cases hregister
    refine ⟨hlinked₃, (hpending₃.trans hpending₂).trans h.pending, ?_, ?_⟩
    · rw [hsame.opens, openLeg_closed hleg]
      exact h.closed
    · simp only [EngineState.openLeg, bind_ok_iff, pure_ok_iff, Prod.exists, Prod.mk.injEq] at hleg
      obtain ⟨_, _, -, rfl, rfl⟩ := hleg
      rw [hsame.inventory, List.map_append, List.map_append, h.contracts]
      simp [hcontract]
  · rw [haction] at hclose
    cases hclose

end Open

section Entry

variable {snapshot : ChainSnapshot} {out out' : List OrderCommand} {C : ContractKey → Prop}

/-- The queue holds immediate opening orders, on contracts that meet `C`. -/
def Opens (C : ContractKey → Prop) (out : List OrderCommand) : Prop :=
  ∃ orders : List OrderIntent, out = orders.map .Submit ∧
    ∀ order ∈ orders, order.action = .Open ∧ order.tif = .Ioc ∧ C order.contract

theorem Opens.nil : Opens C [] := ⟨[], rfl, List.forall_mem_nil _⟩

theorem Opens.append (h : Opens C out) {quote : QuoteView} (side : Side)
    (quantity : Quantity) (hquote : C quote.contract) :
    Opens C (out ++ [openCommand quote side quantity]) := by
  obtain ⟨orders, rfl, horders⟩ := h
  refine ⟨orders ++ [⟨quote.contract, .Open, side, quantity, none, .Ioc, quote.mid⟩], ?_, ?_⟩
  · rw [List.map_append]
    rfl
  · exact List.forall_mem_append.2 ⟨horders, List.forall_mem_singleton.2 ⟨rfl, rfl, hquote⟩⟩

/-- Every snapshot quotes the contract. -/
def AlwaysQuoted (tape : List ChainSnapshot) (contract : ContractKey) : Prop :=
  ∀ snapshot ∈ tape, snapshot.Quotes contract

/-- Entry finds a quote by `select`, and every snapshot quotes the contract found. -/
def QuotedThroughout (tape : List ChainSnapshot) (select : ChainSnapshot → Outcome QuoteView) :
    Prop :=
  ∀ first, tape[0]? = some first →
    ∃ quote, select first = .ok quote ∧ AlwaysQuoted tape quote.contract

variable {S : Type} [PositionableStrategy S] [DecimalArith] {s s' : ShippedStrategy S}

namespace ShippedStrategy

/-- Entry takes the quote for one of the legs. -/
def Selects (snapshot : ChainSnapshot) (quote : QuoteView) : ShippedStrategy S → Prop
  | .adapter a => ∃ legs leg strike, PositionableStrategy.getPositions a.inner = .ok legs ∧
      leg ∈ legs ∧ fromDecimalDollars leg.strikePrice.toDec = .ok strike ∧
      selectLegQuote snapshot strike leg.optionStyle leg.expirationDate = .ok quote
  | .legSet s => ∃ leg ∈ s.legs, selectLegSetQuote snapshot leg = .ok quote

/-- Entry opens legs on the quotes it selects, and leaves nothing to be entered. -/
theorem openEntries_opens (hC : ∀ quote, s.Selects snapshot quote → C quote.contract)
    (h : s.openEntries snapshot [] = .ok (s', out)) :
    s'.Entered ∧ s'.exit = s.exit ∧ Opens C out := by
  cases s with
  | adapter a =>
    simp only [openEntries, OptStratAdapter.openEntries, bind_ok_iff, pure_ok_iff, Prod.exists,
      Prod.mk.injEq] at h
    obtain ⟨a', _, h, rfl, rfl⟩ := h
    split_ifs at h with hentered
    · cases h
      exact ⟨.inl hentered, rfl, .nil⟩
    simp only [bind_ok_iff, strategyError_eq_ok, pure_ok_iff, Prod.mk.injEq] at h
    obtain ⟨legs, hlegs, _, hfold, rfl, rfl⟩ := h
    refine ⟨?_, rfl, ?_⟩
    · rcases legs with _ | ⟨leg, legs⟩
      · exact .inr fun legs' hlegs' => by simpa [hlegs] using hlegs'.symm
      · exact .inl (by simp)
    · refine foldlM_invariant_mem (Opens C) (fun out leg out' hleg hout hopen => ?_) .nil hfold
      simp only [OptStratAdapter.openEntry, bind_ok_iff, pure_ok_iff] at hopen
      obtain ⟨strike, hstrike, quote, hquote, quantity, -, rfl⟩ := hopen
      exact hout.append _ _ (hC quote ⟨legs, leg, strike, hlegs, hleg, hstrike, hquote⟩)
  | legSet inner =>
    simp only [openEntries, LegSetStrategy.openEntries, bind_ok_iff, pure_ok_iff, Prod.exists,
      Prod.mk.injEq] at h
    obtain ⟨_, _, h, rfl, rfl⟩ := h
    split_ifs at h
    · cases h
      exact ⟨trivial, rfl, .nil⟩
    simp only [bind_ok_iff, pure_ok_iff, Prod.mk.injEq] at h
    obtain ⟨_, -, _, hfold, rfl, rfl⟩ := h
    refine ⟨trivial, rfl, ?_⟩
    refine foldlM_invariant_mem (Opens C) (fun out leg out' hleg hout hopen => ?_) .nil hfold
    simp only [LegSetStrategy.openEntry, bind_ok_iff, pure_ok_iff] at hopen
    obtain ⟨quote, hquote, rfl⟩ := hopen
    exact hout.append _ _ (hC quote ⟨leg, hleg, hquote⟩)

/-- All legs of the strategy are quoted at every step. -/
def LegsQuoted (tape : List ChainSnapshot) : ShippedStrategy S → Prop
  | .adapter a => ∀ legs, PositionableStrategy.getPositions a.inner = .ok legs → ∀ leg ∈ legs,
      ∀ strike, fromDecimalDollars leg.strikePrice.toDec = .ok strike →
        QuotedThroughout tape fun snapshot =>
          selectLegQuote snapshot strike leg.optionStyle leg.expirationDate
  | .legSet s => (∀ first, tape[0]? = some first → first.underlying = s.underlying) ∧
      ∀ leg ∈ s.legs, QuotedThroughout tape fun snapshot => selectLegSetQuote snapshot leg

variable {tape : List ChainSnapshot} {first : ChainSnapshot}

/-- What entry selects of quoted legs stays quoted. -/
theorem LegsQuoted.selects (h : s.LegsQuoted tape) (hfirst : tape[0]? = some first)
    {quote : QuoteView} (hquote : s.Selects first quote) : AlwaysQuoted tape quote.contract := by
  cases s with
  | adapter a =>
    obtain ⟨legs, leg, strike, hlegs, hleg, hstrike, hquote⟩ := hquote
    obtain ⟨found, hfound, hquoted⟩ := h legs hlegs leg hleg strike hstrike first hfirst
    cases hfound.symm.trans hquote
    exact hquoted
  | legSet inner =>
    obtain ⟨leg, hleg, hquote⟩ := hquote
    obtain ⟨found, hfound, hquoted⟩ := h.2 leg hleg first hfirst
    cases hfound.symm.trans hquote
    exact hquoted

omit [DecimalArith] in
theorem quantityFromPositive_notExecution (value : Positive) :
    FailsIn NotExecution (quantityFromPositive value) :=
  .bind (.narrow fun _ => nofun) fun _ _ => quantity_new_notExecution _

theorem fromDecimalDollars_notExecution (d : Decimal) :
    FailsIn NotExecution (fromDecimalDollars d) :=
  .bind (.require fun _ => nofun) fun _ _ => .bind (.okOr fun _ => nofun) fun _ _ =>
    .narrow fun _ => nofun

/-- Entry on quoted legs is not refused. -/
theorem openEntries_notExecution (h : s.LegsQuoted tape) (hfirst : tape[0]? = some first) :
    FailsIn NotExecution (s.openEntries first []) := by
  cases s with
  | adapter a =>
    refine .bind ?_ fun _ _ => .pure _
    unfold OptStratAdapter.openEntries
    split_ifs
    · exact .ok _
    cases hlegs : PositionableStrategy.getPositions a.inner with
    | error e => exact .bind (.error nofun) fun _ h => by cases h
    | ok legs =>
      refine .bind (.ok _) fun legs' hlegs' => ?_
      cases hlegs'
      refine .bind (.foldlM_each fun out leg hleg => ?_) fun _ _ => .pure _
      refine .bind (fromDecimalDollars_notExecution _) fun strike hstrike => ?_
      obtain ⟨quote, hquote, -⟩ := h legs hlegs leg hleg strike hstrike first hfirst
      refine .bind (.of_eq_ok hquote) fun _ _ => ?_
      exact .bind (quantityFromPositive_notExecution _) fun _ _ => .pure _
  | legSet inner =>
    refine .bind ?_ fun _ _ => .pure _
    unfold LegSetStrategy.openEntries
    split_ifs
    · exact .ok _
    refine .bind (.require fun hnot => absurd (h.1 first hfirst) hnot) fun _ _ => ?_
    refine .bind (.foldlM_each fun out leg hleg => ?_) fun _ _ => .pure _
    obtain ⟨quote, hquote, -⟩ := h.2 leg hleg first hfirst
    exact .bind (.of_eq_ok hquote) fun _ _ => .pure _

end ShippedStrategy

end Entry

section Call

variable [DecimalArith] {S R : Type} {s s' : RunState S NaiveFill R} {snapshot : ChainSnapshot}
  {reasons : CloseReasons} {legs : List OpenPosition}

/-- A call closes distinct legs whole; it is refused only when one of them is not quoted. -/
theorem execute_closes (snapshot : ChainSnapshot) (reasons : CloseReasons) (h : Linked s.engine)
    (hids : (legIds legs).Nodup) (hmem : ∀ leg ∈ legs, leg ∈ s.engine.inventory) :
    ((∀ leg ∈ legs, snapshot.Quotes leg.contract) → FailsIn Tolerated
        (s.execute (legs.map (closeCommand snapshot)) reasons snapshot)) ∧
      ∀ s', s.execute (legs.map (closeCommand snapshot)) reasons snapshot = .ok s' →
        (∀ leg ∈ legs, snapshot.Quotes leg.contract) ∧ Closing s.engine legs s'.engine ∧
          s'.strategy = s.strategy ∧ s'.execution = s.execution := by
  refine s.execute_submits legs (closeIntent snapshot) reasons snapshot (Closing s.engine) ?_ ?_
  · intro ids hposition
    exact ⟨h.frame rfl hposition rfl rfl, rfl, .refl _, fun _ => by simp [legIds]⟩
  · intro done leg rest fill st trade idx orderId hsplit hfill hclosing
    have hin := hmem leg (by simp [hsplit])
    have hnew : leg.positionId ∉ legIds done := by
      rw [hsplit, legIds, List.map_append, List.map_cons] at hids
      exact fun hdone => (List.nodup_append.1 hids).2.2 _ hdone _ List.mem_cons_self rfl
    obtain ⟨-, -, -, -, hfull⟩ := NaiveFill.fillIntent_eq_ok hfill
    have hfound := findLeg_of_mem h.nodup hin
    obtain ⟨hfails, hkeeps⟩ := hclosing.close hfound hnew hfull
    exact ⟨tolerated hfails, hkeeps⟩

/-- A call on fresh books opens the legs of immediate opening orders. -/
theorem execute_opens {initial : Cents} {orders : List OrderIntent} {C : ContractKey → Prop}
    (hengine : s.engine = .new initial)
    (horders : ∀ order ∈ orders, order.action = .Open ∧ order.tif = .Ioc ∧ C order.contract) :
    ((∀ order ∈ orders, snapshot.Quotes order.contract) → FailsIn Tolerated
        (s.execute (orders.map .Submit) reasons snapshot)) ∧
      ∀ s', s.execute (orders.map .Submit) reasons snapshot = .ok s' →
        Opening orders s'.engine ∧ s'.strategy = s.strategy ∧ s'.execution = s.execution := by
  have hrule := s.execute_submits orders id reasons snapshot Opening ?_ ?_
  · exact ⟨hrule.1, fun s' hs' => (hrule.2 s' hs').2⟩
  · intro ids hposition
    rw [hengine] at hposition ⊢
    exact ⟨(linked_new initial).frame rfl hposition rfl rfl, rfl, rfl, rfl⟩
  · intro done order rest fill st trade idx orderId hsplit hfill hopening
    obtain ⟨haction, htif, -⟩ := horders order (by simp [hsplit])
    obtain ⟨-, -, hcontract, -⟩ := NaiveFill.fillIntent_eq_ok hfill
    obtain ⟨hfails, hkeeps⟩ := hopening.open_next haction htif hcontract
    exact ⟨tolerated hfails, hkeeps⟩

end Call

section Step

variable {S : Type} [PositionableStrategy S] [DecimalArith] {opened : List Lot}
  {s s' : RunState (ShippedStrategy S) NaiveFill Unit} {snapshot : ChainSnapshot} {isLast : Bool}

omit [DecimalArith] in
/-- The legs opened at entry are the ones open and the ones closed. -/
structure Holding (opened : List Lot) (s : RunState (ShippedStrategy S) NaiveFill Unit) : Prop where
  linked : Linked s.engine
  entered : s.strategy.Entered
  idle : s.engine.pending = ∅
  lots : s.engine.lots.Perm opened

omit [DecimalArith] in
theorem Holding.pendingView (h : Holding opened s) : pendingView s.engine.pending = [] := by
  rw [h.idle]
  rfl

variable [ExitChecks]

/-- The legs that the step on `snapshot` closes. -/
def RunState.closingLegs (s : RunState (ShippedStrategy S) NaiveFill Unit)
    (snapshot : ChainSnapshot) (isLast : Bool) : List OpenPosition :=
  closing s.strategy.exit snapshot s.engine.ledger.marks s.engine.inventory isLast

/-- What one step of a holding run leaves. -/
structure Stepped (opened : List Lot) (s s' : RunState (ShippedStrategy S) NaiveFill Unit)
    (snapshot : ChainSnapshot) (isLast : Bool) : Prop where
  holding : Holding opened s'
  strategy : s'.strategy = s.strategy
  quoted : ∀ leg ∈ s.closingLegs snapshot isLast, snapshot.Quotes leg.contract
  cmds : s'.cmds = (s.closingLegs snapshot isLast).map (closeCommand snapshot)
  left : ∀ positionId, findLeg s'.engine.inventory positionId =
    if positionId ∈ legIds (s.closingLegs snapshot isLast) then none
    else findLeg s.engine.inventory positionId

/-- A step closes its legs whole; it is refused only when one of them is not quoted. -/
theorem Holding.step (h : Holding opened s) :
    ((∀ leg ∈ s.closingLegs snapshot isLast, snapshot.Quotes leg.contract) →
        FailsIn Tolerated (s.step snapshot isLast)) ∧
      ∀ s', s.step snapshot isLast = .ok s' → Stepped opened s s' snapshot isLast := by
  have hnodup := h.linked.nodup
  have hids : (legIds (s.closingLegs snapshot isLast)).Nodup := closing_nodup hnodup
  have hmem : ∀ leg ∈ s.closingLegs snapshot isLast, leg ∈ s.engine.inventory :=
    fun leg hleg => ((mem_closing hnodup).1 hleg).1
  constructor
  · intro hquoted
    refine .bind (tolerated (collectCommands_notExecution h.entered h.pendingView hnodup))
      fun collected hcollected => ?_
    obtain ⟨s₁, cmds, reasons⟩ := collected
    obtain ⟨hengine, -⟩ := collectCommands_eq_ok hcollected
    obtain ⟨-, rfl⟩ := collectCommands_closing h.entered h.pendingView hnodup hcollected
    rw [← hengine] at hmem
    obtain ⟨hfails, hkeeps⟩ := execute_closes snapshot reasons (hengine ▸ h.linked) hids hmem
    refine .bind (hfails hquoted) fun s₂ hs₂ => ?_
    exact tolerated (RunState.settle_notExecution (hkeeps s₂ hs₂).2.1.linked)
  · intro s' hs'
    simp only [RunState.step, bind_ok_iff, Prod.exists] at hs'
    obtain ⟨s₁, cmds, reasons, hcollected, s₂, hexecuted, hsettled⟩ := hs'
    obtain ⟨hengine, -⟩ := collectCommands_eq_ok hcollected
    obtain ⟨hstrategy, rfl⟩ := collectCommands_closing h.entered h.pendingView hnodup hcollected
    rw [← hengine] at hmem
    obtain ⟨hquoted, hclosing, hstrategy₂, -⟩ :=
      (execute_closes snapshot reasons (hengine ▸ h.linked) hids hmem).2 s₂ hexecuted
    obtain ⟨hstrategy₃, -, point, hbooks, -⟩ := settle_eq_ok hsettled
    have hsame := hbooks.sameLegs
    have hsettledCmds : s'.cmds = s₂.cmds := by
      simp only [RunState.settle, bind_ok_iff, pure_ok_iff, Prod.exists] at hsettled
      obtain ⟨_, _, -, _, -, rfl⟩ := hsettled
      rfl
    have hlots : s'.engine.lots = s₂.engine.lots := by
      rw [EngineState.lots, EngineState.lots, hsame.opens, hsame.inventory]
    rw [hengine] at hclosing
    refine ⟨⟨(hsame.linked hclosing.linked).1, ?_, ?_, ?_⟩, ?_, hquoted, ?_, fun positionId => ?_⟩
    · rw [hstrategy₃, hstrategy₂, hstrategy]
      exact h.entered
    · rw [hsame.pending, hclosing.pending, h.idle]
    · rw [hlots]
      exact hclosing.lots.trans h.lots
    · rw [hstrategy₃, hstrategy₂, hstrategy]
    · exact hsettledCmds.trans (congrArg RunState.cmds (execute_eq_ok hexecuted).2)
    · rw [hsame.inventory, hclosing.left]

end Step

section Runs

variable {S : Type} [PositionableStrategy S] [DecimalArith] [ExitChecks]
  {r : Setup (ShippedStrategy S) NaiveFill} {n : Nat} {log : List (Batch NaiveFill)}
  {s : RunState (ShippedStrategy S) NaiveFill Unit}

namespace Setup

/-- Startup opens legs on the quotes that entry selects, and nothing is closed yet. -/
theorem play_zero_holding {C : ContractKey → Prop}
    (hC : ∀ first quote, r.feed.tape[0]? = some first → r.strategy.Selects first quote →
      C quote.contract) (h : r.play 0 = .ok (log, s)) :
    Holding s.engine.lots s ∧ s.engine.tradeLog.closed = [] ∧
      (∀ leg ∈ s.engine.inventory, C leg.contract) ∧ ∃ b, log = [b] := by
  simp only [play, bind_ok_iff, okOr_eq_ok, pure_ok_iff, Prod.mk.injEq,
    List.head?_eq_getElem?] at h
  obtain ⟨initial, hinitial, first, hfirst, s', hstart, rfl, rfl⟩ := h
  simp only [RunState.onStart, Strategy.onStart, bind_ok_iff, pure_ok_iff, Prod.exists,
    Prod.mk.injEq] at hstart
  obtain ⟨_, _, _, ⟨strategy, out, hentry, rfl, -, rfl⟩, hexec⟩ := hstart
  obtain ⟨hentered, -, orders, rfl, horders⟩ :=
    ShippedStrategy.openEntries_opens (fun quote => hC first quote hfirst) hentry
  obtain ⟨hopening, hstrategy, -⟩ := (execute_opens rfl horders).2 s' hexec
  refine ⟨⟨hopening.linked, ?_, hopening.pending, .refl _⟩, hopening.closed, ?_, _, rfl⟩
  · rw [hstrategy]
    exact hentered
  · intro leg hleg
    have hmem : leg.contract ∈ orders.map OrderIntent.contract := by
      rw [← hopening.contracts]
      exact List.mem_map_of_mem hleg
    obtain ⟨order, horder, heq⟩ := List.mem_map.1 hmem
    rw [← heq]
    exact (horders order horder).2.2

/-- Startup on quoted legs is not refused. -/
theorem play_zero_tolerated (h : r.strategy.LegsQuoted r.feed.tape) :
    FailsIn Tolerated (r.play 0) := by
  refine .bind (tolerated ?_) fun initial _ => .bind (tolerated (.okOr fun _ => nofun))
    fun first hfirst => .bind ?_ fun _ _ => .pure _
  · exact .bind (.narrow fun _ => nofun) fun _ _ => .bind (.require fun _ => nofun) fun _ _ =>
      .pure _
  · rw [okOr_eq_ok, List.head?_eq_getElem?] at hfirst
    refine .bind (.bind (tolerated (ShippedStrategy.openEntries_notExecution h hfirst))
      fun _ _ => .pure _) fun entered hentered => ?_
    simp only [Strategy.onStart, bind_ok_iff, pure_ok_iff] at hentered
    obtain ⟨⟨strategy, out⟩, hentry, rfl⟩ := hentered
    obtain ⟨-, -, orders, rfl, horders⟩ :=
      ShippedStrategy.openEntries_opens (C := AlwaysQuoted r.feed.tape)
        (fun quote hquote => h.selects hfirst hquote) hentry
    refine (execute_opens rfl horders).1 fun order horder => ?_
    exact (horders order horder).2.2 first (List.mem_of_getElem? hfirst)

omit [PositionableStrategy S] [DecimalArith] [ExitChecks] in
theorem isLast_of_getElem? {snapshot : ChainSnapshot} (h : r.feed.tape[n]? = some snapshot)
    (hn : n + 1 = r.feed.tape.length) : r.isLast snapshot = true := by
  obtain ⟨-, hfinal, hsteps⟩ := TapeMeta.fromTape_eq_ok r.feed.accepted
  have hstep := hsteps n snapshot h
  rw [isLast, decide_eq_true_eq, Bounded.ext_iff, hstep]
  omega

/-- A reached state holds the legs of its startup, only closes were called since, and the final
step leaves no leg open. -/
structure Held (r : Setup (ShippedStrategy S) NaiveFill) (n : Nat) (log : List (Batch NaiveFill))
    (s start : RunState (ShippedStrategy S) NaiveFill Unit) : Prop where
  holding : Holding start.engine.lots s
  closes : ∀ b ∈ log.tail, ∀ cmd ∈ b.cmds, isClose cmd = true
  flat : n = r.feed.tape.length → n ≠ 0 → s.engine.inventory = []

theorem play_held (h : r.play n = .ok (log, s)) :
    ∃ log₀ start, r.play 0 = .ok (log₀, start) ∧ log ≠ [] ∧ r.Held n log s start := by
  induction n generalizing log s with
  | zero =>
    obtain ⟨hholding, -, -, b, rfl⟩ := play_zero_holding (C := fun _ => True)
      (fun _ _ _ _ => trivial) h
    exact ⟨_, s, h, List.cons_ne_nil _ _, hholding, List.forall_mem_nil _,
      fun _ hn => absurd rfl hn⟩
  | succ n ih =>
    obtain ⟨prior, t, snapshot, b, hprior, hsnapshot, hstep, rfl, hcmds⟩ := play_succ_step h
    obtain ⟨log₀, start, hstart, hne, hheld⟩ := ih hprior
    have hstepped := hheld.holding.step.2 s hstep
    refine ⟨log₀, start, hstart, by simp, hstepped.holding, ?_, fun hn _ => ?_⟩
    · rw [List.tail_append_of_ne_nil hne]
      refine List.forall_mem_append.2 ⟨hheld.closes, List.forall_mem_singleton.2 ?_⟩
      intro cmd hcmd
      rw [hcmds, hstepped.cmds] at hcmd
      obtain ⟨leg, -, rfl⟩ := List.mem_map.1 hcmd
      exact ShippedStrategy.isClose_closeCommand leg
    · rw [List.eq_nil_iff_forall_not_mem]
      intro leg hleg
      have hfound := findLeg_of_mem hstepped.holding.linked.nodup hleg
      rw [hstepped.left] at hfound
      split_ifs at hfound with hclosed
      have hmem := (findLeg_some hfound).1
      refine hclosed (List.mem_map_of_mem ?_)
      exact (mem_closing hheld.holding.linked.nodup).2
        ⟨hmem, .inr (isLast_of_getElem? hsnapshot hn)⟩

/-- The contracts of the open legs are those that entry selected. -/
theorem play_contracts {C : ContractKey → Prop}
    (hC : ∀ first quote, r.feed.tape[0]? = some first → r.strategy.Selects first quote →
      C quote.contract) (h : r.play n = .ok (log, s)) :
    ∀ leg ∈ s.engine.inventory, C leg.contract := by
  intro leg hleg
  obtain ⟨log₀, start, hstart, -, hheld⟩ := play_held h
  obtain ⟨-, hclosed, hcontracts, -⟩ := play_zero_holding hC hstart
  have hmem : leg.lot ∈ start.engine.lots :=
    hheld.holding.lots.subset (List.mem_append_right _ (List.mem_map_of_mem hleg))
  rw [EngineState.lots, hclosed, List.map_nil, List.nil_append] at hmem
  obtain ⟨other, hother, hlot⟩ := List.mem_map.1 hmem
  have hsame : other.contract = leg.contract := congrArg (fun lot : Lot => lot.2.1) hlot
  exact hsame ▸ hcontracts other hother

/-- What came before a reached state was reached. -/
theorem play_before {m : Nat} (hle : n ≤ m) (h : r.play m = .ok (log, s)) :
    ∃ log s, r.play n = .ok (log, s) := by
  induction m generalizing log s with
  | zero => exact ⟨log, s, Nat.le_zero.1 hle ▸ h⟩
  | succ m ih =>
    rcases Nat.le_succ_iff.1 hle with hle | rfl
    · obtain ⟨prior, t, -, -, hprior, -⟩ := play_succ_step h
      exact ih hle hprior
    · exact ⟨log, s, h⟩

end Setup

/-- A shipped strategy whose legs are quoted at every step is never refused: it closes every leg it
opened once and whole, and ends with no leg open. -/
theorem hold_to_close (config : BacktestConfig) (feed : MaterialisedFeed)
    (strategy : ShippedStrategy S) (strategyName : String)
    (hquoted : strategy.LegsQuoted feed.tape) :
    let r := Setup.naive config feed strategy
    let run := BacktestEngine.run config feed.toFeed r.execution strategy strategyName
    (∀ msg, run = .error (.Execution msg) → SlippageError (.Execution msg)) ∧
      ∀ out, run = .ok out → ∃ log₀ start log s, r.play 0 = .ok (log₀, start) ∧
        r.play feed.tape.length = .ok (log, s) ∧
        (legIds start.engine.inventory).Nodup ∧
        (∀ b ∈ log.tail, ∀ cmd ∈ b.cmds, isClose cmd = true) ∧
        (out.tradeLog.map ClosedTrade.lot).Perm
          (start.engine.inventory.map OpenPosition.lot) ∧
        out.openAtEnd = [] ∧ s.engine.tradeLog.opens.isEmpty = true := by
  intro r run
  have hselects : ∀ first quote, r.feed.tape[0]? = some first → r.strategy.Selects first quote →
      AlwaysQuoted feed.tape quote.contract := fun first quote hfirst hquote =>
    ShippedStrategy.LegsQuoted.selects hquoted hfirst hquote
  constructor
  · intro msg hrun
    have htolerated : Tolerated (.Execution msg) := by
      rcases r.run_error hrun with hstart | ⟨n, log, s, snapshot, hplay, hsnapshot, hstep⟩
      · exact r.play_zero_tolerated hquoted _ hstart
      · obtain ⟨log₀, start, -, -, hheld⟩ := r.play_held hplay
        refine hheld.holding.step.1 (fun leg hleg => ?_) _ hstep
        have hin := ((mem_closing hheld.holding.linked.nodup).1 hleg).1
        exact r.play_contracts hselects hplay leg hin snapshot (List.mem_of_getElem? hsnapshot)
    exact htolerated.resolve_left fun hnot => hnot msg rfl
  · intro out hrun
    obtain ⟨initial, log, s, -, hplay, rfl⟩ := r.play_of_run hrun
    obtain ⟨log₀, start, hstart, -, hheld⟩ := r.play_held hplay
    obtain ⟨hholding, hclosed, -, -⟩ := r.play_zero_holding (C := fun _ => True)
      (fun _ _ _ _ => trivial) hstart
    have hne : feed.tape.length ≠ 0 := by
      have hfinal := (TapeMeta.fromTape_eq_ok feed.accepted).2.1
      have hnonneg := feed.tapeMeta.finalStep.nonneg
      omega
    have hflat := hheld.flat rfl hne
    refine ⟨log₀, start, log, s, hstart, hplay, hholding.linked.nodup, hheld.closes, ?_, hflat, ?_⟩
    · have hlots := hheld.holding.lots
      simp only [EngineState.lots, hflat, hclosed, List.map_nil, List.nil_append,
        List.append_nil] at hlots
      exact hlots
    · rw [Std.TreeMap.isEmpty_iff_forall_not_mem]
      intro positionId hmem
      have hnone : (s.engine.tradeLog.opens[positionId]?).isSome = _ :=
        hheld.holding.linked.opens_isSome
      rw [hflat, Std.TreeMap.isSome_getElem?_iff_mem.2 hmem] at hnone
      cases hnone

end Runs

section TwoCalls

open SmallMarket

/-- One leg of an upstream strategy on the call. -/
def callPosition (side : Side) (count : Quantity) : Position where
  strikePrice := ⟨toDecimalDollars call.strike, isNegative_toDecimalDollars _⟩
  optionStyle := .Call
  expirationDate := call.expiration
  side
  quantity := ⟨.ofInt count.value, decide_eq_false (not_lt.2 count.pos.le)⟩

/-- Two legs of one contract, under a nested policy that triggers at the second step. -/
def twoCalls : ShippedStrategy (List Position) :=
  .adapter (.new
    [callPosition .Short (lot 1), callPosition .Long (lot 2)]
    (.And [.TimeSteps 1, .Or [.TimeSteps 0, .Expiration]]))

theorem callPosition_quoted {leg : Position} {strike : PriceCents} (side : Side) (count : Quantity)
    (hleg : leg = callPosition side count)
    (hstrike : fromDecimalDollars leg.strikePrice.toDec = .ok strike) :
    QuotedThroughout dip fun snapshot =>
      selectLegQuote snapshot strike leg.optionStyle leg.expirationDate := by
  subst hleg
  have hprice : fromDecimalDollars (toDecimalDollars call.strike) = .ok call.strike := by
    decide +kernel
  cases hprice.symm.trans hstrike
  rintro first ⟨⟩
  obtain ⟨quote, hquote, hcontract⟩ := exists_ok_of_check
    (r := selectLegQuote firstStep call.strike .Call call.expiration)
    (fun quote => decide (quote.contract = call)) (by decide +kernel)
  refine ⟨quote, hquote, ?_⟩
  rw [of_decide_eq_true hcontract]
  unfold AlwaysQuoted ChainSnapshot.Quotes
  decide +kernel

theorem hold_to_close_two_calls : ∃ out,
    BacktestEngine.run (config .Naive) dipFeed.toFeed
      (Setup.naive (config .Naive) dipFeed twoCalls).execution twoCalls "two calls" = .ok out ∧
      out.tradeLog.length = 2 ∧ out.openAtEnd = [] := by
  obtain ⟨out, hrun, hrows⟩ := exists_ok_of_check (r := BacktestEngine.run (config .Naive)
    dipFeed.toFeed (Setup.naive (config .Naive) dipFeed twoCalls).execution twoCalls "two calls")
    (fun out => decide (out.tradeLog.length = 2)) (by decide +kernel)
  have hquoted : twoCalls.LegsQuoted dipFeed.tape := by
    rintro legs ⟨⟩ leg hleg strike hstrike
    rcases List.mem_pair.1 hleg with hleg | hleg
    · exact callPosition_quoted _ _ hleg hstrike
    · exact callPosition_quoted _ _ hleg hstrike
  obtain ⟨-, -, -, -, -, -, -, -, -, hflat, -⟩ :=
    (hold_to_close (config .Naive) dipFeed twoCalls "two calls" hquoted).2 out hrun
  exact ⟨out, hrun, of_decide_eq_true hrows, hflat⟩

end TwoCalls

end IronCondor
