import IronCondor.Engine.Accounting
import IronCondor.Engine.Provenance

/-! # Limits under a changing tick

A resting order waits in its book as a number of ticks, and a later refresh turns the number back
into cents with the tick of its own snapshot. The limit is kept exactly when that tick reads the
number no worse than the tick it was submitted under. -/
namespace IronCondor

open Checked ExceptRun OrderBook RealisticFill

section Ticks

variable {side : Side} {price limit tick own : PriceCents}

/-- A limit read back under another tick is kept when that tick is no worse. -/
theorem Side.Within.reread (hown : 0 < own.value) (htick : side.Within tick own)
    (hprice : price.value * own.value = limit.value * tick.value) : side.Within price limit := by
  cases side with
  | Long =>
    have hle : limit.value * tick.value ≤ limit.value * own.value :=
      mul_le_mul_of_nonneg_left htick limit.nonneg
    exact le_of_mul_le_mul_right (hprice ▸ hle) hown
  | Short =>
    have hle : limit.value * own.value ≤ limit.value * tick.value :=
      mul_le_mul_of_nonneg_left htick limit.nonneg
    exact le_of_mul_le_mul_right (hprice ▸ hle) hown

/-- A limit above zero is kept only then. -/
theorem Side.Within.reread_iff (hown : 0 < own.value) (hlimit : 0 < limit.value)
    (hprice : price.value * own.value = limit.value * tick.value) :
    side.Within price limit ↔ side.Within tick own := by
  refine ⟨fun h => ?_, fun h => h.reread hown hprice⟩
  cases side with
  | Long =>
    have hle : price.value * own.value ≤ limit.value * own.value :=
      mul_le_mul_of_nonneg_right h own.nonneg
    exact le_of_mul_le_mul_left (hprice ▸ hle) hlimit
  | Short =>
    have hle : limit.value * own.value ≤ price.value * own.value :=
      mul_le_mul_of_nonneg_right h own.nonneg
    exact le_of_mul_le_mul_left (hprice ▸ hle) hlimit

end Ticks

section Calls

variable {B : Type} [DecimalArith] [Book B ObOrderId] [LawfulBook B]
  {log log' : List (Batch (RealisticFill B))} {b : Batch (RealisticFill B)} {after : EngineState}

/-- The tick of a call. -/
def Batch.tick {X : Type} (b : Batch X) : PriceCents := b.snapshot.spec.tickSizeCents

/-- A fill of an order that rested when the call began: its limit, counted in the ticks it was
submitted under, is paid in those of the call. -/
inductive Refreshed (log : List (Batch (RealisticFill B))) (b : Batch (RealisticFill B))
    (orderId : OrderId) (fill : Fill) : Prop
  | intro (own : Batch (RealisticFill B)) (intent : OrderIntent) (seq : Nat)
      (order : RestingStrategyOrder) (tracked : b.model.restingStrategy[seq]? = some order)
      (order_id : order.orderId = orderId) (earlier : own ∈ log)
      (issued : (orderId, intent) ∈ own.submissions)
      (price : ∀ limit, intent.limit = some limit →
        fill.price.value * own.tick.value = limit.value * b.tick.value)

/-- How the fills of an event are priced: those of an order submitted in the call within its
limit, those of an order that rested at its limit, as the call reads it. -/
def Priced (log : List (Batch (RealisticFill B))) (b : Batch (RealisticFill B)) :
    OrderEvent → Prop
  | .carried orderId run => ∀ fill ∈ run, Refreshed log b orderId fill
  | .withdrawn _ => True
  | .submitted _ orderId intent run => (orderId, intent) ∈ b.submissions ∧
      ∀ fill ∈ run, ∀ limit, intent.limit = some limit → intent.side.Within fill.price limit

omit [DecimalArith] [Book B ObOrderId] [LawfulBook B] in
theorem Priced.mono {ev : OrderEvent} (h : Priced log b ev) (hlog : log ⊆ log') :
    Priced log' b ev := by
  cases ev with
  | carried orderId run =>
    intro fill hfill
    obtain ⟨own, intent, seq, order, tracked, order_id, earlier, issued, price⟩ := h fill hfill
    exact ⟨own, intent, seq, order, tracked, order_id, hlog earlier, issued, price⟩
  | withdrawn orderId => trivial
  | submitted idx orderId intent run => exact h

/-- Every fill of a call is priced by its order's limit. -/
theorem Batch.Executed.priced (h : Placed (PlacedBy log) b.model) (hexec : b.Executed after) :
    ∀ ev ∈ b.events, Priced log b ev := by
  obtain ⟨-, hcarried, hsubmitted⟩ := placed_call h hexec
  intro ev hev
  cases ev with
  | carried orderId run =>
    intro fill hfill
    obtain ⟨contract, ticks, ⟨seq, order, horder, hid, -, -⟩, -, ⟨own, hown, intent, hissued, -, -,
      hticks⟩, hprice⟩ := hcarried orderId run hev fill hfill
    refine ⟨own, intent, seq, order, horder, hid, hown, hissued, fun limit hlimit => ?_⟩
    change fill.price.value * own.snapshot.spec.tickSizeCents.value =
      limit.value * b.snapshot.spec.tickSizeCents.value
    rw [hprice, ← hticks limit hlimit]
    ring
  | withdrawn orderId => trivial
  | submitted idx orderId intent run =>
    exact ⟨hexec.submission_mem hev rfl, hsubmitted idx orderId intent run hev⟩

/-- Every limit order that rests when the call begins was submitted under a tick that the tick of
the call does not make worse: no smaller when it buys, no larger when it sells. -/
def Batch.KeepsTicks (log : List (Batch (RealisticFill B))) (b : Batch (RealisticFill B)) : Prop :=
  ∀ (seq : Nat) (order : RestingStrategyOrder), b.model.restingStrategy[seq]? = some order →
    ∀ own ∈ log, ∀ intent, (order.orderId, intent) ∈ own.submissions →
      intent.limit.isSome = true → intent.side.Within b.tick own.tick

/-- Every recorded fill is of a submitted order, and within the limit of that order. -/
def LimitsHold {X : Type} (log : List (Batch X)) (st : EngineState) : Prop :=
  ∀ record ∈ st.bundle.fills, ∃ intent, (record.orderId, intent) ∈ issued log ∧
    ∀ limit, intent.limit = some limit → intent.side.Within record.fill.price limit

omit [DecimalArith] [Book B ObOrderId] [LawfulBook B] in
/-- A fill of a call that keeps the ticks of its resting limit orders is within its limit. -/
theorem Priced.within {ev : OrderEvent} (h : Priced log b ev) (hb : b ∈ log)
    (hkeeps : b.KeepsTicks log) {fill : Fill} (hfill : fill ∈ ev.fills) :
    ∃ intent, (ev.orderId, intent) ∈ issued log ∧
      ∀ limit, intent.limit = some limit → intent.side.Within fill.price limit := by
  cases ev with
  | carried orderId run =>
    obtain ⟨own, intent, seq, order, tracked, rfl, earlier, issued, price⟩ := h fill hfill
    refine ⟨intent, List.mem_flatMap.2 ⟨own, earlier, issued⟩, fun limit hlimit => ?_⟩
    refine Side.Within.reread own.snapshot.spec.tickSizeCents_pos ?_ (price limit hlimit)
    exact hkeeps seq order tracked own earlier intent issued (by rw [hlimit]; rfl)
  | withdrawn orderId => cases hfill
  | submitted idx orderId intent run =>
    exact ⟨intent, List.mem_flatMap.2 ⟨b, hb, h.1⟩, h.2 fill hfill⟩

end Calls

section Runs

variable {S R B : Type} [DecimalArith] [Book B ObOrderId] [LawfulBook B] [Strategy S R]
  [SeedableRng R] {log : List (Batch (RealisticFill B))} {n : Nat}

/-- Every fill of a realistic run is priced by its order's limit. -/
theorem Setup.play_priced (config : BacktestConfig) (feed : MaterialisedFeed) (strategy : S)
    {s : RunState S (RealisticFill B) R}
    (h : (Setup.realistic B config feed strategy).play n = .ok (log, s)) :
    ∀ b ∈ log, ∀ ev ∈ b.events, Priced log b ev := by
  refine (Setup.play_invariant (fun log x _ => Placed (PlacedBy log) x ∧
    ∀ b ∈ log, ∀ ev ∈ b.events, Priced log b ev) ?_ ?_ ?_ h).2
  · exact fun _ _ => ⟨placed_realistic _ config feed strategy, List.forall_mem_nil _⟩
  · rintro log b after ⟨hplaced, hpriced⟩ hexec -
    have hlater : log ⊆ log ++ [b] := List.subset_append_left _ _
    refine ⟨(placed_call hplaced hexec).1, List.forall_mem_append.2
      ⟨fun b' hb' ev hev => (hpriced b' hb' ev hev).mono hlater,
        List.forall_mem_singleton.2 fun ev hev => (hexec.priced hplaced ev hev).mono hlater⟩⟩
  · exact fun _ _ _ _ _ _ _ hinv _ => hinv

/-- Limits of a realistic run: while no tick makes a resting limit worse, every recorded fill is
within the limit of its order; and the fill of a limit order by a later refresh is within a limit
above zero exactly when the tick of the refresh does not make that limit worse. -/
theorem limit_prices_kept (config : BacktestConfig) (feed : MaterialisedFeed) (strategy : S)
    (n : Nat) (log : List (Batch (RealisticFill B))) (s : RunState S (RealisticFill B) R)
    (h : (Setup.realistic B config feed strategy).play n = .ok (log, s)) :
    ((∀ b ∈ log, b.KeepsTicks log) → LimitsHold log s.engine) ∧
      ∀ b ∈ log, ∀ orderId run, .carried orderId run ∈ b.events → ∀ fill ∈ run,
        ∃ own ∈ log, ∃ intent, (orderId, intent) ∈ own.submissions ∧
          ∀ limit, intent.limit = some limit → 0 < limit.value →
            (intent.side.Within fill.price limit ↔ intent.side.Within b.tick own.tick) := by
  have hpriced := Setup.play_priced config feed strategy h
  constructor
  · intro hkeeps record hrecord
    obtain ⟨initial, -, hbalanced⟩ := play_balanced h
    have hentry : (record.orderId, record.fill) ∈ log.flatMap Batch.entries := by
      rw [← hbalanced.table]
      exact List.mem_map_of_mem hrecord
    obtain ⟨b, hb, hentry⟩ := List.mem_flatMap.1 hentry
    obtain ⟨ev, hev, hentry⟩ := List.mem_flatMap.1 hentry
    obtain ⟨fill, hfill, heq⟩ := List.mem_map.1 hentry
    obtain ⟨hid, rfl⟩ := Prod.mk.inj heq
    rw [← hid]
    exact (hpriced b hb ev hev).within hb (hkeeps b hb) hfill
  · intro b hb orderId run hev fill hfill
    obtain ⟨own, intent, -, -, -, -, hown, hissued, hprice⟩ := hpriced b hb _ hev fill hfill
    refine ⟨own, hown, intent, hissued, fun limit hlimit hpos => ?_⟩
    exact Side.Within.reread_iff own.snapshot.spec.tickSizeCents_pos hpos (hprice limit hlimit)

end Runs

section Coarser

open SmallMarket

/-- The tick doubles from five to ten, and the ask goes up with it. -/
def coarser : List ChainSnapshot :=
  [firstStep, snapshot (lit 1) ⟨10, by decide⟩ (by decide)
    [quote call ⟨130, by decide⟩ ⟨140, by decide⟩ ⟨150, by decide⟩]]

def coarserFeed : MaterialisedFeed := feed coarser (lit 1) rfl

/-- A buy rests at one hundred, twenty ticks of five; the next refresh fills it at twenty ticks of
ten. -/
theorem limit_prices_lost : ∃ log s,
    (Setup.realistic (ReferenceBook ObOrderId) (config .Realistic) coarserFeed
      (⟨restAndTake, []⟩ : Script)).play 2 = .ok (log, s) ∧
      ∃ record ∈ s.engine.bundle.fills, record.fill.price = ⟨200, by decide⟩ ∧
        (∀ sub ∈ issued log, sub.1 = record.orderId →
          sub.2.side = .Long ∧ sub.2.limit = some ⟨100, by decide⟩) ∧
        ¬ LimitsHold log s.engine := by
  obtain ⟨⟨log, s⟩, h, hcheck⟩ := exists_ok_of_check (r := (Setup.realistic
    (ReferenceBook ObOrderId) (config .Realistic) coarserFeed
    (⟨restAndTake, []⟩ : Script)).play 2)
    (fun run => decide (∃ record ∈ run.2.engine.bundle.fills,
      record.fill.price = ⟨200, by decide⟩ ∧ ∀ sub ∈ issued run.1, sub.1 = record.orderId →
        sub.2.side = .Long ∧ sub.2.limit = some ⟨100, by decide⟩)) (by decide +kernel)
  obtain ⟨record, hrecord, hprice, hown⟩ := of_decide_eq_true hcheck
  refine ⟨log, s, h, record, hrecord, hprice, hown, fun hkept => ?_⟩
  obtain ⟨intent, hissued, hwithin⟩ := hkept record hrecord
  obtain ⟨hside, hlimit⟩ := hown _ hissued rfl
  have hle := hwithin _ hlimit
  rw [hside, hprice] at hle
  exact absurd hle (by decide)

/-- On the dip the tick stays, and the resting buy is filled at its limit. -/
theorem limit_prices_kept_dip : ∃ log s,
    (Setup.realistic (ReferenceBook ObOrderId) (config .Realistic) dipFeed
      (⟨restAndTake, []⟩ : Script)).play 3 = .ok (log, s) ∧
      (∀ b ∈ log, ∀ own ∈ log, b.tick = own.tick) ∧
      (∃ record ∈ s.engine.bundle.fills, record.fill.price = ⟨100, by decide⟩) ∧
      LimitsHold log s.engine := by
  obtain ⟨⟨log, s⟩, h, hcheck⟩ := exists_ok_of_check (r := (Setup.realistic
    (ReferenceBook ObOrderId) (config .Realistic) dipFeed (⟨restAndTake, []⟩ : Script)).play 3)
    (fun run => decide ((∀ b ∈ run.1, ∀ own ∈ run.1, b.tick = own.tick) ∧
      ∃ record ∈ run.2.engine.bundle.fills, record.fill.price = ⟨100, by decide⟩))
    (by decide +kernel)
  obtain ⟨hsame, hfills⟩ := of_decide_eq_true hcheck
  refine ⟨log, s, h, hsame, hfills, (limit_prices_kept _ _ _ 3 log s h).1 fun b hb => ?_⟩
  intro seq order _ own hown intent _ _
  rw [hsame b hb own hown]
  cases intent.side
  · exact le_refl _
  · exact le_refl _

end Coarser

end IronCondor
