import IronCondor.Engine.Modes
import IronCondor.Execution.Consistency

/-! # The limits of the resting orders

Only a good-till-cancelled order comes to rest, in the registry and in the model. A market order
is kept from resting by its constructor alone, which a strategy need not use. -/
namespace IronCondor

open Checked ExceptRun OrderBook RealisticFill

section Registry

variable {S X R : Type} [ExecutionModel X] [Strategy S R] [SeedableRng R] {r : Setup S X} {n : Nat}
  {log : List (Batch X)} {s : RunState S X R} {st : EngineState}

/-- Every order of the registry is good-till-cancelled. -/
def RestsGtc (pending : Std.TreeMap OrderId PendingEntry) : Prop :=
  ∀ (orderId : OrderId) (entry : PendingEntry), pending[orderId]? = some entry →
    entry.pending.intent.tif = .Gtc

omit [ExecutionModel X] [Strategy S R] [SeedableRng R] in
theorem RestsGtc.insert {pending : Std.TreeMap OrderId PendingEntry} {orderId : OrderId}
    {entry : PendingEntry} (h : RestsGtc pending) (hentry : entry.pending.intent.tif = .Gtc) :
    RestsGtc (pending.insert orderId entry) := by
  intro oid found hfound
  rw [OrderedMap.getElem?_insert] at hfound
  split_ifs at hfound
  · cases hfound
    exact hentry
  · exact h oid found hfound

theorem RestsGtc.erase {pending : Std.TreeMap OrderId PendingEntry} {orderId : OrderId}
    (h : RestsGtc pending) : RestsGtc (pending.erase orderId) := by
  intro oid found hfound
  rw [OrderedMap.getElem?_erase] at hfound
  split_ifs at hfound
  exact h oid found hfound

/-- An event registers good-till-cancelled orders only, and keeps what it re-registers. -/
theorem RestsGtc.step {pending pending' : Std.TreeMap OrderId PendingEntry} {ev : OrderEvent}
    (h : RestsGtc pending) (hstep : RegistryStep pending pending' ev) : RestsGtc pending' := by
  cases ev with
  | carried orderId run =>
    obtain ⟨entry, hentry, ⟨-, rfl⟩ | ⟨left, rfl, -, -, hleft⟩⟩ := hstep
    · exact h.erase
    · refine h.insert ?_
      rw [hleft]
      exact h orderId entry hentry
  | withdrawn orderId =>
    obtain rfl := hstep
    exact h.erase
  | submitted idx orderId intent run =>
    obtain ⟨-, rfl⟩ | ⟨left, hgtc, rfl, -, -, hleft⟩ := hstep
    · exact h
    · refine h.insert ?_
      rw [hleft]
      exact hgtc

/-- In every reachable state the registry holds good-till-cancelled orders. -/
theorem Setup.play_restsGtc (h : r.play n = .ok (log, s)) : RestsGtc s.engine.pending := by
  refine Setup.play_invariant (fun _ _ st => RestsGtc st.pending) ?_ ?_ ?_ h
  · intro initial _ orderId entry hentry
    simp [EngineState.new] at hentry
  · intro log b after hb hexec _
    obtain ⟨trade, hfold⟩ := hexec.applied
    obtain ⟨ids, -, hstart⟩ := hexec.minted
    refine foldlM_invariant (fun s : StepState => RestsGtc s.engine.pending) ?_ ?_ hfold
    · exact fun s ev t hs happly => hs.step (applyEvent_registry happly).1
    · rw [hstart]
      exact hb
  · intro log x st snapshot isLast point st' hst hsettled
    rw [hsettled.books]
    exact hst

end Registry

section Realistic

variable {S R B : Type} [DecimalArith] [Book B ObOrderId] [Strategy S R] [SeedableRng R]
  {config : BacktestConfig} {feed : MaterialisedFeed} {strategy : S} {n : Nat}
  {log : List (Batch (RealisticFill B))} {s : RunState S (RealisticFill B) R}

/-- In every reachable state the model is consistent with the orders issued so far. -/
theorem Setup.play_consistent
    (h : (Setup.realistic B config feed strategy).play n = .ok (log, s)) :
    OrdersTracked log s.execution s.engine ∧ Consistent (issued log) s.execution := by
  refine Setup.play_tracked (idle_realistic config feed strategy)
    (fun log x _ => Consistent (issued log) x) ?_ ?_ (fun _ _ _ _ _ _ _ hx _ => hx) h
  · exact fun _ _ => consistent_start (.inr ⟨_, rfl⟩)
  · intro log b after htracked hb hexec _
    obtain ⟨a, ha, -, -⟩ := hexec.attributed
    have hfresh : ((issued (log ++ [b])).map Prod.fst).Nodup :=
      List.pairwise_map.2 ((htracked.fresh hexec).1.imp fun hlt heq =>
        absurd (congrArg Id.value heq) (ne_of_lt hlt))
    rw [issued_append] at hfresh ⊢
    exact (fillAttributed_consistent hb hfresh ha).1

/-- Every order a call of the run refills was good till cancelled. -/
theorem Setup.play_carries_gtc
    (h : (Setup.realistic B config feed strategy).play n = .ok (log, s)) :
    ∀ b ∈ log, ∀ orderId run, .carried orderId run ∈ b.events → ∀ fill ∈ run,
      ∃ intent, (orderId, intent) ∈ issued log ∧ intent.tif = .Gtc := by
  induction n generalizing log s with
  | zero =>
    obtain ⟨initial, first, b, -, -, rfl, -, -, hmodel, hexec, -, -⟩ := Setup.play_zero h
    refine List.forall_mem_singleton.2 fun orderId run hev fill hfill => ?_
    obtain ⟨contract, hresting⟩ := hexec.law.carried orderId run hev fill hfill
    rw [hmodel] at hresting
    exact absurd hresting (idle_realistic config feed strategy orderId contract fill.side)
  | succ n ih =>
    obtain ⟨prior, x, snapshot, b, point, after, hprior, -, rfl, -, -, hmodel, hexec, -, -, -⟩ :=
      Setup.play_succ h
    have hwider : issued prior ⊆ issued (prior ++ [b]) := by
      rw [issued_append]
      exact List.subset_append_left _ _
    refine List.forall_mem_append.2 ⟨fun c hc orderId run hev fill hfill => ?_,
      List.forall_mem_singleton.2 fun orderId run hev fill hfill => ?_⟩
    · obtain ⟨intent, hmem, htif⟩ := ih hprior c hc orderId run hev fill hfill
      exact ⟨intent, hwider hmem, htif⟩
    · obtain ⟨contract, seq, order, horder, rfl, -, -⟩ :=
        hexec.law.carried orderId run hev fill hfill
      rw [hmodel] at horder
      obtain ⟨intent, hmem, -, -, htif⟩ :=
        ((Setup.play_consistent hprior).2.mirrored.live seq order horder).submitted
      exact ⟨intent, hwider hmem, htif⟩

/-- When every order of the run passes its validation, whatever rests has a limit price. -/
theorem resting_orders_limited
    (h : (Setup.realistic B config feed strategy).play n = .ok (log, s))
    (hvalid : ∀ order ∈ issued log, order.2.validate = .ok ()) :
    (∀ (orderId : OrderId) (entry : PendingEntry), s.engine.pending[orderId]? = some entry →
      entry.pending.intent.limit ≠ none) ∧
    ∀ (seq : Nat) (order : RestingStrategyOrder), s.execution.restingStrategy[seq]? = some order →
      (∃ intent, (order.orderId, intent) ∈ issued log) ∧
        ∀ intent, (order.orderId, intent) ∈ issued log → intent.limit ≠ none := by
  obtain ⟨htracked, hconsistent⟩ := Setup.play_consistent h
  have hgtc := Setup.play_restsGtc h
  have hlimit : ∀ intent : OrderIntent, intent.validate = .ok () → intent.tif = .Gtc →
      intent.limit ≠ none := by
    intro intent hintent htif hnone
    rw [OrderIntent.validate_eq_ok.1 hintent hnone] at htif
    cases htif
  constructor
  · intro orderId entry hentry
    obtain ⟨-, intent, hmem, hremains⟩ := htracked.sourced orderId entry hentry
    have htif := hgtc orderId entry hentry
    rw [hremains] at htif ⊢
    exact hlimit intent (hvalid _ hmem) htif
  · intro seq order horder
    obtain ⟨intent, hmem, -, -, htif⟩ := (hconsistent.mirrored.live seq order horder).submitted
    refine ⟨⟨intent, hmem⟩, fun other hother => ?_⟩
    rw [htracked.inOrder.unique hother hmem]
    exact hlimit intent (hvalid _ hmem) htif

end Realistic

section Small

open SmallMarket

/-- Two orders of the startup, one of which rests at its limit. -/
theorem resting_orders_limited_small : ∃ log s,
    (Setup.realistic (ReferenceBook ObOrderId) (config .Realistic) dipFeed
      (⟨restAndTake, []⟩ : Script)).play 0 = .ok (log, s) ∧
    s.engine.pending.values.map (fun entry => entry.pending.intent.limit.map Bounded.value) =
      [some 100] ∧
    ∀ (orderId : OrderId) (entry : PendingEntry), s.engine.pending[orderId]? = some entry →
      entry.pending.intent.limit ≠ none := by
  obtain ⟨⟨log, s⟩, h, hcheck⟩ := exists_ok_of_check (r := (Setup.realistic
    (ReferenceBook ObOrderId) (config .Realistic) dipFeed (⟨restAndTake, []⟩ : Script)).play 0)
    (fun run => decide (run.2.engine.pending.values.map
        (fun entry => entry.pending.intent.limit.map Bounded.value) = [some 100] ∧
      ∀ order ∈ issued run.1, order.2.validate = .ok ())) (by decide +kernel)
  obtain ⟨hlimits, hvalid⟩ := of_decide_eq_true hcheck
  exact ⟨log, s, h, hlimits, (resting_orders_limited h hvalid).1⟩

/-- Buy five at the market, good till cancelled. -/
def restAtMarket : OrderIntent :=
  order .Open .Long (lot 5) none .Gtc

/-- The constructor refuses the order; the engine takes it, and what the touch does not fill rests
without a limit price, in the registry and in the model. -/
theorem market_order_rests : restAtMarket.validate ≠ .ok () ∧ ∃ log s,
    (Setup.realistic (ReferenceBook ObOrderId) (config .Realistic) dipFeed
      (⟨[.Submit restAtMarket], []⟩ : Script)).play 0 = .ok (log, s) ∧
    (∃ entry ∈ s.engine.pending.values, entry.pending.intent.limit = none) ∧
    ∃ resting ∈ s.execution.restingStrategy.values, ∃ intent,
      (resting.orderId, intent) ∈ issued log ∧ intent.limit = none := by
  refine ⟨by decide, ?_⟩
  obtain ⟨⟨log, s⟩, h, hcheck⟩ := exists_ok_of_check (r := (Setup.realistic
    (ReferenceBook ObOrderId) (config .Realistic) dipFeed
      (⟨[.Submit restAtMarket], []⟩ : Script)).play 0)
    (fun run => decide ((∃ entry ∈ run.2.engine.pending.values,
        entry.pending.intent.limit = none) ∧
      ∃ resting ∈ run.2.execution.restingStrategy.values, ∃ sub ∈ issued run.1,
        sub.1 = resting.orderId ∧ sub.2.limit = none)) (by decide +kernel)
  obtain ⟨hregistry, resting, hresting, sub, hsub, hid, hnone⟩ := of_decide_eq_true hcheck
  exact ⟨log, s, h, hregistry, resting, hresting, sub.2, hid ▸ hsub, hnone⟩

end Small

end IronCondor
