import IronCondor.Engine.Modes
import IronCondor.Execution.Placement

/-! # Where the fills of a realistic run come from

Every resting order of a realistic run goes back to the call that submitted it: it rests in the
book of its own contract, at its own limit in the ticks of that call's snapshot. -/
namespace IronCondor

open Checked ExceptRun OrderBook RealisticFill

section Calls

variable {B : Type} [Book B ObOrderId] [LawfulBook B] {snap : ChainSnapshot}
  {submitIds : List OrderId} {R : OrderId → ContractKey → Side → Nat → Prop}

/-- A price within the limit of an order of this side. -/
def Side.Within : Side → (price limit : PriceCents) → Prop
  | .Long, price, limit => price.value ≤ limit.value
  | .Short, price, limit => limit.value ≤ price.value

instance (side : Side) (price limit : PriceCents) : Decidable (side.Within price limit) := by
  cases side <;> exact inferInstanceAs (Decidable (_ ≤ _))

/-- A price the book accepts at a limit of whole ticks is within that limit. -/
theorem Side.Within.of_accepts {side : Side} {ticks level : Nat} {tick price limit : PriceCents}
    (h : (obSide side).Accepts ticks level) (hlimit : (ticks : Int) * tick.value = limit.value)
    (hprice : price.value = level * tick.value) : side.Within price limit := by
  cases side with
  | Long =>
    have hle : (level : Int) ≤ ticks := Int.ofNat_le.2 h
    change price.value ≤ limit.value
    rw [hprice, ← hlimit]
    exact mul_le_mul_of_nonneg_right hle tick.nonneg
  | Short =>
    have hle : (ticks : Int) ≤ level := Int.ofNat_le.2 h
    change limit.value ≤ price.value
    rw [hprice, ← hlimit]
    exact mul_le_mul_of_nonneg_right hle tick.nonneg

/-- The fills of a routed intent are within its own limit. -/
theorem fillSubmit_within {m m' : RealisticFill B} {intent : OrderIntent} {orderId : OrderId}
    {fills : List Fill} (h : m.fillSubmit intent orderId snap = .ok (m', fills)) :
    ∀ fill ∈ fills, ∀ limit, intent.limit = some limit → intent.side.Within fill.price limit := by
  obtain ⟨_, ticks, before, after, result, hsubmitted⟩ := fillSubmit_eq_ok h
  obtain ⟨book, hadd, -⟩ := hsubmitted.matched
  intro fill hfill limit hlimit
  obtain ⟨trade, htrade, hlevel⟩ := Pointwise.exists_left hsubmitted.levels hfill
  obtain ⟨_, -, -, -, haccepts⟩ := LawfulBook.trade_maker hadd htrade
  exact .of_accepts haccepts (hsubmitted.limitTicks limit hlimit) hlevel.price

/-- The submit phase places every order it leaves resting. -/
theorem routeCommands_placed {entries : List (OrderCommand × Nat)} {r r' : Routing B}
    (h : Placed R r.model)
    (hR : ∀ run ∈ r'.routed, ∀ ticks, LimitTicks run.intent snap.spec.tickSizeCents ticks →
      R run.orderId run.intent.contract run.intent.side ticks)
    (hroute : entries.foldlM (routeCommand submitIds snap) r = .ok r') :
    Placed R r'.model ∧ ∃ routed, r'.routed = r.routed ++ routed ∧
      ∀ run ∈ routed, ∀ fill ∈ run.fills, ∀ limit, run.intent.limit = some limit →
        run.intent.side.Within fill.price limit := by
  induction entries generalizing r with
  | nil =>
    obtain rfl := foldlM_nil_ok.1 hroute
    exact ⟨h, [], by simp, List.forall_mem_nil _⟩
  | cons entry entries ih =>
    obtain ⟨mid, hmid, hrest⟩ := foldlM_cons_ok.1 hroute
    rcases routeCommand_cases hmid with ⟨-, rfl⟩ |
      ⟨intent, orderId, m₁, fills, -, -, hsubmit, hr, -, hmodel⟩
    · exact ih h hrest
    obtain ⟨later, hlater, -⟩ := routeCommands_tracks hrest
    have hmine : (⟨entry.2, orderId, intent, fills⟩ : RoutedFills) ∈ r'.routed := by
      rw [hlater, hr]
      simp
    have hplaced := fillSubmit_placed h (hR _ hmine) hsubmit
    have hmid : Placed R mid.model := by
      rcases hmodel with ⟨-, hm⟩ | ⟨_, -, -, hm⟩ <;> rw [hm]
      · exact hplaced
      · exact ⟨hplaced.below, hplaced.makers, hplaced.tracked, hplaced.minted, hplaced.placed⟩
    obtain ⟨hplaced', routed, hrouted, hwithin⟩ := ih hmid hrest
    refine ⟨hplaced', ⟨entry.2, orderId, intent, fills⟩ :: routed, ?_,
      List.forall_mem_cons.2 ⟨fillSubmit_within hsubmit, hwithin⟩⟩
    rw [hrouted, hr, List.append_assoc, List.singleton_append]

end Calls

section Runs

variable {S R B : Type} [DecimalArith] [Book B ObOrderId] [LawfulBook B] [Strategy S R]
  [SeedableRng R] {log : List (Batch (RealisticFill B))} {b : Batch (RealisticFill B)}
  {after : EngineState} {n : Nat}

/-- An order of the log, placed at its own limit in the ticks of the submitting snapshot. -/
def PlacedBy {X : Type} (log : List (Batch X)) (orderId : OrderId) (contract : ContractKey)
    (side : Side) (ticks : Nat) : Prop :=
  ∃ b ∈ log, ∃ intent, (orderId, intent) ∈ b.submissions ∧ intent.contract = contract ∧
    intent.side = side ∧ LimitTicks intent b.snapshot.spec.tickSizeCents ticks

omit [Strategy S R] [SeedableRng R] [LawfulBook B] in
theorem Batch.Executed.routed_mem {a : Attribution} (hexec : b.Executed after)
    (ha : b.model.fillAttributed b.cmds b.submitIds b.snapshot = .ok (b.modelAfter, a))
    (hevents : b.events = a.events b.cmds) {run : RoutedFills} (hrun : run ∈ a.routed) :
    (run.orderId, run.intent) ∈ b.submissions :=
  hexec.submission_mem (hevents ▸ mem_attribution_routed ha hrun) rfl

/-- One call: what it refills was placed before it, what it submits is filled within its limit,
and what it leaves resting is placed. -/
theorem placed_call (h : Placed (PlacedBy log) b.model) (hexec : b.Executed after) :
    Placed (PlacedBy (log ++ [b])) b.modelAfter ∧
      (∀ orderId run, .carried orderId run ∈ b.events → ∀ fill ∈ run,
        Refilled (PlacedBy log) b.model b.snapshot.spec.tickSizeCents (orderId, fill)) ∧
      ∀ idx orderId intent run, .submitted idx orderId intent run ∈ b.events → ∀ fill ∈ run,
        ∀ limit, intent.limit = some limit → intent.side.Within fill.price limit := by
  obtain ⟨a, ha, -, hevents⟩ := hexec.attributed
  have hattributed := ha
  simp only [fillAttributed, bind_ok_iff, pure_ok_iff, Prod.exists, Prod.mk.injEq] at ha
  obtain ⟨m₁, carried, hrefresh, m₂, hcancel, r, hroute, hmodel, rfl⟩ := ha
  obtain ⟨hplaced₁, -, hcarried⟩ := refreshBooks_placed
    (m := { b.model with fillGroups := [], carryGroups := [] })
    ⟨h.below, h.makers, h.tracked, h.minted, h.placed⟩ hrefresh
  have hplaced₂ := foldlM_invariant (Placed (PlacedBy log))
    (fun _ _ _ hx hy => cancelCommand_placed hx hy) hplaced₁ hcancel
  have hplaced₃ : Placed (PlacedBy (log ++ [b])) m₂ := hplaced₂.mono <| by
    rintro orderId contract side price ⟨b', hb', hfacts⟩
    exact ⟨b', List.mem_append_left _ hb', hfacts⟩
  obtain ⟨hplaced, routed, hrouted, hwithin⟩ := routeCommands_placed (r := ⟨m₂, [], 0⟩) hplaced₃
    (fun run hrun ticks hticks => ⟨b, by simp, run.intent,
      hexec.routed_mem hattributed hevents hrun, rfl, rfl, hticks⟩) hroute
  rw [List.nil_append] at hrouted
  rw [hmodel] at hplaced
  refine ⟨hplaced, fun orderId run hev fill hfill => ?_, fun idx orderId intent run hev => ?_⟩
  · rw [hevents] at hev
    rcases mem_attribution_events hattributed hev with ⟨run', hrun, heq⟩ | ⟨_, -, heq⟩ |
      ⟨_, heq⟩ <;> cases heq
    exact hcarried _ (mem_carryRuns hrun hfill)
  · rw [hevents] at hev
    rcases mem_attribution_events hattributed hev with ⟨_, -, heq⟩ | ⟨run', hrun, heq⟩ |
      ⟨_, heq⟩ <;> cases heq
    exact hwithin run' (hrouted ▸ hrun)

/-- The carried fills of a call trade the contracts of their orders. -/
theorem placed_carriesOwn (h : Placed (PlacedBy log) b.model) (hexec : b.Executed after) :
    CarriesOwn (fun traded own => (traded == own) = true) b := by
  intro orderId run hev fill hfill
  obtain ⟨contract, _, htracks, hcontract, -⟩ := (placed_call h hexec).2.1 orderId run hev fill hfill
  exact ⟨contract, htracks, ContractKey.beq_iff_cmp_eq.2 hcontract⟩

omit [DecimalArith] [LawfulBook B] [Strategy S R] [SeedableRng R] in
theorem placed_realistic (P : OrderId → ContractKey → Side → Nat → Prop) (config : BacktestConfig)
    (feed : MaterialisedFeed) (strategy : S) : Placed P (Setup.realistic B config feed strategy).execution where
  below := show strategyIdBase ≤ makerIdBase by decide
  makers := le_rfl
  tracked seq order horder := by simp [Setup.realistic, withLiquidityProfile, new] at horder
  minted contract book seq left hbook := by
    simp [Setup.realistic, withLiquidityProfile, new] at hbook
  placed contract book seq left order hbook := by
    simp [Setup.realistic, withLiquidityProfile, new] at hbook

/-- In every reachable state the resting orders are where and as their calls placed them. -/
theorem Setup.play_placed (config : BacktestConfig) (feed : MaterialisedFeed) (strategy : S)
    {s : RunState S (RealisticFill B) R}
    (h : (Setup.realistic B config feed strategy).play n = .ok (log, s)) :
    Placed (PlacedBy log) s.execution :=
  Setup.play_invariant (fun log x _ => Placed (PlacedBy log) x)
    (fun _ _ => placed_realistic _ config feed strategy)
    (fun _ _ _ hplaced hexec _ => (placed_call hplaced hexec).1)
    (fun _ _ _ _ _ _ _ hplaced _ => hplaced) h

end Runs

end IronCondor
