import IronCondor.Engine.Depth
import IronCondor.Engine.RestingOrders
import IronCondor.Execution.Ladder
import IronCondor.Execution.Supply

/-! # Marketable orders

An order without a limit reaches its book with an aggressive one, some ticks through the quoted
touch. What it trades with are the seeds of the same snapshot, so it fills between the touch and
that limit. -/
namespace IronCondor

open Checked ExceptRun OrderBook RealisticFill

section Limits

variable {quote : QuoteView} {side : Side} {tick price limit : PriceCents} {cap : Bounded u32}

/-- A price from the touch on the taker's side to at most `cap` ticks through it. -/
def QuoteView.Reached (quote : QuoteView) (tick : PriceCents) (cap : Bounded u32) :
    Side → PriceCents → Prop
  | .Long, price => quote.ask.value ≤ price.value ∧
      price.value ≤ quote.ask.value + tick.value * cap.value
  | .Short, price => quote.bid.value - tick.value * cap.value ≤ price.value ∧
      price.value ≤ quote.bid.value

/-- The tick scaling takes every aligned price, and is undone exactly. -/
theorem centsToTicks_inverse (htick : 0 < tick.value) (haligned : price.value % tick.value = 0) :
    ∃ ticks, centsToTicks price tick = .ok ticks ∧ ticksToCents ticks tick = .ok price := by
  have hscaled : centsToTicks price tick = .ok (price.value / tick.value).toNat := by
    simp only [centsToTicks, bind_ok_iff, require_eq_ok]
    exact ⟨(), htick.ne', (), haligned, rfl⟩
  refine ⟨_, hscaled, ?_⟩
  have hback := (centsToTicks_eq_ok hscaled).2
  have hwide : u128.Contains price.value := by
    have hprice := price.inRange
    norm_num [IntRange.Contains, u128, u64, IntRange.unsigned] at hprice ⊢
    omega
  simp only [ticksToCents, bind_ok_iff, narrow_eq_ok]
  exact ⟨⟨price.value, hwide⟩, hback.symm, rfl⟩

/-- The aggressive limit is on the tick grid and on the far side of the touch. -/
theorem marketableLimitCents_reached (hgrid : quote.OnGrid tick)
    (h : marketableLimitCents side quote tick cap = .ok limit) :
    limit.value % tick.value = 0 ∧ quote.Reached tick cap side limit := by
  have htick := tick.nonneg
  have hcap := cap.nonneg
  have hoffset : 0 ≤ tick.value * cap.value := mul_nonneg htick hcap
  simp only [marketableLimitCents, bind_ok_iff, narrow_eq_ok] at h
  obtain ⟨offset, hvalue, h⟩ := h
  cases side with
  | Long =>
    simp only [obSide, narrow_eq_ok] at h
    rw [h, hvalue]
    refine ⟨?_, ?_, ?_⟩
    · rw [Int.add_mul_emod_self_left]
      exact hgrid.ask_aligned
    · rw [h, hvalue]
      omega
    · rw [h, hvalue]
  | Short =>
    simp only [obSide, narrow_eq_ok] at h
    have hbid := quote.bid.nonneg
    rw [hvalue] at h
    refine ⟨?_, ?_, ?_⟩
    · rw [h]
      rcases max_cases (quote.bid.value - tick.value * cap.value) 0 with ⟨hmax, -⟩ | ⟨hmax, -⟩ <;>
        rw [hmax]
      · rw [Int.sub_mul_emod_self_left]
        exact hgrid.bid_aligned
      · exact Int.zero_emod _
    · rw [h]
      exact le_max_left _ _
    · rw [h]
      exact max_le (by omega) hbid

end Limits

section Calls

variable {B : Type} [Book B ObOrderId] {snap : ChainSnapshot} {submitIds : List OrderId}
  {profile : LiquidityProfile} {plan : List SeedOrder} {m m' : RealisticFill B}
  {cmds : List OrderCommand}

omit [Book B ObOrderId] in
theorem limitCents_congr {intent : OrderIntent}
    (h : m'.marketableCapTicks = m.marketableCapTicks) :
    m'.limitCents intent snap = m.limitCents intent snap := by
  unfold limitCents
  rw [h]

/-- A fill on the grid, at the price of a planned seed of the other side and within the limit the
order reached its book with. -/
structure SeededAt (m : RealisticFill B) (snap : ChainSnapshot) (plan : List SeedOrder)
    (intent : OrderIntent) (fill : Fill) : Prop where
  contract : fill.contract = intent.contract
  side : fill.side = intent.side
  grid : fill.price.value % snap.spec.tickSizeCents.value = 0
  limit : ∃ limit, m.limitCents intent snap = .ok limit ∧ intent.side.Within fill.price limit
  seed : ∃ seed ∈ plan, compare seed.contract intent.contract = .eq ∧
    bookSide seed = (obSide intent.side).opposite ∧ seed.price = fill.price

/-- The cancels of a call leave the ladder where it is. -/
theorem cancelCommands_stocked [LawfulBook B] (h : Stocked profile m)
    (hcancel : cmds.foldlM cancelCommand m = .ok m') :
    Stocked profile m' ∧ m'.restingSeedIds = m.restingSeedIds ∧ Shrinks m.books m'.books ∧
      m'.marketableCapTicks = m.marketableCapTicks := by
  refine foldlM_invariant (fun x => Stocked profile x ∧ x.restingSeedIds = m.restingSeedIds ∧
    Shrinks m.books x.books ∧ x.marketableCapTicks = m.marketableCapTicks) ?_ ⟨h, rfl, .refl, rfl⟩
    hcancel
  rintro x cmd y ⟨hx, hids, hshrinks, hcap⟩ hstep
  obtain ⟨hy, hids', hshrinks'⟩ := cancelCommand_stocked hx hstep
  exact ⟨hy, hids'.trans hids, hshrinks.trans hshrinks', (cancelCommand_cap hstep).trans hcap⟩

variable [LawfulBook B]

theorem fillSubmit_seeded {intent : OrderIntent} {orderId : OrderId} {fills : List Fill}
    (hstocked : Stocked profile m) (hladder : Laddered plan snap.spec.tickSizeCents m)
    (hsubmit : m.fillSubmit intent orderId snap = .ok (m', fills)) :
    ∀ fill ∈ fills, SeededAt m snap plan intent fill := by
  intro fill hfill
  obtain ⟨hcontract, hside, limit, ticks, price, hlimit, hticks, haccepts, hprice, seed, hseed,
    hsc, hss, hsp⟩ := (fillSubmit_laddered hstocked hladder hsubmit).2 fill hfill
  refine ⟨hcontract, hside, ?_, ⟨limit, hlimit, .of_accepts haccepts hticks hprice⟩, seed, hseed,
    hsc, hss, ?_⟩
  · rw [hprice]
    exact Int.mul_emod_left _ _
  · exact Bounded.ext (hsp.symm.trans hprice.symm)

/-- The submit phase trades at the ladder, every order within its limit. -/
theorem routeCommands_seeded {entries : List (OrderCommand × Nat)} {r : Routing B}
    (h : Stocked profile m) (hladder : Laddered plan snap.spec.tickSizeCents m)
    (hroute : entries.foldlM (routeCommand submitIds snap) ⟨m, [], 0⟩ = .ok r) :
    r.model.marketableCapTicks = m.marketableCapTicks ∧
      ∀ run ∈ r.routed, (∃ limit, m.limitCents run.intent snap = .ok limit) ∧
        ∀ fill ∈ run.fills, SeededAt m snap plan run.intent fill := by
  refine (foldlM_invariant (fun r : Routing B => (Stocked profile r.model ∧
    Laddered plan snap.spec.tickSizeCents r.model) ∧
    r.model.marketableCapTicks = m.marketableCapTicks ∧ ∀ run ∈ r.routed,
      (∃ limit, m.limitCents run.intent snap = .ok limit) ∧
        ∀ fill ∈ run.fills, SeededAt m snap plan run.intent fill) ?_
    ⟨⟨h, hladder⟩, rfl, List.forall_mem_nil _⟩ hroute).2
  rintro r ⟨cmd, idx⟩ r' ⟨⟨hr, hladder⟩, hcap, hseeded⟩ hstep
  rcases routeCommand_cases hstep with ⟨-, rfl⟩ |
    ⟨intent, orderId, x, fills, -, -, hsubmit, hrouted, -, hmodel⟩
  · exact ⟨⟨hr, hladder⟩, hcap, hseeded⟩
  have hstocked := fillSubmit_stocked hr hsubmit
  obtain ⟨hkept, -⟩ := fillSubmit_laddered hr hladder hsubmit
  have hcap' := (fillSubmit_cap hsubmit).trans hcap
  have hsame : ∀ intent, r.model.limitCents intent snap = m.limitCents intent snap :=
    fun _ => limitCents_congr hcap
  refine ⟨?_, ?_, ?_⟩
  · rcases hmodel with ⟨-, hm⟩ | ⟨_, -, -, hm⟩ <;> rw [hm]
    · exact ⟨hstocked, hkept⟩
    · exact ⟨hstocked.setGroups _ _, hkept⟩
  · rcases hmodel with ⟨-, hm⟩ | ⟨_, -, -, hm⟩ <;> rw [hm] <;> exact hcap'
  · rw [hrouted]
    refine List.forall_mem_append.2 ⟨hseeded, List.forall_mem_singleton.2 ⟨?_, ?_⟩⟩
    · obtain ⟨limit, _, _, _, _, hsubmitted⟩ := fillSubmit_eq_ok hsubmit
      exact ⟨limit, (hsame intent).symm.trans hsubmitted.limit_eq⟩
    · intro fill hfill
      have hmine := fillSubmit_seeded hr hladder hsubmit fill hfill
      refine ⟨hmine.contract, hmine.side, hmine.grid, ?_, hmine.seed⟩
      rw [← hsame intent]
      exact hmine.limit

/-- Every order of a call trades at the ladder its snapshot seeds. -/
theorem fillAttributed_seeded [DecimalArith] {a : Attribution} (h : Stocked profile m)
    (hplan : planSeed snap profile = .ok plan)
    (hcall : m.fillAttributed cmds submitIds snap = .ok (m', a)) :
    m'.marketableCapTicks = m.marketableCapTicks ∧
      ∀ run ∈ a.routed, (∃ limit, m.limitCents run.intent snap = .ok limit) ∧
        ∀ fill ∈ run.fills, SeededAt m snap plan run.intent fill := by
  simp only [fillAttributed, bind_ok_iff, pure_ok_iff, Prod.exists, Prod.mk.injEq] at hcall
  obtain ⟨m₁, carried, hrefresh, m₂, hcancel, r, hroute, rfl, rfl⟩ := hcall
  obtain ⟨h₁, -⟩ := refreshBooks_stocked (h.setGroups [] []) hrefresh
  obtain ⟨h₂, hids, hshrinks, hcap₂⟩ := cancelCommands_stocked h₁ hcancel
  have hladder := (refreshBooks_laddered (h.setGroups [] []) hplan hrefresh).shrink hshrinks hids
  have hrefreshed := refreshBooks_cap hrefresh
  have hcap : m₂.marketableCapTicks = m.marketableCapTicks := hcap₂.trans hrefreshed
  have hsame : ∀ intent, m₂.limitCents intent snap = m.limitCents intent snap :=
    fun _ => limitCents_congr hcap
  obtain ⟨hcap', hseeded⟩ := routeCommands_seeded h₂ hladder hroute
  refine ⟨hcap'.trans hcap, fun run hrun => ?_⟩
  obtain ⟨hlimit, hfills⟩ := hseeded run hrun
  rw [hsame] at hlimit
  refine ⟨hlimit, fun fill hfill => ?_⟩
  have hmine := hfills fill hfill
  refine ⟨hmine.contract, hmine.side, hmine.grid, ?_, hmine.seed⟩
  rw [← hsame]
  exact hmine.limit

omit [LawfulBook B] in
/-- A call that succeeds has planned its seeds. -/
theorem fillAttributed_plan [DecimalArith] {a : Attribution}
    (hseeding : m.liquidityProfile = some profile)
    (hcall : m.fillAttributed cmds submitIds snap = .ok (m', a)) :
    ∃ plan, planSeed snap profile = .ok plan := by
  simp only [fillAttributed, bind_ok_iff, Prod.exists] at hcall
  obtain ⟨m₁, carried, hrefresh, -⟩ := hcall
  unfold refreshBooks at hrefresh
  rw [hseeding] at hrefresh
  simp only [bind_ok_iff] at hrefresh
  obtain ⟨_, -, _, -, plan, hplan, -⟩ := hrefresh
  exact ⟨plan, hplan⟩

/-- A taker meets the asks when it buys and the bids when it sells. -/
theorem bookSide_opposite {seed : SeedOrder} {side : Side}
    (h : bookSide seed = (obSide side).opposite) : seed.isAsk = decide (side = .Long) := by
  unfold bookSide at h
  cases side <;> cases hask : seed.isAsk <;> simp [hask, obSide, BookSide.opposite] at h ⊢

omit [Book B ObOrderId] [LawfulBook B] in
/-- A marketable order fills between the touch of its quote and its aggressive limit. -/
theorem SeededAt.reached [DecimalArith] {intent : OrderIntent} {fill : Fill}
    (h : SeededAt m snap plan intent fill) (hplan : planSeed snap profile = .ok plan)
    (hmarket : intent.limit = none) (hgrid : ∀ (key : ContractKey) (quote : QuoteView),
      snap.quotes[key]? = some quote → quote.OnGrid snap.spec.tickSizeCents) {quote : QuoteView}
    (hquote : snap.quotes[intent.contract]? = some quote) :
    quote.Reached snap.spec.tickSizeCents m.marketableCapTicks intent.side fill.price := by
  obtain ⟨limit, hlimit, hwithin⟩ := h.limit
  obtain ⟨seed, hseed, hcontract, hside, hprice⟩ := h.seed
  have hlimitCents : marketableLimitCents intent.side quote snap.spec.tickSizeCents
      m.marketableCapTicks = .ok limit := by
    simpa only [limitCents, hmarket, hquote, okOr, ok_bind] using hlimit
  obtain ⟨-, hreached⟩ := marketableLimitCents_reached (hgrid _ quote hquote) hlimitCents
  obtain ⟨quoted, hquoted, htouch⟩ := planSeed_prices hplan hseed
  rw [Std.TreeMap.getElem?_congr hcontract] at hquoted
  cases hquoted.symm.trans hquote
  rw [← hprice] at hwithin ⊢
  rw [bookSide_opposite hside] at htouch
  cases hintent : intent.side with
  | Long =>
    rw [hintent] at htouch hwithin hreached
    exact ⟨by simpa using htouch, le_trans hwithin hreached.2⟩
  | Short =>
    rw [hintent] at htouch hwithin hreached
    exact ⟨le_trans hreached.1 hwithin, by simpa using htouch⟩

end Calls

section Runs

variable {S R B : Type} [DecimalArith] [Book B ObOrderId] [LawfulBook B] [Strategy S R]
  [SeedableRng R] {config : BacktestConfig} {feed : MaterialisedFeed} {strategy : S} {n : Nat}
  {log : List (Batch (RealisticFill B))} {s : RunState S (RealisticFill B) R}

/-- A call that fills its orders at the ladder of its snapshot, under the configured cap. -/
structure Batch.FillsSeeded (config : BacktestConfig) (b : Batch (RealisticFill B)) : Prop where
  cap : b.model.marketableCapTicks = config.marketableCapTicks
  seeded : ∃ plan, planSeed b.snapshot config.liquidityProfile = .ok plan ∧
    ∀ idx orderId intent run, .submitted idx orderId intent run ∈ b.events →
      (∃ limit, b.model.limitCents intent b.snapshot = .ok limit) ∧
        ∀ fill ∈ run, SeededAt b.model b.snapshot plan intent fill
  submissions : ∀ idx orderId intent run, .submitted idx orderId intent run ∈ b.events →
    (orderId, intent) ∈ b.submissions

/-- Every call of a run fills its orders at the ladder of its snapshot. -/
theorem Setup.play_fillsSeeded
    (h : (Setup.realistic B config feed strategy).play n = .ok (log, s)) :
    ∀ b ∈ log, b.snapshot ∈ feed.tape ∧ b.FillsSeeded config := by
  refine (Setup.play_invariant (fun log x _ => (Stocked config.liquidityProfile x ∧
    x.marketableCapTicks = config.marketableCapTicks) ∧
    ∀ b ∈ log, b.snapshot ∈ feed.tape ∧ b.FillsSeeded config) ?_ ?_
    (fun _ _ _ _ _ _ _ hs _ => hs) h).2
  · exact fun _ _ => ⟨⟨stocked_realistic config feed strategy, rfl⟩, List.forall_mem_nil _⟩
  · rintro log b after ⟨⟨hstocked, hcap⟩, hlog⟩ hexec hmem
    obtain ⟨a, ha, -, hevents⟩ := hexec.attributed
    obtain ⟨plan, hplan⟩ := fillAttributed_plan hstocked.seeding ha
    obtain ⟨hcap', hseeded⟩ := fillAttributed_seeded hstocked hplan ha
    refine ⟨⟨(fillAttributed_stocked hstocked ha).1, hcap'.trans hcap⟩,
      List.forall_mem_append.2 ⟨hlog, List.forall_mem_singleton.2 ⟨hmem, hcap, ⟨plan, hplan, ?_⟩, ?_⟩⟩⟩
    · intro idx orderId intent run hev
      rw [hevents] at hev
      rcases mem_attribution_events ha hev with ⟨_, -, heq⟩ | ⟨routed, hrouted, heq⟩ | ⟨_, heq⟩ <;>
        cases heq
      exact hseeded routed hrouted
    · exact fun idx orderId intent run hev => hexec.submission_mem hev rfl

/-- Nothing is left of an order: no call of the run refills it, it is not registered, and what rests
in the books are seeds and other orders. -/
structure Discarded (log : List (Batch (RealisticFill B))) (s : RunState S (RealisticFill B) R)
    (orderId : OrderId) : Prop where
  carried : ∀ b ∈ log, ∀ run, .carried orderId run ∈ b.events → ∀ fill, fill ∉ run
  pending : s.engine.pending[orderId]? = none
  books : ∀ (contract : ContractKey) (book : B) (i : ObOrderId) (left : Resting),
    s.execution.books[contract]? = some book → Book.rests book i = some left →
      ∃ seq, i = .Sequential seq ∧ (seq ∈ s.execution.seedsOf contract ∨
        ∃ order, s.execution.restingStrategy[seq]? = some order ∧ order.orderId ≠ orderId)

/-- An order that is not good till cancelled leaves nothing behind. -/
theorem Setup.play_discards (h : (Setup.realistic B config feed strategy).play n = .ok (log, s))
    {orderId : OrderId} {intent : OrderIntent} (hmem : (orderId, intent) ∈ issued log)
    (hioc : intent.tif = .Ioc) : Discarded log s orderId := by
  obtain ⟨htracked, hconsistent⟩ := Setup.play_consistent h
  have honly : ∀ other, (orderId, other) ∈ issued log → other.tif ≠ .Gtc := by
    intro other hother hgtc
    rw [htracked.inOrder.unique hother hmem, hioc] at hgtc
    cases hgtc
  refine ⟨fun b hb run hev fill hfill => ?_, ?_, fun contract book i left hbook hleft => ?_⟩
  · obtain ⟨other, hother, hgtc⟩ := Setup.play_carries_gtc h b hb orderId run hev fill hfill
    exact honly other hother hgtc
  · rcases hpending : s.engine.pending[orderId]? with _ | entry
    · rfl
    · obtain ⟨-, other, hother, hremains⟩ := htracked.sourced orderId entry hpending
      have hgtc := Setup.play_restsGtc h orderId entry hpending
      rw [hremains] at hgtc
      exact absurd hgtc (honly other hother)
  · obtain ⟨-, seq, rfl, howner⟩ := (Setup.play_stocked h).1.owned contract book i left hbook hleft
    refine ⟨seq, rfl, howner.imp_right ?_⟩
    rintro ⟨order, horder, -, -⟩
    refine ⟨order, horder, ?_⟩
    rintro rfl
    obtain ⟨other, hother, -, -, hgtc⟩ := (hconsistent.mirrored.live seq order horder).submitted
    exact honly other hother hgtc

/-- Marketable orders and tick scaling. An aggressive limit is on the grid and between the touch
and the cap, so that the scaling takes it; the scaling is exact on the grid; and in a run whose
orders pass their validation an order without a limit fills on the grid, between the touch of its
quote and the cap, and what is left of it is discarded. -/
theorem marketable_orders_capped
    (hgrid : ∀ snap ∈ feed.tape, ∀ (key : ContractKey) (quote : QuoteView),
      snap.quotes[key]? = some quote → quote.OnGrid snap.spec.tickSizeCents)
    (h : (Setup.realistic B config feed strategy).play n = .ok (log, s))
    (hvalid : ∀ order ∈ issued log, order.2.validate = .ok ()) :
    (∀ (side : Side) (quote : QuoteView) (tick limit : PriceCents) (cap : Bounded u32),
      0 < tick.value → quote.OnGrid tick → marketableLimitCents side quote tick cap = .ok limit →
        limit.value % tick.value = 0 ∧ (∃ ticks, centsToTicks limit tick = .ok ticks) ∧
          0 ≤ limit.value ∧ quote.Reached tick cap side limit) ∧
    (∀ price tick : PriceCents, 0 < tick.value → price.value % tick.value = 0 →
      ∃ ticks, centsToTicks price tick = .ok ticks ∧ ticksToCents ticks tick = .ok price) ∧
    ∀ b ∈ log, ∀ idx orderId intent run, .submitted idx orderId intent run ∈ b.events →
      intent.limit = none →
        (∃ quote, b.snapshot.quotes[intent.contract]? = some quote ∧ ∀ fill ∈ run,
          fill.price.value % b.snapshot.spec.tickSizeCents.value = 0 ∧
            quote.Reached b.snapshot.spec.tickSizeCents config.marketableCapTicks intent.side
              fill.price) ∧
        Discarded log s orderId := by
  refine ⟨?_, fun price tick => centsToTicks_inverse, ?_⟩
  · intro side quote tick limit cap htick hquote hlimit
    obtain ⟨haligned, hreached⟩ := marketableLimitCents_reached hquote hlimit
    obtain ⟨ticks, hticks, -⟩ := centsToTicks_inverse htick haligned
    exact ⟨haligned, ⟨ticks, hticks⟩, limit.nonneg, hreached⟩
  · intro b hb idx orderId intent run hev hmarket
    obtain ⟨htape, hcalls⟩ := Setup.play_fillsSeeded h b hb
    obtain ⟨plan, hplan, hseeded⟩ := hcalls.seeded
    obtain ⟨⟨limit, hlimit⟩, hfills⟩ := hseeded idx orderId intent run hev
    have hmem : (orderId, intent) ∈ issued log :=
      List.mem_flatMap.2 ⟨b, hb, hcalls.submissions idx orderId intent run hev⟩
    have hioc := OrderIntent.validate_eq_ok.1 (hvalid _ hmem) hmarket
    refine ⟨?_, Setup.play_discards h hmem hioc⟩
    simp only [limitCents, hmarket, bind_ok_iff, okOr_eq_ok] at hlimit
    obtain ⟨quote, hquote, -⟩ := hlimit
    refine ⟨quote, hquote, fun fill hfill => ⟨(hfills fill hfill).grid, ?_⟩⟩
    rw [← hcalls.cap]
    exact (hfills fill hfill).reached hplan hmarket (hgrid _ htape) hquote

end Runs

section Small

open SmallMarket

/-- The quotes of the dip are on the grid of five cents. -/
theorem dipFeed_onGrid : ∀ snap ∈ dipFeed.tape, ∀ (key : ContractKey) (quote : QuoteView),
    snap.quotes[key]? = some quote → quote.OnGrid snap.spec.tickSizeCents := by
  intro snap hsnap key quote hquote
  simp only [dipFeed, feed, dip, List.mem_cons, List.not_mem_nil, or_false] at hsnap
  rcases hsnap with rfl | rfl | rfl <;>
    simp [firstStep, secondStep, snapshot, Std.TreeMap.getElem?_insert] at hquote <;>
    obtain ⟨-, rfl⟩ := hquote <;> constructor <;> decide

/-- Two at the market, filled at the ask of each of two calls. -/
theorem marketable_orders_capped_small : ∃ log s,
    (Setup.realistic (ReferenceBook ObOrderId) (config .Realistic) dipFeed
      (⟨take, [take]⟩ : Script)).play 1 = .ok (log, s) ∧
    (issued log).map (fun order => order.2.limit.map Bounded.value) = [none, none] ∧
    ∀ b ∈ log, ∀ idx orderId intent run, .submitted idx orderId intent run ∈ b.events →
      intent.limit = none →
        (∃ quote, b.snapshot.quotes[intent.contract]? = some quote ∧ ∀ fill ∈ run,
          fill.price.value % b.snapshot.spec.tickSizeCents.value = 0 ∧
            quote.Reached b.snapshot.spec.tickSizeCents (config .Realistic).marketableCapTicks
              intent.side fill.price) ∧
        Discarded log s orderId := by
  obtain ⟨⟨log, s⟩, h, hcheck⟩ := exists_ok_of_check (r := (Setup.realistic
    (ReferenceBook ObOrderId) (config .Realistic) dipFeed (⟨take, [take]⟩ : Script)).play 1)
    (fun run => decide ((issued run.1).map (fun order => order.2.limit.map Bounded.value) =
        [none, none] ∧
      ∀ order ∈ issued run.1, order.2.validate = .ok ())) (by decide +kernel)
  obtain ⟨hlimits, hvalid⟩ := of_decide_eq_true hcheck
  exact ⟨log, s, h, hlimits, (marketable_orders_capped dipFeed_onGrid h hvalid).2.2⟩

/-- Three of five are displayed: the order for all of them at the market rests with the other two,
and the next call fills it. -/
theorem market_order_carried : ∃ log s,
    (Setup.realistic (ReferenceBook ObOrderId) (config .Realistic) dipFeed
      (⟨[.Submit restAtMarket], []⟩ : Script)).play 1 = .ok (log, s) ∧
    ∃ order ∈ issued log, order.2.limit = none ∧
      ∃ b ∈ log, ∃ run, .carried order.1 run ∈ b.events ∧ ∃ fill, fill ∈ run := by
  obtain ⟨⟨log, s⟩, h, hcheck⟩ := exists_ok_of_check (r := (Setup.realistic
    (ReferenceBook ObOrderId) (config .Realistic) dipFeed
      (⟨[.Submit restAtMarket], []⟩ : Script)).play 1)
    (fun run => decide (∃ order ∈ issued run.1, order.2.limit = none ∧ ∃ b ∈ run.1,
      ∃ event ∈ b.events, event = .carried order.1 event.fills ∧ event.fills ≠ []))
    (by decide +kernel)
  obtain ⟨order, horder, hnone, b, hb, event, hevent, hcarried, hrun⟩ := of_decide_eq_true hcheck
  rw [hcarried] at hevent
  exact ⟨log, s, h, order, horder, hnone, b, hb, event.fills, hevent,
    List.exists_mem_of_ne_nil _ hrun⟩

end Small

end IronCondor
