import IronCondor.Analytics.Metrics
import IronCondor.Engine.Modes
import IronCondor.Engine.SingleFills

/-! # What the summary adds up

The realised statistics are sums over the rows of the trade log. The net premium adds the rows to
the legs left open; in naive mode that is what the opening fills were paid for. -/
namespace IronCondor

open Checked ExceptRun OrderBook

section Rows

variable {s t : RealisedStats} {trade : ClosedTrade} {trades : List ClosedTrade}

def profitable (trade : ClosedTrade) : Bool := 0 < trade.realizedPnl.value

def losing (trade : ClosedTrade) : Bool := trade.realizedPnl.value < 0

def breaksEven (trade : ClosedTrade) : Bool := trade.realizedPnl.value = 0

def onSide (side : Side) (trade : ClosedTrade) : Bool := trade.side = side

/-- The realised statistics of some rows: the totals are sums, over all rows and over those of
each side, and every row is counted once. -/
structure Realised (trades : List ClosedTrade) (s : RealisedStats) : Prop where
  total : s.totalCents.value = realisedPnl trades
  short : s.shortCents.value = realisedPnl (trades.filter (onSide .Short))
  long : s.longCents.value = realisedPnl (trades.filter (onSide .Long))
  winners : s.winners = trades.countP profitable
  losers : s.losers = trades.countP losing
  breakEven : s.breakEven = trades.countP breaksEven

theorem RealisedStats.addOutcome_eq_ok (h : s.addOutcome trade.realizedPnl = .ok t) :
    t.winners = s.winners + (if profitable trade then 1 else 0) ∧
      t.losers = s.losers + (if losing trade then 1 else 0) ∧
      t.breakEven = s.breakEven + (if breaksEven trade then 1 else 0) ∧
      t.totalCents = s.totalCents ∧ t.shortCents = s.shortCents ∧ t.longCents = s.longCents := by
  unfold addOutcome at h
  split_ifs at h with hwin hlose
  · simp only [bind_ok_iff, pure_ok_iff] at h
    obtain ⟨_, -, rfl⟩ := h
    simp [profitable, losing, breaksEven, hwin, hwin.le, hwin.ne', not_lt]
  · simp only [bind_ok_iff, pure_ok_iff] at h
    obtain ⟨_, -, rfl⟩ := h
    simp [profitable, losing, breaksEven, hwin, hlose, hlose.ne]
  · cases h
    simp [profitable, losing, breaksEven, show trade.realizedPnl.value = 0 by omega]

theorem RealisedStats.addSide_eq_ok {premium : Bounded i128}
    (h : s.addSide trade.side trade.realizedPnl premium = .ok t) :
    t.shortCents.value = s.shortCents.value +
        (if onSide .Short trade then trade.realizedPnl.value else 0) ∧
      t.longCents.value = s.longCents.value +
        (if onSide .Long trade then trade.realizedPnl.value else 0) ∧
      t.totalCents = s.totalCents ∧ t.winners = s.winners ∧ t.losers = s.losers ∧
      t.breakEven = s.breakEven := by
  cases hside : trade.side with
  | Short =>
    rw [hside] at h
    simp only [addSide, Cents.checkedAdd, bind_ok_iff, narrow_eq_ok, pure_ok_iff] at h
    obtain ⟨short, hshort, _, -, rfl⟩ := h
    simp [onSide, hside, hshort]
  | Long =>
    rw [hside] at h
    simp only [addSide, Cents.checkedAdd, bind_ok_iff, narrow_eq_ok, pure_ok_iff] at h
    obtain ⟨long, hlong, _, -, rfl⟩ := h
    simp [onSide, hside, hlong]

/-- One row of a side, or none. -/
theorem realisedPnl_filter (side : Side) (trade : ClosedTrade) :
    realisedPnl ([trade].filter (onSide side)) =
      if onSide side trade then trade.realizedPnl.value else 0 := by
  by_cases hside : onSide side trade
  · simp [realisedPnl, hside]
  · simp [realisedPnl, hside]

/-- One more row. -/
theorem Realised.add (h : Realised trades s) (hadd : s.add trade = .ok t) :
    Realised (trades ++ [trade]) t := by
  simp only [RealisedStats.add, Cents.checkedAdd, bind_ok_iff, narrow_eq_ok, pure_ok_iff] at hadd
  obtain ⟨premium, -, s₁, hcount, total, htotal, s₂, hside, rfl⟩ := hadd
  obtain ⟨hwinners, hlosers, heven, htotal₁, hshort₁, hlong₁⟩ :=
    RealisedStats.addOutcome_eq_ok hcount
  obtain ⟨hshort, hlong, htotal₂, hwinners₂, hlosers₂, heven₂⟩ := RealisedStats.addSide_eq_ok hside
  have hstyle : (s₂.addStyle trade.contract.style).totalCents = s₂.totalCents ∧
      (s₂.addStyle trade.contract.style).shortCents = s₂.shortCents ∧
      (s₂.addStyle trade.contract.style).longCents = s₂.longCents ∧
      (s₂.addStyle trade.contract.style).winners = s₂.winners ∧
      (s₂.addStyle trade.contract.style).losers = s₂.losers ∧
      (s₂.addStyle trade.contract.style).breakEven = s₂.breakEven := by
    cases trade.contract.style <;> exact ⟨rfl, rfl, rfl, rfl, rfl, rfl⟩
  obtain ⟨htotal₃, hshort₃, hlong₃, hwinners₃, hlosers₃, heven₃⟩ := hstyle
  constructor
  · rw [htotal₃, htotal₂, htotal, htotal₁, h.total, realisedPnl_append]
    simp [realisedPnl]
  · rw [hshort₃, hshort, hshort₁, h.short, List.filter_append, realisedPnl_append,
      realisedPnl_filter]
  · rw [hlong₃, hlong, hlong₁, h.long, List.filter_append, realisedPnl_append, realisedPnl_filter]
  · rw [hwinners₃, hwinners₂, hwinners, h.winners, List.countP_append, List.countP_singleton]
  · rw [hlosers₃, hlosers₂, hlosers, h.losers, List.countP_append, List.countP_singleton]
  · rw [heven₃, heven₂, heven, h.breakEven, List.countP_append, List.countP_singleton]

/-- The statistics of a log are those of its rows. -/
theorem fromLog_realised (h : RealisedStats.fromLog trades = .ok s) : Realised trades s := by
  refine foldlM_invariant_at Realised ⟨rfl, rfl, rfl, rfl, rfl, rfl⟩ ?_ h
  intro done trade rest s t _ hdone hadd
  exact hdone.add hadd

/-- The profit splits into that of the short and of the long legs. -/
theorem realisedPnl_sides (trades : List ClosedTrade) :
    realisedPnl trades = realisedPnl (trades.filter (onSide .Short)) +
      realisedPnl (trades.filter (onSide .Long)) := by
  induction trades with
  | nil => rfl
  | cons trade trades ih =>
    rw [← List.singleton_append, List.filter_append, List.filter_append, realisedPnl_append,
      realisedPnl_append, realisedPnl_append, realisedPnl_filter, realisedPnl_filter, ih]
    cases hside : trade.side <;> simp [realisedPnl, onSide, hside] <;> ring

/-- Every row wins, loses or breaks even. -/
theorem counts_total (trades : List ClosedTrade) :
    trades.countP profitable + trades.countP losing + trades.countP breaksEven = trades.length := by
  induction trades with
  | nil => rfl
  | cons trade trades ih =>
    have hone : (if profitable trade then 1 else 0) + (if losing trade then 1 else 0) +
        (if breaksEven trade then 1 else 0) = 1 := by
      simp only [profitable, losing, breaksEven, decide_eq_true_eq]
      split_ifs <;> omega
    simp only [List.countP_cons, List.length_cons]
    omega

end Rows

section Premium

variable {trades : List ClosedTrade} {legs : List OpenPosition} {net net' : Bounded i128}
  {multiplier : Bounded u32}

theorem sum_map_neg {α : Type} (f : α → Int) (xs : List α) :
    (xs.map fun a => -f a).sum = -(xs.map f).sum := by
  rw [List.sum_neg, List.map_map]
  rfl

theorem netAdd_eq_ok {side : Side} {premium : Bounded i128}
    (h : netAdd net side premium = .ok net') :
    net'.value = net.value + -(sideSign side * premium.value) := by
  cases side with
  | Short =>
    rw [netAdd, narrow_eq_ok] at h
    simp [h, sideSign]
  | Long =>
    rw [netAdd, narrow_eq_ok] at h
    simp [h, sideSign, sub_eq_add_neg]

theorem premiumCashCents_eq_ok {entryPremium : PriceCents} {quantity : Quantity}
    {premium : Bounded i128}
    (h : premiumCashCents entryPremium quantity multiplier = .ok premium) :
    premium.value = entryPremium.value * quantity.value * multiplier.value := by
  rw [checkedProduct_eq_ok h, List.prod_cons, List.prod_singleton, mul_assoc]

/-- The net premium is what the rows and the open legs were not paid for, at the multiplier of
the first row. -/
theorem netPremiumCents_eq_ok {premium : Cents} (h : netPremiumCents trades legs = .ok premium)
    (hmultiplier : legs ≠ [] →
      trades.head?.map ClosedTrade.contractMultiplier = some multiplier) :
    premium.value = -((trades.map rowCost).sum + legSum (legCost multiplier) legs) := by
  simp only [netPremiumCents, bind_ok_iff, narrow_eq_ok] at h
  obtain ⟨closed, hclosed, total, htotal, hpremium⟩ := h
  have hrows := foldlM_sum (fun net : Bounded i128 => net.value) (fun trade => -rowCost trade)
    (fun net trade net' hstep => by
      obtain ⟨premium, hcash, hadd⟩ := bind_ok_iff.1 hstep
      rw [netAdd_eq_ok hadd, premiumCashCents_eq_ok hcash, rowCost]
      ring) hclosed
  have hlegs := foldlM_sum (fun net : Bounded i128 => net.value) (fun leg => -legCost
      ((trades.head?.map ClosedTrade.contractMultiplier).getD ⟨1, by decide⟩) leg)
    (fun net leg net' hstep => by
      obtain ⟨premium, hcash, hadd⟩ := bind_ok_iff.1 hstep
      rw [netAdd_eq_ok hadd, premiumCashCents_eq_ok hcash, legCost]
      ring) htotal
  have hopen : (legs.map fun leg => -legCost ((trades.head?.map
      ClosedTrade.contractMultiplier).getD ⟨1, by decide⟩) leg).sum =
        -legSum (legCost multiplier) legs := by
    by_cases hlegs : legs = []
    · simp [hlegs, legSum]
    · rw [hmultiplier hlegs, Option.getD_some, sum_map_neg, legSum]
  rw [hpremium, hlegs, hrows, hopen, sum_map_neg]
  ring

end Premium

section Reports

variable {S R B C : Type} [DecimalArith] [DecimalSums] [Strategy S R] [SeedableRng R]
  [CurveMetrics C] [Book B ObOrderId]

/-- What the metrics show of the rows of a trade log. -/
structure ShowsRealised (trades : List ClosedTrade) (metrics : Metrics C) : Prop where
  total : metrics.customMetrics[realizedPnlCentsKey]? = some (.ofInt (realisedPnl trades))
  short : metrics.customMetrics[shortLegsRealizedCentsKey]? =
    some (.ofInt (realisedPnl (trades.filter (onSide .Short))))
  long : metrics.customMetrics[longLegsRealizedCentsKey]? =
    some (.ofInt (realisedPnl (trades.filter (onSide .Long))))
  split : realisedPnl trades = realisedPnl (trades.filter (onSide .Short)) +
    realisedPnl (trades.filter (onSide .Long))
  rows : metrics.tradeStatistics.winners + metrics.tradeStatistics.losers +
    metrics.tradeStatistics.breakEven = trades.length

omit [DecimalArith] [DecimalSums] in
/-- The entries the summary makes under its own keys. -/
theorem populate_eq_ok {result : BacktestResult} {curve : List EquityPoint} {initial : Cents}
    {trades : List ClosedTrade} {legs : List OpenPosition} {metrics : Metrics C}
    (h : populate result curve initial trades legs = .ok metrics) :
    ShowsRealised trades metrics ∧ ∃ premium, netPremiumCents trades legs = .ok premium ∧
      metrics.customMetrics[netPremiumCentsKey]? = some (.ofInt premium.value) := by
  simp only [populate, bind_ok_iff, pure_ok_iff] at h
  obtain ⟨curve', -, realised, hrealised, drawdown, -, premium, hpremium, rfl⟩ := h
  have hrows := fromLog_realised hrealised
  have hcounts := counts_total trades
  simp only [List.foldl_append, List.map_cons, List.map_nil, List.foldl_cons, List.foldl_nil]
  refine ⟨⟨?_, ?_, ?_, realisedPnl_sides trades, ?_⟩, premium, hpremium, ?_⟩
  · simp only [OrderedMap.getElem?_insert, ← hrows.total]
    rfl
  · simp only [OrderedMap.getElem?_insert, ← hrows.short]
    rfl
  · simp only [OrderedMap.getElem?_insert, ← hrows.long]
    rfl
  · change realised.winners + realised.losers + realised.breakEven = _
    rw [hrows.winners, hrows.losers, hrows.breakEven, hcounts]
  · simp only [OrderedMap.getElem?_insert]
    rfl

/-- Net premium and realised profit: every populated run shows the profit of its rows, in total
and by side, and counts each row once; and on a tape of one multiplier a naive run that closed
something or ends with nothing open shows as its net premium what its opening fills brought in. -/
theorem metrics_settled (config : BacktestConfig) (feed : MaterialisedFeed) (strategy : S)
    (strategyName : String) {run : PopulatedRun (Metrics C)}
    (h : runWithFeed B config feed.toFeed strategy strategyName = .ok run) :
    ShowsRealised run.tradeLog run.metrics ∧
      (config.mode = .Naive → ∀ multiplier,
        (∀ snapshot ∈ feed.tape, snapshot.spec.contractMultiplier = multiplier) →
        (run.tradeLog ≠ [] ∨ run.openAtEnd = []) →
        ∃ log s, (Setup.naive config feed strategy).play feed.tape.length = .ok (log, s) ∧
          run.fills = s.engine.bundle.fills ∧
          run.metrics.customMetrics[netPremiumCentsKey]? = some (.ofInt (openingSum (issued log)
            (fun fill => -sideSign fill.side * fill.price.value * fill.quantity.value *
              multiplier.value) run.fills))) := by
  simp only [runWithFeed, bind_ok_iff, pure_ok_iff] at h
  obtain ⟨_, -, out, hmode, initial, -, metrics, hmetrics, rows, -, rfl⟩ := h
  obtain ⟨hshows, premium, hpremium, hentry⟩ := populate_eq_ok hmetrics
  refine ⟨hshows, fun hnaive multiplier hmultiplier hclosed => ?_⟩
  rw [runMode, hnaive] at hmode
  obtain ⟨initial', log, s, -, hplay, rfl⟩ :=
    (Setup.naive config feed strategy).play_of_run hmode
  have hkept := Setup.play_costKept hmultiplier hplay
  refine ⟨log, s, hplay, rfl, hentry.trans ?_⟩
  have hfirst : s.engine.inventory ≠ [] →
      s.engine.tradeLog.closed.head?.map ClosedTrade.contractMultiplier = some multiplier := by
    intro hopen
    obtain ⟨trade, rest, htrades⟩ := List.exists_cons_of_ne_nil (hclosed.resolve_right hopen)
    change s.engine.tradeLog.closed = _ at htrades
    rw [htrades, List.head?_cons, Option.map_some]
    exact congrArg some (hkept.rows trade (htrades ▸ List.mem_cons_self))
  have hbooks : netPremiumCents s.engine.tradeLog.closed s.engine.inventory = .ok premium :=
    hpremium
  have hvalue := netPremiumCents_eq_ok hbooks hfirst
  rw [← hkept.cost] at hvalue
  rw [hvalue, openingSum, openingSum, ← sum_map_neg]
  simp only [fillCost, neg_mul]
  rfl

end Reports

section SmallRun

open SmallMarket

/-- Nothing is computed of the curve. -/
local instance : CurveMetrics Unit := ⟨fun _ _ _ => .ok (), fun _ => none⟩

/-- Two lots are bought and one is sold again: the premium counts the lot that was sold and the
lot that is left. -/
theorem metrics_settled_partly : ∃ run : PopulatedRun (Metrics Unit),
    runWithFeed (ReferenceBook ObOrderId) (config .Naive) dipFeed.toFeed
      (⟨take, [closeOne .Short]⟩ : Script) "script" = .ok run ∧
      run.tradeLog.length = 1 ∧ run.openAtEnd.length = 1 ∧
      ShowsRealised run.tradeLog run.metrics ∧
      ∃ log s, (Setup.naive (config .Naive) dipFeed (⟨take, [closeOne .Short]⟩ : Script)).play
          dipFeed.tape.length = .ok (log, s) ∧ run.fills = s.engine.bundle.fills ∧
        run.metrics.customMetrics[netPremiumCentsKey]? = some (.ofInt (openingSum (issued log)
          (fun fill => -sideSign fill.side * fill.price.value * fill.quantity.value * 100)
          run.fills)) := by
  obtain ⟨run, h, hcheck⟩ := exists_ok_of_check
    (r := (runWithFeed (ReferenceBook ObOrderId) (config .Naive) dipFeed.toFeed
      (⟨take, [closeOne .Short]⟩ : Script) "script" : Outcome (PopulatedRun (Metrics Unit))))
    (fun run => decide (run.tradeLog.length = 1 ∧ run.openAtEnd.length = 1)) (by decide +kernel)
  obtain ⟨hclosed, hopen⟩ := of_decide_eq_true hcheck
  obtain ⟨hshows, hpremium⟩ := metrics_settled (config .Naive) dipFeed _ _ h
  refine ⟨run, h, hclosed, hopen, hshows, ?_⟩
  refine hpremium rfl ⟨100, by decide⟩ (by decide) (.inl ?_)
  exact List.ne_nil_of_length_pos (by omega)

end SmallRun

end IronCondor
