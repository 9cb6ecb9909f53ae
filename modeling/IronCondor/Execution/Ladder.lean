import IronCondor.Data.Normalisation
import IronCondor.Execution.Liquidity
import IronCondor.Execution.Rounding

/-! # The shape of a ladder

The loop of one side decays its size by a running product and steps its price tick by tick. Each
level is what the level number says, and the loop stops only where its guards say. -/
namespace IronCondor

open Checked ExceptRun HalfEven

section Side

variable [DecimalArith] {contract : ContractKey} {isAsk : Bool} {touchCents tickCents : PriceCents}
  {decay factor : Decimal} {touch : Bounded u32} {levels level : Nat} {orders : List SeedOrder}

/-- `decay` to the power of a level, as the loop computes it. -/
def decayFactor (decay : Decimal) : Nat → Option Decimal
  | 0 => some (.ofInt 1)
  | level + 1 => (decayFactor decay level).bind fun factor => DecimalArith.checkedMul factor decay

/-- The order a level plans. -/
structure LevelOrder (contract : ContractKey) (isAsk : Bool) (touchCents tickCents : PriceCents)
    (decay : Decimal) (touch : Bounded u32) (level : Nat) (order : SeedOrder) : Prop where
  contract_eq : order.contract = contract
  isAsk_eq : order.isAsk = isAsk
  price : levelPrice isAsk touchCents tickCents level = .ok (some order.price)
  size : ∃ factor, decayFactor decay level = some factor ∧
    decayedSize touch factor = .ok order.size.toU32

/-- A level at which the loop stops: nothing is left to quote, or the price would be negative. -/
def LevelStops (isAsk : Bool) (touchCents tickCents : PriceCents) (decay : Decimal)
    (touch : Bounded u32) (level : Nat) : Prop :=
  (∃ factor size, decayFactor decay level = some factor ∧ decayedSize touch factor = .ok size ∧
      size.value = 0) ∨
    levelPrice isAsk touchCents tickCents level = .ok none

/-- The loop from a level on, by induction on the levels that are left. -/
theorem sideLadder_levels (hfactor : decayFactor decay level = some factor)
    (h : sideLadder contract isAsk touchCents tickCents decay touch levels level factor =
      .ok orders) :
    orders.length ≤ levels ∧
    (∀ k order, orders[k]? = some order →
      LevelOrder contract isAsk touchCents tickCents decay touch (level + k) order) ∧
    (orders.length < levels →
      LevelStops isAsk touchCents tickCents decay touch (level + orders.length)) := by
  induction levels generalizing level factor orders with
  | zero =>
    cases h
    simp
  | succ levels ih =>
    simp only [sideLadder, bind_ok_iff] at h
    obtain ⟨size, hsize, h⟩ := h
    split_ifs at h with hzero
    · cases h
      exact ⟨by simp, by simp, fun _ => .inl ⟨factor, size, hfactor, hsize, hzero⟩⟩
    obtain ⟨price, hprice, h⟩ := bind_ok_iff.1 h
    rcases price with _ | price
    · cases h
      exact ⟨by simp, by simp, fun _ => .inr hprice⟩
    · simp only [bind_ok_iff, Quantity.new_eq_ok, okOr_eq_ok, pure_ok_iff] at h
      obtain ⟨qty, hqty, next, hnext, deeper, hdeeper, rfl⟩ := h
      have hfactor' : decayFactor decay (level + 1) = some next := by
        rw [decayFactor, hfactor]
        exact hnext
      obtain ⟨hlength, hlevels, hstops⟩ := ih hfactor' hdeeper
      refine ⟨by rw [List.length_cons]; omega, ?_, ?_⟩
      · rintro (_ | k) order horder
        · cases horder
          have hsame : size = qty.toU32 := Bounded.ext hqty.symm
          exact ⟨rfl, rfl, hprice, factor, hfactor, hsame ▸ hsize⟩
        · rw [← Nat.succ_add_eq_add_succ]
          exact hlevels k order horder
      · intro hshort
        rw [List.length_cons, ← Nat.succ_add_eq_add_succ]
        apply hstops
        rw [List.length_cons] at hshort
        omega

omit [DecimalArith] in
theorem levelPrice_some {price : PriceCents}
    (h : levelPrice isAsk touchCents tickCents level = .ok (some price)) :
    price.value = if isAsk then touchCents.value + tickCents.value * level
      else touchCents.value - tickCents.value * level := by
  simp only [levelPrice, bind_ok_iff, narrow_eq_ok] at h
  obtain ⟨offset, hoffset, h⟩ := h
  split_ifs at h with hask hneg
  · simp only [bind_ok_iff, narrow_eq_ok, pure_ok_iff, Option.some.injEq] at h
    obtain ⟨_, hprice, rfl⟩ := h
    rw [if_pos hask, hprice, hoffset]
  · cases h
  · simp only [bind_ok_iff, narrow_eq_ok, pure_ok_iff, Option.some.injEq] at h
    obtain ⟨_, hprice, rfl⟩ := h
    rw [if_neg hask, hprice, hoffset]

omit [DecimalArith] in
/-- Only a bid runs out of prices. -/
theorem levelPrice_none (h : levelPrice isAsk touchCents tickCents level = .ok none) :
    isAsk = false ∧ touchCents.value < tickCents.value * level := by
  simp only [levelPrice, bind_ok_iff, narrow_eq_ok] at h
  obtain ⟨offset, hoffset, h⟩ := h
  split_ifs at h with hask hneg
  · obtain ⟨_, -, hprice⟩ := bind_ok_iff.1 h
    cases hprice
  · exact ⟨by simpa using hask, hoffset ▸ hneg⟩
  · obtain ⟨_, -, hprice⟩ := bind_ok_iff.1 h
    cases hprice

theorem decayedSize_eq_ok {size : Bounded u32} :
    decayedSize touch factor = .ok size ↔
      ∃ raw, DecimalArith.checkedMul (.ofInt touch.value) factor = some raw ∧
        size.value = raw.roundHalfEven := by
  simp only [decayedSize, bind_ok_iff, okOr_eq_ok, narrow_eq_ok]

end Side

section Sizes

variable [arith : DecimalArith] [RoundedArith arith] {decay factor : Decimal}
  {touch size size' : Bounded u32} {level : Nat}

/-- The first level has the touch size. -/
theorem decayedSize_one (h : decayedSize touch (.ofInt 1) = .ok size) : size = touch := by
  obtain ⟨raw, hraw, hsize⟩ := decayedSize_eq_ok.1 h
  obtain ⟨rnd, hrnd, hmul⟩ := @RoundedArith.product arith _
  have hfits : (Decimal.ofInt touch.value).Representable := by
    have hmax := touch.le_max
    have hnonneg := touch.nonneg
    norm_num [Decimal.Representable, Decimal.ofInt, abs_lt, u32, IntRange.unsigned] at hmax ⊢
    omega
  have hvalue := hmul _ _ _ hraw
  rw [Decimal.toRat_ofInt 1, Int.cast_one, mul_one, hrnd.representable _ hfits,
    Decimal.toRat_ofInt] at hvalue
  apply Bounded.ext
  rw [hsize, Decimal.roundHalfEven_eq, hvalue, halfEven_intCast]

omit [RoundedArith arith] in
/-- The factors are not negative, and the rounding leaves them alone. -/
theorem decayFactor_rounded {rnd : ℚ → ℚ} (hrnd : Decimal.Rounding rnd)
    (hmul : ∀ a b p, arith.checkedMul a b = some p → p.toRat = rnd (a.toRat * b.toRat))
    (hdecay : 0 ≤ decay.toRat) (h : decayFactor decay level = some factor) :
    0 ≤ factor.toRat ∧ rnd factor.toRat = factor.toRat := by
  induction level generalizing factor with
  | zero =>
    cases h
    exact ⟨by simp, hrnd.representable _ (by decide)⟩
  | succ level ih =>
    obtain ⟨previous, hprevious, hnext⟩ := Option.bind_eq_some_iff.1 h
    obtain ⟨hnonneg, -⟩ := ih hprevious
    have hzero : rnd 0 = 0 := by simpa using hrnd.representable (.ofInt 0) (by decide)
    rw [hmul _ _ _ hnext]
    refine ⟨?_, hrnd.idem _⟩
    exact hzero.symm.le.trans (hrnd.mono (mul_nonneg hnonneg hdecay))

/-- The next level is no larger. -/
theorem decayedSize_le {factor' : Decimal} (hdecay : 0 ≤ decay.toRat) (hone : decay.toRat ≤ 1)
    (hfactor : decayFactor decay level = some factor)
    (hfactor' : decayFactor decay (level + 1) = some factor')
    (hsize : decayedSize touch factor = .ok size)
    (hsize' : decayedSize touch factor' = .ok size') : size'.value ≤ size.value := by
  obtain ⟨rnd, hrnd, hmul⟩ := @RoundedArith.product arith _
  obtain ⟨hnonneg, hfixed⟩ := decayFactor_rounded hrnd hmul hdecay hfactor
  obtain ⟨raw, hraw, hvalue⟩ := decayedSize_eq_ok.1 hsize
  obtain ⟨raw', hraw', hvalue'⟩ := decayedSize_eq_ok.1 hsize'
  obtain ⟨previous, hprevious, hnext⟩ := Option.bind_eq_some_iff.1 hfactor'
  cases hprevious.symm.trans hfactor
  have hless : factor'.toRat ≤ factor.toRat := by
    rw [hmul _ _ _ hnext]
    exact (hrnd.mono (mul_le_of_le_one_right hnonneg hone)).trans hfixed.le
  have htouch : (0 : ℚ) ≤ (Decimal.ofInt touch.value).toRat := by
    rw [Decimal.toRat_ofInt]
    exact_mod_cast touch.nonneg
  rw [hvalue, hvalue', Decimal.roundHalfEven_eq, Decimal.roundHalfEven_eq, hmul _ _ _ hraw,
    hmul _ _ _ hraw']
  apply halfEven_mono
  apply hrnd.mono
  exact mul_le_mul_of_nonneg_left hless htouch

end Sizes

section Plan

variable [arith : DecimalArith] [RoundedArith arith] {snap : ChainSnapshot}
  {profile : LiquidityProfile} {contract : ContractKey} {quote : QuoteView} {isAsk : Bool}
  {tick : PriceCents} {orders plan : List SeedOrder}

/-- The price one tick further away from the touch. -/
def deeper (isAsk : Bool) (tick price : Int) : Int :=
  if isAsk then price + tick else price - tick

/-- The ladder of one side of one quote. -/
structure SideLadder (profile : LiquidityProfile) (contract : ContractKey) (quote : QuoteView)
    (isAsk : Bool) (tick : PriceCents) (orders : List SeedOrder) : Prop where
  length : (orders.length : Int) ≤ profile.depthLevels.value + 1
  side : ∀ order ∈ orders, order.contract = contract ∧ order.isAsk = isAsk
  touch : ∃ order, orders[0]? = some order ∧
    order.price = (if isAsk then quote.ask else quote.bid) ∧
    order.size.toU32 = touchSizeContracts profile quote isAsk
  next : ∀ (k : Nat) (order order' : SeedOrder), orders[k]? = some order →
    orders[k + 1]? = some order' →
      order'.price.value = deeper isAsk tick.value order.price.value ∧
        order'.size.value ≤ order.size.value
  aligned : ∀ order ∈ orders, order.price.value % tick.value = 0
  positive : ∀ order ∈ orders, 0 ≤ order.price.value ∧ 0 < order.size.value
  stops : (orders.length : Int) < profile.depthLevels.value + 1 →
    (∃ factor size, decayFactor profile.decay orders.length = some factor ∧
      decayedSize (touchSizeContracts profile quote isAsk) factor = .ok size ∧ size.value = 0) ∨
    isAsk = false ∧ quote.bid.value - tick.value * orders.length < 0

omit arith [RoundedArith arith] in
theorem Decimal.cmp_isLE_iff {a b : Decimal} : (a.cmp b).isLE = true ↔ a.toRat ≤ b.toRat := by
  rw [Decimal.cmp_eq_compareOn]
  change (compare a.toRat b.toRat).isLE = true ↔ _
  rcases lt_trichotomy a.toRat b.toRat with h | h | h
  · simp [compare_lt_iff_lt.2 h, h.le]
  · simp [h]
  · simp [compare_gt_iff_gt.2 h, h]

omit arith [RoundedArith arith] in
/-- A validated profile decays by a fraction up to one, from a touch that is not empty. -/
theorem LiquidityProfile.validate_eq_ok (quote : QuoteView) (isAsk : Bool)
    (h : profile.validate = .ok ()) : 0 < profile.decay.toRat ∧ profile.decay.toRat ≤ 1 ∧
      0 < (touchSizeContracts profile quote isAsk).value := by
  simp only [validate, bind_ok_iff, require_eq_ok, Decimal.cmp_isLE_iff, Decimal.toRat_ofInt] at h
  obtain ⟨_, -, _, ⟨hpos, hone⟩, h⟩ := h
  refine ⟨by simpa using hpos, by simpa using hone, ?_⟩
  unfold touchSizeContracts
  rcases htouch : profile.touchSize with _ | contracts
  · cases isAsk
    · exact quote.bidSize.pos
    · exact quote.askSize.pos
  · simp only [htouch, require_eq_ok] at h
    have hnonneg := contracts.nonneg
    change 0 < contracts.value
    omega

omit [RoundedArith arith] in
/-- The levels of a side are one tick apart, from the touch on. -/
theorem pushSideLadder_level (h : pushSideLadder contract isAsk tick profile quote = .ok orders)
    {k : Nat} {order : SeedOrder} (horder : orders[k]? = some order) :
    order.contract = contract ∧ order.isAsk = isAsk ∧ order.price.value =
      if isAsk then quote.ask.value + tick.value * k else quote.bid.value - tick.value * k := by
  obtain ⟨-, hlevels, -⟩ := sideLadder_levels rfl h
  have hlevel := hlevels k order horder
  rw [Nat.zero_add] at hlevel
  have hprice := levelPrice_some hlevel.price
  refine ⟨hlevel.contract_eq, hlevel.isAsk_eq, ?_⟩
  cases isAsk <;> exact hprice

/-- One side of an admitted quote is a ladder. -/
theorem pushSideLadder_ladder (hprofile : profile.validate = .ok ()) (hgrid : quote.OnGrid tick)
    (h : pushSideLadder contract isAsk tick profile quote = .ok orders) :
    SideLadder profile contract quote isAsk tick orders := by
  obtain ⟨hdecay, hone, hpos⟩ := LiquidityProfile.validate_eq_ok quote isAsk hprofile
  obtain ⟨hlength, hlevels, hstops⟩ := sideLadder_levels rfl h
  simp only [Nat.zero_add] at hlevels hstops
  have hdepth := profile.depthLevels.nonneg
  have hprice : ∀ (k : Nat) (order : SeedOrder), orders[k]? = some order →
      order.price.value = if isAsk then quote.ask.value + tick.value * k
        else quote.bid.value - tick.value * k :=
    fun k order horder => (pushSideLadder_level h horder).2.2
  constructor
  · omega
  · intro order horder
    obtain ⟨k, hk⟩ := List.getElem?_of_mem horder
    exact ⟨(pushSideLadder_level h hk).1, (pushSideLadder_level h hk).2.1⟩
  · have hnonempty : 0 < orders.length := by
      by_contra hempty
      have hlen : orders.length = 0 := by omega
      rw [hlen] at hstops
      rcases hstops (by omega) with ⟨factor, size, ⟨⟩, hsize, hzero⟩ | hnone
      · rw [decayedSize_one hsize] at hzero
        omega
      · obtain ⟨rfl, hlt⟩ := levelPrice_none hnone
        have hbid := quote.bid.nonneg
        change quote.bid.value < _ at hlt
        simp at hlt
        omega
    obtain ⟨order, horder⟩ : ∃ order, orders[0]? = some order :=
      ⟨_, List.getElem?_eq_getElem hnonempty⟩
    obtain ⟨factor, ⟨⟩, hsize⟩ := (hlevels 0 order horder).size
    refine ⟨order, horder, ?_, decayedSize_one hsize⟩
    apply Bounded.ext
    rw [hprice 0 order horder]
    split_ifs <;> simp
  · intro k order order' horder horder'
    obtain ⟨factor, hfactor, hsize⟩ := (hlevels k order horder).size
    obtain ⟨factor', hfactor', hsize'⟩ := (hlevels (k + 1) order' horder').size
    refine ⟨?_, decayedSize_le hdecay.le hone hfactor hfactor' hsize hsize'⟩
    rw [hprice k order horder, hprice (k + 1) order' horder', deeper]
    split_ifs <;> push_cast <;> ring
  · intro order horder
    obtain ⟨k, hk⟩ := List.getElem?_of_mem horder
    rw [hprice k order hk]
    split_ifs
    · rw [Int.add_mul_emod_self_left]
      exact hgrid.ask_aligned
    · rw [Int.sub_mul_emod_self_left]
      exact hgrid.bid_aligned
  · exact fun order _ => ⟨order.price.nonneg, order.size.pos⟩
  · intro hshort
    rcases hstops (by omega) with ⟨factor, size, hfactor, hsize, hzero⟩ | hnone
    · exact .inl ⟨factor, size, hfactor, hsize, hzero⟩
    · obtain ⟨rfl, hlt⟩ := levelPrice_none hnone
      right
      refine ⟨rfl, ?_⟩
      change quote.bid.value < _ at hlt
      omega

omit [RoundedArith arith] in
/-- The levels move away from the touch. -/
theorem SideLadder.away (h : SideLadder profile contract quote isAsk tick orders) {k : Nat}
    {order : SeedOrder} (horder : orders[k]? = some order) :
    if isAsk then quote.ask.value ≤ order.price.value
      else order.price.value ≤ quote.bid.value := by
  induction k generalizing order with
  | zero =>
    obtain ⟨first, hfirst, hprice, -⟩ := h.touch
    cases hfirst.symm.trans horder
    rw [hprice]
    split_ifs <;> exact le_rfl
  | succ k ih =>
    have hlt : k + 1 < orders.length := (List.getElem?_eq_some_iff.1 horder).1
    have hprevious : orders[k]? = some orders[k] := List.getElem?_eq_getElem (by omega)
    have haway := ih hprevious
    have hnext := (h.next k _ order hprevious horder).1
    have htick := tick.nonneg
    rw [hnext, deeper]
    split_ifs at haway ⊢ <;> omega

omit [RoundedArith arith] in
/-- The plan of a list of quotes, by induction on the quotes. -/
theorem planContracts_ladders {entries : List (ContractKey × QuoteView)}
    (h : entries.foldlM (planContract tick profile) orders = .ok plan) :
    ∃ ladders : List (List SeedOrder × List SeedOrder),
      List.Forall₂ (fun entry ladder =>
        pushSideLadder entry.1 false tick profile entry.2 = .ok ladder.1 ∧
        pushSideLadder entry.1 true tick profile entry.2 = .ok ladder.2) entries ladders ∧
      plan = orders ++ ladders.flatMap fun ladder => ladder.1 ++ ladder.2 := by
  induction entries generalizing orders with
  | nil =>
    cases foldlM_nil_ok.1 h
    exact ⟨[], .nil, by simp⟩
  | cons entry entries ih =>
    obtain ⟨planned, hentry, hrest⟩ := foldlM_cons_ok.1 h
    simp only [planContract, bind_ok_iff, pure_ok_iff] at hentry
    obtain ⟨bids, hbids, asks, hasks, rfl⟩ := hentry
    obtain ⟨ladders, hladders, rfl⟩ := ih hrest
    exact ⟨(bids, asks) :: ladders, .cons ⟨hbids, hasks⟩ hladders, by simp⟩

omit [RoundedArith arith] in
/-- No seed is priced better than the touch of its quote. -/
theorem planSeed_prices (hplan : planSeed snap profile = .ok plan) {seed : SeedOrder}
    (hseed : seed ∈ plan) : ∃ quote, snap.quotes[seed.contract]? = some quote ∧
      if seed.isAsk then quote.ask.value ≤ seed.price.value
        else seed.price.value ≤ quote.bid.value := by
  obtain ⟨_, -, hfold⟩ := bind_ok_iff.1 hplan
  obtain ⟨ladders, hladders, rfl⟩ := planContracts_ladders hfold
  rw [List.nil_append, List.mem_flatMap] at hseed
  obtain ⟨ladder, hladder, hseed⟩ := hseed
  obtain ⟨entry, hentry, hbids, hasks⟩ := Pointwise.exists_left hladders hladder
  have hquote : snap.quotes[entry.1]? = some entry.2 := by
    rw [Std.TreeMap.getElem?_eq_some_iff_exists_compare_eq_eq_and_mem_toList]
    exact ⟨entry.1, Std.ReflCmp.compare_self, hentry⟩
  have htick := snap.spec.tickSizeCents.nonneg
  refine ⟨entry.2, ?_⟩
  rcases List.mem_append.1 hseed with hbid | hask
  · obtain ⟨k, hk⟩ := List.getElem?_of_mem hbid
    obtain ⟨hcontract, hside, hprice⟩ := pushSideLadder_level hbids hk
    have hoffset : 0 ≤ snap.spec.tickSizeCents.value * (k : Int) := by positivity
    refine ⟨by rw [hcontract]; exact hquote, ?_⟩
    rw [hside, hprice]
    simpa using hoffset
  · obtain ⟨k, hk⟩ := List.getElem?_of_mem hask
    obtain ⟨hcontract, hside, hprice⟩ := pushSideLadder_level hasks hk
    have hoffset : 0 ≤ snap.spec.tickSizeCents.value * (k : Int) := by positivity
    refine ⟨by rw [hcontract]; exact hquote, ?_⟩
    rw [hside, hprice]
    simpa using hoffset

/-- The ladders of a quoted contract: bids, then asks, none of the bids above an ask. -/
structure QuoteLadders (profile : LiquidityProfile) (tick : PriceCents)
    (entry : ContractKey × QuoteView) (ladder : List SeedOrder × List SeedOrder) : Prop where
  bids : SideLadder profile entry.1 entry.2 false tick ladder.1
  asks : SideLadder profile entry.1 entry.2 true tick ladder.2
  uncrossed : ∀ bid ∈ ladder.1, ∀ ask ∈ ladder.2, bid.price.value ≤ ask.price.value

/-- A plan lists for each quoted contract its ladders, in the order of the contracts. -/
theorem ladder_shape (hprofile : profile.validate = .ok ())
    (hgrid : ∀ (key : ContractKey) (quote : QuoteView), snap.quotes[key]? = some quote →
      quote.OnGrid snap.spec.tickSizeCents)
    (hplan : planSeed snap profile = .ok plan) :
    (snap.quotes.toList.Pairwise fun entry later => compare entry.1 later.1 = .lt) ∧
    ∃ ladders : List (List SeedOrder × List SeedOrder),
      List.Forall₂ (QuoteLadders profile snap.spec.tickSizeCents) snap.quotes.toList ladders ∧
      plan = ladders.flatMap fun ladder => ladder.1 ++ ladder.2 := by
  refine ⟨Std.TreeMap.ordered_keys_toList, ?_⟩
  obtain ⟨_, -, hfold⟩ := bind_ok_iff.1 hplan
  obtain ⟨ladders, hladders, rfl⟩ := planContracts_ladders hfold
  refine ⟨ladders, ?_, by simp⟩
  have hquotes : ∀ entry ∈ snap.quotes.toList, entry.2.OnGrid snap.spec.tickSizeCents := by
    intro entry hentry
    apply hgrid entry.1
    rw [Std.TreeMap.getElem?_eq_some_iff_exists_compare_eq_eq_and_mem_toList]
    exact ⟨entry.1, Std.ReflCmp.compare_self, hentry⟩
  refine ((List.forall₂_and_left _ _).2 ⟨hquotes, hladders⟩).imp ?_
  rintro entry ladder ⟨hquote, hbids, hasks⟩
  have hbidSide := pushSideLadder_ladder hprofile hquote hbids
  have haskSide := pushSideLadder_ladder hprofile hquote hasks
  refine ⟨hbidSide, haskSide, fun bid hbid ask hask => ?_⟩
  obtain ⟨k, hk⟩ := List.getElem?_of_mem hbid
  obtain ⟨l, hl⟩ := List.getElem?_of_mem hask
  have hbelow : bid.price.value ≤ entry.2.bid.value := hbidSide.away hk
  have habove : entry.2.ask.value ≤ ask.price.value := haskSide.away hl
  exact hbelow.trans (hquote.uncrossed.trans habove)

end Plan

section Small

open SmallMarket

/-- Three contracts at the touch, halved on each of two deeper levels. -/
def halvingProfile : LiquidityProfile := ⟨.Flat (lit 3), lit 2, ⟨5, 1⟩⟩

/-- The ladders around a spread of two ticks. -/
theorem ladder_shape_small :
    ∃ plan ladders, planSeed firstStep halvingProfile = .ok plan ∧
      plan.map (fun order => (order.isAsk, order.price.value, order.size.value)) =
        [(false, 100, 3), (false, 95, 2), (false, 90, 1), (true, 110, 3), (true, 115, 2),
          (true, 120, 1)] ∧
      List.Forall₂ (QuoteLadders halvingProfile firstStep.spec.tickSizeCents)
        firstStep.quotes.toList ladders := by
  have hrounded := SmallMarket.roundedArith
  obtain ⟨plan, hplan, hlevels⟩ := exists_ok_of_check (r := planSeed firstStep halvingProfile)
    (fun plan => plan.map (fun order => (order.isAsk, order.price.value, order.size.value)) =
      [(false, 100, 3), (false, 95, 2), (false, 90, 1), (true, 110, 3), (true, 115, 2),
        (true, 120, 1)]) (by decide +kernel)
  have hgrid : ∀ (key : ContractKey) (quote : QuoteView), firstStep.quotes[key]? = some quote →
      quote.OnGrid firstStep.spec.tickSizeCents := by
    intro key quote hquote
    simp [firstStep, snapshot, Std.TreeMap.getElem?_insert] at hquote
    obtain ⟨-, rfl⟩ := hquote
    constructor <;> decide
  obtain ⟨-, ladders, hladders, -⟩ := ladder_shape (by decide) hgrid hplan
  exact ⟨plan, ladders, hplan, of_decide_eq_true hlevels, hladders⟩

end Small

end IronCondor
