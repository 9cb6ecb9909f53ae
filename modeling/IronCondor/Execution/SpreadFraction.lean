import IronCondor.Data.Normalisation
import IronCondor.Execution.Naive
import IronCondor.Execution.Rounding

/-! # Spread-fraction fills

The midpoint is floored to the tick, while the offset is rounded from the exact half-spread. The
two meet in the touch only when the spread is an even number of ticks. -/
namespace IronCondor

open Checked HalfEven

/-- A whole number of cents is a decimal, and so is its half. -/
theorem representable_cents {s : Int} (h : u64.Contains s) :
    (Decimal.ofInt s).Representable ∧ (⟨5 * s, 1⟩ : Decimal).Representable := by
  norm_num [IntRange.Contains, u64, IntRange.unsigned] at h
  simp only [Decimal.Representable, Decimal.ofInt, abs_lt]
  norm_num
  omega

theorem toRat_half (s : Int) : (⟨5 * s, 1⟩ : Decimal).toRat = (s : ℚ) / 2 := by
  rw [Decimal.toRat]
  push_cast
  ring

/-- Twice the midpoint is the sum of the prices, less a tick when the spread is an odd number of
ticks. -/
theorem floorToTick_mid {bid ask tick : Int} (htick : 0 < tick) (hbid : bid % tick = 0)
    (hask : ask % tick = 0) :
    ((ask - bid) % (2 * tick) = 0 ∧ 2 * floorToTick ((bid + ask) / 2) tick = bid + ask) ∨
      ((ask - bid) % (2 * tick) ≠ 0 ∧
        2 * floorToTick ((bid + ask) / 2) tick = bid + ask - tick) := by
  obtain ⟨b, rfl⟩ := Int.dvd_of_emod_eq_zero hbid
  obtain ⟨a, rfl⟩ := Int.dvd_of_emod_eq_zero hask
  rcases Int.even_or_odd' (b + a) with ⟨c, hc | hc⟩
  · left
    obtain rfl : a = 2 * c - b := by omega
    have hspread : tick * (2 * c - b) - tick * b = 2 * tick * (c - b) := by ring
    have hsum : tick * b + tick * (2 * c - b) = 2 * (tick * c) := by ring
    refine ⟨by rw [hspread, Int.mul_emod_right], ?_⟩
    rw [hsum, Int.mul_ediv_cancel_left _ two_ne_zero, floorToTick, Int.mul_emod_right, sub_zero]
  · right
    obtain rfl : a = 2 * c + 1 - b := by omega
    have hspread : tick * (2 * c + 1 - b) - tick * b = tick + 2 * tick * (c - b) := by ring
    have hsum : tick * b + tick * (2 * c + 1 - b) = 2 * (tick * c) + tick := by ring
    have hhalf : (2 * (tick * c) + tick) / 2 = tick / 2 + tick * c := by omega
    have hrem : tick / 2 % tick = tick / 2 := Int.emod_eq_of_lt (by omega) (by omega)
    constructor
    · rw [hspread, Int.add_mul_emod_self_left, Int.emod_eq_of_lt htick.le (by omega)]
      exact htick.ne'
    · rw [hsum, hhalf, floorToTick, Int.add_mul_emod_self_left, hrem]
      omega

section Price

variable [arith : DecimalArith]

/-- The fill price of a submit against a quote, under a spread-fraction slippage. -/
def spreadFractionPrice (quote : QuoteView) (side : Side) (fraction : Decimal) :
    Outcome PriceCents := do
  let offset ← spreadFractionOffsetCents quote.bid quote.ask fraction
  naiveFillPrice quote.mid side offset

/-- A naive fill is at that price. -/
theorem fillIntent_price {m : NaiveFill} {fraction : Decimal} {intent : OrderIntent}
    {snap : ChainSnapshot} {quote : QuoteView} {fill : Fill}
    (hslippage : m.slippage = .SpreadFraction fraction)
    (hquote : snap.quotes[intent.contract]? = some quote)
    (h : m.fillIntent intent snap = .ok fill) :
    spreadFractionPrice quote intent.side fraction = .ok fill.price := by
  simp only [NaiveFill.fillIntent, hquote, NaiveFill.adverseOffsetCents, hslippage, bind_ok_iff,
    okOr_eq_ok] at h
  obtain ⟨_, ⟨⟩, offset, hoffset, price, hprice, hfill⟩ := h
  obtain ⟨fees, slippage, -, -, rfl⟩ := assembleFill_eq_ok hfill
  exact bind_ok_iff.2 ⟨offset, hoffset, hprice⟩

section Offset

variable [RoundedArith arith] {bid ask : PriceCents} {fraction : Decimal} {offset : Bounded u64}

/-- The offset is the product, halved and rounded to cents. -/
theorem offset_rounds (h : spreadFractionOffsetCents bid ask fraction = .ok offset) :
    u64.Contains (ask.value - bid.value) ∧ ∃ rnd rnd', Decimal.Rounding rnd ∧
      Decimal.Rounding rnd' ∧ offset.value =
        halfEven (rnd' (rnd (((ask.value - bid.value : Int) : ℚ) * fraction.toRat) / 2)) := by
  simp only [spreadFractionOffsetCents, bind_ok_iff, narrow_eq_ok, okOr_eq_ok] at h
  obtain ⟨spread, hspread, product, hproduct, half, hhalf, hoffset⟩ := h
  obtain ⟨rnd, hrnd, hmul⟩ := @RoundedArith.product arith _
  obtain ⟨rnd', hrnd', hdiv⟩ := @RoundedArith.half arith _
  refine ⟨hspread ▸ spread.inRange, rnd, rnd', hrnd, hrnd', ?_⟩
  rw [hoffset, Decimal.roundHalfEven_eq, hdiv _ _ hhalf, hmul _ _ _ hproduct, Decimal.toRat_ofInt,
    hspread]

/-- A fraction up to one moves the price by at most the rounded half-spread. -/
theorem offset_le (hfraction : fraction.toRat ≤ 1)
    (h : spreadFractionOffsetCents bid ask fraction = .ok offset) :
    offset.value ≤ halfEven (((ask.value - bid.value : Int) : ℚ) / 2) := by
  obtain ⟨hspread, rnd, rnd', hrnd, hrnd', hoffset⟩ := offset_rounds h
  obtain ⟨hwhole, hhalf⟩ := representable_cents hspread
  have hnonneg : (0 : ℚ) ≤ (ask.value - bid.value : Int) := by exact_mod_cast hspread.1
  have hproduct : rnd (((ask.value - bid.value : Int) : ℚ) * fraction.toRat) ≤
      (ask.value - bid.value : Int) := by
    have hmono := hrnd.mono (mul_le_of_le_one_right hnonneg hfraction)
    have hfixed := hrnd.representable _ hwhole
    rw [Decimal.toRat_ofInt] at hfixed
    exact hmono.trans hfixed.le
  have hfixed := hrnd'.representable _ hhalf
  rw [toRat_half] at hfixed
  rw [hoffset]
  apply halfEven_mono
  exact (hrnd'.mono (by linarith)).trans hfixed.le

/-- A fraction of one moves it by exactly that. -/
theorem offset_one (hfraction : fraction.toRat = 1)
    (h : spreadFractionOffsetCents bid ask fraction = .ok offset) :
    offset.value = halfEven (((ask.value - bid.value : Int) : ℚ) / 2) := by
  obtain ⟨hspread, rnd, rnd', hrnd, hrnd', hoffset⟩ := offset_rounds h
  obtain ⟨hwhole, hhalf⟩ := representable_cents hspread
  have hfixed := hrnd.representable _ hwhole
  have hfixed' := hrnd'.representable _ hhalf
  rw [Decimal.toRat_ofInt] at hfixed
  rw [toRat_half] at hfixed'
  rw [hoffset, hfraction, mul_one, hfixed, hfixed']

/-- A fraction of one is computed. -/
theorem exists_offset_one (hle : bid.value ≤ ask.value) :
    ∃ offset, spreadFractionOffsetCents bid ask (.ofInt 1) = .ok offset := by
  have hspread : u64.Contains (ask.value - bid.value) := by
    have hbid := bid.nonneg
    have hask := ask.le_max
    constructor
    · change 0 ≤ _
      omega
    · omega
  obtain ⟨hwhole, hhalf⟩ := representable_cents hspread
  have hnonneg : (0 : ℚ) ≤ (ask.value - bid.value : Int) := by exact_mod_cast hspread.1
  obtain ⟨rnd, hrnd, hmul⟩ := @RoundedArith.product arith _
  obtain ⟨rnd', hrnd', hdiv⟩ := @RoundedArith.half arith _
  obtain ⟨product, hproduct⟩ := @RoundedArith.product_fits arith _
    (.ofInt (ask.value - bid.value)) (.ofInt 1) _ hwhole (by simp)
  have hproduct' := hmul _ _ _ hproduct
  rw [Decimal.toRat_ofInt 1, Int.cast_one, mul_one, hrnd.representable _ hwhole,
    Decimal.toRat_ofInt] at hproduct'
  obtain ⟨half, hhalf'⟩ := @RoundedArith.half_fits arith _ product _ hhalf
    (by rw [toRat_half, hproduct'])
  have hoffset : half.roundHalfEven = halfEven (((ask.value - bid.value : Int) : ℚ) / 2) := by
    have hfixed := hrnd'.representable _ hhalf
    rw [toRat_half] at hfixed
    rw [Decimal.roundHalfEven_eq, hdiv _ _ hhalf', hproduct', hfixed]
  have hfits : u64.Contains half.roundHalfEven := by
    rw [hoffset]
    constructor
    · change 0 ≤ _
      apply le_halfEven
      rw [Int.cast_zero]
      linarith
    · exact (halfEven_le (by linarith)).trans hspread.2
  refine ⟨⟨_, hfits⟩, ?_⟩
  simp only [spreadFractionOffsetCents, bind_ok_iff, narrow_eq_ok, okOr_eq_ok]
  exact ⟨⟨_, hspread⟩, rfl, product, hproduct, half, hhalf', rfl⟩

end Offset

/-- The side of the quote that a taker meets. -/
def QuoteView.touch (quote : QuoteView) : Side → PriceCents
  | .Long => quote.ask
  | .Short => quote.bid

/-- A price that is no better for the taker than the reference. -/
def Side.NoBetter (reference price : Int) : Side → Prop
  | .Long => reference ≤ price
  | .Short => price ≤ reference

/-- A price of a submit that the quote bounds: within it, no better than the midpoint, and at the
touch for a fraction of one. -/
structure WithinQuote (quote : QuoteView) (side : Side) (fraction : Decimal) (price : PriceCents) :
    Prop where
  bid_le : quote.bid.value ≤ price.value
  le_ask : price.value ≤ quote.ask.value
  adverse : side.NoBetter quote.mid.value price.value
  touch : fraction.toRat = 1 → price = quote.touch side

variable [RoundedArith arith] {quote : QuoteView} {tick : PriceCents}

/-- A reference moved against the taker, floored at zero. -/
def movedAgainst (side : Side) (reference offset : Int) : Int :=
  max (match side with
    | .Long => reference + offset
    | .Short => reference - offset) 0

omit [RoundedArith arith] in
theorem spreadFractionPrice_eq_ok {side : Side} {fraction : Decimal} {price : PriceCents} :
    spreadFractionPrice quote side fraction = .ok price ↔
      ∃ offset, spreadFractionOffsetCents quote.bid quote.ask fraction = .ok offset ∧
        price.value = movedAgainst side quote.mid.value offset.value := by
  simp only [spreadFractionPrice, naiveFillPrice, bind_ok_iff, narrow_eq_ok]
  exact Iff.rfl

/-- Halves of a spread, where the midpoint of an ingested quote lies. -/
structure HalfSpread (quote : QuoteView) (tick : PriceCents) (offset : Int) : Prop where
  rounded : (quote.ask.value - quote.bid.value) % 4 = 3 ∧
      2 * offset = quote.ask.value - quote.bid.value + 1 ∨
    (quote.ask.value - quote.bid.value) % 4 ≠ 3 ∧
      offset = (quote.ask.value - quote.bid.value) / 2
  mid : (quote.ask.value - quote.bid.value) % (2 * tick.value) = 0 ∧
      2 * quote.mid.value = quote.bid.value + quote.ask.value ∨
    (quote.ask.value - quote.bid.value) % (2 * tick.value) ≠ 0 ∧
      2 * quote.mid.value = quote.bid.value + quote.ask.value - tick.value

omit arith [RoundedArith arith] in
theorem halfSpread (htick : 0 < tick.value) (h : quote.Ingested tick) :
    HalfSpread quote tick (halfEven (((quote.ask.value - quote.bid.value : Int) : ℚ) / 2)) := by
  constructor
  · rw [halfEven_half]
    split_ifs with hrem
    · left
      omega
    · right
      exact ⟨hrem, rfl⟩
  · have hmid := floorToTick_mid htick h.bid_aligned h.ask_aligned
    rwa [← h.mid] at hmid

/-- A fraction of one is filled, at the midpoint moved by the rounded half-spread. -/
theorem exists_price_one (htick : 0 < tick.value) (h : quote.Ingested tick) (side : Side) :
    ∃ price, spreadFractionPrice quote side (.ofInt 1) = .ok price ∧
      price.value = movedAgainst side quote.mid.value
        (halfEven (((quote.ask.value - quote.bid.value : Int) : ℚ) / 2)) := by
  obtain ⟨offset, hoffset⟩ := exists_offset_one h.uncrossed
  have hvalue := offset_one (by simp) hoffset
  have hhalf := halfSpread htick h
  rw [← hvalue] at hhalf ⊢
  obtain ⟨hrounded, hmid⟩ := hhalf
  have hask := quote.ask.le_max
  have hbid := quote.bid.nonneg
  have huncrossed := h.uncrossed
  have hfits : u64.Contains (movedAgainst side quote.mid.value offset.value) := by
    cases side <;> unfold movedAgainst <;> constructor
    · exact le_max_right _ _
    · apply max_le _ (by decide)
      change quote.mid.value + offset.value ≤ _
      omega
    · exact le_max_right _ _
    · apply max_le _ (by decide)
      change quote.mid.value - offset.value ≤ _
      omega
  exact ⟨⟨_, hfits⟩, spreadFractionPrice_eq_ok.2 ⟨offset, hoffset, rfl⟩, rfl⟩

/-- The fill prices of an ingested quote stay within it, for every fraction and side, exactly when
its spread is an even number of ticks, or nothing is bid, the tick is one cent and the ask leaves
three cents over four. -/
theorem spread_fraction_within (htick : 0 < tick.value) (h : quote.Ingested tick) :
    ((∀ (side : Side) (fraction : Decimal) (price : PriceCents), 0 ≤ fraction.toRat →
        fraction.toRat ≤ 1 → spreadFractionPrice quote side fraction = .ok price →
        WithinQuote quote side fraction price) ↔
      ((quote.ask.value - quote.bid.value) % (2 * tick.value) = 0 ∨
        (quote.bid.value = 0 ∧ tick.value = 1 ∧ quote.ask.value % 4 = 3))) ∧
    ∀ (m : NaiveFill) (fraction : Decimal) (intent : OrderIntent) (snap : ChainSnapshot)
      (fill : Fill), m.slippage = .SpreadFraction fraction →
      snap.quotes[intent.contract]? = some quote → m.fillIntent intent snap = .ok fill →
      spreadFractionPrice quote intent.side fraction = .ok fill.price := by
  refine ⟨⟨fun hall => ?_, fun hcond => ?_⟩, fun m fraction intent snap fill => fillIntent_price⟩
  · obtain ⟨long, hlong, hlong'⟩ := exists_price_one htick h .Long
    obtain ⟨short, hshort, hshort'⟩ := exists_price_one htick h .Short
    have hask : long = quote.ask := (hall .Long _ long (by simp) (by simp) hlong).touch (by simp)
    have hbid : short = quote.bid :=
      (hall .Short _ short (by simp) (by simp) hshort).touch (by simp)
    obtain ⟨hrounded, hmid⟩ := halfSpread htick h
    have hnonneg := quote.bid.nonneg
    have huncrossed := h.uncrossed
    have hmid_nonneg := quote.mid.nonneg
    rw [hask] at hlong'
    rw [hbid] at hshort'
    simp only [movedAgainst] at hlong' hshort'
    omega
  · rintro side fraction price hpos hone hprice
    obtain ⟨offset, hoffset, hvalue⟩ := spreadFractionPrice_eq_ok.1 hprice
    have hle := offset_le hone hoffset
    have hnonneg := offset.nonneg
    have hone' : fraction.toRat = 1 → offset.value = _ := fun hone' => offset_one hone' hoffset
    have hhalf := halfSpread htick h
    generalize halfEven (((quote.ask.value - quote.bid.value : Int) : ℚ) / 2) = half at *
    obtain ⟨hrounded, hmid⟩ := hhalf
    have hbid := quote.bid.nonneg
    have huncrossed := h.uncrossed
    cases side <;> simp only [movedAgainst] at hvalue <;> constructor
    · omega
    · omega
    · change quote.mid.value ≤ price.value
      omega
    · intro hfraction
      have hfull := hone' hfraction
      apply Bounded.ext
      change price.value = quote.ask.value
      omega
    · omega
    · omega
    · change price.value ≤ quote.mid.value
      omega
    · intro hfraction
      have hfull := hone' hfraction
      apply Bounded.ext
      change price.value = quote.bid.value
      omega

end Price

section Small

open SmallMarket

/-- A tick of five cents. -/
def fiveCents : PriceCents := lit 5

/-- A spread of one tick of five cents. -/
def oddQuote : QuoteView :=
  SmallMarket.quote call (lit 100) (lit 100) (lit 105)

/-- A spread of two ticks. -/
def evenQuote : QuoteView :=
  SmallMarket.quote call (lit 100) (lit 105) (lit 110)

/-- A purchase halfway to the ask of the even spread. -/
theorem spread_fraction_within_small :
    ∃ price, spreadFractionPrice evenQuote .Long ⟨5, 1⟩ = .ok price ∧
      WithinQuote evenQuote .Long ⟨5, 1⟩ price := by
  have hrounded := SmallMarket.roundedArith
  obtain ⟨price, hprice⟩ := exists_eq_ok (r := spreadFractionPrice evenQuote .Long ⟨5, 1⟩)
    (by decide)
  have hingested : evenQuote.Ingested fiveCents := ⟨by constructor <;> decide, by decide⟩
  refine ⟨price, hprice, ?_⟩
  exact (spread_fraction_within (by decide) hingested).1.2 (.inl (by decide)) .Long _ price
    (by norm_num [Decimal.toRat]) (by norm_num [Decimal.toRat]) hprice

/-- Fill at the touch, as a fraction of one says. -/
def touchFill : NaiveFill := ⟨.SpreadFraction (.ofInt 1), ⟨lit 0, lit 0⟩⟩

/-- A spread of one tick: the sale fills below the bid and the purchase below the ask. -/
theorem odd_spread_missed : oddQuote.Ingested fiveCents ∧
    ∃ sale purchase,
      touchFill.fillIntent (order .Open .Short (lots 1 (by decide) (by decide)) none .Ioc)
        (snapshot ⟨0, by decide⟩ fiveCents (by decide) [oddQuote]) = .ok sale ∧
      sale.price.value < oddQuote.bid.value ∧
      touchFill.fillIntent (order .Open .Long (lots 1 (by decide) (by decide)) none .Ioc)
        (snapshot ⟨0, by decide⟩ fiveCents (by decide) [oddQuote]) = .ok purchase ∧
      purchase.price.value < oddQuote.ask.value := by
  obtain ⟨sale, hsale, hbelow⟩ := exists_ok_of_check (r := touchFill.fillIntent (order .Open .Short
      (lots 1 (by decide) (by decide)) none .Ioc) (snapshot ⟨0, by decide⟩ fiveCents (by decide)
      [oddQuote])) (fun fill => fill.price.value < oddQuote.bid.value) (by decide +kernel)
  obtain ⟨purchase, hpurchase, hbelow'⟩ := exists_ok_of_check (r := touchFill.fillIntent (order
      .Open .Long (lots 1 (by decide) (by decide)) none .Ioc) (snapshot ⟨0, by decide⟩ fiveCents
      (by decide) [oddQuote])) (fun fill => fill.price.value < oddQuote.ask.value)
    (by decide +kernel)
  refine ⟨⟨by constructor <;> decide, by decide⟩, ?_⟩
  exact ⟨sale, purchase, hsale, of_decide_eq_true hbelow, hpurchase, of_decide_eq_true hbelow'⟩

end Small

end IronCondor
