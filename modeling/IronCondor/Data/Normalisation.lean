import IronCondor.Data.Convert
import IronCondor.Lib.KeyedInsert
import IronCondor.Lib.Pointwise

/-! # What the conversion accepts

Each quote has its own conditions, and no two may resolve to one contract. An accepted chain has
one entry a quote, and does not show the order the quotes came in. -/
namespace IronCondor

open Checked KeyedInsert

/-- The instant an expiry means, counted from the anchor. -/
def ExpirationDate.Resolves [DecimalArith] (expiration : ExpirationDate) (anchor : SimTime)
    (instant : Instant) : Prop :=
  match expiration with
  | .DateTime t => t = instant
  | .Days days => ∃ scaled,
      DecimalArith.checkedMul days (.ofInt Convert.nanosPerDay) = some scaled ∧
      .ofNanos (anchor.value + scaled.roundHalfEven) = instant ∧
        i64.Contains (anchor.value + scaled.roundHalfEven)

namespace ExpirationDate

variable [DecimalArith] {expiration : ExpirationDate} {anchor : SimTime}

theorem Resolves.unique {instant instant' : Instant} (h : expiration.Resolves anchor instant)
    (h' : expiration.Resolves anchor instant') : instant = instant' := by
  cases expiration with
  | DateTime t => exact h.symm.trans h'
  | Days days =>
    obtain ⟨scaled, hscaled, hinstant, -⟩ := h
    obtain ⟨_, hscaled', hinstant', -⟩ := h'
    cases hscaled.symm.trans hscaled'
    exact hinstant.symm.trans hinstant'

/-- An expiry is resolved when its scaling stays in range. -/
theorem resolveExpiration_iff {resolved : ExpirationDate} :
    resolveExpiration expiration anchor = .ok resolved ↔
      ∃ instant, expiration.Resolves anchor instant ∧ resolved = .DateTime instant := by
  cases expiration with
  | DateTime t =>
    constructor
    · rintro ⟨⟩
      exact ⟨t, rfl, rfl⟩
    · rintro ⟨_, rfl, rfl⟩
      rfl
  | Days days =>
    simp only [resolveExpiration, Resolves, bind_ok_iff, okOr_eq_ok, narrow_eq_ok, pure_ok_iff]
    constructor
    · rintro ⟨scaled, hscaled, offset, hoffset, wide, hwide, narrowed, hnarrowed, rfl⟩
      have hvalue : narrowed.value = anchor.value + scaled.roundHalfEven := by
        rw [hnarrowed, hwide, hoffset]
      refine ⟨_, ⟨scaled, hscaled, rfl, hvalue ▸ narrowed.inRange⟩, ?_⟩
      rw [hvalue]
    · rintro ⟨_, ⟨scaled, hscaled, rfl, hfits⟩, rfl⟩
      have hanchor := anchor.inRange
      have hoffset : i128.Contains scaled.roundHalfEven := by
        norm_num [IntRange.Contains, i128, i64, IntRange.signed] at hanchor hfits ⊢
        omega
      have hwide : i128.Contains (anchor.value + scaled.roundHalfEven) := by
        norm_num [IntRange.Contains, i128, i64, IntRange.signed] at hfits ⊢
        omega
      exact ⟨scaled, hscaled, ⟨_, hoffset⟩, rfl, ⟨_, hwide⟩, rfl, ⟨_, hfits⟩, rfl, rfl⟩

end ExpirationDate

/-- An uncrossed quote on a tick grid. -/
structure QuoteView.OnGrid (tick : PriceCents) (quote : QuoteView) : Prop where
  bid_aligned : quote.bid.value % tick.value = 0
  ask_aligned : quote.ask.value % tick.value = 0
  uncrossed : quote.bid.value ≤ quote.ask.value

/-- A quote as the conversion leaves it, with the tick floor of its midpoint. -/
structure QuoteView.Ingested (tick : PriceCents) (quote : QuoteView) : Prop
    extends quote.OnGrid tick where
  mid : quote.mid.value = floorToTick ((quote.bid.value + quote.ask.value) / 2) tick.value

/-- The tick floor of a midpoint lies between aligned prices. -/
theorem floorToTick_between {bid ask tick : Int} (htick : 0 < tick) (hbid : bid % tick = 0)
    (hle : bid ≤ ask) :
    bid ≤ floorToTick ((bid + ask) / 2) tick ∧ floorToTick ((bid + ask) / 2) tick ≤ ask := by
  obtain ⟨k, rfl⟩ := Int.dvd_of_emod_eq_zero hbid
  have hmid : tick * k ≤ (tick * k + ask) / 2 := by omega
  have hk : k ≤ (tick * k + ask) / 2 / tick := Int.le_ediv_of_mul_le htick (by rwa [mul_comm])
  have hfloor := Int.mul_ediv_add_emod ((tick * k + ask) / 2) tick
  have hrest := Int.emod_nonneg ((tick * k + ask) / 2) htick.ne'
  have hscaled := mul_le_mul_of_nonneg_left hk htick.le
  unfold floorToTick
  constructor <;> omega

section Quotes

variable {F : Type} [AnalyticFloat F]

@[simp] theorem analyticF64ToDecimal_eq_ok {field : String} {value : F} {d : Decimal} :
    analyticF64ToDecimal field value = .ok d ↔
      AnalyticFloat.isFinite value = true ∧ AnalyticFloat.fromF64Retain value = some d := by
  simp [analyticF64ToDecimal, bind_ok_iff]

variable [DecimalArith] {snapMeta : SnapshotMeta} {raw : RawQuote F} {view : QuoteView}

namespace RawQuote

/-- A quote that the conversion accepts on its own, under a header. -/
structure Admitted (snapMeta : SnapshotMeta) (raw : RawQuote F) : Prop where
  strike_pos : 0 < raw.strike.value
  strike_aligned : raw.strike.value % snapMeta.tickSizeCents.value = 0
  bid_aligned : raw.bid.value % snapMeta.tickSizeCents.value = 0
  ask_aligned : raw.ask.value % snapMeta.tickSizeCents.value = 0
  uncrossed : raw.bid.value ≤ raw.ask.value
  sum_fits : u64.Contains (raw.bid.value + raw.ask.value)
  analytics : ∀ value ∈ [raw.impliedVolatility, raw.delta, raw.gamma, raw.theta, raw.vega],
    AnalyticFloat.isFinite value = true ∧ ∃ d, AnalyticFloat.fromF64Retain value = some d
  expiry : ∃ instant, raw.expiration.Resolves snapMeta.anchorTs instant

/-- Two quotes that resolve to one contract. -/
def SameContract (snapMeta : SnapshotMeta) (raw raw' : RawQuote F) : Prop :=
  raw.strike = raw'.strike ∧ raw.style = raw'.style ∧
    ∃ instant, raw.expiration.Resolves snapMeta.anchorTs instant ∧
      raw'.expiration.Resolves snapMeta.anchorTs instant

/-- What a quote becomes: its recorded prices and sizes, the midpoint on the tick grid between
them, its analytics as decimals, and its expiry as an instant. -/
structure Becomes (snapMeta : SnapshotMeta) (raw : RawQuote F) (view : QuoteView) : Prop where
  underlying : view.contract.underlying = snapMeta.underlying
  strike : view.contract.strike = raw.strike
  style : view.contract.style = raw.style
  expiration : ∃ instant, raw.expiration.Resolves snapMeta.anchorTs instant ∧
    view.contract.expiration = .DateTime instant
  bid : view.bid = raw.bid
  ask : view.ask = raw.ask
  bidSize : view.bidSize = raw.bidSize
  askSize : view.askSize = raw.askSize
  mid : view.mid.value =
    floorToTick ((raw.bid.value + raw.ask.value) / 2) snapMeta.tickSizeCents.value
  impliedVolatility : AnalyticFloat.fromF64Retain raw.impliedVolatility =
    some view.impliedVolatility
  delta : AnalyticFloat.fromF64Retain raw.delta = some view.delta
  gamma : AnalyticFloat.fromF64Retain raw.gamma = some view.gamma
  theta : AnalyticFloat.fromF64Retain raw.theta = some view.theta
  vega : AnalyticFloat.fromF64Retain raw.vega = some view.vega

end RawQuote

/-- A quote is inserted when it is admitted and its contract is new. -/
theorem insertQuote_eq_ok {map map' : Std.TreeMap ContractKey QuoteView} :
    insertQuote snapMeta snapMeta.tickSizeCents map raw = .ok map' ↔
      ∃ view, (raw.Admitted snapMeta ∧ raw.Becomes snapMeta view) ∧
        map.contains view.contract = false ∧ map' = map.insert view.contract view := by
  simp only [insertQuote, checkTickAligned, bind_ok_iff, require_eq_ok, narrow_eq_ok,
    analyticF64ToDecimal_eq_ok, ExpirationDate.resolveExpiration_iff, pure_ok_iff]
  have hstrike := raw.strike.nonneg
  constructor
  · rintro ⟨_, hpos, _, hstrike', _, hbid, _, hask, _, hle, sum, hsum, mid, hmid, iv, ⟨hiv, hiv'⟩,
      delta, ⟨hdelta, hdelta'⟩, gamma, ⟨hgamma, hgamma'⟩, theta, ⟨htheta, htheta'⟩, vega,
      ⟨hvega, hvega'⟩, _, ⟨instant, hinstant, rfl⟩, _, hfree, rfl⟩
    refine ⟨⟨⟨snapMeta.underlying, .DateTime instant, raw.strike, raw.style⟩, raw.bid, raw.ask, mid,
      raw.bidSize, raw.askSize, iv, delta, gamma, theta, vega⟩, ⟨?_, ?_⟩, hfree, rfl⟩
    · constructor
      · omega
      · exact hstrike'
      · exact hbid
      · exact hask
      · exact hle
      · exact hsum ▸ sum.inRange
      · simp [hiv, hiv', hdelta, hdelta', hgamma, hgamma', htheta, htheta', hvega, hvega']
      · exact ⟨instant, hinstant⟩
    · constructor <;> first | rfl | assumption | skip
      · exact ⟨instant, hinstant, rfl⟩
      · rw [← hsum]
        exact hmid
  · rintro ⟨view, ⟨hadmitted, hbecomes⟩, hfree, rfl⟩
    obtain ⟨instant, hinstant, hexpiration⟩ := hbecomes.expiration
    have hanalytics := hadmitted.analytics
    simp only [List.mem_cons, List.not_mem_nil, or_false, forall_eq_or_imp, forall_eq] at hanalytics
    obtain ⟨⟨hiv, -⟩, ⟨hdelta, -⟩, ⟨hgamma, -⟩, ⟨htheta, -⟩, hvega, -⟩ := hanalytics
    have hcontract : view.contract = ⟨snapMeta.underlying, .DateTime instant, raw.strike,
        raw.style⟩ := by
      rw [← hbecomes.underlying, ← hbecomes.strike, ← hbecomes.style, ← hexpiration]
    have hview : view = ⟨view.contract, raw.bid, raw.ask, view.mid, raw.bidSize, raw.askSize,
        view.impliedVolatility, view.delta, view.gamma, view.theta, view.vega⟩ := by
      rw [← hbecomes.bid, ← hbecomes.ask, ← hbecomes.bidSize, ← hbecomes.askSize]
    have hpos := hadmitted.strike_pos
    refine ⟨(), by omega, (), hadmitted.strike_aligned, (), hadmitted.bid_aligned, (),
      hadmitted.ask_aligned, (), hadmitted.uncrossed, ⟨_, hadmitted.sum_fits⟩, rfl, view.mid,
      hbecomes.mid, _, ⟨hiv, hbecomes.impliedVolatility⟩, _, ⟨hdelta, hbecomes.delta⟩, _,
      ⟨hgamma, hbecomes.gamma⟩, _, ⟨htheta, hbecomes.theta⟩, _, ⟨hvega, hbecomes.vega⟩, _,
      ⟨instant, hinstant, rfl⟩, (), ?_, ?_⟩
    · rw [← hcontract]
      exact hfree
    · rw [← hcontract, ← hview]

namespace RawQuote

variable {raw' : RawQuote F} {view' : QuoteView}

omit [AnalyticFloat F] in
theorem SameContract.symm (h : raw.SameContract snapMeta raw') :
    raw'.SameContract snapMeta raw := by
  obtain ⟨hstrike, hstyle, instant, hleft, hright⟩ := h
  exact ⟨hstrike.symm, hstyle.symm, instant, hright, hleft⟩

/-- Keys of converted quotes are equal when the quotes are of one contract. -/
theorem Becomes.compare_iff (h : raw.Becomes snapMeta view) (h' : raw'.Becomes snapMeta view') :
    compare view.contract view'.contract = .eq ↔ raw.SameContract snapMeta raw' := by
  obtain ⟨instant, hinstant, hexpiration⟩ := h.expiration
  obtain ⟨instant', hinstant', hexpiration'⟩ := h'.expiration
  change ContractKey.cmp _ _ = .eq ↔ _
  simp only [ContractKey.cmp, Ordering.then_eq_eq, Std.compare_eq_iff_eq, h.underlying,
    h'.underlying, h.strike, h'.strike, h.style, h'.style, hexpiration, hexpiration',
    expirationExactCmp, true_and]
  constructor
  · rintro ⟨rfl, hstrike, hstyle⟩
    exact ⟨hstrike, hstyle, instant, hinstant, hinstant'⟩
  · rintro ⟨hstrike, hstyle, t, ht, ht'⟩
    exact ⟨(hinstant.unique ht).trans (ht'.unique hinstant'), hstrike, hstyle⟩

theorem Becomes.unique (h : raw.Becomes snapMeta view) (h' : raw.Becomes snapMeta view') :
    view = view' := by
  obtain ⟨⟨_, _, _, _⟩, _, _, mid, _, _, _, _, _, _, _⟩ := view
  obtain ⟨⟨_, _, _, _⟩, _, _, mid', _, _, _, _, _, _, _⟩ := view'
  obtain ⟨rfl, rfl, rfl, ⟨instant, hinstant, rfl⟩, rfl, rfl, rfl, rfl, hmid, hiv, hdelta, hgamma,
    htheta, hvega⟩ := h
  obtain ⟨rfl, rfl, rfl, ⟨instant', hinstant', rfl⟩, rfl, rfl, rfl, rfl, hmid', hiv', hdelta',
    hgamma', htheta', hvega'⟩ := h'
  obtain rfl : mid = mid' := Bounded.ext (hmid.trans hmid'.symm)
  cases hinstant.unique hinstant'
  cases hiv.symm.trans hiv'
  cases hdelta.symm.trans hdelta'
  cases hgamma.symm.trans hgamma'
  cases htheta.symm.trans htheta'
  cases hvega.symm.trans hvega'
  rfl

/-- An admitted quote is converted. -/
theorem Admitted.becomes (htick : 0 < snapMeta.tickSizeCents.value) (h : raw.Admitted snapMeta) :
    ∃ view, raw.Becomes snapMeta view := by
  obtain ⟨instant, hinstant⟩ := h.expiry
  have hanalytics := h.analytics
  simp only [List.mem_cons, List.not_mem_nil, or_false, forall_eq_or_imp, forall_eq] at hanalytics
  obtain ⟨⟨-, iv, hiv⟩, ⟨-, delta, hdelta⟩, ⟨-, gamma, hgamma⟩, ⟨-, theta, htheta⟩, -, vega,
    hvega⟩ := hanalytics
  obtain ⟨hlower, hupper⟩ := floorToTick_between htick h.bid_aligned h.uncrossed
  have hmid : u64.Contains (floorToTick ((raw.bid.value + raw.ask.value) / 2)
      snapMeta.tickSizeCents.value) := ⟨raw.bid.nonneg.trans hlower, hupper.trans raw.ask.le_max⟩
  exact ⟨⟨⟨snapMeta.underlying, .DateTime instant, raw.strike, raw.style⟩, raw.bid, raw.ask,
    ⟨_, hmid⟩, raw.bidSize, raw.askSize, iv, delta, gamma, theta, vega⟩, rfl, rfl, rfl,
    ⟨instant, hinstant, rfl⟩, rfl, rfl, rfl, rfl, rfl, hiv, hdelta, hgamma, htheta, hvega⟩

end RawQuote

variable {quotes quotes' : List (RawQuote F)} {views : List QuoteView} {snap snap' : ChainSnapshot}

/-- The keys of a converted list are distinct when no two quotes are of one contract. -/
theorem distinct_iff (h : List.Forall₂ (RawQuote.Becomes snapMeta) quotes views) :
    Distinct QuoteView.contract views ↔
      quotes.Pairwise fun raw raw' => ¬ raw.SameContract snapMeta raw' := by
  induction h with
  | nil => simp [Distinct]
  | @cons raw view quotes views hfirst hrest ih =>
    unfold Distinct at ih ⊢
    rw [List.pairwise_cons, List.pairwise_cons, ih]
    refine and_congr_left fun _ => ⟨fun h raw' hraw' => ?_, fun h view' hview' => ?_⟩
    · obtain ⟨view', hview', hbecomes⟩ := Pointwise.exists_right hrest hraw'
      exact mt (hfirst.compare_iff hbecomes).2 (h view' hview')
    · obtain ⟨raw', hraw', hbecomes⟩ := Pointwise.exists_left hrest hview'
      exact mt (hfirst.compare_iff hbecomes).1 (h raw' hraw')

/-- A list is converted when each quote is and the contracts are distinct. -/
theorem rawQuotesToSnapshot_eq_ok :
    rawQuotesToSnapshot snapMeta quotes = .ok snap ↔
      (∀ raw ∈ quotes, raw.Admitted snapMeta) ∧
      ∃ spec views,
        InstrumentSpec.new snapMeta.tickSizeCents snapMeta.contractMultiplier = .ok spec ∧
        List.Forall₂ (RawQuote.Becomes snapMeta) quotes views ∧ Distinct QuoteView.contract views ∧
        snap = ⟨snapMeta.ts, snapMeta.step, snapMeta.underlying, snapMeta.underlyingPrice, spec,
          file QuoteView.contract ∅ views⟩ := by
  have htick : ∀ spec, InstrumentSpec.new snapMeta.tickSizeCents snapMeta.contractMultiplier =
      .ok spec → spec.tickSizeCents = snapMeta.tickSizeCents :=
    fun spec hspec => (InstrumentSpec.new_eq_ok.1 hspec).1
  have hstep : ∀ (map : Std.TreeMap ContractKey QuoteView) (raw : RawQuote F)
      (map' : Std.TreeMap ContractKey QuoteView),
      insertQuote snapMeta snapMeta.tickSizeCents map raw = .ok map' ↔
        ∃ view, (raw.Admitted snapMeta ∧ raw.Becomes snapMeta view) ∧
          map.contains view.contract = false ∧ map' = map.insert view.contract view :=
    fun _ _ _ => insertQuote_eq_ok
  have hfold : ∀ map, quotes.foldlM (insertQuote snapMeta snapMeta.tickSizeCents) ∅ = .ok map ↔
      ∃ views, List.Forall₂ (fun raw view => raw.Admitted snapMeta ∧ raw.Becomes snapMeta view)
          quotes views ∧ Distinct QuoteView.contract views ∧
        (∀ view ∈ views, (∅ : Std.TreeMap ContractKey QuoteView).contains view.contract = false) ∧
          map = file QuoteView.contract ∅ views :=
    fun map => foldlM_file hstep
  simp only [rawQuotesToSnapshot, bind_ok_iff, pure_ok_iff]
  constructor
  · rintro ⟨spec, hspec, map, hmap, rfl⟩
    rw [htick spec hspec, hfold] at hmap
    obtain ⟨views, hreads, hdistinct, -, rfl⟩ := hmap
    exact ⟨Pointwise.forall_left hreads fun _ _ => And.left, spec, views, hspec,
      hreads.imp fun _ _ => And.right, hdistinct, rfl⟩
  · rintro ⟨hadmitted, spec, views, hspec, hbecomes, hdistinct, rfl⟩
    refine ⟨spec, hspec, _, ?_, rfl⟩
    rw [htick spec hspec, hfold]
    refine ⟨views, ?_, hdistinct, by simp, rfl⟩
    exact (Pointwise.imp_right hbecomes.flip fun view raw hraw hb => ⟨hadmitted raw hraw, hb⟩).flip

/-- Quotes that are admitted, and are of distinct contracts, are converted. -/
theorem rawQuotesToSnapshot_succeeds :
    (∃ snap, rawQuotesToSnapshot snapMeta quotes = .ok snap) ↔
      0 < snapMeta.tickSizeCents.value ∧ 0 < snapMeta.contractMultiplier.value ∧
      (∀ raw ∈ quotes, raw.Admitted snapMeta) ∧
      quotes.Pairwise fun raw raw' => ¬ raw.SameContract snapMeta raw' := by
  simp only [rawQuotesToSnapshot_eq_ok]
  constructor
  · rintro ⟨snap, hadmitted, spec, views, hspec, hbecomes, hdistinct, -⟩
    obtain ⟨htick, hmultiplier⟩ := InstrumentSpec.new_eq_ok.1 hspec
    exact ⟨htick ▸ spec.tickSizeCents_pos, hmultiplier ▸ spec.contractMultiplier_pos, hadmitted,
      (distinct_iff hbecomes).1 hdistinct⟩
  · rintro ⟨htick, hmultiplier, hadmitted, hpairwise⟩
    obtain ⟨views, hviews⟩ := Pointwise.exists_related (R := fun view raw =>
      raw.Becomes snapMeta view) fun raw hraw => (hadmitted raw hraw).becomes htick
    refine ⟨_, hadmitted, ⟨_, _, htick, hmultiplier⟩, views, ?_, hviews.flip, ?_, rfl⟩
    · exact InstrumentSpec.new_eq_ok.2 ⟨rfl, rfl⟩
    · exact (distinct_iff hviews.flip).2 hpairwise

/-- A quote becomes one entry. -/
theorem becomes_unique {views' : List QuoteView}
    (h : List.Forall₂ (RawQuote.Becomes snapMeta) quotes views)
    (h' : List.Forall₂ (RawQuote.Becomes snapMeta) quotes views') : views = views' := by
  induction h generalizing views' with
  | nil =>
    cases h'
    rfl
  | cons hfirst hrest ih =>
    cases h' with
    | cons hfirst' hrest' => rw [hfirst.unique hfirst', ih hrest']

/-- Conversion succeeds exactly for admitted quotes of distinct contracts; it then has one entry a
quote, and neither shows the order of the list. -/
theorem raw_chain_normalised (snapMeta : SnapshotMeta) (quotes : List (RawQuote F)) :
    ((∃ snap, rawQuotesToSnapshot snapMeta quotes = .ok snap) ↔
      0 < snapMeta.tickSizeCents.value ∧ 0 < snapMeta.contractMultiplier.value ∧
      (∀ raw ∈ quotes, raw.Admitted snapMeta) ∧
      quotes.Pairwise fun raw raw' => ¬ raw.SameContract snapMeta raw') ∧
    (∀ snap, rawQuotesToSnapshot snapMeta quotes = .ok snap →
      snap.ts = snapMeta.ts ∧ snap.step = snapMeta.step ∧ snap.underlying = snapMeta.underlying ∧
      snap.underlyingPrice = snapMeta.underlyingPrice ∧
      snap.spec.tickSizeCents = snapMeta.tickSizeCents ∧
      snap.spec.contractMultiplier = snapMeta.contractMultiplier ∧
      ∃ views, List.Forall₂ (RawQuote.Becomes snapMeta) quotes views ∧
        (∀ view ∈ views, view.bid.value ≤ view.mid.value ∧ view.mid.value ≤ view.ask.value) ∧
        snap.quotes.toList.Perm (views.map fun view => (view.contract, view))) ∧
    ∀ quotes', quotes'.Perm quotes →
      ((∃ snap, rawQuotesToSnapshot snapMeta quotes' = .ok snap) ↔
        ∃ snap, rawQuotesToSnapshot snapMeta quotes = .ok snap) ∧
      ∀ snap snap', rawQuotesToSnapshot snapMeta quotes = .ok snap →
        rawQuotesToSnapshot snapMeta quotes' = .ok snap' →
        snap'.quotes.toList = snap.quotes.toList ∧ { snap' with quotes := snap.quotes } = snap := by
  refine ⟨rawQuotesToSnapshot_succeeds, fun snap hsnap => ?_, fun quotes' hperm => ⟨?_, ?_⟩⟩
  · obtain ⟨hadmitted, spec, views, hspec, hbecomes, hdistinct, rfl⟩ :=
      rawQuotesToSnapshot_eq_ok.1 hsnap
    obtain ⟨htick, hmultiplier⟩ := InstrumentSpec.new_eq_ok.1 hspec
    refine ⟨rfl, rfl, rfl, rfl, htick, hmultiplier, views, hbecomes, fun view hview => ?_, ?_⟩
    · obtain ⟨raw, hraw, h⟩ := Pointwise.exists_left hbecomes hview
      have hbetween := floorToTick_between (htick ▸ spec.tickSizeCents_pos)
        (hadmitted raw hraw).bid_aligned (hadmitted raw hraw).uncrossed
      rw [h.bid, h.ask, h.mid]
      exact hbetween
    · exact toList_file ∅ hdistinct (by simp)
  · have hsymm : ∀ raw raw' : RawQuote F, ¬ raw.SameContract snapMeta raw' →
        ¬ raw'.SameContract snapMeta raw := fun _ _ => mt RawQuote.SameContract.symm
    rw [rawQuotesToSnapshot_succeeds, rawQuotesToSnapshot_succeeds, hperm.pairwise_iff (hsymm _ _)]
    simp only [hperm.mem_iff]
  · intro snap snap' hsnap hsnap'
    obtain ⟨-, spec, views, hspec, hbecomes, hdistinct, rfl⟩ := rawQuotesToSnapshot_eq_ok.1 hsnap
    obtain ⟨-, spec', views', hspec', hbecomes', -, rfl⟩ := rawQuotesToSnapshot_eq_ok.1 hsnap'
    obtain ⟨views'', hbecomes'', hperm'⟩ := List.perm_comp_forall₂ hperm hbecomes
    obtain rfl := becomes_unique hbecomes' hbecomes''
    cases hspec.symm.trans hspec'
    exact ⟨(toList_file_perm hdistinct hperm'.symm).symm, rfl⟩

/-- Every quote of a converted snapshot is ingested. -/
theorem rawQuotesToSnapshot_ingested (h : rawQuotesToSnapshot snapMeta quotes = .ok snap)
    {key : ContractKey} (hview : snap.quotes[key]? = some view) :
    view.Ingested snap.spec.tickSizeCents := by
  obtain ⟨hadmitted, spec, views, hspec, hbecomes, hdistinct, rfl⟩ :=
    rawQuotesToSnapshot_eq_ok.1 h
  have htick : spec.tickSizeCents = snapMeta.tickSizeCents := (InstrumentSpec.new_eq_ok.1 hspec).1
  obtain ⟨k, -, hmem⟩ :=
    Std.TreeMap.getElem?_eq_some_iff_exists_compare_eq_eq_and_mem_toList.1 hview
  have hlisted := (toList_file ∅ hdistinct (by simp)).mem_iff.1 hmem
  obtain ⟨view', hview', heq⟩ := List.mem_map.1 hlisted
  cases heq
  obtain ⟨raw, hraw, hb⟩ := Pointwise.exists_left hbecomes hview'
  have had := hadmitted raw hraw
  refine ⟨⟨?_, ?_, ?_⟩, ?_⟩
  · rw [hb.bid, htick]
    exact had.bid_aligned
  · rw [hb.ask, htick]
    exact had.ask_aligned
  · rw [hb.bid, hb.ask]
    exact had.uncrossed
  · rw [hb.bid, hb.ask, htick]
    exact hb.mid

end Quotes

end IronCondor
