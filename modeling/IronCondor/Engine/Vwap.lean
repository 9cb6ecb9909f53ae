import IronCondor.Engine.Aggregate
import IronCondor.Lib.WeightedMean

/-! # The average price of a run of fills

`vwapCents` rounds by hand, with an integer quotient and twice its remainder. It is the rounding
of the exact weighted mean, and it refuses no run whose totals fit. -/
namespace IronCondor

open Checked ExceptRun HalfEven WeightedMean

section Average

variable {notional : Bounded u128} {total : Bounded u64} {v : PriceCents} {lo hi : Int}

/-- The average by hand is the rounded fraction, whenever that is a price. -/
theorem vwapCents_eq_halfEven (htotal : 0 < total.value) :
    vwapCents notional total = checked u64 (halfEven (notional.value / total.value)) := by
  have hmod := Int.emod_nonneg notional.value htotal.ne'
  have hlt := Int.emod_lt_of_pos notional.value htotal
  have hsplit := Int.mul_ediv_add_emod notional.value total.value
  have hquot := Int.ediv_nonneg notional.nonneg htotal.le
  have hself := le_mul_of_one_le_left hquot (show 1 ≤ total.value by omega)
  have hmax := notional.le_max
  have htmax := total.le_max
  have hin : ∀ x : Int, 0 ≤ x → x ≤ 2 ^ 128 - 1 → ∃ y, checked u128 x = .ok y ∧ y.value = x :=
    fun x hpos hle => ⟨⟨x, hpos, hle⟩, narrow_eq_ok.2 rfl, rfl⟩
  simp only [u64, u128, IntRange.unsigned] at hmax htmax
  obtain ⟨twice, htwice, htwiceValue⟩ :=
    hin (notional.value % total.value * 2) (by omega) (by omega)
  obtain ⟨down, hdown, hdownValue⟩ := hin (notional.value / total.value) hquot (by omega)
  -- a quotient is stepped up only over a remainder, so the step stays below the notional
  have hup : 0 < notional.value % total.value → ∃ up,
      checked u128 (notional.value / total.value + 1) = .ok up ∧
        up.value = notional.value / total.value + 1 :=
    fun hrem => hin _ (by omega) (by omega)
  rw [halfEven_div _ htotal]
  simp only [vwapCents, require, if_pos htotal.ne', ok_bind, htwice, htwiceValue, hdown]
  split_ifs with hlow hhigh heven
  · rw [hdownValue]
  · obtain ⟨up, hok, hvalue⟩ := hup (by omega)
    rw [hok, ok_bind, hvalue]
  · rw [hdownValue]
  · obtain ⟨up, hok, hvalue⟩ := hup (by omega)
    rw [hok, ok_bind, hvalue]

/-- An average of a total is its rounded mean, and respects the bounds of its parts. -/
theorem vwapCents_between (hlo : lo * total.value ≤ notional.value)
    (hhi : notional.value ≤ hi * total.value) (h : vwapCents notional total = .ok v) :
    lo ≤ v.value ∧ v.value ≤ hi := by
  have hne : total.value ≠ 0 := require_eq_ok.1 (bind_ok_iff.1 h).choose_spec.1
  have htotal := lt_of_le_of_ne total.nonneg hne.symm
  rw [vwapCents_eq_halfEven htotal, narrow_eq_ok] at h
  rw [h]
  exact halfEven_between htotal hlo hhi

end Average

section Totals

variable {fills run : List Fill} {lo hi : Int}

def totalFees (fills : List Fill) : Int := (fills.map fun f => f.fees.value).sum

def totalSlippage (fills : List Fill) : Int := (fills.map fun f => f.slippage.value).sum

/-- The totals of a run fit: its size in `u64`, and the money of every part of it that is summed
on the way in `i64`. -/
structure TotalsFit (fills : List Fill) : Prop where
  quantity : totalQuantity fills ≤ u64.max
  fees : ∀ run, run <+: fills → i64.Contains (totalFees run)
  slippage : ∀ run, run <+: fills → i64.Contains (totalSlippage run)

theorem totalQuantity_le_of_part (h : run <+: fills) : totalQuantity run ≤ totalQuantity fills := by
  obtain ⟨rest, rfl⟩ := h
  have hrest := totalQuantity_nonneg rest
  rw [totalQuantity_append]
  omega

theorem TotalsFit.of_part (h : TotalsFit fills) (hrun : run <+: fills) : TotalsFit run where
  quantity := (totalQuantity_le_of_part hrun).trans h.quantity
  fees part hpart := h.fees part (hpart.trans hrun)
  slippage part hpart := h.slippage part (hpart.trans hrun)

theorem totalNotional_between (h : ∀ fill ∈ fills, lo ≤ fill.price.value ∧ fill.price.value ≤ hi) :
    lo * totalQuantity fills ≤ totalNotional fills ∧
      totalNotional fills ≤ hi * totalQuantity fills :=
  weighted_between (fun fill _ => fill.quantity.pos.le) h

/-- A run of a size that fits has a notional that fits: no price exceeds `u64`. -/
theorem totalNotional_contains (h : totalQuantity fills ≤ u64.max) :
    u128.Contains (totalNotional fills) := by
  have hnonneg := totalQuantity_nonneg fills
  have hprices : ∀ fill ∈ fills, 0 ≤ fill.price.value ∧ fill.price.value ≤ u64.max :=
    fun fill _ => fill.price.inRange
  obtain ⟨hlow, hhigh⟩ := totalNotional_between hprices
  simp only [u64, IntRange.unsigned] at h hhigh
  constructor
  · simpa [u128, IntRange.unsigned] using hlow
  · simp only [u128, IntRange.unsigned]
    omega

/-- What the running totals of a run are. -/
structure Totalled (fills : List Fill) (t : FillTotals) : Prop where
  quantity : t.quantity.value = totalQuantity fills
  notional : t.notional.value = totalNotional fills
  fees : t.fees.value = totalFees fills
  slippage : t.slippage.value = totalSlippage fills

/-- One more fill of a run that fits is added without a refusal. -/
theorem Totalled.add {t : FillTotals} {fill : Fill} (h : Totalled fills t)
    (hfit : TotalsFit (fills ++ [fill])) :
    ∃ t', t.add fill = .ok t' ∧ Totalled (fills ++ [fill]) t' := by
  have hquantity : t.quantity.value + fill.quantity.value = totalQuantity (fills ++ [fill]) := by
    simp [h.quantity, totalQuantity]
  have hnotional : t.notional.value + fill.price.value * fill.quantity.value =
      totalNotional (fills ++ [fill]) := by
    simp [h.notional, totalNotional]
  have hfees : t.fees.value + fill.fees.value = totalFees (fills ++ [fill]) := by
    simp [h.fees, totalFees]
  have hslippage : t.slippage.value + fill.slippage.value =
      totalSlippage (fills ++ [fill]) := by
    simp [h.slippage, totalSlippage]
  have hall := totalNotional_contains hfit.quantity
  have hleg : 0 ≤ fill.price.value * fill.quantity.value :=
    mul_nonneg fill.price.nonneg fill.quantity.pos.le
  have hpart : fill.price.value * fill.quantity.value ≤ u128.max := by
    have hbefore := t.notional.nonneg
    have hmax := hall.2
    omega
  refine ⟨⟨⟨_, totalQuantity_nonneg _, hfit.quantity⟩, ⟨_, hall⟩, ⟨_, hfit.fees _ List.prefix_rfl⟩,
    ⟨_, hfit.slippage _ List.prefix_rfl⟩⟩, ?_, rfl, rfl, rfl, rfl⟩
  simp only [FillTotals.add, Cents.checkedAdd, bind_ok_iff, narrow_eq_ok, pure_ok_iff]
  exact ⟨_, hquantity.symm, ⟨_, hleg, hpart⟩, rfl, _, hnotional.symm, _, hfees.symm, _,
    hslippage.symm, rfl⟩

/-- No sum or product of a run that fits is refused. -/
theorem totals_of_fit (hfit : TotalsFit fills) :
    ∃ t, fills.foldlM FillTotals.add FillTotals.zero = .ok t ∧ Totalled fills t := by
  induction fills using List.reverseRecOn with
  | nil => exact ⟨_, foldlM_nil_ok.2 rfl, rfl, rfl, rfl, rfl⟩
  | append_singleton fills fill ih =>
    obtain ⟨t, hfold, htotalled⟩ := ih (hfit.of_part (List.prefix_append _ _))
    obtain ⟨t', hadd, htotalled'⟩ := htotalled.add hfit
    exact ⟨t', foldlM_append_ok.2 ⟨t, hfold, foldlM_singleton_ok.2 hadd⟩, htotalled'⟩

/-- `v` is the average price of the run: the rounding of the exact mean, between the least and
the greatest price, and the price itself when there is only one. -/
structure Averaged (fills : List Fill) (v : PriceCents) : Prop where
  exact : v.value = halfEven (totalNotional fills / totalQuantity fills)
  between : Between (fun fill : Fill => fill.price.value) fills v.value
  single : ∀ price, (∀ fill ∈ fills, fill.price = price) → v = price

/-- The average of a run that fits exists, and is the rounded mean. -/
theorem vwap_averaged {t : FillTotals} (hne : fills ≠ []) (h : Totalled fills t) :
    ∃ v, vwapCents t.notional t.quantity = .ok v ∧ Averaged fills v := by
  have hpos := totalQuantity_pos hne
  have hbetween : Between (fun fill : Fill => fill.price.value) fills
      (halfEven (totalNotional fills / totalQuantity fills)) :=
    mean_between hne (fun fill _ => fill.quantity.pos.le) hpos
  have hbounds := (between_iff.1 hbetween).2
  have hrange : u64.Contains (halfEven (totalNotional fills / totalQuantity fills)) :=
    hbounds _ _ fun fill _ => fill.price.inRange
  refine ⟨⟨_, hrange⟩, ?_, rfl, hbetween, fun price hsame => ?_⟩
  · rw [vwapCents_eq_halfEven (by rw [h.quantity]; exact hpos), h.notional, h.quantity]
    exact narrow_eq_ok.2 rfl
  · obtain ⟨hlow, hhigh⟩ := hbounds price.value price.value fun fill hfill => by
      rw [hsame fill hfill]
      exact ⟨le_rfl, le_rfl⟩
    exact Bounded.ext (le_antisymm hhigh hlow)

/-- The aggregate of a run is its average, whenever the aggregate is computed. -/
theorem aggregateFills_between {agg : FillAggregate} (h : aggregateFills fills = .ok agg)
    (hbounds : ∀ fill ∈ fills, lo ≤ fill.price.value ∧ fill.price.value ≤ hi) :
    lo ≤ agg.vwap.value ∧ agg.vwap.value ≤ hi := by
  obtain ⟨-, -, -, notional, total, hnotional, htotal, hvwap⟩ := aggregateFills_eq_ok h
  obtain ⟨hlow, hhigh⟩ := totalNotional_between hbounds
  rw [← hnotional, ← htotal] at hlow hhigh
  exact vwapCents_between hlow hhigh hvwap

end Totals

end IronCondor
