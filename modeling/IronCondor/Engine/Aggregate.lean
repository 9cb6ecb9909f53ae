import IronCondor.Domain.Execution

/-! # Aggregating the fills of one order

An order that walks several price levels is one leg: its size is the total filled and its
premium the volume-weighted average, rounded half to even. Cash still moves per fill. -/
namespace IronCondor

open Checked ExceptRun

structure FillAggregate where
  quantity : Quantity
  vwap : PriceCents
  fees : Cents
  slippage : Cents
deriving DecidableEq

/-- The running totals of `aggregate_fills`. -/
structure FillTotals where
  quantity : Bounded u64
  notional : Bounded u128
  fees : Cents
  slippage : Cents

def FillTotals.zero : FillTotals := ⟨⟨0, u64.contains_zero⟩, ⟨0, u128.contains_zero⟩, .zero, .zero⟩

def FillTotals.add (t : FillTotals) (fill : Fill) : Outcome FillTotals := do
  let quantity ← checked u64 (t.quantity.value + fill.quantity.value)
  let legNotional ← checked u128 (fill.price.value * fill.quantity.value)
  let notional ← checked u128 (t.notional.value + legNotional.value)
  let fees ← t.fees.checkedAdd fill.fees
  let slippage ← t.slippage.checkedAdd fill.slippage
  return ⟨quantity, notional, fees, slippage⟩

/-- `notional / total`, midpoints to the even cent. -/
def vwapCents (notional : Bounded u128) (totalQty : Bounded u64) : Outcome PriceCents := do
  require (totalQty.value ≠ 0) (.Execution "cannot average a zero-quantity order")
  let quotient := notional.value / totalQty.value
  let remainder := notional.value % totalQty.value
  let twiceRem ← checked u128 (remainder * 2)
  let rounded ←
    if twiceRem.value < totalQty.value then checked u128 quotient
    else if totalQty.value < twiceRem.value then checked u128 (quotient + 1)
    else if quotient % 2 = 0 then checked u128 quotient
    else checked u128 (quotient + 1)
  checked u64 rounded.value

def aggregateFills (fills : List Fill) : Outcome FillAggregate := do
  let t ← fills.foldlM FillTotals.add FillTotals.zero
  let quantity ← Quantity.ofInt t.quantity.value
  let vwap ← vwapCents t.notional t.quantity
  return ⟨quantity, vwap, t.fees, t.slippage⟩

/-- The total size of a run of fills. -/
def totalQuantity (fills : List Fill) : Int := (fills.map fun f => f.quantity.value).sum

/-- The total value of a run of fills, per unit of the contract multiplier. -/
def totalNotional (fills : List Fill) : Int :=
  (fills.map fun f => f.price.value * f.quantity.value).sum

@[simp] theorem totalQuantity_nil : totalQuantity [] = 0 := rfl

@[simp] theorem totalQuantity_cons (f : Fill) (fills : List Fill) :
    totalQuantity (f :: fills) = f.quantity.value + totalQuantity fills := by
  simp [totalQuantity]

@[simp] theorem totalQuantity_append (fills fills' : List Fill) :
    totalQuantity (fills ++ fills') = totalQuantity fills + totalQuantity fills' := by
  simp [totalQuantity]

theorem totalQuantity_nonneg (fills : List Fill) : 0 ≤ totalQuantity fills :=
  List.sum_nonneg fun q hq => by
    obtain ⟨f, -, rfl⟩ := List.mem_map.1 hq
    exact f.quantity.pos.le

theorem totalQuantity_pos {fills : List Fill} (h : fills ≠ []) : 0 < totalQuantity fills := by
  cases fills with
  | nil => exact absurd rfl h
  | cons f fills =>
    have hpos := f.quantity.pos
    have hrest := totalQuantity_nonneg fills
    rw [totalQuantity_cons]
    omega

@[simp] theorem totalNotional_cons (f : Fill) (fills : List Fill) :
    totalNotional (f :: fills) = f.price.value * f.quantity.value + totalNotional fills := by
  simp [totalNotional]

theorem FillTotals.add_eq_ok {t t' : FillTotals} {fill : Fill} (h : t.add fill = .ok t') :
    t'.quantity.value = t.quantity.value + fill.quantity.value ∧
      t'.notional.value = t.notional.value + fill.price.value * fill.quantity.value ∧
      t'.fees.value = t.fees.value + fill.fees.value ∧
      t'.slippage.value = t.slippage.value + fill.slippage.value := by
  simp only [FillTotals.add, Cents.checkedAdd, bind_ok_iff, narrow_eq_ok, pure_ok_iff] at h
  obtain ⟨q, hq, l, hl, n, hn, f, hf, s, hs, rfl⟩ := h
  exact ⟨hq, by rw [hn, hl], hf, hs⟩

/-- The aggregate carries the exact totals and the average of the run. -/
theorem aggregateFills_eq_ok {fills : List Fill} {agg : FillAggregate}
    (h : aggregateFills fills = .ok agg) :
    agg.quantity.value = totalQuantity fills ∧
      agg.fees.value = (fills.map fun f => f.fees.value).sum ∧
      agg.slippage.value = (fills.map fun f => f.slippage.value).sum ∧
      ∃ (notional : Bounded u128) (total : Bounded u64),
        notional.value = totalNotional fills ∧ total.value = totalQuantity fills ∧
        vwapCents notional total = .ok agg.vwap := by
  simp only [aggregateFills, bind_ok_iff, Quantity.ofInt_eq_ok, pure_ok_iff] at h
  obtain ⟨t, ht, q, hq, v, hv, rfl⟩ := h
  have hqty := foldlM_sum (f := FillTotals.add) (fun t => t.quantity.value) _
    (fun _ _ _ h => (FillTotals.add_eq_ok h).1) ht
  have hnot := foldlM_sum (f := FillTotals.add) (fun t => t.notional.value) _
    (fun _ _ _ h => (FillTotals.add_eq_ok h).2.1) ht
  have hfee := foldlM_sum (f := FillTotals.add) (fun t => t.fees.value) _
    (fun _ _ _ h => (FillTotals.add_eq_ok h).2.2.1) ht
  have hslip := foldlM_sum (f := FillTotals.add) (fun t => t.slippage.value) _
    (fun _ _ _ h => (FillTotals.add_eq_ok h).2.2.2) ht
  simp only [FillTotals.zero, Cents.zero_value, zero_add] at hqty hnot hfee hslip
  exact ⟨hq.trans hqty, hfee, hslip, t.notional, t.quantity, hnot, hqty, hv⟩

end IronCondor
