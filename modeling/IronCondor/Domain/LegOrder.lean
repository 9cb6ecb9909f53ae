import IronCondor.Domain.StrategySpec
import IronCondor.Lib.CanonicalSort
import IronCondor.Lib.IntegerText

/-! # The canonical leg order

Legs that tie in the canonical order have the same written decimals, so they are one leg: the
order is total over the serialised bytes, and a sorted leg set does not show how it was listed. -/
namespace IronCondor

open Checked
open Std (TransCmp TransOrd LawfulEqOrd LawfulEqCmp)

namespace Decimal

/-- The digits of a decimal, padded so that one stands before the point. -/
def paddedDigits (d : Decimal) : List Char :=
  List.replicate (d.scale + 1 - (Nat.toDigits 10 d.mantissa.natAbs).length) '0' ++
    Nat.toDigits 10 d.mantissa.natAbs

/-- The digits with their point. -/
def pointedDigits (d : Decimal) : List Char :=
  if d.scale = 0 then d.paddedDigits
  else d.paddedDigits.take (d.paddedDigits.length - d.scale) ++
    '.' :: d.paddedDigits.drop (d.paddedDigits.length - d.scale)

theorem toList_toText (d : Decimal) :
    d.toText.toList = (if d.mantissa < 0 then ['-'] else []) ++ d.pointedDigits := by
  have hdigits : (toString d.mantissa.natAbs).toList = Nat.toDigits 10 d.mantissa.natAbs :=
    Nat.toList_repr
  have hlength :
      (toString d.mantissa.natAbs).length = (Nat.toDigits 10 d.mantissa.natAbs).length := by
    rw [← hdigits, String.length_toList]
  have hpadded : (String.ofList (List.replicate (d.scale + 1 - (toString d.mantissa.natAbs).length)
      '0') ++ toString d.mantissa.natAbs).toList = d.paddedDigits := by
    rw [String.toList_append, String.toList_ofList, hdigits, hlength, paddedDigits]
  have hcount : (String.ofList (List.replicate (d.scale + 1 - (toString d.mantissa.natAbs).length)
      '0') ++ toString d.mantissa.natAbs).length = d.paddedDigits.length := by
    rw [← hpadded, String.length_toList]
  have hsign : (if d.mantissa < 0 then "-" else "").toList =
      if d.mantissa < 0 then ['-'] else [] := by
    split_ifs <;> rfl
  simp only [toText, pointedDigits]
  split_ifs with hscale hneg
  · rw [String.toList_append, hpadded]
    rfl
  · rw [String.toList_append, hpadded]
    rfl
  · simp only [String.toList_append, String.toList_ofList, hpadded, hcount]
    simp
  · simp only [String.toList_append, String.toList_ofList, hpadded, hcount]
    simp

theorem isDigit_of_mem_paddedDigits {d : Decimal} {c : Char} (h : c ∈ d.paddedDigits) :
    c.isDigit = true := by
  rcases List.mem_append.1 h with h | h
  · rw [List.eq_of_mem_replicate h]
    rfl
  · exact Nat.isDigit_of_mem_toDigits (by decide) (by decide) h

theorem scale_lt_length (d : Decimal) : d.scale < d.paddedDigits.length := by
  simp only [paddedDigits, List.length_append, List.length_replicate]
  omega

theorem ofDigitChars_paddedDigits (d : Decimal) :
    Nat.ofDigitChars 10 d.paddedDigits 0 = d.mantissa.natAbs := by
  rw [paddedDigits, Nat.ofDigitChars_append, Nat.ofDigitChars_replicate_zero, Nat.mul_zero,
    Nat.ofDigitChars_ten_toDigits]

theorem point_notMem_paddedDigits (d : Decimal) : '.' ∉ d.paddedDigits := by
  intro h
  exact absurd (isDigit_of_mem_paddedDigits h) (by decide)

/-- The point tells the scale, and the digits around it are all the digits. -/
theorem pointedDigits_inj {a b : Decimal} (h : a.pointedDigits = b.pointedDigits) :
    a.scale = b.scale ∧ a.paddedDigits = b.paddedDigits := by
  have hpoint : ∀ d : Decimal, d.scale ≠ 0 → '.' ∈ d.pointedDigits := by
    intro d hd
    rw [pointedDigits, if_neg hd]
    simp
  by_cases ha : a.scale = 0
  · have haText : a.pointedDigits = a.paddedDigits := by rw [pointedDigits, if_pos ha]
    by_cases hb : b.scale = 0
    · refine ⟨ha.trans hb.symm, ?_⟩
      rw [← haText, h, pointedDigits, if_pos hb]
    · exact absurd (haText ▸ h ▸ hpoint b hb) a.point_notMem_paddedDigits
  · by_cases hb : b.scale = 0
    · have hbText : b.pointedDigits = b.paddedDigits := by rw [pointedDigits, if_pos hb]
      exact absurd (hbText ▸ h ▸ hpoint a ha) b.point_notMem_paddedDigits
    · rw [pointedDigits, if_neg ha, pointedDigits, if_neg hb, List.append_cons_inj_of_notMem
        (fun hmem => a.point_notMem_paddedDigits (List.mem_of_mem_take hmem))
        (fun hmem => a.point_notMem_paddedDigits (List.mem_of_mem_drop hmem))] at h
      obtain ⟨hwhole, -, hfraction⟩ := h
      have hlength := congrArg List.length hfraction
      have haScale := a.scale_lt_length
      have hbScale := b.scale_lt_length
      simp only [List.length_drop] at hlength
      refine ⟨by omega, ?_⟩
      rw [← List.take_append_drop (a.paddedDigits.length - a.scale) a.paddedDigits, hwhole,
        hfraction, List.take_append_drop]

theorem sign_notMem_pointedDigits (d : Decimal) : '-' ∉ d.pointedDigits := by
  have hdigits : '-' ∉ d.paddedDigits := fun h =>
    absurd (isDigit_of_mem_paddedDigits h) (by decide)
  unfold pointedDigits
  split_ifs
  · exact hdigits
  · intro h
    rcases List.mem_append.1 h with h | h
    · exact hdigits (List.mem_of_mem_take h)
    · rcases List.mem_cons.1 h with h | h
      · exact absurd h (by decide)
      · exact hdigits (List.mem_of_mem_drop h)

/-- The written form of a decimal is its spelling. -/
theorem toText_injective {a b : Decimal} (h : a.toText = b.toText) : a = b := by
  have htext := congrArg String.toList h
  rw [toList_toText, toList_toText] at htext
  have hparts : (a.mantissa < 0 ↔ b.mantissa < 0) ∧ a.pointedDigits = b.pointedDigits := by
    by_cases ha : a.mantissa < 0 <;> by_cases hb : b.mantissa < 0
    · simpa [ha, hb] using htext
    · simp only [ha, hb, if_true, if_false, List.nil_append, List.cons_append] at htext
      exact absurd (htext ▸ List.mem_cons_self) b.sign_notMem_pointedDigits
    · simp only [ha, hb, if_true, if_false, List.nil_append, List.cons_append] at htext
      exact absurd (htext ▸ List.mem_cons_self) a.sign_notMem_pointedDigits
    · simpa [ha, hb] using htext
  obtain ⟨hscale, hdigits⟩ := pointedDigits_inj hparts.2
  have habs : a.mantissa.natAbs = b.mantissa.natAbs := by
    rw [← ofDigitChars_paddedDigits, hdigits, ofDigitChars_paddedDigits]
  have hsign := hparts.1
  obtain ⟨mantissa, scale⟩ := a
  obtain ⟨mantissa', scale'⟩ := b
  simp only at habs hsign hscale
  rw [Decimal.mk.injEq]
  exact ⟨by omega, hscale⟩

instance : Ord Decimal := ⟨cmp⟩

instance : TransOrd Decimal := by
  change TransCmp cmp
  rw [cmp_eq_compareOn]
  infer_instance

end Decimal

instance : TransOrd Side := inferInstanceAs (TransCmp (compareOn Side.ctorIdx))

instance : LawfulEqOrd Side where
  eq_of_compare {a b} h := by cases a <;> cases b <;> first | rfl | cases h

/-- Expirations that tie in value and in writing are one. -/
theorem expiration_eq_of_text {a b : ExpirationDate} (h : expirationExactCmp a b = .eq)
    (htext : expirationText a = expirationText b) : a = b := by
  cases a with
  | Days d =>
    cases b with
    | Days d' =>
      have hdigits : d.toText = d'.toText := by
        have hlist := congrArg String.toList htext
        simp only [expirationText, String.toList_append, List.append_cancel_left_eq] at hlist
        exact String.toList_injective hlist
      rw [Decimal.toText_injective hdigits]
    | DateTime t' => cases h
  | DateTime t =>
    cases b with
    | Days d' => cases h
    | DateTime t' => rw [Std.compare_eq_iff_eq.1 h]

namespace LegSpec

instance : TransCmp canonicalCmp :=
  inferInstanceAs (TransCmp (compareLex (compareOn expiration) (compareLex (compareOn strike)
    (compareLex (compareOn style) (compareLex (compareOn side)
      (compareLex (compareOn fun leg => leg.quantity.value)
        (compareLex (compareOn impliedVolatility)
          (compareLex (compareOn fun leg => leg.impliedVolatility.toText)
            (compareOn fun leg => expirationText leg.expiration)))))))))

/-- Legs that tie are one leg, down to the spelling of their decimals. -/
instance : LawfulEqCmp canonicalCmp where
  compare_self := Std.ReflCmp.compare_self
  eq_of_compare {a b} h := by
    simp only [canonicalCmp, Ordering.then_eq_eq, Std.compare_eq_iff_eq] at h
    obtain ⟨hexpiration, hstrike, hstyle, hside, hquantity, -, hvolatility, htext⟩ := h
    have hspelling := Decimal.toText_injective hvolatility
    have hexpiry := expiration_eq_of_text hexpiration htext
    have hsize := Quantity.ext hquantity
    obtain ⟨side, style, strike, expiration, quantity, volatility⟩ := a
    simp only at hstrike hstyle hside hsize hspelling hexpiry
    rw [hside, hstyle, hstrike, hexpiry, hsize, hspelling]

end LegSpec

/-- The serialised forms of the upstream types in a leg. -/
class UpstreamForms where
  side : Side → String
  style : OptionStyle → String
  days : Decimal → String
  dateTime : Instant → String

section Json

/-- A JSON string whose characters need no escape. -/
def jsonText (text : String) : String := "\"" ++ text ++ "\""

def jsonArray (items : List String) : String := "[" ++ ",".intercalate items ++ "]"

def jsonObject (fields : List (String × String)) : String :=
  "\x7b" ++ ",".intercalate (fields.map fun field => jsonText field.1 ++ ":" ++ field.2) ++ "\x7d"

variable [UpstreamForms]

/-- The serialised form of an expiration, by its variant. -/
def ExpirationDate.toJson : ExpirationDate → String
  | .Days days => UpstreamForms.days days
  | .DateTime instant => UpstreamForms.dateTime instant

/-- The serialised form of a leg; a decimal is its written form. -/
def LegSpec.toJson (leg : LegSpec) : String :=
  jsonObject
    [("side", UpstreamForms.side leg.side),
      ("style", UpstreamForms.style leg.style),
      ("strike", toString leg.strike.value),
      ("expiration", leg.expiration.toJson),
      ("quantity", toString leg.quantity.value),
      ("implied_volatility", jsonText leg.impliedVolatility.toText)]

/-- The serialised form of a leg set. -/
def LegSetSpec.toJson (spec : LegSetSpec) : String :=
  jsonObject [("Legs", jsonObject
    [("underlying", jsonText spec.underlying.ticker),
      ("underlying_price", toString spec.underlyingPrice.value),
      ("legs", jsonArray (spec.legs.map LegSpec.toJson)),
      ("risk_free_rate", jsonText spec.riskFreeRate.toText),
      ("dividend_yield", jsonText spec.dividendYield.toText)])]

end Json

/-- The legs in canonical order. -/
def LegSetSpec.sorted (spec : LegSetSpec) : LegSetSpec :=
  { spec with legs := spec.legs.mergeSort fun a b => (a.canonicalCmp b).isLE }

theorem StrategySpec.canonical_legs (spec : LegSetSpec) :
    (StrategySpec.Legs spec).canonical = .Legs spec.sorted := rfl

theorem LegSetSpec.sorted_perm (spec : LegSetSpec) {legs : List LegSpec} (h : legs.Perm spec.legs) :
    LegSetSpec.sorted { spec with legs } = spec.sorted := by
  unfold LegSetSpec.sorted
  rw [CanonicalSort.sort_perm h]

theorem StrategySpec.canonical_canonical (spec : StrategySpec) :
    spec.canonical.canonical = spec.canonical := by
  cases spec with
  | IronCondor spec => rfl
  | ShortStrangle spec => rfl
  | Legs spec =>
    simp only [canonical]
    rw [CanonicalSort.sort_sort]

end IronCondor
