import IronCondor.Domain.Contract
import IronCondor.Lib.IntegerText

/-! # Reading contract ids

A contract id is read back segment by segment. What is read names one instant, and an instant
inside a leap second has the id of the second that follows it. -/
namespace IronCondor

open Checked

namespace ContractKey

/-- The segment of an id that names a style. -/
def styleSegment : OptionStyle → String
  | .Call => "C"
  | .Put => "P"

/-- `ContractKey::from_contract_id`. -/
def fromContractId (contractId : String) : Outcome ContractKey :=
  match (contractId.toList.splitOn ':').map String.ofList with
  | [version, underlying, expirationNs, strikeCents, style] => do
    require (version = "v1") (.Conversion (s!"contract id {contractId.quote} has unsupported " ++
      s!"version {version.quote}, expected \"v1\""))
    let underlying ← Underlying.new underlying
    let expirationNs ← okOr (IntegerText.parse i64 expirationNs) (.Conversion
      (s!"contract id {contractId.quote} has non-numeric expiration_ns " ++ expirationNs.quote))
    let strike ← okOr (IntegerText.parse u64 strikeCents) (.Conversion
      (s!"contract id {contractId.quote} has non-numeric strike_cents " ++ strikeCents.quote))
    let style ← match style with
      | "C" => Except.ok OptionStyle.Call
      | "P" => .ok .Put
      | other => .error (.Conversion (s!"contract id {contractId.quote} has unknown style " ++
          s!"{other.quote}, expected \"C\" or \"P\""))
    return ⟨underlying, .DateTime (.ofNanos expirationNs.value), strike, style⟩
  | _ => .error (.Conversion
      s!"contract id {contractId.quote} must have exactly 5 ':'-separated segments")

section Encode

/-- The id of a contract of these segments. -/
def idText (underlying : Underlying) (expirationNs : Bounded i64) (strike : PriceCents)
    (style : OptionStyle) : String :=
  s!"v1:{underlying.ticker}:{expirationNs.value}:{strike.value}:{styleSegment style}"

/-- Only an instant in the nanosecond range has a count. -/
theorem expirationNs_eq_ok {key : ContractKey} {ns : Bounded i64} :
    key.expirationNs = .ok ns ↔ ∃ t, key.expiration = .DateTime t ∧ ns.value = t.nanos := by
  obtain ⟨underlying, expiration, strike, style⟩ := key
  unfold expirationNs
  cases expiration with
  | Days days => simp
  | DateTime t => simp

theorem toContractId_eq_ok {key : ContractKey} {id : String} : key.toContractId = .ok id ↔
    ∃ ns, key.expirationNs = .ok ns ∧ id = idText key.underlying ns key.strike key.style := by
  obtain ⟨underlying, expiration, strike, style⟩ := key
  simp only [toContractId, bind_ok_iff, pure_ok_iff, idText, @eq_comm _ id]
  cases style <;> rfl

end Encode

section Segments

theorem colon_notMem_ticker (underlying : Underlying) : ':' ∉ underlying.ticker.toList := by
  intro h
  have hgrammar := underlying.grammar
  simp only [tickerGrammar, Bool.and_eq_true, List.all_eq_true] at hgrammar
  exact absurd (hgrammar.2 ':' h) (by decide)

theorem colon_notMem_toString (n : Int) : ':' ∉ (toString n).toList := by
  have hdigits : ∀ k : Nat, ':' ∉ Nat.toDigits 10 k := fun k h =>
    absurd (Nat.isDigit_of_mem_toDigits (by decide) (by decide) h) (by decide)
  cases n with
  | ofNat n =>
    change ':' ∉ (toString (n : Int)).toList
    rw [IntegerText.toList_toString_ofNat]
    exact hdigits n
  | negSucc n =>
    rw [IntegerText.toList_toString_negSucc, List.mem_cons, not_or]
    exact ⟨by decide, hdigits _⟩

/-- An id splits into the segments it was written from. -/
theorem splitOn_idText (underlying : Underlying) (ns : Bounded i64) (strike : PriceCents)
    (style : OptionStyle) : ((idText underlying ns strike style).toList.splitOn ':').map
      String.ofList = ["v1", underlying.ticker, toString ns.value, toString strike.value,
        styleSegment style] := by
  have hsegments : (idText underlying ns strike style).toList =
      [':'].intercalate (["v1", underlying.ticker, toString ns.value, toString strike.value,
        styleSegment style].map String.toList) := by
    simp [idText, List.intercalate, toString]
  have hfree : ∀ segment ∈ ["v1", underlying.ticker, toString ns.value, toString strike.value,
      styleSegment style].map String.toList, ':' ∉ segment := by
    simp only [List.map_cons, List.map_nil, List.forall_mem_cons, List.not_mem_nil,
      false_implies, implies_true, and_true]
    refine ⟨by decide, colon_notMem_ticker underlying, colon_notMem_toString _,
      colon_notMem_toString _, ?_⟩
    cases style <;> decide
  rw [hsegments, List.splitOn_intercalate ':' hfree (by simp), List.map_map]
  simp

end Segments

/-- The key an id is read back as: the expiry is the instant of its nanoseconds. -/
theorem fromContractId_idText (underlying : Underlying) (ns : Bounded i64) (strike : PriceCents)
    (style : OptionStyle) : fromContractId (idText underlying ns strike style) =
      .ok ⟨underlying, .DateTime (.ofNanos ns.value), strike, style⟩ := by
  have hticker : Underlying.new underlying.ticker = .ok underlying := Underlying.new_eq_ok.2 rfl
  have hns : IntegerText.parse i64 (toString ns.value) = some ns :=
    IntegerText.parse_toString_eq_some.2 rfl
  have hstrike : IntegerText.parse u64 (toString strike.value) = some strike :=
    IntegerText.parse_toString_eq_some.2 rfl
  simp only [fromContractId, splitOn_idText, hticker, hns, hstrike]
  cases style <;> rfl

section Codec

/-- The expiry is this instant, and its nanoseconds fit. -/
def Resolved (key : ContractKey) (t : Instant) : Prop :=
  key.expiration = .DateTime t ∧ i64.Contains t.nanos

theorem Resolved.idText {key : ContractKey} {t : Instant} (h : key.Resolved t) :
    ∃ ns : Bounded i64, ns.value = t.nanos ∧
      key.toContractId = .ok (idText key.underlying ns key.strike key.style) :=
  ⟨⟨t.nanos, h.2⟩, rfl, toContractId_eq_ok.2 ⟨_, expirationNs_eq_ok.2 ⟨t, h.1, rfl⟩, rfl⟩⟩

/-- A key with an id is resolved, and the id is read back as its nanoseconds. -/
theorem fromContractId_of_toContractId {key : ContractKey} {id : String}
    (h : key.toContractId = .ok id) : ∃ t, key.Resolved t ∧ fromContractId id =
      .ok { key with expiration := .DateTime (.ofNanos t.nanos) } := by
  obtain ⟨ns, hns, rfl⟩ := toContractId_eq_ok.1 h
  obtain ⟨t, ht, hvalue⟩ := expirationNs_eq_ok.1 hns
  refine ⟨t, ⟨ht, hvalue ▸ ns.inRange⟩, ?_⟩
  rw [fromContractId_idText, hvalue]

/-- Over these keys the id is read back as an equal key, and no two keys share one. -/
structure CodecFaithful (keys : Set ContractKey) : Prop where
  round_trip : ∀ key ∈ keys, ∀ t, key.Resolved t → ∃ id back,
    key.toContractId = .ok id ∧ fromContractId id = .ok back ∧ (back == key) = true
  injective : ∀ key ∈ keys, ∀ key' ∈ keys, ∀ id,
    key.toContractId = .ok id → key'.toContractId = .ok id → (key == key') = true

/-- Outside a leap second an expiry is the instant its id names. -/
theorem eq_of_not_isLeap {key : ContractKey} {t : Instant} (h : key.Resolved t)
    (hleap : ¬ t.IsLeap) : { key with expiration := .DateTime (.ofNanos t.nanos) } = key := by
  obtain ⟨underlying, expiration, strike, style⟩ := key
  obtain rfl : expiration = .DateTime t := h.1
  rw [Instant.ofNanos_nanos.2 hleap]

/-- The codec is faithful over the keys that expire outside a leap second, and only over them. -/
theorem codecFaithful_iff {keys : Set ContractKey} :
    CodecFaithful keys ↔ ∀ key ∈ keys, ∀ t, key.Resolved t → ¬ t.IsLeap := by
  constructor
  · intro h key hkey t ht
    obtain ⟨id, back, hid, hback, hequal⟩ := h.round_trip key hkey t ht
    obtain ⟨t', ht', hread⟩ := fromContractId_of_toContractId hid
    obtain rfl : t' = t := ExpirationDate.DateTime.inj (ht'.1.symm.trans ht.1)
    rw [hread] at hback
    cases hback
    rw [beq_iff_cmp_eq] at hequal
    have hexpiry : ExpirationDate.DateTime (.ofNanos t'.nanos) = key.expiration := by
      change cmp _ key = .eq at hequal
      simp only [cmp, Ordering.then_eq_eq, ht.1] at hequal ⊢
      rw [Std.compare_eq_iff_eq.1 hequal.2.1]
    rw [ht.1] at hexpiry
    exact Instant.ofNanos_nanos.1 (ExpirationDate.DateTime.inj hexpiry)
  · intro h
    refine ⟨?_, ?_⟩
    · intro key hkey t ht
      obtain ⟨ns, hns, hid⟩ := ht.idText
      refine ⟨_, _, hid, fromContractId_idText _ _ _ _, ?_⟩
      rw [hns, eq_of_not_isLeap ht (h key hkey t ht)]
      exact BEq.rfl
    · intro key hkey key' hkey' id hid hid'
      obtain ⟨t, ht, hread⟩ := fromContractId_of_toContractId hid
      obtain ⟨t', ht', hread'⟩ := fromContractId_of_toContractId hid'
      rw [eq_of_not_isLeap ht (h key hkey t ht)] at hread
      rw [eq_of_not_isLeap ht' (h key' hkey' t' ht')] at hread'
      rw [Except.ok.inj (hread.symm.trans hread')]
      exact BEq.rfl

end Codec

end ContractKey

section LeapSecond

/-- The leap second at the end of 2016. -/
def leapInstant : Instant := ⟨1483228799, 1000000000, by decide, by decide⟩

theorem spx_grammar : tickerGrammar "SPX" = true := by decide

theorem strike_contains : u64.Contains 510000 := by decide

def expiringAt (t : Instant) : ContractKey :=
  ⟨⟨"SPX", spx_grammar⟩, .DateTime t, ⟨510000, strike_contains⟩, .Call⟩

end LeapSecond

end IronCondor
