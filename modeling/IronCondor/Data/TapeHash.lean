import IronCondor.Data.Digest
import IronCondor.Data.Normalisation
import IronCondor.Domain.ContractId
import IronCondor.Lib.Wire

/-! # The identity of a simulator tape

A materialised tape is identified by the hash of its converted values. What is hashed tells every
value of the tape, except that an expiry shows as its nanoseconds. -/
namespace IronCondor

open Checked ExceptRun Wire

section Model

/-- `rust_decimal::Decimal::serialize`: the flags with the scale and the sign, then the mantissa. -/
def Decimal.serialize (d : Decimal) : List UInt8 :=
  [0, 0, UInt8.ofNat d.scale, if d.mantissa < 0 then 128 else 0] ++ Wire.leBytes 12 d.mantissa.natAbs

def tapeHashTag : List UInt8 := "ironcondor.tape.v1\x00".toUTF8.toList

/-- `update_bytes`; the hasher is what it has seen. -/
def updateBytes (hasher bytes : List UInt8) : Outcome (List UInt8) := do
  let len ← checked u64 (bytes.length : Nat)
  return hasher ++ leInt 8 len.value ++ bytes

/-- One quote of a snapshot in the order of its contracts. -/
def hashQuote (hasher : List UInt8) (entry : ContractKey × QuoteView) : Outcome (List UInt8) := do
  let (key, view) := entry
  let contractId ← key.toContractId
  let hasher ← updateBytes hasher contractId.toUTF8.toList
  return hasher ++ leInt 8 view.bid.value ++ leInt 8 view.ask.value ++ leInt 8 view.mid.value ++
    leInt 4 view.bidSize.toU32.value ++ leInt 4 view.askSize.toU32.value ++
    view.impliedVolatility.serialize ++ view.delta.serialize ++ view.gamma.serialize ++
    view.theta.serialize ++ view.vega.serialize

def hashSnapshot (hasher : List UInt8) (snapshot : ChainSnapshot) : Outcome (List UInt8) := do
  let hasher := hasher ++ leInt 8 snapshot.ts.value ++ leInt 4 snapshot.step.value
  let hasher ← updateBytes hasher snapshot.underlying.ticker.toUTF8.toList
  let hasher := hasher ++ leInt 8 snapshot.underlyingPrice.value ++
    leInt 8 snapshot.spec.tickSizeCents.value ++ leInt 4 snapshot.spec.contractMultiplier.value
  let quoteCount ← checked u64 (snapshot.quotes.size : Nat)
  snapshot.quotes.toList.foldlM hashQuote (hasher ++ leInt 8 quoteCount.value)

/-- What `tape_sha256` hashes. -/
def tapePreimage (tape : List ChainSnapshot) : Outcome (List UInt8) :=
  tape.foldlM hashSnapshot tapeHashTag

/-- `tape_sha256`. -/
def tapeSha256 [Sha256] (tape : List ChainSnapshot) : Outcome String := do
  let hashed ← tapePreimage tape
  return toHex (Sha256.digest hashed)

end Model

section Decimals

/-- A decimal of the upstream type: a mantissa of 96 bits and a scale of at most 28. -/
def Decimal.Fits (d : Decimal) : Prop := d.mantissa.natAbs < 2 ^ 96 ∧ d.scale ≤ 28

/-- The decimals that floats are retained as are of the upstream type. -/
class RetainsFitting (F : Type) [AnalyticFloat F] : Prop where
  fits : ∀ (value : F) (d : Decimal), AnalyticFloat.fromF64Retain value = some d → d.Fits

theorem Decimal.serialize_append_inj {d d' : Decimal} {s t : List UInt8} (hd : d.Fits)
    (hd' : d'.Fits) (h : d.serialize ++ s = d'.serialize ++ t) : d = d' ∧ s = t := by
  obtain ⟨mantissa, scale⟩ := d
  obtain ⟨mantissa', scale'⟩ := d'
  simp only [serialize, List.cons_append, List.nil_append, List.cons.injEq, true_and] at h
  obtain ⟨hscale, hsign, hrest⟩ := h
  have hwidth : (256 : Nat) ^ 12 = 2 ^ 96 := by norm_num
  obtain ⟨habs, hst⟩ := leBytes_append_inj (hwidth ▸ hd.1) (hwidth ▸ hd'.1) hrest
  have hle : scale ≤ 28 := hd.2
  have hle' : scale' ≤ 28 := hd'.2
  have hbyte := congrArg UInt8.toNat hscale
  simp only [UInt8.toNat_ofNat'] at hbyte
  have hsame : mantissa < 0 ↔ mantissa' < 0 := by
    by_cases hneg : mantissa < 0 <;> by_cases hneg' : mantissa' < 0
    · exact iff_of_true hneg hneg'
    · rw [if_pos hneg, if_neg hneg'] at hsign
      exact absurd hsign (by decide)
    · rw [if_neg hneg, if_pos hneg'] at hsign
      exact absurd hsign (by decide)
    · exact iff_of_false hneg hneg'
  rw [Decimal.mk.injEq]
  exact ⟨⟨by omega, by omega⟩, hst⟩

end Decimals

section Sameness

variable (R : ExpirationDate → ExpirationDate → Prop)

/-- The contracts agree, their expiries up to `R`. -/
structure SameKey (a b : ContractKey) : Prop where
  underlying : a.underlying = b.underlying
  expiration : R a.expiration b.expiration
  strike : a.strike = b.strike
  style : a.style = b.style

/-- The quotes agree, the expiries of their contracts up to `R`. -/
structure SameView (a b : QuoteView) : Prop where
  contract : SameKey R a.contract b.contract
  bid : a.bid = b.bid
  ask : a.ask = b.ask
  mid : a.mid = b.mid
  bidSize : a.bidSize = b.bidSize
  askSize : a.askSize = b.askSize
  impliedVolatility : a.impliedVolatility = b.impliedVolatility
  delta : a.delta = b.delta
  gamma : a.gamma = b.gamma
  theta : a.theta = b.theta
  vega : a.vega = b.vega

/-- The snapshots agree entry by entry, the expiries up to `R`. -/
structure SameSnapshot (a b : ChainSnapshot) : Prop where
  ts : a.ts = b.ts
  step : a.step = b.step
  underlying : a.underlying = b.underlying
  underlyingPrice : a.underlyingPrice = b.underlyingPrice
  spec : a.spec = b.spec
  quotes : List.Forall₂ (fun entry entry' : ContractKey × QuoteView =>
    SameKey R entry.1 entry'.1 ∧ SameView R entry.2 entry'.2) a.quotes.toList b.quotes.toList

/-- The tapes agree, the expiries up to `R`. -/
def SameTape (tape tape' : List ChainSnapshot) : Prop := List.Forall₂ (SameSnapshot R) tape tape'

end Sameness

/-- The instants have one nanosecond count. -/
def SameNanos (a b : ExpirationDate) : Prop :=
  ∃ t t', a = .DateTime t ∧ b = .DateTime t' ∧ t.nanos = t'.nanos

section Converted

variable {F : Type} [AnalyticFloat F] [DecimalArith]

/-- The snapshot came out of the conversion of a feed's raw quotes. -/
def Converted (F : Type) [AnalyticFloat F] (snapshot : ChainSnapshot) : Prop :=
  ∃ (snapMeta : SnapshotMeta) (quotes : List (RawQuote F)),
    rawQuotesToSnapshot snapMeta quotes = .ok snapshot

/-- An entry of a converted snapshot: filed under its own contract, with upstream decimals. -/
structure WellFiled (entry : ContractKey × QuoteView) : Prop where
  contract : entry.2.contract = entry.1
  impliedVolatility : entry.2.impliedVolatility.Fits
  delta : entry.2.delta.Fits
  gamma : entry.2.gamma.Fits
  theta : entry.2.theta.Fits
  vega : entry.2.vega.Fits

theorem Converted.wellFiled [RetainsFitting F] {snapshot : ChainSnapshot}
    (h : Converted F snapshot) : ∀ entry ∈ snapshot.quotes.toList, WellFiled entry := by
  obtain ⟨snapMeta, quotes, hsnapshot⟩ := h
  obtain ⟨-, spec, views, -, hbecomes, hdistinct, rfl⟩ := rawQuotesToSnapshot_eq_ok.1 hsnapshot
  intro entry hentry
  have hperm := KeyedInsert.toList_file (∅ : Std.TreeMap ContractKey QuoteView) hdistinct (by simp)
  have hmem := hperm.mem_iff.1 hentry
  have hempty : (∅ : Std.TreeMap ContractKey QuoteView).toList = [] := rfl
  rw [hempty, List.nil_append, List.mem_map] at hmem
  obtain ⟨view, hview, rfl⟩ := hmem
  obtain ⟨raw, -, hraw⟩ := Pointwise.exists_left hbecomes hview
  have hfits := @RetainsFitting.fits F _ _
  exact ⟨rfl, hfits _ _ hraw.impliedVolatility, hfits _ _ hraw.delta, hfits _ _ hraw.gamma,
    hfits _ _ hraw.theta, hfits _ _ hraw.vega⟩

end Converted

section Encodings

/-- The bytes a quote adds under an id. -/
def quoteBytes (contractId : String) (view : QuoteView) : List UInt8 :=
  prefixed 8 contractId.toUTF8.toList ++ (leInt 8 view.bid.value ++ (leInt 8 view.ask.value ++
    (leInt 8 view.mid.value ++ (leInt 4 view.bidSize.toU32.value ++
    (leInt 4 view.askSize.toU32.value ++ (view.impliedVolatility.serialize ++
    (view.delta.serialize ++ (view.gamma.serialize ++ (view.theta.serialize ++
    view.vega.serialize)))))))))

/-- A text whose length fits its prefix. -/
def Short (text : String) : Prop := text.toUTF8.toList.length < 256 ^ 8

instance (text : String) : Decidable (Short text) := inferInstanceAs (Decidable (_ < _))

theorem exists_count {n : Nat} (h : n < 256 ^ 8) : ∃ count : Bounded u64, count.value = n := by
  have hrange : u64.Contains n := by
    norm_num [IntRange.Contains, IntRange.unsigned] at h ⊢
    omega
  exact ⟨⟨n, hrange⟩, rfl⟩

/-- A count is written as the number it is. -/
theorem leInt_of_count {n : Nat} {count : Bounded u64} (h : count.value = n) :
    n < 256 ^ 8 ∧ leInt 8 count.value = Wire.leBytes 8 n := by
  have hmax := count.le_max
  rw [h] at hmax
  have hsmall : (n : Int) < 256 ^ 8 := by
    norm_num [IntRange.unsigned] at hmax ⊢
    omega
  refine ⟨by exact_mod_cast hsmall, ?_⟩
  rw [leInt, h, Int.emod_eq_of_lt (by positivity) hsmall, Int.toNat_natCast]

theorem updateBytes_eq_ok {hasher bytes t : List UInt8} : updateBytes hasher bytes = .ok t ↔
    bytes.length < 256 ^ 8 ∧ t = hasher ++ prefixed 8 bytes := by
  simp only [updateBytes, bind_ok_iff, narrow_eq_ok, pure_ok_iff]
  constructor
  · rintro ⟨len, hlen, rfl⟩
    obtain ⟨hshort, hbytes⟩ := leInt_of_count hlen
    rw [hbytes, prefixed, List.append_assoc]
    exact ⟨hshort, rfl⟩
  · rintro ⟨hshort, rfl⟩
    obtain ⟨len, hlen⟩ := exists_count hshort
    refine ⟨len, hlen, ?_⟩
    rw [(leInt_of_count hlen).2, prefixed, List.append_assoc]

/-- The bytes of an entry of a snapshot. -/
def EntryBytes (entry : ContractKey × QuoteView) (bytes : List UInt8) : Prop :=
  WellFiled entry ∧ ∃ contractId, entry.1.toContractId = .ok contractId ∧ Short contractId ∧
    bytes = quoteBytes contractId entry.2

theorem hashQuote_eq_ok {hasher t : List UInt8} {entry : ContractKey × QuoteView}
    (hfiled : WellFiled entry) : hashQuote hasher entry = .ok t ↔
      ∃ bytes, EntryBytes entry bytes ∧ t = hasher ++ bytes := by
  obtain ⟨key, view⟩ := entry
  simp only [hashQuote, bind_ok_iff, updateBytes_eq_ok, pure_ok_iff, EntryBytes]
  constructor
  · rintro ⟨contractId, hid, _, ⟨hshort, rfl⟩, rfl⟩
    refine ⟨_, ⟨hfiled, contractId, hid, hshort, rfl⟩, ?_⟩
    simp only [quoteBytes, List.append_assoc]
  · rintro ⟨_, ⟨-, contractId, hid, hshort, rfl⟩, rfl⟩
    refine ⟨contractId, hid, _, ⟨hshort, rfl⟩, ?_⟩
    simp only [quoteBytes, List.append_assoc]

/-- An id tells everything of its contract but how its nanoseconds are written. -/
theorem sameKey_of_id {a b : ContractKey} {contractId : String}
    (ha : a.toContractId = .ok contractId) (hb : b.toContractId = .ok contractId) :
    SameKey SameNanos a b := by
  obtain ⟨t, ht, hread⟩ := ContractKey.fromContractId_of_toContractId ha
  obtain ⟨t', ht', hread'⟩ := ContractKey.fromContractId_of_toContractId hb
  have hsame := Except.ok.inj (hread.symm.trans hread')
  simp only [ContractKey.mk.injEq, ExpirationDate.DateTime.injEq] at hsame
  obtain ⟨hunderlying, hinstant, hstrike, hstyle⟩ := hsame
  refine ⟨hunderlying, ⟨t, t', ht.1, ht'.1, ?_⟩, hstrike, hstyle⟩
  rw [← Instant.nanos_ofNanos t.nanos, hinstant, Instant.nanos_ofNanos]

theorem entryBytes_delimits : Delimits EntryBytes fun entry entry' =>
    SameKey SameNanos entry.1 entry'.1 ∧ SameView SameNanos entry.2 entry'.2 := by
  rintro ⟨key, view⟩ ⟨key', view'⟩ _ _ s t ⟨hfiled, id, hid, hshort, rfl⟩
    ⟨hfiled', id', hid', hshort', rfl⟩ h
  have hprice : u64.max - u64.min < 256 ^ 8 := by decide
  have hcount : u32.max - u32.min < 256 ^ 4 := by decide
  simp only [quoteBytes, List.append_assoc] at h
  obtain ⟨htext, h⟩ := prefixed_append_inj hshort hshort' h
  obtain ⟨hbid, h⟩ := leInt_append_inj hprice h
  obtain ⟨hask, h⟩ := leInt_append_inj hprice h
  obtain ⟨hmid, h⟩ := leInt_append_inj hprice h
  obtain ⟨hbidSize, h⟩ := leInt_append_inj hcount h
  obtain ⟨haskSize, h⟩ := leInt_append_inj hcount h
  obtain ⟨hiv, h⟩ := Decimal.serialize_append_inj hfiled.impliedVolatility
    hfiled'.impliedVolatility h
  obtain ⟨hdelta, h⟩ := Decimal.serialize_append_inj hfiled.delta hfiled'.delta h
  obtain ⟨hgamma, h⟩ := Decimal.serialize_append_inj hfiled.gamma hfiled'.gamma h
  obtain ⟨htheta, h⟩ := Decimal.serialize_append_inj hfiled.theta hfiled'.theta h
  obtain ⟨hvega, hrest⟩ := Decimal.serialize_append_inj hfiled.vega hfiled'.vega h
  have hsameId : id = id' := utf8_injective htext
  have hkey := sameKey_of_id hid (hsameId ▸ hid')
  have hcontract : SameKey SameNanos view.contract view'.contract := by
    rw [hfiled.contract, hfiled'.contract]
    exact hkey
  have hsizes : view.bidSize = view'.bidSize ∧ view.askSize = view'.askSize :=
    ⟨Quantity.ext (congrArg Bounded.value hbidSize), Quantity.ext (congrArg Bounded.value haskSize)⟩
  exact ⟨⟨hkey, ⟨hcontract, hbid, hask, hmid, hsizes.1, hsizes.2, hiv, hdelta, hgamma, htheta,
    hvega⟩⟩, hrest⟩

/-- The bytes a snapshot starts with: its fields and the number of its quotes. -/
def headBytes (snapshot : ChainSnapshot) : List UInt8 :=
  leInt 8 snapshot.ts.value ++ (leInt 4 snapshot.step.value ++
    (prefixed 8 snapshot.underlying.ticker.toUTF8.toList ++
    (leInt 8 snapshot.underlyingPrice.value ++ (leInt 8 snapshot.spec.tickSizeCents.value ++
    (leInt 4 snapshot.spec.contractMultiplier.value ++ Wire.leBytes 8 snapshot.quotes.size)))))

/-- The bytes of a snapshot. -/
def SnapshotBytes (snapshot : ChainSnapshot) (bytes : List UInt8) : Prop :=
  Short snapshot.underlying.ticker ∧ snapshot.quotes.size < 256 ^ 8 ∧
    ∃ parts, List.Forall₂ EntryBytes snapshot.quotes.toList parts ∧
      bytes = headBytes snapshot ++ parts.flatten

theorem hashSnapshot_eq_ok {hasher t : List UInt8} {snapshot : ChainSnapshot}
    (hfiled : ∀ entry ∈ snapshot.quotes.toList, WellFiled entry) :
    hashSnapshot hasher snapshot = .ok t ↔
      ∃ bytes, SnapshotBytes snapshot bytes ∧ t = hasher ++ bytes := by
  have hquotes : ∀ s, snapshot.quotes.toList.foldlM hashQuote s = .ok t ↔ ∃ parts,
      List.Forall₂ EntryBytes snapshot.quotes.toList parts ∧ t = s ++ parts.flatten := fun s =>
    foldlM_append_iff fun entry hentry s t => hashQuote_eq_ok (hfiled entry hentry)
  simp only [hashSnapshot, bind_ok_iff, updateBytes_eq_ok, narrow_eq_ok, hquotes]
  constructor
  · rintro ⟨_, ⟨hshort, rfl⟩, count, hcount, parts, hparts, rfl⟩
    obtain ⟨hsize, hbytes⟩ := leInt_of_count hcount
    refine ⟨_, ⟨hshort, hsize, parts, hparts, rfl⟩, ?_⟩
    simp only [headBytes, hbytes, List.append_assoc]
  · rintro ⟨_, ⟨hshort, hsize, parts, hparts, rfl⟩, rfl⟩
    obtain ⟨count, hcount⟩ := exists_count hsize
    refine ⟨_, ⟨hshort, rfl⟩, count, hcount, parts, hparts, ?_⟩
    simp only [headBytes, (leInt_of_count hcount).2, List.append_assoc]

theorem snapshotBytes_delimits : Delimits SnapshotBytes (SameSnapshot SameNanos) := by
  rintro a b _ _ s t ⟨hshort, hsize, parts, hparts, rfl⟩ ⟨hshort', hsize', parts', hparts', rfl⟩ h
  have hprice : u64.max - u64.min < 256 ^ 8 := by decide
  have htime : i64.max - i64.min < 256 ^ 8 := by decide
  have hcount : u32.max - u32.min < 256 ^ 4 := by decide
  simp only [headBytes, List.append_assoc] at h
  obtain ⟨hts, h⟩ := leInt_append_inj htime h
  obtain ⟨hstep, h⟩ := leInt_append_inj hcount h
  obtain ⟨hticker, h⟩ := prefixed_append_inj hshort hshort' h
  obtain ⟨hunderlyingPrice, h⟩ := leInt_append_inj hprice h
  obtain ⟨htick, h⟩ := leInt_append_inj hprice h
  obtain ⟨hmultiplier, h⟩ := leInt_append_inj hcount h
  obtain ⟨hquotes, h⟩ := leBytes_append_inj hsize hsize' h
  have hlength : a.quotes.toList.length = b.quotes.toList.length := by
    rw [Std.TreeMap.length_toList, Std.TreeMap.length_toList, hquotes]
  obtain ⟨hentries, hrest⟩ := entryBytes_delimits.counted hparts hparts' hlength h
  have hspec : a.spec = b.spec := by
    rw [InstrumentSpec.mk.injEq]
    exact ⟨htick, hmultiplier⟩
  exact ⟨⟨hts, hstep, Underlying.ext (utf8_injective hticker), hunderlyingPrice, hspec,
    hentries⟩, hrest⟩

theorem SnapshotBytes.ne_nil {snapshot : ChainSnapshot} {bytes : List UInt8}
    (h : SnapshotBytes snapshot bytes) : bytes ≠ [] := by
  obtain ⟨-, -, parts, -, rfl⟩ := h
  intro hnil
  have hlength := congrArg List.length hnil
  simp [headBytes, leInt] at hlength

end Encodings

section Determined

theorem toContractId_of_sameKey {a b : ContractKey} {id id' : String}
    (h : SameKey SameNanos a b) (ha : a.toContractId = .ok id) (hb : b.toContractId = .ok id') :
    id = id' := by
  obtain ⟨ns, hns, rfl⟩ := ContractKey.toContractId_eq_ok.1 ha
  obtain ⟨ns', hns', rfl⟩ := ContractKey.toContractId_eq_ok.1 hb
  obtain ⟨t, ht, hvalue⟩ := ContractKey.expirationNs_eq_ok.1 hns
  obtain ⟨t', ht', hvalue'⟩ := ContractKey.expirationNs_eq_ok.1 hns'
  obtain ⟨u, u', hu, hu', hnanos⟩ := h.expiration
  obtain rfl := ExpirationDate.DateTime.inj (ht.symm.trans hu)
  obtain rfl := ExpirationDate.DateTime.inj (ht'.symm.trans hu')
  have hsame : ns = ns' := Bounded.ext (hvalue.trans (hnanos.trans hvalue'.symm))
  rw [h.underlying, h.strike, h.style, hsame]

theorem entryBytes_determined : Determines EntryBytes fun entry entry' =>
    SameKey SameNanos entry.1 entry'.1 ∧ SameView SameNanos entry.2 entry'.2 := by
  rintro ⟨key, view⟩ ⟨key', view'⟩ _ _ ⟨-, id, hid, -, rfl⟩ ⟨-, id', hid', -, rfl⟩
    ⟨hkey, (hview : SameView SameNanos view view')⟩
  have hsame := toContractId_of_sameKey hkey hid hid'
  simp only [quoteBytes, hsame, hview.bid, hview.ask, hview.mid, hview.bidSize, hview.askSize,
    hview.impliedVolatility, hview.delta, hview.gamma, hview.theta, hview.vega]

theorem snapshotBytes_determined : Determines SnapshotBytes (SameSnapshot SameNanos) := by
  rintro a b _ _ ⟨-, -, parts, hparts, rfl⟩ ⟨-, -, parts', hparts', rfl⟩ h
  have hsize : a.quotes.size = b.quotes.size := by
    rw [← Std.TreeMap.length_toList, ← Std.TreeMap.length_toList, h.quotes.length_eq]
  rw [entryBytes_determined.sequence hparts hparts' h.quotes]
  simp only [headBytes, h.ts, h.step, h.underlying, h.underlyingPrice, h.spec, hsize]

end Determined

section Tapes

variable {F : Type} [AnalyticFloat F] [DecimalArith] [RetainsFitting F]

theorem tapePreimage_eq_ok {tape : List ChainSnapshot} {hashed : List UInt8}
    (hconverted : ∀ snapshot ∈ tape, Converted F snapshot) : tapePreimage tape = .ok hashed ↔
      ∃ parts, List.Forall₂ SnapshotBytes tape parts ∧ hashed = tapeHashTag ++ parts.flatten :=
  foldlM_append_iff fun snapshot hsnapshot _ _ =>
    hashSnapshot_eq_ok (hconverted snapshot hsnapshot).wellFiled

/-- The hash sees of a tape of converted snapshots everything but how the nanoseconds of its
expiries are written. -/
theorem tapePreimage_inj {tape tape' : List ChainSnapshot} {hashed hashed' : List UInt8}
    (hconverted : ∀ snapshot ∈ tape, Converted F snapshot)
    (hconverted' : ∀ snapshot ∈ tape', Converted F snapshot)
    (h : tapePreimage tape = .ok hashed) (h' : tapePreimage tape' = .ok hashed') :
    hashed = hashed' ↔ SameTape SameNanos tape tape' := by
  obtain ⟨parts, hparts, rfl⟩ := (tapePreimage_eq_ok hconverted).1 h
  obtain ⟨parts', hparts', rfl⟩ := (tapePreimage_eq_ok hconverted').1 h'
  rw [List.append_right_inj]
  constructor
  · exact snapshotBytes_delimits.stream (fun _ _ => SnapshotBytes.ne_nil) hparts hparts'
  · intro hsame
    rw [snapshotBytes_determined.sequence hparts hparts' hsame]

end Tapes

end IronCondor
