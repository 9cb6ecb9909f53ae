import IronCondor.Data.DirectoryHash
import IronCondor.Data.SmallMarket
import IronCondor.Data.TapeHash
import IronCondor.Lib.Pointwise
import IronCondor.Lib.Sha256

/-! # What the identities of two data sources tell apart

A tape and a CSV directory are identified by the digest of an encoding of them. The encoding of
a directory tells everything. That of a tape does not tell an expiry inside a leap second from
one of the second after it. -/
namespace IronCondor

open Checked Wire

section Sameness

variable {R S T : ExpirationDate → ExpirationDate → Prop}

theorem SameKey.both {a b : ContractKey} (hRST : ∀ x y, R x y → S x y → T x y)
    (hR : SameKey R a b) (hS : SameKey S a b) : SameKey T a b :=
  { hR with expiration := hRST _ _ hR.expiration hS.expiration }

theorem SameView.both {a b : QuoteView} (hRST : ∀ x y, R x y → S x y → T x y)
    (hR : SameView R a b) (hS : SameView S a b) : SameView T a b :=
  { hR with contract := hR.contract.both hRST hS.contract }

theorem SameSnapshot.both {a b : ChainSnapshot} (hRST : ∀ x y, R x y → S x y → T x y)
    (hR : SameSnapshot R a b) (hS : SameSnapshot S a b) : SameSnapshot T a b := by
  refine { hR with quotes := Pointwise.imp_both ?_ hR.quotes hS.quotes }
  intro entry entry' hentry hentry'
  exact ⟨hentry.1.both hRST hentry'.1, hentry.2.both hRST hentry'.2⟩

theorem SameTape.both {tape tape' : List ChainSnapshot} (hRST : ∀ x y, R x y → S x y → T x y)
    (hR : SameTape R tape tape') (hS : SameTape S tape tape') : SameTape T tape tape' :=
  Pointwise.imp_both (fun _ _ ha hb => ha.both hRST hb) hR hS

/-- Of two instants both or none lie inside a leap second. -/
def SameLeap (a b : ExpirationDate) : Prop :=
  ∀ t t', a = .DateTime t → b = .DateTime t' → (t.IsLeap ↔ t'.IsLeap)

theorem Instant.eq_of_nanos {t t' : Instant} (hnanos : t.nanos = t'.nanos)
    (hleap : t.IsLeap ↔ t'.IsLeap) : t = t' := by
  have hlt := t.subsecNanos_lt
  have hlt' := t'.subsecNanos_lt
  unfold IsLeap at hleap
  unfold nanos at hnanos
  apply Instant.ext <;> omega

theorem eq_of_sameNanos {a b : ExpirationDate} (hnanos : SameNanos a b) (hleap : SameLeap a b) :
    a = b := by
  obtain ⟨t, t', rfl, rfl, h⟩ := hnanos
  rw [Instant.eq_of_nanos h (hleap t t' rfl rfl)]

theorem sameLeap_of_eq {a b : ExpirationDate} (h : a = b) : SameLeap a b := by
  intro t t' ha hb
  cases ha.symm.trans (h.trans hb)
  exact Iff.rfl

end Sameness

section Identity

variable {F : Type} [AnalyticFloat F] [DecimalArith] [RetainsFitting F] [Sha256]

/-- Two tapes of converted snapshots with one encoding agree in everything, except that an expiry
of one may lie inside a leap second where that of the other lies in the second after it. CSV
directories with one encoding hold the same files. -/
theorem identity_preimages (hlength : ∀ bytes, (Sha256.digest bytes).length = 32) :
    (∀ (tape tape' : List ChainSnapshot) (hashed hashed' : List UInt8),
      (∀ snapshot ∈ tape, Converted F snapshot) → (∀ snapshot ∈ tape', Converted F snapshot) →
      tapePreimage tape = .ok hashed → tapePreimage tape' = .ok hashed' →
      ((hashed = hashed' → SameTape Eq tape tape') ↔
        (SameTape SameNanos tape tape' → SameTape SameLeap tape tape'))) ∧
    ∀ (known : Set (List UInt8)) (files files' : List NamedFile),
      Set.InjOn Sha256.digest known →
      (∀ file ∈ files, NulFree file ∧ file.2 ∈ known) →
      (∀ file ∈ files', NulFree file ∧ file.2 ∈ known) →
      (directoryPreimage files = directoryPreimage files' ↔ files = files') := by
  constructor
  · intro tape tape' hashed hashed' hconverted hconverted' htape htape'
    rw [tapePreimage_inj hconverted hconverted' htape htape']
    constructor
    · intro h hnanos
      exact (h hnanos).both (fun _ _ heq _ => sameLeap_of_eq heq) (h hnanos)
    · intro h hnanos
      exact hnanos.both (fun _ _ => eq_of_sameNanos) (h hnanos)
  · intro known files files' hknown hfiles hfiles'
    exact directoryPreimage_inj hlength hknown hfiles hfiles'

end Identity

end IronCondor

namespace IronCondor.TapeTwins

open Checked Wire SmallMarket

/-- Decimals of the upstream type as their own floats. -/
abbrev FittingDecimal := { d : Decimal // d.Fits }

scoped instance : AnalyticFloat FittingDecimal where
  isFinite _ := true
  fromF64Retain value := some value.1
  zero := ⟨⟨0, 0⟩, by decide, by decide⟩

scoped instance : RetainsFitting FittingDecimal where
  fits := by
    rintro ⟨value, hfits⟩ d h
    cases h
    exact hfits

def raw (t : Instant) : RawQuote FittingDecimal where
  expiration := .DateTime t
  strike := lit 510000
  style := .Call
  bid := lit 100
  ask := lit 110
  bidSize := lot 5
  askSize := lot 5
  impliedVolatility := ⟨⟨20, 2⟩, by decide, by decide⟩
  delta := ⟨⟨50, 2⟩, by decide, by decide⟩
  gamma := ⟨⟨1, 2⟩, by decide, by decide⟩
  theta := ⟨⟨-3, 2⟩, by decide, by decide⟩
  vega := ⟨⟨12, 2⟩, by decide, by decide⟩

def view (t : Instant) : QuoteView :=
  quote (expiringAt t) (lit 100) (lit 105) (lit 110)

/-- A chain of one call that expires at this instant. -/
def chain (t : Instant) : ChainSnapshot :=
  { firstStep with
    quotes := (∅ : Std.TreeMap ContractKey QuoteView).insert (expiringAt t) (view t) }

theorem chain_converted (t : Instant) : Converted FittingDecimal (chain t) :=
  ⟨⟨firstStep.ts, firstStep.step, firstStep.ts, spx, ⟨510000, by decide⟩, ⟨5, by decide⟩,
    ⟨100, by decide⟩⟩, [raw t], rfl⟩

theorem all_converted {t : Instant} :
    ∀ snapshot ∈ [chain t], Converted FittingDecimal snapshot := by
  intro snapshot hsnapshot
  rw [List.mem_singleton.1 hsnapshot]
  exact chain_converted t

theorem chain_preimage {t : Instant} {id : String} (hid : (expiringAt t).toContractId = .ok id)
    (hshort : Short id) : ∃ hashed, tapePreimage [chain t] = .ok hashed := by
  have hquotes : (chain t).quotes.toList = [(expiringAt t, view t)] := rfl
  have hfiled := (chain_converted t).wellFiled (expiringAt t, view t) (by simp [hquotes])
  have hentry : EntryBytes (expiringAt t, view t) (quoteBytes id (view t)) :=
    ⟨hfiled, id, hid, hshort, rfl⟩
  have hsnapshot : SnapshotBytes (chain t)
      (headBytes (chain t) ++ [quoteBytes id (view t)].flatten) := by
    have hticker : Short "SPX" := by decide +kernel
    have hsize : (chain t).quotes.size = 1 := rfl
    refine ⟨hticker, by rw [hsize]; decide, _, ?_, rfl⟩
    rw [hquotes]
    exact .cons hentry .nil
  exact ⟨_, (tapePreimage_eq_ok all_converted).2 ⟨_, .cons hsnapshot .nil, rfl⟩⟩

theorem id_leapInstant :
    (expiringAt leapInstant).toContractId = .ok "v1:SPX:1483228800000000000:510000:C" := rfl

theorem id_nextSecond : (expiringAt (.ofNanos 1483228800000000000)).toContractId =
    .ok "v1:SPX:1483228800000000000:510000:C" := rfl

theorem short_id : Short "v1:SPX:1483228800000000000:510000:C" := by decide +kernel

theorem sameNanos_chain {t t' : Instant} (h : t.nanos = t'.nanos) :
    SameTape SameNanos [chain t] [chain t'] := by
  have hkey : SameKey SameNanos (expiringAt t) (expiringAt t') :=
    ⟨rfl, ⟨t, t', rfl, rfl, h⟩, rfl, rfl⟩
  have hview : SameView SameNanos (view t) (view t') :=
    ⟨hkey, rfl, rfl, rfl, rfl, rfl, rfl, rfl, rfl, rfl, rfl⟩
  have hentries : List.Forall₂ (fun entry entry' : ContractKey × QuoteView =>
      SameKey SameNanos entry.1 entry'.1 ∧ SameView SameNanos entry.2 entry'.2)
      [(expiringAt t, view t)] [(expiringAt t', view t')] := .cons ⟨hkey, hview⟩ .nil
  exact .cons ⟨rfl, rfl, rfl, rfl, rfl, hentries⟩ .nil

theorem SameTape.of_chain {R : ExpirationDate → ExpirationDate → Prop} {t t' : Instant}
    (h : SameTape R [chain t] [chain t']) : R (.DateTime t) (.DateTime t') := by
  cases h with
  | cons hsnapshot _ =>
    have hentries : List.Forall₂ (fun entry entry' : ContractKey × QuoteView =>
        SameKey R entry.1 entry'.1 ∧ SameView R entry.2 entry'.2)
        [(expiringAt t, view t)] [(expiringAt t', view t')] := hsnapshot.quotes
    cases hentries with
    | cons hentry _ => exact hentry.1.expiration

/-- Two tapes of one call each: the one expires in the leap second at the end of 2016, the other
a second later, and the hash sees the same bytes of both. -/
theorem tapePreimage_leapSecond : ∃ hashed,
    tapePreimage [chain leapInstant] = .ok hashed ∧
    tapePreimage [chain (.ofNanos 1483228800000000000)] = .ok hashed ∧
    (∀ t, Converted FittingDecimal (chain t)) ∧
    ¬ SameTape Eq [chain leapInstant] [chain (.ofNanos 1483228800000000000)] := by
  obtain ⟨hashed, h⟩ := chain_preimage id_leapInstant short_id
  obtain ⟨hashed', h'⟩ := chain_preimage id_nextSecond short_id
  obtain rfl := (tapePreimage_inj all_converted all_converted h h').2 (sameNanos_chain (by decide))
  refine ⟨hashed, h, h', chain_converted, fun hsame => ?_⟩
  exact absurd (ExpirationDate.DateTime.inj (SameTape.of_chain hsame)) (by decide)

scoped instance : Sha256 := ⟨Fips180.sha256⟩

theorem identity_preimages_twins :
    (∃ hashed hashed', tapePreimage [chain (.ofNanos 0)] = .ok hashed ∧
      tapePreimage [chain (.ofNanos 1)] = .ok hashed' ∧ hashed ≠ hashed') ∧
    directoryPreimage [("0000.csv", [1]), ("0001.csv", [2])] ≠
      directoryPreimage [("0000.csv", [2]), ("0001.csv", [1])] := by
  obtain ⟨htapes, hfiles⟩ := identity_preimages (F := FittingDecimal) Fips180.length_sha256
  constructor
  · have hid : (expiringAt (.ofNanos 0)).toContractId = .ok "v1:SPX:0:510000:C" := rfl
    have hid' : (expiringAt (.ofNanos 1)).toContractId = .ok "v1:SPX:1:510000:C" := rfl
    obtain ⟨hashed, h⟩ := chain_preimage hid (by decide +kernel)
    obtain ⟨hashed', h'⟩ := chain_preimage hid' (by decide +kernel)
    refine ⟨hashed, hashed', h, h', fun hsame => ?_⟩
    have happart : ¬ SameTape SameNanos [chain (.ofNanos 0)] [chain (.ofNanos 1)] := by
      intro hnanos
      obtain ⟨_, _, ⟨⟩, ⟨⟩, hzero⟩ := SameTape.of_chain hnanos
      exact absurd hzero (by decide)
    have htold := (htapes _ _ _ _ all_converted all_converted h h').2
      (fun hnanos => absurd hnanos happart) hsame
    exact absurd (ExpirationDate.DateTime.inj (SameTape.of_chain htold)) (by decide)
  · have hdigests : Sha256.digest [1] ≠ Sha256.digest [2] := by decide +kernel
    have hknown : Set.InjOn Sha256.digest ({[1], [2]} : Set (List UInt8)) := by
      rintro _ (rfl | rfl) _ (rfl | rfl) h
      · rfl
      · exact absurd h hdigests
      · exact absurd h.symm hdigests
      · rfl
    have hnames : NulFree ("0000.csv", [1]) ∧ NulFree ("0001.csv", [2]) := by
      unfold NulFree
      decide +kernel
    have hone : ([1] : List UInt8) ∈ ({[1], [2]} : Set (List UInt8)) := .inl rfl
    have htwo : ([2] : List UInt8) ∈ ({[1], [2]} : Set (List UInt8)) := .inr rfl
    have hsame := hfiles {[1], [2]} [("0000.csv", [1]), ("0001.csv", [2])]
      [("0000.csv", [2]), ("0001.csv", [1])] hknown
      (List.forall_mem_cons.2 ⟨⟨hnames.1, hone⟩, List.forall_mem_singleton.2 ⟨hnames.2, htwo⟩⟩)
      (List.forall_mem_cons.2 ⟨⟨hnames.1, htwo⟩, List.forall_mem_singleton.2 ⟨hnames.2, hone⟩⟩)
    exact fun h => absurd (hsame.1 h) (by decide)

end IronCondor.TapeTwins
