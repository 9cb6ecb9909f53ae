import IronCondor.Bundle.Schema
import IronCondor.Domain.LegOrder
import IronCondor.Engine.EntryFidelity

/-! # Leg order is not observable

The record of a leg set, its run identity and the orders the engine submits for it all go through
one order of the legs. -/
namespace IronCondor

open Checked

section Canonical

variable [UpstreamForms] [Sha256] [SerdeJson RunIdPreimage]

/-- Two listings of the legs have one record and one run identity. -/
theorem LegSetSpec.record_perm (spec : LegSetSpec) {legs : List LegSpec}
    (h : legs.Perm spec.legs) :
    LegSetSpec.toJson (LegSetSpec.sorted { spec with legs }) = spec.sorted.toJson ∧
      ∀ seed config tapeIdentity codeVersion lockfileSha256,
        RunId.derive seed config (.Legs { spec with legs }) tapeIdentity codeVersion
            lockfileSha256 =
          RunId.derive seed config (.Legs spec) tapeIdentity codeVersion lockfileSha256 := by
  have hsorted := spec.sorted_perm h
  constructor
  · rw [hsorted]
  · intro seed config tapeIdentity codeVersion lockfileSha256
    simp only [RunId.derive, RunId.preimage, StrategySpec.canonical_legs, hsorted]

end Canonical

section Submission

/-- The legs a built leg set opens are those of the canonical specification. -/
theorem LegSetStrategy.fromSpec_legs {spec : LegSetSpec} {exit : ExitPolicy} {s : LegSetStrategy}
    (h : LegSetStrategy.fromSpec (.Legs spec) exit = .ok s) :
    s.legs = spec.sorted.legs ∧ s.entered = false := by
  simp only [fromSpec, new, bind_ok_iff, pure_ok_iff] at h
  obtain ⟨_, -, _, -, _, -, rfl⟩ := h
  exact ⟨rfl, rfl⟩

variable {S : Type} [PositionableStrategy S] [DecimalArith] [ExitChecks]

/-- A leg set opens its legs when the run starts, and nothing at any later entry. -/
theorem ShippedStrategy.onStart_legSet {s : LegSetStrategy} {s' : ShippedStrategy S}
    {ctx : ChainContext Unit} {out out' : List OrderCommand} {rng : Unit}
    (hentered : s.entered = false)
    (h : Strategy.onStart (ShippedStrategy.legSet (S := S) s) ctx out = .ok (s', rng, out')) :
    (∃ mine, out' = out ++ mine ∧ List.Forall₂ (SubmitsLeg ctx.snapshot) mine s.legs) ∧
      ∀ (later : ChainContext Unit) (out : List OrderCommand),
        Strategy.onStart s' later out = .ok (s', later.rng, out) ∧
          Strategy.onSnapshot s' later out = .ok (s', later.rng, out) := by
  simp only [Strategy.onStart, openEntries, bind_ok_iff, pure_ok_iff, Prod.mk.injEq] at h
  obtain ⟨_, ⟨⟨entered, _⟩, hentry, rfl⟩, rfl, -, rfl⟩ := h
  obtain ⟨-, hdone, hmine⟩ := LegSetStrategy.openEntries_submits hentered hentry
  refine ⟨hmine, fun later out => ⟨?_, rfl⟩⟩
  simp only [Strategy.onStart, openEntries, LegSetStrategy.openEntries, if_pos hdone]
  rfl

end Submission

/-- The canonical order is a total preorder that only identical records tie in, so neither the
record of a leg set nor its run identity nor its orders show how the legs were listed. -/
theorem StrategySpec.canonical_order_free [UpstreamForms] [Sha256] [SerdeJson RunIdPreimage]
    [DecimalArith] [ExitChecks] (S : Type) [PositionableStrategy S] :
    (∀ a b : LegSpec, a.canonicalCmp b = (b.canonicalCmp a).swap) ∧
    (∀ a b c : LegSpec, (a.canonicalCmp b).isLE = true → (b.canonicalCmp c).isLE = true →
      (a.canonicalCmp c).isLE = true) ∧
    (∀ a b : LegSpec, a.canonicalCmp b = .eq → a.toJson = b.toJson) ∧
    (∀ spec : StrategySpec, spec.canonical.canonical = spec.canonical) ∧
    (∀ (spec : LegSetSpec) (legs : List LegSpec), legs.Perm spec.legs →
      ∃ sorted sorted' : LegSetSpec,
        (StrategySpec.Legs spec).canonical = .Legs sorted ∧
        (StrategySpec.Legs { spec with legs }).canonical = .Legs sorted' ∧
        sorted.toJson = sorted'.toJson ∧
        ∀ seed config tapeIdentity codeVersion lockfileSha256,
          RunId.derive seed config (.Legs { spec with legs }) tapeIdentity codeVersion
              lockfileSha256 =
            RunId.derive seed config (.Legs spec) tapeIdentity codeVersion lockfileSha256) ∧
    ∀ (spec sorted : LegSetSpec) (exit : ExitPolicy) (s : LegSetStrategy)
      (s' : ShippedStrategy S) (ctx : ChainContext Unit) (out out' : List OrderCommand),
      (StrategySpec.Legs spec).canonical = .Legs sorted →
      LegSetStrategy.fromSpec (.Legs spec) exit = .ok s →
      Strategy.onStart (ShippedStrategy.legSet (S := S) s) ctx out = .ok (s', (), out') →
      (∃ mine, out' = out ++ mine ∧
        List.Forall₂ (SubmitsLeg ctx.snapshot) mine sorted.legs) ∧
      ∀ (later : ChainContext Unit) (out : List OrderCommand),
        Strategy.onStart s' later out = .ok (s', later.rng, out) ∧
          Strategy.onSnapshot s' later out = .ok (s', later.rng, out) := by
  refine ⟨?_, ?_, ?_, StrategySpec.canonical_canonical, ?_, ?_⟩
  · intro a b
    exact Std.OrientedCmp.eq_swap
  · intro a b c hab hbc
    exact Std.TransCmp.isLE_trans hab hbc
  · intro a b h
    rw [Std.LawfulEqCmp.eq_of_compare h]
  · intro spec legs h
    obtain ⟨hjson, hid⟩ := spec.record_perm h
    exact ⟨spec.sorted, _, rfl, StrategySpec.canonical_legs _, hjson.symm, hid⟩
  · intro spec sorted exit s s' ctx out out' hsorted hbuilt hstart
    obtain ⟨hlegs, hentered⟩ := LegSetStrategy.fromSpec_legs hbuilt
    rw [StrategySpec.canonical_legs] at hsorted
    cases hsorted
    rw [← hlegs]
    exact ShippedStrategy.onStart_legSet hentered hstart

end IronCondor
