import IronCondor.Bundle.Schema
import IronCondor.Domain.ContractId
import IronCondor.Lib.Fold

/-! # Contract columns of a bundle

A bundle that is read back joins its tables on the contract id. A fill row is accepted only with
the id of its own columns, and a position row only with the id of some contract. -/
namespace IronCondor

open Checked ExceptRun

/-- One row of `fills.parquet`. -/
structure FillRow where
  step : Bounded u32
  tsNs : Bounded i64
  strategyRunId : String
  tradeId : Bounded u64
  positionId : Bounded u64
  orderId : Bounded u64
  fillSeq : Bounded u32
  underlying : String
  expirationNs : Bounded i64
  contractId : String
  strikeCents : Bounded u64
  style : String
  side : String
  quantity : Bounded u32
  priceCents : Bounded u64
  feesCents : Bounded i64
  slippageCents : Bounded i64
  mode : String
deriving DecidableEq

/-- One row of `positions.parquet`. -/
structure PositionRow where
  step : Bounded u32
  tsNs : Bounded i64
  positionId : Bounded u64
  tradeId : Bounded u64
  contractId : String
  side : String
  quantity : Bounded u32
  avgPriceCents : Bounded u64
  markCents : Bounded u64
  unrealizedCents : Bounded i64
  staleMark : Bool
  exitReason : Option String
  openAtEnd : Bool
deriving DecidableEq

/-- `style_str`. -/
def styleStr : OptionStyle → String
  | .Call => "call"
  | .Put => "put"

/-- An error of another kind reported about a bundle. -/
def inBundle {α : Type} (what : String) : Outcome α → Outcome α
  | .ok a => .ok a
  | .error e => .error (.Bundle (what ++ e.display))

@[simp] theorem inBundle_eq_ok {α : Type} {what : String} {r : Outcome α} {a : α} :
    inBundle what r = .ok a ↔ r = .ok a := by
  cases r <;> simp [inBundle]

/-- `verify_fill_contract_id`. -/
def verifyFillContractId (row : FillRow) : Outcome Unit := do
  let key ← inBundle s!"fills contract_id {row.contractId.quote} is not parseable: "
    (ContractKey.fromContractId row.contractId)
  let expirationNs ← inBundle s!"fills contract_id {row.contractId.quote}: " key.expirationNs
  require (key.underlying.ticker = row.underlying ∧ expirationNs = row.expirationNs ∧
      key.strike = row.strikeCents ∧ styleStr key.style = row.style) (.Bundle
    s!"fills contract_id {row.contractId.quote} does not round-trip to its own columns")
  let rebuilt ← inBundle s!"fills contract_id {row.contractId.quote} rebuild: " key.toContractId
  require (rebuilt = row.contractId) (.Bundle
    (s!"fills contract_id {row.contractId.quote} is not round-trippable " ++
      s!"(rebuilt {rebuilt.quote})"))

/-- `verify_position_contract_id`. -/
def verifyPositionContractId (row : PositionRow) : Outcome Unit := do
  let key ← inBundle s!"positions contract_id {row.contractId.quote} is not parseable: "
    (ContractKey.fromContractId row.contractId)
  let rebuilt ← inBundle s!"positions contract_id {row.contractId.quote} rebuild: "
    key.toContractId
  require (rebuilt = row.contractId) (.Bundle
    (s!"positions contract_id {row.contractId.quote} is not round-trippable " ++
      s!"(rebuilt {rebuilt.quote})"))

/-- The row checks of `read_bundle` before the tables are sorted. -/
def verifyRows (runId : String) (fills : List FillRow) (positions : List PositionRow) :
    Outcome Unit := do
  fills.forM fun row => do
    verifyFillContractId row
    require (row.strategyRunId = runId) (.Bundle
      (s!"fills.parquet carries strategy_run_id {row.strategyRunId.quote} but the manifest " ++
        s!"run_id is {runId.quote} (a fill from a different run)"))
  positions.forM verifyPositionContractId

/-- The id is the one of the row's own underlying, expiry, strike and style. -/
def FillRow.Canonical (row : FillRow) : Prop :=
  ∃ key : ContractKey, key.toContractId = .ok row.contractId ∧
    key.underlying.ticker = row.underlying ∧ key.expirationNs = .ok row.expirationNs ∧
    key.strike = row.strikeCents ∧ styleStr key.style = row.style

/-- The id is the one of some contract. -/
def PositionRow.Canonical (row : PositionRow) : Prop :=
  ∃ key : ContractKey, key.toContractId = .ok row.contractId

section Checks

/-- What a canonical id is read as has that id again, and the same nanoseconds. -/
theorem fromContractId_canonical {key : ContractKey} {id : String}
    (h : key.toContractId = .ok id) : ∃ back : ContractKey,
      ContractKey.fromContractId id = .ok back ∧ back.toContractId = .ok id ∧
        back.underlying = key.underlying ∧ back.expirationNs = key.expirationNs ∧
        back.strike = key.strike ∧ back.style = key.style := by
  obtain ⟨ns, hns, rfl⟩ := ContractKey.toContractId_eq_ok.1 h
  have hback : ContractKey.expirationNs
      ⟨key.underlying, .DateTime (.ofNanos ns.value), key.strike, key.style⟩ = .ok ns :=
    ContractKey.expirationNs_eq_ok.2 ⟨_, rfl, (Instant.nanos_ofNanos _).symm⟩
  exact ⟨_, ContractKey.fromContractId_idText _ _ _ _,
    ContractKey.toContractId_eq_ok.2 ⟨ns, hback, rfl⟩, rfl, hback.trans hns.symm, rfl, rfl⟩

theorem verifyFillContractId_eq_ok {row : FillRow} :
    verifyFillContractId row = .ok () ↔ row.Canonical := by
  simp only [verifyFillContractId, bind_ok_iff, inBundle_eq_ok, require_eq_ok]
  constructor
  · rintro ⟨key, -, ns, hns, _, ⟨hunderlying, rfl, hstrike, hstyle⟩, rebuilt, hid, rfl⟩
    exact ⟨key, hid, hunderlying, hns, hstrike, hstyle⟩
  · rintro ⟨key, hid, hunderlying, hns, hstrike, hstyle⟩
    obtain ⟨back, hread, hrebuilt, hunderlying', hns', hstrike', hstyle'⟩ :=
      fromContractId_canonical hid
    refine ⟨back, hread, _, hns'.trans hns, (), ⟨?_, rfl, ?_, ?_⟩, _, hrebuilt, rfl⟩
    · rw [hunderlying', hunderlying]
    · rw [hstrike', hstrike]
    · rw [hstyle', hstyle]

theorem verifyPositionContractId_eq_ok {row : PositionRow} :
    verifyPositionContractId row = .ok () ↔ row.Canonical := by
  simp only [verifyPositionContractId, bind_ok_iff, inBundle_eq_ok, require_eq_ok]
  constructor
  · rintro ⟨key, -, rebuilt, hid, rfl⟩
    exact ⟨key, hid⟩
  · rintro ⟨key, hid⟩
    obtain ⟨back, hread, hrebuilt, -⟩ := fromContractId_canonical hid
    exact ⟨back, hread, _, hrebuilt, rfl⟩

theorem verifyRows_eq_ok {runId : String} {fills : List FillRow}
    {positions : List PositionRow} : verifyRows runId fills positions = .ok () ↔
      (∀ row ∈ fills, row.Canonical ∧ row.strategyRunId = runId) ∧
        ∀ row ∈ positions, row.Canonical := by
  simp only [verifyRows, bind_ok_iff, forM_ok_iff, require_eq_ok, verifyPositionContractId_eq_ok]
  constructor
  · rintro ⟨_, hfills, hpositions⟩
    refine ⟨fun row hrow => ?_, hpositions⟩
    obtain ⟨_, hcanonical, hrunId⟩ := hfills row hrow
    exact ⟨verifyFillContractId_eq_ok.1 hcanonical, hrunId⟩
  · rintro ⟨hfills, hpositions⟩
    refine ⟨(), fun row hrow => ?_, hpositions⟩
    obtain ⟨hcanonical, hrunId⟩ := hfills row hrow
    exact ⟨(), verifyFillContractId_eq_ok.2 hcanonical, hrunId⟩

end Checks

/-- The codec is faithful exactly outside leap seconds, and a bundle's contract ids are those of
their rows. -/
theorem contractId_codec (keys : Set ContractKey) (runId : String) (fills : List FillRow)
    (positions : List PositionRow) :
    (ContractKey.CodecFaithful keys ↔ ∀ key ∈ keys, ∀ t, key.Resolved t → ¬ t.IsLeap) ∧
      (verifyRows runId fills positions = .ok () →
        (∀ row ∈ fills, row.Canonical) ∧ ∀ row ∈ positions, row.Canonical) := by
  refine ⟨ContractKey.codecFaithful_iff, fun h => ?_⟩
  obtain ⟨hfills, hpositions⟩ := verifyRows_eq_ok.1 h
  exact ⟨fun row hrow => (hfills row hrow).1, hpositions⟩

/-- A contract that expires in a leap second has the id of the one that expires a second later,
and is read back as that one. -/
theorem contractId_leapSecond :
    (expiringAt leapInstant).toContractId = .ok "v1:SPX:1483228800000000000:510000:C" ∧
    (expiringAt (.ofNanos 1483228800000000000)).toContractId =
      .ok "v1:SPX:1483228800000000000:510000:C" ∧
    (expiringAt leapInstant == expiringAt (.ofNanos 1483228800000000000)) = false ∧
    ¬ ContractKey.CodecFaithful {expiringAt leapInstant} := by
  refine ⟨rfl, rfl, by decide, fun h => ?_⟩
  exact ContractKey.codecFaithful_iff.1 h _ rfl leapInstant ⟨rfl, by decide⟩ (by decide)

end IronCondor
