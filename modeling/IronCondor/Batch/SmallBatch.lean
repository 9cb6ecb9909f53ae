import IronCondor.Batch.Runner
import IronCondor.Data.SmallMarket
import IronCondor.Lib.Sha256

/-! # A small batch

One Parquet file, one leg set and one build: concrete inputs on which results about batches are
exercised. -/
namespace IronCondor.SmallBatch

open Checked SmallMarket

scoped instance : Sha256 := ⟨Fips180.sha256⟩

/-- The bytes of the one file that decodes. -/
def tapeBytes : List UInt8 := "PAR1 spx PAR1".toUTF8.data.toList

def files (path : String) : FileState :=
  if path = "spx.parquet" then .Regular tapeBytes
  else .Missing "No such file or directory (os error 2)"

scoped instance : ParquetReader where
  readTape bytes _ := if bytes = tapeBytes then .ok dip else .error (.Data "not a parquet file")

/-- Buy two calls. -/
def strategy : StrategySpec := .Legs
  { underlying := spx
    underlyingPrice := lit 510000
    legs := [⟨.Long, .Call, call.strike, call.expiration, lot 2, ⟨20, 2⟩⟩]
    riskFreeRate := ⟨5, 2⟩
    dividendYield := ⟨0, 0⟩ }

theorem strategy_canonical : strategy.canonical = strategy := by
  simp [strategy, StrategySpec.canonical]

/-- The same market order, whatever the set asks for. -/
scoped instance : StrategyFactory Script Unit where
  ironCondorFromSpec _ _ := .error (.Strategy "not a leg set")
  shortStrangleFromSpec _ _ := .error (.Strategy "not a leg set")
  legSetFromSpec _ _ := .ok ⟨take, []⟩

scoped instance : SummaryMetrics Unit := ⟨fun _ _ _ _ _ => .ok ()⟩

/-- The rows of a table, as they are. -/
inductive Table where
  | fills (runId : RunId) (rows : List FillRecord)
  | equity (rows : List EquityPoint)
  | positions (rows : List PositionSnapshot)
  | greeks (rows : List GreeksAttributionRow)
deriving DecidableEq

scoped instance : TableEncoders Unit Table where
  encodeFills run runId := .ok (.fills runId run.fills, run.fills.length)
  encodeEquity run := .ok (.equity run.equityCurve, run.equityCurve.length)
  encodePositions run := .ok (.positions run.positions, run.positions.length)
  encodeGreeks run := .ok (.greeks run.greeksAttribution, run.greeksAttribution.length)

scoped instance : Build := ⟨"0.10.0", "version = 4".toUTF8.data.toList⟩

scoped instance : SimulatorClient := ⟨fun _ _ _ => .error (.Config "no simulator")⟩

scoped instance : SessionWalk := ⟨fun session _ => session, fun session _ => .ok session⟩

/-- The configuration of a naive run over the file, with this recorded identity. -/
def config (sha256 : String) : BacktestConfig :=
  { SmallMarket.config .Naive with
    dataSource := .Parquet "spx.parquet" sha256 }

/-- The JSON text of a preimage that agrees with `config` and `strategy` in all that it leaves
out. -/
def preimageJson (p : RunIdPreimage) (path sha256 : String) : String :=
  s!"\x7b\"seed\":{p.seed.value},\"semantic_config\":\x7b\"data_source\":\x7b\"kind\":" ++
  s!"\"parquet\",\"path\":\"{path}\",\"sha256\":\"{sha256}\"\x7d,\"mode\":\"naive\"," ++
  s!"\"seed\":{p.semanticConfig.seed.value},\"initial_capital\":1000000,\"fees\":\x7b" ++
  "\"per_contract_cents\":65,\"per_order_cents\":100\x7d,\"slippage\":\x7b\"model\":" ++
  "\"fixed_cents\",\"cents\":1\x7d,\"marketable_cap_ticks\":5,\"liquidity_profile\":\x7b" ++
  "\"touch_size\":\x7b\"kind\":\"flat\",\"contracts\":3\x7d,\"depth_levels\":0,\"decay\":" ++
  "\"0.5\"\x7d,\"limits\":\x7b\"max_steps\":1000,\"max_contracts_per_snapshot\":1000," ++
  "\"max_total_bytes\":1000000,\"max_file_bytes\":1000000,\"max_decompressed_bytes\":1000000," ++
  "\"max_manifest_bytes\":1000000,\"max_string_len\":1000,\"max_rows_per_table\":1000\x7d\x7d," ++
  "\"strategy\":\x7b\"Legs\":\x7b\"underlying\":\"SPX\",\"underlying_price\":510000,\"legs\":" ++
  "[\x7b\"side\":\"Long\",\"style\":\"Call\",\"strike\":510000,\"expiration\":\x7b\"datetime\":" ++
  "\"2025-06-19T00:00:00Z\"\x7d,\"quantity\":2,\"implied_volatility\":\"0.20\"\x7d]," ++
  "\"risk_free_rate\":\"0.05\",\"dividend_yield\":\"0\"\x7d\x7d," ++
  s!"\"tape_identity\":\"{p.tapeIdentity}\",\"build_identity\":\x7b\"code_version\":" ++
  s!"\"{p.buildIdentity.codeVersion}\",\"lockfile_sha256\":" ++
  s!"\"{p.buildIdentity.lockfileSha256}\"\x7d\x7d"

/-- A batch of one run an override, each with its pinned seed. -/
def pinned (seeds : List (Bounded u64)) : ScenarioParams where
  kind := .Custom
  baseSeed := lit 7
  count := lit 1
  sweep := seeds.map fun seed => ⟨some seed, none, none⟩

scoped instance : SerdeJson RunIdPreimage where
  toVec p := match p.semanticConfig.dataSource with
    | .Parquet path sha256 => .ok (preimageJson p path sha256).toUTF8.data.toList
    | _ => .error "not a parquet source"

/-- The run of the small batch under a seed. -/
def seeded (seed : Bounded u64) : BacktestConfig :=
  { config "" with
    seed }

/-- What the identity of a run of the small batch hashes. -/
def smallPreimage : BacktestConfig → RunIdPreimage :=
  preimageOf strategy (toHex (Sha256.digest tapeBytes)) Build.codeVersion lockfileSha256

/-- The identity of a run of the small batch. -/
def smallRunId : BacktestConfig → Outcome RunId :=
  runIdOf strategy (toHex (Sha256.digest tapeBytes)) Build.codeVersion lockfileSha256

theorem toVec_small (seed : Bounded u64) :
    ∃ bytes, SerdeJson.toVec (smallPreimage (seeded seed)) = .ok bytes :=
  ⟨(preimageJson (smallPreimage (seeded seed)) "spx.parquet" "").toUTF8.data.toList, rfl⟩

theorem smallRunId_seeded (seed : Bounded u64) : ∃ id, smallRunId (seeded seed) = .ok id := by
  obtain ⟨bytes, hbytes⟩ := toVec_small seed
  unfold smallPreimage preimageOf at hbytes
  unfold smallRunId runIdOf
  exact ⟨⟨toHex (Sha256.digest bytes)⟩, RunId.derive_eq_ok.2 ⟨bytes, hbytes, rfl⟩⟩

def one : Bounded u64 := lit 1

def two : Bounded u64 := lit 2

theorem expand_pinned : expand (pinned [one, two]) (config "") = .ok [seeded one, seeded two] := by
  decide +kernel

/-- The two runs, planned. -/
def plan : List PlannedRun :=
  [⟨lit 0, seeded one⟩, ⟨lit 1, seeded two⟩]

/-- The identities of the two runs hash texts with distinct digests. -/
theorem digests_ne : (SerdeJson.toVec (smallPreimage (seeded one))).map Sha256.digest ≠
    (SerdeJson.toVec (smallPreimage (seeded two))).map Sha256.digest := by
  decide +kernel

theorem smallRunId_ne {id : RunId} (hone : smallRunId (seeded one) = .ok id) :
    smallRunId (seeded two) ≠ .ok id := by
  intro htwo
  unfold smallRunId runIdOf at hone htwo
  obtain ⟨bytes, hbytes, hid⟩ := RunId.derive_eq_ok.1 hone
  obtain ⟨bytes', hbytes', hid'⟩ := RunId.derive_eq_ok.1 htwo
  refine digests_ne ?_
  unfold smallPreimage preimageOf
  rw [hbytes, hbytes']
  exact congrArg Except.ok (toHex_injective (congrArg RunId.hex (hid.symm.trans hid')))

end IronCondor.SmallBatch
