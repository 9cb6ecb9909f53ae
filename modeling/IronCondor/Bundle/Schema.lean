import IronCondor.Config
import IronCondor.Data.Digest
import IronCondor.Domain.StrategySpec

/-! # Run identity

The identity of a run is the hash of everything its build records of it: the seed, the semantic
configuration, the canonical strategy, the tape and the build. -/
namespace IronCondor

open Checked

/-- Every field of the configuration but the operational output controls. -/
structure SemanticConfig where
  dataSource : DataSourceSpec
  mode : ExecutionMode
  seed : Bounded u64
  initialCapital : Bounded u64
  fees : FeeSchedule
  slippage : SlippageModel
  marketableCapTicks : Bounded u32
  liquidityProfile : LiquidityProfile
  limits : ResourceLimits
deriving DecidableEq

structure BuildIdentity where
  codeVersion : String
  lockfileSha256 : String
deriving DecidableEq

/-- What the run identity hashes, in its fixed order. -/
structure RunIdPreimage where
  seed : Bounded u64
  semanticConfig : SemanticConfig
  strategy : StrategySpec
  tapeIdentity : String
  buildIdentity : BuildIdentity
deriving DecidableEq

/-- The semantic view of a configuration. -/
def BacktestConfig.semantic (config : BacktestConfig) : SemanticConfig where
  dataSource := config.dataSource
  mode := config.mode
  seed := config.seed
  initialCapital := config.initialCapital
  fees := config.fees
  slippage := config.slippage
  marketableCapTicks := config.marketableCapTicks
  liquidityProfile := config.liquidityProfile
  limits := config.limits

/-- The run identity: the hex form of a hash. -/
@[ext] structure RunId where
  hex : String
deriving DecidableEq

namespace RunId

/-- What `derive` hashes. -/
def preimage (seed : Bounded u64) (config : BacktestConfig) (strategy : StrategySpec)
    (tapeIdentity codeVersion lockfileSha256 : String) : RunIdPreimage where
  seed
  semanticConfig := config.semantic
  strategy := strategy.canonical
  tapeIdentity
  buildIdentity := ⟨codeVersion, lockfileSha256⟩

variable [Sha256] [SerdeJson RunIdPreimage]

/-- `RunId::derive`. -/
def derive (seed : Bounded u64) (config : BacktestConfig) (strategy : StrategySpec)
    (tapeIdentity codeVersion lockfileSha256 : String) : Outcome RunId :=
  match SerdeJson.toVec
    (preimage seed config strategy tapeIdentity codeVersion lockfileSha256) with
  | .error error => .error (.Bundle ("run_id preimage serialisation failed: " ++ error))
  | .ok bytes => .ok ⟨toHex (Sha256.digest bytes)⟩

theorem derive_eq_ok {seed : Bounded u64} {config : BacktestConfig} {strategy : StrategySpec}
    {tapeIdentity codeVersion lockfileSha256 : String} {id : RunId} :
    derive seed config strategy tapeIdentity codeVersion lockfileSha256 = .ok id ↔
      ∃ bytes, SerdeJson.toVec
        (preimage seed config strategy tapeIdentity codeVersion lockfileSha256) = .ok bytes ∧
        id = ⟨toHex (Sha256.digest bytes)⟩ := by
  unfold derive
  cases SerdeJson.toVec
    (preimage seed config strategy tapeIdentity codeVersion lockfileSha256) with
  | error error => simp
  | ok bytes => simp [eq_comm]

end RunId

section Config

variable (strategy : StrategySpec) (tapeIdentity codeVersion lockfileSha256 : String)

/-- What the identity of a run hashes when the strategy, the tape and the build are given. -/
def preimageOf (config : BacktestConfig) : RunIdPreimage :=
  RunId.preimage config.seed config strategy tapeIdentity codeVersion lockfileSha256

variable [Sha256] [SerdeJson RunIdPreimage]

/-- The identity of a run when the strategy, the tape and the build are given. -/
def runIdOf (config : BacktestConfig) : Outcome RunId :=
  RunId.derive config.seed config strategy tapeIdentity codeVersion lockfileSha256

end Config

end IronCondor
