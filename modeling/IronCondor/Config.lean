import IronCondor.Data.Feed
import IronCondor.Domain.Execution

/-! # Run configuration

The configured fees, slippage, liquidity profile and run parameters. -/
namespace IronCondor

open Checked

/-- The upstream decimal operations, which may refuse a result they cannot represent. -/
class DecimalArith where
  checkedMul : Decimal → Decimal → Option Decimal
  checkedDiv : Decimal → Decimal → Option Decimal

/-- The upstream decimal sums, which may refuse a result they cannot represent. -/
class DecimalSums where
  checkedAdd : Decimal → Decimal → Option Decimal
  checkedSub : Decimal → Decimal → Option Decimal

namespace Decimal

def ofInt (n : Int) : Decimal := ⟨n, 0⟩

/-- `is_sign_negative` of a non-zero value. -/
def isNegative (d : Decimal) : Bool := d.mantissa < 0

/-- Rounding to a whole number, midpoints to the nearest even one. -/
def roundHalfEven (d : Decimal) : Int :=
  let divisor := (10 : Int) ^ d.scale
  let quotient := d.mantissa / divisor
  let twiceRem := 2 * (d.mantissa % divisor)
  if twiceRem < divisor then quotient
  else if divisor < twiceRem then quotient + 1
  else if quotient % 2 = 0 then quotient
  else quotient + 1

end Decimal

structure FeeSchedule where
  perContractCents : Bounded u64
  perOrderCents : Bounded u64
deriving DecidableEq

/-- The configured adverse slippage of the naive fill model. -/
inductive SlippageModel where
  | None
  | FixedCents (cents : Bounded u64)
  | SpreadFraction (fraction : Decimal)
  | SizeProportional (centsPerContract : Bounded u64)
deriving DecidableEq

/-- How the seeder sizes the touch level of a strike. -/
inductive TouchSize where
  | QuotedSize
  | Flat (contracts : Bounded u32)
deriving DecidableEq

structure LiquidityProfile where
  touchSize : TouchSize
  depthLevels : Bounded u32
  decay : Decimal
deriving DecidableEq

namespace LiquidityProfile

def maxDepthLevels : Int := 64

def validate (p : LiquidityProfile) : Outcome Unit := do
  require (p.depthLevels.value ≤ maxDepthLevels) (.Config
    (s!"liquidity_profile.depth_levels = {p.depthLevels.value} exceeds hard cap " ++
      s!"{maxDepthLevels}"))
  require (¬ (p.decay.cmp (.ofInt 0)).isLE ∧ (p.decay.cmp (.ofInt 1)).isLE) (.Config
    s!"liquidity_profile.decay must be in (0, 1], got {p.decay.mantissa}e-{p.decay.scale}")
  match p.touchSize with
  | .Flat contracts => require (contracts.value ≠ 0) (.Config
      "liquidity_profile.touch_size flat contracts must be > 0, got 0")
  | .QuotedSize => return ()

end LiquidityProfile

/-- Named resource ceilings of every untrusted input surface. -/
structure ResourceLimits where
  maxSteps : Bounded u64
  maxContractsPerSnapshot : Bounded u32
  maxTotalBytes : Bounded u64
  maxFileBytes : Bounded u64
  maxDecompressedBytes : Bounded u64
  maxManifestBytes : Bounded u64
  maxStringLen : Bounded u32
  maxRowsPerTable : Bounded u64
deriving DecidableEq

namespace ResourceLimits

/-- Every field with its name and its hard cap, in the order they are checked. -/
def caps (l : ResourceLimits) : List (String × Int × Int) :=
  [("max_steps", l.maxSteps.value, 10000000),
    ("max_contracts_per_snapshot", l.maxContractsPerSnapshot.value, 5000000),
    ("max_total_bytes", l.maxTotalBytes.value, 32 * 2 ^ 30),
    ("max_file_bytes", l.maxFileBytes.value, 64 * 2 ^ 30),
    ("max_decompressed_bytes", l.maxDecompressedBytes.value, 64 * 2 ^ 30),
    ("max_manifest_bytes", l.maxManifestBytes.value, 256 * 2 ^ 20),
    ("max_string_len", l.maxStringLen.value, 16 * 2 ^ 20),
    ("max_rows_per_table", l.maxRowsPerTable.value, 2 ^ 40)]

def validate (l : ResourceLimits) : Outcome Unit :=
  l.caps.forM fun (field, value, cap) =>
    require (value ≤ cap) (.Config s!"limits.{field} = {value} exceeds hard cap {cap}")

end ResourceLimits

/-- The full configuration of one run; `outputDir` and `overwrite` are operational. The output
directory is the list of its path components. -/
structure BacktestConfig where
  dataSource : DataSourceSpec
  mode : ExecutionMode
  seed : Bounded u64
  initialCapital : Bounded u64
  fees : FeeSchedule
  slippage : SlippageModel
  marketableCapTicks : Bounded u32
  liquidityProfile : LiquidityProfile
  limits : ResourceLimits
  outputDir : List String
  overwrite : Bool
deriving DecidableEq

namespace BacktestConfig

def validate (c : BacktestConfig) : Outcome Unit := do
  require (c.initialCapital.value ≠ 0) (.Config "initial capital must be positive, got 0")
  require (c.marketableCapTicks.value ≠ 0)
    (.Config "marketable_cap_ticks must be positive, got 0")
  c.limits.validate
  c.liquidityProfile.validate
  match c.slippage with
  | .SpreadFraction fraction => require (¬ fraction.isNegative) (.Config
      ("slippage spread fraction must be non-negative, got " ++
        s!"{fraction.mantissa}e-{fraction.scale}"))
  | _ => pure ()
  require (c.outputDir ≠ []) (.Config "output dir must not be empty")
  require (".." ∉ c.outputDir) (.Config
    ("output dir must not contain '..' components, got " ++ "/".intercalate c.outputDir))

end BacktestConfig

end IronCondor
