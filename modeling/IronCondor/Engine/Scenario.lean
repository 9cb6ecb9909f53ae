import IronCondor.Config
import IronCondor.Data.Digest

/-! # Scenario batches

The generator of a batch: every run of a sweep crossed with its replicates, with its seeds, as
a configuration of its own. -/
namespace IronCondor

open Checked ExceptRun

/-- The kind of a batch. -/
inductive ScenarioType where
  | MonteCarlo
  | StressTest
  | Historical
  | Custom
deriving DecidableEq, Repr

/-- How the kind shows in an error. -/
def ScenarioType.debug : ScenarioType → String
  | .MonteCarlo => "MonteCarlo"
  | .StressTest => "StressTest"
  | .Historical => "Historical"
  | .Custom => "Custom"

/-- One dimension of a sweep. -/
structure ConfigOverride where
  seed : Option (Bounded u64)
  walkVolatilityFactor : Option Decimal
  walkDriftDelta : Option Decimal
deriving DecidableEq

def ConfigOverride.default : ConfigOverride := ⟨none, none, none⟩

/-- The override shocks a walk. -/
def ConfigOverride.Shocks (override : ConfigOverride) : Prop :=
  override.walkVolatilityFactor.isSome = true ∨ override.walkDriftDelta.isSome = true

instance (override : ConfigOverride) : Decidable override.Shocks := inferInstanceAs (Decidable (_ ∨ _))

structure ScenarioParams where
  kind : ScenarioType
  baseSeed : Bounded u64
  count : Bounded u32
  sweep : List ConfigOverride

/-- A session request, kept as its JSON text: the walk seed is set, and the shocks of a stress
test are applied to the walk. -/
class SessionWalk where
  withSeed : String → Bounded u64 → String
  applyWalkShocks : String → ConfigOverride → Outcome String

/-- The little-endian bytes of a number. -/
def leBytes (count x : Nat) : List UInt8 :=
  (List.range count).map fun i => UInt8.ofNat (x / 256 ^ i)

/-- The number some bytes spell, read little-endian. -/
def leValue : List UInt8 → Nat
  | [] => 0
  | byte :: bytes => byte.toNat + 256 * leValue bytes

theorem leValue_lt (bytes : List UInt8) : leValue bytes < 256 ^ bytes.length := by
  induction bytes with
  | nil => exact Nat.one_pos
  | cons byte bytes ih =>
    have hbyte := byte.toNat_lt
    rw [leValue, List.length_cons, pow_succ]
    omega

namespace ScenarioParams

/-- An empty sweep is one override that changes nothing. -/
def overrides (params : ScenarioParams) : List ConfigOverride :=
  if params.sweep.isEmpty then [.default] else params.sweep

/-- The override of every run, replicates next to each other. -/
def runs (params : ScenarioParams) : List ConfigOverride :=
  params.overrides.flatMap (List.replicate params.count.value.toNat)

/-- An override of a run that pins a seed is one of the sweep. -/
theorem mem_sweep_of_pinned {params : ScenarioParams} {override : ConfigOverride} {seed : Bounded u64}
    (hin : override ∈ params.runs) (hseed : override.seed = some seed) :
    override ∈ params.sweep := by
  obtain ⟨origin, horigin, hrep⟩ := List.mem_flatMap.1 hin
  obtain rfl := List.eq_of_mem_replicate hrep
  unfold overrides at horigin
  split_ifs at horigin
  · rw [List.mem_singleton.1 horigin] at hseed
    cases hseed
  · exact horigin

end ScenarioParams

section Seeds

variable [Sha256]

def engineSeedTag : List UInt8 := "ironcondor.scenario.child_seed.v1\x00".toUTF8.toList

def dataSeedTag : List UInt8 := "ironcondor.scenario.child_data_seed.v1\x00".toUTF8.toList

/-- The first eight bytes of the hash of a tag, a seed and an index. -/
def seedFrom (tag : List UInt8) (baseSeed : Bounded u64) (index : Bounded u32) : Bounded u64 :=
  let bytes := (Sha256.digest
    (tag ++ leBytes 8 baseSeed.value.toNat ++ leBytes 4 index.value.toNat)).take 8
  ⟨leValue bytes, Int.natCast_nonneg _, by
    have hlt : leValue bytes < 256 ^ 8 :=
      (leValue_lt bytes).trans_le (Nat.pow_le_pow_right (by decide) (List.length_take_le _ _))
    change (leValue bytes : Int) ≤ 2 ^ 64 - 1
    omega⟩

/-- The engine seed of run `index`. -/
def childSeed (baseSeed : Bounded u64) (index : Bounded u32) : Bounded u64 :=
  seedFrom engineSeedTag baseSeed index

/-- The data seed of run `index`. -/
def childDataSeed (baseSeed : Bounded u64) (index : Bounded u32) : Bounded u64 :=
  seedFrom dataSeedTag baseSeed index

variable [SessionWalk]

/-- The configuration of run `index`. -/
def deriveConfig (base : BacktestConfig) (baseSeed : Bounded u64) (index : Bounded u32)
    (override : ConfigOverride) : Outcome BacktestConfig :=
  let config := { base with seed := override.seed.getD (childSeed baseSeed index) }
  match config.dataSource with
  | .Simulator spec => do
    let dataSeed := childDataSeed baseSeed index
    let session ← SessionWalk.applyWalkShocks (SessionWalk.withSeed spec.session dataSeed) override
    return { config with
      dataSource := .Simulator { spec with dataSeed, session, tapeSha256 := "" } }
  | _ => return config

/-- The hard ceiling on the runs of one batch. -/
def maxRuns : Int := 1000000

/-- Derive the next run of a batch. -/
def deriveNext (base : BacktestConfig) (baseSeed : Bounded u64)
    (acc : List BacktestConfig × Bounded u32) (override : ConfigOverride) :
    Outcome (List BacktestConfig × Bounded u32) := do
  let config ← deriveConfig base baseSeed acc.2 override
  let index ← checked u32 (acc.2.value + 1)
  return (acc.1 ++ [config], index)

/-- `expand`. -/
def expand (params : ScenarioParams) (base : BacktestConfig) :
    Outcome (List BacktestConfig) := do
  require (params.kind = .StressTest ∨ ∀ override ∈ params.overrides, ¬ override.Shocks) (.Config
    ("walk_volatility_factor / walk_drift_delta are StressTest-only shocks, but the scenario " ++
      s!"kind is {params.kind.debug}"))
  require (¬ (1 < params.count.value ∧ ∃ override ∈ params.overrides, override.seed.isSome = true)) (.Config
    ("an explicit ConfigOverride.seed with count > 1 makes every replicate share a run_id (a " ++
      "concurrent bundle-directory race); use base_seed derivation (seed: None) for " ++
      "replicated runs, or set count = 1"))
  let total ← checked u64 (params.overrides.length * params.count.value)
  require (total.value ≤ maxRuns) (.Config
    s!"scenario batch expands to {total.value} runs, exceeding the hard cap of {maxRuns}")
  let (out, _) ← params.runs.foldlM (deriveNext base params.baseSeed) ([], ⟨0, u32.contains_zero⟩)
  return out

section Expand

variable {params : ScenarioParams} {base config : BacktestConfig} {configs : List BacktestConfig}
  {baseSeed : Bounded u64}

/-- Over a file feed a run differs from the base in its seed alone. -/
theorem deriveConfig_file (hfile : ∀ spec, base.dataSource ≠ .Simulator spec)
    (index : Bounded u32) (override : ConfigOverride) :
    deriveConfig base baseSeed index override =
      .ok { base with
        seed := override.seed.getD (childSeed baseSeed index) } := by
  unfold deriveConfig
  dsimp only
  split
  · rename_i spec hspec
    exact absurd hspec (hfile spec)
  · rfl

/-- The fold derives one configuration a run, the run at position `k` under index `k`. -/
theorem deriveNext_foldlM {runs : List ConfigOverride} {out out' : List BacktestConfig}
    {index index' : Bounded u32}
    (h : runs.foldlM (deriveNext base baseSeed) (out, index) = .ok (out', index')) :
    ∃ added, out' = out ++ added ∧ added.length = runs.length ∧
      ∀ (k : Nat) (override : ConfigOverride), runs[k]? = some override →
        ∃ (i : Bounded u32) (config : BacktestConfig), i.value = index.value + k ∧
          added[k]? = some config ∧ deriveConfig base baseSeed i override = .ok config := by
  induction runs generalizing out index with
  | nil =>
    cases foldlM_nil_ok.1 h
    exact ⟨[], (List.append_nil _).symm, rfl, fun k override hk => by cases hk⟩
  | cons first runs ih =>
    obtain ⟨⟨mid, next⟩, hmid, h⟩ := foldlM_cons_ok.1 h
    simp only [deriveNext, bind_ok_iff, narrow_eq_ok, pure_ok_iff, Prod.mk.injEq] at hmid
    obtain ⟨config, hconfig, next, hnext, rfl, rfl⟩ := hmid
    obtain ⟨added, rfl, hlength, hall⟩ := ih h
    refine ⟨config :: added, by simp, by simp [hlength], ?_⟩
    rintro (_ | k) override hk
    · cases hk
      exact ⟨index, config, by simp, rfl, hconfig⟩
    · obtain ⟨i, config', hi, hconfig', hderive⟩ := hall k override hk
      refine ⟨i, config', ?_, hconfig', hderive⟩
      rw [hi, hnext]
      push_cast
      ring

/-- An accepted batch: one configuration a run, and seeds pinned only without replicates. -/
theorem expand_eq_ok (h : expand params base = .ok configs) :
    (1 < params.count.value → ∀ override ∈ params.overrides, override.seed = none) ∧
      configs.length = params.runs.length ∧
      ∀ (k : Nat) (override : ConfigOverride), params.runs[k]? = some override →
        ∃ (i : Bounded u32) (config : BacktestConfig), i.value = k ∧ configs[k]? = some config ∧
          deriveConfig base params.baseSeed i override = .ok config := by
  simp only [expand, bind_ok_iff, require_eq_ok, pure_ok_iff, Prod.exists] at h
  obtain ⟨_, -, _, hpinned, _, -, _, -, out, index, hfold, rfl⟩ := h
  obtain ⟨added, hadded, hlength, hall⟩ := deriveNext_foldlM hfold
  obtain rfl : out = added := hadded
  refine ⟨fun hcount override hin => ?_, hlength, fun k override hk => ?_⟩
  · by_contra hseed
    exact hpinned ⟨hcount, override, hin, Option.isSome_iff_ne_none.2 hseed⟩
  · obtain ⟨i, config, hi, hconfig, hderive⟩ := hall k override hk
    exact ⟨i, config, by simpa using hi, hconfig, hderive⟩

end Expand

end Seeds

end IronCondor
