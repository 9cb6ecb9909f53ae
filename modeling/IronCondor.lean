import IronCondor.Engine.BundleCollector
import IronCondor.Engine.Substrate
import IronCondor.Engine.Events
import IronCondor.Engine.Backtest
import IronCondor.Engine.StepFills
import IronCondor.Engine.State
import IronCondor.Engine.Aggregate
import IronCondor.Execution.Naive
import IronCondor.Lib.OrderBook
import IronCondor.Lib.ReferenceBook
import IronCondor.Execution.Liquidity
import IronCondor.Execution.Realistic
import IronCondor.Execution.RealisticSteps
import IronCondor.Engine.Correlation
import IronCondor.Engine.Run
import IronCondor.Engine.Accounting
import IronCondor.Engine.Linked
import IronCondor.Engine.Operations
import IronCondor.Engine.Registry
import IronCondor.Engine.Tracking
import IronCondor.Engine.Orders
import IronCondor.Engine.Modes
import IronCondor.Engine.Remaining
import IronCondor.Data.SmallMarket
import IronCondor.Engine.Inventory
import IronCondor.Execution.Placement
import IronCondor.Engine.Provenance
import IronCondor.Engine.NetInventory
import IronCondor.Engine.FillIdentity
import IronCondor.Engine.Lifecycle
import IronCondor.Engine.NoLookAhead
import IronCondor.Engine.TerminalRow
import IronCondor.Engine.Recorded
import IronCondor.Engine.Trades
import IronCondor.Engine.LedgerSteps
import IronCondor.Analytics.Telescope
import IronCondor.Analytics.Endpoints
import IronCondor.Analytics.ConsumedDepth
import IronCondor.Engine.Fees
import IronCondor.Engine.CarriedMarks
import IronCondor.Engine.EntryFidelity
import IronCondor.Engine.SparseChains
import IronCondor.Data.FeedAgreement
import IronCondor.Data.Batching
import IronCondor.Bundle.AtomicWrite
import IronCondor.Batch.RunIds
import IronCondor.Batch.Verification
import IronCondor.Execution.SpreadFraction
import IronCondor.Execution.Reseeding
import IronCondor.Engine.Coverage
import IronCondor.Engine.CloseProvenance
import IronCondor.Domain.ContractHash
import IronCondor.Domain.LegOrder
import IronCondor.Engine.LegOrder
import IronCondor.Data.Redaction
import IronCondor.Bundle.ContractColumns
import IronCondor.Data.TapeIdentity
import IronCondor.Data.Ceilings
import IronCondor.Engine.EntryPremium
import IronCondor.Analytics.NetPremium
import IronCondor.Engine.Reconciliation
import IronCondor.Data.SimulatorSession
import IronCondor.Engine.LimitPrices
import IronCondor.Engine.Replacement
import IronCondor.Bundle.SmallBundle
import IronCondor.Bundle.ReaderErrors
import IronCondor.Analytics.Drawdown
import IronCondor.Engine.OrderAccounts
import IronCondor.Analytics.Timeline
import IronCondor.Engine.WalkShocks
