import Cpredict.Lib.Outcome
import Cpredict.Lib.HeapFamily
import Cpredict.Lib.MulDiv
import Cpredict.Lib.Balances
import Cpredict.Lib.ProRata
import Cpredict.Lib.Packing
import Cpredict.Lib.Reach
import Cpredict.Types
import Cpredict.Ledger
import Cpredict.Core.Accounts
import Cpredict.Core.Config
import Cpredict.Core.State
import Cpredict.Core.Calls
import Cpredict.Vault.Step
import Cpredict.Vault.Ledger
import Cpredict.Lib.Tally
import Cpredict.Vault.Solvency
import Cpredict.Vault.History
import Cpredict.Core.Effect
import Cpredict.Core.Inversion
import Cpredict.Core.Invariant
import Cpredict.Core.Accounting
import Cpredict.Core.Solvency
import Cpredict.Core.Lifecycle
import Cpredict.Core.BondEscrow
import Cpredict.Book.Calls
import Cpredict.Book.Apart
import Cpredict.Book.Index
import Cpredict.Book.Flow
import Cpredict.Book.Custody
import Cpredict.Book.Release
import Cpredict.Book.Finish
import Cpredict.Book.Trade
import Cpredict.Book.Match
import Cpredict.Book.Entry
import Cpredict.Book.Invariant
import Cpredict.Book.Escrow
import Cpredict.Book.Queues
import Cpredict.Book.History
import Cpredict.Book.Policy
import Cpredict.Book.Exit
import Cpredict.Lib.Abi
import Cpredict.Session.Policy
import Cpredict.Session.Budget
import Cpredict.Lib.Quota
import Cpredict.Paymaster.State
import Cpredict.Paymaster.Budgets
import Cpredict.Indexer.Store
import Cpredict.Indexer.Accepted
import Cpredict.Indexer.EventStore
import Cpredict.Indexer.Derived
import Cpredict.Lib.OrderedMap
import Cpredict.Indexer.Projections
import Cpredict.Indexer.ChainProjections
import Cpredict.Indexer.MemoryStore
import Cpredict.Indexer.PostgresStore
import Cpredict.Indexer.Replay
import Cpredict.Indexer.Rollback
import Cpredict.Lib.BlockTree
import Cpredict.Indexer.Node
import Cpredict.Indexer.Recover
import Cpredict.Indexer.Scan
import Cpredict.Indexer.History
import Cpredict.Indexer.Recovery
import Cpredict.Indexer.Answers
import Cpredict.Indexer.Fence
import Cpredict.Indexer.Logs
import Cpredict.Lib.Program
import Cpredict.Automation.Journal
import Cpredict.Automation.Tick
import Cpredict.Automation.Change
import Cpredict.Automation.Invariant
import Cpredict.Automation.Lane
import Cpredict.Automation.Runs
import Cpredict.Automation.SignerLane
import Cpredict.Automation.Orphan
import Cpredict.Automation.Cleanup
import Cpredict.Indexer.Orderbook
import Cpredict.Indexer.OrderbookTable
import Cpredict.Indexer.OrderbookRefinement
import Cpredict.Indexer.OrderbookPages
import Cpredict.Lib.Threads
import Cpredict.Operations.Record
import Cpredict.Operations.Builder
import Cpredict.Operations.Chain
import Cpredict.Operations.World
import Cpredict.Operations.Gateway
import Cpredict.Operations.Recovery
import Cpredict.Operations.Register
import Cpredict.Operations.Invariant
import Cpredict.Operations.Responder
import Cpredict.Operations.Submission
import Cpredict.Operations.Finality
import Cpredict.Operations.Cancelled
import Cpredict.Operations.Charges
import Cpredict.Session.Amount
import Cpredict.Operations.Reservation
import Cpredict.Operations.Acceptance
import Cpredict.Vault.Distribution
import Cpredict.Book.Cash
import Cpredict.Book.Progress
import Cpredict.Session.Canonical
import Cpredict.Lib.TypedData
import Cpredict.Paymaster.Sponsorship
import Cpredict.Paymaster.Agreement
import Cpredict.Lib.Reservations
import Cpredict.Paymaster.BudgetStore
import Cpredict.Paymaster.Service
import Cpredict.Paymaster.Issued
import Cpredict.Lib.Coroutine
import Cpredict.Rpc.Pool
import Cpredict.Rpc.Heads
import Cpredict.Rpc.Monotone
import Cpredict.FixedPrice.Calls
import Cpredict.Indexer.BlockSearch
import Cpredict.Profit.Order
import Cpredict.Profit.Leaderboard
import Cpredict.Profit.Cash
import Cpredict.Lib.Collation
import Cpredict.Indexer.Queries
import Cpredict.Indexer.QueryPages
import Cpredict.Operations.Quota
import Cpredict.Operations.QuotaWindow
import Cpredict.Operations.Deposits
import Cpredict.Entitlements.Hydrate
import Cpredict.Entitlements.Payable
import Cpredict.Core.Admission
import Cpredict.FixedPrice.Payment
import Cpredict.FixedPrice.Custody
import Cpredict.FixedPrice.Settlement
import Cpredict.Core.Custodians
import Cpredict.Protocol.Marketplaces
import Cpredict.Protocol.Books
import Cpredict.Core.Frame
import Cpredict.Core.Brake
import Cpredict.Core.Emergency
import Cpredict.Protocol.Exposure
import Cpredict.Protocol.Shares
import Cpredict.Protocol.Fees
import Cpredict.Indexer.Positions
import Cpredict.Financial.Args
import Cpredict.Financial.Facts
import Cpredict.Financial.Shares
import Cpredict.Financial.Balances
import Cpredict.Financial.Reconciliation
import Cpredict.Financial.Identity
