import HunterFi.Runs
import HunterFi.Sequences
import HunterFi.Account
import HunterFi.State
import HunterFi.Payment
import HunterFi.Deployment
import HunterFi.Upgrade
import HunterFi.Api
import HunterFi.System
import HunterFi.LedgerReplies
import HunterFi.Books
import HunterFi.Lifecycle
import HunterFi.Segments
import HunterFi.Archiving
import HunterFi.Deployments
import HunterFi.Refunds
import HunterFi.EndToEnd
import HunterFi.DeploymentIds
import HunterFi.Failures
import HunterFi.Audit
import HunterFi.Persistence
import HunterFi.TransactionHistory
import HunterFi.Money
import HunterFi.Withdrawals
import HunterFi.Deposits
import HunterFi.Solvency
import HunterFi.Updates
import HunterFi.Personal
import HunterFi.Phases
import HunterFi.Fees
import HunterFi.Admins
import HunterFi.Registry
import HunterFi.Queries
import HunterFi.Timers
import HunterFi.Binary64
import HunterFi.Async
import HunterFi.Protocols
import HunterFi.Icpswap
import HunterFi.Workflow
import HunterFi.Custody
import HunterFi.Slippage
import HunterFi.Offers
import HunterFi.Split
import HunterFi.SelfHedging
import HunterFi.Hedge
import HunterFi.BuyBack
import HunterFi.Orders
import HunterFi.Strategy
import HunterFi.Ownership
import HunterFi.Launch
import HunterFi.Unfold
import HunterFi.Handlers
import HunterFi.History
import HunterFi.Effects
import HunterFi.Schedule
import HunterFi.Executions
import HunterFi.Pacing
import HunterFi.Trading
import HunterFi.TokenOrder
import HunterFi.Volume
import HunterFi.Validity
import HunterFi.Moves
import HunterFi.Control
import HunterFi.Course
import HunterFi.Conversations
import HunterFi.Dealings
import HunterFi.Purse
import HunterFi.Rounds
import HunterFi.Subaccounts
import HunterFi.Pools
