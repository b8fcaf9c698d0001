import Paynad.Library.Transition
import Paynad.Payments.Protocol.LedgerStory
import Paynad.Payments.Protocol.Declined
import Paynad.Payments.Protocol.LostDebit
import Paynad.Payments.Protocol.StaleAggregates
import Paynad.Accounts.Protocol.Replay
import Paynad.Library.Running
import Paynad.Payments.Protocol.IdempotentInitiation
import Paynad.Payments.Protocol.RelaySafety
import Paynad.Payments.Protocol.Classification
import Paynad.Payments.Presentation.InitiatePaymentRequest
import Paynad.Accounts.Wallets.WalletsController
import Paynad.Payments.Protocol.LedgerEvents
import Paynad.Transactions.Pipeline
import Paynad.Payments.Protocol.OneTreatment
import Paynad.Payments.Protocol.OverlappingCalls
import Paynad.Payments.Protocol.Fingerprint
import Paynad.Payments.Protocol.FailedOperations
import Paynad.Accounts.Protocol.ExactBalances
import Paynad.Accounts.Protocol.AmountStep
import Paynad.Transactions.HistoryWalk
import Paynad.Shared.Throttler
import Paynad.Payments.Protocol.ReferenceOrder
import Paynad.Payments.Protocol.SavedPayments
import Paynad.Payments.Protocol.RecoveryOutcome
import Paynad.Payments.Protocol.BoundedWork
import Paynad.Deployment.Calls
import Paynad.Deployment.WalletBalances
import Paynad.Deployment.Statements
import Paynad.Payments.Protocol.RelayDrain
import Paynad.Payments.Protocol.ReconciliationQueue
