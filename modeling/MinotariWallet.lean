import MinotariWallet.Lib.Journal
import MinotariWallet.Ledger.SpendStatus
import MinotariWallet.Ledger.Conservation
import MinotariWallet.Transactions.HandedOut
import MinotariWallet.Transactions.OnePayment
import MinotariWallet.Transactions.Stranded
import MinotariWallet.Scan.Maintenance
import MinotariWallet.Scan.Credited
import MinotariWallet.Scan.EndOfStream
import MinotariWallet.Scan.Resume
import MinotariWallet.Scan.PartialRollback
import MinotariWallet.Scan.Announced
import MinotariWallet.Ledger.ConfirmedOnce
import MinotariWallet.Ledger.Available
import MinotariWallet.Transactions.Coherent
import MinotariWallet.Transactions.Idempotent
import MinotariWallet.Displayed.Columns
import MinotariWallet.Displayed.Resumed
import MinotariWallet.Displayed.Overflow
import MinotariWallet.Displayed.Replay
import MinotariWallet.Scan.BoundedScan
import MinotariWallet.Scan.Detection
import MinotariWallet.Scan.PrunedTips
import MinotariWallet.Scan.Orphans
import MinotariWallet.Transactions.FeeEstimator
import MinotariWallet.Transactions.Classified
import MinotariWallet.Displayed.Status
import MinotariWallet.Webhooks.Worker
import MinotariWallet.Db.Upgrades
import MinotariWallet.Db.DeleteAccount
import MinotariWallet.Api.Pagination
import MinotariWallet.Burns.ProofWorker
import MinotariWallet.Burns.Recorded
import MinotariWallet.Burns.Submission
import MinotariWallet.Displayed.Remined
import MinotariWallet.Lib.Retains
import MinotariWallet.Lib.Owners
import MinotariWallet.Lib.CoinChain
import MinotariWallet.Lib.Changelog
import MinotariWallet.Transactions.AppendOnly
import MinotariWallet.Ledger.Accounts
import MinotariWallet.Transactions.Accounts
import MinotariWallet.Ledger.Chain
import MinotariWallet.Transactions.Replayed
import MinotariWallet.Api.Payrefs
import MinotariWallet.Scan.Logged
import MinotariWallet.Transactions.EventLog
import MinotariWallet.Scan.Progress
import MinotariWallet.Webhooks.Outbox
