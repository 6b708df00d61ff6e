import TransactionLedger.Async.Prog
import TransactionLedger.Async.Pool
import TransactionLedger.Async.Simulation
import TransactionLedger.Async.Trace
import TransactionLedger.Async.Rely
import TransactionLedger.Async.Lone
import TransactionLedger.Data.Table
import TransactionLedger.Data.Delimited
import TransactionLedger.Data.JsonValue
import TransactionLedger.Data.Pattern
import TransactionLedger.Data.Decimal
import TransactionLedger.Data.DecimalPrinter
import TransactionLedger.Data.Paging
import TransactionLedger.Data.Growing
import TransactionLedger.Stores.Rows
import TransactionLedger.Stores.Calls
import TransactionLedger.Idempotency.Service
import TransactionLedger.Idempotency.Conflict
import TransactionLedger.Idempotency.SelfHealing
import TransactionLedger.Idempotency.Agreement
import TransactionLedger.Idempotency.Expiry
import TransactionLedger.Idempotency.RequestHash
import TransactionLedger.Idempotency.Usage
import TransactionLedger.Idempotency.Alone
import TransactionLedger.Idempotency.Recovery
import TransactionLedger.Idempotency.Memo
import TransactionLedger.Idempotency.Replies
import TransactionLedger.Transaction.Creation
import TransactionLedger.Transaction.Notified
import TransactionLedger.Validation.Amount
import TransactionLedger.Validation.Body
import TransactionLedger.Validation.Grammar
import TransactionLedger.Validation.Query
import TransactionLedger.Transaction.Payload
import TransactionLedger.Transaction.Recipient
import TransactionLedger.Transaction.Accounts
import TransactionLedger.Notification.Acknowledgement
import TransactionLedger.Notification.Outcome
import TransactionLedger.Api.Endpoint
import TransactionLedger.Api.SingleEffect
import TransactionLedger.Api.Listing
import TransactionLedger.Api.Partition
import TransactionLedger.Api.Application
import TransactionLedger.Ledger.Book
import TransactionLedger.Ledger.Entries
import TransactionLedger.Ledger.Origins
import TransactionLedger.Ledger.Discipline
import TransactionLedger.Ledger.Safety
import TransactionLedger.Ledger.Workers
import TransactionLedger.Ledger.Runs
import TransactionLedger.Ledger.Columns
import TransactionLedger.Ledger.Progress
import TransactionLedger.Ledger.Reading
import TransactionLedger.Ledger.Lookup
