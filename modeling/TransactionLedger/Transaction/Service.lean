import TransactionLedger.Stores.Calls

/-!
# Creating and processing a transaction

`src/transaction/transaction.service.ts` and
`src/transaction/transaction.processor.ts`, and what a BullMQ worker does around
one run of the processor.
-/

namespace TransactionLedger

open Async

/-! ## TransactionService -/

/-- What `createTransaction` returns. -/
structure CreatedTransaction where
  id : String
  status : TransactionStatus

namespace TransactionService

/-- `dto.metadata ?? undefined`. -/
def metadata (dto : CreateTransactionDto) : Option Json :=
  match dto.metadata with
  | some .null => none
  | m => m

/-- The argument of `transaction.create`. -/
def newTransaction (transactionId : String) (dto : CreateTransactionDto) (amount : ℚ) :
    TransactionData where
  id := transactionId
  type := dto.type
  status := .queued
  amount := amount
  currency := dto.currency
  fromAccount := dto.fromAccount
  toAccount := dto.toAccount
  metadata := metadata dto

/-- The `catch` around the enqueuing. -/
def enqueueFailed (transactionId : String) (error : Err) : Promise Unit := do
  let _ ← await (.transactionUpdate transactionId .failed)
  throw error

/-- The part of `createTransaction` after the row has been inserted. -/
def enqueue (transactionId : String) (dto : CreateTransactionDto)
    (transaction : Transaction) : Promise CreatedTransaction := do
  tryCatch (await (.transactionQueueAdd ⟨transactionId, dto⟩)) (enqueueFailed transactionId)
  pure ⟨transaction.id, transaction.status⟩

/-- `transactionId` is what `randomUUID()` returns.  An amount that is no decimal
makes the constructor of `Prisma.Decimal` throw. -/
def createTransaction (lib : DecimalLib) (transactionId : String)
    (dto : CreateTransactionDto) : Promise CreatedTransaction :=
  match lib.ofString dto.amount with
  | none => throw (.error ("[DecimalError] Invalid argument: " ++ dto.amount))
  | some amount => do
      let transaction ← await (.transactionCreate (newTransaction transactionId dto amount))
      enqueue transactionId dto transaction

end TransactionService

/-! ## TransactionProcessor -/

namespace TransactionProcessor

variable (lib : DecimalLib)

/-- `fromAccount ?? toAccount`. -/
def recipient (fromAccount toAccount : Option Json) : Option Json :=
  match fromAccount with
  | none => toAccount
  | some .null => toAccount
  | some account => some account

def notificationJobId (transactionId : String) : String := "notif-" ++ transactionId

theorem notificationJobId_injective {id id' : String}
    (h : notificationJobId id = notificationJobId id') : id = id' := by
  simpa [notificationJobId] using h

/-- The notification of a transaction, when there is somebody to notify. -/
def notificationFor (transaction : Transaction) (fromAccount toAccount : Option Json) :
    Option NotificationJob :=
  match recipient fromAccount toAccount with
  | none => none
  | some account =>
      if account.truthy then
        some { name := "send-notification"
               transactionId := transaction.id
               channel := .email
               recipient := account
               payload := { type := transaction.type
                            amount := lib.toString transaction.amount
                            currency := transaction.currency }
               jobId := notificationJobId transaction.id }
      else none

def enqueueNotification (transaction : Transaction) (fromAccount toAccount : Option Json) :
    Promise Unit :=
  match notificationFor lib transaction fromAccount toAccount with
  | none => pure ()
  | some job => await (.notificationQueueAdd job)

/-- The part of `process` from the guarded update on. -/
def processRetryable (job : TransactionJobData) (existing : Transaction) :
    Promise (Option Transaction) := do
  let count ← await
    (.transactionUpdateMany job.transactionId (.oneOf [.queued, .failed]) .processing)
  if count = 0 then pure (some existing)
  else do
    let transaction ← await (.transactionUpdate job.transactionId .completed)
    enqueueNotification lib transaction job.dto.fromAccount job.dto.toAccount
    pure (some transaction)

def process (job : TransactionJobData) : Promise (Option Transaction) := do
  let existing ← await (.transactionFindUnique job.transactionId)
  match existing with
  | none => pure none
  | some existing =>
      if existing.status = .completed then do
        enqueueNotification lib existing job.dto.fromAccount job.dto.toAccount
        pure (some existing)
      else processRetryable lib job existing

def onFailed (job : TransactionJobData) : Promise Unit :=
  tryCatch
    (do let _ ← await (.transactionUpdateMany job.transactionId (.not .completed) .failed))
    fun _ ↦ pure ()

/-! ## The worker -/

/-- BullMQ after `process` has settled: acknowledge the job, or fail it and emit
`failed`. -/
def finish (worker : ℕ) (job : TransactionJobData) :
    Except Err (Option Transaction) → Promise Unit
  | .ok _ => await (.completeJob job.transactionId)
  | .error _ => do
      await (.failJob worker job.transactionId)
      onFailed job

/-- One attempt at the job of a transaction. -/
def attempt (worker : ℕ) (transactionId : String) : Promise Unit := do
  let job ← await (.takeJob worker transactionId)
  let result ← (process lib job).settled
  finish worker job result

end TransactionProcessor

end TransactionLedger
