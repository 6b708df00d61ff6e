import TransactionLedger.Stores.Calls

/-!
# Delivering a notification

`src/notification/notification.processor.ts`, and what a BullMQ worker does
around one run of it.  The sending itself is simulated by log lines in the
source; the row is the record of it.
-/

namespace TransactionLedger

open Async

/-- The columns of the unique index that a job writes. -/
abbrev NotificationJob.pair (job : NotificationJob) : String × NotificationChannel :=
  (job.transactionId, job.channel)

/-- What `process` returns. -/
inductive ProcessedNotification : Type where
  | delivered (notificationId : String)
  | alreadyDelivered (transactionId : String)

namespace NotificationProcessor

/-- The argument of `notification.create` in `process`. -/
def delivery (job : NotificationJob) : NotificationData where
  transactionId := job.transactionId
  channel := job.channel
  status := .delivered
  recipient := job.recipient
  payload := job.payload
  attempts := job.attemptsMade + 1
  lastError := none

/-- The `catch` of `process`. -/
def duplicate (job : NotificationJob) (error : Err) : Promise ProcessedNotification :=
  if error = .prisma .p2002 then pure (.alreadyDelivered job.transactionId)
  else throw error

/-- `id` is the primary key Prisma draws for the row this call may insert. -/
def process (id : String) (job : NotificationJob) : Promise ProcessedNotification :=
  tryCatch
    (do
      let notification ← await (.notificationCreate id (delivery job))
      pure (.delivered notification.id))
    (duplicate job)

/-- The `create` branch of the upsert. -/
def deadLetter (job : NotificationJob) (error : Err) : NotificationData where
  transactionId := job.transactionId
  channel := job.channel
  status := .deadLetter
  recipient := job.recipient
  payload := job.payload
  attempts := job.attemptsMade
  lastError := some error

/-- The `update` branch of the upsert. -/
def deadLetterUpdate (job : NotificationJob) (error : Err) : NotificationUpdate where
  status := .deadLetter
  attempts := job.attemptsMade
  lastError := some error

/-- The dead-letter upsert; the source does not filter on the status. -/
def bury (id : String) (job : NotificationJob) (error : Err) : Promise Unit := do
  let _ ← await
    (.notificationUpsert job.pair id (deadLetter job error) (deadLetterUpdate job error))

/-- The part of `onFailed` that the last attempt reaches. -/
def moveToDeadLetter (id : String) (job : NotificationJob) (error : Err) : Promise Unit := do
  let existing ← await (.notificationFindUnique job.pair)
  if existing = some .delivered then pure () else bury id job error

def onFailed (id : String) (job : NotificationJob) (error : Err) : Promise Unit :=
  if NOTIFICATION_MAX_ATTEMPTS ≤ job.attemptsMade then moveToDeadLetter id job error
  else pure ()

/-! ## The worker -/

/-- The job object that the `failed` event carries. -/
def failed (job : NotificationJob) : NotificationJob :=
  { job with attemptsMade := job.attemptsMade + 1 }

/-- BullMQ after `process` has settled: acknowledge the job, or count the attempt and
emit `failed`. -/
def finish (id : String) (worker : ℕ) (job : NotificationJob) :
    Except Err ProcessedNotification → Promise Unit
  | .ok _ => await (.completeNotificationJob job.jobId)
  | .error error => do
      await (.failNotificationJob worker job.jobId)
      onFailed id (failed job) error

/-- One attempt at a notification job. -/
def attempt (id deadId : String) (worker : ℕ) (jobId : String) : Promise Unit := do
  let job ← await (.takeNotificationJob worker jobId)
  let result ← (process id job).settled
  finish deadId worker job result

end NotificationProcessor

end TransactionLedger
