import TransactionLedger.Async.Pool
import TransactionLedger.Stores.Rows

/-!
# The awaited calls

Every call the code awaits, its answer on given stores, and the ways it can
settle.  A call runs, or throws before taking effect, or takes effect and then
throws.  Redis may lose any entry and the clock may advance between any two
calls.  The worker calls stand for BullMQ: it hands a job to a worker, removes
it when the processor returns, and puts it back or gives up when it throws.
-/

namespace TransactionLedger

open Async Data

/-- The errors a failing connection can raise.  The two known request errors of
the model are answers of PostgreSQL, not faults. -/
def Err.isFault : Err → Bool
  | .prisma (.other _) => true
  | .error _ => true
  | _ => false

inductive IdempotencyCheckResult : Type where
  | miss
  | inProgress
  | cached (statusCode : ℕ) (response : Option Json)
  | hashMismatch

/-- What a handler sends: the status code set on the response, and the body. -/
structure Response where
  status : HttpStatus
  body : Json

/-- What a client receives; a replayed response is whatever the stores hold. -/
structure Reply where
  statusCode : ℕ
  body : Option Json

def Response.reply (response : Response) : Reply := ⟨response.status.code, some response.body⟩

/-- The points at which the interceptor learns the outcome of another function. -/
inductive Observation : Type where
  | checked (result : IdempotencyCheckResult)
  | handled (outcome : Except Err Response)

inductive StatusFilter : Type where
  | oneOf (statuses : List TransactionStatus)
  | not (status : TransactionStatus)

def StatusFilter.holds : StatusFilter → TransactionStatus → Bool
  | .oneOf statuses, s => s ∈ statuses
  | .not status, s => s ≠ status

/-- The `update` argument of the upsert. -/
structure NotificationUpdate where
  status : NotificationStatus
  attempts : ℕ
  lastError : Option Err

def NotificationUpdate.apply (update : NotificationUpdate) (row : Notification) :
    Notification :=
  { row with
    status := update.status
    attempts := update.attempts
    lastError := update.lastError }

theorem NotificationUpdate.pair_apply (update : NotificationUpdate) (row : Notification) :
    (update.apply row).pair = row.pair := rfl

inductive Op : Type where
  | redisGet (key : String)
  | redisSet (key : String) (value : RedisText) (ttlSeconds : Option ℕ)
  | redisSetNX (key : String) (value : RedisText) (ttlSeconds : ℕ)
  | redisDel (key : String)
  /-- The key is assumed to fit its `VARCHAR(255)` column; the refusal of a longer one is a
  lost call. -/
  | recordCreate (id key requestHash : String) (expiresAt : ℕ)
  | recordFindUnique (key : String)
  | recordUpdate (key : String) (statusCode : ℕ) (response : Json)
  | recordDelete (key : String)
  | recordDeleteMany (expiresAtLte : ℕ)
  /-- Not an external call: the continuation of an awaited function of the
  service or of the handler receives its outcome. -/
  | observe (o : Observation)
  /-- The scheduler starts the hourly job. -/
  | cronTrigger
  | transactionCreate (data : TransactionData)
  | transactionFindUnique (id : String)
  | transactionUpdate (id : String) (status : TransactionStatus)
  | transactionUpdateMany (id : String) (filter : StatusFilter) (status : TransactionStatus)
  | transactionQueueAdd (data : TransactionJobData)
  | notificationQueueAdd (job : NotificationJob)
  | takeJob (worker : ℕ) (transactionId : String)
  | completeJob (transactionId : String)
  | failJob (worker : ℕ) (transactionId : String)
  /-- `id` is the primary key Prisma draws. -/
  | notificationCreate (id : String) (data : NotificationData)
  | notificationFindUnique (pair : String × NotificationChannel)
  | notificationUpsert (pair : String × NotificationChannel) (id : String)
      (create : NotificationData) (update : NotificationUpdate)
  | takeNotificationJob (worker : ℕ) (jobId : String)
  | completeNotificationJob (jobId : String)
  | failNotificationJob (worker : ℕ) (jobId : String)

@[reducible] def Op.Res : Op → Type
  | .redisGet _ => Option RedisText
  | .redisSet .. => Unit
  | .redisSetNX .. => Bool
  | .redisDel _ => Unit
  | .recordCreate .. => IdempotencyRecord
  | .recordFindUnique _ => Option IdempotencyRecord
  | .recordUpdate .. => IdempotencyRecord
  | .recordDelete _ => IdempotencyRecord
  | .recordDeleteMany _ => ℕ
  | .observe _ => Unit
  | .cronTrigger => Unit
  | .transactionCreate _ => Transaction
  | .transactionFindUnique _ => Option Transaction
  | .transactionUpdate .. => Transaction
  | .transactionUpdateMany .. => ℕ
  | .transactionQueueAdd _ => Unit
  | .notificationQueueAdd _ => Unit
  | .takeJob .. => TransactionJobData
  | .completeJob _ => Unit
  | .failJob .. => Unit
  | .notificationCreate .. => Notification
  | .notificationFindUnique _ => Option NotificationStatus
  | .notificationUpsert .. => Notification
  | .takeNotificationJob .. => NotificationJob
  | .completeNotificationJob _ => Unit
  | .failNotificationJob .. => Unit

abbrev calls : Signature := ⟨Op, Op.Res, Err⟩

abbrev Promise (α : Type) : Type := Prog calls α

def await (op : Op) : Promise op.Res := Prog.call (S := calls) op

/-- Await one call; the instant is what `Date.now()` returns in the code that
follows, up to the next await. -/
def awaitAt (op : Op) : Promise (ℕ × op.Res) := Prog.callAt (S := calls) op

/-- The calls that can fail because Redis or PostgreSQL is unreachable. -/
def Op.faulty : Op → Bool
  | .observe _ => false
  | .cronTrigger => false
  | .takeJob .. => false
  | .completeJob _ => false
  | .failJob .. => false
  | .takeNotificationJob .. => false
  | .completeNotificationJob _ => false
  | .failNotificationJob .. => false
  | _ => true

/-- The calls that neither touch the two idempotency stores nor belong to the
interceptor or the scheduler. -/
def Op.Foreign : Op → Prop
  | .transactionCreate _ => True
  | .transactionFindUnique _ => True
  | .transactionUpdate .. => True
  | .transactionUpdateMany .. => True
  | .transactionQueueAdd _ => True
  | .notificationQueueAdd _ => True
  | .takeJob .. => True
  | .completeJob _ => True
  | .failJob .. => True
  | .notificationCreate .. => True
  | .notificationFindUnique _ => True
  | .notificationUpsert .. => True
  | .takeNotificationJob .. => True
  | .completeNotificationJob _ => True
  | .failNotificationJob .. => True
  | _ => False

/-! ## Answers -/

/-- The attempts a transaction job is given. -/
def TRANSACTION_MAX_ATTEMPTS : ℕ := 3

/-- A failed attempt puts the job back until its attempts are used up. -/
def TransactionJob.failedBy (worker : ℕ) (job : TransactionJob) : TransactionJob where
  data := job.data
  attemptsMade := job.attemptsMade + 1
  state := if job.attemptsMade + 1 < TRANSACTION_MAX_ATTEMPTS then .waiting else .failed worker

theorem TransactionJob.key_failedBy (worker : ℕ) (job : TransactionJob) :
    (job.failedBy worker).key = job.key := rfl

/-- A stalled job goes back to the queue without counting as an attempt. -/
def TransactionJob.stalledBy (worker : ℕ) (job : TransactionJob) : TransactionJob where
  data := job.data
  attemptsMade := job.attemptsMade
  state := if job.state = .active worker then .waiting else job.state

theorem TransactionJob.key_stalledBy (worker : ℕ) (job : TransactionJob) :
    (job.stalledBy worker).key = job.key := rfl

/-- The attempts a notification job is given. -/
def NOTIFICATION_MAX_ATTEMPTS : ℕ := 3

def NotificationJob.failedBy (worker : ℕ) (job : NotificationJob) : NotificationJob :=
  { job with
    attemptsMade := job.attemptsMade + 1
    state := if job.attemptsMade + 1 < NOTIFICATION_MAX_ATTEMPTS then .waiting
      else .failed worker }

theorem NotificationJob.jobId_failedBy (worker : ℕ) (job : NotificationJob) :
    (job.failedBy worker).jobId = job.jobId := rfl

def NotificationJob.stalledBy (worker : ℕ) (job : NotificationJob) : NotificationJob :=
  { job with state := if job.state = .active worker then .waiting else job.state }

theorem NotificationJob.jobId_stalledBy (worker : ℕ) (job : NotificationJob) :
    (job.stalledBy worker).jobId = job.jobId := rfl

namespace World

def redisPut (w : World) (key : String) (value : RedisText) (ttlSeconds : Option ℕ) : World :=
  { w with
    redis := Function.update w.redis key
      (some ⟨value, ttlSeconds.map fun ttl ↦ w.clock + ttl * 1000⟩) }

/-- A notification needs values its columns accept, no other row for its pair, and
the transaction its foreign key names. -/
def insertNotification (w : World) (id : String) (data : NotificationData) :
    Except Err Notification × World :=
  match data.row id with
  | none => (.error (.error "Invalid value provided"), w)
  | some row =>
      match w.notifications.insert row with
      | none => (.error (.prisma .p2002), w)
      | some t =>
          match w.transactions.lookup data.transactionId with
          | none => (.error (.prisma (.other "P2003")), w)
          | some _ => (.ok row, { w with notifications := t })

/-- The answer of a call that runs undisturbed, and the stores it leaves. -/
def answer (w : World) : (op : Op) → Except Err op.Res × World
  | .redisGet key => (.ok (w.redisGet key), w)
  | .redisSet key value ttlSeconds => (.ok (), w.redisPut key value ttlSeconds)
  | .redisSetNX key value ttlSeconds =>
      match w.redisGet key with
      | some _ => (.ok false, w)
      | none => (.ok true, w.redisPut key value (some ttlSeconds))
  | .redisDel key => (.ok (), { w with redis := Function.update w.redis key none })
  | .recordCreate id key requestHash expiresAt =>
      let row : IdempotencyRecord := ⟨id, key, requestHash, none, none, expiresAt⟩
      match w.idempotencyRecords.insert row with
      | none => (.error (.prisma .p2002), w)
      | some t => (.ok row, { w with idempotencyRecords := t })
  | .recordFindUnique key => (.ok (w.idempotencyRecords.lookup key), w)
  | .recordUpdate key statusCode response =>
      match w.idempotencyRecords.lookup key with
      | none => (.error (.prisma .p2025), w)
      | some row =>
          (.ok { row with statusCode := some statusCode, response := some response },
            { w with
              idempotencyRecords := w.idempotencyRecords.modify key
                (fun r ↦ { r with statusCode := some statusCode, response := some response })
                fun _ ↦ rfl })
  | .recordDelete key =>
      match w.idempotencyRecords.lookup key with
      | none => (.error (.prisma .p2025), w)
      | some row =>
          (.ok row, { w with idempotencyRecords := w.idempotencyRecords.delete key })
  | .recordDeleteMany expiresAtLte =>
      (.ok (w.idempotencyRecords.count fun r ↦ r.expiresAt ≤ expiresAtLte),
        { w with
          idempotencyRecords :=
            w.idempotencyRecords.filter fun r ↦ ¬r.expiresAt ≤ expiresAtLte })
  | .observe _ => (.ok (), w)
  | .cronTrigger => (.ok (), w)
  | .transactionCreate data =>
      match data.row with
      | none => (.error (.error "Invalid value provided"), w)
      | some row =>
          match w.transactions.insert row with
          | none => (.error (.prisma .p2002), w)
          | some t => (.ok row, { w with transactions := t })
  | .transactionFindUnique id => (.ok (w.transactions.lookup id), w)
  | .transactionUpdate id status =>
      match w.transactions.lookup id with
      | none => (.error (.prisma .p2025), w)
      | some row =>
          (.ok { row with status := status },
            { w with
              transactions := w.transactions.modify id
                (fun r ↦ { r with status := status }) fun _ ↦ rfl })
  | .transactionUpdateMany id filter status =>
      (.ok (w.transactions.count fun r ↦ r.id = id ∧ filter.holds r.status),
        { w with
          transactions := w.transactions.updateWhere (fun r ↦ r.id = id ∧ filter.holds r.status)
            (fun r ↦ { r with status := status }) fun _ ↦ rfl })
  | .transactionQueueAdd data =>
      match w.transactionQueue.insert ⟨data, 0, .waiting⟩ with
      | none => (.ok (), w)
      | some t => (.ok (), { w with transactionQueue := t })
  | .notificationQueueAdd job =>
      -- BullMQ keeps the job it already has under this id
      match w.notificationQueue.insert job with
      | none => (.ok (), w)
      | some t => (.ok (), { w with notificationQueue := t })
  | .takeJob worker transactionId =>
      match w.transactionQueue.lookup transactionId with
      | none => (.error (.error "Missing key for job"), w)
      | some job =>
          (.ok job.data, { w with
            transactionQueue := w.transactionQueue.modify transactionId
              (fun j ↦ { j with state := .active worker }) fun _ ↦ rfl })
  | .completeJob transactionId =>
      (.ok (), { w with transactionQueue := w.transactionQueue.delete transactionId })
  | .failJob worker transactionId =>
      (.ok (), { w with
        transactionQueue := w.transactionQueue.modify transactionId
          (TransactionJob.failedBy worker) (TransactionJob.key_failedBy worker) })
  | .notificationCreate id data => w.insertNotification id data
  | .notificationFindUnique pair => (.ok ((w.notifications.lookup pair).map (·.status)), w)
  | .notificationUpsert pair id create update =>
      match w.notifications.lookup pair with
      | none => w.insertNotification id create
      | some row =>
          -- the values of the insertion are checked in either case
          match create.row id with
          | none => (.error (.error "Invalid value provided"), w)
          | some _ =>
              (.ok (update.apply row), { w with
                notifications := w.notifications.modify pair update.apply update.pair_apply })
  | .takeNotificationJob worker jobId =>
      match w.notificationQueue.lookup jobId with
      | none => (.error (.error "Missing key for job"), w)
      | some job =>
          (.ok job, { w with
            notificationQueue := w.notificationQueue.modify jobId
              (fun j ↦ { j with state := .active worker }) fun _ ↦ rfl })
  | .completeNotificationJob jobId =>
      (.ok (), { w with notificationQueue := w.notificationQueue.delete jobId })
  | .failNotificationJob worker jobId =>
      (.ok (), { w with
        notificationQueue := w.notificationQueue.modify jobId
          (NotificationJob.failedBy worker) (NotificationJob.jobId_failedBy worker) })

/-! ## Settling -/

end World

/-- How BullMQ hands out a job: only when it waits, or again at any time, as
after a lost lock or a manual retry. -/
inductive Delivery : Type where
  | exclusive
  | repeated
  deriving DecidableEq

namespace World

/-- A worker gets no job until the queue has one for it. -/
def blocked (d : Delivery) (w : World) : Op → Bool
  | .takeJob _ transactionId =>
      match w.transactionQueue.lookup transactionId with
      | none => true
      | some job => d = .exclusive ∧ job.state ≠ .waiting
  | .takeNotificationJob _ jobId =>
      match w.notificationQueue.lookup jobId with
      | none => true
      | some job => d = .exclusive ∧ job.state ≠ .waiting
  | _ => false

end World

/-- The ways a call settles. -/
inductive Fate : Type where
  | run
  /-- It throws without having taken effect. -/
  | lost (e : Err)
  /-- It takes effect, then throws. -/
  | torn (e : Err)

inductive Drift : Type where
  | tick (ms : ℕ)
  | loseRedisKey (key : String)

namespace World

def settle (d : Delivery) (f : Fate) (w : World) (op : Op) :
    Option (Except Err op.Res × World) :=
  match f with
  | .run => if w.blocked d op then none else some (w.answer op)
  | .lost e => if op.faulty ∧ e.isFault then some (.error e, w) else none
  | .torn e => if op.faulty ∧ e.isFault then some (.error e, (w.answer op).2) else none

/-- Redis may lose the entry of a key.  The queues are assumed durable: neither a job nor
its state is ever lost. -/
def drift (w : World) : Drift → World
  | .tick ms => { w with clock := w.clock + ms }
  | .loseRedisKey key => { w with redis := Function.update w.redis key none }

/-- When a worker crashes, the job it was running becomes available again. -/
def crash (i : ℕ) (w : World) : World :=
  { w with
    transactionQueue := w.transactionQueue.updateWhere (fun _ ↦ true)
      (TransactionJob.stalledBy i) (TransactionJob.key_stalledBy i)
    notificationQueue := w.notificationQueue.updateWhere (fun _ ↦ true)
      (NotificationJob.stalledBy i) (NotificationJob.jobId_stalledBy i) }

end World

def ledger (d : Delivery) : Machine calls World ℕ where
  Fate := Fate
  Drift := Drift
  clock := World.clock
  settle := World.settle d
  drift dr w := some (w.drift dr)
  crash := World.crash

end TransactionLedger
