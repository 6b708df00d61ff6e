import Mathlib.Data.Rat.Defs
import Mathlib.Data.Nat.Notation
import TransactionLedger.Data.Table

/-!
# Rows, queue jobs and cached values

The data of `prisma/schema.prisma`, of the two BullMQ queues and of the Redis
entries of the idempotency service, and the errors the code throws or catches.
Instants are milliseconds since the epoch.
-/

namespace TransactionLedger

open Data

/-- A JSON document; numbers are kept by value. -/
inductive Json : Type where
  | null
  | bool (b : Bool)
  | num (q : ℚ)
  | str (s : String)
  | arr (items : List Json)
  | obj (members : List (String × Json))

/-- `Boolean(value)` of a value that came out of JSON. -/
def Json.truthy : Json → Bool
  | .null => false
  | .bool b => b
  | .num q => q ≠ 0
  | .str s => s ≠ ""
  | .arr _ => true
  | .obj _ => true

/-- The status code of an HTTP response; Node refuses to send any other. -/
structure HttpStatus where
  code : ℕ
  valid : 100 ≤ code ∧ code ≤ 999
  deriving DecidableEq

/-- A nullable status code that passes `if (statusCode)`. -/
def truthyCode : Option ℕ → Option ℕ
  | none => none
  | some 0 => none
  | some (n + 1) => some (n + 1)

theorem HttpStatus.truthyCode_code (s : HttpStatus) : truthyCode (some s.code) = some s.code := by
  obtain ⟨code, hlow, _⟩ := s
  cases code with
  | zero => omega
  | succ n => rfl

theorem truthyCode_eq {statusCode : Option ℕ} {n : ℕ} (h : truthyCode statusCode = some n) :
    statusCode = some n := by
  rcases statusCode with _ | _ | m
  · cases h
  · cases h
  · exact h

/-! ## Errors -/

inductive PrismaCode : Type where
  | p2002 | p2025
  | other (code : String)
  deriving DecidableEq

inductive Err : Type where
  /-- `Prisma.PrismaClientKnownRequestError` with its `code`. -/
  | prisma (code : PrismaCode)
  | error (message : String)
  | badRequest (message : String)
  | conflict (message : String)
  | unprocessableEntity (message : String)
  deriving DecidableEq

/-! ## Transactions -/

inductive TransactionType : Type where
  | deposit | withdrawal | transfer | refund
  deriving DecidableEq

inductive TransactionStatus : Type where
  | queued | processing | completed | failed
  deriving DecidableEq

def TransactionStatus.text : TransactionStatus → String
  | .queued => "QUEUED"
  | .processing => "PROCESSING"
  | .completed => "COMPLETED"
  | .failed => "FAILED"

/-- The request body of `POST /transactions`.  An account that its type does not
require is not validated, so it may hold any JSON value. -/
structure CreateTransactionDto where
  type : TransactionType
  amount : String
  currency : String
  fromAccount : Option Json
  toAccount : Option Json
  metadata : Option Json

structure Transaction where
  id : String
  type : TransactionType
  status : TransactionStatus
  amount : ℚ
  currency : String
  fromAccount : Option String
  toAccount : Option String
  metadata : Option Json

/-- The argument of `transaction.create`. -/
structure TransactionData where
  id : String
  type : TransactionType
  status : TransactionStatus
  amount : ℚ
  currency : String
  fromAccount : Option Json
  toAccount : Option Json
  metadata : Option Json

/-- A nullable `VARCHAR(255)` column accepts an absent value, `null`, or a short
enough string.  Two cases are left to assumptions: PostgreSQL refuses U+0000, which is here
a lost call, and cuts off blanks beyond the 255th character, where this refuses the string. -/
def accountColumn : Option Json → Option (Option String)
  | none => some none
  | some .null => some none
  | some (.str s) => if s.length ≤ 255 then some (some s) else none
  | some _ => none

/-- The row that `transaction.create` stores, if every column accepts its value. -/
def TransactionData.row (data : TransactionData) : Option Transaction := do
  let fromAccount ← accountColumn data.fromAccount
  let toAccount ← accountColumn data.toAccount
  if data.currency.length ≤ 10 then
    some { id := data.id, type := data.type, status := data.status, amount := data.amount,
           currency := data.currency, fromAccount := fromAccount, toAccount := toAccount,
           metadata := data.metadata }
  else none

/-- What a stored row has taken over, and what its columns have accepted. -/
theorem TransactionData.of_row {data : TransactionData} {row : Transaction}
    (h : data.row = some row) :
    row.id = data.id ∧ row.status = data.status ∧ row.amount = data.amount ∧
      accountColumn data.fromAccount = some row.fromAccount ∧
        accountColumn data.toAccount = some row.toAccount := by
  simp only [TransactionData.row, Option.bind_eq_bind, Option.bind_eq_some_iff] at h
  obtain ⟨fromAccount, hfrom, toAccount, hto, h⟩ := h
  split at h
  · obtain rfl := Option.some.inj h
    exact ⟨rfl, rfl, rfl, hfrom, hto⟩
  · cases h

/-- Prisma's decimal type is a library of its own: it reads a decimal string
and prints a number. -/
structure DecimalLib where
  ofString : String → Option ℚ
  toString : ℚ → String

/-! ## Idempotency -/

structure IdempotencyRecord where
  id : String
  key : String
  requestHash : String
  statusCode : Option ℕ
  response : Option Json
  expiresAt : ℕ

/-- What the service serialises into Redis. -/
structure IdempotencyData where
  requestHash : String
  statusCode : Option ℕ
  response : Option Json

/-- A Redis string: the JSON text of some idempotency data, or a text that
`JSON.parse` rejects. -/
inductive RedisText : Type where
  | json (data : IdempotencyData)
  | other (raw : String)

/-- A string is falsy when it is empty. -/
def RedisText.truthy : RedisText → Bool
  | .json _ => true
  | .other raw => raw ≠ ""

structure RedisEntry where
  value : RedisText
  expiresAt : Option ℕ

def RedisEntry.live (e : RedisEntry) (now : ℕ) : Bool :=
  match e.expiresAt with
  | none => true
  | some t => now < t

/-! ## Queue jobs -/

/-- The data of a transaction job: `{ transactionId, ...dto }`. -/
structure TransactionJobData where
  transactionId : String
  dto : CreateTransactionDto

inductive JobState : Type where
  | waiting
  | active (worker : ℕ)
  | failed (worker : ℕ)
  deriving DecidableEq

structure TransactionJob where
  data : TransactionJobData
  attemptsMade : ℕ
  state : JobState

abbrev TransactionJob.key (job : TransactionJob) : String := job.data.transactionId

inductive NotificationChannel : Type where
  | email | sms | push | webhook
  deriving DecidableEq

structure NotificationPayload where
  type : TransactionType
  amount : String
  currency : String

structure NotificationJob where
  name : String
  transactionId : String
  channel : NotificationChannel
  recipient : Json
  payload : NotificationPayload
  jobId : String
  attemptsMade : ℕ := 0
  state : JobState := .waiting

/-! ## Notifications -/

inductive NotificationStatus : Type where
  | pending | processing | delivered | failed | deadLetter
  deriving DecidableEq

/-- `lastError` keeps the error whose message the column holds. -/
structure Notification where
  id : String
  transactionId : String
  channel : NotificationChannel
  status : NotificationStatus
  recipient : String
  payload : NotificationPayload
  attempts : ℕ
  lastError : Option Err

/-- The columns of the unique index. -/
abbrev Notification.pair (row : Notification) : String × NotificationChannel :=
  (row.transactionId, row.channel)

/-- The argument of `notification.create`. -/
structure NotificationData where
  transactionId : String
  channel : NotificationChannel
  status : NotificationStatus
  recipient : Json
  payload : NotificationPayload
  attempts : ℕ
  lastError : Option Err

/-- A `VARCHAR(255)` column that is not nullable, with the restrictions of `accountColumn`. -/
def recipientColumn : Json → Option String
  | .str s => if s.length ≤ 255 then some s else none
  | _ => none

/-- The row that `notification.create` stores, if every column accepts its value. -/
def NotificationData.row (id : String) (data : NotificationData) :
    Option Notification :=
  (recipientColumn data.recipient).map fun recipient ↦
    { id := id, transactionId := data.transactionId, channel := data.channel,
      status := data.status, recipient := recipient, payload := data.payload,
      attempts := data.attempts, lastError := data.lastError }

/-! ## The stores -/

structure World where
  clock : ℕ
  redis : String → Option RedisEntry
  idempotencyRecords : Table IdempotencyRecord.key
  transactions : Table Transaction.id
  notifications : Table Notification.pair
  transactionQueue : Table TransactionJob.key
  notificationQueue : Table NotificationJob.jobId

/-- Empty stores at a given instant. -/
def World.initial (clock : ℕ) : World where
  clock := clock
  redis _ := none
  idempotencyRecords := .empty
  transactions := .empty
  notifications := .empty
  transactionQueue := .empty
  notificationQueue := .empty

/-- What a Redis `GET` finds: entries past their time to live are gone. -/
def World.redisGet (w : World) (key : String) : Option RedisText :=
  match w.redis key with
  | none => none
  | some e => if e.live w.clock then some e.value else none

end TransactionLedger
