import TransactionLedger.Api.Endpoint
import TransactionLedger.Idempotency.RequestHash
import TransactionLedger.Notification.Processor
import TransactionLedger.Validation.Body

/-!
# The application

`POST /transactions` from the raw request on, the hourly clean-up, the transaction workers
and the notification workers, all on the same stores.  Nest runs the validation pipe behind
the interceptors, so a body that fails it fails inside the handler.
-/

namespace TransactionLedger

open Async Data

/-- `POST /transactions`: the `Idempotency-Key` header and the parsed body. -/
structure HttpPost where
  idempotencyKey : Option String
  body : Body

inductive ApplicationRole : Type where
  | post (p : HttpPost)
  | cleanup
  | transactionWorker (transactionId : String)
  | notificationWorker (jobId : String)

/-- The processes of the application, the identifiers each of them draws, and the libraries
it is built on. -/
structure Application where
  cfg : IdempotencyConfig
  lib : DecimalLib
  cv : ClassValidator
  js : JsonStringify ℚ
  sha256 : JsString → String
  /-- The text that the exception factory of the pipe makes of the errors. -/
  exceptionText : List ValidationError → String
  role : ℕ → ApplicationRole
  recordId : ℕ → String
  recordId_injective : Function.Injective recordId
  transactionId : ℕ → String
  transactionId_injective : Function.Injective transactionId
  notificationId : ℕ → String
  deadLetterId : ℕ → String

namespace TransactionController

/-- The pipe and the route handler, which the interceptor calls as `next.handle()`. -/
def handle (lib : DecimalLib) (cv : ClassValidator)
    (exceptionText : List ValidationError → String) (transactionId : String) (body : Body) :
    Promise Response :=
  match validationPipe cv body with
  | .error errors => throw (.badRequest (exceptionText errors))
  | .ok dto => create lib transactionId dto

theorem handle_foreign (lib : DecimalLib) (cv : ClassValidator)
    (exceptionText : List ValidationError → String) (transactionId : String) (body : Body) :
    (handle lib cv exceptionText transactionId body).Uses Op.Foreign := by
  unfold handle
  cases validationPipe cv body with
  | error errors => trivial
  | ok dto => exact create_foreign lib transactionId dto

end TransactionController

namespace NotificationProcessor

theorem process_foreign (id : String) (job : NotificationJob) :
    (process id job).Uses Op.Foreign := by
  refine Prog.Uses.catchError (Prog.Uses.bind (await_foreign trivial) fun _ ↦ trivial)
    fun error ↦ ?_
  unfold duplicate
  split <;> trivial

theorem onFailed_foreign (id : String) (job : NotificationJob) (error : Err) :
    (onFailed id job error).Uses Op.Foreign := by
  unfold onFailed
  split
  · refine Prog.Uses.bind (await_foreign trivial) fun existing ↦ ?_
    split
    · trivial
    · exact Prog.Uses.bind (await_foreign trivial) fun _ ↦ trivial
  · trivial

theorem attempt_foreign (id deadId : String) (worker : ℕ) (jobId : String) :
    (attempt id deadId worker jobId).Uses Op.Foreign := by
  refine Prog.Uses.bind (await_foreign trivial) fun job ↦ ?_
  refine Prog.Uses.bind (process_foreign id job).settled fun result ↦ ?_
  cases result with
  | ok result => exact await_foreign trivial
  | error error => exact Prog.Uses.bind (await_foreign trivial) fun _ ↦ onFailed_foreign ..

end NotificationProcessor

namespace Application

variable (app : Application)

/-- What the interceptor reads of a request. -/
def request (p : HttpPost) : Request where
  idempotencyKey := p.idempotencyKey
  requestHash := requestHash app.js app.sha256 (some (Json.obj p.body).value)

def handler (i : ℕ) (p : HttpPost) : ForeignPromise Response :=
  ⟨_, TransactionController.handle_foreign app.lib app.cv app.exceptionText
    (app.transactionId i) p.body⟩

def deployedRole (i : ℕ) : Role :=
  match app.role i with
  | .post p => .post ⟨app.request p, app.handler i p⟩
  | .cleanup => .cron
  | .transactionWorker transactionId =>
      .background ⟨_, attempt_foreign app.lib i transactionId⟩
  | .notificationWorker jobId =>
      .background ⟨_, NotificationProcessor.attempt_foreign (app.notificationId i)
        (app.deadLetterId i) i jobId⟩

def deployment : Deployment where
  cfg := app.cfg
  role := app.deployedRole
  recordId := app.recordId
  recordId_injective := app.recordId_injective

/-- Process `i` serves a request with the key. -/
def Carries (key : String) (i : ℕ) : Prop :=
  ∃ p, app.role i = .post p ∧ p.idempotencyKey = some key

/-- Process `i` serves a request whose body the pipe turns into `dto`. -/
def Submitted (i : ℕ) (dto : CreateTransactionDto) : Prop :=
  ∃ p, app.role i = .post p ∧ validationPipe app.cv p.body = .ok dto

theorem Submitted.unique {app : Application} {i : ℕ} {dto dto' : CreateTransactionDto}
    (h : app.Submitted i dto) (h' : app.Submitted i dto') : dto = dto' := by
  obtain ⟨p, hrole, hdto⟩ := h
  obtain ⟨p', hrole', hdto'⟩ := h'
  obtain rfl := ApplicationRole.post.inj (hrole.symm.trans hrole')
  exact Except.ok.inj (hdto.symm.trans hdto')

end Application

/-! ## GET /transactions/:id -/

structure NotFoundException where
  message : String

def TransactionService.findById (id : String) :
    Promise (Except NotFoundException Transaction) := do
  let transaction ← await (.transactionFindUnique id)
  match transaction with
  | none => pure (.error ⟨"Transaction " ++ id ++ " not found"⟩)
  | some transaction => pure (.ok transaction)

end TransactionLedger
