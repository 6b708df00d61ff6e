import TransactionLedger.Idempotency.Admission
import TransactionLedger.Transaction.Creation

/-!
# `POST /transactions`

The interceptor around `TransactionController.create`, beside the workers and the
hourly clean-up: a deployment whose handlers are calls of `createTransaction`.  The
bodies are those the validation pipe has let through.
-/

namespace TransactionLedger

open Async TransactionService TransactionProcessor

def CreatedTransaction.json (transaction : CreatedTransaction) : Json :=
  .obj [("id", .str transaction.id), ("status", .str transaction.status.text)]

/-- `@HttpCode(HttpStatus.ACCEPTED)`. -/
def CreatedTransaction.accepted (transaction : CreatedTransaction) : Response where
  status := ⟨202, by decide⟩
  body := transaction.json

namespace TransactionController

def respond (p : Promise CreatedTransaction) : Promise Response := do
  let transaction ← p
  pure transaction.accepted

def create (lib : DecimalLib) (transactionId : String) (dto : CreateTransactionDto) :
    Promise Response :=
  respond (createTransaction lib transactionId dto)

end TransactionController

/-! ## Programs that leave the idempotency stores alone -/

theorem await_foreign {op : Op} (h : op.Foreign) : (await op).Uses Op.Foreign :=
  ⟨h, fun _ _ ↦ trivial⟩

theorem createTransaction_foreign (lib : DecimalLib) (transactionId : String)
    (dto : CreateTransactionDto) :
    (createTransaction lib transactionId dto).Uses Op.Foreign := by
  unfold createTransaction
  cases lib.ofString dto.amount with
  | none => trivial
  | some amount =>
      refine Prog.Uses.bind (await_foreign trivial) fun transaction ↦ ?_
      refine Prog.Uses.bind (Prog.Uses.catchError (await_foreign trivial) fun error ↦ ?_)
        fun _ ↦ trivial
      exact Prog.Uses.bind (await_foreign trivial) fun _ ↦ trivial

theorem create_foreign (lib : DecimalLib) (transactionId : String)
    (dto : CreateTransactionDto) :
    (TransactionController.create lib transactionId dto).Uses Op.Foreign :=
  Prog.Uses.bind (createTransaction_foreign lib transactionId dto) fun _ ↦ trivial

theorem enqueueNotification_foreign (lib : DecimalLib) (transaction : Transaction)
    (fromAccount toAccount : Option Json) :
    (enqueueNotification lib transaction fromAccount toAccount).Uses Op.Foreign := by
  unfold enqueueNotification
  cases notificationFor lib transaction fromAccount toAccount with
  | none => trivial
  | some job => exact await_foreign trivial

theorem process_foreign (lib : DecimalLib) (job : TransactionJobData) :
    (process lib job).Uses Op.Foreign := by
  refine Prog.Uses.bind (await_foreign trivial) fun existing ↦ ?_
  rcases existing with _ | existing
  · trivial
  by_cases hcompleted : existing.status = .completed
  · simp only [if_pos hcompleted]
    exact Prog.Uses.bind (enqueueNotification_foreign ..) fun _ ↦ trivial
  · simp only [if_neg hcompleted]
    refine Prog.Uses.bind (await_foreign trivial) fun count ↦ ?_
    by_cases hcount : count = 0
    · rw [if_pos hcount]
      trivial
    · rw [if_neg hcount]
      refine Prog.Uses.bind (await_foreign trivial) fun transaction ↦ ?_
      exact Prog.Uses.bind (enqueueNotification_foreign ..) fun _ ↦ trivial

theorem attempt_foreign (lib : DecimalLib) (worker : ℕ) (target : String) :
    (attempt lib worker target).Uses Op.Foreign := by
  refine Prog.Uses.bind (await_foreign trivial) fun job ↦ ?_
  refine Prog.Uses.bind (process_foreign lib job).settled fun result ↦ ?_
  rcases result with error | result
  · refine Prog.Uses.bind (await_foreign trivial) fun _ ↦ ?_
    exact Prog.Uses.catchError (Prog.Uses.bind (await_foreign trivial) fun _ ↦ trivial)
      fun _ ↦ trivial
  · exact await_foreign trivial

/-! ## The deployment -/

inductive EndpointRole : Type where
  | post (request : Request) (dto : CreateTransactionDto)
  | cleanup
  | worker (target : String)

/-- The processes of the application, and the identifiers each of them draws. -/
structure Endpoint where
  cfg : IdempotencyConfig
  lib : DecimalLib
  role : ℕ → EndpointRole
  recordId : ℕ → String
  recordId_injective : Function.Injective recordId
  transactionId : ℕ → String
  transactionId_injective : Function.Injective transactionId

namespace Endpoint

variable (app : Endpoint)

def deployedRole (i : ℕ) : Role :=
  match app.role i with
  | .post request dto =>
      .post ⟨request, _, create_foreign app.lib (app.transactionId i) dto⟩
  | .cleanup => .cron
  | .worker target => .background ⟨_, attempt_foreign app.lib i target⟩

def deployment : Deployment where
  cfg := app.cfg
  role := app.deployedRole
  recordId := app.recordId
  recordId_injective := app.recordId_injective

variable {app : Endpoint}

/-- Only requests carry a key. -/
theorem post_of_carries {key : String} {i : ℕ} (h : app.deployment.Carries key i) :
    ∃ request dto, app.role i = .post request dto := by
  change (app.deployedRole i).toPost.request.idempotencyKey = _ at h
  cases hrole : app.role i with
  | post request dto => exact ⟨request, dto, rfl⟩
  | cleanup =>
      rw [deployedRole, hrole] at h
      cases h
  | worker target =>
      rw [deployedRole, hrole] at h
      cases h

/-! ## The control points of a handler and of a worker -/

/-- The handler of process `j` is `createTransaction` at control point `q`. -/
def Serves (app : Endpoint) (j : ℕ) (dto : CreateTransactionDto) (q : CreateControl)
    (handler : ForeignPromise Response) : Prop :=
  handler.1 = TransactionController.respond (q.code (app.transactionId j) dto)

def Works (app : Endpoint) (j : ℕ) (target : String) (q : WorkerControl)
    (job : ForeignPromise Unit) : Prop :=
  job.1 = q.code app.lib j target

section

variable {M : Machine calls World ℕ} {j : ℕ} {op : Op} {k : ℕ → Except Err op.Res → Control}

theorem view_serves {dto : CreateTransactionDto} {q : CreateControl}
    {handler : ForeignPromise Response} (hserves : app.Serves j dto q handler)
    (hview : (app.deployment.control M).view j (.handling handler) = .await op k) :
    (op.Foreign ∧ ∃ k₀, q.view (app.transactionId j) dto = .await op k₀ ∧
      ∀ t r, ∃ next, k t r = .handling next ∧ app.Serves j dto (k₀ t r) next) ∨
    ¬op.Foreign := by
  obtain ⟨p, hp⟩ := handler
  change p = _ at hserves
  have hcode := q.view_code (app.transactionId j) dto
  cases hq : q.code (app.transactionId j) dto with
  | done r =>
      right
      rw [hq] at hserves
      rcases r with e | transaction <;>
      · cases hserves
        cases hview
        exact id
  | await op' k' =>
      left
      rw [hq] at hserves hcode
      cases hserves
      cases hview
      cases hqview : q.view (app.transactionId j) dto with
      | done r =>
          rw [hqview] at hcode
          cases hcode
      | await op'' k₀ =>
          rw [hqview] at hcode
          cases hcode
          exact ⟨hp.1, k₀, rfl, fun t r ↦ ⟨_, rfl, rfl⟩⟩

theorem view_works {target : String} {q : WorkerControl} {job : ForeignPromise Unit}
    (hworks : app.Works j target q job)
    (hview : (app.deployment.control M).view j (.background job) = .await op k) :
    op.Foreign ∧ ∃ k₀, q.view app.lib j target = .await op k₀ ∧
      ∀ t r, ∃ next, k t r = .background next ∧ app.Works j target (k₀ t r) next := by
  obtain ⟨p, hp⟩ := job
  change p = _ at hworks
  have hcode := q.view_code app.lib j target
  rw [← hworks] at hcode
  rcases p with (e | _) | ⟨op', k'⟩
  · cases hview
  · cases hview
  · cases hview
    cases hqview : q.view app.lib j target with
    | done r =>
        rw [hqview] at hcode
        cases hcode
    | await op'' k₀ =>
        rw [hqview] at hcode
        cases hcode
        exact ⟨hp.1, k₀, rfl, fun t r ↦ ⟨_, rfl, rfl⟩⟩

/-- Everything else is the idempotency machinery. -/
theorem view_idempotency {p : Control} (hhandling : ∀ handler, p ≠ .handling handler)
    (hbackground : ∀ job, p ≠ .background job)
    (hview : (app.deployment.control M).view j p = .await op k) : ¬op.Foreign := by
  cases p with
  | handling handler => exact absurd rfl (hhandling handler)
  | background job => exact absurd rfl (hbackground job)
  | ended r => cases hview
  | _ =>
      cases hview
      exact id

end

theorem initial_serves {j : ℕ} {request : Request} {dto : CreateTransactionDto}
    (hrole : app.role j = .post request dto) {handler : ForeignPromise Response}
    (hhandler : handler = (app.deployment.post j).handler) :
    app.Serves j dto (.initial app.lib dto) handler := by
  subst hhandler
  rw [Serves, CreateControl.code_initial]
  change (app.deployedRole j).toPost.handler.1 = _
  rw [deployedRole, hrole]
  rfl

end Endpoint

end TransactionLedger
