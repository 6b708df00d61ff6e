import TransactionLedger.Async.Simulation
import TransactionLedger.Stores.Effects
import TransactionLedger.Transaction.Service

/-!
# Control points of workers and of `createTransaction`
-/

namespace TransactionLedger

open Async TransactionService TransactionProcessor

/-- The await a worker is at during one attempt. -/
inductive WorkerControl : Type where
  | take
  | find (job : TransactionJobData)
  | guard (job : TransactionJobData) (existing : Transaction)
  | completeUpdate (job : TransactionJobData)
  | announce (job : TransactionJobData) (notification : NotificationJob)
      (transaction : Transaction)
  | ack (job : TransactionJobData) (result : Option Transaction)
  | fail (job : TransactionJobData) (error : Err)
  | onFailed (job : TransactionJobData)
  | ended (r : Except Err Unit)

namespace WorkerControl

section

variable (lib : DecimalLib) (worker : ℕ) (target : String)

/-- The rest of an attempt inside `process`. -/
def processing (job : TransactionJobData) (p : Promise (Option Transaction)) :
    Promise Unit := do
  let result ← p.settled
  finish worker job result

def code : WorkerControl → Promise Unit
  | .take => attempt lib worker target
  | .find job => processing worker job (process lib job)
  | .guard job existing => processing worker job (processRetryable lib job existing)
  | .completeUpdate job => processing worker job (do
      let transaction ← await (.transactionUpdate job.transactionId .completed)
      enqueueNotification lib transaction job.dto.fromAccount job.dto.toAccount
      pure (some transaction))
  | .announce job notification transaction => processing worker job (do
      await (.notificationQueueAdd notification)
      pure (some transaction))
  | .ack job result => finish worker job (.ok result)
  | .fail job error => finish worker job (.error error)
  | .onFailed job => TransactionProcessor.onFailed job
  | .ended r => .done r

/-- What follows `enqueueNotification`: its only await, if there is one. -/
def announcing (job : TransactionJobData) (transaction : Transaction) : WorkerControl :=
  match notificationFor lib transaction job.dto.fromAccount job.dto.toAccount with
  | none => .ack job (some transaction)
  | some notification => .announce job notification transaction

/-- The call awaited at a control point, and where its outcome leads. -/
def view : WorkerControl → View calls Unit WorkerControl
  | .take => .await (.takeJob worker target) fun _ r ↦ match r with
      | .ok job => .find job
      | .error e => .ended (.error e)
  | .find job => .await (.transactionFindUnique job.transactionId) fun _ r ↦ match r with
      | .ok none => .ack job none
      | .ok (some existing) =>
          if existing.status = .completed then announcing lib job existing
          else .guard job existing
      | .error e => .fail job e
  | .guard job existing =>
      .await (.transactionUpdateMany job.transactionId (.oneOf [.queued, .failed]) .processing)
        fun _ r ↦ match r with
        | .ok count => if count = 0 then .ack job (some existing) else .completeUpdate job
        | .error e => .fail job e
  | .completeUpdate job =>
      .await (.transactionUpdate job.transactionId .completed) fun _ r ↦ match r with
        | .ok transaction => announcing lib job transaction
        | .error e => .fail job e
  | .announce job notification transaction =>
      .await (.notificationQueueAdd notification) fun _ r ↦ match r with
        | .ok _ => .ack job (some transaction)
        | .error e => .fail job e
  | .ack job _ => .await (.completeJob job.transactionId) fun _ r ↦ .ended r
  | .fail job _ => .await (.failJob worker job.transactionId) fun _ r ↦ match r with
      | .ok _ => .onFailed job
      | .error e => .ended (.error e)
  | .onFailed job =>
      .await (.transactionUpdateMany job.transactionId (.not .completed) .failed)
        fun _ _ ↦ .ended (.ok ())
  | .ended r => .done r

theorem code_announcing (job : TransactionJobData) (transaction : Transaction) :
    code lib worker target (announcing lib job transaction) =
      processing worker job (do
        enqueueNotification lib transaction job.dto.fromAccount job.dto.toAccount
        pure (some transaction)) := by
  simp only [announcing, enqueueNotification]
  cases notificationFor lib transaction job.dto.fromAccount job.dto.toAccount <;> rfl

theorem code_found (job : TransactionJobData) (existing : Transaction) :
    code lib worker target (if existing.status = .completed then announcing lib job existing
        else .guard job existing) =
      processing worker job (if existing.status = .completed then (do
          enqueueNotification lib existing job.dto.fromAccount job.dto.toAccount
          pure (some existing))
        else processRetryable lib job existing) := by
  by_cases hcompleted : existing.status = .completed
  · rw [if_pos hcompleted, if_pos hcompleted]
    exact code_announcing lib worker target job existing
  · rw [if_neg hcompleted, if_neg hcompleted]
    rfl

theorem code_guarded (job : TransactionJobData) (existing : Transaction) (count : ℕ) :
    code lib worker target (if count = 0 then .ack job (some existing)
        else .completeUpdate job) =
      processing worker job (if count = 0 then pure (some existing) else (do
        let transaction ← await (.transactionUpdate job.transactionId .completed)
        enqueueNotification lib transaction job.dto.fromAccount job.dto.toAccount
        pure (some transaction))) := by
  by_cases hcount : count = 0
  · rw [if_pos hcount, if_pos hcount]
    rfl
  · rw [if_neg hcount, if_neg hcount]
    rfl

/-- Each control point awaits what the attempt awaits. -/
theorem view_code (c : WorkerControl) :
    (code lib worker target c).view = (view lib worker target c).map (code lib worker target) := by
  cases c with
  | find job =>
      refine View.await_congr fun t r ↦ ?_
      rcases r with e | _ | existing
      · rfl
      · rfl
      · exact (code_found lib worker target job existing).symm
  | guard job existing =>
      refine View.await_congr fun t r ↦ ?_
      rcases r with e | count
      · rfl
      · exact (code_guarded lib worker target job existing count).symm
  | completeUpdate job =>
      refine View.await_congr fun t r ↦ ?_
      rcases r with e | transaction
      · rfl
      · exact (code_announcing lib worker target job transaction).symm
  | take | announce | fail | onFailed | ack =>
      refine View.await_congr fun t r ↦ ?_
      rcases r with e | _ <;> rfl
  | ended r => rfl

end

end WorkerControl

/-- The await `createTransaction` is at. -/
inductive CreateControl : Type where
  | create (amount : ℚ)
  | add (transaction : Transaction)
  | compensate (transaction : Transaction) (error : Err)
  | settled (r : Except Err CreatedTransaction)

namespace CreateControl

section

variable (lib : DecimalLib) (transactionId : String) (dto : CreateTransactionDto)

def code : CreateControl → Promise CreatedTransaction
  | .create amount => do
      let transaction ← await (.transactionCreate (newTransaction transactionId dto amount))
      enqueue transactionId dto transaction
  | .add transaction => enqueue transactionId dto transaction
  | .compensate transaction error => do
      enqueueFailed transactionId error
      pure ⟨transaction.id, transaction.status⟩
  | .settled r => .done r

def view : CreateControl → View calls CreatedTransaction CreateControl
  | .create amount =>
      .await (.transactionCreate (newTransaction transactionId dto amount)) fun _ r ↦ match r with
        | .ok transaction => .add transaction
        | .error e => .settled (.error e)
  | .add transaction =>
      .await (.transactionQueueAdd ⟨transactionId, dto⟩) fun _ r ↦ match r with
        | .ok _ => .settled (.ok ⟨transaction.id, transaction.status⟩)
        | .error e => .compensate transaction e
  | .compensate _ error =>
      .await (.transactionUpdate transactionId .failed) fun _ r ↦ match r with
        | .ok _ => .settled (.error error)
        | .error e => .settled (.error e)
  | .settled r => .done r

theorem view_code (c : CreateControl) :
    (code transactionId dto c).view =
      (view transactionId dto c).map (code transactionId dto) := by
  cases c with
  | create | add | compensate =>
      refine View.await_congr fun t r ↦ ?_
      rcases r with e | _ <;> rfl
  | settled r => rfl

def initial : CreateControl :=
  match lib.ofString dto.amount with
  | none => .settled (.error (.error ("[DecimalError] Invalid argument: " ++ dto.amount)))
  | some amount => .create amount

theorem code_initial :
    code transactionId dto (initial lib dto) = createTransaction lib transactionId dto := by
  simp only [initial, createTransaction]
  cases lib.ofString dto.amount <;> rfl

end

end CreateControl

/-! ## The pool of workers -/

section Workers

variable (M : Machine calls World ℕ) (lib : DecimalLib) (target : ℕ → String)

/-- Attempts at the jobs of the given transactions, at their control points. -/
def workers : Pool M Unit WorkerControl where
  view i c := c.view lib i (target i)

theorem workers_implements :
    (workers M lib target).Implements (M.programs Unit) fun i c ↦ c.code lib i (target i) :=
  fun i c ↦ c.view_code lib i (target i)

/-- Given stores, and every attempt at its first call. -/
def attempts (w : World) : Config calls World ℕ (Promise Unit) where
  store := w
  procs i := some (attempt lib i (target i))
  log := []

def workersStart (w : World) : Config calls World ℕ WorkerControl where
  store := w
  procs _ := some .take
  log := []

theorem map_workersStart (w : World) :
    (workersStart w).map (fun i c ↦ c.code lib i (target i)) = attempts lib target w := rfl

end Workers

/-! ## Workers beside `createTransaction` -/

inductive BackendRole : Type where
  | creator (dto : CreateTransactionDto)
  | worker (target : String)

inductive BackendOutcome : Type where
  | created (transaction : CreatedTransaction)
  | attempted

/-- Calls of `createTransaction` and attempts at jobs.  `transactionId` is what
`randomUUID()` returns in each process. -/
structure Backend where
  lib : DecimalLib
  role : ℕ → BackendRole
  transactionId : ℕ → String
  transactionId_injective : Function.Injective transactionId

inductive BackendControl : Type where
  | creating (dto : CreateTransactionDto) (c : CreateControl)
  | working (target : String) (c : WorkerControl)

namespace Backend

variable (back : Backend) (M : Machine calls World ℕ)

def main (i : ℕ) : Promise BackendOutcome :=
  match back.role i with
  | .creator dto => do
      let transaction ← createTransaction back.lib (back.transactionId i) dto
      pure (.created transaction)
  | .worker target => do
      let _ ← attempt back.lib i target
      pure .attempted

def code (i : ℕ) : BackendControl → Promise BackendOutcome
  | .creating dto c => do
      let transaction ← c.code (back.transactionId i) dto
      pure (.created transaction)
  | .working target c => do
      let _ ← c.code back.lib i target
      pure .attempted

def control : Pool M BackendOutcome BackendControl where
  view i
    | .creating dto c =>
        ((c.view (back.transactionId i) dto).map (.creating dto)).mapResult .created
    | .working target c =>
        ((c.view back.lib i target).map (.working target)).mapResult fun _ ↦ .attempted

def initial (i : ℕ) : BackendControl :=
  match back.role i with
  | .creator dto => .creating dto (.initial back.lib dto)
  | .worker target => .working target .take

theorem control_implements :
    (back.control M).Implements (M.programs BackendOutcome) back.code := by
  intro i c
  cases c with
  | creating dto c =>
      apply (Prog.view_bind_done BackendOutcome.created _).trans
      rw [c.view_code]
      simp only [control]
      cases c.view (back.transactionId i) dto <;> rfl
  | working target c =>
      refine (Prog.view_bind_done (fun _ ↦ BackendOutcome.attempted) _).trans ?_
      rw [c.view_code]
      simp only [control]
      cases c.view back.lib i target <;> rfl

def start (w : World) : Config calls World ℕ (Promise BackendOutcome) where
  store := w
  procs i := some (back.main i)
  log := []

def controlStart (w : World) : Config calls World ℕ BackendControl where
  store := w
  procs i := some (back.initial i)
  log := []

theorem map_controlStart (w : World) : (back.controlStart w).map back.code = back.start w := by
  have hinitial : ∀ i, back.code i (back.initial i) = back.main i := by
    intro i
    simp only [initial, main]
    cases back.role i with
    | creator dto => simp only [code, CreateControl.code_initial]
    | worker target => rfl
  simp only [Config.map, controlStart, start, Option.map_some, hinitial]

end Backend

end TransactionLedger
