import TransactionLedger.Async.Simulation
import TransactionLedger.Notification.Processor

/-!
# Control points of the notification processor

Executions of `process` and `onFailed` may run at any time and in any number,
whatever started them.  The attempts of a worker run them as the queue hands out
its jobs.
-/

namespace TransactionLedger

open Async NotificationProcessor

/-! ## Executions -/

/-- One call of the processor by BullMQ. -/
inductive Execution : Type where
  | process (job : NotificationJob)
  | onFailed (job : NotificationJob) (error : Err)

inductive ExecutionOutcome : Type where
  | acknowledged (result : ProcessedNotification)
  | handled

def Execution.main (id : String) : Execution → Promise ExecutionOutcome
  | .process job => do
      let result ← NotificationProcessor.process id job
      pure (.acknowledged result)
  | .onFailed job error => do
      NotificationProcessor.onFailed id job error
      pure .handled

/-- The await an execution is at. -/
inductive ExecutionControl : Type where
  | create (job : NotificationJob)
  | find (job : NotificationJob) (error : Err)
  | bury (job : NotificationJob) (error : Err)
  | ended (r : Except Err ExecutionOutcome)

namespace ExecutionControl

variable (id : String)

def code : ExecutionControl → Promise ExecutionOutcome
  | .create job => (Execution.process job).main id
  | .find job error => do
      moveToDeadLetter id job error
      pure .handled
  | .bury job error => do
      NotificationProcessor.bury id job error
      pure .handled
  | .ended r => .done r

/-- The call awaited at a control point, and where its outcome leads. -/
def view : ExecutionControl → View calls ExecutionOutcome ExecutionControl
  | .create job =>
      .await (.notificationCreate id (delivery job)) fun _ r ↦ match r with
        | .ok notification => .ended (.ok (.acknowledged (.delivered notification.id)))
        | .error e =>
            if e = .prisma .p2002 then
              .ended (.ok (.acknowledged (.alreadyDelivered job.transactionId)))
            else .ended (.error e)
  | .find job error =>
      .await (.notificationFindUnique job.pair) fun _ r ↦ match r with
        | .ok existing =>
            if existing = some .delivered then .ended (.ok .handled) else .bury job error
        | .error e => .ended (.error e)
  | .bury job error =>
      .await (.notificationUpsert job.pair id (deadLetter job error) (deadLetterUpdate job error))
        fun _ r ↦ match r with
        | .ok _ => .ended (.ok .handled)
        | .error e => .ended (.error e)
  | .ended r => .done r

theorem code_duplicate (job : NotificationJob) (e : Err) :
    code id (if e = .prisma .p2002 then
        .ended (.ok (.acknowledged (.alreadyDelivered job.transactionId)))
      else .ended (.error e)) =
      (do
        let result ← duplicate job e
        pure (.acknowledged result)) := by
  simp only [duplicate]
  by_cases hduplicate : e = .prisma .p2002
  · rw [if_pos hduplicate, if_pos hduplicate]
    rfl
  · rw [if_neg hduplicate, if_neg hduplicate]
    rfl

theorem code_found (job : NotificationJob) (error : Err) (existing : Option NotificationStatus) :
    code id (if existing = some .delivered then .ended (.ok .handled) else .bury job error) =
      (do
        (if existing = some .delivered then pure () else NotificationProcessor.bury id job error)
        pure .handled) := by
  by_cases hdelivered : existing = some .delivered
  · rw [if_pos hdelivered, if_pos hdelivered]
    rfl
  · rw [if_neg hdelivered, if_neg hdelivered]
    rfl

theorem view_code (c : ExecutionControl) : (code id c).view = (view id c).map (code id) := by
  cases c with
  | create job =>
      refine View.await_congr fun t r ↦ ?_
      rcases r with e | notification
      · exact (code_duplicate id job e).symm
      · rfl
  | find job error =>
      refine View.await_congr fun t r ↦ ?_
      rcases r with e | existing
      · rfl
      · exact (code_found id job error existing).symm
  | bury job error =>
      refine View.await_congr fun t r ↦ ?_
      rcases r with e | _ <;> rfl
  | ended r => rfl

def initial : Execution → ExecutionControl
  | .process job => .create job
  | .onFailed job error =>
      if NOTIFICATION_MAX_ATTEMPTS ≤ job.attemptsMade then .find job error
      else .ended (.ok .handled)

theorem code_initial (execution : Execution) :
    code id (initial execution) = execution.main id := by
  cases execution with
  | process job => rfl
  | onFailed job error =>
      simp only [initial, Execution.main, NotificationProcessor.onFailed]
      by_cases hlast : NOTIFICATION_MAX_ATTEMPTS ≤ job.attemptsMade
      · rw [if_pos hlast, if_pos hlast]
        rfl
      · rw [if_neg hlast, if_neg hlast]
        rfl

end ExecutionControl

/-- Executions that run side by side, and the primary key that Prisma draws for the
row each of them may insert. -/
structure Executions where
  execution : ℕ → Execution
  rowId : ℕ → String

namespace Executions

variable (ex : Executions) (M : Machine calls World ℕ)

def control : Pool M ExecutionOutcome ExecutionControl where
  view i c := c.view (ex.rowId i)

theorem control_implements :
    (ex.control M).Implements (M.programs ExecutionOutcome) fun i c ↦ c.code (ex.rowId i) :=
  fun i c ↦ c.view_code (ex.rowId i)

/-- Given stores, and every execution at its start. -/
def start (w : World) : Config calls World ℕ (Promise ExecutionOutcome) where
  store := w
  procs i := some ((ex.execution i).main (ex.rowId i))
  log := []

def controlStart (w : World) : Config calls World ℕ ExecutionControl where
  store := w
  procs i := some (.initial (ex.execution i))
  log := []

theorem map_controlStart (w : World) :
    (ex.controlStart w).map (fun i c ↦ c.code (ex.rowId i)) = ex.start w := by
  simp only [Config.map, controlStart, start, Option.map_some, ExecutionControl.code_initial]

end Executions

/-! ## Attempts -/

/-- The await a worker is at during one attempt. -/
inductive NotifierControl : Type where
  | take
  | create (job : NotificationJob)
  | ack (job : NotificationJob) (result : ProcessedNotification)
  | fail (job : NotificationJob) (error : Err)
  | find (job : NotificationJob) (error : Err)
  | bury (job : NotificationJob) (error : Err)
  | ended (r : Except Err Unit)

namespace NotifierControl

section

variable (id deadId : String) (worker : ℕ) (jobId : String)

def code : NotifierControl → Promise Unit
  | .take => attempt id deadId worker jobId
  | .create job => do
      let result ← (process id job).settled
      finish deadId worker job result
  | .ack job result => finish deadId worker job (.ok result)
  | .fail job error => finish deadId worker job (.error error)
  | .find job error => moveToDeadLetter deadId job error
  | .bury job error => NotificationProcessor.bury deadId job error
  | .ended r => .done r

/-- What follows the failure of an attempt: the first await of `onFailed`, if it has
one. -/
def handling (job : NotificationJob) (error : Err) : NotifierControl :=
  if NOTIFICATION_MAX_ATTEMPTS ≤ job.attemptsMade then .find job error else .ended (.ok ())

def view : NotifierControl → View calls Unit NotifierControl
  | .take => .await (.takeNotificationJob worker jobId) fun _ r ↦ match r with
      | .ok job => .create job
      | .error e => .ended (.error e)
  | .create job =>
      .await (.notificationCreate id (delivery job)) fun _ r ↦ match r with
        | .ok notification => .ack job (.delivered notification.id)
        | .error e =>
            if e = .prisma .p2002 then .ack job (.alreadyDelivered job.transactionId)
            else .fail job e
  | .ack job _ => .await (.completeNotificationJob job.jobId) fun _ r ↦ .ended r
  | .fail job error =>
      .await (.failNotificationJob worker job.jobId) fun _ r ↦ match r with
        | .ok _ => handling (failed job) error
        | .error e => .ended (.error e)
  | .find job error =>
      .await (.notificationFindUnique job.pair) fun _ r ↦ match r with
        | .ok existing =>
            if existing = some .delivered then .ended (.ok ()) else .bury job error
        | .error e => .ended (.error e)
  | .bury job error =>
      .await (.notificationUpsert job.pair deadId (deadLetter job error)
        (deadLetterUpdate job error)) fun _ r ↦ match r with
        | .ok _ => .ended (.ok ())
        | .error e => .ended (.error e)
  | .ended r => .done r

theorem code_handling (job : NotificationJob) (error : Err) :
    code id deadId worker jobId (handling job error) = onFailed deadId job error := by
  simp only [handling, onFailed]
  by_cases hlast : NOTIFICATION_MAX_ATTEMPTS ≤ job.attemptsMade
  · rw [if_pos hlast, if_pos hlast]
    rfl
  · rw [if_neg hlast, if_neg hlast]
    rfl

theorem code_duplicate (job : NotificationJob) (e : Err) :
    code id deadId worker jobId (if e = .prisma .p2002 then
        .ack job (.alreadyDelivered job.transactionId)
      else .fail job e) =
      (do
        let result ← (duplicate job e).settled
        finish deadId worker job result) := by
  simp only [duplicate]
  by_cases hduplicate : e = .prisma .p2002
  · rw [if_pos hduplicate, if_pos hduplicate]
    rfl
  · rw [if_neg hduplicate, if_neg hduplicate]
    rfl

theorem code_found (job : NotificationJob) (error : Err) (existing : Option NotificationStatus) :
    code id deadId worker jobId
        (if existing = some .delivered then .ended (.ok ()) else .bury job error) =
      if existing = some .delivered then pure ()
      else NotificationProcessor.bury deadId job error := by
  by_cases hdelivered : existing = some .delivered
  · rw [if_pos hdelivered, if_pos hdelivered]
    rfl
  · rw [if_neg hdelivered, if_neg hdelivered]
    rfl

theorem view_code (c : NotifierControl) :
    (code id deadId worker jobId c).view =
      (view id deadId worker jobId c).map (code id deadId worker jobId) := by
  cases c with
  | create job =>
      refine View.await_congr fun t r ↦ ?_
      rcases r with e | notification
      · exact (code_duplicate id deadId worker jobId job e).symm
      · rfl
  | find job error =>
      refine View.await_congr fun t r ↦ ?_
      rcases r with e | existing
      · rfl
      · exact (code_found id deadId worker jobId job error existing).symm
  | fail job error =>
      refine View.await_congr fun t r ↦ ?_
      rcases r with e | _
      · rfl
      · exact (code_handling id deadId worker jobId (failed job) error).symm
  | take | ack job result | bury job error =>
      refine View.await_congr fun t r ↦ ?_
      rcases r with e | _ <;> rfl
  | ended r => rfl

end

end NotifierControl

/-- Workers that serve one job of the notification queue, each for one attempt. -/
structure Notifiers where
  jobId : String
  rowId : ℕ → String
  deadId : ℕ → String

namespace Notifiers

variable (nf : Notifiers) (M : Machine calls World ℕ)

def control : Pool M Unit NotifierControl where
  view i c := c.view (nf.rowId i) (nf.deadId i) i nf.jobId

def code (i : ℕ) (c : NotifierControl) : Promise Unit :=
  c.code (nf.rowId i) (nf.deadId i) i nf.jobId

theorem control_implements : (nf.control M).Implements (M.programs Unit) nf.code :=
  fun i c ↦ c.view_code (nf.rowId i) (nf.deadId i) i nf.jobId

def start (w : World) : Config calls World ℕ (Promise Unit) where
  store := w
  procs i := some (attempt (nf.rowId i) (nf.deadId i) i nf.jobId)
  log := []

end Notifiers

def notifiersStart (w : World) : Config calls World ℕ NotifierControl where
  store := w
  procs _ := some .take
  log := []

theorem Notifiers.map_notifiersStart (nf : Notifiers) (w : World) :
    (notifiersStart w).map nf.code = nf.start w := rfl

end TransactionLedger
