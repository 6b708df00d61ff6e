import TransactionLedger.Transaction.Control

/-!
# What one call of a worker does
-/

namespace TransactionLedger

open Async TransactionProcessor

/-- Where the outcome of a call leads a worker, and what it has learned about the
stores on which the call settled. -/
inductive WorkerStep (lib : DecimalLib) (target : String) (w w' : World) :
    WorkerControl → WorkerControl → Prop where
  | taken {queued : TransactionJob} (hjob : w.job target = some queued) :
      WorkerStep lib target w w' .take (.find queued.data)
  | notTaken {e : Err} : WorkerStep lib target w w' .take (.ended (.error e))
  | absent {job : TransactionJobData} (hrow : w.transaction job.transactionId = none) :
      WorkerStep lib target w w' (.find job) (.ack job none)
  | foundCompleted {job : TransactionJobData} {row : Transaction} {q : WorkerControl}
      (hrow : w.transaction job.transactionId = some row) (hcompleted : row.status = .completed)
      (hq : WorkerControl.announcing lib job row = q) : WorkerStep lib target w w' (.find job) q
  | found {job : TransactionJobData} {row : Transaction}
      (hrow : w.transaction job.transactionId = some row) (hstatus : row.status ≠ .completed) :
      WorkerStep lib target w w' (.find job) (.guard job row)
  | findFailed {job : TransactionJobData} {e : Err} :
      WorkerStep lib target w w' (.find job) (.fail job e)
  | started {job : TransactionJobData} {existing row : Transaction}
      (hrow : w.transaction job.transactionId = some row)
      (hstatus : row.status = .queued ∨ row.status = .failed)
      (hafter : w'.transaction job.transactionId = some { row with status := .processing }) :
      WorkerStep lib target w w' (.guard job existing) (.completeUpdate job)
  | skipped {job : TransactionJobData} {existing : Transaction}
      (hstatus : ∀ row, w.transaction job.transactionId = some row →
        row.status ≠ .queued ∧ row.status ≠ .failed) :
      WorkerStep lib target w w' (.guard job existing) (.ack job (some existing))
  | guardFailed {job : TransactionJobData} {existing : Transaction} {e : Err} :
      WorkerStep lib target w w' (.guard job existing) (.fail job e)
  | completed {job : TransactionJobData} {row : Transaction} {q : WorkerControl}
      (hafter : w'.transaction job.transactionId = some { row with status := .completed })
      (hq : WorkerControl.announcing lib job { row with status := .completed } = q) :
      WorkerStep lib target w w' (.completeUpdate job) q
  | completeFailed {job : TransactionJobData} {e : Err} :
      WorkerStep lib target w w' (.completeUpdate job) (.fail job e)
  | announced {job : TransactionJobData} {notification : NotificationJob}
      {transaction : Transaction} :
      WorkerStep lib target w w' (.announce job notification transaction)
        (.ack job (some transaction))
  | announceFailed {job : TransactionJobData} {notification : NotificationJob}
      {transaction : Transaction} {e : Err} :
      WorkerStep lib target w w' (.announce job notification transaction) (.fail job e)
  | acked {job : TransactionJobData} {result : Option Transaction} {r : Except Err Unit} :
      WorkerStep lib target w w' (.ack job result) (.ended r)
  | failed {job : TransactionJobData} {error : Err} :
      WorkerStep lib target w w' (.fail job error) (.onFailed job)
  | failedHandled {job : TransactionJobData} {r : Except Err Unit} :
      WorkerStep lib target w w' (.onFailed job) (.ended r)

/-- The ways the call awaited by a worker changes the row of a transaction. -/
inductive StatusChange (id : String) : WorkerControl → Transaction → Transaction → Prop where
  | started {job : TransactionJobData} {existing row : Transaction}
      (hid : job.transactionId = id) (hstatus : row.status = .queued ∨ row.status = .failed) :
      StatusChange id (.guard job existing) row { row with status := .processing }
  | completed {job : TransactionJobData} {row : Transaction} (hid : job.transactionId = id) :
      StatusChange id (.completeUpdate job) row { row with status := .completed }
  | failed {job : TransactionJobData} {row : Transaction}
      (hid : job.transactionId = id) (hstatus : row.status ≠ .completed) :
      StatusChange id (.onFailed job) row { row with status := .failed }

/-- The ways it changes the job of a transaction. -/
inductive JobChange (id : String) (worker : ℕ) (target : String) :
    WorkerControl → Option TransactionJob → Option TransactionJob → Prop where
  | taken {job : TransactionJob} (hid : target = id) :
      JobChange id worker target .take (some job) (some { job with state := .active worker })
  | acked {data : TransactionJobData} {result : Option Transaction} {job : TransactionJob}
      (hid : data.transactionId = id) :
      JobChange id worker target (.ack data result) (some job) none
  | failed {data : TransactionJobData} {error : Err} {job : TransactionJob}
      (hid : data.transactionId = id) :
      JobChange id worker target (.fail data error) (some job) (some (job.failedBy worker))

section

variable {lib : DecimalLib} {target : String} {d : Delivery} {f : Fate} {w w' : World} {i : ℕ}
  {c : WorkerControl} {op : Op} {k : ℕ → Except Err op.Res → WorkerControl}
  {r : Except Err op.Res}

theorem holds_retryable {status : TransactionStatus} :
    (StatusFilter.oneOf [.queued, .failed]).holds status ↔
      status = .queued ∨ status = .failed := by
  simp [StatusFilter.holds]

theorem holds_unfinished {status : TransactionStatus} :
    (StatusFilter.not .completed).holds status ↔ status ≠ .completed := by
  simp [StatusFilter.holds]

/-- A guarded update changes the row it addresses, if its status passes the guard. -/
theorem onTransaction_updateMany (id k : String) (filter : StatusFilter)
    (status : TransactionStatus) (found : Option Transaction) :
    (Op.transactionUpdateMany k filter status).onTransaction id found = found ∨
      ∃ row, found = some row ∧ k = id ∧ filter.holds row.status ∧
        (Op.transactionUpdateMany k filter status).onTransaction id found =
          some { row with status := status } := by
  simp only [Op.onTransaction]
  by_cases hid : k = id
  · rw [if_pos hid]
    cases found with
    | none => exact .inl rfl
    | some row =>
        by_cases hholds : filter.holds row.status
        · exact .inr ⟨row, rfl, hid, hholds, congrArg some (if_pos hholds)⟩
        · exact .inl (congrArg some (if_neg hholds))
  · exact .inl (if_neg hid)

theorem worker_status (id : String) (hview : c.view lib i target = .await op k)
    (hsettle : w.settle d f op = some (r, w')) :
    w'.transaction id = w.transaction id ∨
      ∃ row row', w.transaction id = some row ∧ w'.transaction id = some row' ∧
        StatusChange id c row row' := by
  rcases World.settle_transaction hsettle id with hsame | heffect
  · exact .inl hsame
  rw [heffect]
  generalize w.transaction id = found
  cases c with
  | guard job existing =>
      cases hview
      rcases onTransaction_updateMany id job.transactionId (.oneOf [.queued, .failed])
        .processing found with hsame | ⟨row, hrow, hid, hholds, hafter⟩
      · exact .inl hsame
      · exact .inr ⟨row, _, hrow, hafter, .started hid (holds_retryable.mp hholds)⟩
  | onFailed job =>
      cases hview
      rcases onTransaction_updateMany id job.transactionId (.not .completed) .failed found with
        hsame | ⟨row, hrow, hid, hholds, hafter⟩
      · exact .inl hsame
      · exact .inr ⟨row, _, hrow, hafter, .failed hid (holds_unfinished.mp hholds)⟩
  | completeUpdate job =>
      cases hview
      simp only [Op.onTransaction]
      by_cases hid : job.transactionId = id
      · rw [if_pos hid]
        cases found with
        | none => exact .inl rfl
        | some row => exact .inr ⟨row, _, rfl, rfl, .completed hid⟩
      · exact .inl (if_neg hid)
  | ended r => cases hview
  | _ =>
      cases hview
      exact .inl rfl

theorem worker_job (id : String) (hview : c.view lib i target = .await op k)
    (hsettle : w.settle d f op = some (r, w')) :
    w'.job id = w.job id ∨ JobChange id i target c (w.job id) (w'.job id) := by
  rcases World.settle_job hsettle id with hsame | heffect
  · exact .inl hsame
  rw [heffect]
  generalize w.job id = found
  cases c with
  | take =>
      cases hview
      cases found with
      | none => exact .inl (ite_self _)
      | some job => exact unchanged_or_ite (JobChange id i target _ (some job)) .taken
  | ack job result =>
      cases hview
      cases found with
      | none => exact .inl (ite_self _)
      | some job => exact unchanged_or_ite (JobChange id i target _ (some job)) .acked
  | fail job error =>
      cases hview
      cases found with
      | none => exact .inl (ite_self _)
      | some job => exact unchanged_or_ite (JobChange id i target _ (some job)) .failed
  | ended r => cases hview
  | _ =>
      cases hview
      exact .inl rfl

/-- Only the announcement touches the notification queue. -/
theorem worker_notification (jobId : String) (hview : c.view lib i target = .await op k)
    (hsettle : w.settle d f op = some (r, w')) :
    w'.notification jobId = w.notification jobId ∨
      ∃ job notification transaction, c = .announce job notification transaction ∧
        notification.jobId = jobId := by
  rcases World.settle_notification hsettle jobId with hsame | heffect
  · exact .inl hsame
  rw [heffect]
  cases c with
  | announce job notification transaction =>
      cases hview
      by_cases hid : notification.jobId = jobId
      · exact .inr ⟨job, notification, transaction, rfl, hid⟩
      · exact .inl (if_neg hid)
  | ended r => cases hview
  | _ =>
      cases hview
      exact .inl rfl

/-- The calls of the worker itself do not fail. -/
theorem settle_worker {op : Op} {r : Except Err op.Res} (hfaulty : op.faulty = false)
    (h : w.settle d f op = some (r, w')) : w.answer op = (r, w') := by
  rcases World.settle_cases h with ⟨hrun, -, -⟩ | ⟨e, -, -, htrue, -⟩
  · exact hrun
  · rw [hfaulty] at htrue
    cases htrue

theorem worker_step (hview : c.view lib i target = .await op k)
    (hsettle : w.settle d f op = some (r, w')) :
    WorkerStep lib target w w' c (k w'.clock r) := by
  cases c with
  | take =>
      cases hview
      have hrun := settle_worker rfl hsettle
      simp only [World.answer] at hrun
      cases hjob : w.transactionQueue.lookup target with
      | none =>
          rw [hjob] at hrun
          obtain ⟨rfl, -⟩ := Prod.mk.inj hrun
          exact .notTaken
      | some queued =>
          rw [hjob] at hrun
          obtain ⟨rfl, -⟩ := Prod.mk.inj hrun
          exact .taken hjob
  | find job =>
      cases hview
      rcases r with e | existing
      · exact .findFailed
      · obtain ⟨hrow, -⟩ := Prod.mk.inj (World.settle_ok hsettle)
        have hrow : w.transaction job.transactionId = existing := Except.ok.inj hrow
        cases existing with
        | none => exact .absent hrow
        | some row =>
            by_cases hcompleted : row.status = .completed
            · simp only [if_pos hcompleted]
              exact .foundCompleted hrow hcompleted rfl
            · simp only [if_neg hcompleted]
              exact .found hrow hcompleted
  | guard job existing =>
      cases hview
      rcases r with e | count
      · exact .guardFailed
      · have hrun := World.settle_ok hsettle
        have hzero := World.count_of_updateMany hrun
        have hafter := World.answer_transaction w (.transactionUpdateMany job.transactionId
          (.oneOf [.queued, .failed]) .processing) job.transactionId
        rw [hrun] at hafter
        simp only [Op.onTransaction, if_true] at hafter
        by_cases hcount : count = 0
        · simp only [if_pos hcount]
          refine .skipped fun row hrow ↦ ?_
          have hnot := hzero.mp hcount row hrow
          rw [holds_retryable] at hnot
          exact not_or.mp hnot
        · simp only [if_neg hcount]
          rw [hzero] at hcount
          push Not at hcount
          obtain ⟨row, hrow, hholds⟩ := hcount
          rw [hrow, Option.map_some, if_pos hholds] at hafter
          exact .started hrow (holds_retryable.mp hholds) hafter
  | completeUpdate job =>
      cases hview
      rcases r with e | transaction
      · exact .completeFailed
      · obtain ⟨row, -, rfl, hafter⟩ := World.transaction_of_update (World.settle_ok hsettle)
        exact .completed hafter rfl
  | announce job notification transaction =>
      cases hview
      rcases r with e | _
      · exact .announceFailed
      · exact .announced
  | ack job result =>
      cases hview
      exact .acked
  | fail job error =>
      cases hview
      obtain ⟨rfl, -⟩ := Prod.mk.inj (settle_worker rfl hsettle)
      exact .failed
  | onFailed job =>
      cases hview
      exact .failedHandled
  | ended r => cases hview

end

end TransactionLedger
