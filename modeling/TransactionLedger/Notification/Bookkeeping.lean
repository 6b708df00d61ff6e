import TransactionLedger.Notification.DeadLetter

/-!
# The bookkeeping of a notification job

What each call of an attempt leaves of the job and of the row of its pair, and what holds
of them between the calls as long as the attempts run one after another.
-/

namespace TransactionLedger

open Async Data NotificationProcessor

/-! ## Steps of an attempt -/

namespace NotifierControl

/-- The job an attempt runs, while the queue has it active. -/
def holds : NotifierControl → Option NotificationJob
  | .create job => some job
  | .ack job _ => some job
  | .fail job _ => some job
  | _ => none

/-- The job whose last failure is being handled. -/
def handles : NotifierControl → Option NotificationJob
  | .find job _ => some job
  | .bury job _ => some job
  | _ => none

theorem handling_cases (job : NotificationJob) (error : Err) :
    NOTIFICATION_MAX_ATTEMPTS ≤ job.attemptsMade ∧ handling job error = .find job error ∨
      job.attemptsMade < NOTIFICATION_MAX_ATTEMPTS ∧ handling job error = .ended (.ok ()) := by
  by_cases hlast : NOTIFICATION_MAX_ATTEMPTS ≤ job.attemptsMade
  · exact .inl ⟨hlast, if_pos hlast⟩
  · exact .inr ⟨not_le.mp hlast, if_neg hlast⟩

end NotifierControl

/-- Where the outcome of a call leads an attempt at the job `jobId`, and what it
leaves of the job and of the row of its pair. -/
inductive NotifierStep (jobId : String) (pair : String × NotificationChannel) (i : ℕ)
    (w w' : World) : NotifierControl → NotifierControl → Prop where
  | taken {job : NotificationJob} (hjob : w.notification jobId = some job)
      (hstate : job.state = .waiting)
      (hqueue : w'.notification jobId = some { job with state := .active i })
      (hrow : w'.notice pair = w.notice pair) :
      NotifierStep jobId pair i w w' .take (.create job)
  | created {job : NotificationJob} {row : Notification} {q : NotifierControl}
      (hnone : w.notice pair = none) (hrow : w'.notice pair = some row)
      (hstatus : row.status = .delivered) (hqueue : w'.notification jobId = w.notification jobId)
      (hq : (∃ result, q = .ack job result) ∨ ∃ e, q = .fail job e) :
      NotifierStep jobId pair i w w' (.create job) q
  | duplicate {job : NotificationJob} {result : ProcessedNotification} {row : Notification}
      (hrow : w.notice pair = some row) (hsame : w' = w) :
      NotifierStep jobId pair i w w' (.create job) (.ack job result)
  | createFailed {job : NotificationJob} {e : Err} (hrow : w'.notice pair = w.notice pair)
      (hqueue : w'.notification jobId = w.notification jobId) :
      NotifierStep jobId pair i w w' (.create job) (.fail job e)
  | acked {job : NotificationJob} {result : ProcessedNotification} {r : Except Err Unit}
      (hqueue : w'.notification jobId = none) (hrow : w'.notice pair = w.notice pair) :
      NotifierStep jobId pair i w w' (.ack job result) (.ended r)
  | failed {job : NotificationJob} {error : Err}
      (hqueue : w'.notification jobId =
        (w.notification jobId).map (NotificationJob.failedBy i))
      (hrow : w'.notice pair = w.notice pair) :
      NotifierStep jobId pair i w w' (.fail job error)
        (NotifierControl.handling (NotificationProcessor.failed job) error)
  | skipped {job : NotificationJob} {error : Err} (hdelivered : Delivered pair w)
      (hsame : w' = w) : NotifierStep jobId pair i w w' (.find job error) (.ended (.ok ()))
  | found {job : NotificationJob} {error : Err} (hnot : ¬Delivered pair w) (hsame : w' = w) :
      NotifierStep jobId pair i w w' (.find job error) (.bury job error)
  | findFailed {job : NotificationJob} {error e : Err} (hsame : w' = w) :
      NotifierStep jobId pair i w w' (.find job error) (.ended (.error e))
  | buried {job : NotificationJob} {error : Err} {r : Except Err Unit} {row : Notification}
      (hrow : w'.notice pair = some row)
      (hdata : w.notice pair = none → row.status = .deadLetter ∧
        row.attempts = job.attemptsMade ∧ job.recipient = .str row.recipient ∧
          row.payload = job.payload)
      (hqueue : w'.notification jobId = w.notification jobId) :
      NotifierStep jobId pair i w w' (.bury job error) (.ended r)
  | buryFailed {job : NotificationJob} {error e : Err} (hrow : w'.notice pair = w.notice pair)
      (hqueue : w'.notification jobId = w.notification jobId) :
      NotifierStep jobId pair i w w' (.bury job error) (.ended (.error e))

section

variable {jobId : String} {pair : String × NotificationChannel} {i : ℕ} {f : Fate} {w w' : World}
  {rowId deadId : String} {p : NotifierControl} {op : Op}
  {k : ℕ → Except Err op.Res → NotifierControl} {r : Except Err op.Res}

theorem notifier_step_create {job : NotificationJob} {r : Except Err Notification}
    (hpair : job.pair = pair)
    (hsettle : w.settle .exclusive f (.notificationCreate rowId (delivery job)) = some (r, w'))
    {q : NotifierControl}
    (hok : ∀ row, r = .ok row → ∃ result, q = .ack job result)
    (hdup : r = .error (.prisma .p2002) → ∃ result, q = .ack job result)
    (herror : ∀ e, r = .error e → e ≠ .prisma .p2002 → q = .fail job e) :
    NotifierStep jobId pair i w w' (.create job) q := by
  have hqueue : w'.notification jobId = w.notification jobId := by
    rcases World.settle_notification hsettle jobId with h | h <;> exact h
  rcases r with e | row
  · by_cases hduplicate : e = .prisma .p2002
    · subst hduplicate
      obtain ⟨result, rfl⟩ := hdup rfl
      obtain ⟨-, hsame, -, row, hrow⟩ := World.notice_of_p2002 hsettle
      subst hpair
      exact .duplicate hrow hsame
    · obtain rfl := herror e rfl hduplicate
      rcases World.settle_notice hsettle pair with hsame | hchange
      · exact .createFailed hsame hqueue
      · generalize hbefore : w.notice pair = before at hchange
        generalize hafter : w'.notice pair = after at hchange
        cases hchange with
        | created hrow _ =>
            exact .created hbefore hafter (NotificationData.of_row hrow).2.1 hqueue
              (.inr ⟨e, rfl⟩)
  · obtain ⟨result, rfl⟩ := hok row rfl
    obtain ⟨hrow, hnone, hafter⟩ := World.notice_of_create hsettle
    obtain ⟨hkey, hstatus, -⟩ := NotificationData.of_row hrow
    have hkey : row.pair = pair := hkey.trans hpair
    rw [hkey] at hnone hafter
    exact .created hnone hafter hstatus hqueue (.inl ⟨result, rfl⟩)

theorem notifier_step_bury {job : NotificationJob} {error : Err} {r : Except Err Notification}
    (hpair : job.pair = pair)
    (hsettle : w.settle .exclusive f (.notificationUpsert job.pair deadId (deadLetter job error)
      (deadLetterUpdate job error)) = some (r, w'))
    {q : NotifierControl}
    (hq : (∃ row, r = .ok row ∧ q = .ended (.ok ())) ∨ ∃ e, r = .error e ∧ q = .ended (.error e)) :
    NotifierStep jobId pair i w w' (.bury job error) q := by
  subst hpair
  have hqueue : w'.notification jobId = w.notification jobId := by
    rcases World.settle_notification hsettle jobId with h | h <;> exact h
  have hdata : ∀ {row}, (deadLetter job error).row deadId = some row →
      row.status = .deadLetter ∧ row.attempts = job.attemptsMade ∧
        job.recipient = .str row.recipient ∧ row.payload = job.payload := by
    intro row hrow
    obtain ⟨-, hstatus, hattempts, hpayload, hrecipient⟩ := NotificationData.of_row hrow
    exact ⟨hstatus, hattempts, hrecipient, hpayload⟩
  rcases hq with ⟨row, rfl, rfl⟩ | ⟨e, rfl, rfl⟩
  · have hkey : ((deadLetter job error).transactionId, (deadLetter job error).channel) =
        job.pair := rfl
    obtain ⟨hafter, hnew⟩ := World.notice_of_upsert hkey hsettle
    exact .buried hafter (fun hnone ↦ hdata (hnew hnone)) hqueue
  · rcases World.settle_notice hsettle job.pair with hsame | hchange
    · exact .buryFailed hsame hqueue
    · generalize hbefore : w.notice job.pair = before at hchange
      generalize hafter : w'.notice job.pair = after at hchange
      cases hchange with
      | inserted hrow _ => exact .buried hafter (fun _ ↦ hdata hrow) hqueue
      | updated =>
          refine .buried hafter (fun hnone ↦ ?_) hqueue
          cases hbefore.symm.trans hnone

theorem notifier_step (hview : p.view rowId deadId i jobId = .await op k)
    (hsettle : w.settle .exclusive f op = some (r, w'))
    (hjob : ∀ job, p.holds = some job ∨ p.handles = some job →
      job.pair = pair ∧ job.jobId = jobId) :
    NotifierStep jobId pair i w w' p (k w'.clock r) := by
  cases p with
  | take =>
      cases hview
      obtain ⟨job, rfl, hbefore, hstate, hafter⟩ := World.job_of_take hsettle
      refine .taken hbefore hstate hafter ?_
      rcases World.settle_notice hsettle pair with hsame | hchange
      · exact hsame
      · cases hchange
  | create job =>
      cases hview
      apply notifier_step_create (hjob job (.inl rfl)).1 hsettle
      · rintro row rfl
        exact ⟨_, rfl⟩
      · rintro rfl
        exact ⟨_, rfl⟩
      · rintro e rfl hne
        exact if_neg hne
  | ack job result =>
      cases hview
      obtain rfl := (hjob job (.inl rfl)).2
      have hafter := World.answer_notification w (.completeNotificationJob job.jobId) job.jobId
      have hrun := settle_worker rfl hsettle
      rw [hrun] at hafter
      refine .acked (hafter.trans (if_pos rfl)) ?_
      rcases World.settle_notice hsettle pair with hsame | hchange
      · exact hsame
      · cases hchange
  | fail job error =>
      cases hview
      obtain rfl := (hjob job (.inl rfl)).2
      have hafter := World.answer_notification w (.failNotificationJob i job.jobId) job.jobId
      have hrun := settle_worker rfl hsettle
      rw [hrun] at hafter
      obtain ⟨rfl, -⟩ := Prod.mk.inj hrun
      refine .failed (hafter.trans (if_pos rfl)) ?_
      rcases World.settle_notice hsettle pair with hsame | hchange
      · exact hsame
      · cases hchange
  | find job error =>
      cases hview
      obtain ⟨rfl, -⟩ := hjob job (.inr rfl)
      rcases r with e | found
      · apply NotifierStep.findFailed
        rcases World.settle_world hsettle with hsame | hsame <;> exact hsame
      · obtain ⟨hsame, rfl⟩ := World.notice_of_find hsettle
        by_cases hdelivered : (w.notice job.pair).map (·.status) = some .delivered
        · simp only [if_pos hdelivered]
          obtain ⟨row, hrow, hstatus⟩ := Option.map_eq_some_iff.mp hdelivered
          exact .skipped ⟨row, hrow, hstatus⟩ hsame
        · simp only [if_neg hdelivered]
          refine .found ?_ hsame
          rintro ⟨row, hrow, hstatus⟩
          apply hdelivered
          rw [hrow, Option.map_some, hstatus]
  | bury job error =>
      cases hview
      apply notifier_step_bury (hjob job (.inr rfl)).1 hsettle
      rcases r with e | row
      · exact .inr ⟨e, rfl, rfl⟩
      · exact .inl ⟨row, rfl, rfl⟩
  | ended r => cases hview

end

/-! ## The invariant -/

/-- The row is the dead letter of a job whose attempts are used up. -/
structure DeadLetterOf (job : NotificationJob) (row : Notification) : Prop where
  status : row.status = .deadLetter
  attempts : row.attempts = NOTIFICATION_MAX_ATTEMPTS
  recipient : job.recipient = .str row.recipient
  payload : row.payload = job.payload

/-- The same job, whatever its state and its count of attempts. -/
structure NotificationJob.Copies (job j : NotificationJob) : Prop where
  pair : j.pair = job.pair
  jobId : j.jobId = job.jobId
  recipient : j.recipient = job.recipient
  payload : j.payload = job.payload

/-- What holds of the queued job, of the row of its pair and of the attempts, where
`committed` says that an insertion has committed. -/
structure Bookkeeping (job : NotificationJob) (committed : Prop)
    (queue : Option NotificationJob) (notice : Option Notification)
    (procs : ℕ → Option NotifierControl) : Prop where
  copies : ∀ j, queue = some j → job.Copies j
  count : ∀ j, queue = some j →
    j.attemptsMade < NOTIFICATION_MAX_ATTEMPTS ∧ (∀ i, j.state ≠ .failed i) ∨
      j.attemptsMade = NOTIFICATION_MAX_ATTEMPTS ∧ ∃ i, j.state = .failed i
  row : ∀ row, notice = some row → committed ∧ row.status = .delivered ∨
    ¬committed ∧ DeadLetterOf job row ∧ ∃ j i, queue = some j ∧ j.state = .failed i
  absent : notice = none → ¬committed
  held : ∀ i p j, procs i = some p → p.holds = some j → job.Copies j ∧
    ∃ q, queue = some q ∧ q.state = .active i ∧ q.attemptsMade = j.attemptsMade
  acked : ∀ i j result, procs i = some (.ack j result) → committed
  gone : queue = none → committed
  handled : ∀ i p j, procs i = some p → p.handles = some j →
    job.Copies j ∧ j.attemptsMade = NOTIFICATION_MAX_ATTEMPTS ∧
      (∃ q, queue = some q ∧ q.state = .failed i) ∧
        ∀ row, notice = some row → row.status = .delivered
  burying : ∀ i j e, procs i = some (.bury j e) → notice = none
  settled : ∀ i q, queue = some q → q.state = .failed i →
    procs i = some (.ended (.ok ())) → notice ≠ none

namespace Bookkeeping

variable {job j : NotificationJob} {committed : Prop} {queue : Option NotificationJob}
  {notice : Option Notification} {procs : ℕ → Option NotifierControl} {i : ℕ}
  {p q : NotifierControl}

/-- While an attempt holds the job, nobody handles its last failure. -/
theorem not_handled (hinv : Bookkeeping job committed queue notice procs)
    (hproc : procs i = some p) (hholds : p.holds = some j) {i' : ℕ} {p' : NotifierControl}
    (hproc' : procs i' = some p') : p'.handles = none := by
  cases hhandles : p'.handles with
  | none => rfl
  | some j' =>
      obtain ⟨-, x, hx, hactive, -⟩ := hinv.held i p j hproc hholds
      obtain ⟨-, -, ⟨y, hy, hfailed⟩, -⟩ := hinv.handled i' p' j' hproc' hhandles
      obtain rfl := Option.some.inj (hx.symm.trans hy)
      cases hactive.symm.trans hfailed

theorem holder_unique (hinv : Bookkeeping job committed queue notice procs)
    (hproc : procs i = some p) (hholds : p.holds = some j) {i' : ℕ} {p' : NotifierControl}
    {j' : NotificationJob} (hproc' : procs i' = some p') (hholds' : p'.holds = some j') :
    i' = i := by
  obtain ⟨-, x, hx, hactive, -⟩ := hinv.held i p j hproc hholds
  obtain ⟨-, y, hy, hactive', -⟩ := hinv.held i' p' j' hproc' hholds'
  obtain rfl := Option.some.inj (hx.symm.trans hy)
  exact JobState.active.inj (hactive'.symm.trans hactive)

theorem handler_unique (hinv : Bookkeeping job committed queue notice procs)
    (hproc : procs i = some p) (hhandles : p.handles = some j) {i' : ℕ} {p' : NotifierControl}
    {j' : NotificationJob} (hproc' : procs i' = some p') (hhandles' : p'.handles = some j') :
    i' = i := by
  obtain ⟨-, -, ⟨x, hx, hfailed⟩, -⟩ := hinv.handled i p j hproc hhandles
  obtain ⟨-, -, ⟨y, hy, hfailed'⟩, -⟩ := hinv.handled i' p' j' hproc' hhandles'
  obtain rfl := Option.some.inj (hx.symm.trans hy)
  exact JobState.failed.inj (hfailed'.symm.trans hfailed)

/-- While an attempt holds the job, no dead letter exists. -/
theorem delivered_of_held (hinv : Bookkeeping job committed queue notice procs)
    (hproc : procs i = some p) (hholds : p.holds = some j) {row : Notification}
    (hrow : notice = some row) : committed ∧ row.status = .delivered := by
  rcases hinv.row row hrow with hdelivered | ⟨-, -, y, i', hy, hfailed⟩
  · exact hdelivered
  · obtain ⟨-, x, hx, hactive, -⟩ := hinv.held i p j hproc hholds
    obtain rfl := Option.some.inj (hx.symm.trans hy)
    cases hactive.symm.trans hfailed

/-- A process moves on while the stores stay. -/
theorem moved (hinv : Bookkeeping job committed queue notice procs)
    (hproc : procs i = some p) (hholds : ∀ j, q.holds = some j → p.holds = some j)
    (hacked : ∀ j result, q = .ack j result → committed)
    (hhandles : ∀ j, q.handles = some j → p.handles = some j)
    (hbury : ∀ j e, q = .bury j e → notice = none)
    (hsettled : q = .ended (.ok ()) → notice ≠ none) :
    Bookkeeping job committed queue notice (Function.update procs i (some q)) where
  copies := hinv.copies
  count := hinv.count
  row := hinv.row
  absent := hinv.absent
  held i' p' j hp' hj := by
    rcases Pool.of_update_some hp' with ⟨rfl, rfl⟩ | ⟨-, hother⟩
    · exact hinv.held i' p j hproc (hholds j hj)
    · exact hinv.held i' p' j hother hj
  acked i' j result hp' := by
    rcases Pool.of_update_some hp' with ⟨rfl, rfl⟩ | ⟨-, hother⟩
    · exact hacked j result rfl
    · exact hinv.acked i' j result hother
  gone := hinv.gone
  handled i' p' j hp' hj := by
    rcases Pool.of_update_some hp' with ⟨rfl, rfl⟩ | ⟨-, hother⟩
    · exact hinv.handled i' p j hproc (hhandles j hj)
    · exact hinv.handled i' p' j hother hj
  burying i' j e hp' := by
    rcases Pool.of_update_some hp' with ⟨rfl, rfl⟩ | ⟨-, hother⟩
    · exact hbury j e rfl
    · exact hinv.burying i' j e hother
  settled i' x hx hfailed hp' := by
    rcases Pool.of_update_some hp' with ⟨rfl, rfl⟩ | ⟨-, hother⟩
    · exact hsettled rfl
    · exact hinv.settled i' x hx hfailed hother

/-- An attempt goes on from its insertion to the report of its outcome. -/
theorem reported (hinv : Bookkeeping job committed queue notice procs)
    (hproc : procs i = some (.create j))
    (hq : (∃ result, q = .ack j result) ∧ committed ∨ ∃ e, q = .fail j e) :
    Bookkeeping job committed queue notice (Function.update procs i (some q)) := by
  rcases hq with ⟨⟨result, rfl⟩, hcommitted⟩ | ⟨e, rfl⟩
  · apply hinv.moved hproc
    · exact fun _ h ↦ h
    · exact fun _ _ _ ↦ hcommitted
    · rintro _ ⟨⟩
    · rintro _ _ ⟨⟩
    · rintro ⟨⟩
  · apply hinv.moved hproc
    · exact fun _ h ↦ h
    · rintro _ _ ⟨⟩
    · rintro _ ⟨⟩
    · rintro _ _ ⟨⟩
    · rintro ⟨⟩

/-- An attempt ends while the stores stay. -/
theorem finished (hinv : Bookkeeping job committed queue notice procs)
    (hproc : procs i = some p) {r : Except Err Unit} (hsettled : r = .ok () → notice ≠ none) :
    Bookkeeping job committed queue notice (Function.update procs i (some (.ended r))) := by
  apply hinv.moved hproc
  · rintro _ ⟨⟩
  · rintro _ _ ⟨⟩
  · rintro _ ⟨⟩
  · rintro _ _ ⟨⟩
  · rintro ⟨⟩
    exact hsettled rfl

/-- An insertion of the holder commits. -/
theorem created (hinv : Bookkeeping job committed queue none procs)
    (hproc : procs i = some p) (hholds : p.holds = some j) {row : Notification}
    (hstatus : row.status = .delivered) : Bookkeeping job True queue (some row) procs where
  copies := hinv.copies
  count := hinv.count
  row row' hrow := by
    obtain rfl := Option.some.inj hrow
    exact .inl ⟨trivial, hstatus⟩
  absent := by
    rintro ⟨⟩
  held := hinv.held
  acked _ _ _ _ := trivial
  gone _ := trivial
  handled i' p' j' hp' hj' := by
    rw [hinv.not_handled hproc hholds hp'] at hj'
    cases hj'
  burying i' j' e hp' := by
    cases hinv.not_handled hproc hholds hp'
  settled _ _ _ _ _ := by
    rintro ⟨⟩

theorem taken (hinv : Bookkeeping job committed (some j) notice procs)
    (hstate : j.state = .waiting) :
    Bookkeeping job committed (some { j with state := .active i }) notice
      (Function.update procs i (some (.create j))) where
  copies j' hj' := by
    obtain rfl := Option.some.inj hj'
    obtain ⟨hpair, hjobId, hrecipient, hpayload⟩ := hinv.copies j rfl
    exact ⟨hpair, hjobId, hrecipient, hpayload⟩
  count j' hj' := by
    obtain rfl := Option.some.inj hj'
    rcases hinv.count j rfl with ⟨hlow, -⟩ | ⟨-, i', hfailed⟩
    · refine .inl ⟨hlow, fun i' ↦ ?_⟩
      rintro ⟨⟩
    · cases hstate.symm.trans hfailed
  row row hrow := by
    rcases hinv.row row hrow with hdelivered | ⟨-, -, x, i', hx, hfailed⟩
    · exact .inl hdelivered
    · obtain rfl := Option.some.inj hx
      cases hstate.symm.trans hfailed
  absent := hinv.absent
  held i' p' j' hp' hj' := by
    rcases Pool.of_update_some hp' with ⟨rfl, rfl⟩ | ⟨-, hother⟩
    · obtain rfl := Option.some.inj hj'
      exact ⟨hinv.copies j rfl, _, rfl, rfl, rfl⟩
    · obtain ⟨-, x, hx, hactive, -⟩ := hinv.held i' p' j' hother hj'
      obtain rfl := Option.some.inj hx
      cases hstate.symm.trans hactive
  acked i' j' result hp' := by
    rcases Pool.of_update_some hp' with ⟨rfl, hq⟩ | ⟨-, hother⟩
    · cases hq
    · exact hinv.acked i' j' result hother
  gone := by
    rintro ⟨⟩
  handled i' p' j' hp' hj' := by
    rcases Pool.of_update_some hp' with ⟨rfl, rfl⟩ | ⟨-, hother⟩
    · cases hj'
    · obtain ⟨-, -, ⟨x, hx, hfailed⟩, -⟩ := hinv.handled i' p' j' hother hj'
      obtain rfl := Option.some.inj hx
      cases hstate.symm.trans hfailed
  burying i' j' e hp' := by
    rcases Pool.of_update_some hp' with ⟨rfl, hq⟩ | ⟨-, hother⟩
    · cases hq
    · exact hinv.burying i' j' e hother
  settled i' x hx hfailed _ := by
    obtain rfl := Option.some.inj hx
    cases hfailed

theorem acknowledged (hinv : Bookkeeping job committed queue notice procs)
    {result : ProcessedNotification} (hproc : procs i = some (.ack j result))
    {r : Except Err Unit} :
    Bookkeeping job committed none notice (Function.update procs i (some (.ended r))) where
  copies j' hj' := by
    cases hj'
  count j' hj' := by
    cases hj'
  row row hrow := .inl (hinv.delivered_of_held hproc rfl hrow)
  absent := hinv.absent
  held i' p' j' hp' hj' := by
    rcases Pool.of_update_some hp' with ⟨rfl, rfl⟩ | ⟨hne, hother⟩
    · cases hj'
    · exact absurd (hinv.holder_unique hproc rfl hother hj') hne
  acked i' j' result' hp' := by
    rcases Pool.of_update_some hp' with ⟨rfl, hq⟩ | ⟨-, hother⟩
    · cases hq
    · exact hinv.acked i' j' result' hother
  gone _ := hinv.acked i j result hproc
  handled i' p' j' hp' hj' := by
    rcases Pool.of_update_some hp' with ⟨rfl, rfl⟩ | ⟨-, hother⟩
    · cases hj'
    · rw [hinv.not_handled hproc rfl hother] at hj'
      cases hj'
  burying i' j' e hp' := by
    rcases Pool.of_update_some hp' with ⟨rfl, hq⟩ | ⟨-, hother⟩
    · cases hq
    · exact hinv.burying i' j' e hother
  settled i' x hx := by
    cases hx

theorem failed (hinv : Bookkeeping job committed queue notice procs) {error : Err}
    (hproc : procs i = some (.fail j error)) :
    Bookkeeping job committed (queue.map (NotificationJob.failedBy i)) notice
      (Function.update procs i
        (some (NotifierControl.handling (NotificationProcessor.failed j) error))) := by
  obtain ⟨hcopies, x, rfl, hactive, hcount⟩ := hinv.held i _ j hproc rfl
  have hlow : x.attemptsMade < NOTIFICATION_MAX_ATTEMPTS := by
    rcases hinv.count x rfl with ⟨hlow, -⟩ | ⟨-, i', hfailed⟩
    · exact hlow
    · cases hactive.symm.trans hfailed
  have hmade : (NotificationProcessor.failed j).attemptsMade = x.attemptsMade + 1 :=
    congrArg (· + 1) hcount.symm
  have hlast := NotifierControl.handling_cases (NotificationProcessor.failed j) error
  rw [hmade] at hlast
  generalize hq : NotifierControl.handling (NotificationProcessor.failed j) error = q at hlast
  exact
    { copies := by
        intro j' hj'
        obtain rfl := Option.some.inj hj'
        obtain ⟨hpair, hjobId, hrecipient, hpayload⟩ := hinv.copies x rfl
        exact ⟨hpair, hjobId, hrecipient, hpayload⟩
      count := by
        intro j' hj'
        obtain rfl := Option.some.inj hj'
        simp only [NotificationJob.failedBy]
        by_cases hnext : x.attemptsMade + 1 < NOTIFICATION_MAX_ATTEMPTS
        · refine .inl ⟨hnext, fun i' ↦ ?_⟩
          rw [if_pos hnext]
          rintro ⟨⟩
        · refine .inr ⟨by omega, i, ?_⟩
          rw [if_neg hnext]
      row := fun row hrow ↦ .inl (hinv.delivered_of_held hproc rfl hrow)
      absent := hinv.absent
      held := by
        intro i' p' j' hp' hj'
        rcases Pool.of_update_some hp' with ⟨rfl, rfl⟩ | ⟨hne, hother⟩
        · rcases hlast with ⟨-, rfl⟩ | ⟨-, rfl⟩ <;> cases hj'
        · exact absurd (hinv.holder_unique hproc rfl hother hj') hne
      acked := by
        intro i' j' result hp'
        rcases Pool.of_update_some hp' with ⟨rfl, rfl⟩ | ⟨-, hother⟩
        · rcases hlast with ⟨-, h⟩ | ⟨-, h⟩ <;> cases h
        · exact hinv.acked i' j' result hother
      gone := by
        rintro ⟨⟩
      handled := by
        intro i' p' j' hp' hj'
        rcases Pool.of_update_some hp' with ⟨rfl, rfl⟩ | ⟨-, hother⟩
        · rcases hlast with ⟨hlast, rfl⟩ | ⟨-, rfl⟩
          · obtain rfl := Option.some.inj hj'
            obtain ⟨hpair, hjobId, hrecipient, hpayload⟩ := hcopies
            refine ⟨⟨hpair, hjobId, hrecipient, hpayload⟩, by omega, ⟨_, rfl, ?_⟩, ?_⟩
            · simp only [NotificationJob.failedBy]
              rw [if_neg (by omega)]
            · intro row hrow
              exact (hinv.delivered_of_held hproc rfl hrow).2
          · cases hj'
        · rw [hinv.not_handled hproc rfl hother] at hj'
          cases hj'
      burying := by
        intro i' j' e hp'
        rcases Pool.of_update_some hp' with ⟨rfl, rfl⟩ | ⟨-, hother⟩
        · rcases hlast with ⟨-, h⟩ | ⟨-, h⟩ <;> cases h
        · exact hinv.burying i' j' e hother
      settled := by
        intro i' y hy hfailed hp'
        obtain rfl := Option.some.inj hy
        simp only [NotificationJob.failedBy] at hfailed
        split at hfailed
        · cases hfailed
        · rename_i hused
          rcases Pool.of_update_some hp' with ⟨rfl, rfl⟩ | ⟨hne, -⟩
          · rcases hlast with ⟨-, h⟩ | ⟨hlow', -⟩
            · cases h
            · omega
          · exact absurd (JobState.failed.inj hfailed).symm hne }

/-- The failure handler writes the dead letter. -/
theorem buried (hinv : Bookkeeping job committed queue none procs) {error : Err}
    (hproc : procs i = some (.bury j error)) {row : Notification} {r : Except Err Unit}
    (hdata : row.status = .deadLetter ∧ row.attempts = j.attemptsMade ∧
      j.recipient = .str row.recipient ∧ row.payload = j.payload) :
    Bookkeeping job committed queue (some row)
      (Function.update procs i (some (.ended r))) where
  copies := hinv.copies
  count := hinv.count
  row row' hrow := by
    obtain rfl := Option.some.inj hrow
    obtain ⟨hcopies, hattempts, ⟨x, hx, hfailed⟩, -⟩ := hinv.handled i _ j hproc rfl
    obtain ⟨hstatus, hmade, hrecipient, hpayload⟩ := hdata
    refine .inr ⟨hinv.absent rfl, ?_, x, i, hx, hfailed⟩
    exact ⟨hstatus, hmade.trans hattempts, hcopies.recipient ▸ hrecipient,
      hpayload.trans hcopies.payload⟩
  absent := by
    rintro ⟨⟩
  held i' p' j' hp' hj' := by
    rcases Pool.of_update_some hp' with ⟨rfl, rfl⟩ | ⟨-, hother⟩
    · cases hj'
    · exact hinv.held i' p' j' hother hj'
  acked i' j' result hp' := by
    rcases Pool.of_update_some hp' with ⟨rfl, hq⟩ | ⟨-, hother⟩
    · cases hq
    · exact hinv.acked i' j' result hother
  gone := hinv.gone
  handled i' p' j' hp' hj' := by
    rcases Pool.of_update_some hp' with ⟨rfl, rfl⟩ | ⟨hne, hother⟩
    · cases hj'
    · exact absurd (hinv.handler_unique hproc rfl hother hj') hne
  burying i' j' e hp' := by
    rcases Pool.of_update_some hp' with ⟨rfl, hq⟩ | ⟨hne, hother⟩
    · cases hq
    · exact absurd (hinv.handler_unique hproc rfl hother rfl) hne
  settled _ _ _ _ _ := by
    rintro ⟨⟩

/-- A crashed attempt gives its job back. -/
theorem crashed (hinv : Bookkeeping job committed queue notice procs) (i : ℕ) :
    Bookkeeping job committed (queue.map (NotificationJob.stalledBy i)) notice
      (Function.update procs i none) := by
  have hstate : ∀ {x i'}, (NotificationJob.stalledBy i x).state = .failed i' ↔
      x.state = .failed i' := by
    intro x i'
    simp only [NotificationJob.stalledBy]
    by_cases hactive : x.state = .active i
    · rw [if_pos hactive, hactive]
      simp
    · rw [if_neg hactive]
  exact
    { copies := by
        intro j' hj'
        obtain ⟨x, hx, rfl⟩ := Option.map_eq_some_iff.mp hj'
        obtain ⟨hpair, hjobId, hrecipient, hpayload⟩ := hinv.copies x hx
        exact ⟨hpair, hjobId, hrecipient, hpayload⟩
      count := by
        intro j' hj'
        obtain ⟨x, hx, rfl⟩ := Option.map_eq_some_iff.mp hj'
        simp only [ne_eq, hstate]
        exact hinv.count x hx
      row := by
        intro row hrow
        rcases hinv.row row hrow with hdelivered | ⟨hnot, hdead, x, i', hx, hfailed⟩
        · exact .inl hdelivered
        · exact .inr ⟨hnot, hdead, _, i', Option.map_eq_some_iff.mpr ⟨x, hx, rfl⟩,
            hstate.mpr hfailed⟩
      absent := hinv.absent
      held := by
        intro i' p' j' hp' hj'
        obtain ⟨hne, hother⟩ := Pool.of_update_none hp'
        obtain ⟨hcopies, x, hx, hactive, hcount⟩ := hinv.held i' p' j' hother hj'
        refine ⟨hcopies, _, Option.map_eq_some_iff.mpr ⟨x, hx, rfl⟩, ?_, hcount⟩
        simp only [NotificationJob.stalledBy]
        rw [if_neg ?_, hactive]
        rw [hactive]
        exact fun h ↦ hne (JobState.active.inj h)
      acked := fun i' j' result hp' ↦ hinv.acked i' j' result (Pool.of_update_none hp').2
      gone := by
        intro hnone
        exact hinv.gone (Option.map_eq_none_iff.mp hnone)
      handled := by
        intro i' p' j' hp' hj'
        obtain ⟨hcopies, hattempts, ⟨x, hx, hfailed⟩, hrow⟩ :=
          hinv.handled i' p' j' (Pool.of_update_none hp').2 hj'
        exact ⟨hcopies, hattempts, ⟨_, Option.map_eq_some_iff.mpr ⟨x, hx, rfl⟩,
          hstate.mpr hfailed⟩, hrow⟩
      burying := fun i' j' e hp' ↦ hinv.burying i' j' e (Pool.of_update_none hp').2
      settled := by
        intro i' x hx hfailed hp'
        obtain ⟨y, hy, rfl⟩ := Option.map_eq_some_iff.mp hx
        exact hinv.settled i' y hy (hstate.mp hfailed) (Pool.of_update_none hp').2 }

theorem congr {committed' : Prop} (hinv : Bookkeeping job committed queue notice procs)
    (h : committed' ↔ committed) : Bookkeeping job committed' queue notice procs := by
  rw [propext h]
  exact hinv

/-- The insertion of an attempt commits when the row appears. -/
def Appears (pair : String × NotificationChannel) (w w' : World) (p : NotifierControl) : Prop :=
  (∃ j, p = .create j) ∧ w.notice pair = none ∧ w'.notice pair ≠ none

theorem settle {jobId : String} {w w' : World}
    (hinv : Bookkeeping job committed (w.notification jobId) (w.notice job.pair) procs)
    (hproc : procs i = some p) (h : NotifierStep jobId job.pair i w w' p q) :
    Bookkeeping job (Appears job.pair w w' p ∨ committed) (w'.notification jobId)
      (w'.notice job.pair) (Function.update procs i (some q)) := by
  have hsilent : (w'.notice job.pair = w.notice job.pair ∨ ∀ j, p ≠ .create j) →
      (Appears job.pair w w' p ∨ committed ↔ committed) := by
    intro hquiet
    apply or_iff_right
    rintro ⟨⟨j, hj⟩, hnone, hsome⟩
    rcases hquiet with hsame | hother
    · exact hsome (hsame.trans hnone)
    · exact hother j hj
  cases h with
  | @taken j hjob hstate hqueue hrow =>
      apply congr _ (hsilent (.inl hrow))
      rw [hqueue, hrow]
      rw [hjob] at hinv
      exact hinv.taken hstate
  | @created j row q hnone hrow hstatus hqueue hq =>
      have happears : Appears job.pair w w' (.create j) :=
        ⟨⟨j, rfl⟩, hnone, Option.ne_none_iff_exists'.mpr ⟨row, hrow⟩⟩
      apply congr _ (iff_true_intro (.inl happears))
      rw [hqueue, hrow]
      rw [hnone] at hinv
      have hcreated := hinv.created hproc rfl hstatus
      exact hcreated.reported hproc (hq.imp_left fun h ↦ ⟨h, trivial⟩)
  | @duplicate j result row hrow hsame =>
      subst hsame
      apply congr _ (hsilent (.inl rfl))
      have hcommitted := (hinv.delivered_of_held hproc rfl hrow).1
      exact hinv.reported hproc (.inl ⟨⟨result, rfl⟩, hcommitted⟩)
  | @createFailed j e hrow hqueue =>
      apply congr _ (hsilent (.inl hrow))
      rw [hqueue, hrow]
      exact hinv.reported hproc (.inr ⟨e, rfl⟩)
  | acked hqueue hrow =>
      apply congr _ (hsilent (.inl hrow))
      rw [hqueue, hrow]
      exact hinv.acknowledged hproc
  | failed hqueue hrow =>
      apply congr _ (hsilent (.inl hrow))
      rw [hqueue, hrow]
      exact hinv.failed hproc
  | @skipped j error hdelivered hsame =>
      subst hsame
      apply congr _ (hsilent (.inl rfl))
      obtain ⟨row, hrow, -⟩ := hdelivered
      exact hinv.finished hproc fun _ ↦ Option.ne_none_iff_exists'.mpr ⟨row, hrow⟩
  | @found j error hnot hsame =>
      subst hsame
      apply congr _ (hsilent (.inl rfl))
      apply hinv.moved hproc
      · rintro _ ⟨⟩
      · rintro _ _ ⟨⟩
      · exact fun _ h ↦ h
      · intro _ _ _
        rw [Option.eq_none_iff_forall_ne_some]
        intro row hrow
        exact hnot ⟨row, hrow, (hinv.handled i _ j hproc rfl).2.2.2 row hrow⟩
      · rintro ⟨⟩
  | findFailed hsame =>
      subst hsame
      apply congr _ (hsilent (.inl rfl))
      apply hinv.finished hproc
      rintro ⟨⟩
  | @buried j error r row hrow hdata hqueue =>
      have hnone := hinv.burying i j error hproc
      apply congr _ (hsilent (.inr (by rintro _ ⟨⟩)))
      rw [hqueue, hrow]
      rw [hnone] at hinv
      exact hinv.buried hproc (hdata hnone)
  | buryFailed hrow hqueue =>
      apply congr _ (hsilent (.inl hrow))
      rw [hqueue, hrow]
      apply hinv.finished hproc
      rintro ⟨⟩

end Bookkeeping

end TransactionLedger
