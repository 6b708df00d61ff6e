import TransactionLedger.Notification.Bookkeeping

/-!
# The outcome of a notification job

The attempts of one job run one after another.  When the job has ended, its row is
DELIVERED exactly when some insertion has committed, even one whose attempt threw or
crashed, and otherwise it is the dead letter of the last failure.
-/

namespace TransactionLedger

open Async Data NotificationProcessor

section

variable (pair : String × NotificationChannel) {d : Delivery} {P : Type}

/-- The stage commits an insertion for the pair. -/
def Commits (L : Pool (ledger d) Unit P) (s : Pool.Stage (ledger d) P) : Prop :=
  ∃ i f id data, s.move = .settle i f ∧
    L.pending s.before i = some (.notificationCreate id data) ∧
      s.before.store.notice pair = none ∧ s.after.store.notice pair ≠ none

/-- The job is acknowledged, or the failure handler of its last attempt has completed. -/
def Ended (jobId : String) (L : Pool (ledger d) Unit P) (c : Config calls World ℕ P) : Prop :=
  c.store.notification jobId = none ∨
    ∃ job i, c.store.notification jobId = some job ∧ job.state = .failed i ∧
      L.result c i = some (.ok ())

/-- The row that a job which has ended leaves behind. -/
structure Classified (job : NotificationJob) (L : Pool (ledger d) Unit P)
    (past : List (Pool.Stage (ledger d) P)) (w : World) : Prop where
  one : w.notifications.count (fun row ↦ row.pair = job.pair) = 1
  row : ∃ row, w.notice job.pair = some row ∧
    ((∃ s ∈ past, Commits job.pair L s) ∧ row.status = .delivered ∨
      (¬∃ s ∈ past, Commits job.pair L s) ∧ DeadLetterOf job row)

end

section

variable {nf : Notifiers} {job : NotificationJob} {a b c : Config calls World ℕ NotifierControl}
  {m : (ledger .exclusive).Moves}
  {past : List (Pool.Stage (ledger .exclusive) NotifierControl)}

theorem commits_iff {i : ℕ} {f : Fate} {p : NotifierControl} {op : Op}
    {k : ℕ → Except Err op.Res → NotifierControl} {pair : String × NotificationChannel}
    (hproc : a.procs i = some p)
    (hview : (nf.control (ledger .exclusive)).view i p = .await op k) :
    Commits pair (nf.control (ledger .exclusive)) ⟨a, .settle i f, b⟩ ↔
      Bookkeeping.Appears pair a.store b.store p := by
  have hpending := Pool.pending_of_view hproc hview
  constructor
  · rintro ⟨j, f', id, data, hmove, hop, hnone, hsome⟩
    cases hmove
    cases hpending.symm.trans hop
    refine ⟨?_, hnone, hsome⟩
    cases p with
    | create job => exact ⟨job, rfl⟩
    | _ => cases hview
  · rintro ⟨⟨job, rfl⟩, hnone, hsome⟩
    cases hview
    exact ⟨i, f, _, _, rfl, hpending, hnone, hsome⟩

/-- The bookkeeping of a trace. -/
def Kept (nf : Notifiers) (job : NotificationJob)
    (past : List (Pool.Stage (ledger .exclusive) NotifierControl))
    (c : Config calls World ℕ NotifierControl) : Prop :=
  Bookkeeping job (∃ s ∈ past, Commits job.pair (nf.control (ledger .exclusive)) s)
    (c.store.notification nf.jobId) (c.store.notice job.pair) c.procs

theorem Kept.step (hinv : Kept nf job past a) (hjobId : job.jobId = nf.jobId)
    (hstep : (nf.control (ledger .exclusive)).Step a m b) :
    Kept nf job (⟨a, m, b⟩ :: past) b := by
  have hpast := List.exists_mem_cons_iff
    (Commits job.pair (nf.control (ledger .exclusive))) ⟨a, m, b⟩ past
  cases hstep with
  | @settle i f p op k r w' hproc hview hsettle =>
      have hnext : NotifierStep nf.jobId job.pair i a.store w' p (k w'.clock r) := by
        apply notifier_step hview hsettle
        rintro j (hj | hj)
        · have hcopies := (Bookkeeping.held hinv i p j hproc hj).1
          exact ⟨hcopies.pair, hcopies.jobId.trans hjobId⟩
        · have hcopies := (Bookkeeping.handled hinv i p j hproc hj).1
          exact ⟨hcopies.pair, hcopies.jobId.trans hjobId⟩
      apply Bookkeeping.congr (Bookkeeping.settle hinv hproc hnext)
      rw [hpast]
      exact or_congr (commits_iff hproc hview) Iff.rfl
  | @crash i p op k hproc hview =>
      have hcrashed := Bookkeeping.crashed hinv i
      rw [← World.crash_notification] at hcrashed
      apply Bookkeeping.congr hcrashed
      rw [hpast]
      apply or_iff_right
      rintro ⟨j, f, id, data, hmove, -⟩
      cases hmove
  | @drift dr w' hdrift =>
      obtain rfl := Option.some.inj hdrift
      have hkept : Kept nf job past { a with store := a.store.drift dr } := by
        have hqueue := World.drift_notification a.store dr nf.jobId
        have hrow := World.drift_notice a.store dr job.pair
        change Bookkeeping job _ ((a.store.drift dr).notification nf.jobId)
          ((a.store.drift dr).notice job.pair) a.procs
        rw [hqueue, hrow]
        exact hinv
      apply Bookkeeping.congr hkept
      rw [hpast]
      apply or_iff_right
      rintro ⟨j, f, id, data, hmove, -⟩
      cases hmove

theorem kept_start {w : World} (hjob : w.notification nf.jobId = some job)
    (hwaiting : job.state = .waiting) (hfresh : job.attemptsMade < NOTIFICATION_MAX_ATTEMPTS)
    (hnone : w.notice job.pair = none) : Kept nf job [] (notifiersStart w) where
  copies j hj := by
    obtain rfl := Option.some.inj (hjob.symm.trans hj)
    exact ⟨rfl, rfl, rfl, rfl⟩
  count j hj := by
    obtain rfl := Option.some.inj (hjob.symm.trans hj)
    refine .inl ⟨hfresh, fun i ↦ ?_⟩
    rw [hwaiting]
    rintro ⟨⟩
  row row hrow := by
    cases hnone.symm.trans hrow
  absent _ := by
    rintro ⟨s, hs, -⟩
    cases hs
  held i p j hp hj := by
    obtain rfl := Option.some.inj hp
    cases hj
  acked i j result hp := by
    cases hp
  gone hgone := by
    cases hjob.symm.trans hgone
  handled i p j hp hj := by
    obtain rfl := Option.some.inj hp
    cases hj
  burying i j e hp := by
    cases hp
  settled i q hq hfailed hp := by
    cases hp

/-- The row of a job that has ended is known. -/
theorem Kept.classified (hinv : Kept nf job past c)
    (hended : Ended nf.jobId (nf.control (ledger .exclusive)) c) :
    Classified job (nf.control (ledger .exclusive)) past c.store := by
  have hsome : c.store.notice job.pair ≠ none := by
    rcases hended with hgone | ⟨q, i, hq, hfailed, hresult⟩
    · intro hnone
      exact Bookkeeping.absent hinv hnone (Bookkeeping.gone hinv hgone)
    · apply Bookkeeping.settled hinv i q hq hfailed
      obtain ⟨p, hproc, hp⟩ := Option.bind_eq_some_iff.mp hresult
      cases p with
      | ended r =>
          obtain rfl : r = .ok () := Option.some.inj hp
          exact hproc
      | _ => cases hp
  obtain ⟨row, hrow⟩ := Option.ne_none_iff_exists'.mp hsome
  refine ⟨Table.count_eq_one hrow, row, hrow, ?_⟩
  rcases Bookkeeping.row hinv row hrow with hdelivered | ⟨hnot, hdead, -⟩
  · exact .inl hdelivered
  · exact .inr ⟨hnot, hdead⟩

end

/-! ## The programs -/

theorem commits_map {nf : Notifiers} {d : Delivery} {pair : String × NotificationChannel}
    {s : Pool.Stage (ledger d) NotifierControl} :
    Commits pair ((ledger d).programs Unit) (s.map nf.code) ↔
      Commits pair (nf.control (ledger d)) s := by
  simp only [Commits, Pool.Stage.map, (nf.control_implements (ledger d)).pending_map]
  rfl

/-- In every run of the attempts at one job that starts without a row, the row of the
job that has ended is classified by whether an insertion has committed. -/
theorem classified_of_ended (nf : Notifiers) {w : World} {job : NotificationJob}
    (hjob : w.notification nf.jobId = some job) (hwaiting : job.state = .waiting)
    (hfresh : job.attemptsMade < NOTIFICATION_MAX_ATTEMPTS) (hnone : w.notice job.pair = none)
    {past : List (Pool.Stage (ledger .exclusive) (Promise Unit))}
    {c : Config calls World ℕ (Promise Unit)}
    (h : ((ledger .exclusive).programs Unit).Trace Pool.anyStage (nf.start w) past c)
    (hended : Ended nf.jobId ((ledger .exclusive).programs Unit) c) :
    Classified job ((ledger .exclusive).programs Unit) past c.store := by
  have himpl := nf.control_implements (ledger .exclusive)
  rw [← nf.map_notifiersStart] at h
  obtain ⟨past, c, rfl, rfl, hc⟩ := himpl.lift_trace h
  have hjobId : job.jobId = nf.jobId := Table.key_of_lookup hjob
  have hkept : Kept nf job past c := hc.invariant (Kept nf job)
    (kept_start hjob hwaiting hfresh hnone) fun _ hstep _ hinv ↦ hinv.step hjobId hstep
  have hended' : Ended nf.jobId (nf.control (ledger .exclusive)) c := by
    simp only [Ended, himpl.result_map] at hended
    exact hended
  obtain ⟨hone, hrow⟩ := hkept.classified hended'
  refine ⟨hone, ?_⟩
  have hcommits : (∃ s ∈ past.map (Pool.Stage.map nf.code),
      Commits job.pair ((ledger .exclusive).programs Unit) s) ↔
        ∃ s ∈ past, Commits job.pair (nf.control (ledger .exclusive)) s := by
    simp only [List.mem_map, exists_exists_and_eq_and, commits_map]
  rw [hcommits]
  exact hrow

/-- Workers for the notification of the transaction "t". -/
def emailWorkers : Notifiers where
  jobId := TransactionProcessor.notificationJobId "t"
  rowId _ := "n"
  deadId _ := "n"

/-- The completed transaction "t" has been announced. -/
def World.announced : World :=
  ((World.enqueued "t").answer (.notificationQueueAdd (emailJob 0))).2

/-- The insertion of attempt 0 commits and throws, and attempt 1 finds the row. -/
def commitThenThrow : List (ledger .exclusive).Moves :=
  [.settle 0 .run, .settle 0 (.torn (.error "timeout")), .settle 0 .run, .settle 1 .run,
    .settle 1 .run, .settle 1 .run]

theorem classified_commitThenThrow :
    Classified (emailJob 0) ((ledger .exclusive).programs Unit)
      (((ledger .exclusive).programs Unit).trailed (fun _ _ ↦ true) []
        (emailWorkers.start .announced) commitThenThrow).1
      (((ledger .exclusive).programs Unit).trailed (fun _ _ ↦ true) []
        (emailWorkers.start .announced) commitThenThrow).2.store :=
  classified_of_ended emailWorkers rfl rfl (by decide) rfl
    (Pool.trace_trailed (fun _ _ _ ↦ trivial) .start rfl) (.inl rfl)

end TransactionLedger
