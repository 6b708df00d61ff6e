import TransactionLedger.Async.Trace
import TransactionLedger.Transaction.Stranding

/-!
# A completed transaction is announced

Three branches of `process` acknowledge the job.  Two of them have announced the
transaction; the third has found the row taken by an attempt that is gone, so that
nobody completes it any more.
-/

namespace TransactionLedger

open Async Data TransactionProcessor

/-- `fromAccount ?? toAccount` is somebody to notify. -/
def CreateTransactionDto.HasRecipient (dto : CreateTransactionDto) : Prop :=
  ∃ account, recipient dto.fromAccount dto.toAccount = some account ∧ account.truthy

/-- The notification of the transaction has been queued. -/
def Notified (id : String) (w : World) : Prop :=
  ∃ notification, w.notification (notificationJobId id) = some notification

/-- The calls of an attempt at the job between its start and the report of its
outcome. -/
def Op.Attempts (id : String) : Op → Prop
  | .transactionFindUnique k => k = id
  | .transactionUpdateMany k (.oneOf _) _ => k = id
  | .transactionUpdate k _ => k = id
  | .notificationQueueAdd job => job.transactionId = id
  | .completeJob k => k = id
  | .failJob _ k => k = id
  | _ => False

section

variable (id : String) {d : Delivery} {α P : Type}

/-- Process `i` runs an attempt at the job. -/
def Attempting (L : Pool (ledger d) α P) (c : Config calls World ℕ P) (i : ℕ) : Prop :=
  ∃ op, L.pending c i = some op ∧ op.Attempts id

/-- Some `process` of the job has returned normally: its worker went on to the
acknowledgement. -/
def Returned (L : Pool (ledger d) α P) (past : List (Pool.Stage (ledger d) P)) : Prop :=
  ∃ s ∈ past, ∃ i, L.pending s.after i = some (.completeJob id)

/-- The stage starts no attempt while another one runs, or after a normal return. -/
def OneAfterAnother (L : Pool (ledger d) α P) (past : List (Pool.Stage (ledger d) P))
    (s : Pool.Stage (ledger d) P) : Prop :=
  ∀ i f worker, s.move = .settle i f → L.pending s.before i = some (.takeJob worker id) →
    (∀ j, ¬Attempting id L s.before j) ∧ ¬Returned id L past

end

variable {lib : DecimalLib} {target : ℕ → String} {d : Delivery} {id : String}

theorem transactionId_of_notificationFor {row : Transaction} {fromAccount toAccount : Option Json}
    {notification : NotificationJob}
    (h : notificationFor lib row fromAccount toAccount = some notification) :
    notification.transactionId = row.id := by
  simp only [notificationFor] at h
  split at h
  · cases h
  · split at h <;> cases h
    rfl

theorem announcing_of_hasRecipient {job : TransactionJobData} {row : Transaction}
    (h : job.dto.HasRecipient) : ∃ notification,
      WorkerControl.announcing lib job row = .announce job notification row ∧
        notification.transactionId = row.id ∧
          notification.jobId = notificationJobId row.id := by
  obtain ⟨account, haccount, htruthy⟩ := h
  simp only [WorkerControl.announcing]
  cases hfor : notificationFor lib row job.dto.fromAccount job.dto.toAccount with
  | none => simp [notificationFor, haccount, htruthy] at hfor
  | some notification =>
      exact ⟨notification, rfl, transactionId_of_notificationFor hfor,
        jobId_of_notificationFor hfor⟩

/-! ## The invariant -/

/-- The attempts at the job, with the knowledge each of them has. -/
structure Announcing (lib : DecimalLib) (target : ℕ → String) (id : String) (returned : Prop)
    (c : Config calls World ℕ WorkerControl) : Prop where
  queued : ∀ job, c.store.job id = some job → job.data.dto.HasRecipient
  held : ∀ i p job, c.procs i = some p → p.holds = some job → job.transactionId = id →
    job.dto.HasRecipient
  unique : ∀ i j p q job job', c.procs i = some p → c.procs j = some q →
    p.holds = some job → q.holds = some job' → job.transactionId = id →
      job'.transactionId = id → i = j
  addressed : ∀ i job notification row, c.procs i = some (.announce job notification row) →
    job.transactionId = id →
      notification.transactionId = id ∧ notification.jobId = notificationJobId id
  guarding : ∀ i job existing, c.procs i = some (.guard job existing) →
    job.transactionId = id → ¬Completed id c.store
  acking : ∀ i job result, c.procs i = some (.ack job result) → job.transactionId = id →
    Completed id c.store → Notified id c.store
  last : returned → ∀ i p job, c.procs i = some p → p.holds = some job →
    job.transactionId = id → ∃ result, p = .ack job result
  notified : returned → Completed id c.store → Notified id c.store

theorem attempting_of_holds {returned : Prop} {c : Config calls World ℕ WorkerControl}
    (hinv : Announcing lib target id returned c) {i : ℕ} {p : WorkerControl}
    {job : TransactionJobData} (hproc : c.procs i = some p) (hholds : p.holds = some job)
    (hid : job.transactionId = id) : Attempting id (workers (ledger d) lib target) c i := by
  cases p with
  | announce job' notification row =>
      obtain rfl := Option.some.inj hholds
      exact ⟨_, Pool.pending_of_view hproc rfl, (hinv.addressed i _ _ _ hproc hid).1⟩
  | find | guard | completeUpdate | ack | fail =>
      obtain rfl := Option.some.inj hholds
      exact ⟨_, Pool.pending_of_view hproc rfl, hid⟩
  | take | onFailed | ended => cases hholds

section Settle

variable {returned : Prop} {c : Config calls World ℕ WorkerControl} {f : Fate} {w' : World}
  {i : ℕ} {p q : WorkerControl} {op : Op} {k : ℕ → Except Err op.Res → WorkerControl}
  {r : Except Err op.Res}

/-- A notification stays queued. -/
theorem Notified.settle {w : World} {t : String} (h : Notified id w)
    (hview : p.view lib i t = .await op k) (hsettle : w.settle d f op = some (r, w')) :
    Notified id w' := by
  obtain ⟨found, hfound⟩ := h
  rcases World.settle_notification hsettle (notificationJobId id) with hsame | heffect
  · exact ⟨found, hsame.trans hfound⟩
  rw [Notified, heffect, hfound]
  cases p with
  | announce job notification row =>
      cases hview
      exact ⟨found, ite_self _⟩
  | ended r => cases hview
  | _ =>
      cases hview
      exact ⟨found, rfl⟩

/-- An announcement that resolves has queued a notification. -/
theorem notified_of_add {w : World} {notification : NotificationJob} {a : Unit}
    (h : w.settle d f (.notificationQueueAdd notification) = some (.ok a, w')) :
    ∃ found, w'.notification notification.jobId = some found := by
  have hafter := World.answer_notification w (.notificationQueueAdd notification)
    notification.jobId
  rw [World.settle_ok h] at hafter
  simp only [Op.onNotification, if_true] at hafter
  rw [hafter]
  cases w.notification notification.jobId with
  | none => exact ⟨_, rfl⟩
  | some found => exact ⟨_, rfl⟩

/-- Only the second update of an attempt completes the transaction. -/
theorem completed_back {w : World} {t : String} (hview : p.view lib i t = .await op k)
    (hsettle : w.settle d f op = some (r, w')) (h : Completed id w') :
    Completed id w ∨ ∃ job, p = .completeUpdate job ∧ job.transactionId = id := by
  obtain ⟨row, hrow, hstatus⟩ := h
  rcases worker_status id hview hsettle with hsame | ⟨old, new, -, hnew, hchange⟩
  · exact .inl ⟨row, hsame.symm.trans hrow, hstatus⟩
  obtain rfl := Option.some.inj (hrow.symm.trans hnew)
  cases hchange with
  | started => cases hstatus
  | completed hid => exact .inr ⟨_, rfl, hid⟩
  | failed => cases hstatus

/-- Another attempt at work on the job keeps this one from completing the transaction. -/
theorem Announcing.completed_other (hinv : Announcing lib target id returned c)
    (hproc : c.procs i = some p) (hview : p.view lib i (target i) = .await op k)
    (hsettle : c.store.settle d f op = some (r, w')) {j : ℕ} {p' : WorkerControl}
    {job : TransactionJobData} (hother : c.procs j = some p') (hholds : p'.holds = some job)
    (hid : job.transactionId = id) (hupdate : ∀ job', p' ≠ .completeUpdate job')
    (h : Completed id w') : Completed id c.store := by
  rcases completed_back hview hsettle h with hbefore | ⟨job', rfl, hid'⟩
  · exact hbefore
  · obtain rfl := hinv.unique i j _ p' job' job hproc hother rfl hholds hid' hid
    exact absurd (Option.some.inj (hother.symm.trans hproc)) (hupdate job')

/-- The legality of a step that takes the job. -/
theorem target_of_take {t : String} {queued : TransactionJob}
    (hjob : c.store.job t = some queued) (hid : queued.data.transactionId = id) : t = id :=
  (Table.key_of_lookup hjob).symm.trans hid

theorem Announcing.free (hinv : Announcing lib target id returned c)
    {past : List (Pool.Stage (ledger d) WorkerControl)}
    {b : Config calls World ℕ WorkerControl} {f : (ledger d).Fate}
    (hlegal : OneAfterAnother id (workers (ledger d) lib target) past ⟨c, .settle i f, b⟩)
    (hproc : c.procs i = some .take) (htarget : target i = id) :
    (∀ j p job, c.procs j = some p → p.holds = some job → job.transactionId ≠ id) ∧
      ¬Returned id (workers (ledger d) lib target) past := by
  have hpending : (workers (ledger d) lib target).pending c i = some (.takeJob i (target i)) :=
    Pool.pending_of_view hproc rfl
  rw [htarget] at hpending
  obtain ⟨hfree, hnot⟩ := hlegal i f i rfl hpending
  refine ⟨fun j p job hj hholds hid ↦ ?_, hnot⟩
  exact hfree j (attempting_of_holds hinv hj hholds hid)

theorem Announcing.settle_held (hinv : Announcing lib target id returned c)
    (hproc : c.procs i = some p) (hview : p.view lib i (target i) = .await op k)
    (hsettle : c.store.settle d f op = some (r, w')) {job : TransactionJobData}
    (hholds : (k w'.clock r).holds = some job) (hid : job.transactionId = id) :
    job.dto.HasRecipient := by
  rcases (worker_step hview hsettle).holds_next hholds with hbefore | ⟨rfl, queued, hqueued, rfl⟩
  · exact hinv.held i p job hproc hbefore hid
  · obtain rfl := target_of_take hqueued hid
    exact hinv.queued queued hqueued

/-- What is announced is addressed by the id of the transaction. -/
theorem WorkerStep.addressed {t : String} {w : World} {job : TransactionJobData}
    {notification : NotificationJob} {row : Transaction}
    (h : WorkerStep lib t w w' p (.announce job notification row)) :
    notification.transactionId = job.transactionId ∧
      notification.jobId = notificationJobId job.transactionId := by
  have hfor : ∀ {job' : TransactionJobData} {row' : Transaction},
      row'.id = job'.transactionId →
        WorkerControl.announcing lib job' row' = .announce job notification row →
          notification.transactionId = job.transactionId ∧
            notification.jobId = notificationJobId job.transactionId := by
    intro job' row' hkey hann
    simp only [WorkerControl.announcing] at hann
    cases hnotification : notificationFor lib row' job'.dto.fromAccount job'.dto.toAccount with
    | none =>
        rw [hnotification] at hann
        cases hann
    | some found =>
        rw [hnotification] at hann
        cases hann
        rw [← hkey]
        exact ⟨transactionId_of_notificationFor hnotification,
          jobId_of_notificationFor hnotification⟩
  cases h with
  | foundCompleted hrow hcompleted hann => exact hfor (Table.key_of_lookup hrow) hann
  | completed hafter hann => exact hfor (Table.key_of_lookup hafter) hann

theorem sealing_of_announcing {job : TransactionJobData} {row : Transaction}
    (h : WorkerControl.announcing lib job row = q) : q.Sealing := by
  rcases announcing_cases lib job row with ⟨_, heq⟩ | ⟨_, heq⟩ <;> rw [← h, heq] <;> trivial

theorem WorkerStep.guarding {t : String} {w : World} {job : TransactionJobData}
    {existing : Transaction} (h : WorkerStep lib t w w' p (.guard job existing)) :
    p = .find job ∧ w.transaction job.transactionId = some existing ∧
      existing.status ≠ .completed := by
  cases h with
  | found hrow hstatus => exact ⟨rfl, hrow, hstatus⟩
  | foundCompleted _ _ hann => exact (sealing_of_announcing hann).elim
  | completed _ hann => exact (sealing_of_announcing hann).elim

/-- An attempt at the guarded update has read that the transaction is not completed. -/
theorem settle_guarding (hview : p.view lib i (target i) = .await op k)
    (hsettle : c.store.settle d f op = some (r, w')) {job : TransactionJobData}
    {existing : Transaction} (hq : k w'.clock r = .guard job existing)
    (hid : job.transactionId = id) : ¬Completed id w' := by
  intro hcompleted
  have hnext := worker_step hview hsettle
  rw [hq] at hnext
  obtain ⟨rfl, hrow, hstatus⟩ := hnext.guarding
  rw [hid] at hrow
  rcases completed_back hview hsettle hcompleted with ⟨row, hrow', hstatus'⟩ | ⟨job', hfind, -⟩
  · obtain rfl := Option.some.inj (hrow.symm.trans hrow')
    exact hstatus hstatus'
  · cases hfind

/-- The three branches that acknowledge the job. -/
theorem Announcing.settle_acking (hinv : Announcing lib target id returned c)
    (hproc : c.procs i = some p) (hview : p.view lib i (target i) = .await op k)
    (hsettle : c.store.settle d f op = some (r, w')) {job : TransactionJobData}
    {result : Option Transaction} (hq : k w'.clock r = .ack job result)
    (hid : job.transactionId = id) (hcompleted : Completed id w') : Notified id w' := by
  have hnext := worker_step hview hsettle
  have hrecipient : ∀ {job' : TransactionJobData} {row : Transaction},
      p.holds = some job' → WorkerControl.announcing lib job' row = .ack job result →
        False := by
    intro job' row hholds hann
    have hjob : job' = job := by
      have hann' := WorkerControl.holds_announcing lib job' row
      rw [hann] at hann'
      exact (Option.some.inj hann').symm
    subst hjob
    obtain ⟨notification, hannounce, -⟩ :=
      announcing_of_hasRecipient (hinv.held i p job' hproc hholds hid)
    cases hann.symm.trans hannounce
  generalize hack : k w'.clock r = q at hnext hq
  cases hnext with
  | @absent job' hrow =>
      cases hq
      rw [hid] at hrow
      rcases completed_back hview hsettle hcompleted with ⟨row, hrow', -⟩ | ⟨job'', hfind, -⟩
      · cases hrow.symm.trans hrow'
      · cases hfind
  | foundCompleted hrow hstatus hann => exact (hrecipient rfl (hann.trans hq)).elim
  | @skipped job' existing hstatus =>
      cases hq
      rcases completed_back hview hsettle hcompleted with hbefore | ⟨job'', hguard, -⟩
      · exact absurd hbefore (hinv.guarding i _ _ hproc hid)
      · cases hguard
  | completed hafter hann => exact (hrecipient rfl (hann.trans hq)).elim
  | @announced job' notification transaction =>
      cases hq
      have haddressed := (hinv.addressed i _ _ _ hproc hid).2
      cases hview
      rcases r with e | a
      · cases hack
      · obtain ⟨found, hfound⟩ := notified_of_add hsettle
        exact ⟨found, haddressed ▸ hfound⟩
  | _ => cases hq

/-- An attempt that holds the job is the only one. -/
theorem Announcing.settle_unique (hinv : Announcing lib target id returned c)
    {past : List (Pool.Stage (ledger d) WorkerControl)}
    {b : Config calls World ℕ WorkerControl}
    (hlegal : OneAfterAnother id (workers (ledger d) lib target) past ⟨c, .settle i f, b⟩)
    (hproc : c.procs i = some p) (hview : p.view lib i (target i) = .await op k)
    (hsettle : c.store.settle d f op = some (r, w')) {job job' : TransactionJobData}
    (hholds : (k w'.clock r).holds = some job) (hid : job.transactionId = id) {j : ℕ}
    {p' : WorkerControl} (hother : c.procs j = some p') (hholds' : p'.holds = some job')
    (hid' : job'.transactionId = id) : i = j := by
  rcases (worker_step hview hsettle).holds_next hholds with hbefore | ⟨rfl, queued, hqueued, rfl⟩
  · exact hinv.unique i j p p' job job' hproc hother hbefore hholds' hid hid'
  · have hfree := (hinv.free hlegal hproc (target_of_take hqueued hid)).1
    exact absurd hid' (hfree j p' job' hother hholds')

theorem Announcing.settle_queued (hinv : Announcing lib target id returned c)
    (hview : p.view lib i (target i) = .await op k)
    (hsettle : c.store.settle d f op = some (r, w')) {job : TransactionJob}
    (hjob : w'.job id = some job) : job.data.dto.HasRecipient := by
  rcases worker_job id hview hsettle with hsame | hchange
  · exact hinv.queued job (hsame.symm.trans hjob)
  · rw [hjob] at hchange
    generalize hbefore : c.store.job id = before at hchange
    cases hchange with
    | @taken old hid => exact hinv.queued old hbefore
    | @failed data error old hid => exact hinv.queued old hbefore

/-- After a normal return the only attempt left is about to acknowledge. -/
theorem Announcing.settle_last {past : List (Pool.Stage (ledger d) WorkerControl)}
    {b : Config calls World ℕ WorkerControl}
    (hinv : Announcing lib target id (Returned id (workers (ledger d) lib target) past) c)
    (hlegal : OneAfterAnother id (workers (ledger d) lib target) past ⟨c, .settle i f, b⟩)
    (hproc : c.procs i = some p) (hview : p.view lib i (target i) = .await op k)
    (hsettle : c.store.settle d f op = some (r, w'))
    (hreturned : Returned id (workers (ledger d) lib target) past)
    {job : TransactionJobData} (hholds : (k w'.clock r).holds = some job)
    (hid : job.transactionId = id) : False := by
  rcases (worker_step hview hsettle).holds_next hholds with hbefore | ⟨rfl, queued, hqueued, rfl⟩
  · obtain ⟨result, rfl⟩ := hinv.last hreturned i p job hproc hbefore hid
    cases hview
    cases hholds
  · exact (hinv.free hlegal hproc (target_of_take hqueued hid)).2 hreturned

end Settle

section Step

variable {a b : Config calls World ℕ WorkerControl} {m : (ledger d).Moves}
  {past : List (Pool.Stage (ledger d) WorkerControl)} {returned : Prop}

theorem Announcing.settle {i : ℕ} {f : Fate} {p : WorkerControl} {op : Op}
    {k : ℕ → Except Err op.Res → WorkerControl} {r : Except Err op.Res} {w' : World}
    {log : List (Event calls ℕ)}
    (hinv : Announcing lib target id (Returned id (workers (ledger d) lib target) past) a)
    (hlegal : OneAfterAnother id (workers (ledger d) lib target) past ⟨a, .settle i f, b⟩)
    (hproc : a.procs i = some p) (hview : p.view lib i (target i) = .await op k)
    (hsettle : a.store.settle d f op = some (r, w')) :
    Announcing lib target id (Returned id (workers (ledger d) lib target) past)
      ⟨w', Function.update a.procs i (some (k w'.clock r)), log⟩ where
  queued job hjob := hinv.settle_queued hview hsettle hjob
  held j q job hj hholds hid := by
    rcases Pool.of_update_some hj with ⟨rfl, rfl⟩ | ⟨-, hother⟩
    · exact hinv.settle_held hproc hview hsettle hholds hid
    · exact hinv.held j q job hother hholds hid
  unique j j' q q' job job' hj hj' hholds hholds' hid hid' := by
    rcases Pool.of_update_some hj with ⟨rfl, rfl⟩ | ⟨-, hother⟩
    · rcases Pool.of_update_some hj' with ⟨rfl, -⟩ | ⟨-, hother'⟩
      · rfl
      · exact hinv.settle_unique hlegal hproc hview hsettle hholds hid hother' hholds' hid'
    · rcases Pool.of_update_some hj' with ⟨rfl, rfl⟩ | ⟨-, hother'⟩
      · exact (hinv.settle_unique hlegal hproc hview hsettle hholds' hid' hother hholds hid).symm
      · exact hinv.unique j j' q q' job job' hother hother' hholds hholds' hid hid'
  addressed j job notification row hj hid := by
    rcases Pool.of_update_some hj with ⟨rfl, hq⟩ | ⟨-, hother⟩
    · have hnext := worker_step hview hsettle
      rw [← hq] at hnext
      rw [← hid]
      exact hnext.addressed
    · exact hinv.addressed j job notification row hother hid
  guarding j job existing hj hid := by
    rcases Pool.of_update_some hj with ⟨rfl, hq⟩ | ⟨-, hother⟩
    · exact settle_guarding hview hsettle hq.symm hid
    · intro hcompleted
      refine hinv.guarding j job existing hother hid ?_
      exact hinv.completed_other hproc hview hsettle hother rfl hid (by rintro _ ⟨⟩) hcompleted
  acking j job result hj hid hcompleted := by
    rcases Pool.of_update_some hj with ⟨rfl, hq⟩ | ⟨-, hother⟩
    · exact hinv.settle_acking hproc hview hsettle hq.symm hid hcompleted
    · have hbefore := hinv.completed_other hproc hview hsettle hother rfl hid
        (by rintro _ ⟨⟩) hcompleted
      exact (hinv.acking j job result hother hid hbefore).settle hview hsettle
  last hreturned j q job hj hholds hid := by
    rcases Pool.of_update_some hj with ⟨rfl, rfl⟩ | ⟨-, hother⟩
    · exact (hinv.settle_last hlegal hproc hview hsettle hreturned hholds hid).elim
    · exact hinv.last hreturned j q job hother hholds hid
  notified hreturned hcompleted := by
    rcases completed_back hview hsettle hcompleted with hbefore | ⟨job, rfl, hid⟩
    · exact (hinv.notified hreturned hbefore).settle hview hsettle
    · obtain ⟨result, hack⟩ := hinv.last hreturned i _ job hproc rfl hid
      cases hack

theorem Announcing.step
    (hinv : Announcing lib target id (Returned id (workers (ledger d) lib target) past) a)
    (hlegal : OneAfterAnother id (workers (ledger d) lib target) past ⟨a, m, b⟩)
    (hstep : (workers (ledger d) lib target).Step a m b) :
    Announcing lib target id (Returned id (workers (ledger d) lib target) past) b := by
  cases hstep with
  | settle hproc hview hsettle => exact hinv.settle hlegal hproc hview hsettle
  | @crash i p op k hproc hview =>
      have hkept : Notified id a.store → Notified id (a.store.crash i) := by
        rintro ⟨notification, hnotification⟩
        refine ⟨notification.stalledBy i, ?_⟩
        rw [World.crash_notification, hnotification]
        rfl
      exact
        { queued := by
            intro job hjob
            obtain ⟨old, hold, rfl⟩ := Option.map_eq_some_iff.mp
              ((World.crash_job ..).symm.trans hjob)
            exact hinv.queued old hold
          held := fun j q job hj ↦ hinv.held j q job (Pool.of_update_none hj).2
          unique := fun j j' q q' job job' hj hj' ↦ hinv.unique j j' q q' job job'
            (Pool.of_update_none hj).2 (Pool.of_update_none hj').2
          addressed := fun j job notification row hj ↦
            hinv.addressed j job notification row (Pool.of_update_none hj).2
          guarding := fun j job existing hj ↦
            hinv.guarding j job existing (Pool.of_update_none hj).2
          acking := fun j job result hj hid hcompleted ↦
            hkept (hinv.acking j job result (Pool.of_update_none hj).2 hid hcompleted)
          last := fun hreturned j q job hj ↦
            hinv.last hreturned j q job (Pool.of_update_none hj).2
          notified := fun hreturned hcompleted ↦ hkept (hinv.notified hreturned hcompleted) }
  | @drift dr w' hdrift =>
      obtain rfl := Option.some.inj hdrift
      have hback : Completed id (a.store.drift dr) → Completed id a.store := by
        rintro ⟨row, hrow, hstatus⟩
        exact ⟨row, (World.drift_transaction ..).symm.trans hrow, hstatus⟩
      have hkept : Notified id a.store → Notified id (a.store.drift dr) := by
        rintro ⟨notification, hnotification⟩
        exact ⟨notification, (World.drift_notification ..).trans hnotification⟩
      exact
        { queued := fun job hjob ↦ hinv.queued job ((World.drift_job ..).symm.trans hjob)
          held := hinv.held
          unique := hinv.unique
          addressed := hinv.addressed
          guarding := fun j job existing hj hid hcompleted ↦
            hinv.guarding j job existing hj hid (hback hcompleted)
          acking := fun j job result hj hid hcompleted ↦
            hkept (hinv.acking j job result hj hid (hback hcompleted))
          last := hinv.last
          notified := fun hreturned hcompleted ↦
            hkept (hinv.notified hreturned (hback hcompleted)) }

theorem ack_of_pending {i : ℕ}
    (h : (workers (ledger d) lib target).pending b i = some (.completeJob id)) :
    ∃ job result, b.procs i = some (.ack job result) ∧ job.transactionId = id := by
  obtain ⟨p, k, hproc, hview⟩ := Pool.exists_of_pending h
  cases p with
  | ack job result =>
      cases hview
      exact ⟨job, result, hproc, rfl⟩
  | _ => cases hview

/-- The first normal return seals the job. -/
theorem Announcing.extend (hinv : Announcing lib target id returned b) {returned' : Prop}
    (h : returned' → returned ∨
      ∃ i, (workers (ledger d) lib target).pending b i = some (.completeJob id)) :
    Announcing lib target id returned' b :=
  { hinv with
    last := by
      intro hreturned j q job hj hholds hid
      rcases h hreturned with hbefore | ⟨i, hpending⟩
      · exact hinv.last hbefore j q job hj hholds hid
      · obtain ⟨job', result, hproc, hid'⟩ := ack_of_pending hpending
        obtain rfl := hinv.unique i j _ q job' job hproc hj rfl hholds hid' hid
        obtain rfl := Option.some.inj (hproc.symm.trans hj)
        exact ⟨result, by rw [Option.some.inj hholds]⟩
    notified := by
      intro hreturned hcompleted
      rcases h hreturned with hbefore | ⟨i, hpending⟩
      · exact hinv.notified hbefore hcompleted
      · obtain ⟨job', result, hproc, hid'⟩ := ack_of_pending hpending
        exact hinv.acking i job' result hproc hid' hcompleted }

end Step

theorem announcing_start {w : World} {returned : Prop} (hreturned : ¬returned)
    (hjob : ∀ job, w.job id = some job → job.data.dto.HasRecipient) :
    Announcing lib target id returned (workersStart w) where
  queued := hjob
  held i p job hp hholds := by
    obtain rfl := Option.some.inj hp
    cases hholds
  unique i j p q job job' hp _ hholds := by
    obtain rfl := Option.some.inj hp
    cases hholds
  addressed i job notification row hp := by
    cases hp
  guarding i job existing hp := by
    cases hp
  acking i job result hp := by
    cases hp
  last h := absurd h hreturned
  notified h := absurd h hreturned

/-! ## The programs -/

theorem returned_map {past : List (Pool.Stage (ledger d) WorkerControl)} :
    Returned id ((ledger d).programs Unit)
        (past.map (Pool.Stage.map fun i c ↦ c.code lib i (target i))) ↔
      Returned id (workers (ledger d) lib target) past := by
  simp only [Returned, List.mem_map, exists_exists_and_eq_and, Pool.Stage.map,
    (workers_implements (ledger d) lib target).pending_map]

theorem oneAfterAnother_map {past : List (Pool.Stage (ledger d) WorkerControl)}
    {s : Pool.Stage (ledger d) WorkerControl}
    (h : OneAfterAnother id ((ledger d).programs Unit)
      (past.map (Pool.Stage.map fun i c ↦ c.code lib i (target i)))
      (s.map fun i c ↦ c.code lib i (target i))) :
    OneAfterAnother id (workers (ledger d) lib target) past s := by
  simp only [OneAfterAnother, Attempting, returned_map, Pool.Stage.map,
    (workers_implements (ledger d) lib target).pending_map] at h
  exact h

/-- In every run of attempts one after another, once some `process` has returned
normally, a completed transaction has been announced. -/
theorem notified_of_returned (lib : DecimalLib) (target : ℕ → String) (d : Delivery)
    (id : String) {w : World} (hjob : ∀ job, w.job id = some job → job.data.dto.HasRecipient)
    {past : List (Pool.Stage (ledger d) (Promise Unit))}
    {c : Config calls World ℕ (Promise Unit)}
    (h : ((ledger d).programs Unit).Trace (OneAfterAnother id ((ledger d).programs Unit))
      (attempts lib target w) past c)
    (hreturned : Returned id ((ledger d).programs Unit) past) (hcompleted : Completed id c.store) :
    Notified id c.store := by
  rw [← map_workersStart] at h
  obtain ⟨past, c, rfl, rfl, hc⟩ := (workers_implements (ledger d) lib target).lift_trace h
  have hinv := hc.invariant
    (fun past c ↦ Announcing lib target id (Returned id (workers (ledger d) lib target) past) c)
    (announcing_start (by rintro ⟨s, hs, -⟩; cases hs) hjob) ?_
  · exact hinv.notified (returned_map.mp hreturned) hcompleted
  · intro past a m b _ hstep hlegal hinv
    apply (hinv.step (oneAfterAnother_map hlegal) hstep).extend
    rintro ⟨s, hs, i, hpending⟩
    rcases List.mem_cons.mp hs with rfl | hs
    · exact .inr ⟨i, hpending⟩
    · exact .inl ⟨s, hs, i, hpending⟩

/-- Whether a stage starts no attempt, decided on what its process awaits. -/
def startsNone {d : Delivery} {α P : Type} (L : Pool (ledger d) α P)
    (s : Pool.Stage (ledger d) P) : Bool :=
  match s.move with
  | .settle i _ =>
      match L.pending s.before i with
      | some (.takeJob ..) => false
      | _ => true
  | _ => true

theorem oneAfterAnother_of_startsNone {d : Delivery} {α P : Type} {L : Pool (ledger d) α P}
    {past : List (Pool.Stage (ledger d) P)} {s : Pool.Stage (ledger d) P}
    (h : startsNone L s) : OneAfterAnother id L past s := by
  intro i f worker hmove hpending
  simp [startsNone, hmove, hpending] at h

/-- The job of "t" has been handed out for the first time. -/
def firstTaken : Config calls World ℕ (Promise Unit) :=
  ((ledger .repeated).programs Unit).played (fun _ _ _ ↦ true)
    (attempts oneDollar (fun _ ↦ "t") (.enqueued "t")) [.settle 0 .run]

theorem trace_firstTaken :
    ((ledger .repeated).programs Unit).Trace
      (OneAfterAnother "t" ((ledger .repeated).programs Unit))
      (attempts oneDollar (fun _ ↦ "t") (.enqueued "t"))
      [⟨attempts oneDollar (fun _ ↦ "t") (.enqueued "t"), .settle 0 .run, firstTaken⟩]
      firstTaken := by
  refine .step .start rfl ?_
  intro i f worker _ _
  constructor
  · rintro j ⟨op, hpending, hattempts⟩
    cases hpending
    exact hattempts
  · rintro ⟨s, hs, -⟩
    cases hs

/-- The attempt goes on to the acknowledgement. -/
def announcedTrail :
    List (Pool.Stage (ledger .repeated) (Promise Unit)) × Config calls World ℕ (Promise Unit) :=
  ((ledger .repeated).programs Unit).trailed
    (fun _ s ↦ startsNone ((ledger .repeated).programs Unit) s)
    [⟨attempts oneDollar (fun _ ↦ "t") (.enqueued "t"), .settle 0 .run, firstTaken⟩] firstTaken
    [.settle 0 .run, .settle 0 .run, .settle 0 .run, .settle 0 .run]

theorem notified_announcedTrail : Notified "t" announcedTrail.2.store := by
  refine notified_of_returned oneDollar (fun _ ↦ "t") .repeated "t" ?_
    (Pool.trace_trailed (fun _ _ h ↦ oneAfterAnother_of_startsNone h) trace_firstTaken rfl)
    ⟨_, List.mem_cons_self, 0, rfl⟩ ⟨_, rfl, rfl⟩
  intro job hjob
  cases hjob
  exact ⟨_, rfl, rfl⟩

end TransactionLedger
