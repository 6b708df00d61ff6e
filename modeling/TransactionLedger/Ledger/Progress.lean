import TransactionLedger.Idempotency.Alone
import TransactionLedger.Ledger.Columns

/-!
# What can still be completed

As long as a transaction is QUEUED, one undisturbed attempt at its job completes it, and one
at the job of its notification records the notice.
-/

namespace TransactionLedger

open Async Data TransactionProcessor IdempotencyService

/-! ## An attempt at a transaction -/

namespace TransactionProcessor

variable {lib : DecimalLib}

theorem enqueueNotification_unblocked (transaction : Transaction)
    (fromAccount toAccount : Option Json) :
    (enqueueNotification lib transaction fromAccount toAccount).Uses Op.Unblocked := by
  unfold enqueueNotification
  split
  · trivial
  · exact await_unblocked fun _ _ ↦ rfl

theorem process_unblocked (job : TransactionJobData) : (process lib job).Uses Op.Unblocked := by
  refine Prog.Uses.bind (await_unblocked fun _ _ ↦ rfl) fun existing ↦ ?_
  cases existing with
  | none => trivial
  | some existing =>
      dsimp only
      split
      · exact Prog.Uses.bind (enqueueNotification_unblocked ..) fun _ ↦ trivial
      · refine Prog.Uses.bind (await_unblocked fun _ _ ↦ rfl) fun count ↦ ?_
        split
        · trivial
        · refine Prog.Uses.bind (await_unblocked fun _ _ ↦ rfl) fun transaction ↦ ?_
          exact Prog.Uses.bind (enqueueNotification_unblocked ..) fun _ ↦ trivial

theorem finish_unblocked (worker : ℕ) (job : TransactionJobData)
    (result : Except Err (Option Transaction)) :
    (finish worker job result).Uses Op.Unblocked := by
  cases result with
  | ok result => exact await_unblocked fun _ _ ↦ rfl
  | error error =>
      refine Prog.Uses.bind (await_unblocked fun _ _ ↦ rfl) fun _ ↦ ?_
      refine Prog.Uses.catchError ?_ fun _ ↦ trivial
      exact Prog.Uses.bind (await_unblocked fun _ _ ↦ rfl) fun _ ↦ trivial

section

variable {w : World} {row : Transaction} {job : TransactionJobData} {worker : ℕ} {id : String}

/-- The job of the notification is in the queue, which may have held it before. -/
def Announced (lib : DecimalLib) (row : Transaction) (job : TransactionJobData) (w w' : World) :
    Prop :=
  ∀ note, notificationFor lib row job.dto.fromAccount job.dto.toAccount = some note →
    w'.notification note.jobId = (w.notification note.jobId).or (some note)

variable (lib row job) in
theorem alone_enqueueNotification (w : World) :
    ∃ w', alone (enqueueNotification lib row job.dto.fromAccount job.dto.toAccount) w =
      (.ok (), w') ∧ (∀ id, w'.transaction id = w.transaction id) ∧ Announced lib row job w w' := by
  unfold enqueueNotification Announced
  cases hnote : notificationFor lib row job.dto.fromAccount job.dto.toAccount with
  | none => exact ⟨w, rfl, fun _ ↦ rfl, fun note h ↦ by cases h⟩
  | some note =>
      have hok : (w.answer (.notificationQueueAdd note)).1 = .ok () := by
        simp only [World.answer]
        split <;> rfl
      refine ⟨(w.answer (.notificationQueueAdd note)).2, Prod.ext hok rfl,
        fun id ↦ World.answer_transaction .., ?_⟩
      rintro _ ⟨rfl⟩
      simp only [World.answer_notification, Op.onNotification, if_true]

variable (lib) in
/-- A row that may be retried is completed and announced. -/
theorem alone_process (hrow : w.transaction job.transactionId = some row)
    (hretry : row.status = .queued ∨ row.status = .failed) :
    ∃ w', alone (process lib job) w = (.ok (some { row with status := .completed }), w') ∧
      w'.transaction job.transactionId = some { row with status := .completed } ∧
      Announced lib { row with status := .completed } job w w' := by
  let guard := Op.transactionUpdateMany job.transactionId (.oneOf [.queued, .failed]) .processing
  let complete := Op.transactionUpdate job.transactionId .completed
  let w₁ := (w.answer guard).2
  let w₂ := (w₁.answer complete).2
  have hholds := holds_retryable.mpr hretry
  have hrow₁ : w₁.transaction job.transactionId = some { row with status := .processing } := by
    simp only [w₁, guard, World.answer_transaction, Op.onTransaction, hrow, if_true,
      Option.map_some, hholds]
  have hupdated : w₁.answer complete = (.ok { row with status := .completed }, w₂) := by
    refine Prod.ext ?_ rfl
    simp only [complete, World.answer, show w₁.transactions.lookup job.transactionId = _ from hrow₁]
  have hrow₂ : w₂.transaction job.transactionId = some { row with status := .completed } := by
    simp only [w₂, complete, World.answer_transaction, Op.onTransaction, hrow₁, if_true,
      Option.map_some]
  obtain ⟨w', hadded, htransaction, hannounced⟩ :=
    alone_enqueueNotification lib { row with status := .completed } job w₂
  refine ⟨w', ?_, (htransaction _).trans hrow₂, fun note hnote ↦ ?_⟩
  · have hfound : alone (await (.transactionFindUnique job.transactionId)) w =
        (.ok (some row), w) := Prod.ext (congrArg Except.ok hrow) rfl
    refine (Prog.run_bind_ok hfound).trans ?_
    have hnot : row.status ≠ .completed := by
      rcases hretry with h | h <;> rw [h] <;> decide
    dsimp only
    rw [if_neg hnot]
    obtain ⟨count, hcount⟩ : ∃ count, w.answer guard = (.ok count, w₁) := ⟨_, rfl⟩
    have hne : count ≠ 0 := fun hzero ↦
      (World.count_of_updateMany hcount).mp hzero row hrow hholds
    refine (Prog.run_bind_ok ((alone_await guard w).trans hcount)).trans ?_
    rw [if_neg hne]
    refine (Prog.run_bind_ok ((alone_await complete w₁).trans hupdated)).trans ?_
    exact Prog.run_bind_ok hadded
  · rw [hannounced note hnote]
    simp only [w₂, w₁, complete, guard, World.answer_notification, Op.onNotification]

variable (lib worker) in
/-- So is a row whose job is in the queue. -/
theorem alone_attempt {queued : TransactionJob} (hjob : w.job id = some queued)
    (hrow : w.transaction id = some row)
    (hretry : row.status = .queued ∨ row.status = .failed) :
    ∃ w', alone (attempt lib worker id) w = (.ok (), w') ∧
      w'.transaction id = some { row with status := .completed } ∧
      Announced lib { row with status := .completed } queued.data w w' := by
  let take := Op.takeJob worker id
  let w₁ := (w.answer take).2
  have hid : queued.key = id := Table.key_of_lookup hjob
  change queued.data.transactionId = id at hid
  have htaken : w.answer take = (.ok queued.data, w₁) := by
    refine Prod.ext ?_ rfl
    simp only [take, World.answer, show w.transactionQueue.lookup id = some queued from hjob]
  have hrow₁ : w₁.transaction queued.data.transactionId = some row := by
    rw [hid]
    exact (World.answer_transaction ..).trans hrow
  obtain ⟨w₂, hprocessed, hrow₂, hannounced⟩ := alone_process lib hrow₁ hretry
  let complete := Op.completeJob queued.data.transactionId
  refine ⟨(w₂.answer complete).2, ?_, ?_, fun note hnote ↦ ?_⟩
  · refine (Prog.run_bind_ok ((alone_await take w).trans htaken)).trans ?_
    exact (Prog.run_bind_ok (Prog.run_settled hprocessed)).trans rfl
  · rw [World.answer_transaction, ← hid]
    exact hrow₂
  · have hadded := hannounced note hnote
    simpa only [w₁, take, complete, World.answer_notification, Op.onNotification] using hadded

end

end TransactionProcessor

/-! ## An attempt at a notification -/

theorem World.insertNotification_ok {w : World} {id : String} {data : NotificationData}
    {row : Notification} (hdata : data.row id = some row)
    (hnone : w.notice (data.transactionId, data.channel) = none)
    (htransaction : ∃ transaction, w.transaction data.transactionId = some transaction) :
    ∃ w', w.insertNotification id data = (.ok row, w') ∧
      w'.notice (data.transactionId, data.channel) = some row := by
  obtain ⟨transaction, htransaction⟩ := htransaction
  have hpair := (NotificationData.of_row hdata).1
  rw [← hpair] at hnone ⊢
  cases hins : w.notifications.insert row with
  | none =>
      obtain ⟨old, hold⟩ := Table.insert_eq_none_iff.mp hins
      cases hnone.symm.trans hold
  | some t =>
      refine ⟨{ w with notifications := t }, ?_, (Table.lookup_insert hins _).trans (if_pos rfl)⟩
      have hlookup : w.transactions.lookup data.transactionId = some transaction := htransaction
      simp only [insertNotification, hdata, hins, hlookup]

namespace NotificationProcessor

theorem process_unblocked (id : String) (job : NotificationJob) :
    (process id job).Uses Op.Unblocked := by
  refine Prog.Uses.catchError ?_ fun error ↦ ?_
  · exact Prog.Uses.bind (await_unblocked fun _ _ ↦ rfl) fun _ ↦ trivial
  · unfold duplicate
    split <;> trivial

theorem finish_unblocked (id : String) (worker : ℕ) (job : NotificationJob)
    (result : Except Err ProcessedNotification) :
    (finish id worker job result).Uses Op.Unblocked := by
  cases result with
  | ok result => exact await_unblocked fun _ _ ↦ rfl
  | error error =>
      refine Prog.Uses.bind (await_unblocked fun _ _ ↦ rfl) fun _ ↦ ?_
      unfold onFailed
      split
      · refine Prog.Uses.bind (await_unblocked fun _ _ ↦ rfl) fun existing ↦ ?_
        split
        · trivial
        · exact Prog.Uses.bind (await_unblocked fun _ _ ↦ rfl) fun _ ↦ trivial
      · trivial

section

variable {w : World} {job : NotificationJob} {id deadId jobId : String} {worker : ℕ}

/-- A job that the columns accept leaves a row, its own or the one that was there. -/
theorem alone_process (hdata : ((delivery job).row id).isSome)
    (htransaction : ∃ row, w.transaction job.transactionId = some row) :
    ∃ result w', alone (process id job) w = (.ok result, w') ∧
      (∀ k, w'.transaction k = w.transaction k) ∧ ∃ row, w'.notice job.pair = some row := by
  let create := Op.notificationCreate id (delivery job)
  cases hold : w.notice job.pair with
  | some old =>
      have hduplicate : w.answer create = (.error (.prisma .p2002), w) := by
        have hsettle := World.p2002_of_notice (d := .repeated) (w := w) hdata hold
        exact Option.some.inj hsettle
      refine ⟨.alreadyDelivered job.transactionId, w, ?_, fun _ ↦ rfl, old, hold⟩
      have hfailed : alone (do
          let notification ← await create
          pure (ProcessedNotification.delivered notification.id)) w =
            (.error (.prisma .p2002), w) :=
        Prog.run_bind_error ((alone_await create w).trans hduplicate)
      exact Prog.run_catchError_error hfailed
  | none =>
      obtain ⟨data, hdata⟩ := Option.isSome_iff_exists.mp hdata
      obtain ⟨w', hcreated, hafter⟩ := World.insertNotification_ok hdata hold htransaction
      refine ⟨.delivered data.id, w', ?_, fun k ↦ ?_, data, hafter⟩
      · have hrun : alone (do
            let notification ← await create
            pure (ProcessedNotification.delivered notification.id)) w =
              (.ok (.delivered data.id), w') :=
          Prog.run_bind_ok ((alone_await create w).trans hcreated)
        exact Prog.run_catchError_ok hrun
      · have hsame := World.answer_transaction w create k
        rw [show w.answer create = _ from hcreated] at hsame
        exact hsame

variable (deadId worker) in
theorem alone_attempt (hjob : w.notification jobId = some job)
    (hdata : ((delivery job).row id).isSome)
    (htransaction : ∃ row, w.transaction job.transactionId = some row) :
    ∃ w', alone (attempt id deadId worker jobId) w = (.ok (), w') ∧
      (∀ k, w'.transaction k = w.transaction k) ∧ ∃ row, w'.notice job.pair = some row := by
  let take := Op.takeNotificationJob worker jobId
  let w₁ := (w.answer take).2
  have hkept : ∀ k, w₁.transaction k = w.transaction k := fun k ↦ World.answer_transaction ..
  have htaken : w.answer take = (.ok job, w₁) := by
    refine Prod.ext ?_ rfl
    simp only [take, World.answer, show w.notificationQueue.lookup jobId = some job from hjob]
  rw [← hkept] at htransaction
  obtain ⟨result, w₂, hprocessed, hkept', row, hrow⟩ := alone_process hdata htransaction
  let complete := Op.completeNotificationJob job.jobId
  refine ⟨(w₂.answer complete).2, ?_, fun k ↦ ?_, row, hrow⟩
  · refine (Prog.run_bind_ok ((alone_await take w).trans htaken)).trans ?_
    exact (Prog.run_bind_ok (Prog.run_settled hprocessed)).trans rfl
  · exact (World.answer_transaction ..).trans ((hkept' k).trans (hkept k))

end

end NotificationProcessor

/-! ## What an entry announces -/

section

variable {lib : DecimalLib} {id : String} {dto : CreateTransactionDto} {entry : Entry}

theorem Entry.recipient_of_announcement {note : Notice}
    (h : announcement lib entry = some note) :
    entry.recipient = some note.recipient ∧ note.recipient ≠ "" := by
  unfold announcement at h
  split at h
  · cases h
  · next account haccount =>
      split at h
      · cases h
      · next hne =>
          obtain rfl := Option.some.inj h
          exact ⟨haccount, hne⟩

theorem Books.recipient_column (h : Books lib id dto entry) {s : String}
    (hs : entry.recipient = some s) :
    TransactionProcessor.recipient dto.fromAccount dto.toAccount = some (.str s) ∧
      s.length ≤ 255 := by
  obtain ⟨hfrom, hto⟩ := h.accounts
  unfold Entry.recipient at hs
  rcases accountColumn_eq hfrom with ⟨hnone, hcolumn⟩ | ⟨t, ht, hcolumn⟩
  · rw [hcolumn] at hs
    dsimp only at hs
    have hlength := accountColumn_length hto hs
    rcases accountColumn_eq hto with ⟨-, hcolumn'⟩ | ⟨t, ht, hcolumn'⟩
    · cases hcolumn'.symm.trans hs
    · obtain rfl := Option.some.inj (hcolumn'.symm.trans hs)
      refine ⟨?_, hlength⟩
      rcases hnone with hnone | hnone <;> rw [hnone, ht] <;> rfl
  · rw [hcolumn] at hs
    obtain rfl := Option.some.inj hs
    exact ⟨by rw [ht, recipient_str], accountColumn_length hfrom hcolumn⟩

/-- Where there is somebody to notify, the processor enqueues a job. -/
theorem Books.exists_notificationFor (row : Transaction) (h : Books lib id dto row.entry)
    {note : Notice} (hnote : announcement lib row.entry = some note) :
    ∃ job, TransactionProcessor.notificationFor lib row dto.fromAccount dto.toAccount = some job ∧
      job.jobId = notificationJobId row.id ∧ job.state = .waiting := by
  obtain ⟨hrecipient, hne⟩ := Entry.recipient_of_announcement hnote
  obtain ⟨haccount, -⟩ := h.recipient_column hrecipient
  unfold TransactionProcessor.notificationFor
  rw [haccount]
  exact ⟨_, if_pos (str_truthy.mpr hne), rfl, rfl⟩

end

/-! ## Completion -/

namespace Application

variable {app : Application} {d : Delivery} {clock : ℕ} {c c' : State} {id : String} {i j : ℕ}
  {row : Transaction}

/-- Two workers that have not begun, one for the job of the transaction and one for the job
of its notification. -/
structure Staffed (app : Application) (c : State) (id : String) (i j : ℕ) : Prop where
  worker : app.role i = .transactionWorker id
  notifier : app.role j = .notificationWorker (notificationJobId id)
  worker_idle : c.procs i = some (app.deployment.main i)
  notifier_idle : c.procs j = some (app.deployment.main j)

/-- The transaction is COMPLETED, and whoever is to be notified of it has been notified. -/
structure Concluded (app : Application) (id : String) (entry : Entry) (w : World) : Prop where
  completed : ∃ row, w.transaction id = some row ∧ row.entry = entry ∧ row.status = .completed
  noticed : ∀ note, announcement app.lib entry = some note →
    ∃ notice, w.notice (id, .email) = some notice ∧ notice.content = note

theorem main_transactionWorker (hrole : app.role i = .transactionWorker id) :
    app.deployment.main i =
      (TransactionProcessor.attempt app.lib i id).bind fun _ ↦ pure .finished := by
  simp only [deployment, Deployment.main, deployedRole, hrole]
  rfl

theorem main_notificationWorker {jobId : String} (hrole : app.role j = .notificationWorker jobId) :
    app.deployment.main j = (NotificationProcessor.attempt (app.notificationId j)
      (app.deadLetterId j) j jobId).bind fun _ ↦ pure .finished := by
  simp only [deployment, Deployment.main, deployedRole, hrole]
  rfl

theorem exists_lone_worker {take : Op} {rest : take.Res → Promise Unit} {w' : World}
    (hidle : c.procs i = some ((await take >>= rest).bind fun _ ↦ pure .finished))
    (hfree : c.store.blocked d take = false) (hrest : ∀ a, (rest a).Uses Op.Unblocked)
    (halone : alone (await take >>= rest) c.store = (.ok (), w')) :
    ∃ c', Run d c c' ∧ c'.store = w' ∧ ∀ k, k ≠ i → c'.procs k = c.procs k := by
  have hfirst : (ledger d).settle Fate.run c.store take = some (c.store.answer take) := by
    change World.settle d .run c.store take = _
    simp only [World.settle, hfree]
    rfl
  have huses : ∀ r : Except Err take.Res, Prog.Uses Op.Unblocked
      (((Prog.done r : Promise take.Res).bind rest).bind fun _ ↦
        Prog.done (.ok Outcome.finished)) := by
    intro r
    refine Prog.Uses.bind (Prog.Uses.bind trivial hrest) fun _ ↦ trivial
  have hend : alone ((await take >>= rest).bind fun _ ↦ pure Outcome.finished) c.store =
      (.ok .finished, w') := Prog.run_bind_ok halone
  obtain ⟨c', hrun, hstore, -, hothers⟩ := Pool.exists_alone_cons hidle hfirst
    fun b _ hb ↦ Pool.exists_alone (settle_unblocked d) (huses _) hb
  exact ⟨c', hrun, hstore.trans (congrArg Prod.snd hend), hothers⟩

/-- The attempt of an idle worker. -/
theorem exists_attempt (hrole : app.role i = .transactionWorker id)
    (hidle : c.procs i = some (app.deployment.main i)) {job : TransactionJob}
    (hjob : c.store.job id = some job) (hhanded : d = .repeated ∨ job.state = .waiting)
    (hrow : c.store.transaction id = some row)
    (hretry : row.status = .queued ∨ row.status = .failed) :
    ∃ c', Run d c c' ∧ (∀ k, k ≠ i → c'.procs k = c.procs k) ∧
      c'.store.transaction id = some { row with status := .completed } ∧
      Announced app.lib { row with status := .completed } job.data c.store c'.store := by
  rw [main_transactionWorker hrole] at hidle
  have hfree : c.store.blocked d (.takeJob i id) = false := by
    simp only [World.blocked, show c.store.transactionQueue.lookup id = some job from hjob]
    rcases hhanded with rfl | hwaiting
    · rfl
    · simp [hwaiting]
  obtain ⟨w', hattempt, hcompleted, hannounced⟩ :=
    TransactionProcessor.alone_attempt app.lib i hjob hrow hretry
  obtain ⟨c', hrun, rfl, hothers⟩ := exists_lone_worker hidle hfree (fun data ↦
    Prog.Uses.bind (process_unblocked data).settled fun _ ↦ finish_unblocked ..) hattempt
  exact ⟨c', hrun, hothers, hcompleted, hannounced⟩

theorem exists_notification_attempt {jobId : String}
    (hrole : app.role j = .notificationWorker jobId)
    (hidle : c.procs j = some (app.deployment.main j)) {job : NotificationJob}
    (hjob : c.store.notification jobId = some job)
    (hhanded : d = .repeated ∨ job.state = .waiting)
    (hdata : ((NotificationProcessor.delivery job).row (app.notificationId j)).isSome)
    (htransaction : ∃ row, c.store.transaction job.transactionId = some row) :
    ∃ c', Run d c c' ∧ (∀ k, c'.store.transaction k = c.store.transaction k) ∧
      ∃ row, c'.store.notice job.pair = some row := by
  rw [main_notificationWorker hrole] at hidle
  have hfree : c.store.blocked d (.takeNotificationJob j jobId) = false := by
    simp only [World.blocked,
      show c.store.notificationQueue.lookup jobId = some job from hjob]
    rcases hhanded with rfl | hwaiting
    · rfl
    · simp [hwaiting]
  obtain ⟨w', hattempt, hkept, hnoticed⟩ := NotificationProcessor.alone_attempt
    (app.deadLetterId j) j hjob hdata htransaction
  obtain ⟨c', hrun, rfl, -⟩ := exists_lone_worker hidle hfree (fun data ↦
    Prog.Uses.bind (NotificationProcessor.process_unblocked _ data).settled
      fun _ ↦ NotificationProcessor.finish_unblocked ..) hattempt
  exact ⟨c', hrun, hkept, hnoticed⟩

/-- The columns accept what the job of an announcement says. -/
theorem InOrder.deliverable {x : Stores} (hx : app.InOrder x) {job : NotificationJob}
    (hjob : x.store.notification (notificationJobId id) = some job)
    (hrow : x.store.transaction id = some row) (k : String) :
    job.pair = (id, .email) ∧ ((NotificationProcessor.delivery job).row k).isSome := by
  have hid : id = job.transactionId := notificationJobId_injective (hx.jobId_of_announced hjob)
  obtain ⟨row', note, hrow', hnote, -, -, hchannel, hrecipient, -⟩ := hx.announced hjob
  obtain ⟨i, dto, -, -, hbooks, -⟩ := hx.booked hrow
  rw [← hid, hrow] at hrow'
  obtain rfl := Option.some.inj hrow'
  have hshort := (hbooks.recipient_column (Entry.recipient_of_announcement hnote).1).2
  refine ⟨by rw [NotificationJob.pair, ← hid, hchannel], ?_⟩
  simp only [NotificationData.row, NotificationProcessor.delivery, hrecipient, recipientColumn,
    if_pos hshort, Option.map_some, Option.isSome_some]

/-- Where the notification has been enqueued, an idle worker can record it. -/
theorem exists_notice (h : Run d (app.deployment.start clock) c)
    (hrole : app.role j = .notificationWorker (notificationJobId id))
    (hidle : c.procs j = some (app.deployment.main j)) {job : NotificationJob}
    (hjob : c.store.notification (notificationJobId id) = some job)
    (hhanded : d = .repeated ∨ job.state = .waiting)
    (hrow : c.store.transaction id = some row) :
    ∃ c', Run d c c' ∧ c'.store.transaction id = some row ∧
      ∃ notice, c'.store.notice (id, .email) = some notice ∧
        announcement app.lib row.entry = some notice.content := by
  have hinv := (obeyed_of_run h).inv
  obtain ⟨hpair, hdata⟩ := hinv.deliverable hjob hrow (app.notificationId j)
  have htransaction : c.store.transaction job.transactionId = some row := by
    rw [show job.transactionId = id from congrArg Prod.fst hpair]
    exact hrow
  obtain ⟨c', hrun, hkept, notice, hnotice⟩ :=
    exists_notification_attempt hrole hidle hjob hhanded hdata ⟨row, htransaction⟩
  rw [hpair] at hnotice
  have hrow' := (hkept id).trans hrow
  have hinv' := (obeyed_of_run (Pool.Reachable.trans h hrun)).inv
  exact ⟨c', hrun, hrow', notice, hnotice, hinv'.content_of_noticed hrow' hnotice⟩

/-- A transaction that may be retried and whose job is in the queue can still be concluded. -/
theorem completable (h : Run d (app.deployment.start clock) c)
    (hrow : c.store.transaction id = some row)
    (hretry : row.status = .queued ∨ row.status = .failed) {job : TransactionJob}
    (hjob : c.store.job id = some job) (hhanded : d = .repeated ∨ job.state = .waiting)
    (hfresh : d = .repeated ∨ c.store.notification (notificationJobId id) = none)
    (hstaffed : app.Staffed c id i j) :
    ∃ c', Run d c c' ∧ app.Concluded id row.entry c'.store := by
  have hid : row.id = id := Table.key_of_lookup hrow
  have hne : j ≠ i := by
    rintro rfl
    cases hstaffed.worker.symm.trans hstaffed.notifier
  obtain ⟨b, hcb, hothers, hcompleted, hannounced⟩ := exists_attempt hstaffed.worker
    hstaffed.worker_idle hjob hhanded hrow hretry
  cases hnote : announcement app.lib row.entry with
  | none =>
      refine ⟨b, hcb, ⟨_, hcompleted, rfl, rfl⟩, fun note h ↦ ?_⟩
      cases hnote.symm.trans h
  | some note =>
      have hbooks := (obeyed_of_run h).inv.books_of_job hjob hrow
      obtain ⟨new, hnew, hjobId, hwaiting⟩ :=
        Books.exists_notificationFor { row with status := .completed } hbooks hnote
      have hadded := hannounced new hnew
      rw [hjobId, hid] at hadded
      obtain ⟨queued, hqueued, hhanded'⟩ : ∃ queued,
          b.store.notification (notificationJobId id) = some queued ∧
            (d = .repeated ∨ queued.state = .waiting) := by
        cases hbefore : c.store.notification (notificationJobId id) with
        | none => exact ⟨new, by rw [hadded, hbefore, Option.none_or], .inr hwaiting⟩
        | some old =>
            have hrepeated := hfresh.resolve_right fun hnone ↦ by cases hbefore.symm.trans hnone
            exact ⟨old, by rw [hadded, hbefore, Option.some_or], .inl hrepeated⟩
      obtain ⟨c', hbc, hrow', notice, hnotice, hcontent⟩ :=
        exists_notice (Pool.Reachable.trans h hcb) hstaffed.notifier
          ((hothers j hne).trans hstaffed.notifier_idle) hqueued hhanded' hcompleted
      refine ⟨c', hcb.trans hbc, ⟨_, hrow', rfl, rfl⟩, fun note' hnote' ↦ ?_⟩
      exact ⟨notice, hnotice, Option.some.inj (hcontent.symm.trans hnote')⟩

/-- What is QUEUED has never been COMPLETED, so nobody has announced it. -/
theorem unannounced_of_queued (h : Run d (app.deployment.start clock) c)
    (hrow : c.store.transaction id = some row) (hqueued : row.status = .queued) :
    c.store.notification (notificationJobId id) = none := by
  rw [Option.eq_none_iff_forall_ne_some]
  intro job hjob
  have hinv := (obeyed_of_run h).inv
  have hid : id = job.transactionId := notificationJobId_injective (hinv.jobId_of_announced hjob)
  obtain ⟨-, -, -, -, -, -, -, -, -, e, he, hreports⟩ := hinv.announced hjob
  obtain ⟨b, hb, hbc, old, hold, hcompleted⟩ := completed_of_reported rfl h he hreports
  rw [← hid] at hold
  have hrun := book_of_leads (leads_of_run hb hbc)
  have hbefore : b.shared.store.book.entry id = some (old.entry, old.status) :=
    World.book_entry hold
  obtain ⟨status, hafter⟩ := hrun.keeps_entry hbefore
  have hentry : c.shared.store.book.entry id = some (row.entry, row.status) :=
    World.book_entry hrow
  obtain ⟨-, rfl⟩ := Prod.mk.inj (Option.some.inj (hafter.symm.trans hentry))
  rw [hqueued] at hafter
  cases hcompleted.symm.trans (hrun.queued hbefore hafter)

/-- From any state of any run: a transaction that a client has been told of and that is still
QUEUED can be concluded, by one worker of each kind that meets no fault, provided that its
job waits in the queue or that BullMQ hands jobs out again. -/
theorem accepted_completable (h : Run d (app.deployment.start clock) c) {p : HttpPost} {k : ℕ}
    (hrole : app.role k = .post p) {reply : Reply}
    (hresult : ((ledger d).programs Outcome).result c k = some (.ok (.replied reply)))
    (hbody : reply.body = some (CreatedTransaction.mk id .queued).json) (h' : Run d c c')
    (hrow : c'.store.transaction id = some row) (hqueued : row.status = .queued)
    (hhanded : d = .repeated ∨ ∀ job, c'.store.job id = some job → job.state = .waiting)
    (hstaffed : app.Staffed c' id i j) :
    ∃ c'', Run d c' c'' ∧ app.Concluded id row.entry c''.store := by
  obtain ⟨row', hrow', hretained⟩ := retained_of_reply h hrole hresult hbody h'
  obtain rfl := Option.some.inj (hrow.symm.trans hrow')
  obtain ⟨job, hjob⟩ := hretained hqueued
  have hrun : Run d (app.deployment.start clock) c' := Pool.Reachable.trans h h'
  have hunannounced := unannounced_of_queued hrun hrow hqueued
  exact completable hrun hrow (.inl hqueued) hjob
    (hhanded.imp_right fun hwaiting ↦ hwaiting job hjob) (.inr hunannounced) hstaffed

theorem deposit_completable :
    ∃ row, depositAnswered.store.transaction "t" = some row ∧
      ∃ c', Run .exclusive depositAnswered c' ∧ deposits.Concluded "t" row.entry c'.store := by
  obtain ⟨row, hrow, hqueued⟩ : ∃ row, depositAnswered.store.transaction "t" = some row ∧
      row.status = .queued := ⟨_, rfl, rfl⟩
  have hwaiting : ∀ job, depositAnswered.store.job "t" = some job → job.state = .waiting := by
    intro job hjob
    obtain ⟨job', hjob', hstate⟩ : ∃ job, depositAnswered.store.job "t" = some job ∧
        job.state = .waiting := ⟨_, rfl, rfl⟩
    obtain rfl := Option.some.inj (hjob.symm.trans hjob')
    exact hstate
  have hstaffed : deposits.Staffed depositAnswered "t" 3 4 := ⟨rfl, rfl, rfl, rfl⟩
  exact ⟨row, hrow, accepted_completable run_depositAnswered rfl retry_answered rfl .refl hrow
    hqueued (.inr hwaiting) hstaffed⟩

end Application

end TransactionLedger
