import TransactionLedger.Ledger.Safety

/-!
# The workers keep to the discipline

And with them the whole application: every process of it is safe from the start.
-/

namespace TransactionLedger

open Async Data TransactionService TransactionProcessor IdempotencyInterceptor Discipline

namespace Application

variable {app : Application} {d : Delivery} {i : ℕ} {x y : Stores}

theorem safe_anyway {α : Type} {Q : Except Err α → Stores → Prop} {p : Promise α}
    (h : (app.discipline d).Safe i Q p x) : (app.discipline d).Safe i (fun _ _ ↦ True) p x :=
  h.weaken fun _ _ _ _ _ ↦ trivial

/-! ## Transaction workers -/

/-- The job is the one of a stored transaction. -/
def Entitled (app : Application) (job : TransactionJobData) (x : Stores) : Prop :=
  (∃ j, app.transactionId j = job.transactionId ∧ app.Submitted j job.dto) ∧
    ∃ row, x.store.transaction job.transactionId = some row

theorem Entitled.leads {job : TransactionJobData} (h : app.Entitled job x)
    (hxy : (app.discipline d).Leads x y) : app.Entitled job y :=
  ⟨h.1, (extends_of_leads hxy).stored h.2⟩

theorem Entitled.books {job : TransactionJobData} (hjob : app.Entitled job y)
    (hx : app.InOrder x) {row : Transaction}
    (hrow : x.store.transaction job.transactionId = some row) :
    Books app.lib job.transactionId job.dto row.entry := by
  obtain ⟨⟨j, hj, hdto⟩, -⟩ := hjob
  obtain ⟨j', dto', hj', hdto', hbooks, -⟩ := hx.booked hrow
  obtain rfl := app.transactionId_injective (hj.trans hj'.symm)
  obtain rfl := hdto.unique hdto'
  exact hbooks

/-- PostgreSQL has shown the worker the row of the job, COMPLETED. -/
structure Ready (app : Application) (job : TransactionJobData) (row : Transaction) (x : Stores) :
    Prop where
  id : row.id = job.transactionId
  books : Books app.lib job.transactionId job.dto row.entry
  stored : ∃ row', x.store.transaction job.transactionId = some row' ∧ row'.entry = row.entry
  reported : ∃ e ∈ x.log, ReportsCompleted job.transactionId e

theorem Ready.leads {job : TransactionJobData} {row : Transaction} (h : app.Ready job row x)
    (hxy : (app.discipline d).Leads x y) : app.Ready job row y where
  id := h.id
  books := h.books
  stored := by
    obtain ⟨row', hrow', hentry⟩ := h.stored
    obtain ⟨row'', hrow'', hentry'⟩ := (extends_of_leads hxy).grows hrow'
    exact ⟨row'', hrow'', hentry'.trans hentry⟩
  reported := by
    obtain ⟨e, he, hreports⟩ := h.reported
    exact ⟨e, hxy.mem_log he, hreports⟩

theorem Ready.announces {job : TransactionJobData} {row : Transaction}
    {notification : NotificationJob} (h : app.Ready job row x)
    (hjob : notificationFor app.lib row job.dto.fromAccount job.dto.toAccount =
      some notification) : app.Announces x notification := by
  obtain ⟨note, hnote, rfl⟩ := h.books.notificationFor hjob
  obtain ⟨row', hrow', hentry⟩ := h.stored
  have hid := h.id
  exact ⟨row', note, hid ▸ hrow', hentry ▸ hnote, rfl, rfl, rfl, rfl, rfl, hid ▸ h.reported⟩

theorem safe_enqueueNotification {job : TransactionJobData} {row : Transaction}
    (h : app.Ready job row x) :
    (app.discipline d).Safe i (fun _ _ ↦ True)
      (enqueueNotification app.lib row job.dto.fromAccount job.dto.toAccount) x := by
  unfold enqueueNotification
  cases hjob : notificationFor app.lib row job.dto.fromAccount job.dto.toAccount with
  | none => exact safe_pure fun _ _ _ ↦ trivial
  | some notification => exact safe_anyway (safe_await fun y hxy _ ↦ (h.leads hxy).announces hjob)

theorem safe_complete {job : TransactionJobData}
    (hjob : app.Entitled job x) (hstarted : Started job.transactionId x.store) :
    (app.discipline d).Safe i (fun out y ↦ ∀ row, out = .ok row → app.Ready job row y)
      (await (.transactionUpdate job.transactionId .completed)) x := by
  refine safe_call fun y hxy hy ↦ ⟨.inr ⟨rfl, fun row hrow ↦ ?_⟩, fun f r s hsettle z hyz _ ↦ ?_⟩
  · obtain ⟨row', hrow', hstatus⟩ := started_of_leads hxy.leads hstarted
    obtain rfl := Option.some.inj (hrow'.symm.trans hrow)
    exact hstatus
  · rintro row rfl
    obtain ⟨old, hold, rfl, hafter⟩ := World.transaction_of_update (World.settle_ok hsettle)
    have hid : old.id = job.transactionId := Table.key_of_lookup hold
    have hbooks := (hjob.leads hxy.leads).books hy hold
    have hready : app.Ready job { old with status := .completed }
        (y.settled i (.transactionUpdate job.transactionId .completed)
          (.ok { old with status := .completed }) s) :=
      { id := hid
        books := hbooks
        stored := ⟨_, hafter, rfl⟩
        reported := ⟨_, List.mem_cons_self, .updated⟩ }
    exact hready.leads hyz.leads

theorem started_of_guard {f : Fate} {w w' : World} {id : String} {count : ℕ}
    (hsettle : w.settle d f
      (.transactionUpdateMany id (.oneOf [.queued, .failed]) .processing) = some (.ok count, w'))
    (hcount : count ≠ 0) : Started id w' := by
  have hanswer := World.settle_ok hsettle
  have hafter := World.answer_transaction w
    (.transactionUpdateMany id (.oneOf [.queued, .failed]) .processing) id
  rw [hanswer] at hafter
  have hpassed : ∃ row, w.transaction id = some row ∧
      (StatusFilter.oneOf [.queued, .failed]).holds row.status := by
    by_contra hnone
    refine hcount ((World.count_of_updateMany hanswer).mpr fun row hrow hholds ↦ ?_)
    exact hnone ⟨row, hrow, hholds⟩
  obtain ⟨row, hrow, hholds⟩ := hpassed
  refine ⟨{ row with status := .processing }, hafter.trans ?_, fun h ↦ by cases h⟩
  simp only [Op.onTransaction, if_true, hrow, Option.map_some, hholds]

theorem started_of_guard_missed {f : Fate} {w w' : World} {id : String}
    (hsettle : w.settle d f
      (.transactionUpdateMany id (.oneOf [.queued, .failed]) .processing) = some (.ok 0, w'))
    (hrow : ∃ row, w.transaction id = some row) : Started id w := by
  obtain ⟨row, hrow⟩ := hrow
  refine ⟨row, hrow, fun hqueued ↦ ?_⟩
  refine (World.count_of_updateMany (World.settle_ok hsettle)).mp rfl row hrow ?_
  rw [hqueued]
  decide

/-- After the guarded update, the transaction has left QUEUED, here or elsewhere. -/
theorem safe_guard {job : TransactionJobData} (hjob : app.Entitled job x) :
    (app.discipline d).Safe i
      (fun out y ↦ ∀ count, out = .ok count → Started job.transactionId y.store)
      (await (.transactionUpdateMany job.transactionId (.oneOf [.queued, .failed]) .processing))
      x := by
  refine safe_call fun y hxy hy ↦ ?_
  have hallowed : (app.discipline d).Allowed i y
      (.transactionUpdateMany job.transactionId (.oneOf [.queued, .failed]) .processing) :=
    Or.inl ⟨rfl, rfl⟩
  refine ⟨hallowed, fun f r s hsettle z hyz _ ↦ ?_⟩
  have hmove := settled_move hy hallowed hsettle
  rintro count rfl
  by_cases hcount : count = 0
  · subst hcount
    exact started_of_leads (hmove.leads.trans hyz.leads)
      (started_of_guard_missed hsettle (hjob.leads hxy.leads).2)
  · exact started_of_leads hyz.leads (started_of_guard hsettle hcount)

theorem safe_processRetryable {job : TransactionJobData} {existing : Transaction}
    (hx : app.InOrder x) (hjob : app.Entitled job x) :
    (app.discipline d).Safe i
      (fun out y ↦ ∀ a, out = .ok a → Started job.transactionId y.store)
      (processRetryable app.lib job existing) x := by
  refine Safe.bind hx (safe_guard hjob) (fun count y hxy hy hstarted ↦ ?_)
    fun _ _ _ _ _ _ h ↦ by cases h
  have hkept : ∀ z, (app.discipline d).Leads y z → Started job.transactionId z.store :=
    fun z hyz ↦ started_of_leads hyz (hstarted count rfl)
  dsimp only
  split
  · exact safe_pure fun z hyz _ _ _ ↦ hkept z hyz.leads
  · refine Safe.bind hy (safe_complete (hjob.leads hxy) (hstarted count rfl)) ?_
      fun _ _ _ _ _ _ h ↦ by cases h
    intro row z hyz hz hready
    refine Safe.bind hz (safe_enqueueNotification (hready row rfl)) (fun _ z' hzz' _ _ ↦ ?_)
      fun _ _ _ _ _ _ h ↦ by cases h
    exact safe_pure fun z'' hz'' _ _ _ ↦ hkept z'' ((hyz.trans hzz').trans hz''.leads)

/-- The row the processor reads first; when it is COMPLETED it is announced as it is. -/
theorem safe_findExisting {job : TransactionJobData} (hjob : app.Entitled job x) :
    (app.discipline d).Safe i (fun out y ↦ ∀ found, out = .ok found →
      ∃ row, found = some row ∧ (row.status = .completed → app.Ready job row y ∧
        Started job.transactionId y.store))
      (await (.transactionFindUnique job.transactionId)) x := by
  refine safe_call fun y hxy hy ↦ ⟨trivial, fun f r s hsettle z hyz _ ↦ ?_⟩
  rintro found rfl
  obtain ⟨hfound, rfl⟩ := Prod.mk.inj (World.settle_ok hsettle)
  have hjob' := hjob.leads hxy.leads
  obtain ⟨row, hrow⟩ := hjob'.2
  obtain rfl : found = some row := (Except.ok.inj hfound).symm.trans hrow
  refine ⟨row, rfl, fun hcompleted ↦ ⟨?_, started_of_leads hyz.leads ⟨row, hrow, ?_⟩⟩⟩
  · have hready : app.Ready job row
        (y.settled i (.transactionFindUnique job.transactionId) (.ok (some row)) y.store) :=
      { id := Table.key_of_lookup hrow
        books := hjob'.books hy hrow
        stored := ⟨row, hrow, rfl⟩
        reported := ⟨_, List.mem_cons_self, .found hcompleted⟩ }
    exact hready.leads hyz.leads
  · rw [hcompleted]
    exact fun h ↦ by cases h

/-- A job is done with only once its transaction has left QUEUED. -/
theorem safe_process {job : TransactionJobData} (hx : app.InOrder x)
    (hjob : app.Entitled job x) :
    (app.discipline d).Safe i
      (fun out y ↦ ∀ a, out = .ok a → Started job.transactionId y.store)
      (process app.lib job) x := by
  refine Safe.bind hx (safe_findExisting hjob) (fun existing y hxy hy hfound ↦ ?_)
    fun _ _ _ _ _ _ h ↦ by cases h
  obtain ⟨row, rfl, hrow⟩ := hfound existing rfl
  dsimp only
  split
  · next hcompleted =>
      obtain ⟨hready, hstarted⟩ := hrow hcompleted
      refine Safe.bind hy (safe_enqueueNotification hready) (fun _ z hyz _ _ ↦ ?_)
        fun _ _ _ _ _ _ h ↦ by cases h
      exact safe_pure fun z' hz' _ _ _ ↦ started_of_leads (hyz.trans hz'.leads) hstarted
  · exact safe_processRetryable hy (hjob.leads hxy)

theorem safe_onFailed {job : TransactionJobData} (hx : app.InOrder x) :
    (app.discipline d).Safe i (fun _ _ ↦ True) (onFailed job) x := by
  refine Safe.catchError hx (Q := fun _ _ ↦ True) ?_ (fun _ _ _ _ _ ↦ trivial)
    fun _ _ _ _ _ ↦ safe_pure fun _ _ _ ↦ trivial
  exact Safe.bind hx (safe_await fun _ _ _ ↦ .inr ⟨rfl, rfl⟩)
    (fun _ _ _ _ _ ↦ safe_pure fun _ _ _ ↦ trivial) fun _ _ _ _ _ ↦ trivial

theorem safe_finish {job : TransactionJobData} {worker : ℕ}
    {result : Except Err (Option Transaction)} (hx : app.InOrder x)
    (hstarted : ∀ a, result = .ok a → Started job.transactionId x.store) :
    (app.discipline d).Safe i (fun _ _ ↦ True) (finish worker job result) x := by
  cases result with
  | ok result =>
      exact safe_anyway (safe_await fun y hxy _ ↦ started_of_leads hxy (hstarted result rfl))
  | error error =>
      exact Safe.bind hx (safe_await fun _ _ _ ↦ trivial) (fun _ _ _ hy _ ↦ safe_onFailed hy)
        fun _ _ _ _ _ ↦ trivial

theorem safe_takeJob {worker : ℕ} {target : String} :
    (app.discipline d).Safe i (fun out y ↦ ∀ job, out = .ok job → app.Entitled job y)
      (await (.takeJob worker target)) x := by
  refine safe_call fun y _ hy ↦ ⟨trivial, fun f r s hsettle z hyz _ ↦ ?_⟩
  rintro data rfl
  have hanswer := World.settle_ok hsettle
  simp only [World.answer] at hanswer
  cases hjob : y.store.transactionQueue.lookup target with
  | none =>
      rw [hjob] at hanswer
      cases hanswer
  | some job =>
      rw [hjob] at hanswer
      obtain ⟨hdata, -⟩ := Prod.mk.inj hanswer
      obtain rfl := Except.ok.inj hdata
      obtain ⟨hid, hsubmitted, hrow⟩ := hy.queued hjob
      have hstored := (extends_of_leads hyz.leads).stored ((extends_of_settle hsettle).stored hrow)
      exact ⟨hid ▸ hsubmitted, hid ▸ hstored⟩

theorem safe_attempt {worker : ℕ} {target : String} (hx : app.InOrder x) :
    (app.discipline d).Safe i (fun _ _ ↦ True) (attempt app.lib worker target) x := by
  refine Safe.bind hx safe_takeJob (fun job y _ hy hjob ↦ ?_) fun _ _ _ _ _ ↦ trivial
  refine Safe.bind hy (safe_process hy (hjob job rfl)).settled ?_ fun _ _ _ _ _ ↦ trivial
  rintro result z - hz ⟨r, hr, hstarted⟩
  obtain rfl := Except.ok.inj hr
  exact safe_finish hz hstarted

/-! ## Notification workers -/

theorem lastError_of_row {id : String} {data : NotificationData} {row : Notification}
    (h : data.row id = some row) : row.lastError = data.lastError := by
  obtain ⟨recipient, -, rfl⟩ := Option.map_eq_some_iff.mp h
  rfl

/-- A row made from the data of an announcing job says what the job says. -/
theorem Announces.notified {job : NotificationJob} (hjob : app.Announces x job) {id : String}
    {data : NotificationData} {row : Notification} (hrow : data.row id = some row)
    (htransaction : data.transactionId = job.transactionId) (hchannel : data.channel = job.channel)
    (hrecipient : data.recipient = job.recipient) (hpayload : data.payload = job.payload)
    (hrecorded : row.Recorded) : app.Notified x row := by
  obtain ⟨transaction, note, hstored, hnote, -, -, hemail, hto, hsays, hreported⟩ := hjob
  obtain ⟨hpair, -, -, hpayload', hrecipient'⟩ := NotificationData.of_row hrow
  obtain ⟨hid, hchannel'⟩ := Prod.mk.inj hpair
  rw [← htransaction, ← hid] at hstored hreported
  refine ⟨(hchannel'.trans hchannel).trans hemail, hrecorded, transaction, hstored, ?_, hreported⟩
  have hstr := (hrecipient'.symm.trans hrecipient).trans hto
  rw [hnote, Notification.content, Json.str.inj hstr, (hpayload'.trans hpayload).trans hsays]

theorem Announces.leads {job : NotificationJob} (h : app.Announces x job)
    (hxy : (app.discipline d).Leads x y) : app.Announces y job :=
  h.extends (extends_of_leads hxy)

/-- An insertion has made the notification, or has found one. -/
def Delivers {α : Type} (job : NotificationJob) (out : Except Err α) (x : Stores) : Prop :=
  (∃ a, out = .ok a) ∨ out = .error (.prisma .p2002) → Noticed job.transactionId x.store

theorem safe_insert {id : String} {job : NotificationJob} (hjob : app.Announces x job) :
    (app.discipline d).Safe i (Delivers job)
      (await (.notificationCreate id (NotificationProcessor.delivery job))) x := by
  refine safe_call fun y hxy _ ↦ ⟨fun row hrow ↦ ?_, fun f r s hsettle z hyz _ hdone ↦ ?_⟩
  · have hstatus : row.status = .delivered := (NotificationData.of_row hrow).2.1
    have hattempts : row.attempts = job.attemptsMade + 1 := (NotificationData.of_row hrow).2.2.1
    have hjob' := hjob.leads hxy.leads
    refine ⟨hstatus, hjob'.notified hrow rfl rfl rfl rfl (.inl ⟨hstatus, ?_, ?_⟩)⟩
    · exact lastError_of_row hrow
    · omega
  · obtain ⟨-, -, -, -, -, -, hchannel, -⟩ := hjob
    refine noticed_of_leads hyz.leads ?_
    rcases hdone with ⟨row, rfl⟩ | rfl
    · obtain ⟨hrow, -, hafter⟩ := World.notice_of_create hsettle
      have hpair : row.pair = (job.transactionId, .email) :=
        (NotificationData.of_row hrow).1.trans (congrArg _ hchannel)
      exact ⟨row, hpair ▸ hafter⟩
    · obtain ⟨-, hsame, -, row, hrow⟩ := World.notice_of_p2002 hsettle
      have hpair : (job.transactionId, job.channel) = (job.transactionId, .email) :=
        congrArg _ hchannel
      exact ⟨row, (hsame ▸ hpair ▸ hrow : s.notice (job.transactionId, .email) = some row)⟩

/-- A notification job is done with only once there is a notification. -/
theorem safe_notify {id : String} {job : NotificationJob} (hx : app.InOrder x)
    (hjob : app.Announces x job) :
    (app.discipline d).Safe i (fun out y ↦ ∀ a, out = .ok a → Noticed job.transactionId y.store)
      (NotificationProcessor.process id job) x := by
  refine Safe.catchError hx (Q := Delivers job) ?_ (fun a _ _ _ hdone _ _ ↦ hdone (.inl ⟨a, rfl⟩))
    fun error y _ _ hdone ↦ ?_
  · refine Safe.bind hx (safe_insert hjob) (fun row y _ _ hdone ↦ safe_pure fun z hyz _ _ ↦ ?_) ?_
    · exact noticed_of_leads hyz.leads (hdone (.inl ⟨row, rfl⟩))
    · rintro error y - - hdone (⟨a, ha⟩ | hduplicate)
      · cases ha
      · exact hdone (.inr (congrArg _ (Except.error.inj hduplicate)))
  · unfold NotificationProcessor.duplicate
    split
    · next hduplicate =>
        refine safe_pure fun z hyz _ _ _ ↦ noticed_of_leads hyz.leads (hdone (.inr ?_))
        rw [hduplicate]
    · exact safe_throw fun _ _ _ _ h ↦ by cases h

theorem safe_bury {id : String} {job : NotificationJob} {error : Err} (hx : app.InOrder x)
    (hjob : app.Announces x job) (hattempts : NOTIFICATION_MAX_ATTEMPTS ≤ job.attemptsMade) :
    (app.discipline d).Safe i (fun _ _ ↦ True) (NotificationProcessor.bury id job error) x := by
  refine Safe.bind hx (safe_await fun y hxy _ ↦ ⟨fun row hrow ↦ ?_, rfl, rfl, hattempts⟩)
    (fun _ _ _ _ _ ↦ safe_pure fun _ _ _ ↦ trivial) fun _ _ _ _ _ ↦ trivial
  have hstatus : row.status = .deadLetter := (NotificationData.of_row hrow).2.1
  have hmade : row.attempts = job.attemptsMade := (NotificationData.of_row hrow).2.2.1
  refine ⟨hstatus, (hjob.leads hxy).notified hrow rfl rfl rfl rfl (.inr ⟨hstatus, ?_, ?_⟩)⟩
  · rw [lastError_of_row hrow]
    rfl
  · rw [hmade]
    exact hattempts

theorem safe_notifyFailed {id : String} {job : NotificationJob} {error : Err}
    (hx : app.InOrder x) (hjob : app.Announces x job) :
    (app.discipline d).Safe i (fun _ _ ↦ True) (NotificationProcessor.onFailed id job error) x := by
  unfold NotificationProcessor.onFailed
  split
  · next hattempts =>
      refine Safe.bind hx (safe_await fun _ _ _ ↦ trivial) (fun existing y hxy hy _ ↦ ?_)
        fun _ _ _ _ _ ↦ trivial
      split
      · exact safe_pure fun _ _ _ ↦ trivial
      · exact safe_bury hy (hjob.leads hxy) hattempts
  · exact safe_pure fun _ _ _ ↦ trivial

theorem safe_takeNotificationJob {worker : ℕ} {jobId : String} :
    (app.discipline d).Safe i (fun out y ↦ ∀ job, out = .ok job → app.Announces y job)
      (await (.takeNotificationJob worker jobId)) x := by
  refine safe_call fun y _ hy ↦ ⟨trivial, fun f r s hsettle z hyz _ ↦ ?_⟩
  rintro job rfl
  have hanswer := World.settle_ok hsettle
  simp only [World.answer] at hanswer
  cases hjob : y.store.notificationQueue.lookup jobId with
  | none =>
      rw [hjob] at hanswer
      cases hanswer
  | some queued =>
      rw [hjob] at hanswer
      obtain ⟨hqueued, -⟩ := Prod.mk.inj hanswer
      obtain rfl := Except.ok.inj hqueued
      exact ((hy.announced hjob).extends (extends_of_settle hsettle)).leads hyz.leads

theorem safe_notificationAttempt {id deadId : String} {worker : ℕ} {jobId : String}
    (hx : app.InOrder x) :
    (app.discipline d).Safe i (fun _ _ ↦ True)
      (NotificationProcessor.attempt id deadId worker jobId) x := by
  refine Safe.bind hx safe_takeNotificationJob (fun job y _ hy hjob ↦ ?_) fun _ _ _ _ _ ↦ trivial
  refine Safe.bind hy (safe_notify hy (hjob job rfl)).settled (fun result z hyz hz hdone ↦ ?_)
    fun _ _ _ _ _ ↦ trivial
  cases result with
  | ok result =>
      obtain ⟨r, hr, hnoticed⟩ := hdone
      have hnoticed := hnoticed result (Except.ok.inj hr).symm
      obtain ⟨-, -, -, -, -, hid, -⟩ := hjob job rfl
      refine safe_anyway (safe_await fun z' hz' _ id hjobId ↦ ?_)
      obtain rfl := notificationJobId_injective (hid.symm.trans hjobId)
      exact noticed_of_leads hz' hnoticed
  | error error =>
      refine Safe.bind hz (safe_await fun _ _ _ ↦ trivial) (fun _ z' hz' hinv _ ↦ ?_)
        fun _ _ _ _ _ ↦ trivial
      have hkept := (hjob job rfl).leads (hyz.trans hz')
      exact safe_notifyFailed hinv hkept

/-! ## The processes of the application -/

/-- What the client of a request is told, whatever process `i` does otherwise. -/
def Answered (app : Application) (i : ℕ) (out : Except Err Outcome) (x : Stores) : Prop :=
  ∀ p, app.role i = .post p →
    (∀ reply, out = .ok (.replied reply) → ∃ key, p.idempotencyKey = some key ∧
      app.Confirmed key x reply.statusCode reply.body) ∧
    ∀ e, out = .error e → e.isHttp → ¬Booked i x

theorem answered_of_told {key : String} (out : Except Err Reply) {p : HttpPost}
    (hrole : app.role i = .post p) (hkey : p.idempotencyKey = some key)
    (h : app.Told i key out x) : app.Answered i (out.map .replied) x := by
  intro p' hrole'
  obtain rfl := ApplicationRole.post.inj (hrole.symm.trans hrole')
  cases out with
  | ok reply =>
      refine ⟨fun reply' hreply ↦ ⟨key, hkey, ?_⟩, fun _ he ↦ (by cases he)⟩
      cases hreply
      exact h.1 reply rfl
  | error e =>
      refine ⟨fun _ hreply ↦ (by cases hreply), fun e' he ↦ h.2 e' ?_⟩
      cases he
      rfl

theorem safe_withoutKey {p : HttpPost} {id : String}
    (hkey : p.idempotencyKey = none) (hunbooked : ¬Booked i x) :
    (app.discipline d).Safe i (app.Answered i)
      ((Role.post ⟨app.request p, app.handler i p⟩).main app.cfg id) x := by
  have hmain : (Role.post ⟨app.request p, app.handler i p⟩).main app.cfg id =
      throw (.badRequest "Idempotency-Key header is required") := by
    simp only [Role.main, intercept, request, Request.hasKey, hkey]
    rfl
  rw [hmain]
  refine safe_throw fun y hxy _ p' hrole' ↦ ⟨fun _ h ↦ (by cases h), fun _ _ _ ↦ ?_⟩
  exact not_booked_of_relies hxy hunbooked

theorem safe_cronJob (hx : app.InOrder x) :
    (app.discipline d).Safe i (fun _ _ ↦ True) cronJob x := by
  refine Safe.bind hx (Q := fun _ _ ↦ True) ?_ (fun _ y _ hy _ ↦ ?_) fun _ _ _ _ _ ↦ trivial
  · exact safe_callAt fun _ _ _ ↦ ⟨trivial, fun _ _ _ _ _ _ _ ↦ trivial⟩
  · exact Safe.bind hy (safe_await fun _ _ _ ↦ trivial)
      (fun _ _ _ _ _ ↦ safe_pure fun _ _ _ ↦ trivial) fun _ _ _ _ _ ↦ trivial

theorem safe_main (hx : app.InOrder x) (hunbooked : ¬Booked i x) :
    (app.discipline d).Safe i (app.Answered i) (app.deployment.main i) x := by
  change (app.discipline d).Safe i (app.Answered i)
    ((app.deployedRole i).main app.cfg (app.recordId i)) x
  have hquiet : (∀ p, app.role i ≠ .post p) → ∀ q : Promise Outcome,
      (app.discipline d).Safe i (fun _ _ ↦ True) q x →
        (app.discipline d).Safe i (app.Answered i) q x :=
    fun hrole q hq ↦ hq.weaken fun _ _ _ _ _ p hp ↦ absurd hp (hrole p)
  unfold deployedRole
  cases hrole : app.role i with
  | post p =>
      cases hkey : p.idempotencyKey with
      | none => exact safe_withoutKey hkey hunbooked
      | some key =>
          refine Safe.bind hx (safe_intercept hx hrole hkey hunbooked) ?_ ?_
          · refine fun reply y _ _ htold ↦ safe_pure fun z hyz _ ↦
              answered_of_told (.ok reply) hrole hkey ⟨fun reply' h ↦ ?_, fun _ h ↦ ?_⟩
            · exact (htold.1 reply' h).extends (extends_of_leads hyz.leads)
            · cases h
          · exact fun e y _ _ htold ↦ answered_of_told (.error e) hrole hkey htold
  | cleanup =>
      refine hquiet (fun p h ↦ by rw [hrole] at h; cases h) _ ?_
      exact safe_cronJob hx
  | transactionWorker transactionId =>
      refine hquiet (fun p h ↦ by rw [hrole] at h; cases h) _ ?_
      exact Safe.bind hx (safe_attempt hx) (fun _ _ _ _ _ ↦ safe_pure fun _ _ _ ↦ trivial)
        fun _ _ _ _ _ ↦ trivial
  | notificationWorker jobId =>
      refine hquiet (fun p h ↦ by rw [hrole] at h; cases h) _ ?_
      exact Safe.bind hx (safe_notificationAttempt hx)
        (fun _ _ _ _ _ ↦ safe_pure fun _ _ _ ↦ trivial) fun _ _ _ _ _ ↦ trivial

end Application

end TransactionLedger
