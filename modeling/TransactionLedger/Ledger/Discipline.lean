import TransactionLedger.Api.Application
import TransactionLedger.Async.Rely
import TransactionLedger.Ledger.Origins

/-!
# The discipline of the application

What is always true of the stores while the application runs, what one step may do to the
book, and which calls a process may issue.
-/

namespace TransactionLedger

open Async Data TransactionService TransactionProcessor IdempotencyService

/-- The shared state of the processes. -/
abbrev Stores : Type := Shared calls World ℕ

/-- PostgreSQL has told a worker that the transaction is COMPLETED. -/
inductive ReportsCompleted (id : String) : Event calls ℕ → Prop where
  | updated {i : ℕ} {row : Transaction} :
      ReportsCompleted id ⟨i, .transactionUpdate id .completed, .ok row⟩
  | found {i : ℕ} {row : Transaction} (hcompleted : row.status = .completed) :
      ReportsCompleted id ⟨i, .transactionFindUnique id, .ok (some row)⟩

/-- Process `i` has issued the insertion of its transaction. -/
def Booked (i : ℕ) (x : Stores) : Prop :=
  ∃ e ∈ x.log, e.proc = i ∧ ∃ data, e.op = .transactionCreate data

theorem Booked.mono {i : ℕ} {x y : Stores} (hlog : ∀ e ∈ x.log, e ∈ y.log) (h : Booked i x) :
    Booked i y := by
  obtain ⟨e, he, hi⟩ := h
  exact ⟨e, hlog e he, hi⟩

/-- A job for the transaction has been added to its queue. -/
def Enqueued (id : String) (x : Stores) : Prop :=
  ∃ i data, data.transactionId = id ∧
    (⟨i, .transactionQueueAdd data, .ok ()⟩ : Event calls ℕ) ∈ x.log

/-- A notification job for the transaction has been added to its queue. -/
def Posted (id : String) (x : Stores) : Prop :=
  ∃ i job, job.transactionId = id ∧
    (⟨i, .notificationQueueAdd job, .ok ()⟩ : Event calls ℕ) ∈ x.log

/-- The transaction exists and has left QUEUED. -/
def Started (id : String) (w : World) : Prop :=
  ∃ row, w.transaction id = some row ∧ row.status ≠ .queued

/-- There is a notification of the transaction. -/
def Noticed (id : String) (w : World) : Prop :=
  ∃ row, w.notice (id, .email) = some row

/-- No job is lost before its work has begun. -/
structure Retained (x : Stores) : Prop where
  enqueued : ∀ {id}, Enqueued id x → (∃ job, x.store.job id = some job) ∨ Started id x.store
  posted : ∀ {id}, Posted id x →
    (∃ job, x.store.notification (notificationJobId id) = some job) ∨ Noticed id x.store

/-- What a row of `notifications` records of its attempts. -/
def Notification.Recorded (row : Notification) : Prop :=
  row.status = .delivered ∧ row.lastError = none ∧ 0 < row.attempts ∨
    row.status = .deadLetter ∧ row.lastError.isSome ∧ NOTIFICATION_MAX_ATTEMPTS ≤ row.attempts

namespace Application

variable (app : Application)

/-- The book of the application: an entry is made by `createTransaction` from a body that
the pipe has let through, under the identifier that the request has drawn. -/
def rules : BookRules String Entry Notice where
  Submits id entry := ∃ i dto, app.transactionId i = id ∧ app.Submitted i dto ∧
    Books app.lib id dto entry
  announcement _ entry := announcement app.lib entry

/-- The transaction of process `j` has been stored and queued. -/
def Accepted (j : ℕ) (x : Stores) : Prop :=
  (∃ row, x.store.transaction (app.transactionId j) = some row) ∧
    Enqueued (app.transactionId j) x

/-- The response tells of a transaction that has been accepted from a request with the key. -/
def Confirmed (key : String) (x : Stores) (statusCode : ℕ) (response : Option Json) : Prop :=
  statusCode = 202 ∧ ∃ j, app.Carries key j ∧
    response = some (CreatedTransaction.mk (app.transactionId j) .queued).json ∧ app.Accepted j x

/-- The idempotency data is a placeholder, or holds a confirmation. -/
def Remembered (key : String) (x : Stores) (statusCode : Option ℕ) (response : Option Json) :
    Prop :=
  statusCode = none ∧ response = none ∨
    ∃ code, statusCode = some code ∧ app.Confirmed key x code response

def Cacheable (x : Stores) (redisKey : String) (value : RedisText) : Prop :=
  ∃ data, value = .json data ∧ ∀ key, redisKey = IdempotencyService.redisKey key →
    app.Remembered key x data.statusCode data.response

/-- The job says what its transaction announces, and the transaction has been COMPLETED. -/
def Announces (x : Stores) (job : NotificationJob) : Prop :=
  ∃ row note, x.store.transaction job.transactionId = some row ∧
    announcement app.lib row.entry = some note ∧ job.name = "send-notification" ∧
    job.jobId = notificationJobId job.transactionId ∧ job.channel = .email ∧
    job.recipient = .str note.recipient ∧ job.payload = note.payload ∧
    ∃ e ∈ x.log, ReportsCompleted job.transactionId e

/-- The row says what its transaction announces, and the transaction has been COMPLETED. -/
def Notified (x : Stores) (row : Notification) : Prop :=
  row.channel = .email ∧ row.Recorded ∧
    ∃ transaction, x.store.transaction row.transactionId = some transaction ∧
      announcement app.lib transaction.entry = some row.content ∧
      ∃ e ∈ x.log, ReportsCompleted row.transactionId e

/-- Where the contents of the stores come from. -/
structure Accounted (x : Stores) : Prop where
  booked : ∀ {id row}, x.store.transaction id = some row →
    ∃ i dto, app.transactionId i = id ∧ app.Submitted i dto ∧ Books app.lib id dto row.entry ∧
      Booked i x ∧ checkedEvent i .miss ∈ x.log
  queued : ∀ {id job}, x.store.job id = some job → job.data.transactionId = id ∧
    (∃ i, app.transactionId i = id ∧ app.Submitted i job.data.dto) ∧
      ∃ row, x.store.transaction id = some row
  recorded : ∀ {key row}, x.store.record key = some row →
    app.Remembered key x row.statusCode row.response
  cached : ∀ {key raw}, x.store.redisGet (redisKey key) = some raw →
    ∃ data, raw = .json data ∧ app.Remembered key x data.statusCode data.response
  announced : ∀ {jobId job}, x.store.notification jobId = some job → app.Announces x job
  noticed : ∀ {pair row}, x.store.notice pair = some row → app.Notified x row

structure InOrder (x : Stores) : Prop extends app.Accounted x, Retained x

/-- The COMPLETED transactions that a step takes back are those whose creator reports that
they could not be queued. -/
structure Evolves (x y : Stores) : Prop where
  book : y.store.book = x.store.book ∨ app.rules.Step x.store.book y.store.book
  revoked : ∀ {id entry}, x.store.book.entry id = some (entry, .completed) →
    y.store.book.entry id = some (entry, .completed) ∨
      ∃ i r, app.transactionId i = id ∧
        y.log = ⟨i, .transactionUpdate id .failed, r⟩ :: x.log

/-- Process `i` may issue the call. -/
def Allowed (i : ℕ) (x : Stores) : Op → Prop
  | .redisSet k value _ => app.Cacheable x k value
  | .redisSetNX k value _ => app.Cacheable x k value
  | .recordUpdate key statusCode response => app.Confirmed key x statusCode (some response)
  | .transactionCreate data => checkedEvent i .miss ∈ x.log ∧
      ∃ dto amount, app.Submitted i dto ∧ app.lib.ofString dto.amount = some amount ∧
        data = newTransaction (app.transactionId i) dto amount
  | .transactionUpdate id status =>
      status = .failed ∧ app.transactionId i = id ∨
        status = .completed ∧ ∀ row, x.store.transaction id = some row → row.status ≠ .queued
  | .transactionUpdateMany _ filter status =>
      filter = .oneOf [.queued, .failed] ∧ status = .processing ∨
        filter = .not .completed ∧ status = .failed
  | .transactionQueueAdd data =>
      (∃ j, app.transactionId j = data.transactionId ∧ app.Submitted j data.dto) ∧
        ∃ row, x.store.transaction data.transactionId = some row
  | .completeJob id => Started id x.store
  | .completeNotificationJob jobId => ∀ id, jobId = notificationJobId id → Noticed id x.store
  | .notificationQueueAdd job => app.Announces x job
  | .notificationCreate id data =>
      ∀ row, data.row id = some row → row.status = .delivered ∧ app.Notified x row
  | .notificationUpsert _ id create update =>
      (∀ row, create.row id = some row → row.status = .deadLetter ∧ app.Notified x row) ∧
        update.status = .deadLetter ∧ update.lastError.isSome ∧
        NOTIFICATION_MAX_ATTEMPTS ≤ update.attempts
  | _ => True

/-! ## What lasts -/

/-- Rows say what they said, and nothing is forgotten. -/
structure Extends (x y : Stores) : Prop where
  grows : x.store.Grows y.store
  log : ∀ e ∈ x.log, e ∈ y.log

section

variable {app : Application} {x y : Stores}

theorem Extends.stored (h : Extends x y) {id : String}
    (hx : ∃ row, x.store.transaction id = some row) :
    ∃ row, y.store.transaction id = some row := by
  obtain ⟨row, hrow⟩ := hx
  obtain ⟨row', hrow', -⟩ := h.grows hrow
  exact ⟨row', hrow'⟩

theorem Extends.enqueued (h : Extends x y) {id : String} (hx : Enqueued id x) : Enqueued id y := by
  obtain ⟨i, data, hid, hmem⟩ := hx
  exact ⟨i, data, hid, h.log _ hmem⟩

theorem Confirmed.extends (h : Extends x y) {key : String} {statusCode : ℕ}
    {response : Option Json} (hx : app.Confirmed key x statusCode response) :
    app.Confirmed key y statusCode response := by
  obtain ⟨hcode, j, hcarries, hresponse, hrow, henqueued⟩ := hx
  exact ⟨hcode, j, hcarries, hresponse, h.stored hrow, h.enqueued henqueued⟩

theorem Remembered.extends (h : Extends x y) {key : String} {statusCode : Option ℕ}
    {response : Option Json} (hx : app.Remembered key x statusCode response) :
    app.Remembered key y statusCode response := by
  rcases hx with hplaceholder | ⟨code, hcode, hconfirmed⟩
  · exact .inl hplaceholder
  · exact .inr ⟨code, hcode, hconfirmed.extends h⟩

theorem Announces.extends (h : Extends x y) {job : NotificationJob}
    (hx : app.Announces x job) : app.Announces y job := by
  obtain ⟨row, note, hrow, hnote, hname, hid, hchannel, hrecipient, hpayload, e, he, hreports⟩ := hx
  obtain ⟨row', hrow', hentry⟩ := h.grows hrow
  exact ⟨row', note, hrow', hentry ▸ hnote, hname, hid, hchannel, hrecipient, hpayload, e,
    h.log e he, hreports⟩

theorem Announces.sameNotice {job job' : NotificationJob} (h : app.Announces x job)
    (hsame : job.SameNotice job') : app.Announces x job' := by
  rw [hsame]
  exact h

theorem Notified.extends (h : Extends x y) {row : Notification} (hx : app.Notified x row) :
    app.Notified y row := by
  obtain ⟨hchannel, hrecorded, transaction, htransaction, hnote, e, he, hreports⟩ := hx
  obtain ⟨transaction', htransaction', hentry⟩ := h.grows htransaction
  exact ⟨hchannel, hrecorded, transaction', htransaction', hentry ▸ hnote, e, h.log e he, hreports⟩

end

/-! ## What one step does to the book -/

section

variable {app : Application} {x y : Stores} {d : Delivery} {f : Fate} {i : ℕ} {op : Op}
  {r : Except Err op.Res} {w' : World}

/-- An allowed call changes the book by a step of it, or not at all. -/
theorem step_of_bookChange (hx : app.Accounted x) (hallowed : app.Allowed i x op)
    {b : Book String Entry Notice} (h : BookChange x.store.book op b) :
    b = x.store.book ∨ app.rules.Step x.store.book b := by
  cases h with
  | @created data row hrow hfree =>
      obtain ⟨-, dto, amount, hdto, hamount, rfl⟩ := hallowed
      obtain ⟨hid, hstatus, -⟩ := TransactionData.of_row hrow
      change row.id = app.transactionId i at hid
      rw [hstatus]
      exact .inr (.submit hfree ⟨i, dto, hid.symm, hdto, amount, row, hamount, hid ▸ hrow, rfl⟩)
  | @updated id entry before after hentry =>
      right
      rcases hallowed with ⟨rfl, -⟩ | ⟨rfl, hqueued⟩
      · by_cases hbefore : before = .completed
        · exact .revoke (hbefore ▸ hentry)
        · exact .fail hentry hbefore
      · obtain ⟨row, hrow, -, rfl⟩ := World.of_book_entry hentry
        exact .complete hentry (hqueued row hrow)
  | guarded hentry hholds =>
      right
      rcases hallowed with ⟨rfl, rfl⟩ | ⟨rfl, rfl⟩
      · exact .start hentry (holds_retryable.mp hholds)
      · exact .fail hentry (holds_unfinished.mp hholds)
  | delivered hrow hfree =>
      obtain ⟨hstatus, -, -, transaction, htransaction, hnote, -⟩ := hallowed _ hrow
      rw [hstatus]
      exact .inr (.deliver (World.book_entry htransaction) hnote hfree)
  | inserted hrow hfree =>
      obtain ⟨hstatus, -, -, transaction, htransaction, hnote, -⟩ := hallowed.1 _ hrow
      rw [hstatus]
      exact .inr (.bury (World.book_entry htransaction) hnote hfree)
  | @overwritten pair _ _ update note before hnotice =>
      rw [hallowed.2.1]
      obtain ⟨row, hrow, -, hstatus⟩ := World.of_book_notice hnotice
      obtain ⟨-, ⟨hdelivered, -⟩ | ⟨hdead, -⟩, -⟩ := hx.noticed hrow
      · exact .inr (.overrule ((hstatus.symm.trans hdelivered) ▸ hnotice))
      · exact .inl (Book.post_self ((hstatus.symm.trans hdead) ▸ hnotice))

/-- Only the creator of a transaction takes back that it is COMPLETED. -/
theorem revoked_of_bookChange (hallowed : app.Allowed i x op) {b : Book String Entry Notice}
    (h : BookChange x.store.book op b) {k : String} {entry : Entry}
    (hcompleted : x.store.book.entry k = some (entry, .completed)) :
    b.entry k = some (entry, .completed) ∨
      app.transactionId i = k ∧ op = .transactionUpdate k .failed := by
  cases h with
  | @created data row hrow hfree =>
      left
      rw [Book.entry_enter, if_neg, hcompleted]
      rintro rfl
      rw [hfree] at hcompleted
      cases hcompleted
  | @updated id _ before after hentry =>
      by_cases hk : k = id
      · subst hk
        obtain ⟨rfl, rfl⟩ := Prod.mk.inj (Option.some.inj (hentry.symm.trans hcompleted))
        rcases hallowed with ⟨rfl, hid⟩ | ⟨rfl, -⟩
        · exact .inr ⟨hid, rfl⟩
        · exact .inl (by simp)
      · exact .inl (by simp [hk, hcompleted])
  | @guarded id _ filter before after hentry hholds =>
      left
      rw [Book.entry_enter, if_neg, hcompleted]
      rintro rfl
      obtain ⟨-, rfl⟩ := Prod.mk.inj (Option.some.inj (hentry.symm.trans hcompleted))
      rcases hallowed with ⟨rfl, -⟩ | ⟨rfl, -⟩ <;> exact absurd hholds (by decide)
  | delivered | inserted | overwritten => exact .inl hcompleted

theorem Evolves.of_book (h : y.store.book = x.store.book) : app.Evolves x y where
  book := .inl h
  revoked hcompleted := by
    rw [h]
    exact .inl hcompleted

theorem Evolves.settle (hx : app.Accounted x) (hallowed : app.Allowed i x op)
    (hsettle : x.store.settle d f op = some (r, w')) : app.Evolves x (x.settled i op r w') := by
  rcases World.settle_book hsettle with hsame | hchange
  · exact .of_book hsame
  · refine ⟨step_of_bookChange hx hallowed hchange, fun hcompleted ↦ ?_⟩
    rcases revoked_of_bookChange hallowed hchange hcompleted with hkept | ⟨hid, rfl⟩
    · exact .inl hkept
    · exact .inr ⟨i, r, hid, rfl⟩

theorem Evolves.grows (h : app.Evolves x y) : x.store.Grows y.store := by
  intro id row hrow
  rcases h.book with hsame | hstep
  · have hentry := World.book_entry hrow
    rw [← hsame] at hentry
    obtain ⟨row', hrow', hkept, -⟩ := World.of_book_entry hentry
    exact ⟨row', hrow', hkept⟩
  · obtain ⟨status, hentry, -⟩ := hstep.keeps_entry (World.book_entry hrow)
    obtain ⟨row', hrow', hkept, -⟩ := World.of_book_entry hentry
    exact ⟨row', hrow', hkept⟩

theorem Evolves.started (h : app.Evolves x y) {id : String} (hx : Started id x.store) :
    Started id y.store := by
  obtain ⟨row, hrow, hstatus⟩ := hx
  have hentry := World.book_entry hrow
  rcases h.book with hsame | hstep
  · rw [← hsame] at hentry
    obtain ⟨row', hrow', -, hstatus'⟩ := World.of_book_entry hentry
    exact ⟨row', hrow', hstatus' ▸ hstatus⟩
  · obtain ⟨status, hentry', hfollows⟩ := hstep.keeps_entry hentry
    obtain ⟨row', hrow', -, rfl⟩ := World.of_book_entry hentry'
    refine ⟨row', hrow', fun hqueued ↦ hstatus ?_⟩
    rw [hqueued] at hfollows
    exact hfollows

theorem Evolves.noticed (h : app.Evolves x y) {id : String} (hx : Noticed id x.store) :
    Noticed id y.store := by
  obtain ⟨row, hrow⟩ := hx
  have hnotice := World.book_notice hrow
  rcases h.book with hsame | hstep
  · rw [← hsame] at hnotice
    obtain ⟨row', hrow', -⟩ := World.of_book_notice hnotice
    exact ⟨row', hrow'⟩
  · obtain ⟨verdict, hnotice', -⟩ := hstep.keeps_notice hnotice
    obtain ⟨row', hrow', -⟩ := World.of_book_notice hnotice'
    exact ⟨row', hrow'⟩

end

/-! ## What one step keeps -/

section

variable {app : Application} {x y : Stores} {d : Delivery} {f : Fate} {i : ℕ} {op : Op}
  {r : Except Err op.Res} {w' : World}

/-- A step that leaves the rows and what they say in place, with other Redis values, records
and jobs accounted for. -/
theorem Accounted.next (hx : app.Accounted x) (hxy : Extends x y)
    (hbooked : ∀ {id row}, y.store.transaction id = some row →
      (∃ before, x.store.transaction id = some before ∧ before.entry = row.entry) ∨
        ∃ i dto, app.transactionId i = id ∧ app.Submitted i dto ∧ Books app.lib id dto row.entry ∧
          Booked i y ∧ checkedEvent i .miss ∈ y.log)
    (hqueued : ∀ {id job}, y.store.job id = some job →
      (∃ before, x.store.job id = some before ∧ before.data = job.data) ∨
        job.data.transactionId = id ∧
          (∃ j, app.transactionId j = id ∧ app.Submitted j job.data.dto) ∧
            ∃ row, x.store.transaction id = some row)
    (hrecorded : ∀ {key row}, y.store.record key = some row →
      (∃ before, x.store.record key = some before ∧ before.statusCode = row.statusCode ∧
        before.response = row.response) ∨
        app.Remembered key x row.statusCode row.response)
    (hcached : ∀ {key raw}, y.store.redisGet (redisKey key) = some raw →
      x.store.redisGet (redisKey key) = some raw ∨ app.Cacheable x (redisKey key) raw)
    (hannounced : ∀ {jobId job}, y.store.notification jobId = some job →
      (∃ before, x.store.notification jobId = some before ∧ before.SameNotice job) ∨
        app.Announces x job)
    (hnoticed : ∀ {pair row}, y.store.notice pair = some row →
      x.store.notice pair = some row ∨ app.Notified x row) : app.Accounted y where
  booked h := by
    rcases hbooked h with ⟨before, hbefore, hentry⟩ | hnew
    · obtain ⟨i, dto, hid, hdto, hbooks, hby, hmiss⟩ := hx.booked hbefore
      exact ⟨i, dto, hid, hdto, hentry ▸ hbooks, hby.mono hxy.log, hxy.log _ hmiss⟩
    · exact hnew
  queued h := by
    rcases hqueued h with ⟨before, hbefore, hdata⟩ | ⟨rfl, hsubmitted, hrow⟩
    · obtain ⟨hid, hsubmitted, hrow⟩ := hx.queued hbefore
      exact ⟨hdata ▸ hid, hdata ▸ hsubmitted, hxy.stored hrow⟩
    · exact ⟨rfl, hsubmitted, hxy.stored hrow⟩
  recorded h := by
    rcases hrecorded h with ⟨before, hbefore, hcode, hresponse⟩ | hnew
    · exact hcode ▸ hresponse ▸ (hx.recorded hbefore).extends hxy
    · exact hnew.extends hxy
  cached {key raw} h := by
    rcases hcached h with hbefore | ⟨data, rfl, hdata⟩
    · obtain ⟨data, rfl, hdata⟩ := hx.cached hbefore
      exact ⟨data, rfl, hdata.extends hxy⟩
    · exact ⟨data, rfl, (hdata key rfl).extends hxy⟩
  announced h := by
    rcases hannounced h with ⟨before, hbefore, hsame⟩ | hnew
    · exact ((hx.announced hbefore).sameNotice hsame).extends hxy
    · exact hnew.extends hxy
  noticed h := by
    rcases hnoticed h with hbefore | hnew
    · exact (hx.noticed hbefore).extends hxy
    · exact hnew.extends hxy

theorem extends_of_settle (hsettle : x.store.settle d f op = some (r, w')) :
    Extends x (x.settled i op r w') where
  grows := World.settle_grows hsettle
  log _ he := List.mem_cons_of_mem _ he

theorem Accounted.settle (hx : app.Accounted x) (hallowed : app.Allowed i x op)
    (hsettle : x.store.settle d f op = some (r, w')) : app.Accounted (x.settled i op r w') := by
  refine hx.next (extends_of_settle hsettle) ?_ ?_ ?_ ?_ ?_ ?_
  · intro id row h
    rcases World.settle_transaction hsettle id with hsame | heffect
    · exact .inl ⟨row, hsame ▸ h, rfl⟩
    · rcases Op.onTransaction_cases (heffect.symm.trans h) with hbefore | ⟨data, rfl, hdata⟩
      · exact .inl hbefore
      · obtain ⟨hmiss, dto, amount, hdto, hamount, rfl⟩ := hallowed
        have hid : row.id = id := Table.key_of_lookup h
        have hdrawn : app.transactionId i = id := by
          rw [← hid, (TransactionData.of_row hdata).1]
          rfl
        refine .inr ⟨i, dto, hdrawn, hdto, ⟨amount, row, hamount, hdrawn ▸ hdata, rfl⟩, ?_, ?_⟩
        · exact ⟨_, List.mem_cons_self, rfl, _, rfl⟩
        · exact List.mem_cons_of_mem _ hmiss
  · intro id job h
    rcases World.settle_job hsettle id with hsame | heffect
    · exact .inl ⟨job, hsame ▸ h, rfl⟩
    · rcases Op.onJob_cases (heffect.symm.trans h) with hbefore | ⟨rfl, rfl⟩
      · exact .inl hbefore
      · exact .inr ⟨rfl, hallowed⟩
  · intro key row h
    rcases World.settle_record hsettle key with hsame | heffect
    · exact .inl ⟨row, hsame ▸ h, rfl, rfl⟩
    · rcases Op.onRecord_cases (heffect.symm.trans h) with
        hbefore | hplaceholder | ⟨code, response, rfl, hcode, hresponse⟩
      · exact .inl hbefore
      · exact .inr (.inl hplaceholder)
      · exact .inr (.inr ⟨code, hcode, hresponse ▸ hallowed⟩)
  · intro key raw h
    rcases World.settle_redisGet hsettle (redisKey key) with hsame | heffect
    · exact .inl (hsame ▸ h)
    · rcases Op.onRedis_cases (heffect.symm.trans h) with hbefore | ⟨ttl, rfl⟩ | ⟨ttl, rfl⟩
      · exact .inl hbefore
      · exact .inr hallowed
      · exact .inr hallowed
  · intro jobId job h
    rcases World.settle_notification hsettle jobId with hsame | heffect
    · exact .inl ⟨job, hsame ▸ h, .refl job⟩
    · rcases Op.onNotification_cases (heffect.symm.trans h) with hbefore | ⟨rfl, -⟩
      · exact .inl hbefore
      · exact .inr hallowed
  · intro pair row h
    rcases World.settle_notice hsettle pair with hsame | hchange
    · exact .inl (hsame ▸ h)
    · change w'.notice pair = some row at h
      rw [h] at hchange
      generalize hbefore : x.store.notice pair = before at hchange
      cases hchange with
      | created hrow hpair => exact .inr (hallowed row hrow).2
      | inserted hrow hpair => exact .inr (hallowed.1 row hrow).2
      | @updated id create update old =>
          obtain ⟨hchannel, -, hnotified⟩ := hx.noticed hbefore
          obtain ⟨-, hstatus, herror, hattempts⟩ := hallowed
          exact .inr ⟨hchannel, .inr ⟨hstatus, herror, hattempts⟩, hnotified⟩

/-- Time, lost Redis entries and crashes change no row. -/
theorem Accounted.unchanged {w : World} (hx : app.Accounted x)
    (htransaction : ∀ id, w.transaction id = x.store.transaction id)
    (hjob : ∀ id, w.job id = x.store.job id ∨ ∃ j, w.job id = (x.store.job id).map (·.stalledBy j))
    (hrecord : ∀ key, w.record key = x.store.record key)
    (hredis : ∀ key, w.redisGet key = x.store.redisGet key ∨ w.redisGet key = none)
    (hnotification : ∀ jobId, w.notification jobId = x.store.notification jobId ∨
      ∃ j, w.notification jobId = (x.store.notification jobId).map (·.stalledBy j))
    (hnotice : ∀ pair, w.notice pair = x.store.notice pair) : app.Accounted (x.moved w) := by
  have hxy : Extends x (x.moved w) := ⟨World.Grows.of_same htransaction, fun _ he ↦ he⟩
  refine hx.next hxy ?_ ?_ ?_ ?_ ?_ ?_
  · exact fun {id row} h ↦ .inl ⟨row, (htransaction id).symm.trans h, rfl⟩
  · intro id job h
    left
    rcases hjob id with hsame | ⟨j, hstalled⟩
    · exact ⟨job, hsame.symm.trans h, rfl⟩
    · obtain ⟨before, hbefore, rfl⟩ := Option.map_eq_some_iff.mp (hstalled.symm.trans h)
      exact ⟨before, hbefore, rfl⟩
  · exact fun {key row} h ↦ .inl ⟨row, (hrecord key).symm.trans h, rfl, rfl⟩
  · intro key raw h
    rcases hredis (redisKey key) with hsame | hgone
    · exact .inl (hsame.symm.trans h)
    · cases hgone.symm.trans h
  · intro jobId job h
    left
    rcases hnotification jobId with hsame | ⟨j, hstalled⟩
    · exact ⟨job, hsame.symm.trans h, .refl job⟩
    · obtain ⟨before, hbefore, rfl⟩ := Option.map_eq_some_iff.mp (hstalled.symm.trans h)
      exact ⟨before, hbefore, rfl⟩
  · exact fun {pair row} h ↦ .inl ((hnotice pair).symm.trans h)

/-- A step that removes a job only once its work has begun. -/
theorem Retained.next (hx : Retained x) (hxy : app.Evolves x y)
    (henqueued : ∀ {id}, Enqueued id y → Enqueued id x ∨ ∃ job, y.store.job id = some job)
    (hposted : ∀ {id}, Posted id y →
      Posted id x ∨ ∃ job, y.store.notification (notificationJobId id) = some job)
    (hjob : ∀ {id job}, x.store.job id = some job →
      (∃ job, y.store.job id = some job) ∨ Started id x.store)
    (hnotification : ∀ {id job}, x.store.notification (notificationJobId id) = some job →
      (∃ job, y.store.notification (notificationJobId id) = some job) ∨ Noticed id x.store) :
    Retained y where
  enqueued h := by
    rcases henqueued h with hbefore | hnew
    · rcases hx.enqueued hbefore with ⟨job, hwaiting⟩ | hstarted
      · exact (hjob hwaiting).imp_right hxy.started
      · exact .inr (hxy.started hstarted)
    · exact .inl hnew
  posted h := by
    rcases hposted h with hbefore | hnew
    · rcases hx.posted hbefore with ⟨job, hwaiting⟩ | hnoticed
      · exact (hnotification hwaiting).imp_right hxy.noticed
      · exact .inr (hxy.noticed hnoticed)
    · exact .inl hnew

theorem job_of_enqueued {data : TransactionJobData}
    (h : x.store.settle d f (.transactionQueueAdd data) = some (.ok (), w')) :
    ∃ job, w'.job data.transactionId = some job := by
  have hafter := World.answer_job x.store (.transactionQueueAdd data) data.transactionId
  rw [World.settle_ok h] at hafter
  simp only [Op.onJob, if_true] at hafter
  cases hjob : x.store.job data.transactionId with
  | none => exact ⟨_, hafter.trans (by rw [hjob]; rfl)⟩
  | some job => exact ⟨_, hafter.trans (by rw [hjob]; rfl)⟩

theorem notification_of_posted {job : NotificationJob}
    (h : x.store.settle d f (.notificationQueueAdd job) = some (.ok (), w')) :
    ∃ job', w'.notification job.jobId = some job' := by
  have hafter := World.answer_notification x.store (.notificationQueueAdd job) job.jobId
  rw [World.settle_ok h] at hafter
  simp only [Op.onNotification, if_true] at hafter
  cases hjob : x.store.notification job.jobId with
  | none => exact ⟨_, hafter.trans (by rw [hjob]; rfl)⟩
  | some job => exact ⟨_, hafter.trans (by rw [hjob]; rfl)⟩

theorem Retained.settle (hx : Retained x) (hxy : app.Evolves x (x.settled i op r w'))
    (hallowed : app.Allowed i x op) (hsettle : x.store.settle d f op = some (r, w')) :
    Retained (x.settled i op r w') := by
  refine Retained.next hx hxy ?_ ?_ ?_ ?_
  · rintro id ⟨j, data, rfl, hmem⟩
    rcases List.mem_cons.mp hmem with heq | hmem
    · cases heq
      exact .inr (job_of_enqueued hsettle)
    · exact .inl ⟨j, data, rfl, hmem⟩
  · rintro id ⟨j, job, rfl, hmem⟩
    rcases List.mem_cons.mp hmem with heq | hmem
    · cases heq
      obtain ⟨-, -, -, -, -, hid, -⟩ := hallowed
      exact .inr (hid ▸ notification_of_posted hsettle)
    · exact .inl ⟨j, job, rfl, hmem⟩
  · intro id job hjob
    cases hafter : w'.job id with
    | some job' => exact .inl ⟨job', hafter⟩
    | none =>
        rcases World.settle_job hsettle id with hsame | heffect
        · cases hjob.symm.trans (hsame.symm.trans hafter)
        · rw [hafter, hjob] at heffect
          obtain rfl := Op.completeJob_of_onJob heffect.symm
          exact .inr hallowed
  · intro id job hjob
    cases hafter : w'.notification (notificationJobId id) with
    | some job' => exact .inl ⟨job', hafter⟩
    | none =>
        rcases World.settle_notification hsettle (notificationJobId id) with hsame | heffect
        · cases hjob.symm.trans (hsame.symm.trans hafter)
        · rw [hafter, hjob] at heffect
          obtain rfl := Op.completeNotificationJob_of_onNotification heffect.symm
          exact .inr (hallowed id rfl)

/-- Time and lost Redis entries leave every job; a crash puts it back. -/
theorem Retained.unchanged {w : World} (hx : Retained x) (hxy : app.Evolves x (x.moved w))
    (hjob : ∀ id, w.job id = x.store.job id ∨ ∃ j, w.job id = (x.store.job id).map (·.stalledBy j))
    (hnotification : ∀ jobId, w.notification jobId = x.store.notification jobId ∨
      ∃ j, w.notification jobId = (x.store.notification jobId).map (·.stalledBy j)) :
    Retained (x.moved w) := by
  refine Retained.next hx hxy .inl .inl (fun {id job} hwaiting ↦ .inl ?_)
    fun {id job} hwaiting ↦ .inl ?_
  · rcases hjob id with hsame | ⟨j, hstalled⟩
    · exact ⟨job, hsame.trans hwaiting⟩
    · exact ⟨job.stalledBy j, hstalled.trans (by rw [hwaiting]; rfl)⟩
  · rcases hnotification (notificationJobId id) with hsame | ⟨j, hstalled⟩
    · exact ⟨job, hsame.trans hwaiting⟩
    · exact ⟨job.stalledBy j, hstalled.trans (by rw [hwaiting]; rfl)⟩

/-- An allowed call keeps the stores in order. -/
theorem InOrder.settle (hx : app.InOrder x) (hallowed : app.Allowed i x op)
    (hsettle : x.store.settle d f op = some (r, w')) :
    app.InOrder (x.settled i op r w') ∧ app.Evolves x (x.settled i op r w') := by
  have hxy := Evolves.settle hx.toAccounted hallowed hsettle
  exact ⟨⟨hx.toAccounted.settle hallowed hsettle,
    Retained.settle hx.toRetained hxy hallowed hsettle⟩, hxy⟩

theorem InOrder.drift (hx : app.InOrder x) (dr : Drift) :
    app.InOrder (x.moved (x.store.drift dr)) ∧ app.Evolves x (x.moved (x.store.drift dr)) := by
  have hxy : app.Evolves x (x.moved (x.store.drift dr)) :=
    .of_book (World.book_congr (World.drift_transaction _ dr) fun _ ↦ World.drift_notice _ dr _)
  have hjob := fun id ↦ World.drift_job x.store dr id
  have hnotification := fun id ↦ World.drift_notification x.store dr id
  exact ⟨⟨hx.toAccounted.unchanged (World.drift_transaction _ dr) (fun id ↦ .inl (hjob id))
    (World.drift_record _ dr) (World.drift_redisGet _ dr) (fun id ↦ .inl (hnotification id))
    (World.drift_notice _ dr), Retained.unchanged hx.toRetained hxy (fun id ↦ .inl (hjob id))
      fun id ↦ .inl (hnotification id)⟩, hxy⟩

theorem InOrder.crash (hx : app.InOrder x) (j : ℕ) :
    app.InOrder (x.moved (x.store.crash j)) ∧ app.Evolves x (x.moved (x.store.crash j)) := by
  have hxy : app.Evolves x (x.moved (x.store.crash j)) := .of_book rfl
  have hjob := fun id ↦ World.crash_job x.store j id
  have hnotification := fun id ↦ World.crash_notification x.store j id
  exact ⟨⟨hx.toAccounted.unchanged (fun _ ↦ rfl) (fun id ↦ .inr ⟨j, hjob id⟩) (fun _ ↦ rfl)
    (fun _ ↦ .inl rfl) (fun id ↦ .inr ⟨j, hnotification id⟩) fun _ ↦ rfl,
      Retained.unchanged hx.toRetained hxy (fun id ↦ .inr ⟨j, hjob id⟩)
        fun id ↦ .inr ⟨j, hnotification id⟩⟩, hxy⟩

end

/-- The discipline. -/
def discipline (app : Application) (d : Delivery) : Discipline (ledger d) where
  Inv := app.InOrder
  Step := app.Evolves
  Allowed := app.Allowed
  settle hx hallowed hsettle := hx.settle hallowed hsettle
  drift {x dr s} hx hdrift := by
    obtain rfl := Option.some.inj hdrift
    exact hx.drift dr
  crash j hx := hx.crash j

end Application

end TransactionLedger
