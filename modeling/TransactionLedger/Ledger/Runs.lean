import TransactionLedger.Idempotency.Admission
import TransactionLedger.Ledger.Workers
import TransactionLedger.Transaction.Creation

/-!
# Runs of the application

What the discipline gives for every run: any interleaving of requests, clean-up and
workers, any call failing with or without effect, any process crashing, Redis losing
entries and time passing.
-/

namespace TransactionLedger

open Async Data Discipline TransactionProcessor

abbrev State : Type := Config calls World ℕ (Promise Outcome)

/-- A run of the application, from one state to another. -/
def Run (d : Delivery) : State → State → Prop :=
  ((ledger d).programs Outcome).Reachable ((ledger d).programs Outcome).anyMove

namespace Application

variable {app : Application} {d : Delivery} {clock : ℕ} {c c' : State} {x y : Stores} {i : ℕ}

theorem inOrder_initial (app : Application) (clock : ℕ) : app.InOrder ⟨.initial clock, []⟩ where
  booked h := by cases h
  queued h := by cases h
  recorded h := by cases h
  cached h := by cases h
  announced h := by cases h
  noticed h := by cases h
  enqueued h := by
    obtain ⟨i, data, -, hmem⟩ := h
    cases hmem
  posted h := by
    obtain ⟨i, job, -, hmem⟩ := h
    cases hmem

theorem obeyed_start (app : Application) (d : Delivery) (clock : ℕ) :
    (app.discipline d).Obeyed app.Answered (app.deployment.start clock) where
  inv := app.inOrder_initial clock
  safe i p hp := by
    obtain rfl := Option.some.inj hp
    refine safe_main (app.inOrder_initial clock) ?_
    rintro ⟨e, he, -⟩
    cases he

theorem obeyed_of_run (h : Run d (app.deployment.start clock) c) :
    (app.discipline d).Obeyed app.Answered c :=
  ((obeyed_start app d clock).reachable h).2

theorem leads_of_run (h : Run d (app.deployment.start clock) c) (h' : Run d c c') :
    (app.discipline d).Leads c.shared c'.shared :=
  ((obeyed_of_run h).reachable h').1

/-! ## A deposit and its retry -/

/-- A deposit, its retry, a request without a body, and a worker of each kind. -/
def deposits : Application where
  cfg := Deployment.oneHour
  lib := decimalJs
  cv := classValidator
  js := ⟨fun s ↦ s, fun _ ↦ []⟩
  sha256 _ := "h"
  exceptionText _ := "Bad Request"
  role
    | 0 | 1 => .post ⟨some "k", depositBody (.str "ACC-002")⟩
    | 2 => .post ⟨some "j", []⟩
    | 3 => .transactionWorker "t"
    | _ + 4 => .notificationWorker "notif-t"
  recordId := depositBackend.transactionId
  recordId_injective := depositBackend.transactionId_injective
  transactionId := depositBackend.transactionId
  transactionId_injective := depositBackend.transactionId_injective
  notificationId := depositBackend.transactionId
  deadLetterId := depositBackend.transactionId

/-- The processes settle their calls in this order, undisturbed. -/
def later (c : State) (is : List ℕ) : State :=
  ((ledger .exclusive).programs Outcome).played (fun _ _ _ ↦ true) c (is.map (.settle · .run))

theorem run_later {is : List ℕ} (h : (((ledger .exclusive).programs Outcome).play
    (fun _ _ _ ↦ true) c (is.map (.settle · .run))).isSome) : Run .exclusive c (later c is) :=
  Pool.reachable_played (fun _ _ _ _ ↦ trivial) h

def depositAnswered : State :=
  later (deposits.deployment.start 0) [0, 0, 0, 0, 0, 0, 0, 0, 1, 1, 1, 2, 2, 2, 2, 2, 2]

def depositCompleted : State := later depositAnswered [3, 3, 3, 3, 3, 3]

def depositAnnounced : State := later depositCompleted [4, 4, 4]

theorem run_depositAnswered : Run .exclusive (deposits.deployment.start 0) depositAnswered :=
  run_later (by decide +kernel)

theorem run_depositCompleted : Run .exclusive depositAnswered depositCompleted :=
  run_later (by decide +kernel)

theorem run_depositAnnounced : Run .exclusive depositCompleted depositAnnounced :=
  run_later (by decide +kernel)

theorem run_deposits : Run .exclusive (deposits.deployment.start 0) depositAnnounced :=
  (run_depositAnswered.trans run_depositCompleted).trans run_depositAnnounced

theorem retry_answered : ((ledger .exclusive).programs Outcome).result depositAnswered 1 =
    some (.ok (.replied ⟨202, some (CreatedTransaction.mk "t" .queued).json⟩)) := by rfl

/-! ## The book -/

theorem book_of_leads (h : (app.discipline d).Leads x y) :
    app.rules.Run x.store.book y.store.book := by
  refine h.related (R := fun x y ↦ app.rules.Run x.store.book y.store.book) .refl ?_
  intro a b hmove hrun
  rcases hmove.step.book with hsame | hstep
  · rw [hsame]
    exact hrun
  · exact hrun.tail hstep

/-- The tables implement the book: every move of a run is a step of it, or leaves it. -/
theorem implements_book (h : Run d (app.deployment.start clock) c) :
    app.rules.Run .empty c.store.book ∧ app.rules.Sound c.store.book ∧
      ∀ m c', ((ledger d).programs Outcome).step c m = some c' →
        c'.store.book = c.store.book ∨ app.rules.Step c.store.book c'.store.book := by
  have hrun : app.rules.Run .empty c.store.book := book_of_leads (leads_of_run .refl h)
  refine ⟨hrun, hrun.sound BookRules.sound_empty, fun m c' hstep ↦ ?_⟩
  obtain ⟨hmove, -⟩ := (obeyed_of_run h).step (Pool.step_cases hstep)
  exact hmove.step.book

theorem deposit_in_book :
    deposits.rules.Run .empty depositAnnounced.store.book ∧
      deposits.rules.Sound depositAnnounced.store.book := by
  obtain ⟨hrun, hsound, -⟩ := implements_book run_deposits
  exact ⟨hrun, hsound⟩

/-- A row of `transactions` was made of the body of one admitted request, says the same
ever after, and is never QUEUED again. -/
theorem entry_permanent (h : Run d (app.deployment.start clock) c) {id : String}
    {row : Transaction} (hrow : c.store.transaction id = some row) :
    (∃ i dto, app.transactionId i = id ∧ app.Submitted i dto ∧ Books app.lib id dto row.entry ∧
      checkedEvent i .miss ∈ c.log) ∧
      ∀ c', Run d c c' → ∃ row', c'.store.transaction id = some row' ∧ row'.entry = row.entry ∧
        (row'.status = .queued → row.status = .queued) := by
  refine ⟨?_, fun c' h' ↦ ?_⟩
  · obtain ⟨i, dto, hid, hdto, hbooks, -, hmiss⟩ := (obeyed_of_run h).inv.booked hrow
    exact ⟨i, dto, hid, hdto, hbooks, hmiss⟩
  · have hrun := book_of_leads (leads_of_run h h')
    have hbefore : c.shared.store.book.entry id = some (row.entry, row.status) :=
      World.book_entry hrow
    obtain ⟨status', hafter⟩ := hrun.keeps_entry hbefore
    obtain ⟨row', hrow', hentry, hstatus⟩ := World.of_book_entry hafter
    refine ⟨row', hrow', hentry, fun hqueued ↦ hrun.queued hbefore ?_⟩
    rw [hafter, ← hstatus, hqueued]

theorem deposit_kept :
    ∃ row row', depositAnswered.store.transaction "t" = some row ∧
      depositAnnounced.store.transaction "t" = some row' ∧ row'.entry = row.entry := by
  obtain ⟨row, hrow⟩ : ∃ row, depositAnswered.store.transaction "t" = some row :=
    Option.isSome_iff_exists.mp (by decide +kernel)
  obtain ⟨row', hrow', hentry, -⟩ := (entry_permanent run_depositAnswered hrow).2 _
    (run_depositCompleted.trans run_depositAnnounced)
  exact ⟨row, row', hrow, hrow', hentry⟩

/-! ## COMPLETED -/

/-- The calls settled on the way, and whether the creator of the transaction took back
that it is COMPLETED. -/
theorem completed_or_revoked (h : (app.discipline d).Leads x y) {id : String} {entry : Entry}
    (hx : x.store.book.entry id = some (entry, .completed)) :
    ∃ recent, y.log = recent ++ x.log ∧
      (y.store.book.entry id = some (entry, .completed) ∨
        ∃ e ∈ recent, app.transactionId e.proc = id) := by
  refine h.related (R := fun x y ↦ x.store.book.entry id = some (entry, .completed) →
    ∃ recent, y.log = recent ++ x.log ∧
      (y.store.book.entry id = some (entry, .completed) ∨
        ∃ e ∈ recent, app.transactionId e.proc = id)) (fun hx ↦ ⟨[], rfl, .inl hx⟩) ?_ hx
  intro a b hmove hkept hx
  obtain ⟨recent, hlog, hrecent⟩ := hkept hx
  obtain ⟨more, hmore⟩ := hmove.log
  refine ⟨more ++ recent, by rw [← hmore, hlog, List.append_assoc], ?_⟩
  rcases hrecent with ha | ⟨e, he, hid⟩
  · rcases hmove.step.revoked ha with hb | ⟨i, r, hid, hevent⟩
    · exact .inl hb
    · rw [hevent, ← List.singleton_append] at hmore
      obtain rfl := List.append_cancel_right hmore
      exact .inr ⟨_, List.mem_append_left _ (List.mem_singleton_self _), hid⟩
  · exact .inr ⟨e, List.mem_append_right _ he, hid⟩

/-- Once the request that created it has been answered or has crashed, a COMPLETED
transaction stays as it is. -/
theorem completed_permanent (h : Run d (app.deployment.start clock) c) {row : Transaction}
    (hrow : c.store.transaction (app.transactionId i) = some row)
    (hcompleted : row.status = .completed)
    (hidle : ((ledger d).programs Outcome).pending c i = none) (h' : Run d c c') :
    ∃ row', c'.store.transaction (app.transactionId i) = some row' ∧ row'.entry = row.entry ∧
      row'.status = .completed := by
  have hbefore := World.book_entry hrow
  rw [hcompleted] at hbefore
  obtain ⟨recent, hlog, hafter | ⟨e, he, hid⟩⟩ := completed_or_revoked (leads_of_run h h') hbefore
  · exact World.of_book_entry hafter
  · obtain ⟨recent', hlog', hother⟩ := Pool.Reachable.silent h' hidle
    obtain rfl : recent = recent' := List.append_cancel_right (hlog.symm.trans hlog')
    exact absurd (app.transactionId_injective hid) (hother e he)

theorem deposit_stays_completed :
    ∃ row, depositAnnounced.store.transaction "t" = some row ∧ row.status = .completed := by
  obtain ⟨row, hrow, hcompleted⟩ : ∃ row, depositCompleted.store.transaction "t" = some row ∧
      row.status = .completed := ⟨_, rfl, rfl⟩
  obtain ⟨row', hrow', -, hstill⟩ :=
    completed_permanent (i := 0) (run_depositAnswered.trans run_depositCompleted) hrow hcompleted
      rfl run_depositAnnounced
  exact ⟨row', hrow', hstill⟩

/-! ## Rejected requests -/

/-- No row, no job and no notification tells of the transaction. -/
structure Untraced (id : String) (w : World) : Prop where
  transaction : w.transaction id = none
  job : w.job id = none
  announced : ∀ {jobId job}, w.notification jobId = some job → job.transactionId ≠ id
  noticed : ∀ {pair row}, w.notice pair = some row → row.transactionId ≠ id

theorem InOrder.untraced (hx : app.InOrder x) {id : String}
    (hnone : x.store.transaction id = none) : Untraced id x.store where
  transaction := hnone
  job := by
    cases hjob : x.store.job id with
    | none => rfl
    | some job =>
        obtain ⟨-, -, row, hrow⟩ := hx.queued hjob
        cases hnone.symm.trans hrow
  announced {jobId job} hjob hid := by
    obtain ⟨row, note, hrow, -⟩ := hx.announced hjob
    cases hnone.symm.trans (hid ▸ hrow)
  noticed {pair row} hrow hid := by
    obtain ⟨-, -, transaction, htransaction, -⟩ := hx.noticed hrow
    cases hnone.symm.trans (hid ▸ htransaction)

/-- A request answered with an exception of the framework (400, 409 or 422) leaves no
trace, and nothing it has left behind shows up later. -/
theorem rejected_untraced (h : Run d (app.deployment.start clock) c) {p : HttpPost}
    (hrole : app.role i = .post p) {e : Err}
    (hresult : ((ledger d).programs Outcome).result c i = some (.error e)) (hhttp : e.isHttp)
    (h' : Run d c c') : Untraced (app.transactionId i) c'.store := by
  have hobeyed := obeyed_of_run (Pool.Reachable.trans h h')
  have hanswered := hobeyed.result (Pool.Reachable.result_final h' hresult)
  have hunbooked := (hanswered p hrole).2 e rfl hhttp
  refine hobeyed.inv.untraced ?_
  rw [Option.eq_none_iff_forall_ne_some]
  intro row hrow
  obtain ⟨j, dto, hid, -, -, hbooked, -⟩ := hobeyed.inv.booked hrow
  obtain rfl := app.transactionId_injective hid
  exact hunbooked hbooked

theorem emptyBody_untraced : Untraced "ttt" depositAnnounced.store :=
  rejected_untraced (i := 2) run_depositAnswered rfl (e := .badRequest "Bad Request") (by rfl)
    rfl (run_depositCompleted.trans run_depositAnnounced)

/-! ## Accepted requests -/

/-- Whatever has been answered with a transaction, fresh or replayed, has been created by a
request with the same key, and `GET /transactions/:id` never misses it from then on. -/
theorem reply_honest (h : Run d (app.deployment.start clock) c) {p : HttpPost}
    (hrole : app.role i = .post p) {reply : Reply}
    (hresult : ((ledger d).programs Outcome).result c i = some (.ok (.replied reply))) :
    reply.statusCode = 202 ∧ ∃ key j p', p.idempotencyKey = some key ∧ app.role j = .post p' ∧
      p'.idempotencyKey = some key ∧
      reply.body = some (CreatedTransaction.mk (app.transactionId j) .queued).json ∧
      ∀ out, (TransactionService.findById (app.transactionId j)).Ends (ledger d)
          (fun w ↦ ∃ c', Run d c c' ∧ c'.store = w) out →
        ∀ found, out = .ok found → ∃ row, found = .ok row ∧ row.id = app.transactionId j := by
  have hobeyed := obeyed_of_run h
  obtain ⟨key, hkey, hcode, j, ⟨p', hrole', hkey'⟩, hbody, haccepted⟩ :=
    (hobeyed.result hresult p hrole).1 reply rfl
  refine ⟨hcode, key, j, p', hkey, hrole', hkey', hbody, ?_⟩
  rintro out hends found rfl
  cases hends with
  | @await op k f w w' r out hat hsettle hrest =>
      obtain ⟨c', h', rfl⟩ := hat
      obtain ⟨row, hrow⟩ := (extends_of_leads (leads_of_run h h')).stored haccepted.1
      cases r with
      | error e => cases hrest
      | ok read =>
          obtain ⟨hread, rfl⟩ := Prod.mk.inj (World.settle_ok hsettle)
          obtain rfl : read = some row := (Except.ok.inj hread).symm.trans hrow
          cases hrest
          exact ⟨row, rfl, Table.key_of_lookup hrow⟩

theorem retry_told :
    ∃ j p, deposits.role j = .post p ∧ p.idempotencyKey = some "k" ∧
      (CreatedTransaction.mk "t" .queued).json =
        (CreatedTransaction.mk (deposits.transactionId j) .queued).json := by
  obtain ⟨-, key, j, p, hkey, hrole, hkey', hbody, -⟩ :=
    reply_honest run_depositAnswered rfl retry_answered
  obtain rfl : "k" = key := Option.some.inj hkey
  exact ⟨j, p, hrole, hkey', Option.some.inj hbody⟩

theorem CreatedTransaction.json_injective {id id' : String} {status status' : TransactionStatus}
    (h : (CreatedTransaction.mk id status).json = (CreatedTransaction.mk id' status').json) :
    id = id' := by
  simp only [CreatedTransaction.json, Json.obj.injEq, List.cons.injEq, Prod.mk.injEq,
    Json.str.injEq] at h
  exact h.1.2

theorem InOrder.books_of_job (hx : app.InOrder x) {id : String} {job : TransactionJob}
    {row : Transaction} (hjob : x.store.job id = some job)
    (hrow : x.store.transaction id = some row) : Books app.lib id job.data.dto row.entry := by
  obtain ⟨-, ⟨k, hk, hsubmitted⟩, -⟩ := hx.queued hjob
  obtain ⟨k', dto, hk', hdto, hbooks, -⟩ := hx.booked hrow
  obtain rfl := app.transactionId_injective (hk.trans hk'.symm)
  exact hsubmitted.unique hdto ▸ hbooks

/-- What a client has been told of is in the table, and in the queue while it is QUEUED. -/
theorem retained_of_reply (h : Run d (app.deployment.start clock) c) {p : HttpPost}
    (hrole : app.role i = .post p) {reply : Reply}
    (hresult : ((ledger d).programs Outcome).result c i = some (.ok (.replied reply)))
    {id : String} (hbody : reply.body = some (CreatedTransaction.mk id .queued).json)
    (h' : Run d c c') :
    ∃ row, c'.store.transaction id = some row ∧
      (row.status = .queued → ∃ job, c'.store.job id = some job) := by
  obtain ⟨key, -, -, j, -, hbody', hrow, henqueued⟩ :=
    ((obeyed_of_run h).result hresult p hrole).1 reply rfl
  obtain rfl := CreatedTransaction.json_injective (Option.some.inj (hbody.symm.trans hbody'))
  have hextends := extends_of_leads (leads_of_run h h')
  have hinv := (obeyed_of_run (Pool.Reachable.trans h h')).inv
  obtain ⟨row, hrow⟩ := hextends.stored hrow
  refine ⟨row, hrow, fun hqueued ↦ ?_⟩
  rcases hinv.enqueued (hextends.enqueued henqueued) with hjob | ⟨row', hrow', hstarted⟩
  · exact hjob
  · obtain rfl := Option.some.inj (hrow.symm.trans hrow')
    exact absurd hqueued hstarted

/-- A transaction that a client has been told of is never lost: as long as it is QUEUED, the
queue holds its job, with the body it was made of. -/
theorem accepted_retained (h : Run d (app.deployment.start clock) c) {p : HttpPost}
    (hrole : app.role i = .post p) {reply : Reply}
    (hresult : ((ledger d).programs Outcome).result c i = some (.ok (.replied reply)))
    {id : String} (hbody : reply.body = some (CreatedTransaction.mk id .queued).json)
    (h' : Run d c c') :
    ∃ row, c'.store.transaction id = some row ∧ (row.status = .queued →
      ∃ job, c'.store.job id = some job ∧ Books app.lib id job.data.dto row.entry) := by
  obtain ⟨row, hrow, hretained⟩ := retained_of_reply h hrole hresult hbody h'
  refine ⟨row, hrow, fun hqueued ↦ ?_⟩
  obtain ⟨job, hjob⟩ := hretained hqueued
  have hinv := (obeyed_of_run (Pool.Reachable.trans h h')).inv
  exact ⟨job, hjob, hinv.books_of_job hjob hrow⟩

theorem deposit_retained :
    ∃ row, depositAnnounced.store.transaction "t" = some row ∧ (row.status = .queued →
      ∃ job, depositAnnounced.store.job "t" = some job ∧
        Books decimalJs "t" job.data.dto row.entry) :=
  accepted_retained run_depositAnswered rfl retry_answered rfl
    (run_depositCompleted.trans run_depositAnnounced)

/-! ## Notifications -/

/-- A transaction that a worker has been told to be COMPLETED has been so in the run. -/
theorem completed_of_reported {c₀ : State} (hempty : c₀.log = []) (h : Run d c₀ c) {id : String}
    {e : Event calls ℕ} (he : e ∈ c.log) (hreports : ReportsCompleted id e) :
    ∃ b, Run d c₀ b ∧ Run d b c ∧
      ∃ row, b.store.transaction id = some row ∧ row.status = .completed := by
  induction h with
  | refl =>
      rw [hempty] at he
      cases he
  | @step a c m ha hmove hlegal ih =>
      have hlast : Run d a c := .step .refl hmove hlegal
      have hearlier (he : e ∈ a.log) : ∃ b, Run d c₀ b ∧ Run d b c ∧
          ∃ row, b.store.transaction id = some row ∧ row.status = .completed := by
        obtain ⟨b, hb, hba, hrow⟩ := ih he
        exact ⟨b, hb, hba.trans hlast, hrow⟩
      cases Pool.step_cases hmove with
      | crash hproc hview => exact hearlier he
      | drift hdrift => exact hearlier he
      | @settle i f p op k r s hproc hview hsettle =>
          rcases List.mem_cons.mp he with rfl | he
          · cases hreports with
            | updated =>
                obtain ⟨old, -, rfl, hafter⟩ :=
                  World.transaction_of_update (World.settle_ok hsettle)
                exact ⟨_, .step ha hmove hlegal, .refl, _, hafter, rfl⟩
            | found hcompleted =>
                obtain ⟨hread, -⟩ := Prod.mk.inj (World.settle_ok hsettle)
                exact ⟨a, ha, hlast, _, Except.ok.inj hread, hcompleted⟩
          · exact hearlier he

theorem InOrder.jobId_of_announced (hx : app.InOrder x) {jobId : String} {job : NotificationJob}
    (hjob : x.store.notification jobId = some job) :
    jobId = notificationJobId job.transactionId := by
  obtain ⟨row, note, -, -, -, hid, -⟩ := hx.announced hjob
  have hkey : job.jobId = jobId := Table.key_of_lookup hjob
  exact hkey.symm.trans hid

theorem InOrder.pair_of_noticed (hx : app.InOrder x) {pair : String × NotificationChannel}
    {row : Notification} (hrow : x.store.notice pair = some row) :
    pair = (row.transactionId, .email) := by
  obtain ⟨hchannel, -⟩ := hx.noticed hrow
  have hkey : row.pair = pair := Table.key_of_lookup hrow
  rw [← hkey, ← hchannel]

/-- A notice says what its transaction announces. -/
theorem InOrder.content_of_noticed (hx : app.InOrder x) {id : String} {row : Transaction}
    {notice : Notification} (hrow : x.store.transaction id = some row)
    (hnotice : x.store.notice (id, .email) = some notice) :
    announcement app.lib row.entry = some notice.content := by
  obtain ⟨-, -, transaction, htransaction, hcontent, -⟩ := hx.noticed hnotice
  have hid : id = notice.transactionId := congrArg Prod.fst (hx.pair_of_noticed hnotice)
  rw [← hid, hrow] at htransaction
  obtain rfl := Option.some.inj htransaction
  exact hcontent

/-- The notice is the one its transaction announces, and the transaction has been COMPLETED
in the run. -/
structure Warranted (app : Application) (d : Delivery) (clock : ℕ) (c : State) (id : String)
    (note : Notice) : Prop where
  announced : ∃ row, c.store.transaction id = some row ∧
    announcement app.lib row.entry = some note
  completed : ∃ b, Run d (app.deployment.start clock) b ∧ Run d b c ∧
    ∃ row, b.store.transaction id = some row ∧ row.status = .completed

/-- Nothing is announced but COMPLETED transactions, once each, to `fromAccount ?? toAccount`
and with the values that are stored, as far as no account has blanks beyond its 255th
character (`accountColumn`). -/
theorem notifications_warranted (h : Run d (app.deployment.start clock) c) :
    (∀ jobId job, c.store.notification jobId = some job →
      jobId = notificationJobId job.transactionId ∧ job.channel = .email ∧
        ∃ note, job.recipient = .str note.recipient ∧ job.payload = note.payload ∧
          app.Warranted d clock c job.transactionId note) ∧
      ∀ pair row, c.store.notice pair = some row →
        pair = (row.transactionId, .email) ∧ row.Recorded ∧
          app.Warranted d clock c row.transactionId row.content := by
  have hinv := (obeyed_of_run h).inv
  constructor
  · intro jobId job hjob
    obtain ⟨row, note, hrow, hnote, -, -, hchannel, hrecipient, hpayload, e, he, hreports⟩ :=
      hinv.announced hjob
    exact ⟨hinv.jobId_of_announced hjob, hchannel, note, hrecipient, hpayload,
      ⟨row, hrow, hnote⟩, completed_of_reported rfl h he hreports⟩
  · intro pair row hrow
    obtain ⟨-, hrecorded, transaction, htransaction, hnote, e, he, hreports⟩ := hinv.noticed hrow
    exact ⟨hinv.pair_of_noticed hrow, hrecorded, ⟨transaction, htransaction, hnote⟩,
      completed_of_reported rfl h he hreports⟩

theorem deposit_warranted :
    ∃ row, depositAnnounced.store.notice ("t", .email) = some row ∧
      deposits.Warranted .exclusive 0 depositAnnounced row.transactionId row.content := by
  obtain ⟨row, hrow⟩ : ∃ row, depositAnnounced.store.notice ("t", .email) = some row :=
    Option.isSome_iff_exists.mp (by decide +kernel)
  obtain ⟨-, -, hwarranted⟩ := (notifications_warranted run_deposits).2 _ row hrow
  exact ⟨row, hrow, hwarranted⟩

/-- A notification that has been enqueued is never lost: its job stays in the queue until
there is a notification. -/
theorem posted_retained (h : Run d (app.deployment.start clock) c) {job : NotificationJob}
    (hposted : (⟨i, .notificationQueueAdd job, .ok ()⟩ : Event calls ℕ) ∈ c.log)
    (h' : Run d c c') :
    (∃ job', c'.store.notification (notificationJobId job.transactionId) = some job' ∧
      job'.transactionId = job.transactionId) ∨
      ∃ row, c'.store.notice (job.transactionId, .email) = some row := by
  have hrun := Pool.Reachable.trans h h'
  have hmem := (leads_of_run h h').mem_log hposted
  have hinv := (obeyed_of_run hrun).inv
  rcases hinv.posted ⟨i, job, rfl, hmem⟩ with ⟨job', hjob'⟩ | hnoticed
  · exact .inl ⟨job', hjob', (notificationJobId_injective (hinv.jobId_of_announced hjob')).symm⟩
  · exact .inr hnoticed

theorem deposit_posted :
    ∃ job, (⟨3, .notificationQueueAdd job, .ok ()⟩ : Event calls ℕ) ∈ depositCompleted.log ∧
      ((∃ job', depositAnnounced.store.notification (notificationJobId job.transactionId) =
        some job' ∧ job'.transactionId = job.transactionId) ∨
          ∃ row, depositAnnounced.store.notice (job.transactionId, .email) = some row) := by
  obtain ⟨job, hposted⟩ : ∃ job, (⟨3, .notificationQueueAdd job, .ok ()⟩ : Event calls ℕ) ∈
      depositCompleted.log := ⟨_, .tail _ (.head _)⟩
  exact ⟨job, hposted, posted_retained (run_depositAnswered.trans run_depositCompleted) hposted
    run_depositAnnounced⟩

/-- A row of `notifications` is never removed and never says anything else, and a dead
letter is final. -/
theorem notice_permanent (h : Run d (app.deployment.start clock) c)
    {pair : String × NotificationChannel} {row : Notification}
    (hrow : c.store.notice pair = some row) (h' : Run d c c') :
    ∃ row', c'.store.notice pair = some row' ∧ row'.content = row.content ∧
      (row.status = .deadLetter → row'.status = .deadLetter) := by
  obtain rfl := (obeyed_of_run h).inv.pair_of_noticed hrow
  have hrun := book_of_leads (leads_of_run h h')
  obtain ⟨status', hafter, hdead⟩ := hrun.keeps_notice (World.book_notice hrow)
  obtain ⟨row', hrow', hcontent, rfl⟩ := World.of_book_notice hafter
  exact ⟨row', hrow', hcontent, hdead⟩

theorem deposit_notice_kept :
    ∃ row row', (later depositCompleted [4, 4]).store.notice ("t", .email) = some row ∧
      (later (later depositCompleted [4, 4]) [4]).store.notice ("t", .email) = some row' ∧
      row'.content = row.content := by
  obtain ⟨row, hrow⟩ : ∃ row,
      (later depositCompleted [4, 4]).store.notice ("t", .email) = some row :=
    Option.isSome_iff_exists.mp (by decide +kernel)
  have hnoticed : Run .exclusive depositCompleted (later depositCompleted [4, 4]) :=
    run_later (by decide +kernel)
  have hlater : Run .exclusive (later depositCompleted [4, 4])
      (later (later depositCompleted [4, 4]) [4]) := run_later (by decide +kernel)
  obtain ⟨row', hrow', hcontent, -⟩ := notice_permanent
    ((run_depositAnswered.trans run_depositCompleted).trans hnoticed) hrow hlater
  exact ⟨row, row', hrow, hrow', hcontent⟩

end Application

end TransactionLedger
