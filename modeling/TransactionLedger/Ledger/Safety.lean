import TransactionLedger.Idempotency.Usage
import TransactionLedger.Ledger.Discipline

/-!
# The application keeps to its discipline

Every function is verified on its own: whatever the other processes do between its calls,
it issues only allowed ones.
-/

namespace TransactionLedger

open Async Data TransactionService TransactionProcessor IdempotencyService Discipline

/-! ## Errors -/

/-- The exceptions of the framework, with the status code they stand for. -/
def Err.isHttp : Err → Bool
  | .badRequest _ => true
  | .conflict _ => true
  | .unprocessableEntity _ => true
  | _ => false

/-- The outcome is no exception of the framework. -/
def Plain {α : Type} (out : Except Err α) : Prop :=
  ∀ e, out = .error e → e.isHttp = false

theorem plain_ok {α : Type} (a : α) : Plain (.ok a) := by
  intro e h
  cases h

theorem Plain.error {α : Type} {e : Err} (h : e.isHttp = false) :
    Plain (.error e : Except Err α) := by
  intro e' he'
  cases he'
  exact h

theorem Plain.of_error {α β : Type} {e : Err} (h : Plain (.error e : Except Err α)) :
    Plain (.error e : Except Err β) :=
  .error (h e rfl)

namespace World

variable {d : Delivery} {f : Fate} {w w' : World} {op : Op} {r : Except Err op.Res}

theorem insertNotification_plain (w : World) (id : String) (data : NotificationData) :
    Plain (w.insertNotification id data).1 := by
  simp only [insertNotification]
  split
  · exact .error rfl
  · split
    · exact .error rfl
    · split
      · exact .error rfl
      · exact plain_ok _

theorem answer_plain (w : World) (op : Op) : Plain (w.answer op).1 := by
  cases op with
  | redisSetNX | recordCreate | recordUpdate | recordDelete | transactionUpdate
  | transactionQueueAdd | notificationQueueAdd | takeJob | takeNotificationJob =>
      simp only [answer]
      split <;> first | exact plain_ok _ | exact .error rfl
  | notificationCreate id data => exact insertNotification_plain w id data
  | notificationUpsert pair id create update =>
      simp only [answer]
      split
      · exact insertNotification_plain w id create
      · split <;> first | exact plain_ok _ | exact .error rfl
  | transactionCreate data =>
      simp only [answer]
      split
      · exact .error rfl
      · split <;> first | exact plain_ok _ | exact .error rfl
  | _ => exact plain_ok _

/-- Neither the stores nor their faults raise an exception of the framework. -/
theorem settle_plain (h : w.settle d f op = some (r, w')) : Plain r := by
  rcases settle_cases h with ⟨hrun, -, -⟩ | ⟨e, rfl, hfault, -⟩
  · have hplain := answer_plain w op
    rw [hrun] at hplain
    exact hplain
  · refine .error ?_
    cases e <;> first | rfl | cases hfault

end World

namespace Application

variable {app : Application} {d : Delivery} {i : ℕ} {x y : Stores}

/-! ## What a process may rely on -/

theorem extends_of_leads (h : (app.discipline d).Leads x y) : Extends x y where
  grows := by
    refine h.related (R := fun x y ↦ x.store.Grows y.store) (fun hrow ↦ ⟨_, hrow, rfl⟩) ?_
    intro a b hmove hgrows id row hrow
    obtain ⟨row', hrow', hentry⟩ := hgrows hrow
    obtain ⟨row'', hrow'', hentry'⟩ := hmove.step.grows hrow'
    exact ⟨row'', hrow'', hentry'.trans hentry⟩
  log _ he := h.mem_log he

theorem started_of_leads (h : (app.discipline d).Leads x y) {id : String}
    (hx : Started id x.store) : Started id y.store :=
  h.kept (K := fun x ↦ Started id x.store) (fun hmove ↦ hmove.step.started) hx

theorem noticed_of_leads (h : (app.discipline d).Leads x y) {id : String}
    (hx : Noticed id x.store) : Noticed id y.store :=
  h.kept (K := fun x ↦ Noticed id x.store) (fun hmove ↦ hmove.step.noticed) hx

/-- A call whose outcome is not looked at. -/
theorem safe_await {op : Op} (hallowed : ∀ y, (app.discipline d).Leads x y → app.InOrder y →
    app.Allowed i y op) :
    (app.discipline d).Safe i (fun out _ ↦ Plain out) (await op) x :=
  safe_call fun y hxy hy ↦ ⟨hallowed y hxy.leads hy, fun _ _ _ hsettle _ _ _ ↦
    World.settle_plain hsettle⟩

/-! ## The idempotency service -/

/-- A cached answer is a confirmation. -/
def Checked (app : Application) (key : String) (out : Except Err IdempotencyCheckResult)
    (x : Stores) : Prop :=
  Plain out ∧ ∀ statusCode response, out = .ok (.cached statusCode response) →
    app.Confirmed key x statusCode response

theorem Checked.of_plain {key : String} {out : Except Err IdempotencyCheckResult}
    (hplain : Plain out) (h : ∀ statusCode response, out ≠ .ok (.cached statusCode response)) :
    app.Checked key out x :=
  ⟨hplain, fun statusCode response hcached ↦ absurd hcached (h statusCode response)⟩

theorem Remembered.confirmed {key : String} {statusCode : Option ℕ} {response : Option Json}
    (h : app.Remembered key x statusCode response) {code : ℕ}
    (hcode : truthyCode statusCode = some code) : app.Confirmed key x code response := by
  rcases h with ⟨rfl, -⟩ | ⟨code', rfl, hconfirmed⟩
  · cases hcode
  · obtain rfl := Option.some.inj (truthyCode_eq hcode)
    exact hconfirmed

theorem safe_set {key : String} {value : RedisText} {ttl : Option ℕ}
    (hvalue : app.Cacheable x key value) :
    (app.discipline d).Safe i (fun out _ ↦ Plain out) (RedisService.set key value ttl) x := by
  have hallowed : ∀ y, (app.discipline d).Leads x y → app.InOrder y →
      app.Cacheable y key value := by
    intro y hxy _
    obtain ⟨data, rfl, hdata⟩ := hvalue
    exact ⟨data, rfl, fun k hk ↦ (hdata k hk).extends (extends_of_leads hxy)⟩
  unfold RedisService.set
  split <;> exact safe_await hallowed

theorem cacheable_of_remembered {key : String} {data : IdempotencyData}
    (h : app.Remembered key x data.statusCode data.response) :
    app.Cacheable x (redisKey key) (.json data) :=
  ⟨data, rfl, fun _ hk ↦ redisKey_injective hk ▸ h⟩

/-- Deleting a record or a Redis entry, whatever comes of it. -/
theorem safe_bestEffort {p : Promise Unit}
    (h : ∀ y, app.InOrder y → (app.discipline d).Safe i (fun _ _ ↦ True) p y)
    (hx : app.InOrder x) :
    (app.discipline d).Safe i (fun out _ ↦ out = .ok ()) (tryCatch p fun _ ↦ pure ()) x :=
  (h x hx).catchError hx (fun _ _ _ _ _ ↦ rfl) fun _ _ _ _ _ ↦ safe_pure fun _ _ _ ↦ rfl

theorem safe_deleteRecord {key : String} (hx : app.InOrder x) :
    (app.discipline d).Safe i (fun out _ ↦ out = .ok ())
      (tryCatch (do let _ ← await (.recordDelete key)) fun _ ↦ pure ()) x := by
  refine safe_bestEffort (fun y hy ↦ ?_) hx
  refine Safe.bind hy (safe_await fun _ _ _ ↦ trivial) ?_ fun _ _ _ _ _ ↦ trivial
  exact fun _ _ _ _ _ ↦ safe_pure fun _ _ _ ↦ trivial

theorem safe_deleteEntry {key : String} (hx : app.InOrder x) :
    (app.discipline d).Safe i (fun out _ ↦ out = .ok ())
      (tryCatch (RedisService.del key) fun _ ↦ pure ()) x := by
  refine safe_bestEffort (fun y hy ↦ ?_) hx
  exact Safe.weaken (safe_await fun _ _ _ ↦ trivial) fun _ _ _ _ _ ↦ trivial

theorem safe_release {key : String} (hx : app.InOrder x) :
    (app.discipline d).Safe i (fun out _ ↦ out = .ok ()) (release key) x :=
  Safe.bind hx (safe_deleteRecord hx) (fun _ _ _ hy _ ↦ safe_deleteEntry hy) fun _ _ _ _ h ↦ h

theorem checked_inProgress {key : String} : app.Checked key (.ok .inProgress) x :=
  .of_plain (plain_ok _) fun _ _ h ↦ by cases h

theorem safe_inspectRecord {key requestHash : String} {now : ℕ}
    {record : Option IdempotencyRecord} (hx : app.InOrder x)
    (hrecord : ∀ row, record = some row →
      app.Remembered key x row.statusCode row.response) :
    (app.discipline d).Safe i (app.Checked key)
      (inspectRecord app.cfg key requestHash now record) x := by
  cases record with
  | none => exact safe_pure fun _ _ _ ↦ checked_inProgress
  | some row =>
      simp only [inspectRecord]
      split
      · refine Safe.bind hx (safe_deleteRecord hx) (fun _ y _ hy _ ↦ ?_) fun _ _ _ _ h ↦ by cases h
        refine Safe.bind hy (safe_deleteEntry hy) (fun _ z _ hz _ ↦ ?_) fun _ _ _ _ h ↦ by cases h
        exact safe_pure fun _ _ _ ↦ checked_inProgress
      · split
        · cases hcode : truthyCode row.statusCode with
          | none => exact safe_pure fun _ _ _ ↦ checked_inProgress
          | some code =>
              have hremembered := hrecord row rfl
              have hconfirmed := hremembered.confirmed hcode
              have hcacheable : app.Cacheable x (redisKey key)
                  (.json ⟨row.requestHash, some code, row.response⟩) :=
                cacheable_of_remembered (.inr ⟨code, rfl, hconfirmed⟩)
              refine Safe.bind hx (safe_set hcacheable) (fun _ y hxy hy _ ↦ ?_)
                fun _ _ _ _ hplain ↦ .of_plain hplain.of_error fun _ _ h ↦ by cases h
              refine safe_pure fun z hyz hz ↦ ⟨plain_ok _, fun statusCode response h ↦ ?_⟩
              cases h
              exact hconfirmed.extends (extends_of_leads (hxy.trans hyz.leads))
        · exact safe_pure fun _ _ _ ↦ .of_plain (plain_ok _) fun _ _ h ↦ by cases h

theorem safe_inspectFromDb {key requestHash : String} (hx : app.InOrder x) :
    (app.discipline d).Safe i (app.Checked key) (inspectFromDb app.cfg key requestHash) x := by
  refine Safe.bind hx (Q := fun out y ↦ Plain out ∧ ∀ now row, out = .ok (now, some row) →
    app.Remembered key y row.statusCode row.response) ?_ ?_ ?_
  · refine safe_callAt fun y _ hy ↦ ⟨trivial, fun f r s hsettle z hyz _ ↦ ⟨?_, ?_⟩⟩
    · have hplain := World.settle_plain hsettle
      cases r with
      | error e => exact hplain.of_error
      | ok found => exact plain_ok _
    · intro now row hrow
      cases r with
      | error e => cases hrow
      | ok found =>
          cases hrow
          have hanswer := World.settle_ok hsettle
          obtain ⟨hfound, rfl⟩ := Prod.mk.inj hanswer
          have hbefore := hy.recorded (Except.ok.inj hfound)
          exact (hbefore.extends (extends_of_settle hsettle)).extends (extends_of_leads hyz.leads)
  · rintro ⟨now, record⟩ y - hy ⟨-, hrecord⟩
    refine safe_inspectRecord hy fun row hrow ↦ hrecord now row ?_
    rw [hrow]
  · rintro e y - - ⟨hplain, -⟩
    exact .of_plain hplain.of_error fun _ _ h ↦ by cases h

theorem checked_parsed {key requestHash : String} {raw : RedisText}
    (hraw : ∃ data, raw = .json data ∧ app.Remembered key x data.statusCode data.response) :
    app.Checked key (.ok (parseIdempotencyData raw requestHash)) x := by
  refine ⟨plain_ok _, fun statusCode response h ↦ ?_⟩
  obtain ⟨data, rfl, hdata⟩ := hraw
  have hparsed := parseIdempotencyData_cached (Except.ok.inj h)
  obtain rfl := RedisText.json.inj hparsed
  rcases hdata with ⟨hnone, -⟩ | ⟨code, hcode, hconfirmed⟩
  · cases hnone
  · obtain rfl := Option.some.inj hcode
    exact hconfirmed

theorem safe_inspectExisting {key requestHash : String} (hx : app.InOrder x) :
    (app.discipline d).Safe i (app.Checked key) (inspectExisting app.cfg key requestHash) x := by
  refine Safe.bind hx (Q := fun out y ↦ Plain out ∧ ∀ raw, out = .ok (some raw) →
    ∃ data, raw = .json data ∧ app.Remembered key y data.statusCode data.response) ?_ ?_ ?_
  · refine safe_call fun y _ hy ↦ ⟨trivial, fun f r s hsettle z hyz _ ↦
      ⟨World.settle_plain hsettle, ?_⟩⟩
    rintro raw rfl
    obtain ⟨hfound, rfl⟩ := Prod.mk.inj (World.settle_ok hsettle)
    obtain ⟨data, rfl, hdata⟩ := hy.cached (Except.ok.inj hfound)
    exact ⟨data, rfl, (hdata.extends (extends_of_settle hsettle)).extends
      (extends_of_leads hyz.leads)⟩
  · rintro cached y - hy ⟨-, hcached⟩
    cases cached with
    | none => exact safe_inspectFromDb hy
    | some raw =>
        dsimp only
        split
        · refine safe_pure fun z hyz _ ↦ checked_parsed ?_
          obtain ⟨data, rfl, hdata⟩ := hcached raw rfl
          exact ⟨data, rfl, hdata.extends (extends_of_leads hyz.leads)⟩
        · exact safe_inspectFromDb hy
  · rintro e y - - ⟨hplain, -⟩
    exact .of_plain hplain.of_error fun _ _ h ↦ by cases h

theorem safe_rollback {key requestHash : String} {error : Err} (hx : app.InOrder x)
    (herror : error.isHttp = false) :
    (app.discipline d).Safe i (app.Checked key)
      (IdempotencyService.rollback app.cfg key requestHash error) x := by
  unfold IdempotencyService.rollback
  split
  · refine Safe.bind hx (safe_await fun _ _ _ ↦ trivial) (fun _ y _ hy _ ↦ ?_) ?_
    · exact safe_inspectFromDb hy
    · exact fun e y _ _ hplain ↦ .of_plain hplain.of_error fun _ _ h ↦ by cases h
  · refine Safe.bind hx (safe_await fun _ _ _ ↦ trivial) (fun _ y _ hy _ ↦ ?_) ?_
    · exact safe_throw fun z _ _ ↦ .of_plain (.error herror) fun _ _ h ↦ by cases h
    · exact fun e y _ _ hplain ↦ .of_plain hplain.of_error fun _ _ h ↦ by cases h

theorem cacheable_placeholder (x : Stores) (key requestHash : String) :
    app.Cacheable x (redisKey key) (placeholder requestHash) :=
  cacheable_of_remembered (.inl ⟨rfl, rfl⟩)

theorem safe_checkAndAcquire {id key requestHash : String} (hx : app.InOrder x) :
    (app.discipline d).Safe i (app.Checked key)
      (checkAndAcquire app.cfg id key requestHash) x := by
  refine Safe.bind hx (Q := fun out _ ↦ Plain out) ?_ ?_ ?_
  · refine safe_callAt fun y _ hy ↦ ⟨cacheable_placeholder y key requestHash,
      fun f r s hsettle z _ _ ↦ ?_⟩
    cases r with
    | error e => exact (World.settle_plain hsettle).of_error
    | ok acquired => exact plain_ok _
  · rintro ⟨now, acquired⟩ y - hy -
    dsimp only
    split
    · refine Safe.catchError (Q := fun out _ ↦ Plain out ∧ (∀ a, out = .ok a → a = .miss)) hy
        ?_ ?_ ?_
      · refine Safe.bind hy (safe_await fun _ _ _ ↦ trivial) ?_ ?_
        · refine fun _ z _ _ _ ↦ safe_pure fun _ _ _ ↦ ⟨plain_ok _, ?_⟩
          intro a ha
          exact (Except.ok.inj ha).symm
        · refine fun e z _ _ hplain ↦ ⟨hplain.of_error, ?_⟩
          intro a ha
          cases ha
      · rintro a z - - ⟨hplain, hmiss⟩
        refine .of_plain hplain fun statusCode response h ↦ ?_
        cases (hmiss a rfl).symm.trans (Except.ok.inj h)
      · rintro e z - hz ⟨hplain, -⟩
        exact safe_rollback hz (hplain e rfl)
    · exact safe_inspectExisting hy
  · exact fun e y _ _ hplain ↦ .of_plain hplain.of_error fun _ _ h ↦ by cases h

theorem safe_store {key requestHash : String} {statusCode : ℕ} {response : Json}
    (hx : app.InOrder x) (hconfirmed : app.Confirmed key x statusCode (some response)) :
    (app.discipline d).Safe i (fun _ _ ↦ True)
      (store app.cfg key requestHash statusCode response) x := by
  have hkept : ∀ y, (app.discipline d).Leads x y →
      app.Confirmed key y statusCode (some response) :=
    fun y hxy ↦ hconfirmed.extends (extends_of_leads hxy)
  refine Safe.bind hx (safe_await fun y hxy _ ↦ hkept y hxy) (fun _ y hxy hy _ ↦ ?_)
    fun _ _ _ _ _ ↦ trivial
  refine Safe.weaken (safe_set (cacheable_of_remembered ?_)) fun _ _ _ _ _ ↦ trivial
  exact .inr ⟨statusCode, rfl, hkept y hxy⟩

/-! ## createTransaction -/

/-- What `createTransaction` promises: the transaction it reports is stored and queued. -/
def Created (app : Application) (i : ℕ) (out : Except Err CreatedTransaction) (x : Stores) :
    Prop :=
  Plain out ∧ ∀ created, out = .ok created →
    created = ⟨app.transactionId i, .queued⟩ ∧ app.Accepted i x

theorem safe_enqueueFailed {error : Err} (hx : app.InOrder x) (herror : error.isHttp = false) :
    (app.discipline d).Safe i (fun out _ ↦ Plain out ∧ ∀ a, out ≠ .ok a)
      (enqueueFailed (app.transactionId i) error) x :=
  Safe.bind hx (safe_await fun _ _ _ ↦ .inl ⟨rfl, rfl⟩)
    (fun _ _ _ _ _ ↦ safe_throw fun _ _ _ ↦ ⟨.error herror, fun _ h ↦ by cases h⟩)
    fun _ _ _ _ hplain ↦ ⟨hplain.of_error, fun _ h ↦ by cases h⟩

theorem safe_queueAdd {data : TransactionJobData}
    (hallowed : ∀ y, (app.discipline d).Leads x y → app.Allowed i y (.transactionQueueAdd data)) :
    (app.discipline d).Safe i (fun out y ↦ Plain out ∧ ∀ a, out = .ok a →
      Enqueued data.transactionId y) (await (.transactionQueueAdd data)) x := by
  refine safe_call fun y hxy _ ↦ ⟨hallowed y hxy.leads, fun f r s hsettle z hyz _ ↦
    ⟨World.settle_plain hsettle, ?_⟩⟩
  rintro a rfl
  exact ⟨i, data, rfl, hyz.leads.mem_log List.mem_cons_self⟩

theorem safe_enqueue {dto : CreateTransactionDto} {transaction : Transaction}
    (hx : app.InOrder x) (hdto : app.Submitted i dto) (hid : transaction.id = app.transactionId i)
    (hstatus : transaction.status = .queued)
    (hrow : ∃ row, x.store.transaction (app.transactionId i) = some row) :
    (app.discipline d).Safe i (app.Created i)
      (enqueue (app.transactionId i) dto transaction) x := by
  have hkept : ∀ y, (app.discipline d).Leads x y →
      ∃ row, y.store.transaction (app.transactionId i) = some row :=
    fun y hxy ↦ (extends_of_leads hxy).stored hrow
  refine Safe.bind hx (Q := fun out y ↦ Plain out ∧ ∀ a, out = .ok a →
    Enqueued (app.transactionId i) y) ?_ (fun a y hxy _ hadded ↦ ?_)
    fun _ _ _ _ hplain ↦ ⟨hplain.1.of_error, fun _ h ↦ by cases h⟩
  · refine Safe.catchError hx (safe_queueAdd fun y hxy ↦ ⟨⟨i, rfl, hdto⟩, hkept y hxy⟩)
      (fun _ _ _ _ h ↦ h) fun e y _ hy hplain ↦ ?_
    refine (safe_enqueueFailed hy (hplain.1 e rfl)).weaken ?_
    exact fun out _ _ _ hfailed ↦ ⟨hfailed.1, fun a ha ↦ absurd ha (hfailed.2 a)⟩
  · refine safe_pure fun z hyz _ ↦ ⟨plain_ok _, fun created h ↦ ?_⟩
    obtain rfl := Except.ok.inj h
    exact ⟨by rw [hid, hstatus], hkept z (hxy.trans hyz.leads),
      (extends_of_leads hyz.leads).enqueued (hadded.2 a rfl)⟩

theorem safe_createTransaction {dto : CreateTransactionDto} (hx : app.InOrder x)
    (hdto : app.Submitted i dto) (hmiss : checkedEvent i .miss ∈ x.log) :
    (app.discipline d).Safe i (app.Created i)
      (createTransaction app.lib (app.transactionId i) dto) x := by
  unfold createTransaction
  cases hamount : app.lib.ofString dto.amount with
  | none => exact safe_throw fun _ _ _ ↦ ⟨.error rfl, fun _ h ↦ by cases h⟩
  | some amount =>
      refine Safe.bind hx (Q := fun out y ↦ Plain out ∧ ∀ row, out = .ok row →
        row.id = app.transactionId i ∧ row.status = .queued ∧
          ∃ row, y.store.transaction (app.transactionId i) = some row) ?_ ?_ ?_
      · refine safe_call fun y hxy hy ↦ ⟨⟨hxy.leads.mem_log hmiss, dto, amount, hdto, hamount, rfl⟩,
          fun f r s hsettle z hyz _ ↦ ⟨World.settle_plain hsettle, ?_⟩⟩
        rintro row rfl
        obtain ⟨hdata, hrow⟩ := World.transaction_of_create (World.settle_ok hsettle)
        obtain ⟨hid, hstatus, -⟩ := TransactionData.of_row hdata
        change row.id = app.transactionId i at hid
        exact ⟨hid, hstatus, (extends_of_leads hyz.leads).stored ⟨row, hid ▸ hrow⟩⟩
      · rintro transaction y - hy ⟨-, hcreated⟩
        obtain ⟨hid, hstatus, hrow⟩ := hcreated transaction rfl
        exact safe_enqueue hy hdto hid hstatus hrow
      · rintro e y - - ⟨hplain, -⟩
        exact ⟨hplain.of_error, fun _ h ↦ by cases h⟩

/-! ## The interceptor -/

/-- Process `i` has not issued the insertion of its transaction, and does not do it here. -/
theorem safe_unbooked {α : Type} {Q : Except Err α → Stores → Prop} {p : Promise α}
    (hunbooked : ¬Booked i x) (huses : p.Uses Op.OfService)
    (h : (app.discipline d).Safe i Q p x) :
    (app.discipline d).Safe i (fun out y ↦ Q out y ∧ ¬Booked i y) p x := by
  refine (h.own huses).weaken ?_
  rintro out y - - ⟨hq, hown⟩
  refine ⟨hq, fun hbooked ↦ ?_⟩
  obtain ⟨e, he, hi, data, hop⟩ := hbooked
  rcases hown e he hi with hbefore | hforeign
  · exact hunbooked ⟨e, hbefore, hi, data, hop⟩
  · rw [hop] at hforeign
    exact hforeign trivial

theorem not_booked_of_relies (h : (app.discipline d).Relies i x y) (hx : ¬Booked i x) :
    ¬Booked i y := by
  rintro ⟨e, he, hi, hop⟩
  exact hx ⟨e, h.own e he hi, hi, hop⟩

open IdempotencyInterceptor

/-- What a client is told: a reply confirms a transaction of its key, and an exception of the
framework that nothing has been booked for it. -/
def Told (app : Application) (i : ℕ) (key : String) (out : Except Err Reply) (x : Stores) :
    Prop :=
  (∀ reply, out = .ok reply → app.Confirmed key x reply.statusCode reply.body) ∧
    ∀ e, out = .error e → e.isHttp → ¬Booked i x

theorem told_of_plain {key : String} {e : Err} (h : e.isHttp = false) :
    app.Told i key (.error e) x := by
  refine ⟨fun _ hreply ↦ (by cases hreply), fun e' he' hhttp ↦ ?_⟩
  cases he'
  rw [h] at hhttp
  cases hhttp

theorem told_error {key : String} {e : Err} (h : ¬Booked i x) : app.Told i key (.error e) x :=
  ⟨fun _ hreply ↦ (by cases hreply), fun _ _ _ ↦ h⟩

theorem safe_observe {o : Observation} :
    (app.discipline d).Safe i (fun out y ↦ Plain out ∧ (∀ a, out = .ok a →
      (⟨i, .observe o, .ok ()⟩ : Event calls ℕ) ∈ y.log)) (observe o) x := by
  refine safe_call fun y _ _ ↦ ⟨trivial, fun f r s hsettle z hyz _ ↦
    ⟨World.settle_plain hsettle, ?_⟩⟩
  rintro a rfl
  exact hyz.leads.mem_log List.mem_cons_self

theorem safe_handlerFailed {request : Request} {key : String} {e : Err} (hx : app.InOrder x)
    (htold : app.Told i key (.error e) x) :
    (app.discipline d).Safe i (app.Told i key) (handlerFailed request e) x := by
  have hsafe : (app.discipline d).Safe i
      (fun out _ ↦ ∃ e', out = .error e' ∧ (e'.isHttp = false ∨ e' = e))
      (handlerFailed request e) x := by
    refine Safe.bind hx safe_observe (fun _ y _ hy _ ↦ ?_)
      fun e' _ _ _ hq ↦ ⟨e', rfl, .inl (hq.1 e' rfl)⟩
    refine Safe.bind hy (Q := fun out _ ↦ out = .ok ()) ?_
      (fun _ _ _ _ _ ↦ safe_throw fun _ _ _ ↦ ⟨e, rfl, .inr rfl⟩) fun _ _ _ _ h ↦ by cases h
    exact Safe.catchError hy (safe_release hy) (fun _ _ _ _ h ↦ h) fun _ _ _ _ h ↦ by cases h
  cases hhttp : e.isHttp with
  | true =>
      refine (safe_unbooked (htold.2 e rfl hhttp) ((handlerFailed_uses app.cfg request e).mono
        fun _ ↦ Op.BehindLock.ofService) hsafe).weaken ?_
      rintro out y - - ⟨⟨e', rfl, -⟩, hunbooked⟩
      exact told_error hunbooked
  | false =>
      refine hsafe.weaken ?_
      rintro out y - - ⟨e', rfl, hplain | rfl⟩
      · exact told_of_plain hplain
      · exact told_of_plain hhttp

/-- The handler has answered with the confirmation of its transaction, or has failed. -/
def Handled (app : Application) (i : ℕ) (out : Except Err Response) (x : Stores) : Prop :=
  (∀ response, out = .ok response →
    response = (CreatedTransaction.mk (app.transactionId i) .queued).accepted ∧
      app.Accepted i x) ∧
    ∀ e, out = .error e → e.isHttp → ¬Booked i x

theorem safe_handle {p : HttpPost} (hx : app.InOrder x) (hrole : app.role i = .post p)
    (hmiss : checkedEvent i .miss ∈ x.log) (hunbooked : ¬Booked i x) :
    (app.discipline d).Safe i (app.Handled i) (app.handler i p).1 x := by
  change (app.discipline d).Safe i (app.Handled i) (TransactionController.handle app.lib app.cv
    app.exceptionText (app.transactionId i) p.body) x
  unfold TransactionController.handle
  cases hbody : validationPipe app.cv p.body with
  | error errors =>
      refine safe_throw fun y hxy _ ↦ ⟨fun _ h ↦ (by cases h), fun _ _ _ ↦ ?_⟩
      exact not_booked_of_relies hxy hunbooked
  | ok dto =>
      refine Safe.bind hx (safe_createTransaction hx ⟨p, hrole, hbody⟩ hmiss) ?_ ?_
      · rintro created y - - ⟨-, hcreated⟩
        obtain ⟨rfl, hrow, henqueued⟩ := hcreated created rfl
        refine safe_pure fun z hyz _ ↦ ⟨fun response h ↦ ?_, fun _ h ↦ (by cases h)⟩
        have hyz := extends_of_leads hyz.leads
        exact ⟨(Except.ok.inj h).symm, hyz.stored hrow, hyz.enqueued henqueued⟩
      · rintro e y - - ⟨hplain, -⟩
        refine ⟨fun _ h ↦ (by cases h), fun e' he' hhttp ↦ ?_⟩
        rw [hplain.of_error e' he'] at hhttp
        cases hhttp

theorem safe_handlerSucceeded {request : Request} {key : String} {response : Response}
    (hx : app.InOrder x) (hkey : request.key = key)
    (hconfirmed : app.Confirmed key x response.status.code (some response.body)) :
    (app.discipline d).Safe i (app.Told i key) (handlerSucceeded app.cfg request response) x := by
  have hkept : ∀ y, (app.discipline d).Leads x y →
      app.Confirmed key y response.status.code (some response.body) :=
    fun y hxy ↦ hconfirmed.extends (extends_of_leads hxy)
  refine Safe.bind hx safe_observe (fun _ y hxy hy _ ↦ ?_)
    fun e _ _ _ hq ↦ told_of_plain (hq.1 e rfl)
  refine Safe.bind hy (Q := fun out _ ↦ out = .ok ()) ?_ (fun _ z hyz _ _ ↦ ?_)
    fun _ _ _ _ h ↦ by cases h
  · refine Safe.catchError hy (safe_store hy (hkey ▸ hkept y hxy)) (fun _ _ _ _ _ ↦ rfl) ?_
    exact fun _ _ _ _ _ ↦ safe_pure fun _ _ _ ↦ rfl
  · refine safe_pure fun z' hz _ ↦ ⟨fun reply h ↦ ?_, fun _ h ↦ (by cases h)⟩
    obtain rfl := Except.ok.inj h
    exact hkept z' ((hxy.trans hyz).trans hz.leads)

theorem safe_handleMiss {p : HttpPost} {key : String} (hx : app.InOrder x)
    (hrole : app.role i = .post p) (hkey : p.idempotencyKey = some key)
    (hmiss : checkedEvent i .miss ∈ x.log) (hunbooked : ¬Booked i x) :
    (app.discipline d).Safe i (app.Told i key)
      (handleMiss app.cfg (app.request p) (app.handler i p).1) x := by
  refine Safe.catchError hx (Q := app.Told i key) ?_ (fun _ _ _ _ h ↦ h)
    fun _ _ _ hy htold ↦ safe_handlerFailed hy htold
  refine Safe.bind hx (safe_handle hx hrole hmiss hunbooked) ?_ ?_
  · rintro response y - hy ⟨hresponse, -⟩
    obtain ⟨rfl, haccepted⟩ := hresponse response rfl
    refine safe_handlerSucceeded hy (by rw [Request.key, request, hkey]; rfl) ?_
    exact ⟨rfl, i, ⟨p, hrole, hkey⟩, rfl, haccepted⟩
  · rintro e y - - ⟨-, hfailed⟩
    refine ⟨fun _ h ↦ (by cases h), fun e' he' ↦ ?_⟩
    obtain rfl := Except.error.inj he'
    exact hfailed e rfl

theorem safe_intercept {p : HttpPost} {id key : String} (hx : app.InOrder x)
    (hrole : app.role i = .post p) (hkey : p.idempotencyKey = some key)
    (hunbooked : ¬Booked i x) :
    (app.discipline d).Safe i (app.Told i key)
      (intercept app.cfg id (app.request p) (app.handler i p).1) x := by
  have hrequest : (app.request p).key = key := by rw [Request.key, request, hkey]; rfl
  unfold intercept
  split
  · rw [hrequest]
    refine Safe.bind hx (safe_unbooked hunbooked (checkAndAcquire_uses _ _ _ _)
      (safe_checkAndAcquire hx)) ?_ fun e _ _ _ hq ↦ told_of_plain (hq.1.1 e rfl)
    rintro result y - hy ⟨⟨-, hcached⟩, hunbooked⟩
    refine Safe.bind hy (safe_unbooked hunbooked ((observe_uses app.cfg _).mono
      fun _ ↦ Op.BehindLock.ofService) safe_observe) ?_
      fun e _ _ _ hq ↦ told_of_plain (hq.1.1 e rfl)
    rintro a z hyz hz ⟨⟨-, hobserved⟩, hunbooked⟩
    cases result with
    | hashMismatch | inProgress =>
        exact safe_throw fun _ hzz' _ ↦ told_error (not_booked_of_relies hzz' hunbooked)
    | cached statusCode response =>
        refine safe_pure fun z' hz' _ ↦ ⟨fun reply h ↦ ?_, fun _ h ↦ (by cases h)⟩
        obtain rfl := Except.ok.inj h
        exact (hcached statusCode response rfl).extends (extends_of_leads (hyz.trans hz'.leads))
    | miss => exact safe_handleMiss hz hrole hkey (hobserved a rfl) hunbooked
  · exact safe_throw fun _ hxy _ ↦ told_error (not_booked_of_relies hxy hunbooked)

end Application

end TransactionLedger
