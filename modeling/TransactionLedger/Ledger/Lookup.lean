import TransactionLedger.Idempotency.Usage
import TransactionLedger.Ledger.Reading

/-!
# Looking a notification up

`GET /notifications/:id`.  Every process draws a primary key for the row that it may insert
into `notifications`, and no update touches the key of a row: whoever has seen the key of a
notification finds it again, and the transaction it is about.
-/

namespace TransactionLedger

open Async Data Discipline IdempotencyInterceptor

/-! ## NotificationService.findById -/

/-- The row with a primary key. -/
def World.notificationById (w : World) (id : String) : Option Notification :=
  w.notifications.rows.find? fun row ↦ row.id = id

/-- `notification.findUnique` with the transaction included.  Prisma asks for the row and
then for what it refers to, and rejects when a required relation is missing. -/
def findUniqueIncluded (w w' : World) (id : String) :
    Except Err (Option (Notification × Transaction)) :=
  match w.notificationById id with
  | none => .ok none
  | some row =>
      match w'.transaction row.transactionId with
      | none => .error (.error "Inconsistent query result")
      | some transaction => .ok (some (row, transaction))

def NotificationService.findById
    (findUnique : String → Except Err (Option (Notification × Transaction))) (id : String) :
    Except Err (Except NotFoundException (Notification × Transaction)) := do
  let notification ← findUnique id
  match notification with
  | none => pure (.error ⟨"Notification " ++ id ++ " not found"⟩)
  | some notification => pure (.ok notification)

/-! ## Who inserts a notification -/

/-- The primary keys a process draws: for the delivery, and for the dead letter. -/
inductive Draw : Type where
  | delivery (i : ℕ)
  | deadLetter (i : ℕ)

def Draw.proc : Draw → ℕ
  | .delivery i => i
  | .deadLetter i => i

/-- The key that process `i` draws for the call. -/
def Op.draw (i : ℕ) : Op → Option Draw
  | .notificationCreate .. => some (.delivery i)
  | .notificationUpsert .. => some (.deadLetter i)
  | _ => none

/-- The row that the call inserts, if it inserts one. -/
def Op.inserted : Op → Option Notification
  | .notificationCreate id data => data.row id
  | .notificationUpsert _ id create _ => create.row id
  | _ => none

theorem Op.proc_of_draw {i : ℕ} {op : Op} {draw : Draw} (h : op.draw i = some draw) :
    draw.proc = i := by
  cases op <;> cases h <;> rfl

/-- The calls that insert no notification. -/
def Op.Unnoticed (op : Op) : Prop := ∀ i, op.draw i = none

theorem Op.OfService.unnoticed {op : Op} (h : op.OfService) : op.Unnoticed := by
  cases op <;> first | exact fun _ ↦ rfl | exact absurd trivial h

theorem await_unnoticed {op : Op} (h : op.Unnoticed) : (await op).Uses Op.Unnoticed :=
  uses_await h

theorem create_unnoticed (lib : DecimalLib) (transactionId : String)
    (dto : CreateTransactionDto) :
    (TransactionController.create lib transactionId dto).Uses Op.Unnoticed := by
  refine Prog.Uses.bind ?_ fun _ ↦ trivial
  unfold TransactionService.createTransaction
  cases lib.ofString dto.amount with
  | none => trivial
  | some amount =>
      refine Prog.Uses.bind (await_unnoticed fun _ ↦ rfl) fun transaction ↦ ?_
      refine Prog.Uses.bind (Prog.Uses.catchError (await_unnoticed fun _ ↦ rfl) fun error ↦ ?_)
        fun _ ↦ trivial
      exact Prog.Uses.bind (await_unnoticed fun _ ↦ rfl) fun _ ↦ trivial

theorem handle_unnoticed (lib : DecimalLib) (cv : ClassValidator)
    (exceptionText : List ValidationError → String) (transactionId : String) (body : Body) :
    (TransactionController.handle lib cv exceptionText transactionId body).Uses
      Op.Unnoticed := by
  unfold TransactionController.handle
  cases validationPipe cv body with
  | error errors => trivial
  | ok dto => exact create_unnoticed lib transactionId dto

theorem enqueueNotification_unnoticed (lib : DecimalLib) (transaction : Transaction)
    (fromAccount toAccount : Option Json) :
    (TransactionProcessor.enqueueNotification lib transaction fromAccount toAccount).Uses
      Op.Unnoticed := by
  unfold TransactionProcessor.enqueueNotification
  split
  · trivial
  · exact await_unnoticed fun _ ↦ rfl

theorem process_unnoticed (lib : DecimalLib) (job : TransactionJobData) :
    (TransactionProcessor.process lib job).Uses Op.Unnoticed := by
  refine Prog.Uses.bind (await_unnoticed fun _ ↦ rfl) fun existing ↦ ?_
  rcases existing with _ | existing
  · trivial
  dsimp only
  split
  · exact Prog.Uses.bind (enqueueNotification_unnoticed ..) fun _ ↦ trivial
  · refine Prog.Uses.bind (await_unnoticed fun _ ↦ rfl) fun count ↦ ?_
    split
    · trivial
    · refine Prog.Uses.bind (await_unnoticed fun _ ↦ rfl) fun transaction ↦ ?_
      exact Prog.Uses.bind (enqueueNotification_unnoticed ..) fun _ ↦ trivial

/-- A transaction worker inserts no notification. -/
theorem attempt_unnoticed (lib : DecimalLib) (worker : ℕ) (target : String) :
    (TransactionProcessor.attempt lib worker target).Uses Op.Unnoticed := by
  refine Prog.Uses.bind (await_unnoticed fun _ ↦ rfl) fun job ↦ ?_
  refine Prog.Uses.bind (process_unnoticed lib job).settled fun result ↦ ?_
  cases result with
  | ok result => exact await_unnoticed fun _ ↦ rfl
  | error error =>
      refine Prog.Uses.bind (await_unnoticed fun _ ↦ rfl) fun _ ↦ ?_
      exact Prog.Uses.catchError (Prog.Uses.bind (await_unnoticed fun _ ↦ rfl) fun _ ↦ trivial)
        fun _ ↦ trivial

/-! ## Keys -/

theorem NotificationData.id_of_row {id : String} {data : NotificationData} {row : Notification}
    (h : data.row id = some row) : row.id = id := by
  obtain ⟨recipient, -, rfl⟩ := Option.map_eq_some_iff.mp h
  rfl

/-- A call that draws the key has been settled. -/
def Draw.Spent (draw : Draw) (x : Stores) : Prop :=
  ∃ e ∈ x.log, e.op.draw e.proc = some draw

section

variable {draw : Draw} {x y : Stores} {i : ℕ} {op : Op} {r : Except Err op.Res} {w : World}

theorem Draw.Spent.mono (h : draw.Spent x) (hlog : ∀ e ∈ x.log, e ∈ y.log) : draw.Spent y := by
  obtain ⟨e, he, hdraw⟩ := h
  exact ⟨e, hlog e he, hdraw⟩

theorem Draw.spent_settled :
    draw.Spent (x.settled i op r w) ↔ op.draw i = some draw ∨ draw.Spent x := by
  constructor
  · rintro ⟨e, he, hdraw⟩
    rcases List.mem_cons.mp he with rfl | he
    · exact .inl hdraw
    · exact .inr ⟨e, he, hdraw⟩
  · rintro (hdraw | ⟨e, he, hdraw⟩)
    · exact ⟨_, List.mem_cons_self, hdraw⟩
    · exact ⟨e, List.mem_cons_of_mem _ he, hdraw⟩

/-- Nobody else spends the draws of a process. -/
theorem Draw.Spent.of_relies {d : Delivery} {D : Discipline (ledger d)}
    (h : draw.Spent y) (hxy : D.Relies i x y)
    (hproc : draw.proc = i) : draw.Spent x := by
  obtain ⟨e, he, hdraw⟩ := h
  exact ⟨e, hxy.own e he ((Op.proc_of_draw hdraw).symm.trans hproc), hdraw⟩

end

/-- A row that is there after a call was there before, or is the one it inserts. -/
theorem World.notice_origin {d : Delivery} {f : Fate} {w w' : World} {op : Op}
    {r : Except Err op.Res} (h : w.settle d f op = some (r, w'))
    {pair : String × NotificationChannel} {row : Notification}
    (hrow : w'.notice pair = some row) (i : ℕ) :
    (∃ old, w.notice pair = some old ∧ old.id = row.id) ∨
      op.inserted = some row ∧ ∃ draw, op.draw i = some draw := by
  rcases settle_notice h pair with hsame | hchange
  · exact .inl ⟨row, hsame.symm.trans hrow, rfl⟩
  · rw [hrow] at hchange
    generalize w.notice pair = before at hchange
    cases hchange with
    | created hdata => exact .inr ⟨hdata, _, rfl⟩
    | inserted hdata => exact .inr ⟨hdata, _, rfl⟩
    | updated => exact .inl ⟨_, rfl, rfl⟩

/-- No call takes a row away or changes its key. -/
theorem World.notice_kept {d : Delivery} {f : Fate} {w w' : World} {op : Op}
    {r : Except Err op.Res} (h : w.settle d f op = some (r, w'))
    {pair : String × NotificationChannel} {row : Notification}
    (hrow : w.notice pair = some row) : ∃ row', w'.notice pair = some row' ∧ row'.id = row.id := by
  rcases settle_notice h pair with hsame | hchange
  · exact ⟨row, hsame.trans hrow, rfl⟩
  · rw [hrow] at hchange
    generalize w'.notice pair = after at hchange
    cases hchange
    exact ⟨_, rfl, rfl⟩

namespace Application

variable (app : Application)

def drawnId : Draw → String
  | .delivery i => app.notificationId i
  | .deadLetter i => app.deadLetterId i

/-- Every key has been drawn by the process that has inserted its row, and belongs to one row. -/
structure Keyed (x : Stores) : Prop where
  drawn : ∀ {pair row}, x.store.notice pair = some row →
    ∃ draw : Draw, app.drawnId draw = row.id ∧ draw.Spent x
  apart : ∀ {pair pair' row row'}, x.store.notice pair = some row →
    x.store.notice pair' = some row' → row.id = row'.id → pair = pair'

/-- Process `i` inserts under a key it has drawn, and draws it once. -/
def Fresh (i : ℕ) (x : Stores) (op : Op) : Prop :=
  ∀ draw, op.draw i = some draw →
    ¬draw.Spent x ∧ ∀ row, op.inserted = some row → app.drawnId draw = row.id

/-- No row loses its key. -/
def KeysKept (x y : Stores) : Prop :=
  ∀ {pair row}, x.store.notice pair = some row →
    ∃ row', y.store.notice pair = some row' ∧ row'.id = row.id

variable {app} {x y : Stores} {d : Delivery} {f : Fate} {i : ℕ} {op : Op}
  {r : Except Err op.Res} {w' : World}

theorem Keyed.settle (hids : Function.Injective app.drawnId) (hx : app.Keyed x)
    (hfresh : app.Fresh i x op) (hsettle : x.store.settle d f op = some (r, w')) :
    app.Keyed (x.settled i op r w') := by
  have hnew {row : Notification} {draw : Draw} (hinserted : op.inserted = some row)
      (hdraw : op.draw i = some draw) {pair' : String × NotificationChannel}
      {old : Notification} (hold : x.store.notice pair' = some old) : row.id ≠ old.id := by
    intro hid
    obtain ⟨hunspent, hdrawn⟩ := hfresh draw hdraw
    obtain ⟨draw', hdrawn', hspent⟩ := hx.drawn hold
    obtain rfl := hids (((hdrawn row hinserted).trans hid).trans hdrawn'.symm)
    exact hunspent hspent
  constructor
  · intro pair row hrow
    rcases World.notice_origin hsettle hrow i with ⟨old, hold, hid⟩ | ⟨hinserted, draw, hdraw⟩
    · obtain ⟨draw, hdrawn, hspent⟩ := hx.drawn hold
      exact ⟨draw, hdrawn.trans hid, Draw.spent_settled.mpr (.inr hspent)⟩
    · exact ⟨draw, (hfresh draw hdraw).2 row hinserted, Draw.spent_settled.mpr (.inl hdraw)⟩
  · intro pair pair' row row' hrow hrow' hid
    rcases World.notice_origin hsettle hrow i with ⟨old, hold, hkept⟩ | ⟨hinserted, draw, hdraw⟩ <;>
      rcases World.notice_origin hsettle hrow' i with
        ⟨old', hold', hkept'⟩ | ⟨hinserted', draw', hdraw'⟩
    · exact hx.apart hold hold' ((hkept.trans hid).trans hkept'.symm)
    · exact absurd (hid.symm.trans hkept.symm) (hnew hinserted' hdraw' hold)
    · exact absurd (hid.trans hkept'.symm) (hnew hinserted hdraw hold')
    · obtain rfl := Option.some.inj (hinserted.symm.trans hinserted')
      exact (Table.key_of_lookup hrow).symm.trans (Table.key_of_lookup hrow')

theorem Keyed.moved (hx : app.Keyed x) {w : World}
    (hnotice : ∀ pair, w.notice pair = x.store.notice pair) : app.Keyed (x.moved w) where
  drawn hrow := hx.drawn ((hnotice _).symm.trans hrow)
  apart hrow hrow' := hx.apart ((hnotice _).symm.trans hrow) ((hnotice _).symm.trans hrow')

theorem keysKept_of_notice {w : World} (hnotice : ∀ pair, w.notice pair = x.store.notice pair) :
    KeysKept x (x.moved w) :=
  fun hrow ↦ ⟨_, (hnotice _).trans hrow, rfl⟩

/-- The keys that Prisma draws differ. -/
def keying (d : Delivery) (hids : Function.Injective app.drawnId) : Discipline (ledger d) where
  Inv := app.Keyed
  Step := KeysKept
  Allowed := app.Fresh
  settle hx hfresh hsettle :=
    ⟨hx.settle hids hfresh hsettle, fun hrow ↦ World.notice_kept hsettle hrow⟩
  drift {x dr s} hx hdrift := by
    obtain rfl := Option.some.inj hdrift
    have hnotice := World.drift_notice x.store dr
    exact ⟨hx.moved hnotice, keysKept_of_notice hnotice⟩
  crash {x} j hx := ⟨hx.moved fun _ ↦ rfl, keysKept_of_notice fun _ ↦ rfl⟩

/-! ## Every process draws a key once -/

section

variable {hids : Function.Injective app.drawnId}

theorem fresh_of_unnoticed (h : op.Unnoticed) : app.Fresh i x op := by
  intro draw hdraw
  rw [h i] at hdraw
  cases hdraw

theorem keyed_of_unnoticed {α : Type} {p : Promise α} (h : p.Uses Op.Unnoticed) :
    (keying d hids).Safe i (fun _ _ ↦ True) p x :=
  safe_of_uses h fun _ hop ↦ fresh_of_unnoticed hop

/-- A call that draws no key leaves every key unspent. -/
theorem keyed_await {op : Op} (hop : op.Unnoticed) {draw : Draw} (hproc : draw.proc = i)
    (h : ¬draw.Spent x) :
    (keying d hids).Safe i (fun _ y ↦ ¬draw.Spent y) (await op) x := by
  refine safe_call fun y hxy _ ↦ ⟨fresh_of_unnoticed hop, fun f r s _ z hyz _ hspent ↦ ?_⟩
  rcases Draw.spent_settled.mp (hspent.of_relies hyz hproc) with hdraw | hspent
  · rw [hop i] at hdraw
    cases hdraw
  · exact h (hspent.of_relies hxy hproc)

theorem keyed_process (job : NotificationJob) (hx : app.Keyed x)
    (hdelivery : ¬(Draw.delivery i).Spent x) (hdead : ¬(Draw.deadLetter i).Spent x) :
    (keying d hids).Safe i (fun _ y ↦ ¬(Draw.deadLetter i).Spent y)
      (NotificationProcessor.process (app.notificationId i) job) x := by
  refine Safe.catchError hx (Q := fun _ y ↦ ¬(Draw.deadLetter i).Spent y) ?_
    (fun _ _ _ _ h ↦ h) fun error y _ _ hy ↦ ?_
  · refine Safe.bind hx (Q := fun _ y ↦ ¬(Draw.deadLetter i).Spent y) ?_
      (fun _ y _ _ hy ↦ safe_pure fun z hyz _ h ↦ hy (h.of_relies hyz rfl)) fun _ _ _ _ h ↦ h
    refine safe_call fun y hxy _ ↦ ⟨fun draw hdraw ↦ ?_, fun f r s _ z hyz _ hspent ↦ ?_⟩
    · obtain rfl := Option.some.inj hdraw
      refine ⟨fun h ↦ hdelivery (h.of_relies hxy rfl), fun row hrow ↦ ?_⟩
      exact (NotificationData.id_of_row hrow).symm
    · rcases Draw.spent_settled.mp (hspent.of_relies hyz rfl) with hdraw | hspent
      · cases hdraw
      · exact hdead (hspent.of_relies hxy rfl)
  · unfold NotificationProcessor.duplicate
    split
    · exact safe_pure fun z hyz _ h ↦ hy (h.of_relies hyz rfl)
    · exact safe_throw fun z hyz _ h ↦ hy (h.of_relies hyz rfl)

theorem keyed_onFailed (job : NotificationJob) (error : Err) (hx : app.Keyed x)
    (hdead : ¬(Draw.deadLetter i).Spent x) :
    (keying d hids).Safe i (fun _ _ ↦ True)
      (NotificationProcessor.onFailed (app.deadLetterId i) job error) x := by
  unfold NotificationProcessor.onFailed
  split
  · refine Safe.bind hx (keyed_await (fun _ ↦ rfl) rfl hdead) (fun existing y _ hy hunspent ↦ ?_)
      fun _ _ _ _ _ ↦ trivial
    split
    · exact safe_pure fun _ _ _ ↦ trivial
    · refine Safe.bind hy (Q := fun _ _ ↦ True) ?_
        (fun _ _ _ _ _ ↦ safe_pure fun _ _ _ ↦ trivial) fun _ _ _ _ _ ↦ trivial
      refine safe_call fun z hyz _ ↦ ⟨fun draw hdraw ↦ ?_, fun _ _ _ _ _ _ _ ↦ trivial⟩
      obtain rfl := Option.some.inj hdraw
      refine ⟨fun h ↦ hunspent (h.of_relies hyz rfl), fun row hrow ↦ ?_⟩
      exact (NotificationData.id_of_row hrow).symm
  · exact safe_pure fun _ _ _ ↦ trivial

theorem keyed_attempt (jobId : String) (hx : app.Keyed x)
    (hunspent : ∀ draw : Draw, draw.proc = i → ¬draw.Spent x) :
    (keying d hids).Safe i (fun _ _ ↦ True)
      (NotificationProcessor.attempt (app.notificationId i) (app.deadLetterId i) i jobId) x := by
  refine Safe.bind hx (Q := fun _ y ↦ ∀ draw : Draw, draw.proc = i → ¬draw.Spent y) ?_
    (fun job y _ hy hunspent ↦ ?_) fun _ _ _ _ _ ↦ trivial
  · refine safe_call fun y hxy _ ↦ ⟨fresh_of_unnoticed fun _ ↦ rfl, fun f r s _ z hyz _ ↦ ?_⟩
    intro draw hproc hspent
    rcases Draw.spent_settled.mp (hspent.of_relies hyz hproc) with hdraw | hspent
    · cases hdraw
    · exact hunspent draw hproc (hspent.of_relies hxy hproc)
  · refine Safe.bind hy
      (keyed_process job hy (hunspent _ rfl) (hunspent _ rfl)).settled
      (fun result z _ hz hresult ↦ ?_) fun _ _ _ _ _ ↦ trivial
    obtain ⟨out, -, hdead⟩ := hresult
    cases result with
    | ok result => exact keyed_of_unnoticed (await_unnoticed fun _ ↦ rfl)
    | error error =>
        exact Safe.bind hz (keyed_await (fun _ ↦ rfl) rfl hdead)
          (fun _ _ _ hinv h ↦ keyed_onFailed _ error hinv h) fun _ _ _ _ _ ↦ trivial

theorem keyed_main (hx : app.Keyed x)
    (hunspent : ∀ draw : Draw, draw.proc = i → ¬draw.Spent x) :
    (keying d hids).Safe i (fun _ _ ↦ True) (app.deployment.main i) x := by
  change (keying d hids).Safe i (fun _ _ ↦ True)
    ((app.deployedRole i).main app.cfg (app.recordId i)) x
  unfold deployedRole
  cases app.role i with
  | post p =>
      refine keyed_of_unnoticed (Prog.Uses.bind ?_ fun _ ↦ trivial)
      exact intercept_uses app.cfg (fun _ h ↦ h.unnoticed) _ _ (handle_unnoticed ..)
  | cleanup =>
      exact keyed_of_unnoticed ((cronJob_uses app.cfg).mono fun _ h ↦ h.ofService.unnoticed)
  | transactionWorker transactionId =>
      exact keyed_of_unnoticed
        (Prog.Uses.bind (attempt_unnoticed app.lib i transactionId) fun _ ↦ trivial)
  | notificationWorker jobId =>
      exact Safe.bind hx (keyed_attempt jobId hx hunspent)
        (fun _ _ _ _ _ ↦ safe_pure fun _ _ _ ↦ trivial) fun _ _ _ _ _ ↦ trivial

end

/-! ## Found again -/

variable {clock : ℕ} {c c₁ c₂ : State} {pair : String × NotificationChannel} {row : Notification}

theorem keyed_initial (app : Application) (clock : ℕ) : app.Keyed ⟨.initial clock, []⟩ where
  drawn h := by cases h
  apart h := by cases h

theorem keyed_start (d : Delivery) (hids : Function.Injective app.drawnId) (clock : ℕ) :
    (keying d hids).Obeyed (fun _ _ _ ↦ True) (app.deployment.start clock) where
  inv := app.keyed_initial clock
  safe i p hp := by
    obtain rfl := Option.some.inj hp
    refine keyed_main (app.keyed_initial clock) fun draw _ ↦ ?_
    rintro ⟨e, he, -⟩
    cases he

theorem keyed_of_run (hids : Function.Injective app.drawnId)
    (h : Run d (app.deployment.start clock) c) :
    (keying d hids).Obeyed (fun _ _ _ ↦ True) c :=
  ((keyed_start d hids clock).reachable h).2

/-- The primary key of a notification lasts. -/
theorem id_of_run (hids : Function.Injective app.drawnId)
    (h : Run d (app.deployment.start clock) c) (h' : Run d c c₁)
    (hrow : c.store.notice pair = some row) :
    ∃ row', c₁.store.notice pair = some row' ∧ row'.id = row.id := by
  have hleads := ((keyed_of_run hids h).reachable h').1
  refine hleads.related (R := KeysKept) (fun hrow ↦ ⟨_, hrow, rfl⟩) ?_ hrow
  intro a b hmove hkept pair row hrow
  obtain ⟨row', hrow', hid⟩ := hkept hrow
  obtain ⟨row'', hrow'', hid'⟩ := hmove.step hrow'
  exact ⟨row'', hrow'', hid'.trans hid⟩

/-- A primary key finds the row it belongs to. -/
theorem Keyed.notificationById (hx : app.Keyed x) (hrow : x.store.notice pair = some row) :
    x.store.notificationById row.id = some row := by
  have hmem : row ∈ x.store.notifications.rows := Table.mem_of_lookup hrow
  cases hfound : x.store.notificationById row.id with
  | none =>
      have hno := List.find?_eq_none.mp hfound row hmem
      simp at hno
  | some found =>
      have hid : found.id = row.id := by simpa using List.find?_some hfound
      have hlookup : x.store.notice found.pair = some found :=
        Table.lookup_of_mem (List.mem_of_find?_eq_some hfound)
      obtain rfl := hx.apart hrow hlookup hid.symm
      exact hlookup.symm.trans hrow

/-- Whoever has seen a notification finds it by its key ever after, and with it the
transaction that it announces. -/
theorem notification_found (hids : Function.Injective app.drawnId)
    (h : Run d (app.deployment.start clock) c) (hrow : c.store.notice pair = some row)
    (h₁ : Run d c c₁) (h₂ : Run d c₁ c₂) :
    ∃ row' transaction,
      NotificationService.findById (findUniqueIncluded c₁.store c₂.store) row.id =
        .ok (.ok (row', transaction)) ∧
      row'.id = row.id ∧ row'.pair = pair ∧ row'.content = row.content ∧
      transaction.id = row.transactionId ∧
      announcement app.lib transaction.entry = some row.content := by
  have hrun₁ := Pool.Reachable.trans h h₁
  obtain ⟨row', hrow', hid⟩ := id_of_run hids h h₁ hrow
  obtain ⟨other, hother, hcontent⟩ := notice_later h hrow h₁
  obtain rfl := Option.some.inj (hrow'.symm.trans hother)
  have hfound := (keyed_of_run hids hrun₁).inv.notificationById hrow'
  rw [hid] at hfound
  obtain ⟨-, -, before, hbefore, hannounced, -⟩ := (obeyed_of_run hrun₁).inv.noticed hrow'
  obtain ⟨transaction, htransaction, hentry⟩ :=
    (extends_of_leads (leads_of_run hrun₁ h₂)).grows hbefore
  have hpair : row'.pair = row.pair :=
    (Table.key_of_lookup hrow').trans (Table.key_of_lookup hrow).symm
  refine ⟨row', transaction, ?_, hid, Table.key_of_lookup hrow', hcontent, ?_, ?_⟩
  · have hincluded : findUniqueIncluded c₁.store c₂.store row.id =
        .ok (some (row', transaction)) := by
      simp only [findUniqueIncluded]
      rw [show c₁.store.notificationById row.id = some row' from hfound]
      dsimp only
      rw [show c₂.store.transaction row'.transactionId = some transaction from htransaction]
    rw [NotificationService.findById, hincluded]
    rfl
  · exact (Table.key_of_lookup htransaction).trans (congrArg Prod.fst hpair)
  · rw [hentry, hannounced, hcontent]

/-- The deposit again, with keys of their own for dead letters. -/
def numberedDeposits : Application :=
  { deposits with deadLetterId := fun i ↦ "dead-" ++ deposits.deadLetterId i }

theorem numberedDeposits_injective : Function.Injective numberedDeposits.drawnId := by
  have hhead (i j : ℕ) : deposits.notificationId i ≠ "dead-" ++ deposits.deadLetterId j := by
    intro h
    have hchars := congrArg (fun s ↦ s.toList.head?) h
    simp [deposits, depositBackend, List.replicate_succ] at hchars
  intro a b h
  cases a with
  | delivery i =>
      cases b with
      | delivery j => exact congrArg Draw.delivery (depositBackend.transactionId_injective h)
      | deadLetter j => exact absurd h (hhead i j)
  | deadLetter i =>
      cases b with
      | delivery j => exact absurd h.symm (hhead j i)
      | deadLetter j =>
          have hsame : deposits.deadLetterId i = deposits.deadLetterId j := by
            simpa [drawnId, numberedDeposits] using h
          exact congrArg Draw.deadLetter (depositBackend.transactionId_injective hsame)

def numberedAnnounced : State :=
  later (numberedDeposits.deployment.start 0)
    [0, 0, 0, 0, 0, 0, 0, 0, 3, 3, 3, 3, 3, 3, 4, 4]

theorem deposit_found :
    ∃ row row' transaction, numberedAnnounced.store.notice ("t", .email) = some row ∧
      NotificationService.findById
        (findUniqueIncluded numberedAnnounced.store (later numberedAnnounced [4]).store) row.id =
          .ok (.ok (row', transaction)) ∧ transaction.id = row.transactionId := by
  obtain ⟨row, hrow⟩ : ∃ row, numberedAnnounced.store.notice ("t", .email) = some row :=
    Option.isSome_iff_exists.mp (by decide +kernel)
  have hrun : Run .exclusive (numberedDeposits.deployment.start 0) numberedAnnounced :=
    run_later (by decide +kernel)
  have hlater : Run .exclusive numberedAnnounced (later numberedAnnounced [4]) :=
    run_later (by decide +kernel)
  obtain ⟨row', transaction, hfound, -, -, -, hid, -⟩ :=
    notification_found numberedDeposits_injective hrun hrow .refl hlater
  exact ⟨row, row', transaction, hrow, hfound, hid⟩

end Application

end TransactionLedger
