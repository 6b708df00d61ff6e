import TransactionLedger.Notification.Steps
import TransactionLedger.Transaction.Exclusion

/-!
# Delivered and dead-lettered notifications

The failure handler reads the status of the row and writes the dead letter in two
calls, and `process` takes any row for a delivered one.  A delivery survives
unless an insertion falls between the two calls; an acknowledgement means a
delivery unless the insertion met a dead letter.
-/

namespace TransactionLedger

open Async Data NotificationProcessor

/-- The row of the pair is DELIVERED. -/
def Delivered (pair : String × NotificationChannel) (w : World) : Prop :=
  ∃ row, w.notice pair = some row ∧ row.status = .delivered

/-! ## Steps of an execution -/

/-- How the call awaited at a control point changes the row of a pair. -/
inductive RowStep (pair : String × NotificationChannel) :
    ExecutionControl → Option Notification → Option Notification → Prop where
  | delivered {job : NotificationJob} {row : Notification} (hpair : job.pair = pair)
      (hstatus : row.status = .delivered) : RowStep pair (.create job) none (some row)
  | buried {job : NotificationJob} {error : Err} {before : Option Notification}
      {row : Notification} (hpair : job.pair = pair) (hstatus : row.status = .deadLetter) :
      RowStep pair (.bury job error) before (some row)

/-- Where the outcome of a call leads an execution, and what it has learned. -/
inductive ExecutionStep (w w' : World) : ExecutionControl → ExecutionControl → Prop where
  | delivered {job : NotificationJob} {result : ProcessedNotification}
      (hdelivered : Delivered job.pair w') :
      ExecutionStep w w' (.create job) (.ended (.ok (.acknowledged result)))
  | duplicate {job : NotificationJob} {result : ProcessedNotification} {row : Notification}
      (hrow : w.notice job.pair = some row) (hsame : w' = w) :
      ExecutionStep w w' (.create job) (.ended (.ok (.acknowledged result)))
  | createFailed {job : NotificationJob} {e : Err} :
      ExecutionStep w w' (.create job) (.ended (.error e))
  | found {job : NotificationJob} {error : Err} (hnot : ¬Delivered job.pair w) (hsame : w' = w) :
      ExecutionStep w w' (.find job error) (.bury job error)
  | findEnded {job : NotificationJob} {error e : Err} :
      ExecutionStep w w' (.find job error) (.ended (.error e))
  | skipped {job : NotificationJob} {error : Err} :
      ExecutionStep w w' (.find job error) (.ended (.ok .handled))
  | buried {job : NotificationJob} {error : Err} :
      ExecutionStep w w' (.bury job error) (.ended (.ok .handled))
  | buryFailed {job : NotificationJob} {error e : Err} :
      ExecutionStep w w' (.bury job error) (.ended (.error e))

section

variable {d : Delivery} {f : Fate} {w w' : World} {id : String} {c : ExecutionControl} {op : Op}
  {k : ℕ → Except Err op.Res → ExecutionControl} {r : Except Err op.Res}

theorem row_step (pair : String × NotificationChannel) (hview : c.view id = .await op k)
    (hsettle : w.settle d f op = some (r, w')) :
    w'.notice pair = w.notice pair ∨ RowStep pair c (w.notice pair) (w'.notice pair) := by
  rcases World.settle_notice hsettle pair with hsame | hchange
  · exact .inl hsame
  right
  generalize w.notice pair = before at hchange
  generalize w'.notice pair = after at hchange
  cases c with
  | create job =>
      cases hview
      cases hchange with
      | created hrow hpair =>
          obtain ⟨hkey, hstatus, -⟩ := NotificationData.of_row hrow
          exact .delivered (hkey.symm.trans hpair) hstatus
  | bury job error =>
      cases hview
      cases hchange with
      | inserted hrow hpair =>
          obtain ⟨hkey, hstatus, -⟩ := NotificationData.of_row hrow
          exact .buried (hkey.symm.trans hpair) hstatus
      | updated => exact .buried rfl rfl
  | find job error =>
      cases hview
      cases hchange
  | ended r => cases hview

theorem execution_step (hview : c.view id = .await op k)
    (hsettle : w.settle d f op = some (r, w')) : ExecutionStep w w' c (k w'.clock r) := by
  cases c with
  | create job =>
      cases hview
      rcases r with e | row
      · by_cases hduplicate : e = .prisma .p2002
        · subst hduplicate
          obtain ⟨-, hsame, -, row, hrow⟩ := World.notice_of_p2002 hsettle
          exact .duplicate hrow hsame
        · simp only [if_neg hduplicate]
          exact .createFailed
      · obtain ⟨hrow, -, hafter⟩ := World.notice_of_create hsettle
        obtain ⟨hpair, hstatus, -⟩ := NotificationData.of_row hrow
        rw [hpair] at hafter
        exact .delivered ⟨row, hafter, hstatus⟩
  | find job error =>
      cases hview
      rcases r with e | found
      · exact .findEnded
      · obtain ⟨hsame, rfl⟩ := World.notice_of_find hsettle
        by_cases hdelivered : (w.notice job.pair).map (·.status) = some .delivered
        · simp only [if_pos hdelivered]
          exact .skipped
        · simp only [if_neg hdelivered]
          refine .found ?_ hsame
          rintro ⟨row, hrow, hstatus⟩
          apply hdelivered
          rw [hrow, Option.map_some, hstatus]
  | bury job error =>
      cases hview
      rcases r with e | row
      · exact .buryFailed
      · exact .buried
  | ended r => cases hview

end

/-! ## A delivery is final -/

section Finality

variable (pair : String × NotificationChannel) {d : Delivery} {α P : Type}

/-- Process `i` has read that the pair is not delivered, and is about to write its
dead letter. -/
def Burying (L : Pool (ledger d) α P) (c : Config calls World ℕ P) (i : ℕ) : Prop :=
  ∃ id create update, L.pending c i = some (.notificationUpsert pair id create update)

/-- The move commits no insertion for the pair while a failure handler is between
its read and its upsert. -/
def NoCreateWhileBurying (L : Pool (ledger d) α P) (a : Config calls World ℕ P)
    (m : (ledger d).Moves) (b : Config calls World ℕ P) : Prop :=
  ∀ i f id data, m = .settle i f → L.pending a i = some (.notificationCreate id data) →
    a.store.notice pair = none → b.store.notice pair ≠ none → ∀ j, ¬Burying pair L a j

/-- Once the row is DELIVERED it stays so. -/
def DeliveredIsFinal (L : Pool (ledger d) α P)
    (legal : Config calls World ℕ P → (ledger d).Moves → Config calls World ℕ P → Prop)
    (c : Config calls World ℕ P) : Prop :=
  Delivered pair c.store → ∀ b, L.Reachable legal c b → Delivered pair b.store

end Finality

section

variable {ex : Executions} {d : Delivery} {pair : String × NotificationChannel}
  {a b c : Config calls World ℕ ExecutionControl} {m : (ledger d).Moves}

/-- No execution is about to bury a delivered pair. -/
def Finality (pair : String × NotificationChannel)
    (c : Config calls World ℕ ExecutionControl) : Prop :=
  Delivered pair c.store → ∀ i job error, c.procs i = some (.bury job error) → job.pair ≠ pair

theorem burying_iff {i : ℕ} :
    Burying pair (ex.control (ledger d)) c i ↔
      ∃ job error, c.procs i = some (.bury job error) ∧ job.pair = pair := by
  constructor
  · rintro ⟨id, create, update, hpending⟩
    obtain ⟨p, k, hproc, hview⟩ := Pool.exists_of_pending hpending
    cases p with
    | bury job error =>
        cases hview
        exact ⟨job, error, hproc, rfl⟩
    | _ => cases hview
  · rintro ⟨job, error, hproc, rfl⟩
    exact ⟨ex.rowId i, deadLetter job error, deadLetterUpdate job error,
      Pool.pending_of_view hproc rfl⟩

/-- The only call that takes the pair out of DELIVERED is the upsert. -/
theorem Finality.delivered_step (hinv : Finality pair a)
    (hstep : (ex.control (ledger d)).Step a m b) (h : Delivered pair a.store) :
    Delivered pair b.store := by
  have ⟨row, hrow, hstatus⟩ := h
  cases hstep with
  | @settle i f p op k r w' hproc hview hsettle =>
      rcases row_step pair hview hsettle with hsame | hchange
      · exact ⟨row, hsame.trans hrow, hstatus⟩
      · rw [hrow] at hchange
        generalize w'.notice pair = after at hchange
        cases hchange with
        | buried hpair => exact absurd hpair (hinv h i _ _ hproc)
  | crash hproc hview => exact h
  | @drift dr w' hdrift =>
      obtain rfl := Option.some.inj hdrift
      exact ⟨row, (World.drift_notice ..).trans hrow, hstatus⟩

theorem Finality.step (hinv : Finality pair a) (hstep : (ex.control (ledger d)).Step a m b)
    (hlegal : NoCreateWhileBurying pair (ex.control (ledger d)) a m b) : Finality pair b := by
  intro hdelivered i job error hi
  cases hstep with
  | @settle j f p op k r w' hproc hview hsettle =>
      have hnext := execution_step hview hsettle
      rcases Pool.of_update_some hi with ⟨rfl, hq⟩ | ⟨hne, hother⟩
      · change _ = k w'.clock r at hq
        rw [← hq] at hnext
        cases hnext with
        | found hnot hsame =>
            rintro rfl
            subst hsame
            exact hnot hdelivered
      · rcases row_step pair hview hsettle with hsame | hchange
        · apply hinv ?_ i job error hother
          obtain ⟨row, hrow, hstatus⟩ := hdelivered
          exact ⟨row, hsame.symm.trans hrow, hstatus⟩
        · obtain ⟨row, hrow, hstatus⟩ := hdelivered
          intro hpair
          generalize hbefore : a.store.notice pair = before at hchange
          generalize hafter : w'.notice pair = after at hchange
          cases hchange with
          | @delivered created new hcreated =>
              cases hview
              refine hlegal j f _ _ rfl (Pool.pending_of_view hproc rfl) hbefore ?_ i
                (burying_iff.mpr ⟨job, error, hother, hpair⟩)
              exact Option.ne_none_iff_exists'.mpr ⟨new, hafter⟩
          | buried _ hdead =>
              obtain rfl := Option.some.inj (hafter.symm.trans hrow)
              exact absurd (hdead.symm.trans hstatus) (by decide)
  | crash hproc hview => exact hinv hdelivered i job error (Pool.of_update_none hi).2
  | @drift dr w' hdrift =>
      obtain rfl := Option.some.inj hdrift
      apply hinv ?_ i job error hi
      obtain ⟨row, hrow, hstatus⟩ := hdelivered
      exact ⟨row, (World.drift_notice ..).symm.trans hrow, hstatus⟩

/-- No execution starts at its upsert. -/
theorem initial_ne_bury (execution : Execution) (job : NotificationJob) (error : Err) :
    ExecutionControl.initial execution ≠ .bury job error := by
  intro h
  cases execution with
  | process job' => cases h
  | onFailed job' error' =>
      rw [ExecutionControl.initial] at h
      split at h <;> cases h

theorem finality_start (ex : Executions) (pair : String × NotificationChannel) (w : World) :
    Finality pair (ex.controlStart w) := by
  intro _ i job error hi
  exact absurd (Option.some.inj hi) (initial_ne_bury (ex.execution i) job error)

theorem not_burying_start (ex : Executions) (d : Delivery) (pair : String × NotificationChannel)
    (w : World) (i : ℕ) : ¬Burying pair ((ledger d).programs ExecutionOutcome) (ex.start w) i := by
  rw [← ex.map_controlStart, Burying, (ex.control_implements (ledger d)).pending_map]
  intro h
  obtain ⟨job, error, hi, -⟩ := burying_iff.mp h
  exact absurd (Option.some.inj hi) (initial_ne_bury (ex.execution i) job error)

end

theorem noCreateWhileBurying_map {ex : Executions} {d : Delivery}
    {pair : String × NotificationChannel} {a b : Config calls World ℕ ExecutionControl}
    {m : (ledger d).Moves}
    (h : NoCreateWhileBurying pair ((ledger d).programs ExecutionOutcome)
      (a.map fun i c ↦ c.code (ex.rowId i)) m (b.map fun i c ↦ c.code (ex.rowId i))) :
    NoCreateWhileBurying pair (ex.control (ledger d)) a m b := by
  simp only [NoCreateWhileBurying, Burying,
    (ex.control_implements (ledger d)).pending_map] at h ⊢
  exact h

/-- In every run of `process` and `onFailed` in which no insertion for the pair commits
between the read and the upsert of a failure handler, DELIVERED is final. -/
theorem deliveredIsFinal_of_noCreateWhileBurying (ex : Executions) (d : Delivery)
    (pair : String × NotificationChannel) (w : World)
    {c : Config calls World ℕ (Promise ExecutionOutcome)}
    (h : ((ledger d).programs ExecutionOutcome).Reachable
      (NoCreateWhileBurying pair ((ledger d).programs ExecutionOutcome)) (ex.start w) c) :
    DeliveredIsFinal pair ((ledger d).programs ExecutionOutcome)
      (NoCreateWhileBurying pair ((ledger d).programs ExecutionOutcome)) c := by
  intro hdelivered b hb
  have himpl := ex.control_implements (ledger d)
  rw [← ex.map_controlStart] at h
  obtain ⟨a, rfl, ha⟩ := himpl.lift h
  have hfinality : Finality pair a := ha.invariant (Finality pair) (finality_start ex pair w)
    fun _ hstep hlegal hinv ↦ hinv.step hstep (noCreateWhileBurying_map hlegal)
  obtain ⟨b', rfl, hb'⟩ := himpl.lift hb
  have hboth := hb'.invariant (fun c ↦ Finality pair c ∧ Delivered pair c.store)
    ⟨hfinality, hdelivered⟩ fun _ hstep hlegal hinv ↦
      ⟨hinv.1.step hstep (noCreateWhileBurying_map hlegal), hinv.1.delivered_step hstep hinv.2⟩
  exact hboth.2

/-- The notification job of the transaction "t", after a number of failed attempts. -/
def emailJob (attemptsMade : ℕ) : NotificationJob where
  name := "send-notification"
  transactionId := "t"
  channel := .email
  recipient := .str "a"
  payload := { type := .deposit, amount := "1", currency := "USD" }
  jobId := TransactionProcessor.notificationJobId "t"
  attemptsMade := attemptsMade

/-- One execution of `process`; all others are handlers of the last failure. -/
def slowAttempt : Executions where
  execution i :=
    if i = 0 then .process (emailJob 0) else .onFailed (emailJob 3) (.error "timeout")
  rowId _ := "n"

theorem deliveredIsFinal_slowAttempt :
    DeliveredIsFinal ("t", .email) ((ledger .repeated).programs ExecutionOutcome)
      (NoCreateWhileBurying ("t", .email) ((ledger .repeated).programs ExecutionOutcome))
      (((ledger .repeated).programs ExecutionOutcome).played (fun _ _ _ ↦ true)
        (slowAttempt.start (.enqueued "t")) [.settle 0 .run]) := by
  apply deliveredIsFinal_of_noCreateWhileBurying slowAttempt .repeated ("t", .email) (.enqueued "t")
  refine .step (m := .settle 0 .run) .refl rfl ?_
  intro _ _ _ _ _ _ _ _ j
  exact not_burying_start slowAttempt .repeated ("t", .email) (.enqueued "t") j

/-- The handler reads that there is no row, and the slow attempt delivers. -/
def readThenDeliver : Config calls World ℕ (Promise ExecutionOutcome) :=
  ((ledger .repeated).programs ExecutionOutcome).played (fun _ _ _ ↦ true)
    (slowAttempt.start (.enqueued "t")) [.settle 1 .run, .settle 0 .run]

/-- Then the handler buries the delivery. -/
theorem buried_slowAttempt :
    ¬∀ c, ((ledger .repeated).programs ExecutionOutcome).Reachable
      ((ledger .repeated).programs ExecutionOutcome).anyMove (slowAttempt.start (.enqueued "t")) c →
        DeliveredIsFinal ("t", .email) ((ledger .repeated).programs ExecutionOutcome)
          ((ledger .repeated).programs ExecutionOutcome).anyMove c := by
  intro h
  have hread : ((ledger .repeated).programs ExecutionOutcome).Reachable
      ((ledger .repeated).programs ExecutionOutcome).anyMove (slowAttempt.start (.enqueued "t"))
      readThenDeliver := Pool.reachable_played (fun _ _ _ _ ↦ trivial) rfl
  have hbury : ((ledger .repeated).programs ExecutionOutcome).Reachable
      ((ledger .repeated).programs ExecutionOutcome).anyMove readThenDeliver
      (((ledger .repeated).programs ExecutionOutcome).played (fun _ _ _ ↦ true)
        readThenDeliver [.settle 1 .run]) := Pool.reachable_played (fun _ _ _ _ ↦ trivial) rfl
  obtain ⟨row, hrow, hstatus⟩ := h _ hread ⟨_, rfl, rfl⟩ _ hbury
  cases hrow
  cases hstatus

end TransactionLedger
