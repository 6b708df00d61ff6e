import TransactionLedger.Notification.DeadLetter

/-!
# Acknowledged notifications

A normal return of `process` stands for a delivery exactly as long as no insertion
runs against a row that is already dead-lettered.
-/

namespace TransactionLedger

open Async Data NotificationProcessor

section

variable (ex : Executions) (pair : String × NotificationChannel) {d : Delivery} {P : Type}

/-- If the stage is the normal return of a `process` for the pair, its row is DELIVERED. -/
def AcknowledgesDelivered (L : Pool (ledger d) ExecutionOutcome P)
    (s : Pool.Stage (ledger d) P) : Prop :=
  ∀ i job result, ex.execution i = .process job → job.pair = pair →
    L.result s.before i = none → L.result s.after i = some (.ok result) →
      Delivered pair s.after.store

/-- The stage runs a well-formed insertion for the pair, whose row is DEAD_LETTER. -/
def CreatesOverDeadLetter (L : Pool (ledger d) ExecutionOutcome P)
    (s : Pool.Stage (ledger d) P) : Prop :=
  ∃ i id data row, s.move = .settle i Fate.run ∧
    L.pending s.before i = some (.notificationCreate id data) ∧
      (data.transactionId, data.channel) = pair ∧ (data.row id).isSome ∧
        s.before.store.notice pair = some row ∧ row.status = .deadLetter

end

/-- The control points of an execution. -/
def Execution.Reaches : Execution → ExecutionControl → Prop
  | .process job, .create job' => job' = job
  | .process _, .ended _ => True
  | .process _, _ => False
  | .onFailed .., .create _ => False
  | .onFailed .., _ => True

structure Acknowledgement (ex : Executions) (pair : String × NotificationChannel)
    (c : Config calls World ℕ ExecutionControl) : Prop where
  status : ∀ row, c.store.notice pair = some row →
    row.status = .delivered ∨ row.status = .deadLetter
  reaches : ∀ i p, c.procs i = some p → (ex.execution i).Reaches p

variable {ex : Executions} {pair : String × NotificationChannel} {d : Delivery}
  {a b : Config calls World ℕ ExecutionControl} {m : (ledger d).Moves}

theorem Execution.reaches_initial (execution : Execution) :
    execution.Reaches (.initial execution) := by
  cases execution with
  | process job => rfl
  | onFailed job error =>
      rw [ExecutionControl.initial]
      split <;> trivial

theorem ExecutionStep.reaches {execution : Execution} {w w' : World} {p q : ExecutionControl}
    (h : ExecutionStep w w' p q) (hp : execution.Reaches p) : execution.Reaches q := by
  cases execution with
  | process job =>
      cases h with
      | found => exact hp.elim
      | _ => trivial
  | onFailed job error => cases h <;> trivial

theorem Acknowledgement.step (hinv : Acknowledgement ex pair a)
    (hstep : (ex.control (ledger d)).Step a m b) : Acknowledgement ex pair b := by
  cases hstep with
  | @settle i f p op k r w' hproc hview hsettle =>
      constructor
      · intro row hrow
        rcases row_step pair hview hsettle with hsame | hchange
        · exact hinv.status row (hsame.symm.trans hrow)
        · generalize a.store.notice pair = before at hchange
          generalize hafter : w'.notice pair = after at hchange
          cases hchange with
          | delivered _ hstatus =>
              obtain rfl := Option.some.inj (hafter.symm.trans hrow)
              exact .inl hstatus
          | buried _ hstatus =>
              obtain rfl := Option.some.inj (hafter.symm.trans hrow)
              exact .inr hstatus
      · intro j q hj
        rcases Pool.of_update_some hj with ⟨rfl, rfl⟩ | ⟨-, hother⟩
        · exact (execution_step hview hsettle).reaches (hinv.reaches _ p hproc)
        · exact hinv.reaches j q hother
  | crash hproc hview =>
      exact ⟨hinv.status, fun j q hj ↦ hinv.reaches j q (Pool.of_update_none hj).2⟩
  | @drift dr w' hdrift =>
      obtain rfl := Option.some.inj hdrift
      exact ⟨fun row hrow ↦ hinv.status row ((World.drift_notice ..).symm.trans hrow),
        hinv.reaches⟩

/-- An execution of `process` that returns at a stage was at its insertion. -/
theorem create_of_returned (hinv : Acknowledgement ex pair a)
    (hstep : (ex.control (ledger d)).Step a m b) {i : ℕ} {job : NotificationJob}
    {result : ExecutionOutcome} (hjob : ex.execution i = .process job)
    (hbefore : (ex.control (ledger d)).result a i = none)
    (hafter : (ex.control (ledger d)).result b i = some (.ok result)) :
    ∃ f r, m = .settle i f ∧ a.procs i = some (.create job) ∧
      a.store.settle d f (.notificationCreate (ex.rowId i) (delivery job)) = some (r, b.store) ∧
        ∀ e, r = .error e → e = .prisma .p2002 := by
  cases hstep with
  | @settle j f p op k r w' hproc hview hsettle =>
      by_cases hij : i = j
      · subst hij
        have hreaches := hinv.reaches i p hproc
        rw [hjob] at hreaches
        cases p with
        | create job' =>
            obtain rfl : job' = job := hreaches
            cases hview
            refine ⟨f, r, rfl, hproc, hsettle, ?_⟩
            rintro e rfl
            by_contra hother
            simp [Pool.result, Executions.control, ExecutionControl.view, hother,
              View.result] at hafter
        | ended r' => cases hview
        | find | bury => exact hreaches.elim
      · have hsame : (ex.control (ledger d)).result a i = some (.ok result) := by
          simpa only [Pool.result, Function.update_of_ne hij] using hafter
        rw [hbefore] at hsame
        cases hsame
  | @crash j p op k hproc hview =>
      by_cases hij : i = j
      · subst hij
        simp [Pool.result] at hafter
      · have hsame : (ex.control (ledger d)).result a i = some (.ok result) := by
          simpa only [Pool.result, Function.update_of_ne hij] using hafter
        rw [hbefore] at hsame
        cases hsame
  | drift hdrift =>
      cases hbefore.symm.trans hafter

theorem Acknowledgement.execution (hinv : Acknowledgement ex pair a) {i : ℕ}
    {job : NotificationJob} (hproc : a.procs i = some (.create job)) :
    ex.execution i = .process job := by
  have hreaches := hinv.reaches i _ hproc
  cases hexecution : ex.execution i with
  | process job' =>
      rw [hexecution] at hreaches
      rw [show job = job' from hreaches]
  | onFailed job' error =>
      rw [hexecution] at hreaches
      exact hreaches.elim

theorem create_of_pending {i : ℕ} {id : String} {data : NotificationData}
    (h : (ex.control (ledger d)).pending a i = some (.notificationCreate id data)) :
    ∃ job, a.procs i = some (.create job) ∧ id = ex.rowId i ∧ data = delivery job := by
  obtain ⟨p, k, hproc, hview⟩ := Pool.exists_of_pending h
  cases p with
  | create job =>
      cases hview
      exact ⟨job, hproc, rfl, rfl⟩
  | _ => cases hview

/-- A well-formed insertion that meets a row returns normally and changes nothing. -/
theorem returned_of_notice {i : ℕ} {job : NotificationJob} {row : Notification}
    (hproc : a.procs i = some (.create job))
    (hvalid : ((delivery job).row (ex.rowId i)).isSome)
    (hrow : a.store.notice job.pair = some row)
    (hstep : (ex.control (ledger d)).Step a (.settle i Fate.run) b) :
    (ex.control (ledger d)).result a i = none ∧
      (ex.control (ledger d)).result b i =
        some (.ok (.acknowledged (.alreadyDelivered job.transactionId))) ∧
          b.store = a.store := by
  have hrun := World.p2002_of_notice (d := d) hvalid hrow
  cases hstep with
  | @settle i f p op k r w' hproc' hview hsettle =>
      obtain rfl := Option.some.inj (hproc.symm.trans hproc')
      cases hview
      obtain ⟨rfl, rfl⟩ := Prod.mk.inj (Option.some.inj (hsettle.symm.trans hrun))
      refine ⟨?_, ?_, rfl⟩
      · simp [Pool.result, hproc, Executions.control, ExecutionControl.view, View.result]
      · simp [Pool.result, Executions.control, ExecutionControl.view, View.result]

/-- A stage acknowledges a pair that is not delivered exactly when it inserts over a
dead letter. -/
theorem acknowledgesDelivered_iff (hinv : Acknowledgement ex pair a)
    (hstep : (ex.control (ledger d)).Step a m b) :
    AcknowledgesDelivered ex pair (ex.control (ledger d)) ⟨a, m, b⟩ ↔
      ¬CreatesOverDeadLetter pair (ex.control (ledger d)) ⟨a, m, b⟩ := by
  constructor
  · rintro hdelivered ⟨i, id, data, row, hmove, hpending, hpair, hvalid, hrow, hdead⟩
    change m = .settle i Fate.run at hmove
    subst hmove
    change a.store.notice pair = some row at hrow
    obtain ⟨job, hproc, rfl, rfl⟩ := create_of_pending hpending
    change job.pair = pair at hpair
    obtain ⟨hbefore, hafter, hsame⟩ := returned_of_notice hproc hvalid (hpair ▸ hrow) hstep
    obtain ⟨row', hrow', hstatus⟩ :=
      hdelivered i job _ (hinv.execution hproc) hpair hbefore hafter
    change b.store.notice pair = some row' at hrow'
    rw [hsame] at hrow'
    obtain rfl := Option.some.inj (hrow.symm.trans hrow')
    cases hdead.symm.trans hstatus
  · intro hnot i job result hjob hpair hbefore hafter
    obtain ⟨f, r, rfl, hproc, hsettle, hdup⟩ := create_of_returned hinv hstep hjob hbefore hafter
    rcases r with e | row
    · obtain rfl := hdup e rfl
      obtain ⟨rfl, hsame, hvalid, row, hrow⟩ := World.notice_of_p2002 hsettle
      change b.store = a.store at hsame
      change a.store.notice job.pair = some row at hrow
      rw [hpair] at hrow
      change Delivered pair b.store
      rw [hsame]
      refine ⟨row, hrow, ?_⟩
      rcases hinv.status row hrow with hdelivered | hdead
      · exact hdelivered
      · exact absurd ⟨i, ex.rowId i, delivery job, row, rfl, Pool.pending_of_view hproc rfl, hpair,
          hvalid, hrow, hdead⟩ hnot
    · obtain ⟨hrow, -, hafter⟩ := World.notice_of_create hsettle
      obtain ⟨hkey, hstatus, -⟩ := NotificationData.of_row hrow
      exact ⟨row, (hkey.trans hpair) ▸ hafter, hstatus⟩

theorem acknowledgement_start {w : World} (hnone : w.notice pair = none) :
    Acknowledgement ex pair (ex.controlStart w) where
  status row hrow := by
    cases hnone.symm.trans hrow
  reaches i p hp := by
    obtain rfl := Option.some.inj hp
    exact (ex.execution i).reaches_initial

/-! ## The programs -/

theorem acknowledgesDelivered_map {s : Pool.Stage (ledger d) ExecutionControl} :
    AcknowledgesDelivered ex pair ((ledger d).programs ExecutionOutcome)
        (s.map fun i c ↦ c.code (ex.rowId i)) ↔
      AcknowledgesDelivered ex pair (ex.control (ledger d)) s := by
  simp only [AcknowledgesDelivered, Pool.Stage.map,
    (ex.control_implements (ledger d)).result_map]
  rfl

theorem createsOverDeadLetter_map {s : Pool.Stage (ledger d) ExecutionControl} :
    CreatesOverDeadLetter pair ((ledger d).programs ExecutionOutcome)
        (s.map fun i c ↦ c.code (ex.rowId i)) ↔
      CreatesOverDeadLetter pair (ex.control (ledger d)) s := by
  simp only [CreatesOverDeadLetter, Pool.Stage.map,
    (ex.control_implements (ledger d)).pending_map]
  rfl

/-- In every history of a pair that starts without a row, each normal return of
`process` finds the row DELIVERED if and only if no well-formed insertion runs while
the row is DEAD_LETTER. -/
theorem acknowledgesDelivered_iff_noCreateOverDeadLetter (ex : Executions) (d : Delivery)
    (pair : String × NotificationChannel) {w : World} (hnone : w.notice pair = none)
    {past : List (Pool.Stage (ledger d) (Promise ExecutionOutcome))}
    {c : Config calls World ℕ (Promise ExecutionOutcome)}
    (h : ((ledger d).programs ExecutionOutcome).Trace Pool.anyStage (ex.start w) past c) :
    (∀ s ∈ past, AcknowledgesDelivered ex pair ((ledger d).programs ExecutionOutcome) s) ↔
      ∀ s ∈ past, ¬CreatesOverDeadLetter pair ((ledger d).programs ExecutionOutcome) s := by
  rw [← ex.map_controlStart] at h
  obtain ⟨past', c', rfl, rfl, hc⟩ := (ex.control_implements (ledger d)).lift_trace h
  have hstage : ∀ s ∈ past', AcknowledgesDelivered ex pair (ex.control (ledger d)) s ↔
      ¬CreatesOverDeadLetter pair (ex.control (ledger d)) s := by
    intro s hs
    obtain ⟨earlier, hearlier, hstep, -⟩ := hc.of_mem hs
    have hinv : Acknowledgement ex pair s.before :=
      hearlier.invariant (fun _ c ↦ Acknowledgement ex pair c) (acknowledgement_start hnone)
        fun _ hstep _ hinv ↦ hinv.step hstep
    exact acknowledgesDelivered_iff hinv hstep
  simp only [List.forall_mem_map, acknowledgesDelivered_map, createsOverDeadLetter_map]
  exact forall₂_congr hstage

/-- Three attempts, the handler of the last failure, and later runs of the job, which
the failed set has kept. -/
def rerun : Executions where
  execution i :=
    if i < 3 then .process (emailJob i)
    else if i = 3 then .onFailed (emailJob 3) (.error "timeout")
    else .process (emailJob 3)
  rowId _ := "n"

/-- The insertion of attempt 0 commits and throws; attempt 1 finds the row. -/
def deliverOnRetry : List (ledger .repeated).Moves :=
  [.settle 0 (.torn (.error "timeout")), .settle 1 .run]

theorem acknowledgesDelivered_deliverOnRetry :
    (∀ s ∈ (((ledger .repeated).programs ExecutionOutcome).trailed (fun _ _ ↦ true) []
        (rerun.start (.enqueued "t")) deliverOnRetry).1,
      AcknowledgesDelivered rerun ("t", .email) ((ledger .repeated).programs ExecutionOutcome) s) ↔
      ∀ s ∈ (((ledger .repeated).programs ExecutionOutcome).trailed (fun _ _ ↦ true) []
        (rerun.start (.enqueued "t")) deliverOnRetry).1,
      ¬CreatesOverDeadLetter ("t", .email) ((ledger .repeated).programs ExecutionOutcome) s :=
  acknowledgesDelivered_iff_noCreateOverDeadLetter rerun .repeated ("t", .email) rfl
    (Pool.trace_trailed (fun _ _ _ ↦ trivial) .start rfl)

/-- All three attempts fail and the job is dead-lettered; the run after that returns
'already_delivered'. -/
def deadLetterThenRerun : List (ledger .repeated).Moves :=
  [.settle 0 (.lost (.error "timeout")), .settle 1 (.lost (.error "timeout")),
    .settle 2 (.lost (.error "timeout")), .settle 3 .run, .settle 3 .run, .settle 4 .run]

theorem notDelivered_deadLetterThenRerun :
    ¬∀ past c, ((ledger .repeated).programs ExecutionOutcome).Trace Pool.anyStage
      (rerun.start (.enqueued "t")) past c → ∀ s ∈ past,
        AcknowledgesDelivered rerun ("t", .email)
          ((ledger .repeated).programs ExecutionOutcome) s := by
  intro h
  have htrace : ((ledger .repeated).programs ExecutionOutcome).Trace Pool.anyStage
      (rerun.start (.enqueued "t"))
      (((ledger .repeated).programs ExecutionOutcome).trailed (fun _ _ ↦ true) []
        (rerun.start (.enqueued "t")) deadLetterThenRerun).1
      (((ledger .repeated).programs ExecutionOutcome).trailed (fun _ _ ↦ true) []
        (rerun.start (.enqueued "t")) deadLetterThenRerun).2 :=
    Pool.trace_trailed (fun _ _ _ ↦ trivial) .start rfl
  obtain ⟨row, hrow, hstatus⟩ :=
    h _ _ htrace _ List.mem_cons_self 4 (emailJob 3) _ rfl rfl rfl rfl
  cases hrow
  cases hstatus

end TransactionLedger
