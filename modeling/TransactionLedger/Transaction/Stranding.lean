import TransactionLedger.Transaction.Announcement

/-!
# Stranded transactions

A worker that finds the row PROCESSING takes it for somebody else's work and
acknowledges the job, although the attempt that left the row so may be gone.
Unless that happens, an acknowledged job has a completed transaction; and an
exhausted job whose last failure handler ran never leaves one in between.
-/

namespace TransactionLedger

open Async Data TransactionProcessor

/-- The failure handler of attempt `i` has written the row. -/
def handlerEvent (id : String) (i count : ℕ) : Event calls ℕ :=
  ⟨i, .transactionUpdateMany id (.not .completed) .failed, .ok count⟩

/-- No attempt at the job and no failure handler of one is running. -/
def Settled (target : ℕ → String) (id : String) {d : Delivery} {α P : Type}
    (L : Pool (ledger d) α P) (c : Config calls World ℕ P) : Prop :=
  ∀ i op, target i = id → L.pending c i = some op →
    ∃ worker transactionId, op = .takeJob worker transactionId

/-- What a job that is finished for good leaves behind.  An acknowledged job is no
longer in the queue; an exhausted one stays there with the attempt that failed last. -/
structure NotStranded (target : ℕ → String) (id : String) {d : Delivery} {α P : Type}
    (L : Pool (ledger d) α P) (c : Config calls World ℕ P) : Prop where
  acknowledged : Settled target id L c → c.store.job id = none → Completed id c.store
  exhausted : Settled target id L c → ∀ job i count, c.store.job id = some job →
    job.state = .failed i → handlerEvent id i count ∈ c.log →
      ∃ row, c.store.transaction id = some row ∧
        (row.status = .completed ∨ row.status = .failed)

/-- The move is no guarded update of a row that is PROCESSING. -/
def NoBusyGuard (id : String) {d : Delivery} {α P : Type} (L : Pool (ledger d) α P)
    (a : Config calls World ℕ P) (m : (ledger d).Moves) (_ : Config calls World ℕ P) : Prop :=
  ∀ i, m = .settle i Fate.run →
    L.pending a i = some (.transactionUpdateMany id (.oneOf [.queued, .failed]) .processing) →
    ∀ row, a.store.transaction id = some row → row.status ≠ .processing

namespace WorkerControl

/-- The job an attempt is responsible for. -/
def holds : WorkerControl → Option TransactionJobData
  | .find job => some job
  | .guard job _ => some job
  | .completeUpdate job => some job
  | .announce job _ _ => some job
  | .ack job _ => some job
  | .fail job _ => some job
  | _ => none

/-- The attempt can only acknowledge its job from here, or fail to announce. -/
def Sealing : WorkerControl → Prop
  | .announce .. => True
  | .ack .. => True
  | _ => False

theorem holds_announcing (lib : DecimalLib) (job : TransactionJobData) (row : Transaction) :
    (announcing lib job row).holds = some job := by
  rcases announcing_cases lib job row with ⟨_, h⟩ | ⟨_, h⟩ <;> rw [h] <;> rfl

end WorkerControl

theorem WorkerStep.holds_next {lib : DecimalLib} {target : String} {w w' : World}
    {p q : WorkerControl} {job : TransactionJobData} (h : WorkerStep lib target w w' p q)
    (hq : q.holds = some job) :
    p.holds = some job ∨
      p = .take ∧ ∃ queued, w.job target = some queued ∧ queued.data = job := by
  cases h with
  | taken hjob => exact .inr ⟨rfl, _, hjob, Option.some.inj hq⟩
  | foundCompleted hrow hcompleted hann =>
      rw [← hann, WorkerControl.holds_announcing] at hq
      exact .inl hq
  | completed hafter hann =>
      rw [← hann, WorkerControl.holds_announcing] at hq
      exact .inl hq
  | notTaken | acked | failed | failedHandled => cases hq
  | _ => exact .inl hq

variable {lib : DecimalLib} {target : ℕ → String} {id : String}

/-- Under exclusive delivery only a waiting job is handed out. -/
theorem waiting_of_take {f : Fate} {w w' : World} {worker : ℕ} {transactionId : String}
    {r : Except Err TransactionJobData}
    (h : w.settle .exclusive f (.takeJob worker transactionId) = some (r, w')) :
    ∃ job, w.job transactionId = some job ∧ job.state = .waiting := by
  rcases World.settle_cases h with ⟨-, -, hblocked⟩ | ⟨e, -, -, hfaulty, -⟩
  · simp only [World.blocked] at hblocked
    cases hjob : w.transactionQueue.lookup transactionId with
    | none =>
        rw [hjob] at hblocked
        cases hblocked
    | some job =>
        rw [hjob] at hblocked
        refine ⟨job, hjob, ?_⟩
        by_contra hbusy
        simp [hbusy] at hblocked
  · cases hfaulty

/-! ## The invariant -/

structure Custody (id : String) (c : Config calls World ℕ WorkerControl) : Prop where
  row : ∃ row, c.store.transaction id = some row
  held : ∀ i p job, c.procs i = some p → p.holds = some job → job.transactionId = id →
    ∃ queued, c.store.job id = some queued ∧ queued.state = .active i
  sealing : ∀ i p job, c.procs i = some p → p.Sealing → p.holds = some job →
    job.transactionId = id → Completed id c.store
  acknowledged : c.store.job id = none → Completed id c.store
  silent : ∀ i p count, c.procs i = some p → (∀ r, p ≠ .ended r) →
    handlerEvent id i count ∉ c.log
  exhausted : ∀ job i count, c.store.job id = some job → job.state = .failed i →
    handlerEvent id i count ∈ c.log →
      ∃ row, c.store.transaction id = some row ∧
        (row.status = .completed ∨ row.status = .failed)

section Settle

variable {c : Config calls World ℕ WorkerControl} {f : Fate} {w' : World} {i : ℕ}
  {p : WorkerControl} {op : Op} {k : ℕ → Except Err op.Res → WorkerControl}
  {r : Except Err op.Res}

theorem Custody.settle_row (hinv : Custody id c)
    (hview : p.view lib i (target i) = .await op k)
    (hsettle : c.store.settle .exclusive f op = some (r, w')) :
    ∃ row, w'.transaction id = some row := by
  rcases worker_status id hview hsettle with hsame | ⟨old, new, -, hnew, -⟩
  · rw [hsame]
    exact hinv.row
  · exact ⟨new, hnew⟩

/-- The job of an attempt stays with it while another attempt moves. -/
theorem Custody.settle_held_other (hinv : Custody id c) (hproc : c.procs i = some p)
    (hview : p.view lib i (target i) = .await op k)
    (hsettle : c.store.settle .exclusive f op = some (r, w')) {j : ℕ} (hne : j ≠ i)
    {queued : TransactionJob} (hjob : c.store.job id = some queued)
    (hstate : queued.state = .active j) : w'.job id = some queued := by
  rcases worker_job id hview hsettle with hsame | hchange
  · exact hsame.trans hjob
  exfalso
  rw [hjob] at hchange
  generalize w'.job id = after at hchange
  cases hchange with
  | taken hid =>
      subst hid
      cases hview
      obtain ⟨other, hother, hwaiting⟩ := waiting_of_take hsettle
      obtain rfl := Option.some.inj (hjob.symm.trans hother)
      exact absurd (hstate.symm.trans hwaiting) nofun
  | acked hid =>
      obtain ⟨other, hother, hactive⟩ := hinv.held i _ _ hproc rfl hid
      obtain rfl := Option.some.inj (hjob.symm.trans hother)
      exact hne (JobState.active.inj (hstate.symm.trans hactive))
  | failed hid =>
      obtain ⟨other, hother, hactive⟩ := hinv.held i _ _ hproc rfl hid
      obtain rfl := Option.some.inj (hjob.symm.trans hother)
      exact hne (JobState.active.inj (hstate.symm.trans hactive))

theorem Custody.settle_held_self (hinv : Custody id c) (hproc : c.procs i = some p)
    (hview : p.view lib i (target i) = .await op k)
    (hsettle : c.store.settle .exclusive f op = some (r, w')) {job : TransactionJobData}
    (hholds : (k w'.clock r).holds = some job) (hid : job.transactionId = id) :
    ∃ queued, w'.job id = some queued ∧ queued.state = .active i := by
  have hnext := worker_step hview hsettle
  rcases hnext.holds_next hholds with hbefore | ⟨rfl, queued, hqueued, rfl⟩
  · obtain ⟨queued, hqueued, hstate⟩ := hinv.held i p job hproc hbefore hid
    rcases worker_job id hview hsettle with hsame | hchange
    · exact ⟨queued, hsame.trans hqueued, hstate⟩
    exfalso
    generalize k w'.clock r = q at hnext hholds
    generalize w'.job id = after at hchange
    generalize c.store.job id = before at hchange
    cases hchange with
    | taken => cases hbefore
    | acked =>
        cases hnext
        cases hholds
    | failed =>
        cases hnext
        cases hholds
  · have htarget : target i = id := by
      rw [← hid]
      exact (Table.key_of_lookup hqueued).symm
    subst htarget
    cases hview
    have hafter := World.answer_job c.store (.takeJob i (target i)) (target i)
    rw [settle_worker rfl hsettle, hqueued] at hafter
    exact ⟨_, hafter.trans (if_pos rfl), rfl⟩

/-- A worker seals a job only when its transaction is completed. -/
theorem Custody.settle_sealing (hinv : Custody id c) (hproc : c.procs i = some p)
    (hview : p.view lib i (target i) = .await op k)
    (hsettle : c.store.settle .exclusive f op = some (r, w'))
    {b : Config calls World ℕ WorkerControl}
    (hlegal : NoBusyGuard id (workers (ledger .exclusive) lib target) c (.settle i f) b)
    {job : TransactionJobData} (hsealing : (k w'.clock r).Sealing)
    (hholds : (k w'.clock r).holds = some job) (hid : job.transactionId = id) :
    Completed id w' := by
  have hkept : Completed id c.store → Completed id w' := fun h ↦ h.settle hview hsettle
  have hnext := worker_step hview hsettle
  obtain ⟨row, hrow⟩ := hinv.row
  rcases hnext.holds_next hholds with hbefore | ⟨rfl, -⟩
  · generalize hq : k w'.clock r = q at hnext hsealing hholds
    cases hnext with
    | absent hnone =>
        obtain rfl := Option.some.inj hbefore
        rw [hid] at hnone
        exact absurd (hrow.symm.trans hnone) nofun
    | foundCompleted hfound hcompleted hann =>
        obtain rfl := Option.some.inj hbefore
        exact hkept ⟨_, hid ▸ hfound, hcompleted⟩
    | @skipped job existing hstatus =>
        obtain rfl := Option.some.inj hbefore
        subst hid
        obtain ⟨hqueued, hfailed⟩ := hstatus row hrow
        have hrun : f = .run := by
          rcases World.settle_cases hsettle with ⟨-, hrun, -⟩ | ⟨e, hr, -⟩
          · exact hrun
          · cases hview
            rw [hr] at hq
            cases hq
        subst hrun
        have hpending : (workers (ledger .exclusive) lib target).pending c i = some op :=
          Pool.pending_of_view hproc hview
        cases hview
        have hbusy := hlegal i rfl hpending row hrow
        refine hkept ⟨row, hrow, ?_⟩
        cases hstatus : row.status with
        | completed => rfl
        | queued => exact absurd hstatus hqueued
        | failed => exact absurd hstatus hfailed
        | processing => exact absurd hstatus hbusy
    | completed hafter hann =>
        obtain rfl := Option.some.inj hbefore
        exact ⟨_, hid ▸ hafter, rfl⟩
    | announced =>
        exact hkept (hinv.sealing i _ job hproc trivial hbefore hid)
    | _ => exact hsealing.elim
  · generalize k w'.clock r = q at hnext hsealing
    cases hnext <;> exact hsealing.elim

theorem Custody.settle_acknowledged (hinv : Custody id c) (hproc : c.procs i = some p)
    (hview : p.view lib i (target i) = .await op k)
    (hsettle : c.store.settle .exclusive f op = some (r, w'))
    (hnone : w'.job id = none) : Completed id w' := by
  have hkept : Completed id c.store → Completed id w' := fun h ↦ h.settle hview hsettle
  rcases worker_job id hview hsettle with hsame | hchange
  · exact hkept (hinv.acknowledged (hsame.symm.trans hnone))
  rw [hnone] at hchange
  generalize c.store.job id = before at hchange
  cases hchange with
  | @acked data result job hid => exact hkept (hinv.sealing i _ data hproc trivial rfl hid)

theorem Custody.settle_silent (hinv : Custody id c) (hproc : c.procs i = some p)
    (hview : p.view lib i (target i) = .await op k)
    (hsettle : c.store.settle .exclusive f op = some (r, w')) {j count : ℕ} {q : WorkerControl}
    (hj : Function.update c.procs i (some (k w'.clock r)) j = some q)
    (hrunning : ∀ r, q ≠ .ended r) :
    handlerEvent id j count ∉ (⟨i, op, r⟩ : Event calls ℕ) :: c.log := by
  intro hmem
  rcases List.mem_cons.mp hmem with heq | hold
  · cases heq
    rw [Function.update_self] at hj
    obtain rfl := Option.some.inj hj
    cases p with
    | onFailed job =>
        cases hview
        exact hrunning _ rfl
    | _ => cases hview
  · rcases Pool.of_update_some hj with ⟨rfl, rfl⟩ | ⟨-, hj⟩
    · refine hinv.silent j p count hproc ?_ hold
      rintro r' rfl
      cases hview
    · exact hinv.silent j q count hj hrunning hold

/-- A failure handler that resolves leaves the row COMPLETED or FAILED. -/
theorem handled_status {count : ℕ} {w w' : World}
    (hsettle : w.settle .exclusive f (.transactionUpdateMany id (.not .completed) .failed) =
      some (.ok count, w')) (hrow : ∃ row, w.transaction id = some row) :
    ∃ row, w'.transaction id = some row ∧ (row.status = .completed ∨ row.status = .failed) := by
  obtain ⟨row, hrow⟩ := hrow
  have hafter := World.answer_transaction w
    (.transactionUpdateMany id (.not .completed) .failed) id
  rw [World.settle_ok hsettle, hrow] at hafter
  simp only [Op.onTransaction, if_true, Option.map_some] at hafter
  refine ⟨_, hafter, ?_⟩
  by_cases hholds : (StatusFilter.not .completed).holds row.status
  · rw [if_pos hholds]
    exact .inr rfl
  · rw [if_neg hholds]
    exact .inl (not_not.mp fun h ↦ hholds (holds_unfinished.mpr h))

theorem Custody.settle_exhausted (hinv : Custody id c) (hproc : c.procs i = some p)
    (hview : p.view lib i (target i) = .await op k)
    (hsettle : c.store.settle .exclusive f op = some (r, w')) {job : TransactionJob}
    {j count : ℕ} (hjob : w'.job id = some job) (hstate : job.state = .failed j)
    (hmem : handlerEvent id j count ∈ (⟨i, op, r⟩ : Event calls ℕ) :: c.log) :
    ∃ row, w'.transaction id = some row ∧ (row.status = .completed ∨ row.status = .failed) := by
  rcases List.mem_cons.mp hmem with heq | hold
  · cases heq
    exact handled_status hsettle hinv.row
  rcases worker_job id hview hsettle with hsame | hchange
  · have hjob' : c.store.job id = some job := hsame.symm.trans hjob
    obtain ⟨row, hrow, hstatus⟩ := hinv.exhausted job j count hjob' hstate hold
    rcases worker_status id hview hsettle with hkept | ⟨old, new, hold', hnew, hchange⟩
    · exact ⟨row, hkept.trans hrow, hstatus⟩
    cases hchange with
    | started hid =>
        obtain ⟨queued, hqueued, hactive⟩ := hinv.held i _ _ hproc rfl hid
        obtain rfl := Option.some.inj (hjob'.symm.trans hqueued)
        exact absurd (hstate.symm.trans hactive) nofun
    | completed hid => exact ⟨_, hnew, .inl rfl⟩
    | failed hid => exact ⟨_, hnew, .inr rfl⟩
  · rw [hjob] at hchange
    generalize c.store.job id = before at hchange
    cases hchange with
    | taken hid => cases hstate
    | @failed data error old hid =>
        have hij : i = j := by
          simp only [TransactionJob.failedBy] at hstate
          split at hstate
          · cases hstate
          · exact JobState.failed.inj hstate
        subst hij
        exact absurd hold (hinv.silent i _ count hproc nofun)

end Settle

theorem Custody.step {a b : Config calls World ℕ WorkerControl}
    {m : (ledger .exclusive).Moves}
    (hstep : (workers (ledger .exclusive) lib target).Step a m b)
    (hlegal : NoBusyGuard id (workers (ledger .exclusive) lib target) a m b)
    (hinv : Custody id a) : Custody id b := by
  cases hstep with
  | @settle i f p op k r w' hproc hview hsettle =>
      exact
        { row := hinv.settle_row hview hsettle
          held := by
            intro j q job hj hholds hid
            rcases Pool.of_update_some hj with ⟨rfl, rfl⟩ | ⟨hne, hj⟩
            · exact hinv.settle_held_self hproc hview hsettle hholds hid
            · obtain ⟨queued, hqueued, hactive⟩ := hinv.held j q job hj hholds hid
              exact ⟨queued, hinv.settle_held_other hproc hview hsettle hne hqueued hactive,
                hactive⟩
          sealing := by
            intro j q job hj hsealing hholds hid
            rcases Pool.of_update_some hj with ⟨rfl, rfl⟩ | ⟨-, hj⟩
            · exact hinv.settle_sealing hproc hview hsettle hlegal hsealing hholds hid
            · exact (hinv.sealing j q job hj hsealing hholds hid).settle hview hsettle
          acknowledged := hinv.settle_acknowledged hproc hview hsettle
          silent := fun j q count hj hrunning ↦
            hinv.settle_silent hproc hview hsettle hj hrunning
          exhausted := fun job j count hjob hstate ↦
            hinv.settle_exhausted hproc hview hsettle hjob hstate }
  | @crash i p op k hproc hview =>
      have hback : ∀ {job}, (a.store.crash i).job id = some job →
          ∃ queued, a.store.job id = some queued ∧ queued.stalledBy i = job := by
        intro job hjob
        rw [World.crash_job] at hjob
        exact Option.map_eq_some_iff.mp hjob
      exact
        { row := hinv.row
          held := by
            intro j q job hj hholds hid
            obtain ⟨hne, hj⟩ := Pool.of_update_none hj
            obtain ⟨queued, hqueued, hactive⟩ := hinv.held j q job hj hholds hid
            refine ⟨queued.stalledBy i, ?_, ?_⟩
            · exact (World.crash_job ..).trans (congrArg _ hqueued)
            · have hother : queued.state ≠ .active i := by
                rw [hactive]
                exact fun h ↦ hne (JobState.active.inj h)
              exact (if_neg hother).trans hactive
          sealing := fun j q job hj ↦ hinv.sealing j q job (Pool.of_update_none hj).2
          acknowledged := by
            intro hnone
            change (a.store.crash i).job id = none at hnone
            rw [World.crash_job, Option.map_eq_none_iff] at hnone
            exact hinv.acknowledged hnone
          silent := fun j q count hj ↦ hinv.silent j q count (Pool.of_update_none hj).2
          exhausted := by
            intro job j count hjob hstate
            obtain ⟨queued, hqueued, rfl⟩ := hback hjob
            apply hinv.exhausted queued j count hqueued
            simp only [TransactionJob.stalledBy] at hstate
            split at hstate
            · cases hstate
            · exact hstate }
  | @drift dr w' hdrift =>
      obtain rfl := Option.some.inj hdrift
      have hkept : Completed id a.store → Completed id (a.store.drift dr) := by
        rintro ⟨row, hrow, hstatus⟩
        exact ⟨row, (World.drift_transaction ..).trans hrow, hstatus⟩
      exact
        { row := hinv.row.imp fun row hrow ↦ (World.drift_transaction ..).trans hrow
          held := by
            intro j q job hj hholds hid
            obtain ⟨queued, hqueued, hactive⟩ := hinv.held j q job hj hholds hid
            exact ⟨queued, (World.drift_job ..).trans hqueued, hactive⟩
          sealing := fun j q job hj hsealing hholds hid ↦
            hkept (hinv.sealing j q job hj hsealing hholds hid)
          acknowledged := fun hnone ↦
            hkept (hinv.acknowledged ((World.drift_job ..).symm.trans hnone))
          silent := hinv.silent
          exhausted := by
            intro job j count hjob hstate hmem
            obtain ⟨row, hrow, hstatus⟩ :=
              hinv.exhausted job j count ((World.drift_job ..).symm.trans hjob) hstate hmem
            exact ⟨row, (World.drift_transaction ..).trans hrow, hstatus⟩ }

theorem custody_start {w : World} (hrow : ∃ row, w.transaction id = some row)
    (hjob : ∃ job, w.job id = some job ∧ job.state = .waiting) : Custody id (workersStart w) where
  row := hrow
  held i p job hproc hholds := by
    obtain rfl := Option.some.inj hproc
    cases hholds
  sealing i p job hproc hsealing := by
    obtain rfl := Option.some.inj hproc
    exact hsealing.elim
  acknowledged hnone := by
    obtain ⟨job, hsome, -⟩ := hjob
    exact absurd (hsome.symm.trans hnone) nofun
  silent i p count _ _ := List.not_mem_nil
  exhausted job i count hsome hfailed := by
    obtain ⟨job', hsome', hwaiting⟩ := hjob
    obtain rfl := Option.some.inj (hsome.symm.trans hsome')
    exact absurd (hwaiting.symm.trans hfailed) nofun

/-! ## The programs -/

theorem noBusyGuard_map {d : Delivery} {a b : Config calls World ℕ WorkerControl}
    {m : (ledger d).Moves}
    (h : NoBusyGuard id ((ledger d).programs Unit)
      (a.map fun i c ↦ c.code lib i (target i)) m (b.map fun i c ↦ c.code lib i (target i))) :
    NoBusyGuard id (workers (ledger d) lib target) a m b := by
  simp only [NoBusyGuard, (workers_implements (ledger d) lib target).pending_map] at h
  exact h

/-- In every run in which no guarded update meets a row that is PROCESSING, a job that
is finished for good has not stranded its transaction. -/
theorem notStranded_of_noBusyGuard (lib : DecimalLib) (target : ℕ → String) (id : String)
    {w : World} (hrow : ∃ row, w.transaction id = some row)
    (hjob : ∃ job, w.job id = some job ∧ job.state = .waiting)
    {c : Config calls World ℕ (Promise Unit)}
    (h : ((ledger .exclusive).programs Unit).Reachable
      (NoBusyGuard id ((ledger .exclusive).programs Unit)) (attempts lib target w) c) :
    NotStranded target id ((ledger .exclusive).programs Unit) c := by
  have himpl := workers_implements (ledger .exclusive) lib target
  rw [← map_workersStart] at h
  obtain ⟨b, rfl, hb⟩ := himpl.lift h
  have hinv := hb.invariant (Custody id) (custody_start hrow hjob) fun _ hstep hlegal hinv ↦
    hinv.step hstep (noBusyGuard_map hlegal)
  exact
    { acknowledged := fun _ ↦ hinv.acknowledged
      exhausted := fun _ ↦ hinv.exhausted }

/-- Attempt 0 fails to announce the transaction, and attempt 1 succeeds. -/
def announceOnRetry : List (ledger .exclusive).Moves :=
  [.settle 0 .run, .settle 0 .run, .settle 0 .run, .settle 0 .run,
    .settle 0 (.lost (.error "timeout")), .settle 0 .run, .settle 0 .run, .settle 1 .run,
    .settle 1 .run, .settle 1 .run, .settle 1 .run]

/-- Whether a settling process is at a guarded update, decided on what it awaits. -/
def guardsBusy (id : String) {d : Delivery} {α P : Type} (L : Pool (ledger d) α P)
    (a : Config calls World ℕ P) : (ledger d).Moves → Bool
  | .settle i _ => match L.pending a i with
      | some (.transactionUpdateMany _ _ .processing) =>
          match a.store.transaction id with
          | some row => row.status = .processing
          | none => false
      | _ => false
  | _ => false

theorem noBusyGuard_of_check {d : Delivery} {α P : Type} {L : Pool (ledger d) α P}
    {a b : Config calls World ℕ P} {m : (ledger d).Moves} (h : guardsBusy id L a m = false) :
    NoBusyGuard id L a m b := by
  rintro i rfl hpending row hrow hstatus
  simp [guardsBusy, hpending, hrow, hstatus] at h

theorem notStranded_announceOnRetry :
    NotStranded (fun _ ↦ "t") "t" ((ledger .exclusive).programs Unit)
      (((ledger .exclusive).programs Unit).played
        (fun a m _ ↦ !guardsBusy "t" ((ledger .exclusive).programs Unit) a m)
        (attempts oneDollar (fun _ ↦ "t") (.enqueued "t")) announceOnRetry) :=
  notStranded_of_noBusyGuard _ _ _ ⟨_, rfl⟩ ⟨_, rfl, rfl⟩
    (Pool.reachable_played (fun _ _ _ h ↦ noBusyGuard_of_check (by simpa using h)) rfl)

/-- Attempt 0 crashes between the two updates; attempt 1 takes the row for somebody
else's work. -/
def crashBetweenUpdates : List (ledger .exclusive).Moves :=
  [.settle 0 .run, .settle 0 .run, .settle 0 .run, .crash 0, .settle 1 .run, .settle 1 .run,
    .settle 1 .run, .settle 1 .run]

theorem stranded_crashBetweenUpdates :
    ¬∀ c, ((ledger .exclusive).programs Unit).Reachable ((ledger .exclusive).programs Unit).anyMove
      (attempts oneDollar (fun _ ↦ "t") (.enqueued "t")) c →
        NotStranded (fun _ ↦ "t") "t" ((ledger .exclusive).programs Unit) c := by
  intro h
  have hreach : ((ledger .exclusive).programs Unit).Reachable
      ((ledger .exclusive).programs Unit).anyMove (attempts oneDollar (fun _ ↦ "t") (.enqueued "t"))
      (((ledger .exclusive).programs Unit).played (fun _ _ _ ↦ true)
        (attempts oneDollar (fun _ ↦ "t") (.enqueued "t")) crashBetweenUpdates) :=
    Pool.reachable_played (fun _ _ _ _ ↦ trivial) rfl
  have hsettled : Settled (fun _ ↦ "t") "t" ((ledger .exclusive).programs Unit)
      (((ledger .exclusive).programs Unit).played (fun _ _ _ ↦ true)
        (attempts oneDollar (fun _ ↦ "t") (.enqueued "t")) crashBetweenUpdates) := by
    intro i op _ hpending
    rcases hreach.untouched_or_started i with hsame | hnone | ⟨e, he, hei⟩
    · rw [Pool.pending, hsame] at hpending
      exact ⟨i, "t", (Option.some.inj hpending).symm⟩
    · rw [Pool.pending, hnone] at hpending
      cases hpending
    · have hlow : ∀ e ∈ (((ledger .exclusive).programs Unit).played (fun _ _ _ ↦ true)
          (attempts oneDollar (fun _ ↦ "t") (.enqueued "t")) crashBetweenUpdates).log,
          e.proc < 2 := by decide
      have hi : i < 2 := hei ▸ hlow e he
      obtain rfl | rfl : i = 0 ∨ i = 1 := by omega
      · cases hpending
      · cases hpending
  obtain ⟨row, hrow, hstatus⟩ := (h _ hreach).acknowledged hsettled rfl
  cases hrow
  cases hstatus

end TransactionLedger
