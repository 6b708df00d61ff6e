import TransactionLedger.Transaction.Exclusion

/-!
# A notification announces a final transaction

Workers never take a transaction out of COMPLETED, and a worker announces only
what it has just read or written as COMPLETED.
-/

namespace TransactionLedger

open Async Data TransactionProcessor

def Completed (id : String) (w : World) : Prop :=
  ∃ row, w.transaction id = some row ∧ row.status = .completed

theorem completed_of_status {id : String} {w : World}
    (h : (w.transaction id).map Transaction.status = some .completed) : Completed id w :=
  Option.map_eq_some_iff.mp h

/-- A notification has been queued only for a completed transaction, which stays so. -/
structure AnnouncesFinal (id : String) {d : Delivery} {α P : Type} (L : Pool (ledger d) α P)
    (c : Config calls World ℕ P) : Prop where
  announced : ∀ notification, c.store.notification (notificationJobId id) = some notification →
    Completed id c.store
  final : ∀ m b, L.step c m = some b → Completed id c.store → Completed id b.store

variable {lib : DecimalLib} {target : ℕ → String} {d : Delivery} {id : String}

theorem jobId_of_notificationFor {row : Transaction} {fromAccount toAccount : Option Json}
    {notification : NotificationJob}
    (h : notificationFor lib row fromAccount toAccount = some notification) :
    notification.jobId = notificationJobId row.id := by
  simp only [notificationFor] at h
  split at h
  · cases h
  · split at h <;> cases h
    rfl

theorem jobId_of_announcing {job job' : TransactionJobData} {row row' : Transaction}
    {notification : NotificationJob}
    (h : WorkerControl.announcing lib job row = .announce job' notification row') :
    notification.jobId = notificationJobId row.id := by
  simp only [WorkerControl.announcing] at h
  cases hfor : notificationFor lib row job.dto.fromAccount job.dto.toAccount with
  | none =>
      rw [hfor] at h
      cases h
  | some found =>
      rw [hfor] at h
      cases h
      exact jobId_of_notificationFor hfor

section Settle

variable {c : Config calls World ℕ WorkerControl} {w w' : World} {f : Fate} {i : ℕ}
  {p : WorkerControl} {op : Op} {k : ℕ → Except Err op.Res → WorkerControl}
  {r : Except Err op.Res}

/-- No call of a worker takes a transaction out of COMPLETED. -/
theorem Completed.settle {target : String} (h : Completed id w)
    (hview : p.view lib i target = .await op k) (hsettle : w.settle d f op = some (r, w')) :
    Completed id w' := by
  obtain ⟨row, hrow, hstatus⟩ := h
  rcases worker_status id hview hsettle with hsame | ⟨old, new, hold, hnew, hchange⟩
  · exact ⟨row, hsame.trans hrow, hstatus⟩
  obtain rfl := Option.some.inj (hrow.symm.trans hold)
  cases hchange with
  | started hid hretryable =>
      rw [hstatus] at hretryable
      rcases hretryable with h | h <;> cases h
  | completed hid => exact ⟨_, hnew, rfl⟩
  | failed hid hunfinished => exact absurd hstatus hunfinished

/-- A worker about to announce a transaction has seen it completed. -/
theorem WorkerStep.announced_completed {target : String} {job : TransactionJobData}
    {notification : NotificationJob} {transaction : Transaction}
    (h : WorkerStep lib target w w' p (.announce job notification transaction))
    (hjobId : notification.jobId = notificationJobId id) : Completed id w ∨ Completed id w' := by
  cases h with
  | @foundCompleted job' row _ hrow hcompleted hq =>
      have hid : row.id = job'.transactionId := Table.key_of_lookup hrow
      have hrowid : row.id = id :=
        notificationJobId_injective ((jobId_of_announcing hq).symm.trans hjobId)
      exact .inl ⟨row, by rw [← hrowid, hid]; exact hrow, hcompleted⟩
  | @completed job' row _ hafter hq =>
      have hid : ({ row with status := .completed } : Transaction).id = job'.transactionId :=
        Table.key_of_lookup hafter
      change row.id = _ at hid
      have hrowid : row.id = id :=
        notificationJobId_injective ((jobId_of_announcing hq).symm.trans hjobId)
      exact .inr ⟨_, by rw [← hrowid, hid]; exact hafter, rfl⟩

end Settle

/-- Whatever is announced, or about to be, is completed. -/
structure Announcement (id : String) (c : Config calls World ℕ WorkerControl) : Prop where
  queued : ∀ notification, c.store.notification (notificationJobId id) = some notification →
    Completed id c.store
  pending : ∀ i job notification transaction,
    c.procs i = some (.announce job notification transaction) →
      notification.jobId = notificationJobId id → Completed id c.store

theorem Announcement.step {a b : Config calls World ℕ WorkerControl} {m : (ledger d).Moves}
    (hstep : (workers (ledger d) lib target).Step a m b) (hinv : Announcement id a) :
    Announcement id b := by
  cases hstep with
  | @settle i f p op k r w' hproc hview hsettle =>
      have hkept : Completed id a.store → Completed id w' := fun h ↦ h.settle hview hsettle
      constructor
      · intro notification hnotification
        rcases worker_notification (notificationJobId id) hview hsettle with
          hsame | ⟨job, found, transaction, rfl, hjobId⟩
        · exact hkept (hinv.queued notification (hsame.symm.trans hnotification))
        · exact hkept (hinv.pending i job found transaction hproc hjobId)
      · intro j job notification transaction hj hjobId
        rcases Pool.of_update_some hj with ⟨rfl, hq⟩ | ⟨-, hj⟩
        · have hannounced := worker_step hview hsettle
          change WorkerStep lib (target j) a.store w' p (k w'.clock r) at hannounced
          change _ = k w'.clock r at hq
          rw [← hq] at hannounced
          rcases hannounced.announced_completed hjobId with hbefore | hafter
          · exact hkept hbefore
          · exact hafter
        · exact hkept (hinv.pending j job notification transaction hj hjobId)
  | crash hproc hview =>
      exact
        { queued := by
            intro notification hnotification
            obtain ⟨old, hold, -⟩ := Option.map_eq_some_iff.mp
              ((World.crash_notification ..).symm.trans hnotification)
            exact hinv.queued old hold
          pending := fun j job notification transaction hj ↦
            hinv.pending j job notification transaction (Pool.of_update_none hj).2 }
  | @drift dr w' hdrift =>
      obtain rfl := Option.some.inj hdrift
      have hkept : Completed id a.store → Completed id (a.store.drift dr) := by
        rintro ⟨row, hrow, hstatus⟩
        exact ⟨row, (World.drift_transaction ..).trans hrow, hstatus⟩
      exact
        { queued := fun notification h ↦
            hkept (hinv.queued notification ((World.drift_notification ..).symm.trans h))
          pending := fun j job notification transaction hj hjobId ↦
            hkept (hinv.pending j job notification transaction hj hjobId) }

theorem Completed.step {a b : Config calls World ℕ WorkerControl} {m : (ledger d).Moves}
    (hstep : (workers (ledger d) lib target).Step a m b) (h : Completed id a.store) :
    Completed id b.store := by
  cases hstep with
  | settle hproc hview hsettle => exact h.settle hview hsettle
  | crash hproc hview => exact h
  | @drift dr w' hdrift =>
      obtain rfl := Option.some.inj hdrift
      obtain ⟨row, hrow, hstatus⟩ := h
      exact ⟨row, (World.drift_transaction ..).trans hrow, hstatus⟩

/-! ## The programs -/

/-- In every run of attempts and failure handlers, a queued notification announces a
completed transaction, and a completed transaction stays completed. -/
theorem announcesFinal_of_reachable (lib : DecimalLib) (target : ℕ → String) (d : Delivery)
    (id : String) {w : World} (hnone : w.notification (notificationJobId id) = none)
    {c : Config calls World ℕ (Promise Unit)}
    (h : ((ledger d).programs Unit).Reachable ((ledger d).programs Unit).anyMove
      (attempts lib target w) c) : AnnouncesFinal id ((ledger d).programs Unit) c := by
  have himpl := workers_implements (ledger d) lib target
  rw [← map_workersStart] at h
  obtain ⟨b, rfl, hb⟩ := himpl.lift h
  have hstart : Announcement id (workersStart w) := by
    constructor
    · intro notification hnotification
      exact absurd (hnone.symm.trans hnotification) nofun
    · intro i job notification transaction hi
      cases hi
  have hinv := hb.invariant (Announcement id) hstart fun _ hstep _ hinv ↦ hinv.step hstep
  refine { announced := hinv.queued, final := ?_ }
  intro m c' hstep hcompleted
  rw [himpl.step_map] at hstep
  obtain ⟨b', hb', rfl⟩ := Option.map_eq_some_iff.mp hstep
  exact Completed.step (Pool.step_cases hb') hcompleted

/-- Attempt 0 announces the transaction and crashes before it acknowledges the job;
attempt 1 runs the job again. -/
def announceTwice : List (ledger .exclusive).Moves :=
  [.settle 0 .run, .settle 0 .run, .settle 0 .run, .settle 0 .run, .settle 0 .run, .crash 0,
    .settle 1 .run, .settle 1 .run, .settle 1 .run]

theorem announcesFinal_announceTwice :
    AnnouncesFinal "t" ((ledger .exclusive).programs Unit)
      (((ledger .exclusive).programs Unit).played (fun _ _ _ ↦ true)
        (attempts oneDollar (fun _ ↦ "t") (.enqueued "t")) announceTwice) :=
  announcesFinal_of_reachable _ _ _ _ rfl (Pool.reachable_played (fun _ _ _ _ ↦ trivial) rfl)

end TransactionLedger
