import TransactionLedger.Transaction.Stranding

/-!
# The outcome of `createTransaction`

Its two writes and the compensation are not atomic: a write that takes effect and
then throws, or a compensation that is lost, leaves the ledger and the queue in
disagreement.  With such faults put aside, a call that throws has never let a
worker touch its transaction.
-/

namespace TransactionLedger

open Async Data TransactionService

/-! ## One call -/

/-- Where the outcome of a call leads `createTransaction`.  The last fault of the
call matters, so the fate is an index. -/
inductive CreateStep (transactionId : String) (f : Fate) (w w' : World) :
    CreateControl → CreateControl → Prop where
  | created {amount : ℚ} {row : Transaction} (hid : row.id = transactionId)
      (hstatus : row.status = .queued) (hafter : w'.transaction transactionId = some row) :
      CreateStep transactionId f w w' (.create amount) (.add row)
  | createFailed {amount : ℚ} {e : Err} (hkept : (∀ e, f ≠ .torn e) → w' = w) :
      CreateStep transactionId f w w' (.create amount) (.settled (.error e))
  | added {row : Transaction} (hjob : w'.job transactionId ≠ none) :
      CreateStep transactionId f w w' (.add row) (.settled (.ok ⟨row.id, row.status⟩))
  | addFailed {row : Transaction} {e : Err} (hkept : (∀ e, f ≠ .torn e) → w' = w) :
      CreateStep transactionId f w w' (.add row) (.compensate row e)
  | compensated {row : Transaction} {error e : Err}
      (hfailed : (∀ e, f ≠ .lost e) → ∀ new, w'.transaction transactionId = some new →
        new.status = .failed) :
      CreateStep transactionId f w w' (.compensate row error) (.settled (.error e))

section

variable {d : Delivery} {f : Fate} {w w' : World} {op : Op} {transactionId id : String}
  {dto : CreateTransactionDto} {c : CreateControl} {k : ℕ → Except Err op.Res → CreateControl}
  {r : Except Err op.Res}

theorem kept_of_error {e : Err} (h : w.settle d f op = some (.error e, w')) :
    (∀ e, f ≠ .torn e) → w' = w := by
  intro hwhole
  rcases World.settle_error h with hkept | ⟨e', htorn⟩
  · exact hkept
  · exact absurd htorn (hwhole e')

theorem create_step (hview : c.view transactionId dto = .await op k)
    (hsettle : w.settle d f op = some (r, w')) :
    CreateStep transactionId f w w' c (k w'.clock r) := by
  cases c with
  | create amount =>
      cases hview
      rcases r with e | row
      · exact .createFailed (kept_of_error hsettle)
      · obtain ⟨hrow, hafter⟩ := World.transaction_of_create (World.settle_ok hsettle)
        obtain ⟨hid, hstatus, -⟩ := TransactionData.of_row hrow
        have hid : row.id = transactionId := hid
        exact .created hid hstatus (hid ▸ hafter)
  | add row =>
      cases hview
      rcases r with e | _
      · exact .addFailed (kept_of_error hsettle)
      · refine .added fun hnone ↦ ?_
        have hafter := World.answer_job w (.transactionQueueAdd ⟨transactionId, dto⟩) transactionId
        rw [World.settle_ok hsettle, hnone] at hafter
        simp only [Op.onJob, if_true] at hafter
        cases hjob : w.job transactionId <;> rw [hjob] at hafter <;> cases hafter
  | compensate row error =>
      cases hview
      have hfailed : (∀ e, f ≠ .lost e) → ∀ new, w'.transaction transactionId = some new →
          new.status = .failed := by
        intro heffect new hnew
        have hw : w' = (w.answer (.transactionUpdate transactionId .failed)).2 := by
          rcases World.settle_cases hsettle with
            ⟨hrun, -, -⟩ | ⟨e, -, -, -, ⟨hlost, -⟩ | ⟨-, hw⟩⟩
          · rw [hrun]
          · exact absurd hlost (heffect e)
          · exact hw
        rw [hw, World.answer_transaction] at hnew
        simp only [Op.onTransaction, if_true, Option.map_eq_some_iff] at hnew
        obtain ⟨old, -, rfl⟩ := hnew
        rfl
      rcases r with e | _
      · exact .compensated hfailed
      · exact .compensated hfailed
  | settled r => cases hview

/-- `createTransaction` touches no transaction but its own. -/
theorem create_other (hview : c.view transactionId dto = .await op k)
    (hsettle : w.settle d f op = some (r, w')) (hne : transactionId ≠ id) :
    w'.transaction id = w.transaction id ∧ w'.job id = w.job id := by
  cases c with
  | create amount =>
      cases hview
      constructor
      · rcases World.settle_transaction hsettle id with hsame | heffect
        · exact hsame
        · rw [heffect]
          simp only [Op.onTransaction]
          cases hrow : (newTransaction transactionId dto amount).row with
          | none => rfl
          | some row => exact if_neg ((TransactionData.of_row hrow).1 ▸ hne)
      · rcases World.settle_job hsettle id with hsame | heffect
        · exact hsame
        · exact heffect
  | add row =>
      cases hview
      constructor
      · rcases World.settle_transaction hsettle id with hsame | heffect
        · exact hsame
        · exact heffect
      · rcases World.settle_job hsettle id with hsame | heffect
        · exact hsame
        · exact heffect.trans (if_neg hne)
  | compensate row error =>
      cases hview
      constructor
      · rcases World.settle_transaction hsettle id with hsame | heffect
        · exact hsame
        · exact heffect.trans (if_neg hne)
      · rcases World.settle_job hsettle id with hsame | heffect
        · exact hsame
        · exact heffect
  | settled r => cases hview

/-- Short of an enqueuing that takes effect, `createTransaction` puts no job in the
queue and leaves its row QUEUED or FAILED. -/
theorem create_untouched (hview : c.view transactionId dto = .await op k)
    (hsettle : w.settle d f op = some (r, w')) (hadd : ∀ row, c = .add row → w' = w)
    (hjob : w.job transactionId = none)
    (hstatus : ∀ row, w.transaction transactionId = some row →
      row.status = .queued ∨ row.status = .failed) :
    w'.job transactionId = none ∧ ∀ row, w'.transaction transactionId = some row →
      row.status = .queued ∨ row.status = .failed := by
  cases c with
  | create amount =>
      cases hview
      constructor
      · rcases World.settle_job hsettle transactionId with hsame | heffect
        · exact hsame.trans hjob
        · exact heffect.trans hjob
      · intro row hrow
        rcases World.settle_transaction hsettle transactionId with hsame | heffect
        · exact hstatus row (hsame.symm.trans hrow)
        rw [heffect] at hrow
        simp only [Op.onTransaction] at hrow
        cases hdata : (newTransaction transactionId dto amount).row with
        | none =>
            rw [hdata] at hrow
            exact hstatus row hrow
        | some new =>
            obtain ⟨hid, hqueued, -⟩ := TransactionData.of_row hdata
            have hid : new.id = transactionId := hid
            rw [hdata] at hrow
            simp only [if_pos hid] at hrow
            cases hold : w.transaction transactionId with
            | none =>
                rw [hold] at hrow
                obtain rfl := Option.some.inj hrow
                exact .inl hqueued
            | some old =>
                rw [hold] at hrow
                obtain rfl := Option.some.inj hrow
                exact hstatus old hold
  | add row =>
      obtain rfl := hadd row rfl
      exact ⟨hjob, hstatus⟩
  | compensate row error =>
      cases hview
      constructor
      · rcases World.settle_job hsettle transactionId with hsame | heffect
        · exact hsame.trans hjob
        · exact heffect.trans hjob
      · intro new hnew
        rcases World.settle_transaction hsettle transactionId with hsame | heffect
        · exact hstatus new (hsame.symm.trans hnew)
        rw [heffect] at hnew
        simp only [Op.onTransaction, if_true, Option.map_eq_some_iff] at hnew
        obtain ⟨old, -, rfl⟩ := hnew
        exact .inr rfl
  | settled r => cases hview

end

/-- The attempt works on the transaction, or is about to mark it as failed. -/
def WorkerControl.Concerns (id : String) : WorkerControl → Prop
  | .onFailed job => job.transactionId = id
  | p => ∃ job, p.holds = some job ∧ job.transactionId = id

theorem WorkerControl.concerns_of_holds {id : String} {p : WorkerControl}
    {job : TransactionJobData} (hp : p.holds = some job) (hid : job.transactionId = id) :
    p.Concerns id := by
  cases p with
  | onFailed job => cases hp
  | _ => exact ⟨job, hp, hid⟩

/-- Without a job in the queue, workers neither take up a transaction nor change it. -/
theorem worker_untouched {lib : DecimalLib} {target id : String} {d : Delivery} {f : Fate}
    {w w' : World} {i : ℕ} {c : WorkerControl} {op : Op}
    {k : ℕ → Except Err op.Res → WorkerControl} {r : Except Err op.Res}
    (hview : c.view lib i target = .await op k) (hsettle : w.settle d f op = some (r, w'))
    (hjob : w.job id = none) (hidle : ¬c.Concerns id) :
    w'.job id = none ∧ w'.transaction id = w.transaction id ∧
      ¬(k w'.clock r).Concerns id := by
  refine ⟨?_, ?_, ?_⟩
  · rcases worker_job id hview hsettle with hsame | hchange
    · exact hsame.trans hjob
    · rw [hjob] at hchange
      generalize w'.job id = after at hchange
      cases hchange
  · rcases worker_status id hview hsettle with hsame | ⟨old, new, -, -, hchange⟩
    · exact hsame
    · exfalso
      cases hchange with
      | started hid | completed hid => exact hidle ⟨_, rfl, hid⟩
      | failed hid => exact hidle hid
  · intro hconcerns
    have hnext := worker_step hview hsettle
    generalize k w'.clock r = q at hnext hconcerns
    have hheld : ∀ job, q.holds = some job → job.transactionId ≠ id := by
      intro job hholds hid
      rcases hnext.holds_next hholds with hbefore | ⟨-, queued, hqueued, rfl⟩
      · exact hidle (WorkerControl.concerns_of_holds hbefore hid)
      · have htarget : target = id := by
          rw [← hid]
          exact (Table.key_of_lookup hqueued).symm
        rw [htarget, hjob] at hqueued
        cases hqueued
    cases q with
    | onFailed job =>
        generalize hq : WorkerControl.onFailed job = q at hnext
        cases hnext with
        | failed =>
            cases hq
            exact hidle ⟨job, rfl, hconcerns⟩
        | @foundCompleted job' row _ _ _ hann =>
            have hholds := WorkerControl.holds_announcing lib job' row
            rw [hann, ← hq] at hholds
            cases hholds
        | @completed job' row _ _ hann =>
            have hholds := WorkerControl.holds_announcing lib job' { row with status := .completed }
            rw [hann, ← hq] at hholds
            cases hholds
        | _ => cases hq
    | _ =>
        obtain ⟨job, hholds, hid⟩ := hconcerns
        exact hheld job hholds hid

/-! ## The property -/

def addEvent (i : ℕ) (data : TransactionJobData) : Event calls ℕ :=
  ⟨i, .transactionQueueAdd data, .ok ()⟩

def ackEvent (i : ℕ) (transactionId : String) : Event calls ℕ :=
  ⟨i, .completeJob transactionId, .ok ()⟩

/-- An event of another process is not the enqueuing of this one. -/
theorem addEvent_ne {i j : ℕ} {data : TransactionJobData} {op : Op} {r : Except Err op.Res}
    (hne : j ≠ i) : addEvent i data ≠ (⟨j, op, r⟩ : Event calls ℕ) := by
  intro heq
  cases heq
  exact hne rfl

theorem mem_add_cons {i : ℕ} {data : TransactionJobData} {e : Event calls ℕ}
    {log : List (Event calls ℕ)} (hne : addEvent i data ≠ e) :
    addEvent i data ∈ e :: log ↔ addEvent i data ∈ log := by
  rw [List.mem_cons, or_iff_right hne]

namespace Backend

variable {back : Backend} {d : Delivery} {i : ℕ} {dto : CreateTransactionDto}

/-- The outcome of the `createTransaction` in process `i` agrees with the stores. -/
structure OutcomeAgrees (back : Backend) (i : ℕ) (dto : CreateTransactionDto) {P : Type}
    (L : Pool (ledger d) BackendOutcome P) (c : Config calls World ℕ P) : Prop where
  returned : ∀ result, L.result c i = some (.ok result) →
    (∃ row, c.store.transaction (back.transactionId i) = some row) ∧
      addEvent i ⟨back.transactionId i, dto⟩ ∈ c.log ∧
      (c.store.job (back.transactionId i) ≠ none ∨
        ∃ j, ackEvent j (back.transactionId i) ∈ c.log)
  threw : ∀ e, L.result c i = some (.error e) →
    (∀ row, c.store.transaction (back.transactionId i) = some row → row.status = .failed) ∧
      c.store.job (back.transactionId i) = none
  compensation : ∀ f b, L.step c (.settle i f) = some b →
    L.pending c i = some (.transactionUpdate (back.transactionId i) .failed) →
      Completed (back.transactionId i) c.store → Completed (back.transactionId i) b.store

/-- No insertion or enqueuing of process `i` takes effect and throws, and its
compensation is not lost. -/
def WholeWrites (i : ℕ) {P : Type} (L : Pool (ledger d) BackendOutcome P)
    (a : Config calls World ℕ P) (m : (ledger d).Moves) (_ : Config calls World ℕ P) : Prop :=
  (∀ e, m = .settle i (Fate.torn e) → ∀ data, L.pending a i ≠ some (.transactionCreate data)) ∧
  (∀ e, m = .settle i (Fate.torn e) → ∀ data, L.pending a i ≠ some (.transactionQueueAdd data)) ∧
  ∀ e, m = .settle i (Fate.lost e) → ∀ id, L.pending a i ≠ some (.transactionUpdate id .failed)

/-! ## The invariant -/

/-- No worker has ever had the job of the transaction. -/
structure Untouched (id : String) (c : Config calls World ℕ BackendControl) : Prop where
  job : c.store.job id = none
  workers : ∀ j target p, c.procs j = some (.working target p) → ¬p.Concerns id
  status : ∀ row, c.store.transaction id = some row →
    row.status = .queued ∨ row.status = .failed

/-- What a control point of the creator promises. -/
def Promises (id : String) (added : Prop) (w : World) : CreateControl → Prop
  | .create _ => ¬added ∧ w.transaction id = none
  | .add _ => ¬added ∧ ∃ row, w.transaction id = some row
  | .compensate .. => ¬added
  | .settled (.ok _) => added
  | .settled (.error _) => ¬added ∧
      ∀ row, w.transaction id = some row → row.status = .failed

structure Creation (back : Backend) (i : ℕ) (dto : CreateTransactionDto)
    (c : Config calls World ℕ BackendControl) : Prop where
  creating : ∀ p, c.procs i = some p → ∃ q, p = .creating dto q ∧
    Promises (back.transactionId i) (addEvent i ⟨back.transactionId i, dto⟩ ∈ c.log) c.store q
  untouched : addEvent i ⟨back.transactionId i, dto⟩ ∉ c.log →
    Untouched (back.transactionId i) c
  added : addEvent i ⟨back.transactionId i, dto⟩ ∈ c.log →
    (∃ row, c.store.transaction (back.transactionId i) = some row) ∧
      (c.store.job (back.transactionId i) ≠ none ∨
        ∃ j, ackEvent j (back.transactionId i) ∈ c.log)

theorem Promises.kept {id : String} {added added' : Prop} {w w' : World} {q : CreateControl}
    (h : Promises id added w q) (hiff : added ↔ added')
    (hrow : ¬added → w'.transaction id = w.transaction id) : Promises id added' w' q := by
  cases q with
  | create amount => exact ⟨fun h' ↦ h.1 (hiff.mpr h'), (hrow h.1).trans h.2⟩
  | add row =>
      obtain ⟨hnot, row, hsome⟩ := h
      exact ⟨fun h' ↦ hnot (hiff.mpr h'), row, (hrow hnot).trans hsome⟩
  | compensate row error => exact fun h' ↦ h (hiff.mpr h')
  | settled r =>
      cases r with
      | ok result => exact hiff.mp h
      | error e =>
          refine ⟨fun h' ↦ h.1 (hiff.mpr h'), fun row hsome ↦ h.2 row ?_⟩
          exact (hrow h.1).symm.trans hsome

section Settle

variable {c : Config calls World ℕ BackendControl} {f : Fate} {w' : World} {j : ℕ} {op : Op}
  {r : Except Err op.Res}

theorem Creation.settle_creator {dto' : CreateTransactionDto} {q : CreateControl}
    {k : ℕ → Except Err op.Res → CreateControl} (hinv : back.Creation i dto c) (hne : j ≠ i)
    (hview : q.view (back.transactionId j) dto' = .await op k)
    (hsettle : c.store.settle d f op = some (r, w')) :
    back.Creation i dto
      { store := w'
        procs := Function.update c.procs j (some (.creating dto' (k w'.clock r)))
        log := ⟨j, op, r⟩ :: c.log } := by
  have hid : back.transactionId j ≠ back.transactionId i :=
    fun h ↦ hne (back.transactionId_injective h)
  obtain ⟨hrow, hjob⟩ := create_other hview hsettle hid
  constructor
  · intro p hp
    have hkept : c.procs i = some p := (Function.update_of_ne hne.symm ..).symm.trans hp
    obtain ⟨q', rfl, hpromises⟩ := hinv.creating p hkept
    exact ⟨q', rfl, hpromises.kept (mem_add_cons (addEvent_ne hne)).symm fun _ ↦ hrow⟩
  · intro hnot
    have huntouched := hinv.untouched fun h ↦ hnot ((mem_add_cons (addEvent_ne hne)).mpr h)
    refine ⟨hjob.trans huntouched.job, ?_, fun row h ↦ huntouched.status row (hrow.symm.trans h)⟩
    intro n target p hp
    rcases Pool.of_update_some hp with ⟨-, hp⟩ | ⟨-, hp⟩
    · cases hp
    · exact huntouched.workers n target p hp
  · intro hadd
    obtain ⟨hsome, hqueued⟩ := hinv.added ((mem_add_cons (addEvent_ne hne)).mp hadd)
    refine ⟨hrow ▸ hsome, ?_⟩
    rcases hqueued with hqueued | ⟨n, hack⟩
    · exact .inl (hjob ▸ hqueued)
    · exact .inr ⟨n, List.mem_cons_of_mem _ hack⟩

theorem Creation.settle_worker {target : String} {q : WorkerControl}
    {k : ℕ → Except Err op.Res → WorkerControl} (hinv : back.Creation i dto c) (hne : j ≠ i)
    (hproc : c.procs j = some (.working target q))
    (hview : q.view back.lib j target = .await op k)
    (hsettle : c.store.settle d f op = some (r, w')) :
    back.Creation i dto
      { store := w'
        procs := Function.update c.procs j (some (.working target (k w'.clock r)))
        log := ⟨j, op, r⟩ :: c.log } := by
  have hidle : addEvent i ⟨back.transactionId i, dto⟩ ∉ c.log →
      w'.job (back.transactionId i) = none ∧
        w'.transaction (back.transactionId i) = c.store.transaction (back.transactionId i) ∧
          ¬(k w'.clock r).Concerns (back.transactionId i) := fun hnot ↦
    worker_untouched hview hsettle (hinv.untouched hnot).job
      ((hinv.untouched hnot).workers j target q hproc)
  constructor
  · intro p hp
    have hkept : c.procs i = some p := (Function.update_of_ne hne.symm ..).symm.trans hp
    obtain ⟨q', rfl, hpromises⟩ := hinv.creating p hkept
    refine ⟨q', rfl, hpromises.kept (mem_add_cons (addEvent_ne hne)).symm ?_⟩
    intro hnot
    exact (hidle hnot).2.1
  · intro hnot
    have hnot : addEvent i ⟨back.transactionId i, dto⟩ ∉ c.log :=
      fun h ↦ hnot ((mem_add_cons (addEvent_ne hne)).mpr h)
    have huntouched := hinv.untouched hnot
    obtain ⟨hjob, hrow, hconcerns⟩ := hidle hnot
    refine ⟨hjob, ?_, fun row h ↦ huntouched.status row (hrow.symm.trans h)⟩
    intro n target' p hp
    rcases Pool.of_update_some hp with ⟨-, hp⟩ | ⟨-, hp⟩
    · cases hp
      exact hconcerns
    · exact huntouched.workers n target' p hp
  · intro hadd
    obtain ⟨hsome, hqueued⟩ := hinv.added ((mem_add_cons (addEvent_ne hne)).mp hadd)
    refine ⟨World.transaction_persists hsettle hsome, ?_⟩
    rcases hqueued with hqueued | ⟨n, hack⟩
    · rcases worker_job (back.transactionId i) hview hsettle with hsame | hchange
      · exact .inl (hsame ▸ hqueued)
      · generalize c.store.job (back.transactionId i) = before at hchange
        generalize w'.job (back.transactionId i) = after at hchange ⊢
        cases hchange with
        | taken hid | failed hid => exact .inl nofun
        | @acked data result job hid =>
            right
            refine ⟨j, ?_⟩
            cases hview
            obtain ⟨rfl, -⟩ := Prod.mk.inj (settle_worker rfl hsettle)
            rw [← hid]
            exact List.mem_cons_self
    · exact .inr ⟨n, List.mem_cons_of_mem _ hack⟩

theorem creation_of_promises {q : CreateControl} {log : List (Event calls ℕ)}
    (hpromises : Promises (back.transactionId i)
      (addEvent i ⟨back.transactionId i, dto⟩ ∈ log) w' q)
    (huntouched : addEvent i ⟨back.transactionId i, dto⟩ ∉ log →
      w'.job (back.transactionId i) = none ∧
        (∀ n target p, c.procs n = some (.working target p) →
          ¬p.Concerns (back.transactionId i)) ∧
        ∀ row, w'.transaction (back.transactionId i) = some row →
          row.status = .queued ∨ row.status = .failed)
    (hadded : addEvent i ⟨back.transactionId i, dto⟩ ∈ log →
      (∃ row, w'.transaction (back.transactionId i) = some row) ∧
        w'.job (back.transactionId i) ≠ none) :
    back.Creation i dto
      { store := w'
        procs := Function.update c.procs i (some (.creating dto q))
        log := log } := by
  constructor
  · intro p hp
    rcases Pool.of_update_some hp with ⟨-, rfl⟩ | ⟨hne, -⟩
    · exact ⟨q, rfl, hpromises⟩
    · exact absurd rfl hne
  · intro hnot
    obtain ⟨hjob, hworkers, hstatus⟩ := huntouched hnot
    refine ⟨hjob, ?_, hstatus⟩
    intro n target p hp
    rcases Pool.of_update_some hp with ⟨-, hp⟩ | ⟨-, hp⟩
    · cases hp
    · exact hworkers n target p hp
  · intro hmem
    exact ⟨(hadded hmem).1, .inl (hadded hmem).2⟩

theorem Creation.settle_own {q : CreateControl} {k : ℕ → Except Err op.Res → CreateControl}
    (hinv : back.Creation i dto c) (hproc : c.procs i = some (.creating dto q))
    (hview : q.view (back.transactionId i) dto = .await op k)
    (hsettle : c.store.settle d f op = some (r, w'))
    (hcreate : ∀ data, op = .transactionCreate data → ∀ e, f ≠ .torn e)
    (hadd : ∀ data, op = .transactionQueueAdd data → ∀ e, f ≠ .torn e)
    (hcompensate : ∀ id, op = .transactionUpdate id .failed → ∀ e, f ≠ .lost e) :
    back.Creation i dto
      { store := w'
        procs := Function.update c.procs i (some (.creating dto (k w'.clock r)))
        log := ⟨i, op, r⟩ :: c.log } := by
  obtain ⟨q', hq', hpromises⟩ := hinv.creating _ hproc
  cases hq'
  have hquiet : addEvent i ⟨back.transactionId i, dto⟩ ∉ c.log →
      (∀ row, q = .add row → w' = c.store) →
      w'.job (back.transactionId i) = none ∧
        (∀ n target p, c.procs n = some (.working target p) →
          ¬p.Concerns (back.transactionId i)) ∧
        ∀ row, w'.transaction (back.transactionId i) = some row →
          row.status = .queued ∨ row.status = .failed := by
    intro hnot hkept
    have hbefore := hinv.untouched hnot
    obtain ⟨hjob, hstatus⟩ := create_untouched hview hsettle hkept hbefore.job hbefore.status
    exact ⟨hjob, hbefore.workers, hstatus⟩
  have hnext := create_step hview hsettle
  generalize hk : k w'.clock r = next at hnext
  cases q with
  | create amount =>
      have hnot : addEvent i ⟨back.transactionId i, dto⟩ ∉
          (⟨i, op, r⟩ : Event calls ℕ) :: c.log := by
        rw [mem_add_cons]
        · exact hpromises.1
        · intro heq
          cases heq
          cases hview
      refine creation_of_promises ?_ (fun _ ↦ hquiet hpromises.1 fun _ h ↦ by cases h)
        (fun h ↦ absurd h hnot)
      cases hnext with
      | created hid hstatus hafter => exact ⟨hnot, _, hafter⟩
      | createFailed hkept =>
          refine ⟨hnot, fun row hrow ↦ ?_⟩
          cases hview
          obtain rfl := hkept (hcreate _ rfl)
          exact absurd (hrow.symm.trans hpromises.2) nofun
  | add row =>
      cases hnext with
      | added hjob =>
          -- from here on a worker may have the job
          have hmem : addEvent i ⟨back.transactionId i, dto⟩ ∈
              (⟨i, op, r⟩ : Event calls ℕ) :: c.log := by
            cases hview
            rcases r with e | _
            · cases hk
            · exact List.mem_cons_self
          exact creation_of_promises hmem (fun h ↦ absurd hmem h)
            fun _ ↦ ⟨World.transaction_persists hsettle hpromises.2, hjob⟩
      | addFailed hkept =>
          have hnot : addEvent i ⟨back.transactionId i, dto⟩ ∉
              (⟨i, op, r⟩ : Event calls ℕ) :: c.log := by
            rw [mem_add_cons]
            · exact hpromises.1
            · intro heq
              cases heq
              cases hview
              cases hk
          have hsame : w' = c.store := by
            cases hview
            exact hkept (hadd _ rfl)
          exact creation_of_promises hnot (fun _ ↦ hquiet hpromises.1 fun _ _ ↦ hsame)
            fun h ↦ absurd h hnot
  | compensate row error =>
      have hnot : addEvent i ⟨back.transactionId i, dto⟩ ∉
          (⟨i, op, r⟩ : Event calls ℕ) :: c.log := by
        rw [mem_add_cons]
        · exact hpromises
        · intro heq
          cases heq
          cases hview
      refine creation_of_promises ?_ (fun _ ↦ hquiet hpromises fun _ h ↦ by cases h)
        (fun h ↦ absurd h hnot)
      cases hnext with
      | compensated hfailed =>
          cases hview
          exact ⟨hnot, hfailed (hcompensate _ rfl)⟩
  | settled r => cases hview

end Settle

theorem Creation.step {a b : Config calls World ℕ BackendControl} {m : (ledger d).Moves}
    (hstep : (back.control (ledger d)).Step a m b)
    (hlegal : WholeWrites i (back.control (ledger d)) a m b) (hinv : back.Creation i dto a) :
    back.Creation i dto b := by
  cases hstep with
  | @settle j f p op k r w' hproc hview hsettle =>
      have hpending : (back.control (ledger d)).pending a j = some op :=
        Pool.pending_of_view hproc hview
      cases p with
      | creating dto' q =>
          obtain ⟨k₀, hq, rfl⟩ := View.await_of_mapResult hview
          by_cases hji : j = i
          · subst hji
            obtain ⟨q', hq', -⟩ := hinv.creating _ hproc
            cases hq'
            refine hinv.settle_own hproc hq hsettle ?_ ?_ ?_
            · rintro data rfl e rfl
              exact hlegal.1 e rfl data hpending
            · rintro data rfl e rfl
              exact hlegal.2.1 e rfl data hpending
            · rintro id rfl e rfl
              exact hlegal.2.2 e rfl id hpending
          · exact hinv.settle_creator hji hq hsettle
      | working target q =>
          obtain ⟨k₀, hq, rfl⟩ := View.await_of_mapResult hview
          have hji : j ≠ i := by
            rintro rfl
            obtain ⟨q', hq', -⟩ := hinv.creating _ hproc
            cases hq'
          exact hinv.settle_worker hji hproc hq hsettle
  | @crash j p op k hproc hview =>
      constructor
      · intro q hq
        exact hinv.creating q (Pool.of_update_none hq).2
      · intro hnot
        have huntouched := hinv.untouched hnot
        refine ⟨?_, fun n target q hq ↦ huntouched.workers n target q (Pool.of_update_none hq).2,
          huntouched.status⟩
        exact (World.crash_job ..).trans (congrArg _ huntouched.job)
      · intro hadd
        obtain ⟨hrow, hqueued⟩ := hinv.added hadd
        refine ⟨hrow, hqueued.imp_left fun hjob hnone ↦ hjob ?_⟩
        change (a.store.crash j).job _ = none at hnone
        rwa [World.crash_job, Option.map_eq_none_iff] at hnone
  | @drift dr w' hdrift =>
      obtain rfl := Option.some.inj hdrift
      have hrow := World.drift_transaction a.store dr (back.transactionId i)
      have hjob := World.drift_job a.store dr (back.transactionId i)
      constructor
      · intro q hq
        obtain ⟨q', rfl, hpromises⟩ := hinv.creating q hq
        exact ⟨q', rfl, hpromises.kept Iff.rfl fun _ ↦ hrow⟩
      · intro hnot
        have huntouched := hinv.untouched hnot
        exact ⟨hjob.trans huntouched.job, huntouched.workers,
          fun row h ↦ huntouched.status row (hrow.symm.trans h)⟩
      · intro hadd
        obtain ⟨hsome, hqueued⟩ := hinv.added hadd
        exact ⟨hrow ▸ hsome, hqueued.imp_left fun h ↦ hjob ▸ h⟩

theorem creation_start (hrole : back.role i = .creator dto) {w : World}
    (hrow : w.transaction (back.transactionId i) = none)
    (hjob : w.job (back.transactionId i) = none) :
    back.Creation i dto (back.controlStart w) := by
  have habsent : ∀ row, w.transaction (back.transactionId i) ≠ some row := by
    intro row h
    cases hrow.symm.trans h
  constructor
  · intro p hp
    obtain rfl := Option.some.inj hp
    refine ⟨.initial back.lib dto, by simp only [initial, hrole], ?_⟩
    simp only [CreateControl.initial]
    cases back.lib.ofString dto.amount with
    | none => exact ⟨List.not_mem_nil, fun row h ↦ absurd h (habsent row)⟩
    | some amount => exact ⟨List.not_mem_nil, hrow⟩
  · intro _
    refine ⟨hjob, ?_, fun row h ↦ absurd h (habsent row)⟩
    intro j target p hj hconcerns
    have hp : BackendControl.working target p = back.initial j := (Option.some.inj hj).symm
    simp only [initial] at hp
    cases hkind : back.role j with
    | creator dto' =>
        rw [hkind] at hp
        cases hp
    | worker target' =>
        rw [hkind] at hp
        cases hp
        obtain ⟨job, hholds, -⟩ := hconcerns
        cases hholds
  · intro hadd
    cases hadd

/-- What the control point of the creator promises is what its caller observes. -/
theorem Creation.outcomeAgrees {c : Config calls World ℕ BackendControl}
    (hinv : back.Creation i dto c) : back.OutcomeAgrees i dto (back.control (ledger d)) c := by
  have hsettled : ∀ r, (back.control (ledger d)).result c i = some r →
      ∃ r', c.procs i = some (.creating dto (.settled r')) ∧ r = r'.map BackendOutcome.created := by
    intro r hr
    obtain ⟨p, hproc, hresult⟩ := Option.bind_eq_some_iff.mp hr
    obtain ⟨q, rfl, -⟩ := hinv.creating p hproc
    cases q with
    | settled r' => exact ⟨r', hproc, (Option.some.inj hresult).symm⟩
    | _ => cases hresult
  constructor
  · intro result hresult
    obtain ⟨r, hproc, hr⟩ := hsettled _ hresult
    obtain ⟨q, hq, hpromises⟩ := hinv.creating _ hproc
    cases hq
    cases r with
    | error e => cases hr
    | ok transaction =>
        obtain ⟨hrow, hjob⟩ := hinv.added hpromises
        exact ⟨hrow, hpromises, hjob⟩
  · intro e hresult
    obtain ⟨r, hproc, hr⟩ := hsettled _ hresult
    obtain ⟨q, hq, hpromises⟩ := hinv.creating _ hproc
    cases hq
    cases r with
    | ok transaction => cases hr
    | error e' => exact ⟨hpromises.2, (hinv.untouched hpromises.1).job⟩
  · intro f b hstep hpending hcompleted
    exfalso
    obtain ⟨p, hproc, hpending⟩ := Option.bind_eq_some_iff.mp hpending
    obtain ⟨q, rfl, hpromises⟩ := hinv.creating p hproc
    have hnot : addEvent i ⟨back.transactionId i, dto⟩ ∉ c.log := by
      cases q with
      | compensate row error => exact hpromises
      | _ => cases hpending
    obtain ⟨row, hrow, hstatus⟩ := hcompleted
    rcases (hinv.untouched hnot).status row hrow with h | h <;>
    · rw [hstatus] at h
      cases h

/-! ## The programs -/

theorem wholeWrites_map {a b : Config calls World ℕ BackendControl} {m : (ledger d).Moves}
    (h : WholeWrites i ((ledger d).programs BackendOutcome) (a.map back.code) m
      (b.map back.code)) : WholeWrites i (back.control (ledger d)) a m b := by
  simp only [WholeWrites, (back.control_implements (ledger d)).pending_map] at h
  exact h

def OutcomesAgree (back : Backend) (i : ℕ) (dto : CreateTransactionDto) {P : Type}
    (L : Pool (ledger d) BackendOutcome P)
    (legal : Config calls World ℕ P → (ledger d).Moves → Config calls World ℕ P → Prop)
    (c₀ : Config calls World ℕ P) : Prop :=
  ∀ c, L.Reachable legal c₀ c → back.OutcomeAgrees i dto L c

/-- In every run in which no insertion or enqueuing takes effect and throws, and no
compensation is lost, the outcome of `createTransaction` agrees with the stores. -/
theorem outcomesAgree_of_wholeWrites (back : Backend) (d : Delivery) (i : ℕ)
    {dto : CreateTransactionDto} (hrole : back.role i = .creator dto) {w : World}
    (hrow : w.transaction (back.transactionId i) = none)
    (hjob : w.job (back.transactionId i) = none) :
    back.OutcomesAgree i dto ((ledger d).programs BackendOutcome)
      (WholeWrites i ((ledger d).programs BackendOutcome)) (back.start w) := by
  intro c hc
  have himpl := back.control_implements (ledger d)
  rw [← back.map_controlStart] at hc
  obtain ⟨b, rfl, hb⟩ := himpl.lift hc
  have hinv := hb.invariant (back.Creation i dto) (creation_start hrole hrow hjob)
    fun _ hstep hlegal hinv ↦ hinv.step hstep (wholeWrites_map hlegal)
  have hagrees : back.OutcomeAgrees i dto (back.control (ledger d)) b := hinv.outcomeAgrees
  constructor
  · intro result hresult
    rw [himpl.result_map] at hresult
    exact hagrees.returned result hresult
  · intro e hresult
    rw [himpl.result_map] at hresult
    exact hagrees.threw e hresult
  · intro f b' hstep hpending
    rw [himpl.pending_map] at hpending
    rw [himpl.step_map] at hstep
    obtain ⟨b'', hb'', rfl⟩ := Option.map_eq_some_iff.mp hstep
    exact hagrees.compensation f b'' hb'' hpending

end Backend

/-! ## A compensation over a completed transaction -/

def depositBackend : Backend where
  lib := oneDollar
  role
    | 0 => .creator deposit
    | _ + 1 => .worker "t"
  transactionId i := String.ofList (List.replicate (i + 1) 't')
  transactionId_injective i j h := by
    have hlength := congrArg (fun s ↦ s.toList.length) h
    simpa using hlength

theorem outcomesAgree_depositBackend :
    depositBackend.OutcomesAgree 0 deposit ((ledger .exclusive).programs BackendOutcome)
      (Backend.WholeWrites 0 ((ledger .exclusive).programs BackendOutcome))
      (depositBackend.start (.initial 0)) :=
  Backend.outcomesAgree_of_wholeWrites depositBackend .exclusive 0 rfl rfl rfl

/-- The enqueuing of the deposit takes effect and throws; a worker completes the
deposit before the compensation runs. -/
def compensateCompleted : List (ledger .exclusive).Moves :=
  [.settle 0 .run, .settle 0 (.torn (.error "Connection is closed.")), .settle 1 .run,
    .settle 1 .run, .settle 1 .run, .settle 1 .run]

theorem overwritten_compensateCompleted :
    ¬depositBackend.OutcomesAgree 0 deposit ((ledger .exclusive).programs BackendOutcome)
      ((ledger .exclusive).programs BackendOutcome).anyMove
      (depositBackend.start (.initial 0)) := by
  intro h
  obtain ⟨row, hrow, hstatus⟩ := (h
    (((ledger .exclusive).programs BackendOutcome).played (fun _ _ _ ↦ true)
      (depositBackend.start (.initial 0)) compensateCompleted)
    (Pool.reachable_played (fun _ _ _ _ ↦ trivial) rfl)).compensation .run _ rfl rfl ⟨_, rfl, rfl⟩
  cases hrow
  cases hstatus

end TransactionLedger
