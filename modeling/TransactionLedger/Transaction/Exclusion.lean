import TransactionLedger.Transaction.Steps

/-!
# One processor at a time

The guarded update lets one attempt in, and only its own update to COMPLETED or
its failure lets it out.  The failure handler of an earlier attempt breaks in
when it resets a row that another attempt is processing; nothing else does.
-/

namespace TransactionLedger

open Async TransactionProcessor

section

variable {d : Delivery} {α P : Type}

/-- The attempt has passed the guard and has not yet written COMPLETED. -/
def InSection (id : String) (L : Pool (ledger d) α P) (c : Config calls World ℕ P) (i : ℕ) :
    Prop :=
  L.pending c i = some (.transactionUpdate id .completed)

structure OneProcessor (id : String) (L : Pool (ledger d) α P) (c : Config calls World ℕ P) :
    Prop where
  unique : ∀ i j, InSection id L c i → InSection id L c j → i = j
  processing : ∀ i, InSection id L c i →
    ∃ row, c.store.transaction id = some row ∧ row.status = .processing

def AlwaysOneProcessor (id : String) (L : Pool (ledger d) α P)
    (legal : Config calls World ℕ P → (ledger d).Moves → Config calls World ℕ P → Prop)
    (c₀ : Config calls World ℕ P) : Prop :=
  ∀ c, L.Reachable legal c₀ c → OneProcessor id L c

/-- The move is no failure handler resetting the row under an attempt. -/
def NoLateFailure (id : String) (L : Pool (ledger d) α P) (a : Config calls World ℕ P)
    (m : (ledger d).Moves) (_ : Config calls World ℕ P) : Prop :=
  ∀ i f, m = .settle i f → (∀ e, f ≠ Fate.lost e) →
    L.pending a i = some (.transactionUpdateMany id (.not .completed) .failed) →
    ∀ j, ¬InSection id L a j

end

variable {lib : DecimalLib} {target : ℕ → String} {d : Delivery} {id : String}

theorem announcing_cases (lib : DecimalLib) (job : TransactionJobData) (row : Transaction) :
    (∃ result, WorkerControl.announcing lib job row = .ack job result) ∨
      ∃ notification, WorkerControl.announcing lib job row = .announce job notification row := by
  simp only [WorkerControl.announcing]
  cases notificationFor lib row job.dto.fromAccount job.dto.toAccount with
  | none => exact .inl ⟨_, rfl⟩
  | some notification => exact .inr ⟨notification, rfl⟩

theorem inSection_iff {c : Config calls World ℕ WorkerControl} {i : ℕ} :
    InSection id (workers (ledger d) lib target) c i ↔
      ∃ job, c.procs i = some (.completeUpdate job) ∧ job.transactionId = id := by
  constructor
  · intro h
    obtain ⟨p, k, hproc, hview⟩ := Pool.exists_of_pending h
    cases p with
    | completeUpdate job =>
        cases hview
        exact ⟨job, hproc, rfl⟩
    | _ => cases hview
  · rintro ⟨job, hproc, rfl⟩
    exact Pool.pending_of_view hproc rfl

/-- An attempt enters the section only by passing the guard. -/
theorem WorkerStep.entered {target : String} {w w' : World} {p : WorkerControl}
    {job : TransactionJobData} (h : WorkerStep lib target w w' p (.completeUpdate job)) :
    (∃ row, w.transaction job.transactionId = some row ∧
        (row.status = .queued ∨ row.status = .failed)) ∧
      ∃ row, w'.transaction job.transactionId = some row ∧ row.status = .processing := by
  cases h with
  | started hrow hstatus hafter => exact ⟨⟨_, hrow, hstatus⟩, _, hafter, rfl⟩
  | @foundCompleted job row _ hrow hcompleted hq =>
      rcases announcing_cases lib job row with ⟨_, h⟩ | ⟨_, h⟩ <;>
        exact absurd (h.symm.trans hq) nofun
  | @completed job row _ hafter hq =>
      rcases announcing_cases lib job { row with status := .completed } with ⟨_, h⟩ | ⟨_, h⟩ <;>
        exact absurd (h.symm.trans hq) nofun

section Settle

variable {c : Config calls World ℕ WorkerControl} {f : Fate} {w' : World} {i : ℕ}
  {p : WorkerControl} {op : Op} {k : ℕ → Except Err op.Res → WorkerControl}
  {r : Except Err op.Res}

/-- A row in process stays so while its attempt is elsewhere and no handler resets it. -/
theorem processing_kept (hinv : OneProcessor id (workers (ledger d) lib target) c)
    (hproc : c.procs i = some p) (hview : p.view lib i (target i) = .await op k)
    (hsettle : c.store.settle d f op = some (r, w')) {b : Config calls World ℕ WorkerControl}
    (hlegal : NoLateFailure id (workers (ledger d) lib target) c (.settle i f) b) {j : ℕ}
    (hne : j ≠ i) (hj : InSection id (workers (ledger d) lib target) c j) :
    ∃ row, w'.transaction id = some row ∧ row.status = .processing := by
  obtain ⟨row, hrow, hstatus⟩ := hinv.processing j hj
  rcases worker_status id hview hsettle with hsame | ⟨old, new, hold, hnew, hchange⟩
  · exact ⟨row, hsame.trans hrow, hstatus⟩
  obtain rfl := Option.some.inj (hrow.symm.trans hold)
  cases hchange with
  | started hid hretryable =>
      rw [hstatus] at hretryable
      rcases hretryable with h | h <;> cases h
  | completed hid =>
      exact absurd (hinv.unique j i hj (inSection_iff.mpr ⟨_, hproc, hid⟩)) hne
  | @failed job _ hid hunfinished =>
      exfalso
      subst hid
      have hw : w' ≠ c.store := by
        rintro rfl
        have := Option.some.inj (hrow.symm.trans hnew)
        rw [this] at hstatus
        cases hstatus
      have hpending : (workers (ledger d) lib target).pending c i = some op :=
        Pool.pending_of_view hproc hview
      cases hview
      exact hlegal i f rfl (World.settle_effect hsettle hw) hpending j hj

end Settle

theorem OneProcessor.step {a b : Config calls World ℕ WorkerControl} {m : (ledger d).Moves}
    (hstep : (workers (ledger d) lib target).Step a m b)
    (hlegal : NoLateFailure id (workers (ledger d) lib target) a m b)
    (hinv : OneProcessor id (workers (ledger d) lib target) a) :
    OneProcessor id (workers (ledger d) lib target) b := by
  cases hstep with
  | @settle i f p op k r w' hproc hview hsettle =>
      have hstay : ∀ j job, j ≠ i → Function.update a.procs i (some (k w'.clock r)) j =
          some (.completeUpdate job) → job.transactionId = id →
            InSection id (workers (ledger d) lib target) a j := by
        intro j job hne hj hid
        rw [Function.update_of_ne hne] at hj
        exact inSection_iff.mpr ⟨job, hj, hid⟩
      have hself : ∀ job, Function.update a.procs i (some (k w'.clock r)) i =
          some (.completeUpdate job) → job.transactionId = id →
          (∃ row, a.store.transaction id = some row ∧
            (row.status = .queued ∨ row.status = .failed)) ∧
          ∃ row, w'.transaction id = some row ∧ row.status = .processing := by
        intro job hi hid
        rw [Function.update_self] at hi
        have hentered := worker_step hview hsettle
        change WorkerStep lib (target i) a.store w' p (k w'.clock r) at hentered
        rw [Option.some.inj hi] at hentered
        exact hid ▸ hentered.entered
      -- the guard lets an attempt in from QUEUED or FAILED only, so nobody was inside
      have hempty : ∀ j job, Function.update a.procs i (some (k w'.clock r)) i =
          some (.completeUpdate job) → job.transactionId = id →
            ¬InSection id (workers (ledger d) lib target) a j := by
        intro j job hi hid hj
        obtain ⟨⟨row, hrow, hretryable⟩, -⟩ := hself job hi hid
        obtain ⟨row', hrow', hstatus⟩ := hinv.processing j hj
        obtain rfl := Option.some.inj (hrow.symm.trans hrow')
        rw [hstatus] at hretryable
        rcases hretryable with h | h <;> cases h
      constructor
      · intro j j' hj hj'
        obtain ⟨job, hproc₁, hid⟩ := inSection_iff.mp hj
        obtain ⟨job', hproc₂, hid'⟩ := inSection_iff.mp hj'
        by_cases hji : j = i
        · by_cases hji' : j' = i
          · exact hji.trans hji'.symm
          · subst hji
            exact absurd (hstay j' job' hji' hproc₂ hid') (hempty j' job hproc₁ hid)
        · by_cases hji' : j' = i
          · subst hji'
            exact absurd (hstay j job hji hproc₁ hid) (hempty j job' hproc₂ hid')
          · exact hinv.unique j j' (hstay j job hji hproc₁ hid) (hstay j' job' hji' hproc₂ hid')
      · intro j hj
        obtain ⟨job, hproc₁, hid⟩ := inSection_iff.mp hj
        by_cases hji : j = i
        · subst hji
          exact (hself job hproc₁ hid).2
        · exact processing_kept hinv hproc hview hsettle hlegal hji (hstay j job hji hproc₁ hid)
  | @crash i p op k hproc hview =>
      have hbefore : ∀ j, InSection id (workers (ledger d) lib target)
          { a with
            store := a.store.crash i
            procs := Function.update a.procs i none } j →
          InSection id (workers (ledger d) lib target) a j := by
        intro j hj
        obtain ⟨job, hproc₁, hid⟩ := inSection_iff.mp hj
        exact inSection_iff.mpr ⟨job, (Pool.of_update_none hproc₁).2, hid⟩
      exact
        { unique := fun j j' hj hj' ↦ hinv.unique j j' (hbefore j hj) (hbefore j' hj')
          processing := fun j hj ↦ hinv.processing j (hbefore j hj) }
  | @drift dr w' hdrift =>
      obtain rfl := Option.some.inj hdrift
      constructor
      · exact hinv.unique
      · intro j hj
        obtain ⟨row, hrow, hstatus⟩ := hinv.processing j hj
        exact ⟨row, (World.drift_transaction ..).trans hrow, hstatus⟩

theorem oneProcessor_start (w : World) :
    OneProcessor id (workers (ledger d) lib target) (workersStart w) where
  unique i j hi := by
    obtain ⟨job, hproc, -⟩ := inSection_iff.mp hi
    cases hproc
  processing i hi := by
    obtain ⟨job, hproc, -⟩ := inSection_iff.mp hi
    cases hproc

/-! ## The programs -/

theorem noLateFailure_map {a b : Config calls World ℕ WorkerControl} {m : (ledger d).Moves}
    (h : NoLateFailure id ((ledger d).programs Unit)
      (a.map fun i c ↦ c.code lib i (target i)) m (b.map fun i c ↦ c.code lib i (target i))) :
    NoLateFailure id (workers (ledger d) lib target) a m b := by
  simp only [NoLateFailure, InSection, (workers_implements (ledger d) lib target).pending_map] at h
  exact h

/-- In every run in which no failure handler resets the row under an attempt, at most
one attempt is past the guard, and COMPLETED is only written over PROCESSING. -/
theorem alwaysOneProcessor_of_noLateFailure (lib : DecimalLib) (target : ℕ → String)
    (d : Delivery) (id : String) (w : World) :
    AlwaysOneProcessor id ((ledger d).programs Unit)
      (NoLateFailure id ((ledger d).programs Unit)) (attempts lib target w) := by
  intro c hc
  have himpl := workers_implements (ledger d) lib target
  rw [← map_workersStart] at hc
  obtain ⟨b, rfl, hb⟩ := himpl.lift hc
  have hinv := hb.invariant (OneProcessor id (workers (ledger d) lib target))
    (oneProcessor_start w) fun _ hstep hlegal hinv ↦
      hinv.step hstep (noLateFailure_map hlegal)
  constructor
  · intro i j hi hj
    rw [InSection, himpl.pending_map] at hi hj
    exact hinv.unique i j hi hj
  · intro i hi
    rw [InSection, himpl.pending_map] at hi
    exact hinv.processing i hi

/-! ## A late handler -/

def deposit : CreateTransactionDto where
  type := .deposit
  amount := "1"
  currency := "USD"
  fromAccount := none
  toAccount := some (.str "a")
  metadata := none

def oneDollar : DecimalLib where
  ofString s := if s = "1" then some 1 else none
  toString _ := "1"

/-- The row and the job of a transaction that has just been created. -/
def World.enqueued (id : String) : World :=
  (((World.initial 0).answer (.transactionCreate
    (TransactionService.newTransaction id deposit 1))).2.answer
      (.transactionQueueAdd ⟨id, deposit⟩)).2

/-- Whether the move is no failure handler, or one that meets none of the first `n`
processes, the only ones that have begun, in the section. -/
def resetsNobody (n : ℕ) {d : Delivery} {α P : Type} (L : Pool (ledger d) α P)
    (a : Config calls World ℕ P) : (ledger d).Moves → Bool
  | .settle i _ =>
      match L.pending a i with
      | some (.transactionUpdateMany _ (.not .completed) .failed) =>
          a.log.all (·.proc < n) && (List.range n).all fun j ↦
            match L.pending a j with
            | some (.transactionUpdate _ .completed) => false
            | _ => true
      | _ => true
  | _ => true

theorem noLateFailure_of_check {α P : Type} {L : Pool (ledger d) α P}
    {legal : Config calls World ℕ P → (ledger d).Moves → Config calls World ℕ P → Prop}
    {c₀ a b : Config calls World ℕ P} {m : (ledger d).Moves} {n : ℕ}
    (hstart : ∀ j, ¬InSection id L c₀ j) (ha : L.Reachable legal c₀ a)
    (h : resetsNobody n L a m) : NoLateFailure id L a m b := by
  rintro i f rfl - hpending j hj
  simp only [resetsNobody, hpending, Bool.and_eq_true, List.all_eq_true, List.mem_range,
    decide_eq_true_eq] at h
  obtain ⟨hlog, hothers⟩ := h
  by_cases hlt : j < n
  · have hother := hothers j hlt
    rw [show L.pending a j = _ from hj] at hother
    cases hother
  · refine hstart j (ha.pending_of_untouched (fun e he hej ↦ ?_) hj)
    exact hlt (hej ▸ hlog e he)

/-- The guarded update of attempt 0 throws and its failure handler runs at once; attempt 1
passes the guard. -/
def promptHandler : List (ledger .exclusive).Moves :=
  [.settle 0 .run, .settle 0 .run, .settle 0 (.lost (.error "timeout")), .settle 0 .run,
    .settle 0 .run, .settle 1 .run, .settle 1 .run, .settle 1 .run]

theorem oneProcessor_promptHandler :
    let c := ((ledger .exclusive).programs Unit).played
      (fun a m _ ↦ resetsNobody 2 ((ledger .exclusive).programs Unit) a m)
      (attempts oneDollar (fun _ ↦ "t") (.enqueued "t")) promptHandler
    InSection "t" ((ledger .exclusive).programs Unit) c 1 ∧
      OneProcessor "t" ((ledger .exclusive).programs Unit) c :=
  ⟨rfl, alwaysOneProcessor_of_noLateFailure _ _ _ _ _ _
    (Pool.reachable_played_checked
      (fun _ _ _ ↦ noLateFailure_of_check fun j h ↦ by cases h) rfl)⟩

/-- The guarded update of attempt 0 throws; attempt 1 passes the guard before the
failure handler of attempt 0 runs. -/
def lateHandler : List (ledger .exclusive).Moves :=
  [.settle 0 .run, .settle 0 .run, .settle 0 (.lost (.error "timeout")), .settle 0 .run,
    .settle 1 .run, .settle 1 .run, .settle 1 .run, .settle 0 .run]

/-- Attempt 1 then writes COMPLETED over FAILED. -/
theorem resetUnderAttempt_lateHandler :
    ¬AlwaysOneProcessor "t" ((ledger .exclusive).programs Unit)
      ((ledger .exclusive).programs Unit).anyMove
      (attempts oneDollar (fun _ ↦ "t") (.enqueued "t")) ∧
    ∃ a b row, ((ledger .exclusive).programs Unit).Reachable
        ((ledger .exclusive).programs Unit).anyMove
        (attempts oneDollar (fun _ ↦ "t") (.enqueued "t")) a ∧
      InSection "t" ((ledger .exclusive).programs Unit) a 1 ∧
      ((ledger .exclusive).programs Unit).step a (.settle 1 .run) = some b ∧
      a.store.transaction "t" = some row ∧ row.status = .failed ∧
      b.store.transaction "t" = some { row with status := .completed } := by
  have hreach : ((ledger .exclusive).programs Unit).Reachable
      ((ledger .exclusive).programs Unit).anyMove
      (attempts oneDollar (fun _ ↦ "t") (.enqueued "t"))
      (((ledger .exclusive).programs Unit).played (fun _ _ _ ↦ true)
        (attempts oneDollar (fun _ ↦ "t") (.enqueued "t")) lateHandler) :=
    Pool.reachable_played (fun _ _ _ _ ↦ trivial) rfl
  constructor
  · intro h
    obtain ⟨row, hrow, hstatus⟩ := (h _ hreach).processing 1 rfl
    cases hrow
    cases hstatus
  · exact ⟨_, _, _, hreach, rfl, rfl, rfl, rfl, rfl⟩

end TransactionLedger
