import TransactionLedger.Api.Endpoint

/-!
# One completed transaction per key

A request whose enqueuing has resolved owns the record of its key for good.  A
request whose enqueuing has never taken effect has a transaction no worker will ever
touch.  Only an enqueuing that takes effect and throws falls between the two.
-/

namespace TransactionLedger

open Async

/-- The request has answered its client, or is about to do so. -/
def Control.Accepted : Control → Prop
  | .handling handler => ∃ response, handler = ⟨.done (.ok response), trivial⟩
  | .storeUpdate _ => True
  | .storeSet _ => True
  | .ended _ => True
  | _ => False

theorem Transition.accepted {dep : Deployment} {i : ℕ} {w w' : World} {p q : Control}
    (h : Transition dep i w w' p q) (hp : p.Accepted) : q.Accepted := by
  cases h with
  | handlerSucceeded | stored | storeFailed | storeEnded => trivial
  | handlerAwaited =>
      obtain ⟨response, heq⟩ := hp
      cases heq
  | handlerFailed =>
      obtain ⟨response, heq⟩ := hp
      cases heq
  | _ => exact hp.elim

/-- A call that is none of `createTransaction` and the workers leaves their data alone. -/
theorem World.settle_idempotency {d : Delivery} {f : Fate} {w w' : World} {op : Op}
    {r : Except Err op.Res} (hforeign : ¬op.Foreign) (h : w.settle d f op = some (r, w'))
    (id : String) : w'.transaction id = w.transaction id ∧ w'.job id = w.job id := by
  constructor
  · rcases World.settle_transaction h id with hsame | heffect
    · exact hsame
    · rw [heffect]
      cases op <;> first | rfl | exact absurd trivial hforeign
  · rcases World.settle_job h id with hsame | heffect
    · exact hsame
    · rw [heffect]
      cases op <;> first | rfl | exact absurd trivial hforeign

namespace Endpoint

variable {app : Endpoint} {key : String} {i : ℕ} {dto : CreateTransactionDto}

abbrev added (app : Endpoint) (i : ℕ) (dto : CreateTransactionDto) : Event calls ℕ :=
  addEvent i ⟨app.transactionId i, dto⟩

/-! ## The property -/

/-- Of the transactions of the requests with one key, at most one is ever completed. -/
def SingleEffect (app : Endpoint) (key : String) {d : Delivery} {P : Type}
    (L : Pool (ledger d) Outcome P)
    (legal : Config calls World ℕ P → (ledger d).Moves → Config calls World ℕ P → Prop)
    (c₀ : Config calls World ℕ P) : Prop :=
  ∀ a b, L.Reachable legal c₀ a → L.Reachable legal a b →
    ∀ i j, app.deployment.Carries key i → app.deployment.Carries key j →
      Completed (app.transactionId i) a.store → Completed (app.transactionId j) b.store → i = j

/-- No enqueuing by a request with the key takes effect and throws. -/
def WholeEnqueuing (app : Endpoint) (key : String) {d : Delivery} {P : Type}
    (L : Pool (ledger d) Outcome P) (a : Config calls World ℕ P) (m : (ledger d).Moves) : Prop :=
  ∀ i e, m = .settle i (Fate.torn e) → app.deployment.Carries key i →
    ∀ data, L.pending a i ≠ some (.transactionQueueAdd data)

/-- The record of the key does not expire, and no enqueuing for it is torn. -/
def Sound (app : Endpoint) (key : String) {d : Delivery} {P : Type}
    (L : Pool (ledger d) Outcome P) (a : Config calls World ℕ P) (m : (ledger d).Moves)
    (b : Config calls World ℕ P) : Prop :=
  b.store.Unexpired key ∧ app.WholeEnqueuing key L a m

/-! ## The invariant -/

structure Effect (app : Endpoint) (key : String) (i : ℕ) (dto : CreateTransactionDto)
    (c : Config calls World ℕ Control) : Prop where
  handlers : ∀ j handler, c.procs j = some (.handling handler) →
    ∃ request dto' q, app.role j = .post request dto' ∧ app.Serves j dto' q handler
  workers : ∀ j job, c.procs j = some (.background job) → ∃ target q,
    app.Works j target q job ∧ (app.added i dto ∉ c.log → ¬q.Concerns (app.transactionId i))
  untouched : app.added i dto ∉ c.log → c.store.job (app.transactionId i) = none ∧
    ∀ row, c.store.transaction (app.transactionId i) = some row →
      row.status = .queued ∨ row.status = .failed
  owned : app.added i dto ∈ c.log → app.deployment.OwnedBy key i c.store ∧
    ∀ p, c.procs i = some p → p.Accepted

section Settle

variable {c : Config calls World ℕ Control} {d : Delivery} {f : Fate} {w' : World} {j : ℕ}
  {p next : Control} {op : Op} {k : ℕ → Except Err op.Res → Control} {r : Except Err op.Res}

theorem Effect.settle (hinv : app.Effect key i dto c)
    (hhandler : ∀ handler, next = .handling handler →
      ∃ request dto' q, app.role j = .post request dto' ∧ app.Serves j dto' q handler)
    (hworker : ∀ job, next = .background job → ∃ target q, app.Works j target q job ∧
      (app.added i dto ∉ (⟨j, op, r⟩ : Event calls ℕ) :: c.log →
        ¬q.Concerns (app.transactionId i)))
    (huntouched : app.added i dto ∉ (⟨j, op, r⟩ : Event calls ℕ) :: c.log →
      w'.job (app.transactionId i) = none ∧
        ∀ row, w'.transaction (app.transactionId i) = some row →
          row.status = .queued ∨ row.status = .failed)
    (howned : app.added i dto ∈ (⟨j, op, r⟩ : Event calls ℕ) :: c.log →
      app.deployment.OwnedBy key i w' ∧ (j = i → next.Accepted)) :
    app.Effect key i dto
      { store := w'
        procs := Function.update c.procs j (some next)
        log := ⟨j, op, r⟩ :: c.log } := by
  constructor
  · intro n handler hn
    rcases Pool.of_update_some hn with ⟨rfl, hnext⟩ | ⟨-, hn⟩
    · exact hhandler handler hnext.symm
    · exact hinv.handlers n handler hn
  · intro n job hn
    rcases Pool.of_update_some hn with ⟨rfl, hnext⟩ | ⟨-, hn⟩
    · exact hworker job hnext.symm
    · obtain ⟨target, q, hworks, hidle⟩ := hinv.workers n job hn
      exact ⟨target, q, hworks, fun hnot ↦ hidle fun h ↦ hnot (List.mem_cons_of_mem _ h)⟩
  · exact huntouched
  · intro hadd
    refine ⟨(howned hadd).1, fun q hq ↦ ?_⟩
    rcases Pool.of_update_some hq with ⟨rfl, rfl⟩ | ⟨hne, hq⟩
    · exact (howned hadd).2 rfl
    · exact (hinv.owned ((mem_add_cons (addEvent_ne (Ne.symm hne))).mp hadd)).2 q hq

/-- A request that has enqueued its transaction keeps the record of its key. -/
theorem Effect.owned_kept (hinv : app.Effect key i dto c)
    (hadm : app.deployment.Admission key c) (hproc : c.procs j = some p)
    (hview : (app.deployment.control (ledger d)).view j p = .await op k)
    (hsettle : c.store.settle d f op = some (r, w')) (hadd : app.added i dto ∈ c.log) :
    app.deployment.OwnedBy key i w' ∧ (j = i → (k w'.clock r).Accepted) := by
  obtain ⟨howned, haccepted⟩ := hinv.owned hadd
  constructor
  · rcases hadm.owned_kept hproc hview hsettle howned with hkept | ⟨rfl, e, rfl⟩
    · exact hkept
    · exact (haccepted _ hproc).elim
  · rintro rfl
    exact (Deployment.transition hview hsettle).accepted (haccepted p hproc)

theorem Effect.settle_idempotency (hinv : app.Effect key i dto c)
    (hadm : app.deployment.Admission key c) (hproc : c.procs j = some p)
    (hview : (app.deployment.control (ledger d)).view j p = .await op k)
    (hsettle : c.store.settle d f op = some (r, w')) (hforeign : ¬op.Foreign)
    (hpost : p.Serving → ∃ request dto', app.role j = .post request dto') :
    app.Effect key i dto
      { store := w'
        procs := Function.update c.procs j (some (k w'.clock r))
        log := ⟨j, op, r⟩ :: c.log } := by
  obtain ⟨hrow, hjob⟩ := World.settle_idempotency hforeign hsettle (app.transactionId i)
  have hlog : app.added i dto ∈ (⟨j, op, r⟩ : Event calls ℕ) :: c.log →
      app.added i dto ∈ c.log := by
    apply (mem_add_cons ?_).mp
    intro heq
    cases heq
    exact hforeign trivial
  have ht := Deployment.transition hview hsettle
  refine hinv.settle ?_ ?_ ?_ ?_
  · intro handler hnext
    rw [hnext] at ht
    cases ht with
    | admitted hhandler =>
        obtain ⟨request, dto', hrole⟩ := hpost trivial
        exact ⟨request, dto', _, hrole, initial_serves hrole hhandler⟩
    | @handlerAwaited op' k' h' =>
        cases hview
        exact absurd h'.1 hforeign
  · intro job hnext
    rw [hnext] at ht
    cases ht with
    | @backgroundAwaited job' =>
        obtain ⟨target, q, hworks, -⟩ := hinv.workers j job' hproc
        exact absurd (view_works hworks hview).1 hforeign
  · intro hnot
    obtain ⟨hnone, hstatus⟩ := hinv.untouched fun h ↦ hnot (List.mem_cons_of_mem _ h)
    exact ⟨hjob.trans hnone, fun row h ↦ hstatus row (hrow.symm.trans h)⟩
  · intro hadd
    exact hinv.owned_kept hadm hproc hview hsettle (hlog hadd)

theorem Effect.settle_worker {job next : ForeignPromise Unit} {target : String}
    {q : WorkerControl} {k₀ : ℕ → Except Err op.Res → WorkerControl}
    (hinv : app.Effect key i dto c) (hadm : app.deployment.Admission key c)
    (hproc : c.procs j = some (.background job))
    (hview : (app.deployment.control (ledger d)).view j (.background job) = .await op k)
    (hsettle : c.store.settle d f op = some (r, w'))
    (hidle : app.added i dto ∉ c.log → ¬q.Concerns (app.transactionId i))
    (hq : q.view app.lib j target = .await op k₀) (hnext : k w'.clock r = .background next)
    (hworks : app.Works j target (k₀ w'.clock r) next) :
    app.Effect key i dto
      { store := w'
        procs := Function.update c.procs j (some (k w'.clock r))
        log := ⟨j, op, r⟩ :: c.log } := by
  have huntouched : app.added i dto ∉ c.log → w'.job (app.transactionId i) = none ∧
      w'.transaction (app.transactionId i) = c.store.transaction (app.transactionId i) ∧
        ¬(k₀ w'.clock r).Concerns (app.transactionId i) := fun hnot ↦
    worker_untouched hq hsettle (hinv.untouched hnot).1 (hidle hnot)
  refine hinv.settle ?_ ?_ ?_ ?_
  · intro handler h
    cases hnext.symm.trans h
  · intro job' h
    obtain rfl : next = job' := Control.background.inj (hnext.symm.trans h)
    exact ⟨target, _, hworks,
      fun hnot ↦ (huntouched fun h ↦ hnot (List.mem_cons_of_mem _ h)).2.2⟩
  · intro hnot
    have hnot : app.added i dto ∉ c.log := fun h ↦ hnot (List.mem_cons_of_mem _ h)
    obtain ⟨hjob, hrow, -⟩ := huntouched hnot
    exact ⟨hjob, fun row h ↦ (hinv.untouched hnot).2 row (hrow.symm.trans h)⟩
  · intro hadd
    apply hinv.owned_kept hadm hproc hview hsettle
    apply (mem_add_cons ?_).mp hadd
    intro heq
    cases heq
    cases q <;> cases hq

theorem Effect.settle_handler {handler next : ForeignPromise Response} {request : Request}
    {dto' : CreateTransactionDto} {q : CreateControl}
    {k₀ : ℕ → Except Err op.Res → CreateControl} (hinv : app.Effect key i dto c)
    (hadm : app.deployment.Admission key c) (hrole : app.role j = .post request dto')
    (hproc : c.procs j = some (.handling handler))
    (hview : (app.deployment.control (ledger d)).view j (.handling handler) = .await op k)
    (hsettle : c.store.settle d f op = some (r, w')) (hne : j ≠ i)
    (hq : q.view (app.transactionId j) dto' = .await op k₀)
    (hnext : k w'.clock r = .handling next) (hserves : app.Serves j dto' (k₀ w'.clock r) next) :
    app.Effect key i dto
      { store := w'
        procs := Function.update c.procs j (some (k w'.clock r))
        log := ⟨j, op, r⟩ :: c.log } := by
  have hid : app.transactionId j ≠ app.transactionId i :=
    fun h ↦ hne (app.transactionId_injective h)
  obtain ⟨hrow, hjob⟩ := create_other hq hsettle hid
  refine hinv.settle ?_ ?_ ?_ ?_
  · intro handler' h
    obtain rfl : next = handler' := Control.handling.inj (hnext.symm.trans h)
    exact ⟨request, dto', _, hrole, hserves⟩
  · intro job h
    cases hnext.symm.trans h
  · intro hnot
    obtain ⟨hnone, hstatus⟩ := hinv.untouched fun h ↦ hnot (List.mem_cons_of_mem _ h)
    exact ⟨hjob.trans hnone, fun row h ↦ hstatus row (hrow.symm.trans h)⟩
  · intro hadd
    exact hinv.owned_kept hadm hproc hview hsettle ((mem_add_cons (addEvent_ne hne)).mp hadd)

/-- A step of the handler of process `i`: its enqueuing resolves, or has not taken
effect. -/
theorem Effect.settle_own {handler next : ForeignPromise Response} {request : Request}
    {q : CreateControl} {k₀ : ℕ → Except Err op.Res → CreateControl}
    (hinv : app.Effect key i dto c) (hadm : app.deployment.Admission key c)
    (hkey : app.deployment.key i = key) (hrole : app.role i = .post request dto)
    (hproc : c.procs i = some (.handling handler))
    (hview : (app.deployment.control (ledger d)).view i (.handling handler) = .await op k)
    (hsettle : c.store.settle d f op = some (r, w')) (hforeign : op.Foreign)
    (hq : q.view (app.transactionId i) dto = .await op k₀)
    (hnext : k w'.clock r = .handling next) (hserves : app.Serves i dto (k₀ w'.clock r) next)
    (hwhole : ∀ data, op = .transactionQueueAdd data → ∀ e, f ≠ .torn e) :
    app.Effect key i dto
      { store := w'
        procs := Function.update c.procs i (some (k w'.clock r))
        log := ⟨i, op, r⟩ :: c.log } := by
  have hnot : app.added i dto ∉ c.log := by
    intro hadd
    obtain ⟨response, rfl⟩ := (hinv.owned hadd).2 _ hproc
    cases hview
    exact hforeign
  refine hinv.settle ?_ ?_ ?_ ?_
  · intro handler' h
    obtain rfl : next = handler' := Control.handling.inj (hnext.symm.trans h)
    exact ⟨request, dto, _, hrole, hserves⟩
  · intro job h
    cases hnext.symm.trans h
  · intro hstill
    refine create_untouched hq hsettle ?_ (hinv.untouched hnot).1 (hinv.untouched hnot).2
    rintro row rfl
    cases hq
    rcases r with e | _
    · -- an enqueuing that throws is not torn, so it has not taken effect
      exact kept_of_error hsettle (hwhole _ rfl)
    · exact absurd List.mem_cons_self hstill
  · intro hadd
    rcases List.mem_cons.mp hadd with heq | hmem
    · cases heq
      constructor
      · -- a request inside its handler owns the record, and keeps it from now on
        have howned := hadm.owner i _ hkey hproc trivial
        rcases hadm.owned_kept hproc hview hsettle howned with hkept | ⟨-, e, hp⟩
        · exact hkept
        · cases hp
      · intro _
        rw [hnext]
        obtain ⟨p', hp'⟩ := next
        cases q <;> cases hq
        cases hserves
        exact ⟨_, rfl⟩
    · exact absurd hmem hnot

end Settle

variable {d : Delivery}

theorem Effect.step {a b : Config calls World ℕ Control} {m : (ledger d).Moves}
    (hstep : (app.deployment.control (ledger d)).Step a m b)
    (hwhole : app.WholeEnqueuing key (app.deployment.control (ledger d)) a m)
    (hpost : ∀ j p, a.procs j = some p → p.Serving →
      ∃ request dto', app.role j = .post request dto')
    (hcarries : app.deployment.Carries key i) {request : Request}
    (hrole : app.role i = .post request dto) (hadm : app.deployment.Admission key a)
    (hinv : app.Effect key i dto a) : app.Effect key i dto b := by
  cases hstep with
  | @settle j f p op k r w' hproc hview hsettle =>
      cases p with
      | handling handler =>
          obtain ⟨request', dto', q, hrole', hserves⟩ := hinv.handlers j handler hproc
          rcases view_serves hserves hview with ⟨hforeign, k₀, hq, hk⟩ | hforeign
          · obtain ⟨next, hnext, hserves'⟩ := hk w'.clock r
            by_cases hji : j = i
            · subst hji
              cases hrole.symm.trans hrole'
              refine hinv.settle_own hadm hcarries.key_eq hrole hproc hview hsettle hforeign hq
                hnext hserves' ?_
              rintro data rfl e rfl
              exact hwhole j e rfl hcarries data (Pool.pending_of_view hproc hview)
            · exact hinv.settle_handler hadm hrole' hproc hview hsettle hji hq hnext hserves'
          · exact hinv.settle_idempotency hadm hproc hview hsettle hforeign
              fun _ ↦ ⟨request', dto', hrole'⟩
      | background job =>
          obtain ⟨target, q, hworks, hidle⟩ := hinv.workers j job hproc
          obtain ⟨-, k₀, hq, hk⟩ := view_works hworks hview
          obtain ⟨next, hnext, hworks'⟩ := hk w'.clock r
          exact hinv.settle_worker hadm hproc hview hsettle hidle hq hnext hworks'
      | _ =>
          exact hinv.settle_idempotency hadm hproc hview hsettle
            (view_idempotency (by rintro _ ⟨⟩) (by rintro _ ⟨⟩) hview) (hpost j _ hproc)
  | @crash j p op k hproc hview =>
      constructor
      · exact fun n handler hn ↦ hinv.handlers n handler (Pool.of_update_none hn).2
      · exact fun n job hn ↦ hinv.workers n job (Pool.of_update_none hn).2
      · intro hnot
        obtain ⟨hjob, hstatus⟩ := hinv.untouched hnot
        exact ⟨(World.crash_job ..).trans (congrArg _ hjob), hstatus⟩
      · intro hadd
        obtain ⟨howned, haccepted⟩ := hinv.owned hadd
        exact ⟨howned, fun p hp ↦ haccepted p (Pool.of_update_none hp).2⟩
  | @drift dr w' hdrift =>
      obtain rfl := Option.some.inj hdrift
      constructor
      · exact hinv.handlers
      · exact hinv.workers
      · intro hnot
        obtain ⟨hjob, hstatus⟩ := hinv.untouched hnot
        exact ⟨(World.drift_job ..).trans hjob,
          fun row h ↦ hstatus row ((World.drift_transaction ..).symm.trans h)⟩
      · intro hadd
        obtain ⟨⟨row, hrow, hid⟩, haccepted⟩ := hinv.owned hadd
        exact ⟨⟨row, (World.drift_record ..).trans hrow, hid⟩, haccepted⟩

theorem effect_start (clock : ℕ) : app.Effect key i dto (app.deployment.controlStart clock) := by
  constructor
  · intro j handler hj
    have hinitial := Option.some.inj hj
    rcases Control.initial_cases (app.deployment.role j) with h | h | ⟨_, h⟩ | ⟨_, h⟩ <;>
    · rw [h] at hinitial
      cases hinitial
  · intro j job hj
    have hinitial : Control.initial (app.deployedRole j) = .background job := Option.some.inj hj
    cases hrole : app.role j with
    | post request dto' =>
        rw [deployedRole, hrole] at hinitial
        simp only [Control.initial] at hinitial
        split at hinitial <;> cases hinitial
    | cleanup =>
        rw [deployedRole, hrole] at hinitial
        cases hinitial
    | worker target =>
        rw [deployedRole, hrole] at hinitial
        cases hinitial
        refine ⟨target, .take, rfl, fun _ hconcerns ↦ ?_⟩
        obtain ⟨job, hholds, -⟩ := hconcerns
        cases hholds
  · intro _
    refine ⟨rfl, ?_⟩
    rintro row ⟨⟩
  · intro hadd
    cases hadd

theorem effect_of_reachable {clock : ℕ} {c : Config calls World ℕ Control}
    (h : (app.deployment.control (ledger d)).Reachable
      (app.Sound key (app.deployment.control (ledger d))) (app.deployment.controlStart clock) c)
    (hcarries : app.deployment.Carries key i) {request : Request}
    (hrole : app.role i = .post request dto) : app.Effect key i dto c := by
  apply h.invariant (app.Effect key i dto) (effect_start clock)
  intro a m b hreachable hstep hsound hinv
  refine hinv.step hstep hsound.2 ?_ hcarries hrole
    (Deployment.admission_of_reachable (hreachable.mono fun hs ↦ hs.1))
  intro j p hproc hserving
  exact post_of_carries (Deployment.carries_of_serving hreachable hproc hserving)

/-- A completed transaction has been enqueued. -/
theorem Effect.added_of_completed {c : Config calls World ℕ Control}
    (hinv : app.Effect key i dto c) (h : Completed (app.transactionId i) c.store) :
    app.added i dto ∈ c.log := by
  by_contra hnot
  obtain ⟨row, hrow, hcompleted⟩ := h
  rcases (hinv.untouched hnot).2 row hrow with hstatus | hstatus <;>
  · rw [hcompleted] at hstatus
    cases hstatus

/-! ## The programs -/

theorem sound_map {a b : Config calls World ℕ Control} {m : (ledger d).Moves}
    (h : app.Sound key ((ledger d).programs Outcome) (a.map app.deployment.code) m
      (b.map app.deployment.code)) :
    app.Sound key (app.deployment.control (ledger d)) a m b := by
  simp only [Sound, WholeEnqueuing,
    (app.deployment.control_implements (ledger d)).pending_map] at h
  exact h

/-- In every run that lets no record of the key expire and in which no enqueuing for
the key takes effect and throws, at most one transaction of the key is ever completed. -/
theorem singleEffect_of_sound (app : Endpoint) (d : Delivery) (key : String) (clock : ℕ) :
    app.SingleEffect key ((ledger d).programs Outcome)
      (app.Sound key ((ledger d).programs Outcome)) (app.deployment.start clock) := by
  intro a b ha hab i j hi hj hcompleted hcompleted'
  have himpl := app.deployment.control_implements (ledger d)
  rw [← app.deployment.map_controlStart] at ha
  obtain ⟨a, rfl, hlifted⟩ := himpl.lift ha
  obtain ⟨b, rfl, hlifted'⟩ := himpl.lift hab
  have hbefore : (app.deployment.control (ledger d)).Reachable (app.Sound key _) _ a :=
    hlifted.mono fun hsound ↦ sound_map hsound
  have hafter : (app.deployment.control (ledger d)).Reachable (app.Sound key _) a b :=
    hlifted'.mono fun hsound ↦ sound_map hsound
  obtain ⟨request, dto, hrole⟩ := post_of_carries hi
  obtain ⟨request', dto', hrole'⟩ := post_of_carries hj
  have hadd : app.added i dto ∈ b.log :=
    hafter.mem_log ((effect_of_reachable hbefore hi hrole).added_of_completed hcompleted)
  have heffect := effect_of_reachable (hbefore.trans hafter) hi hrole
  have heffect' := effect_of_reachable (hbefore.trans hafter) hj hrole'
  have hadd' : app.added j dto' ∈ b.log := heffect'.added_of_completed hcompleted'
  exact (heffect.owned hadd).1.unique (heffect'.owned hadd').1

end Endpoint

/-! ## A retry after a torn enqueuing -/

/-- Two requests with one key and body, and a worker for each of their transactions. -/
def retriedDeposit : Endpoint where
  cfg := Deployment.oneHour
  lib := oneDollar
  role i :=
    if i < 2 then .post ⟨some "k", "h"⟩ deposit
    else .worker (depositBackend.transactionId (i - 2))
  recordId := depositBackend.transactionId
  recordId_injective := depositBackend.transactionId_injective
  transactionId := depositBackend.transactionId
  transactionId_injective := depositBackend.transactionId_injective

/-- Whether the record of the key has its time left and the move tears no enqueuing. -/
def soundMove (key : String) {d : Delivery} {P : Type} (L : Pool (ledger d) Outcome P)
    (a : Config calls World ℕ P) (m : (ledger d).Moves) (b : Config calls World ℕ P) : Bool :=
  decide (b.store.Unexpired key) &&
    match m with
    | .settle i (.torn _) =>
        match L.pending a i with
        | some (.transactionQueueAdd _) => false
        | _ => true
    | _ => true

theorem sound_of_soundMove {app : Endpoint} {key : String} {d : Delivery} {P : Type}
    {L : Pool (ledger d) Outcome P} {a b : Config calls World ℕ P} {m : (ledger d).Moves}
    (h : soundMove key L a m b) : app.Sound key L a m b := by
  obtain ⟨hunexpired, hwhole⟩ := Bool.and_eq_true_iff.mp h
  refine ⟨of_decide_eq_true hunexpired, ?_⟩
  rintro i e rfl - data hpending
  simp only [hpending] at hwhole
  cases hwhole

/-- The enqueuing of request 0 is lost; the request marks its transaction as failed and
releases the key.  The retry crashes once it has enqueued its own, and the update that
completes it throws. -/
def lostEnqueuing : List (ledger .exclusive).Moves :=
  [.settle 0 .run, .settle 0 .run, .settle 0 .run, .settle 0 .run,
    .settle 0 (.lost (.error "Connection is closed.")), .settle 0 .run, .settle 0 .run,
    .settle 0 .run, .settle 0 .run, .settle 1 .run, .settle 1 .run, .settle 1 .run,
    .settle 1 .run, .settle 1 .run, .crash 1, .settle 3 .run, .settle 3 .run, .settle 3 .run,
    .settle 3 (.torn (.error "timeout"))]

theorem singleEffect_lostEnqueuing :
    let L := (ledger .exclusive).programs Outcome
    let c := L.played (soundMove "k" L) (retriedDeposit.deployment.start 0) lostEnqueuing
    Completed "tt" c.store ∧
      ¬∃ b, L.Reachable (retriedDeposit.Sound "k" L) c b ∧ Completed "t" b.store := by
  intro L c
  have hreach : L.Reachable (retriedDeposit.Sound "k" L) (retriedDeposit.deployment.start 0) c :=
    Pool.reachable_played (fun _ _ _ ↦ sound_of_soundMove) (by decide +kernel)
  have hcompleted : Completed "tt" c.store := completed_of_status (by decide +kernel)
  refine ⟨hcompleted, ?_⟩
  rintro ⟨b, hb, hcompleted'⟩
  have hsame : 1 = 0 := Endpoint.singleEffect_of_sound retriedDeposit .exclusive "k" 0 c b hreach
    hb 1 0 rfl rfl hcompleted hcompleted'
  cases hsame

/-- The enqueuing of request 0 takes effect and throws; the request marks its
transaction as failed and releases the key.  A worker still completes the transaction. -/
def tornEnqueuing : List (ledger .exclusive).Moves :=
  [.settle 0 .run, .settle 0 .run, .settle 0 .run, .settle 0 .run,
    .settle 0 (.torn (.error "Connection is closed.")), .settle 0 .run, .settle 0 .run,
    .settle 0 .run, .settle 0 .run, .settle 2 .run, .settle 2 .run, .settle 2 .run,
    .settle 2 .run]

/-- The retry is admitted, and its transaction is completed as well. -/
def retryAdmitted : List (ledger .exclusive).Moves :=
  [.settle 1 .run, .settle 1 .run, .settle 1 .run, .settle 1 .run, .settle 1 .run,
    .settle 3 .run, .settle 3 .run, .settle 3 .run, .settle 3 .run]

theorem completedTwice_tornEnqueuing :
    ¬retriedDeposit.SingleEffect "k" ((ledger .exclusive).programs Outcome)
      (fun _ _ b ↦ b.store.Unexpired "k") (retriedDeposit.deployment.start 0) := by
  intro h
  let L := (ledger .exclusive).programs Outcome
  let first := L.played (fun _ _ b ↦ b.store.Unexpired "k")
    (retriedDeposit.deployment.start 0) tornEnqueuing
  let second := L.played (fun _ _ b ↦ b.store.Unexpired "k") first retryAdmitted
  have hfirst : L.Reachable (fun _ _ b ↦ b.store.Unexpired "k")
      (retriedDeposit.deployment.start 0) first :=
    Pool.reachable_played (fun _ _ _ h ↦ of_decide_eq_true h) rfl
  have hsecond : L.Reachable (fun _ _ b ↦ b.store.Unexpired "k") first second :=
    Pool.reachable_played (fun _ _ _ h ↦ of_decide_eq_true h) (by decide +kernel)
  have hcompleted : Completed "t" first.store := completed_of_status (by decide +kernel)
  have hcompleted' : Completed "tt" second.store := completed_of_status (by decide +kernel)
  exact absurd (h first second hfirst hsecond 0 1 rfl rfl hcompleted hcompleted') nofun

end TransactionLedger
