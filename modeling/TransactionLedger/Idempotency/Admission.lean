import TransactionLedger.Idempotency.Steps

/-!
# Admission

While no record of a key expires, PostgreSQL alone carries the mutual exclusion:
the request whose insertion made the record owns it until it deletes it itself,
and a request that has succeeded never does.
-/

namespace TransactionLedger

open Async IdempotencyService

/-! ## The vocabulary of runs -/

/-- The record of the key has not reached its `expiresAt`. -/
def World.Unexpired (key : String) (w : World) : Prop :=
  ∀ row, w.record key = some row → w.clock < row.expiresAt

instance (key : String) (w : World) : Decidable (w.Unexpired key) :=
  decidable_of_iff ((w.record key).all fun row ↦ w.clock < row.expiresAt) (by
    simp [World.Unexpired, Option.all_eq_true])

/-- `checkAndAcquire` has answered process `i`. -/
def checkedEvent (i : ℕ) (result : IdempotencyCheckResult) : Event calls ℕ :=
  ⟨i, .observe (.checked result), .ok ()⟩

def handledEvent (i : ℕ) (outcome : Except Err Response) : Event calls ℕ :=
  ⟨i, .observe (.handled outcome), .ok ()⟩

namespace Deployment

variable (dep : Deployment) {P : Type}

/-- The event is the success of a handler invoked for the key. -/
def succeededFor (key : String) (e : Event calls ℕ) : Bool :=
  match e with
  | ⟨i, .observe (.handled (.ok _)), .ok _⟩ => dep.Carries key i
  | _ => false

theorem succeededFor_iff {dep : Deployment} {key : String} {e : Event calls ℕ} :
    dep.succeededFor key e ↔
      ∃ i response, e = handledEvent i (.ok response) ∧ dep.Carries key i := by
  constructor
  · intro h
    unfold succeededFor at h
    split at h
    · exact ⟨_, _, rfl, of_decide_eq_true h⟩
    · cases h
  · rintro ⟨i, response, rfl, hcarries⟩
    exact decide_eq_true hcarries

variable {M : Machine calls World ℕ}

/-- Process `i` is between the answer 'miss' and the end of its handler. -/
def Admitted (L : Pool M Outcome P) (c : Config calls World ℕ P) (i : ℕ) : Prop :=
  L.pending c i = some (.observe (.checked .miss)) ∨
    checkedEvent i .miss ∈ c.log ∧ ∀ outcome, handledEvent i outcome ∉ c.log

/-- What the lock promises the requests with one key. -/
structure AtMostOnce (key : String) (L : Pool M Outcome P) (c : Config calls World ℕ P) :
    Prop where
  admitted : ∀ i j, dep.Carries key i → dep.Carries key j →
    Admitted L c i → Admitted L c j → i = j
  succeeded : c.log.countP (dep.succeededFor key) ≤ 1
  final : ∀ e ∈ c.log, dep.succeededFor key e → ∀ j, dep.Carries key j →
    L.pending c j ≠ some (.observe (.checked .miss))

/-! ## The invariant -/

/-- The record of the key is the one process `i` inserted. -/
def OwnedBy (key : String) (i : ℕ) (w : World) : Prop :=
  ∃ row, w.record key = some row ∧ row.id = dep.recordId i

end Deployment

/-- The control points at which a request owns the record of its key. -/
def Control.Owns : Control → Prop
  | .checked .miss => True
  | .handling _ => True
  | .storeUpdate _ => True
  | .releaseDelete _ => True
  | _ => False

/-- Where a request can be once its handler has succeeded. -/
def Control.Succeeded (response : Response) : Control → Prop
  | .storeUpdate r => r = response
  | .storeSet r => r = response
  | .ended _ => True
  | _ => False

namespace Deployment

variable {dep : Deployment} {key : String} {c : Config calls World ℕ Control}

structure Admission (dep : Deployment) (key : String) (c : Config calls World ℕ Control) :
    Prop where
  unexpired : c.store.Unexpired key
  sweep : ∀ i now, c.procs i = some (.cronDelete now) → now ≤ c.store.clock
  fresh : ∀ i, dep.key i = key → c.procs i ≠ some .expiredDelete
  owner : ∀ i p, dep.key i = key → c.procs i = some p → p.Owns → dep.OwnedBy key i c.store
  missed : ∀ i, dep.key i = key → checkedEvent i .miss ∈ c.log →
    (∀ outcome, handledEvent i outcome ∉ c.log) →
      dep.OwnedBy key i c.store ∧ ∀ p, c.procs i = some p → ∃ handler, p = .handling handler
  succeeded : ∀ i response, dep.key i = key → handledEvent i (.ok response) ∈ c.log →
    dep.OwnedBy key i c.store ∧ ∀ p, c.procs i = some p → p.Succeeded response
  once : c.log.countP (dep.succeededFor key) ≤ 1

theorem OwnedBy.unique {i j : ℕ} {w : World} (hi : dep.OwnedBy key i w)
    (hj : dep.OwnedBy key j w) : i = j := by
  obtain ⟨row, hrow, hid⟩ := hi
  obtain ⟨row', hrow', hid'⟩ := hj
  obtain rfl := Option.some.inj (hrow.symm.trans hrow')
  exact dep.recordId_injective (hid.symm.trans hid')

/-- A request comes to own the record by inserting it, and keeps it until it
deletes it. -/
theorem owns_next {i : ℕ} {w w' : World} {p q : Control} (h : Transition dep i w w' p q)
    (howns : q.Owns) :
    (p.Owns ∧ ∀ e, p ≠ .releaseDelete e) ∨ dep.OwnedBy (dep.key i) i w' := by
  cases h with
  | inserted hnone hsome => exact .inr ⟨_, hsome, rfl⟩
  | admitted | handlerAwaited | handlerSucceeded | handlerFailed => exact .inl ⟨trivial, nofun⟩
  | @parsed raw result hfound htruthy hparse =>
      cases result with
      | miss => exact absurd hparse (parseIdempotencyData_ne_miss raw _)
      | _ => exact howns.elim
  | _ => exact howns.elim

section Settle

variable {d : Delivery} {M : Machine calls World ℕ} {f : Fate} {w' : World} {i : ℕ} {p : Control}
  {op : Op} {k : ℕ → Except Err op.Res → Control} {r : Except Err op.Res}

/-- A record changes owner only when its owner deletes it. -/
theorem Admission.owned_kept (hinv : dep.Admission key c) (hproc : c.procs i = some p)
    (hview : (dep.control M).view i p = .await op k)
    (hsettle : c.store.settle d f op = some (r, w')) {j : ℕ}
    (howned : dep.OwnedBy key j c.store) :
    dep.OwnedBy key j w' ∨ i = j ∧ ∃ e, p = .releaseDelete e := by
  obtain ⟨row, hrow, hid⟩ := howned
  rcases row_change key hview hsettle with hsame | hchange
  · exact .inl ⟨row, hsame.trans hrow, hid⟩
  rw [hrow] at hchange
  generalize hafter : w'.record key = after at hchange
  cases hchange with
  | stored hkey => exact .inl ⟨_, hafter, hid⟩
  | @released e _ hkey =>
      have howns := hinv.owner i _ hkey hproc trivial
      exact .inr ⟨howns.unique ⟨row, hrow, hid⟩, e, rfl⟩
  | expired hkey => exact absurd hproc (hinv.fresh i hkey)
  | swept hnow =>
      -- the clean-up read the clock earlier, so what it deletes has expired
      have hclock := hinv.sweep i _ hproc
      have hlive := hinv.unexpired row hrow
      omega

theorem mem_log_checked {j : ℕ} {result : IdempotencyCheckResult}
    (hview : (dep.control M).view i p = .await op k)
    (h : checkedEvent j result ∈ (⟨i, op, r⟩ : Event calls ℕ) :: c.log) :
    checkedEvent j result ∈ c.log ∨ j = i ∧ p = .checked result := by
  rcases List.mem_cons.mp h with heq | hmem
  · right
    cases heq
    rcases view_observe hview with ⟨result', hobs, hp⟩ | ⟨outcome, hobs, -⟩
    · cases hobs
      exact ⟨rfl, hp⟩
    · cases hobs
  · exact .inl hmem

theorem mem_log_handled {j : ℕ} {outcome : Except Err Response}
    (hview : (dep.control M).view i p = .await op k)
    (h : handledEvent j outcome ∈ (⟨i, op, r⟩ : Event calls ℕ) :: c.log) :
    handledEvent j outcome ∈ c.log ∨ j = i ∧ p = .handling ⟨.done outcome, trivial⟩ := by
  rcases List.mem_cons.mp h with heq | hmem
  · right
    cases heq
    rcases view_observe hview with ⟨result, hobs, -⟩ | ⟨outcome', hobs, hp⟩
    · cases hobs
    · cases hobs
      exact ⟨rfl, hp⟩
  · exact .inl hmem

theorem handled_mem {outcome : Except Err Response}
    {log : List (Event calls ℕ)} {w : World}
    (hview : (dep.control M).view i (.handling ⟨.done outcome, trivial⟩) = .await op k)
    (hsettle : w.settle d f op = some (r, w')) :
    handledEvent i outcome ∈ (⟨i, op, r⟩ : Event calls ℕ) :: log := by
  rcases outcome with e | response <;>
  · cases hview
    obtain ⟨rfl, -⟩ := World.settle_observe hsettle
    exact List.mem_cons_self

theorem Admission.settle_missed (hinv : dep.Admission key c) (hproc : c.procs i = some p)
    (hview : (dep.control M).view i p = .await op k)
    (hsettle : c.store.settle d f op = some (r, w')) {j : ℕ} (hj : dep.key j = key)
    (hmissed : checkedEvent j .miss ∈ (⟨i, op, r⟩ : Event calls ℕ) :: c.log)
    (hrunning : ∀ outcome, handledEvent j outcome ∉ (⟨i, op, r⟩ : Event calls ℕ) :: c.log) :
    dep.OwnedBy key j w' ∧
      ∀ q, Function.update c.procs i (some (k w'.clock r)) j = some q →
        ∃ handler, q = .handling handler := by
  have ht := transition hview hsettle
  have hbefore : dep.OwnedBy key j c.store ∧ (j = i → p = .checked .miss ∨
      ∃ handler, p = .handling handler) ∧
      (j ≠ i → ∀ q, c.procs j = some q → ∃ handler, q = .handling handler) := by
    rcases mem_log_checked hview hmissed with hold | ⟨rfl, rfl⟩
    · have hrunning' : ∀ outcome, handledEvent j outcome ∉ c.log :=
        fun outcome hmem ↦ hrunning outcome (List.mem_cons_of_mem _ hmem)
      obtain ⟨howned, hcontrol⟩ := hinv.missed j hj hold hrunning'
      exact ⟨howned, fun hji ↦ .inr (hcontrol p (hji ▸ hproc)), fun _ ↦ hcontrol⟩
    · exact ⟨hinv.owner j _ hj hproc trivial, fun _ ↦ .inl rfl, fun hne ↦ absurd rfl hne⟩
  obtain ⟨howned, hself, hother⟩ := hbefore
  constructor
  · rcases hinv.owned_kept hproc hview hsettle howned with hkept | ⟨rfl, e, rfl⟩
    · exact hkept
    · rcases hself rfl with hp | ⟨handler, hp⟩ <;> cases hp
  · intro q hq
    rcases Pool.of_update_some hq with ⟨rfl, rfl⟩ | ⟨hne, hq⟩
    · generalize k w'.clock r = q at ht
      rcases hself rfl with rfl | ⟨handler, rfl⟩
      · cases ht with
        | admitted => exact ⟨_, rfl⟩
        | answered hresult => exact absurd rfl hresult
      · cases ht with
        | handlerAwaited => exact ⟨_, rfl⟩
        | handlerSucceeded => exact absurd (handled_mem hview hsettle) (hrunning _)
        | handlerFailed => exact absurd (handled_mem hview hsettle) (hrunning _)
    · exact hother hne q hq

theorem Admission.settle_succeeded (hinv : dep.Admission key c) (hproc : c.procs i = some p)
    (hview : (dep.control M).view i p = .await op k)
    (hsettle : c.store.settle d f op = some (r, w')) {j : ℕ} {response : Response}
    (hj : dep.key j = key)
    (hmem : handledEvent j (.ok response) ∈ (⟨i, op, r⟩ : Event calls ℕ) :: c.log) :
    dep.OwnedBy key j w' ∧
      ∀ q, Function.update c.procs i (some (k w'.clock r)) j = some q →
        q.Succeeded response := by
  have ht := transition hview hsettle
  have hbefore : dep.OwnedBy key j c.store ∧
      (j = i → p = .handling ⟨.done (.ok response), trivial⟩ ∨ p.Succeeded response) ∧
      (j ≠ i → ∀ q, c.procs j = some q → q.Succeeded response) := by
    rcases mem_log_handled hview hmem with hold | ⟨rfl, rfl⟩
    · obtain ⟨howned, hcontrol⟩ := hinv.succeeded j response hj hold
      exact ⟨howned, fun hji ↦ .inr (hcontrol p (hji ▸ hproc)), fun _ ↦ hcontrol⟩
    · exact ⟨hinv.owner j _ hj hproc trivial, fun _ ↦ .inl rfl, fun hne ↦ absurd rfl hne⟩
  obtain ⟨howned, hself, hother⟩ := hbefore
  constructor
  · rcases hinv.owned_kept hproc hview hsettle howned with hkept | ⟨rfl, e, rfl⟩
    · exact hkept
    · rcases hself rfl with hp | hp
      · cases hp
      · exact hp.elim
  · intro q hq
    rcases Pool.of_update_some hq with ⟨rfl, rfl⟩ | ⟨hne, hq⟩
    · generalize k w'.clock r = q at ht
      rcases hself rfl with rfl | hp
      · cases ht with
        | handlerSucceeded => exact rfl
      · cases ht with
        | stored => exact hp
        | storeFailed | storeEnded => trivial
        | _ => exact hp.elim
    · exact hother hne q hq

/-- A second success would have to come from a second owner. -/
theorem Admission.settle_once (hinv : dep.Admission key c) (hproc : c.procs i = some p)
    (hview : (dep.control M).view i p = .await op k) :
    ((⟨i, op, r⟩ : Event calls ℕ) :: c.log).countP (dep.succeededFor key) ≤ 1 := by
  rw [List.countP_cons]
  by_cases hnew : dep.succeededFor key ⟨i, op, r⟩
  · have hzero : c.log.countP (dep.succeededFor key) = 0 := by
      rw [List.countP_eq_zero]
      intro e he hsucceeded
      obtain ⟨j, response, rfl, hcarries⟩ := succeededFor_iff.mp hsucceeded
      obtain ⟨i', response', heq, hcarries'⟩ := succeededFor_iff.mp hnew
      cases heq
      rcases view_observe hview with ⟨result, hobs, -⟩ | ⟨outcome, hobs, rfl⟩
      · cases hobs
      cases hobs
      -- both own the record, so they are one process, which has left its handler
      have howner := hinv.owner i _ hcarries'.key_eq hproc trivial
      obtain ⟨howned, hcontrol⟩ := hinv.succeeded j response hcarries.key_eq he
      obtain rfl := howned.unique howner
      exact hcontrol _ hproc
    rw [hzero]
    split <;> omega
  · rw [if_neg hnew]
    exact hinv.once

end Settle

variable {d : Delivery}

theorem Admission.step {a b : Config calls World ℕ Control} {m : (ledger d).Moves}
    (hstep : (dep.control (ledger d)).Step a m b) (hlegal : b.store.Unexpired key)
    (hinv : dep.Admission key a) : dep.Admission key b := by
  cases hstep with
  | @settle i f p op k r w' hproc hview hsettle =>
      have hclock : w'.clock = a.store.clock := World.settle_clock hsettle
      have ht := transition hview hsettle
      exact
        { unexpired := hlegal
          sweep := by
            intro j now hj
            rcases Pool.of_update_some hj with ⟨rfl, hq⟩ | ⟨-, hj⟩
            · change _ = k w'.clock r at hq
              rw [← hq] at ht
              cases ht with
              | cronStarted hnow => exact le_of_eq (hnow.trans hclock.symm)
            · exact (hinv.sweep j now hj).trans (le_of_eq hclock.symm)
          fresh := by
            intro j hkey hj
            rcases Pool.of_update_some hj with ⟨rfl, hq⟩ | ⟨-, hj⟩
            · change _ = k w'.clock r at hq
              rw [← hq] at ht
              cases ht with
              | foundExpired hrow hexpired =>
                  rw [hkey] at hrow
                  have := hinv.unexpired _ hrow
                  omega
            · exact hinv.fresh j hkey hj
          owner := by
            intro j q hkey hj howns
            rcases Pool.of_update_some hj with ⟨rfl, rfl⟩ | ⟨hne, hj⟩
            · rcases owns_next ht howns with ⟨hp, hkeep⟩ | howned
              · have howned := hinv.owner j p hkey hproc hp
                rcases hinv.owned_kept hproc hview hsettle howned with hkept | ⟨-, e, rfl⟩
                · exact hkept
                · exact absurd rfl (hkeep e)
              · exact hkey ▸ howned
            · have howned := hinv.owner j q hkey hj howns
              rcases hinv.owned_kept hproc hview hsettle howned with hkept | ⟨rfl, -⟩
              · exact hkept
              · exact absurd rfl hne
          missed := fun j hkey ↦ hinv.settle_missed hproc hview hsettle hkey
          succeeded := fun j response hkey ↦ hinv.settle_succeeded hproc hview hsettle hkey
          once := hinv.settle_once hproc hview }
  | @crash i p op k hproc hview =>
      exact
        { unexpired := hinv.unexpired
          sweep := fun j now hj ↦ hinv.sweep j now (Pool.of_update_none hj).2
          fresh := fun j hkey hj ↦ hinv.fresh j hkey (Pool.of_update_none hj).2
          owner := fun j q hkey hj ↦ hinv.owner j q hkey (Pool.of_update_none hj).2
          missed := by
            intro j hkey hmissed hrunning
            obtain ⟨howned, hcontrol⟩ := hinv.missed j hkey hmissed hrunning
            exact ⟨howned, fun q hj ↦ hcontrol q (Pool.of_update_none hj).2⟩
          succeeded := by
            intro j response hkey hmem
            obtain ⟨howned, hcontrol⟩ := hinv.succeeded j response hkey hmem
            exact ⟨howned, fun q hj ↦ hcontrol q (Pool.of_update_none hj).2⟩
          once := hinv.once }
  | @drift dr w' hdrift =>
      obtain rfl := Option.some.inj hdrift
      have howned : ∀ {j}, dep.OwnedBy key j a.store →
          dep.OwnedBy key j (a.store.drift dr) := by
        rintro j ⟨row, hrow, hid⟩
        exact ⟨row, (World.drift_record ..).trans hrow, hid⟩
      exact
        { unexpired := hlegal
          sweep := fun j now hj ↦ (hinv.sweep j now hj).trans (World.clock_le_drift ..)
          fresh := hinv.fresh
          owner := fun j q hkey hj howns ↦ howned (hinv.owner j q hkey hj howns)
          missed := by
            intro j hkey hmissed hrunning
            obtain ⟨h, hcontrol⟩ := hinv.missed j hkey hmissed hrunning
            exact ⟨howned h, hcontrol⟩
          succeeded := by
            intro j response hkey hmem
            obtain ⟨h, hcontrol⟩ := hinv.succeeded j response hkey hmem
            exact ⟨howned h, hcontrol⟩
          once := hinv.once }

theorem admission_start (clock : ℕ) : dep.Admission key (dep.controlStart clock) := by
  have hinitial : ∀ i p, (dep.controlStart clock).procs i = some p →
      p = .initial (dep.role i) := fun i p h ↦ (Option.some.inj h).symm
  exact
    { unexpired := nofun
      sweep := by
        intro i now hi
        have := hinitial i _ hi
        rcases Control.initial_cases (dep.role i) with h | h | ⟨_, h⟩ | ⟨_, h⟩ <;>
          rw [h] at this <;> cases this
      fresh := by
        intro i _ hi
        have := hinitial i _ hi
        rcases Control.initial_cases (dep.role i) with h | h | ⟨_, h⟩ | ⟨_, h⟩ <;>
          rw [h] at this <;> cases this
      owner := by
        intro i p _ hi howns
        have := hinitial i _ hi
        rcases Control.initial_cases (dep.role i) with h | h | ⟨_, h⟩ | ⟨_, h⟩ <;>
          rw [h] at this <;> subst this <;> exact howns.elim
      missed := nofun
      succeeded := nofun
      once := Nat.zero_le _ }

theorem admission_of_reachable {clock : ℕ} {c : Config calls World ℕ Control}
    (h : (dep.control (ledger d)).Reachable (fun _ _ b ↦ b.store.Unexpired key)
      (dep.controlStart clock) c) : dep.Admission key c :=
  h.invariant (dep.Admission key) (admission_start clock) fun _ hstep hlegal hinv ↦
    hinv.step hstep hlegal

/-! ## The lock -/

theorem Admission.owned_of_admitted {M : Machine calls World ℕ} {i : ℕ}
    (hinv : dep.Admission key c) (hcarries : dep.Carries key i)
    (h : Admitted (dep.control M) c i) : dep.OwnedBy key i c.store := by
  rcases h with hpending | ⟨hmissed, hrunning⟩
  · exact hinv.owner i _ hcarries.key_eq (procs_of_pending_checked hpending) trivial
  · exact (hinv.missed i hcarries.key_eq hmissed hrunning).1

theorem Admission.atMostOnce (M : Machine calls World ℕ) (hinv : dep.Admission key c) :
    dep.AtMostOnce key (dep.control M) c where
  admitted i j hi hj hadm hadm' :=
    (hinv.owned_of_admitted hi hadm).unique (hinv.owned_of_admitted hj hadm')
  succeeded := hinv.once
  final e he hsucceeded j hj hpending := by
    obtain ⟨i, response, rfl, hi⟩ := succeededFor_iff.mp hsucceeded
    have hproc := procs_of_pending_checked hpending
    obtain ⟨howned, hcontrol⟩ := hinv.succeeded i response hi.key_eq he
    obtain rfl := howned.unique (hinv.owner j _ hj.key_eq hproc trivial)
    exact hcontrol _ hproc

/-- In every run that lets no record of the key expire, at most one request is
between its 'miss' and the end of its handler, and at most one handler succeeds. -/
theorem atMostOnce_of_reachable (dep : Deployment) (d : Delivery) (key : String) (clock : ℕ)
    {c : Config calls World ℕ (Promise Outcome)}
    (h : ((ledger d).programs Outcome).Reachable (fun _ _ b ↦ b.store.Unexpired key)
      (dep.start clock) c) : dep.AtMostOnce key ((ledger d).programs Outcome) c := by
  have himpl := dep.control_implements (ledger d)
  rw [← dep.map_controlStart] at h
  obtain ⟨b, rfl, hb⟩ := himpl.lift h
  have hlock := (admission_of_reachable hb).atMostOnce (ledger d)
  have hadmitted : ∀ i, Admitted ((ledger d).programs Outcome) (b.map dep.code) i →
      Admitted (dep.control (ledger d)) b i := by
    intro i hi
    rwa [Admitted, himpl.pending_map] at hi
  exact
    { admitted := fun i j hi hj hadm hadm' ↦
        hlock.admitted i j hi hj (hadmitted i hadm) (hadmitted j hadm')
      succeeded := hlock.succeeded
      final := by
        intro e he hsucceeded j hj
        rw [himpl.pending_map]
        exact hlock.final e he hsucceeded j hj }

/-! ## A run -/

def oneHour : IdempotencyConfig := ⟨1, le_rfl⟩

def drill (role : ℕ → Role) : Deployment where
  cfg := oneHour
  role := role
  recordId i := String.ofList (List.replicate i 'r')
  recordId_injective i j h := by
    have hlength := congrArg (fun s ↦ s.toList.length) h
    simpa using hlength

def posting (key requestHash : String) : Role :=
  .post ⟨⟨some key, requestHash⟩, ⟨pure ⟨⟨201, by decide⟩, .str "ok"⟩, trivial⟩⟩

/-- A retry arrives while the first request is in its handler. -/
def retryDuringHandler : List (ledger .exclusive).Moves :=
  [.settle 0 .run, .settle 0 .run, .settle 1 .run, .settle 0 .run, .settle 1 .run,
    .settle 0 .run]

theorem atMostOnce_retryDuringHandler :
    (drill fun _ ↦ posting "k" "h").AtMostOnce "k" ((ledger .exclusive).programs Outcome)
      (((ledger .exclusive).programs Outcome).played (fun _ _ b ↦ b.store.Unexpired "k")
        ((drill fun _ ↦ posting "k" "h").start 0) retryDuringHandler) :=
  atMostOnce_of_reachable _ _ _ 0
    (Pool.reachable_played (fun _ _ _ h ↦ of_decide_eq_true h) rfl)

end Deployment

end TransactionLedger
