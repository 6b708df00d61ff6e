import TransactionLedger.Idempotency.Admission

/-!
# Replayed responses

Every response the stores hold for a key was sent by a handler that succeeded,
so every answer 'cached' repeats the one success there is.
-/

namespace TransactionLedger

open Async IdempotencyService

namespace Deployment

variable {dep : Deployment} {key : String} {c : Config calls World ℕ Control} {P : Type}

/-- A handler for the key succeeded with this response, for a request with this
hash. -/
def Produced (dep : Deployment) (key : String) (log : List (Event calls ℕ))
    (requestHash : String) (statusCode : ℕ) (response : Option Json) : Prop :=
  ∃ i sent, dep.Carries key i ∧ handledEvent i (.ok sent) ∈ log ∧
    dep.hash i = requestHash ∧ sent.status.code = statusCode ∧ some sent.body = response

/-- `checkAndAcquire` answered process `i`, just now or earlier. -/
def Answered {M : Machine calls World ℕ} (L : Pool M Outcome P) (c : Config calls World ℕ P)
    (i : ℕ) (result : IdempotencyCheckResult) : Prop :=
  L.pending c i = some (.observe (.checked result)) ∨ checkedEvent i result ∈ c.log

/-- Every answer 'cached' repeats the only success of the key, to a request with
the same hash. -/
structure ReplayAgreement (dep : Deployment) (key : String) {M : Machine calls World ℕ}
    (L : Pool M Outcome P) (c : Config calls World ℕ P) : Prop where
  produced : ∀ i statusCode response, dep.Carries key i →
    Answered L c i (.cached statusCode response) →
      dep.Produced key c.log (dep.hash i) statusCode response
  only : ∀ i j sent sent', dep.Carries key i → dep.Carries key j →
    handledEvent i (.ok sent) ∈ c.log → handledEvent j (.ok sent') ∈ c.log →
      i = j ∧ sent = sent'

theorem Produced.cons {log : List (Event calls ℕ)} {e : Event calls ℕ} {requestHash : String}
    {statusCode : ℕ} {response : Option Json}
    (h : dep.Produced key log requestHash statusCode response) :
    dep.Produced key (e :: log) requestHash statusCode response := by
  obtain ⟨i, sent, hcarries, hmem, hrest⟩ := h
  exact ⟨i, sent, hcarries, List.mem_cons_of_mem _ hmem, hrest⟩

/-! ## The invariant -/

/-- What a control point promises about the response it carries. -/
def Genuine (dep : Deployment) (key : String) (log : List (Event calls ℕ)) (i : ℕ) :
    Control → Prop
  | .storeUpdate response => handledEvent i (.ok response) ∈ log
  | .storeSet response => handledEvent i (.ok response) ∈ log
  | .repopulate row statusCode =>
      row.requestHash = dep.hash i ∧
        dep.Produced key log (dep.hash i) statusCode row.response
  | .checked (.cached statusCode response) =>
      dep.Produced key log (dep.hash i) statusCode response
  | _ => True

structure Replay (dep : Deployment) (key : String) (c : Config calls World ℕ Control) :
    Prop where
  row : ∀ row, c.store.record key = some row →
    (∃ i, row.id = dep.recordId i ∧ row.requestHash = dep.hash i) ∧
      ∀ statusCode, row.statusCode = some statusCode →
        dep.Produced key c.log row.requestHash statusCode row.response
  redis : ∀ data, c.store.redisGet (redisKey key) = some (.json data) →
    ∀ statusCode, data.statusCode = some statusCode →
      dep.Produced key c.log data.requestHash statusCode data.response
  control : ∀ i p, dep.key i = key → c.procs i = some p → dep.Genuine key c.log i p
  cached : ∀ i statusCode response, dep.key i = key →
    checkedEvent i (.cached statusCode response) ∈ c.log →
      dep.Produced key c.log (dep.hash i) statusCode response

theorem Genuine.cons {log : List (Event calls ℕ)} {e : Event calls ℕ} {i : ℕ} {p : Control}
    (h : dep.Genuine key log i p) : dep.Genuine key (e :: log) i p := by
  cases p with
  | storeUpdate response | storeSet response => exact List.mem_cons_of_mem _ h
  | repopulate row statusCode => exact ⟨h.1, h.2.cons⟩
  | checked result =>
      cases result with
      | cached statusCode response => exact Produced.cons h
      | _ => trivial
  | _ => trivial

section Settle

variable {d : Delivery} {M : Machine calls World ℕ} {f : Fate} {w' : World} {i : ℕ} {p : Control}
  {op : Op} {k : ℕ → Except Err op.Res → Control} {r : Except Err op.Res}

theorem Replay.settle_row (hinv : dep.Replay key c) (hlock : dep.Admission key c)
    (hcarries : p.Serving → dep.Carries (dep.key i) i) (hproc : c.procs i = some p)
    (hview : (dep.control M).view i p = .await op k)
    (hsettle : c.store.settle d f op = some (r, w')) {row : IdempotencyRecord}
    (hrow : w'.record key = some row) :
    (∃ i, row.id = dep.recordId i ∧ row.requestHash = dep.hash i) ∧
      ∀ statusCode, row.statusCode = some statusCode →
        dep.Produced key (⟨i, op, r⟩ :: c.log) row.requestHash statusCode row.response := by
  rcases row_change key hview hsettle with hsame | hchange
  · obtain ⟨hid, hproduced⟩ := hinv.row row (hsame.symm.trans hrow)
    exact ⟨hid, fun statusCode h ↦ (hproduced statusCode h).cons⟩
  rw [hrow] at hchange
  generalize hbefore : c.store.record key = before at hchange
  cases hchange with
  | inserted hkey => exact ⟨⟨i, rfl, rfl⟩, nofun⟩
  | @stored response old hkey =>
      obtain ⟨⟨j, hid, hhash⟩, -⟩ := hinv.row old hbefore
      obtain ⟨own, hown, hownid⟩ := hlock.owner i _ hkey hproc trivial
      obtain rfl := Option.some.inj (hbefore.symm.trans hown)
      obtain rfl := dep.recordId_injective (hid.symm.trans hownid)
      refine ⟨⟨j, hid, hhash⟩, ?_⟩
      rintro statusCode hcode
      obtain rfl := Option.some.inj hcode
      exact ⟨j, response, hkey ▸ hcarries trivial,
        List.mem_cons_of_mem _ (hinv.control j _ hkey hproc), hhash.symm, rfl, rfl⟩

theorem Replay.settle_redis (hinv : dep.Replay key c)
    (hcarries : p.Serving → dep.Carries (dep.key i) i) (hproc : c.procs i = some p)
    (hview : (dep.control M).view i p = .await op k)
    (hsettle : c.store.settle d f op = some (r, w')) {data : IdempotencyData}
    (hdata : w'.redisGet (redisKey key) = some (.json data)) {statusCode : ℕ}
    (hcode : data.statusCode = some statusCode) :
    dep.Produced key (⟨i, op, r⟩ :: c.log) data.requestHash statusCode data.response := by
  rcases redis_change key hview hsettle with hsame | hchange
  · exact (hinv.redis data (hsame.symm.trans hdata) statusCode hcode).cons
  rw [hdata] at hchange
  generalize c.store.redisGet (redisKey key) = before at hchange
  cases hchange with
  | placed hkey => cases hcode
  | repopulated hkey =>
      obtain rfl := Option.some.inj hcode
      obtain ⟨hhash, hproduced⟩ := hinv.control i _ hkey hproc
      exact hhash ▸ hproduced.cons
  | @stored _ response hkey =>
      obtain rfl := Option.some.inj hcode
      exact ⟨i, response, hkey ▸ hcarries trivial,
        List.mem_cons_of_mem _ (hinv.control i _ hkey hproc), rfl, rfl, rfl⟩

/-- What a process reads is genuine when what the stores hold is. -/
theorem Replay.settle_control (hinv : dep.Replay key c) (hkey : dep.key i = key)
    (hproc : c.procs i = some p) (hview : (dep.control M).view i p = .await op k)
    (hsettle : c.store.settle d f op = some (r, w')) :
    dep.Genuine key (⟨i, op, r⟩ :: c.log) i (k w'.clock r) := by
  have ht := transition hview hsettle
  have hp := hinv.control i p hkey hproc
  generalize k w'.clock r = q at ht
  cases ht with
  | @parsed raw result hfound htruthy hparse =>
      cases result with
      | cached statusCode response =>
          obtain rfl := parseIdempotencyData_cached hparse
          rw [hkey] at hfound
          exact (hinv.redis _ hfound statusCode rfl).cons
      | _ => trivial
  | @foundResponse row statusCode hrow hhash hcode =>
      rw [hkey] at hrow
      have hproduced := (hinv.row row hrow).2 statusCode (truthyCode_eq hcode)
      rw [hhash] at hproduced
      exact ⟨hhash, hproduced.cons⟩
  | repopulated => exact hp.2.cons
  | handlerSucceeded => exact handled_mem hview hsettle
  | stored => exact List.mem_cons_of_mem _ hp
  | _ => trivial

theorem Replay.settle_cached (hinv : dep.Replay key c) (hproc : c.procs i = some p)
    (hview : (dep.control M).view i p = .await op k) {j statusCode : ℕ}
    {response : Option Json} (hkey : dep.key j = key)
    (hmem : checkedEvent j (.cached statusCode response) ∈ (⟨i, op, r⟩ : Event calls ℕ) :: c.log) :
    dep.Produced key (⟨i, op, r⟩ :: c.log) (dep.hash j) statusCode response := by
  rcases mem_log_checked hview hmem with hold | ⟨rfl, rfl⟩
  · exact (hinv.cached j statusCode response hkey hold).cons
  · exact Produced.cons (hinv.control j _ hkey hproc)

end Settle

theorem Replay.step {d : Delivery} {a b : Config calls World ℕ Control} {m : (ledger d).Moves}
    (hstep : (dep.control (ledger d)).Step a m b) (hlock : dep.Admission key a)
    (hcarries : ∀ i p, a.procs i = some p → p.Serving → dep.Carries (dep.key i) i)
    (hinv : dep.Replay key a) : dep.Replay key b := by
  cases hstep with
  | @settle i f p op k r w' hproc hview hsettle =>
      have hserving := hcarries i p hproc
      exact
        { row := fun row ↦ hinv.settle_row hlock hserving hproc hview hsettle
          redis := fun data hdata statusCode ↦
            hinv.settle_redis hserving hproc hview hsettle hdata
          control := by
            intro j q hkey hj
            rcases Pool.of_update_some hj with ⟨rfl, rfl⟩ | ⟨-, hj⟩
            · exact hinv.settle_control hkey hproc hview hsettle
            · exact (hinv.control j q hkey hj).cons
          cached := fun j statusCode response hkey ↦ hinv.settle_cached hproc hview hkey }
  | crash hproc hview =>
      exact
        { row := hinv.row
          redis := hinv.redis
          control := fun j q hkey hj ↦ hinv.control j q hkey (Pool.of_update_none hj).2
          cached := hinv.cached }
  | @drift dr w' hdrift =>
      obtain rfl := Option.some.inj hdrift
      exact
        { row := fun row hrow ↦ hinv.row row ((World.drift_record ..).symm.trans hrow)
          redis := by
            intro data hdata
            rcases World.drift_redisGet a.store dr (redisKey key) with hsame | hnone
            · exact hinv.redis data (hsame.symm.trans hdata)
            · exact absurd (hnone.symm.trans hdata) nofun
          control := hinv.control
          cached := hinv.cached }

theorem replay_start (clock : ℕ) : dep.Replay key (dep.controlStart clock) where
  row := nofun
  redis := nofun
  control := by
    intro i p _ hi
    obtain rfl := Option.some.inj hi
    rcases Control.initial_cases (dep.role i) with h | h | ⟨_, h⟩ | ⟨_, h⟩ <;>
      rw [h] <;> trivial
  cached := nofun

theorem replay_of_reachable {d : Delivery} {clock : ℕ} {c : Config calls World ℕ Control}
    (h : (dep.control (ledger d)).Reachable (fun _ _ b ↦ b.store.Unexpired key)
      (dep.controlStart clock) c) : dep.Replay key c :=
  h.invariant (dep.Replay key) (replay_start clock) fun ha hstep _ hinv ↦
    hinv.step hstep (admission_of_reachable ha) fun _ _ ↦ carries_of_serving ha

/-! ## The agreement -/

theorem Admission.only (hlock : dep.Admission key c) {i j : ℕ} {sent sent' : Response}
    (hi : dep.Carries key i) (hj : dep.Carries key j)
    (hmem : handledEvent i (.ok sent) ∈ c.log) (hmem' : handledEvent j (.ok sent') ∈ c.log) :
    i = j ∧ sent = sent' := by
  have heq : handledEvent i (.ok sent) = handledEvent j (.ok sent') :=
    Data.eq_of_countP_le_one hlock.once hmem hmem' (succeededFor_iff.mpr ⟨i, sent, rfl, hi⟩)
      (succeededFor_iff.mpr ⟨j, sent', rfl, hj⟩)
  cases heq
  exact ⟨rfl, rfl⟩

theorem Replay.agreement (M : Machine calls World ℕ) (hinv : dep.Replay key c)
    (hlock : dep.Admission key c) : dep.ReplayAgreement key (dep.control M) c where
  produced i statusCode response hi hanswered := by
    rcases hanswered with hpending | hmem
    · exact hinv.control i _ hi.key_eq (procs_of_pending_checked hpending)
    · exact hinv.cached i statusCode response hi.key_eq hmem
  only i j sent sent' hi hj hmem hmem' := hlock.only hi hj hmem hmem'

/-- In every run that lets no record of the key expire, a replayed response is the
one of the only handler that succeeded, for the same body. -/
theorem replayAgreement_of_reachable (dep : Deployment) (d : Delivery) (key : String)
    (clock : ℕ) {c : Config calls World ℕ (Promise Outcome)}
    (h : ((ledger d).programs Outcome).Reachable (fun _ _ b ↦ b.store.Unexpired key)
      (dep.start clock) c) : dep.ReplayAgreement key ((ledger d).programs Outcome) c := by
  have himpl := dep.control_implements (ledger d)
  rw [← dep.map_controlStart] at h
  obtain ⟨b, rfl, hb⟩ := himpl.lift h
  have hagree := (replay_of_reachable hb).agreement (ledger d) (admission_of_reachable hb)
  refine { produced := ?_, only := hagree.only }
  intro i statusCode response hi hanswered
  rw [Answered, himpl.pending_map] at hanswered
  exact hagree.produced i statusCode response hi hanswered

/-- The first request completes, Redis loses its entry, and a retry reads the
record. -/
def replayFromRecord : List (ledger .exclusive).Moves :=
  [.settle 0 .run, .settle 0 .run, .settle 0 .run, .settle 0 .run, .settle 0 .run,
    .settle 0 .run, .drift (.loseRedisKey (redisKey "k")), .settle 1 .run, .settle 1 .run,
    .settle 1 .run, .settle 1 .run, .settle 1 .run]

theorem replayAgreement_replayFromRecord :
    (drill fun _ ↦ posting "k" "h").ReplayAgreement "k" ((ledger .exclusive).programs Outcome)
      (((ledger .exclusive).programs Outcome).played (fun _ _ b ↦ b.store.Unexpired "k")
        ((drill fun _ ↦ posting "k" "h").start 0) replayFromRecord) :=
  replayAgreement_of_reachable _ _ _ 0
    (Pool.reachable_played (fun _ _ _ h ↦ of_decide_eq_true h) rfl)

end Deployment

end TransactionLedger
