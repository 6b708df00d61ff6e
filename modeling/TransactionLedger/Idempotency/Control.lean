import TransactionLedger.Async.Simulation
import TransactionLedger.Idempotency.Service

/-!
# Control points of the idempotency machinery

The requests of a deployment run `intercept`, one process runs the hourly
clean-up, and any others do work of their own.  A control point names the await
a process is at; `code` reads it back as the rest of the program.
-/

namespace TransactionLedger

open Async IdempotencyService IdempotencyInterceptor

/-- A program that leaves the idempotency stores alone. -/
abbrev ForeignPromise (α : Type) : Type := {q : Promise α // q.Uses Op.Foreign}

/-- A request together with the handler behind the interceptor. -/
structure Post where
  request : Request
  handler : ForeignPromise Response

inductive Role : Type where
  | post (p : Post)
  | cron
  | background (job : ForeignPromise Unit)

inductive Outcome : Type where
  | replied (reply : Reply)
  | cleaned (count : ℕ)
  | finished

/-- Infinitely many processes, and the primary key that Prisma draws for the
record each of them may insert. -/
structure Deployment where
  cfg : IdempotencyConfig
  role : ℕ → Role
  recordId : ℕ → String
  recordId_injective : Function.Injective recordId

def reply (p : Promise Reply) : Promise Outcome := do
  let r ← p
  pure (.replied r)

def cronJob : Promise Outcome := do
  let (now, _) ← awaitAt .cronTrigger
  let count ← cleanupExpiredRecords now
  pure (.cleaned count)

def Role.main (cfg : IdempotencyConfig) (id : String) : Role → Promise Outcome
  | .post p => reply (intercept cfg id p.request p.handler.1)
  | .cron => cronJob
  | .background job => do
      job.1
      pure .finished

def Deployment.main (dep : Deployment) (i : ℕ) : Promise Outcome :=
  (dep.role i).main dep.cfg (dep.recordId i)

/-- The request a process serves; processes of the other roles carry no key. -/
def Role.toPost : Role → Post
  | .post p => p
  | _ => ⟨⟨none, ""⟩, ⟨throw (.error ""), trivial⟩⟩

def Deployment.post (dep : Deployment) (i : ℕ) : Post := (dep.role i).toPost

/-- The await a process is at. -/
inductive Control : Type where
  | setNX
  | create (expiresAt : ℕ)
  | rollbackDup
  | rollback (e : Err)
  | get
  | findUnique
  | expiredDelete
  | expiredDel
  | repopulate (record : IdempotencyRecord) (statusCode : ℕ)
  | checked (result : IdempotencyCheckResult)
  | handling (handler : ForeignPromise Response)
  | storeUpdate (response : Response)
  | storeSet (response : Response)
  | releaseDelete (e : Err)
  | releaseDel (e : Err)
  | cronWait
  | cronDelete (now : ℕ)
  | background (job : ForeignPromise Unit)
  | ended (r : Except Err Outcome)

namespace Control

section

variable (cfg : IdempotencyConfig) (id : String) (p : Post)

/-- The rest of a request that is still inside `checkAndAcquire`. -/
def checking (q : Promise IdempotencyCheckResult) : Promise Outcome :=
  reply (q >>= receive cfg p.request p.handler.1)

/-- The rest of the program at a control point. -/
def code : Control → Promise Outcome
  | .setNX => checking cfg p (checkAndAcquire cfg id p.request.key p.request.requestHash)
  | .create expiresAt => checking cfg p
      (tryCatch
        (do
          let _ ← await (.recordCreate id p.request.key p.request.requestHash expiresAt)
          pure .miss)
        (IdempotencyService.rollback cfg p.request.key p.request.requestHash))
  | .rollbackDup => checking cfg p
      (IdempotencyService.rollback cfg p.request.key p.request.requestHash (.prisma .p2002))
  | .rollback e => checking cfg p (do
      RedisService.del (redisKey p.request.key)
      throw e)
  | .get => checking cfg p (inspectExisting cfg p.request.key p.request.requestHash)
  | .findUnique => checking cfg p (inspectFromDb cfg p.request.key p.request.requestHash)
  | .expiredDelete => checking cfg p (do
      tryCatch (do let _ ← await (.recordDelete p.request.key)) fun _ ↦ pure ()
      tryCatch (RedisService.del (redisKey p.request.key)) fun _ ↦ pure ()
      pure .inProgress)
  | .expiredDel => checking cfg p (do
      tryCatch (RedisService.del (redisKey p.request.key)) fun _ ↦ pure ()
      pure .inProgress)
  | .repopulate record statusCode => checking cfg p (do
      RedisService.set (redisKey p.request.key)
        (.json ⟨record.requestHash, some statusCode, record.response⟩) (some cfg.ttlSeconds)
      pure (.cached statusCode record.response))
  | .checked result => reply (receive cfg p.request p.handler.1 result)
  | .handling handler => reply (handleMiss cfg p.request handler.1)
  | .storeUpdate response => reply (tryCatch
      (do
        tryCatch (store cfg p.request.key p.request.requestHash response.status.code
          response.body) fun _ ↦ pure ()
        pure response.reply)
      (handlerFailed p.request))
  | .storeSet response => reply (tryCatch
      (do
        tryCatch (RedisService.set (redisKey p.request.key)
          (.json ⟨p.request.requestHash, some response.status.code, some response.body⟩)
          (some cfg.ttlSeconds)) fun _ ↦ pure ()
        pure response.reply)
      (handlerFailed p.request))
  | .releaseDelete e => reply (do
      tryCatch (release p.request.key) fun _ ↦ pure ()
      throw e)
  | .releaseDel e => reply (do
      tryCatch (tryCatch (RedisService.del (redisKey p.request.key)) fun _ ↦ pure ())
        fun _ ↦ pure ()
      throw e)
  | .cronWait => cronJob
  | .cronDelete now => do
      let count ← cleanupExpiredRecords now
      pure (.cleaned count)
  | .background job => do
      job.1
      pure .finished
  | .ended r => .done r

/-- The reply to a `checkAndAcquire` that found a record in PostgreSQL. -/
def inspected (now : ℕ) : Option IdempotencyRecord → Control
  | none => .checked .inProgress
  | some record =>
      if record.expiresAt ≤ now then .expiredDelete
      else if record.requestHash = p.request.requestHash then
        match truthyCode record.statusCode with
        | none => .checked .inProgress
        | some statusCode => .repopulate record statusCode
      else .checked .hashMismatch

/-- The call awaited at a control point, and where its outcome leads. -/
def view : Control → View calls Outcome Control
  | .setNX =>
      .await (.redisSetNX (redisKey p.request.key) (placeholder p.request.requestHash)
        cfg.ttlSeconds) fun t r ↦ match r with
        | .ok true => .create (t + cfg.ttlSeconds * 1000)
        | .ok false => .get
        | .error e => .ended (.error e)
  | .create expiresAt =>
      .await (.recordCreate id p.request.key p.request.requestHash expiresAt) fun _ r ↦
        match r with
        | .ok _ => .checked .miss
        | .error (.prisma .p2002) => .rollbackDup
        | .error e => .rollback e
  | .rollbackDup =>
      .await (.redisDel (redisKey p.request.key)) fun _ r ↦ match r with
        | .ok _ => .findUnique
        | .error e => .ended (.error e)
  | .rollback e =>
      .await (.redisDel (redisKey p.request.key)) fun _ r ↦ match r with
        | .ok _ => .ended (.error e)
        | .error e' => .ended (.error e')
  | .get =>
      .await (.redisGet (redisKey p.request.key)) fun _ r ↦ match r with
        | .ok none => .findUnique
        | .ok (some raw) =>
            if raw.truthy then .checked (parseIdempotencyData raw p.request.requestHash)
            else .findUnique
        | .error e => .ended (.error e)
  | .findUnique =>
      .await (.recordFindUnique p.request.key) fun t r ↦ match r with
        | .ok record => inspected p t record
        | .error e => .ended (.error e)
  | .expiredDelete => .await (.recordDelete p.request.key) fun _ _ ↦ .expiredDel
  | .expiredDel => .await (.redisDel (redisKey p.request.key)) fun _ _ ↦ .checked .inProgress
  | .repopulate record statusCode =>
      .await (.redisSet (redisKey p.request.key)
        (.json ⟨record.requestHash, some statusCode, record.response⟩) (some cfg.ttlSeconds))
        fun _ r ↦ match r with
        | .ok _ => .checked (.cached statusCode record.response)
        | .error e => .ended (.error e)
  | .checked result =>
      .await (.observe (.checked result)) fun _ r ↦ match r, result with
        | .error e, _ => .ended (.error e)
        | .ok _, .hashMismatch => .ended (.error (.unprocessableEntity
            "Idempotency-Key already used with a different request body"))
        | .ok _, .inProgress => .ended (.error (.conflict
            "Request with this Idempotency-Key is already being processed"))
        | .ok _, .cached statusCode response => .ended (.ok (.replied ⟨statusCode, response⟩))
        | .ok _, .miss => .handling p.handler
  | .handling ⟨.await op k, h⟩ => .await op fun t r ↦ .handling ⟨k t r, h.2 t r⟩
  | .handling ⟨.done (.ok response), _⟩ =>
      .await (.observe (.handled (.ok response))) fun _ r ↦ match r with
        | .ok _ => .storeUpdate response
        | .error e => .handling ⟨.done (.error e), trivial⟩
  | .handling ⟨.done (.error e), _⟩ =>
      .await (.observe (.handled (.error e))) fun _ r ↦ match r with
        | .ok _ => .releaseDelete e
        | .error e' => .ended (.error e')
  | .storeUpdate response =>
      .await (.recordUpdate p.request.key response.status.code response.body) fun _ r ↦
        match r with
        | .ok _ => .storeSet response
        | .error _ => .ended (.ok (.replied response.reply))
  | .storeSet response =>
      .await (.redisSet (redisKey p.request.key)
        (.json ⟨p.request.requestHash, some response.status.code, some response.body⟩)
        (some cfg.ttlSeconds)) fun _ _ ↦ .ended (.ok (.replied response.reply))
  | .releaseDelete e => .await (.recordDelete p.request.key) fun _ _ ↦ .releaseDel e
  | .releaseDel e =>
      .await (.redisDel (redisKey p.request.key)) fun _ _ ↦ .ended (.error e)
  | .cronWait =>
      .await .cronTrigger fun t r ↦ match r with
        | .ok _ => .cronDelete t
        | .error e => .ended (.error e)
  | .cronDelete now =>
      .await (.recordDeleteMany now) fun _ r ↦ match r with
        | .ok count => .ended (.ok (.cleaned count))
        | .error e => .ended (.error e)
  | .background ⟨.await op k, h⟩ => .await op fun t r ↦ .background ⟨k t r, h.2 t r⟩
  | .background ⟨.done (.ok _), _⟩ => .done (.ok .finished)
  | .background ⟨.done (.error e), _⟩ => .done (.error e)
  | .ended r => .done r

theorem code_inspected (now : ℕ) (record : Option IdempotencyRecord) :
    code cfg id p (inspected p now record) =
      checking cfg p (inspectRecord cfg p.request.key p.request.requestHash now record) := by
  cases record with
  | none => rfl
  | some record =>
      simp only [inspected, inspectRecord]
      by_cases hexpired : record.expiresAt ≤ now
      · rw [if_pos hexpired, if_pos hexpired]
        rfl
      · by_cases hhash : record.requestHash = p.request.requestHash
        · rw [if_neg hexpired, if_neg hexpired, if_pos hhash, if_pos hhash]
          cases truthyCode record.statusCode <;> rfl
        · rw [if_neg hexpired, if_neg hexpired, if_neg hhash, if_neg hhash]
          rfl

theorem code_parsed (raw : RedisText) :
    code cfg id p (if raw.truthy then
        .checked (parseIdempotencyData raw p.request.requestHash) else .findUnique) =
      checking cfg p (if raw.truthy then
        pure (parseIdempotencyData raw p.request.requestHash)
        else inspectFromDb cfg p.request.key p.request.requestHash) := by
  by_cases htruthy : raw.truthy
  · rw [if_pos htruthy, if_pos htruthy]
    rfl
  · rw [if_neg htruthy, if_neg htruthy]
    rfl

/-- Each control point awaits what its program awaits. -/
theorem view_code (c : Control) :
    (code cfg id p c).view = (view cfg id p c).map (code cfg id p) := by
  have hset : ∀ key value, RedisService.set key value (some cfg.ttlSeconds) =
      await (.redisSet key value (some cfg.ttlSeconds)) :=
    fun key value ↦ RedisService.set_of_pos key value cfg.ttlSeconds_pos
  cases c with
  | setNX =>
      refine View.await_congr fun t r ↦ ?_
      rcases r with e | _ | _ <;> rfl
  | create expiresAt =>
      refine View.await_congr fun t r ↦ ?_
      rcases r with ((_ | _ | _) | _ | _ | _ | _) | _ <;> rfl
  | rollbackDup | rollback e | expiredDelete | expiredDel | storeUpdate response
  | releaseDelete e | releaseDel e | cronWait | cronDelete now =>
      refine View.await_congr fun t r ↦ ?_
      rcases r with e | _ <;> rfl
  | get =>
      refine View.await_congr fun t r ↦ ?_
      rcases r with e | _ | raw
      · rfl
      · rfl
      · exact (code_parsed cfg id p raw).symm
  | findUnique =>
      refine View.await_congr fun t r ↦ ?_
      rcases r with e | record
      · rfl
      · exact (code_inspected cfg id p t record).symm
  | repopulate record statusCode =>
      simp only [code, hset]
      refine View.await_congr fun t r ↦ ?_
      rcases r with e | _ <;> rfl
  | storeSet response =>
      simp only [code, hset]
      refine View.await_congr fun t r ↦ ?_
      rcases r with e | _ <;> rfl
  | checked result =>
      refine View.await_congr fun t r ↦ ?_
      rcases r with e | _ <;> cases result <;> rfl
  | handling handler =>
      rcases handler with ⟨(e | response) | ⟨op, k⟩, h⟩
      · refine View.await_congr fun t r ↦ ?_
        rcases r with e | _ <;> rfl
      · refine View.await_congr fun t r ↦ ?_
        rcases r with e | _ <;> rfl
      · rfl
  | background job =>
      rcases job with ⟨(e | _) | ⟨op, k⟩, h⟩ <;> rfl
  | ended r => rfl

end

def initial : Role → Control
  | .post p =>
      if p.request.hasKey then .setNX
      else .ended (.error (.badRequest "Idempotency-Key header is required"))
  | .cron => .cronWait
  | .background job => .background job

theorem initial_cases (role : Role) :
    initial role = .setNX ∨ initial role = .cronWait ∨
      (∃ job, initial role = .background job) ∨ ∃ r, initial role = .ended r := by
  cases role with
  | post p =>
      by_cases hkey : p.request.hasKey
      · exact .inl (if_pos hkey)
      · exact .inr (.inr (.inr ⟨_, if_neg hkey⟩))
  | cron => exact .inr (.inl rfl)
  | background job => exact .inr (.inr (.inl ⟨job, rfl⟩))

theorem code_initial (cfg : IdempotencyConfig) (id : String) (role : Role) :
    code cfg id role.toPost (initial role) = role.main cfg id := by
  cases role with
  | post p =>
      simp only [initial, Role.main, Role.toPost, intercept]
      cases p.request.hasKey <;> rfl
  | cron => rfl
  | background job => rfl

end Control

/-! ## The pools of a deployment -/

namespace Deployment

variable (dep : Deployment) (M : Machine calls World ℕ)

def control : Pool M Outcome Control where
  view i c := c.view dep.cfg (dep.recordId i) (dep.post i)

def code (i : ℕ) (c : Control) : Promise Outcome :=
  c.code dep.cfg (dep.recordId i) (dep.post i)

theorem control_implements : (dep.control M).Implements (M.programs Outcome) dep.code :=
  fun i c ↦ c.view_code dep.cfg (dep.recordId i) (dep.post i)

/-- Before any process has run: every program is at its first call. -/
def start (clock : ℕ) : Config calls World ℕ (Promise Outcome) where
  store := .initial clock
  procs i := some (dep.main i)
  log := []

def controlStart (clock : ℕ) : Config calls World ℕ Control where
  store := .initial clock
  procs i := some (.initial (dep.role i))
  log := []

theorem map_controlStart (clock : ℕ) : (dep.controlStart clock).map dep.code = dep.start clock := by
  simp only [Config.map, controlStart, start, Option.map_some, code, post, main,
    Control.code_initial]

def key (i : ℕ) : String := (dep.post i).request.key

def hash (i : ℕ) : String := (dep.post i).request.requestHash

/-- Process `i` serves a request that carries `key`. -/
def Carries (key : String) (i : ℕ) : Prop :=
  (dep.post i).request.idempotencyKey = some key

instance (key : String) (i : ℕ) : Decidable (dep.Carries key i) :=
  inferInstanceAs (Decidable (_ = _))

theorem Carries.key_eq {dep : Deployment} {key : String} {i : ℕ} (h : dep.Carries key i) :
    dep.key i = key := by
  simp only [Deployment.key, Request.key]
  rw [h]
  rfl

end Deployment

end TransactionLedger
