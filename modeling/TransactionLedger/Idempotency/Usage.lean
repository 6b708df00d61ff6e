import TransactionLedger.Async.Rely
import TransactionLedger.Idempotency.Control

/-!
# The calls of the idempotency service

Which calls the service and its interceptor issue.  Every SET sets the configured time to
live, and only `checkAndAcquire` itself locks a key or inserts a record.
-/

namespace TransactionLedger

open Async

/-- The calls behind the lock. -/
def Op.BehindLock (cfg : IdempotencyConfig) : Op → Prop
  | .redisGet _ => True
  | .redisSet _ _ ttlSeconds => ttlSeconds = some cfg.ttlSeconds
  | .redisDel _ => True
  | .recordFindUnique _ => True
  | .recordUpdate .. => True
  | .recordDelete _ => True
  | .recordDeleteMany _ => True
  | .observe _ => True
  | .cronTrigger => True
  | _ => False

/-- The calls of the idempotency service and of the interceptor. -/
def Op.OfService (op : Op) : Prop := ¬op.Foreign

theorem Op.BehindLock.ofService {cfg : IdempotencyConfig} {op : Op} (h : op.BehindLock cfg) :
    op.OfService := by
  cases op <;> first | exact id | cases h

theorem uses_await {U : Op → Prop} {op : Op} (h : U op) : (await op).Uses U :=
  ⟨h, fun _ _ ↦ trivial⟩

variable (cfg : IdempotencyConfig)

namespace IdempotencyService

theorem set_uses (key : String) (value : RedisText) :
    (RedisService.set key value (some cfg.ttlSeconds)).Uses (Op.BehindLock cfg) := by
  rw [RedisService.set_of_pos _ _ cfg.ttlSeconds_pos]
  exact uses_await rfl

theorem release_uses (key : String) : (release key).Uses (Op.BehindLock cfg) := by
  refine Prog.Uses.bind (Prog.Uses.catchError ?_ fun _ ↦ trivial) fun _ ↦ ?_
  · exact Prog.Uses.bind (uses_await trivial) fun _ ↦ trivial
  · exact Prog.Uses.catchError (uses_await trivial) fun _ ↦ trivial

theorem inspectRecord_uses (key requestHash : String) (now : ℕ)
    (record : Option IdempotencyRecord) :
    (inspectRecord cfg key requestHash now record).Uses (Op.BehindLock cfg) := by
  cases record with
  | none => trivial
  | some row =>
      simp only [inspectRecord]
      split
      · refine Prog.Uses.bind (Prog.Uses.catchError ?_ fun _ ↦ trivial) fun _ ↦ ?_
        · exact Prog.Uses.bind (uses_await trivial) fun _ ↦ trivial
        · refine Prog.Uses.bind (Prog.Uses.catchError ?_ fun _ ↦ trivial) fun _ ↦ trivial
          exact uses_await trivial
      · split
        · cases truthyCode row.statusCode with
          | none => trivial
          | some code => exact Prog.Uses.bind (set_uses cfg _ _) fun _ ↦ trivial
        · trivial

theorem inspectFromDb_uses (key requestHash : String) :
    (inspectFromDb cfg key requestHash).Uses (Op.BehindLock cfg) :=
  Prog.Uses.bind ⟨trivial, fun _ _ ↦ trivial⟩ fun _ ↦ inspectRecord_uses ..

theorem inspectExisting_uses (key requestHash : String) :
    (inspectExisting cfg key requestHash).Uses (Op.BehindLock cfg) := by
  refine Prog.Uses.bind (uses_await trivial) fun cached ↦ ?_
  cases cached with
  | none => exact inspectFromDb_uses cfg key requestHash
  | some raw =>
      dsimp only
      split
      · trivial
      · exact inspectFromDb_uses cfg key requestHash

theorem rollback_uses (key requestHash : String) (error : Err) :
    (rollback cfg key requestHash error).Uses (Op.BehindLock cfg) := by
  unfold rollback
  split
  · exact Prog.Uses.bind (uses_await trivial) fun _ ↦ inspectFromDb_uses ..
  · exact Prog.Uses.bind (uses_await trivial) fun _ ↦ trivial

/-- The service issues no call of the handlers or of the workers. -/
theorem checkAndAcquire_uses (id key requestHash : String) :
    (checkAndAcquire cfg id key requestHash).Uses Op.OfService := by
  refine Prog.Uses.bind ⟨fun h ↦ h, fun _ _ ↦ trivial⟩ fun acquired ↦ ?_
  dsimp only
  split
  · refine Prog.Uses.catchError ?_ fun error ↦ ?_
    · exact Prog.Uses.bind (uses_await fun h ↦ h) fun _ ↦ trivial
    · exact (rollback_uses cfg key requestHash error).mono fun _ ↦ Op.BehindLock.ofService
  · exact (inspectExisting_uses cfg key requestHash).mono fun _ ↦ Op.BehindLock.ofService

theorem store_uses (key requestHash : String) (statusCode : ℕ) (response : Json) :
    (store cfg key requestHash statusCode response).Uses (Op.BehindLock cfg) :=
  Prog.Uses.bind (uses_await trivial) fun _ ↦ set_uses cfg _ _

end IdempotencyService

namespace IdempotencyInterceptor

open IdempotencyService

theorem observe_uses (o : Observation) : (observe o).Uses (Op.BehindLock cfg) :=
  uses_await trivial

theorem handlerFailed_uses (request : Request) (e : Err) :
    (handlerFailed request e).Uses (Op.BehindLock cfg) := by
  refine Prog.Uses.bind (observe_uses cfg _) fun _ ↦ ?_
  refine Prog.Uses.bind (Prog.Uses.catchError (release_uses cfg _) fun _ ↦ trivial) fun _ ↦ ?_
  trivial

theorem handlerSucceeded_uses (request : Request) (response : Response) :
    (handlerSucceeded cfg request response).Uses (Op.BehindLock cfg) := by
  refine Prog.Uses.bind (observe_uses cfg _) fun _ ↦ ?_
  exact Prog.Uses.bind (Prog.Uses.catchError (store_uses cfg _ _ _ _) fun _ ↦ trivial)
    fun _ ↦ trivial

/-- Behind `checkAndAcquire` come calls of the handler and calls behind the lock. -/
theorem receive_uses {U : Op → Prop} (hlock : ∀ op : Op, op.BehindLock cfg → U op)
    (request : Request) {handler : Promise Response} (hhandler : handler.Uses U)
    (result : IdempotencyCheckResult) : (receive cfg request handler result).Uses U := by
  refine Prog.Uses.bind ((observe_uses cfg _).mono hlock) fun _ ↦ ?_
  cases result with
  | miss =>
      refine Prog.Uses.catchError ?_ fun e ↦ (handlerFailed_uses cfg request e).mono hlock
      exact Prog.Uses.bind hhandler
        fun response ↦ (handlerSucceeded_uses cfg request response).mono hlock
  | _ => trivial

/-- The interceptor adds the calls of the service to those of the handler. -/
theorem intercept_uses {U : Op → Prop} (hservice : ∀ op : Op, op.OfService → U op) (id : String)
    (request : Request) {handler : Promise Response} (hhandler : handler.Uses U) :
    (intercept cfg id request handler).Uses U := by
  unfold intercept
  split
  · refine Prog.Uses.bind ((checkAndAcquire_uses cfg id _ _).mono hservice) fun result ↦ ?_
    exact receive_uses cfg (fun op h ↦ hservice op h.ofService) request hhandler result
  · trivial

end IdempotencyInterceptor

theorem cronJob_uses : cronJob.Uses (Op.BehindLock cfg) :=
  Prog.Uses.bind ⟨trivial, fun _ _ ↦ trivial⟩ fun _ ↦
    Prog.Uses.bind (uses_await trivial) fun _ ↦ trivial

end TransactionLedger
