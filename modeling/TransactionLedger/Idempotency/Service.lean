import TransactionLedger.Stores.Calls

/-!
# The idempotency service and its interceptor

`src/idempotency/idempotency.service.ts`,
`src/common/interceptors/idempotency.interceptor.ts` and
`src/common/redis/redis.service.ts`.  Logging is left out, and with it the age
of a placeholder, which decides only whether a warning is logged.
-/

namespace TransactionLedger

open Async

/-! ## RedisService -/

namespace RedisService

def get (key : String) : Promise (Option RedisText) :=
  await (.redisGet key)

def set (key : String) (value : RedisText) (ttlSeconds : Option ℕ) : Promise Unit :=
  match ttlSeconds with
  | some (ttl + 1) => await (.redisSet key value (some (ttl + 1)))
  | _ => await (.redisSet key value none)

def setNX (key : String) (value : RedisText) (ttlSeconds : ℕ) : Promise (ℕ × Bool) :=
  awaitAt (.redisSetNX key value ttlSeconds)

def del (key : String) : Promise Unit :=
  await (.redisDel key)

theorem set_of_pos (key : String) (value : RedisText) {ttl : ℕ} (h : 0 < ttl) :
    set key value (some ttl) = await (.redisSet key value (some ttl)) := by
  cases ttl with
  | zero => omega
  | succ n => rfl

end RedisService

/-! ## IdempotencyService -/

/-- The configuration `app.module.ts` validates. -/
structure IdempotencyConfig where
  ttlHours : ℕ
  ttlHours_min : 1 ≤ ttlHours

def IdempotencyConfig.ttlSeconds (cfg : IdempotencyConfig) : ℕ := cfg.ttlHours * 3600

theorem IdempotencyConfig.ttlSeconds_pos (cfg : IdempotencyConfig) : 0 < cfg.ttlSeconds := by
  have := cfg.ttlHours_min
  unfold ttlSeconds
  omega

namespace IdempotencyService

def redisKey (key : String) : String := "idempotency:" ++ key

theorem redisKey_injective {k k' : String} (h : redisKey k = redisKey k') : k = k' := by
  simpa [redisKey] using h

/-- `JSON.stringify({ requestHash })`. -/
def placeholder (requestHash : String) : RedisText :=
  .json ⟨requestHash, none, none⟩

def parseIdempotencyData (raw : RedisText) (requestHash : String) : IdempotencyCheckResult :=
  match raw with
  | .other _ => .inProgress
  | .json parsed =>
      if parsed.requestHash = requestHash then
        match truthyCode parsed.statusCode with
        | none => .inProgress
        | some statusCode => .cached statusCode parsed.response
      else .hashMismatch

/-- Redis never admits a request. -/
theorem parseIdempotencyData_ne_miss (raw : RedisText) (requestHash : String) :
    parseIdempotencyData raw requestHash ≠ .miss := by
  cases raw with
  | other raw => exact nofun
  | json parsed =>
      simp only [parseIdempotencyData]
      split
      · cases truthyCode parsed.statusCode <;> exact nofun
      · exact nofun

/-- The entry Redis serves is the entry it holds. -/
theorem parseIdempotencyData_cached {raw : RedisText} {requestHash : String} {statusCode : ℕ}
    {response : Option Json}
    (h : parseIdempotencyData raw requestHash = .cached statusCode response) :
    raw = .json ⟨requestHash, some statusCode, response⟩ := by
  rcases raw with ⟨hash, code, body⟩ | raw
  · simp only [parseIdempotencyData] at h
    split at h
    · rename_i hhash
      cases hcode : truthyCode code with
      | none =>
          rw [hcode] at h
          cases h
      | some n =>
          rw [hcode] at h
          cases h
          rw [hhash, truthyCode_eq hcode]
    · cases h
  · cases h

variable (cfg : IdempotencyConfig)

/-- `inspectFromDb` once the query has answered, at instant `now`. -/
def inspectRecord (key requestHash : String) (now : ℕ) :
    Option IdempotencyRecord → Promise IdempotencyCheckResult
  | none => pure .inProgress
  | some record =>
      if record.expiresAt ≤ now then do
        -- clean-up is best effort: both deletes may fail
        tryCatch (do let _ ← await (.recordDelete key)) fun _ ↦ pure ()
        tryCatch (RedisService.del (redisKey key)) fun _ ↦ pure ()
        pure .inProgress
      else if record.requestHash = requestHash then
        match truthyCode record.statusCode with
        | none => pure .inProgress
        | some statusCode => do
            RedisService.set (redisKey key)
              (.json ⟨record.requestHash, some statusCode, record.response⟩)
              (some cfg.ttlSeconds)
            pure (.cached statusCode record.response)
      else pure .hashMismatch

/-- Inspect existing idempotency state from PostgreSQL only. -/
def inspectFromDb (key requestHash : String) : Promise IdempotencyCheckResult := do
  let (now, record) ← awaitAt (.recordFindUnique key)
  inspectRecord cfg key requestHash now record

/-- Inspect existing idempotency state from Redis or PostgreSQL. -/
def inspectExisting (key requestHash : String) : Promise IdempotencyCheckResult := do
  let cached ← RedisService.get (redisKey key)
  match cached with
  | some raw =>
      if raw.truthy then pure (parseIdempotencyData raw requestHash)
      else inspectFromDb cfg key requestHash
  | none => inspectFromDb cfg key requestHash

/-- The `catch` of `checkAndAcquire`: give up the Redis lock. -/
def rollback (key requestHash : String) (error : Err) : Promise IdempotencyCheckResult :=
  match error with
  | .prisma .p2002 => do
      RedisService.del (redisKey key)
      inspectFromDb cfg key requestHash
  | error => do
      RedisService.del (redisKey key)
      throw error

/-- Atomically check and acquire an idempotency lock.  `id` is the primary key
Prisma draws for the row this call may insert. -/
def checkAndAcquire (id key requestHash : String) : Promise IdempotencyCheckResult := do
  let (now, acquired) ←
    RedisService.setNX (redisKey key) (placeholder requestHash) cfg.ttlSeconds
  if acquired then
    tryCatch
      (do
        let expiresAt := now + cfg.ttlSeconds * 1000
        let _ ← await (.recordCreate id key requestHash expiresAt)
        pure .miss)
      (rollback cfg key requestHash)
  else inspectExisting cfg key requestHash

/-- Store the final response: PostgreSQL first, then Redis. -/
def store (key requestHash : String) (statusCode : ℕ) (response : Json) : Promise Unit := do
  let _ ← await (.recordUpdate key statusCode response)
  RedisService.set (redisKey key) (.json ⟨requestHash, some statusCode, some response⟩)
    (some cfg.ttlSeconds)

/-- Release the lock after a failed request; neither failure stops the other
delete. -/
def release (key : String) : Promise Unit := do
  tryCatch (do let _ ← await (.recordDelete key)) fun _ ↦ pure ()
  tryCatch (RedisService.del (redisKey key)) fun _ ↦ pure ()

def cleanupExpiredRecords (now : ℕ) : Promise ℕ :=
  await (.recordDeleteMany now)

end IdempotencyService

/-! ## IdempotencyInterceptor -/

/-- One `POST` request: its `Idempotency-Key` header and the hash of its body. -/
structure Request where
  idempotencyKey : Option String
  requestHash : String

/-- A missing or empty header is falsy. -/
def Request.hasKey (request : Request) : Bool :=
  match request.idempotencyKey with
  | none => false
  | some key => key ≠ ""

def Request.key (request : Request) : String := request.idempotencyKey.getD ""

namespace IdempotencyInterceptor

variable (cfg : IdempotencyConfig) (id : String) (request : Request)

def observe (o : Observation) : Promise Unit := await (.observe o)

/-- The `catchError` around the handler: release the lock and rethrow. -/
def handlerFailed (err : Err) : Promise Reply := do
  observe (.handled (.error err))
  tryCatch (IdempotencyService.release request.key) fun _ ↦ pure ()
  throw err

/-- The `switchMap` after the handler: store the response.  An error of `store()`
is swallowed here, so it does not reach the release. -/
def handlerSucceeded (response : Response) : Promise Reply := do
  observe (.handled (.ok response))
  tryCatch
    (IdempotencyService.store cfg request.key request.requestHash response.status.code
      response.body)
    fun _ ↦ pure ()
  pure response.reply

/-- `next.handle().pipe(...)`. -/
def handleMiss (handler : Promise Response) : Promise Reply :=
  tryCatch (handler >>= handlerSucceeded cfg request) (handlerFailed request)

def respond (handler : Promise Response) : IdempotencyCheckResult → Promise Reply
  | .hashMismatch =>
      throw (.unprocessableEntity "Idempotency-Key already used with a different request body")
  | .inProgress =>
      throw (.conflict "Request with this Idempotency-Key is already being processed")
  | .cached statusCode response => pure ⟨statusCode, response⟩
  | .miss => handleMiss cfg request handler

def receive (handler : Promise Response) (result : IdempotencyCheckResult) : Promise Reply := do
  observe (.checked result)
  respond cfg request handler result

def intercept (handler : Promise Response) : Promise Reply :=
  if request.hasKey then
    IdempotencyService.checkAndAcquire cfg id request.key request.requestHash
      >>= receive cfg request handler
  else throw (.badRequest "Idempotency-Key header is required")

end IdempotencyInterceptor

end TransactionLedger
