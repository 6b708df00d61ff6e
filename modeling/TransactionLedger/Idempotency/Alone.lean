import TransactionLedger.Async.Lone
import TransactionLedger.Idempotency.Lifecycle

/-!
# The idempotency service undisturbed

What one request answers and leaves when no other process comes in between and no call
fails.
-/

namespace TransactionLedger

open Async Data IdempotencyService Deployment

namespace World

/-- The stores after some calls, one after the other. -/
def after (w : World) (ops : List Op) : World :=
  ops.foldl (fun w op ↦ (w.answer op).2) w

theorem after_cons (w : World) (op : Op) (ops : List Op) :
    w.after (op :: ops) = (w.answer op).2.after ops := rfl

theorem after_append (w : World) (ops ops' : List Op) :
    w.after (ops ++ ops') = (w.after ops).after ops' := List.foldl_append ..

theorem after_record (w : World) (ops : List Op) (key : String) :
    (w.after ops).record key = ops.foldl (fun row op ↦ op.onRecord key row) (w.record key) := by
  induction ops generalizing w with
  | nil => rfl
  | cons op ops ih => rw [after_cons, ih, answer_record, List.foldl_cons]

theorem after_redisGet (w : World) (ops : List Op) (key : String) :
    (w.after ops).redisGet key =
      ops.foldl (fun found op ↦ op.onRedis key found) (w.redisGet key) := by
  induction ops generalizing w with
  | nil => rfl
  | cons op ops ih => rw [after_cons, ih, answer_redisGet, List.foldl_cons]

theorem after_clock (w : World) (ops : List Op) : (w.after ops).clock = w.clock := by
  induction ops generalizing w with
  | nil => rfl
  | cons op ops ih => rw [after_cons, ih, answer_clock]

end World

/-- A call that settles on every store. -/
def Op.Unblocked (op : Op) : Prop := ∀ d w, World.blocked d w op = false

theorem await_unblocked {op : Op} (h : op.Unblocked) : (await op).Uses Op.Unblocked :=
  ⟨h, fun _ _ ↦ trivial⟩

theorem settle_unblocked (d : Delivery) (w : World) (op : Op) (h : op.Unblocked) :
    (ledger d).settle Fate.run w op = some (w.answer op) := by
  change World.settle d .run w op = _
  simp only [World.settle, h d w]
  rfl

section

variable {α : Type} {w : World} (op : Op) {a : op.Res}

theorem alone_await (w : World) : alone (await op) w = w.answer op := rfl

theorem alone_await_ok {f : op.Res → Promise α} (h : (w.answer op).1 = .ok a) :
    alone (await op >>= f) w = alone (f a) (w.after [op]) :=
  Prog.run_bind_ok (Prod.ext h rfl)

theorem alone_awaitAt_ok {f : ℕ × op.Res → Promise α} (h : (w.answer op).1 = .ok a) :
    alone (awaitAt op >>= f) w = alone (f (w.clock, a)) (w.after [op]) := by
  refine Prog.run_bind_ok (Prod.ext ?_ rfl)
  change ((w.answer op).1.map fun a ↦ ((w.answer op).2.clock, a)) = _
  rw [h, World.answer_clock]
  rfl

end

namespace IdempotencyService

variable {cfg : IdempotencyConfig} {id key requestHash : String} {w : World}
  {row : IdempotencyRecord} {statusCode : ℕ}

/-- The call that places the placeholder. -/
def lockOp (cfg : IdempotencyConfig) (key requestHash : String) : Op :=
  .redisSetNX (redisKey key) (placeholder requestHash) cfg.ttlSeconds

def unlockOp (key : String) : Op := .redisDel (redisKey key)

/-- The call that inserts the record at an instant. -/
def insertOp (cfg : IdempotencyConfig) (id key requestHash : String) (now : ℕ) : Op :=
  .recordCreate id key requestHash (now + cfg.ttlSeconds * 1000)

/-- The call that caches a response. -/
def cacheOp (cfg : IdempotencyConfig) (key : String) (data : IdempotencyData) : Op :=
  .redisSet (redisKey key) (.json data) (some cfg.ttlSeconds)

/-- The calls of `checkAndAcquire` for a free key. -/
def acquireOps (cfg : IdempotencyConfig) (id key requestHash : String) (now : ℕ) : List Op :=
  [lockOp cfg key requestHash, insertOp cfg id key requestHash now]

/-- The calls of `store`. -/
def storeOps (cfg : IdempotencyConfig) (key requestHash : String) (response : Response) :
    List Op :=
  [.recordUpdate key response.status.code response.body,
    cacheOp cfg key ⟨requestHash, some response.status.code, some response.body⟩]

/-- The calls of `release`. -/
def releaseOps (key : String) : List Op := [.recordDelete key, unlockOp key]

theorem set_eq_cacheOp (data : IdempotencyData) :
    RedisService.set (redisKey key) (.json data) (some cfg.ttlSeconds) =
      await (cacheOp cfg key data) :=
  RedisService.set_of_pos _ _ cfg.ttlSeconds_pos

/-- A free key is acquired. -/
theorem alone_acquire (hfree : w.redisGet (redisKey key) = none) (hnone : w.record key = none) :
    alone (checkAndAcquire cfg id key requestHash) w =
      (.ok .miss, w.after (acquireOps cfg id key requestHash w.clock)) := by
  refine (alone_awaitAt_ok (lockOp cfg key requestHash) (answer_setNX_none hfree)).trans ?_
  have hnone' : (w.after [lockOp cfg key requestHash]).record key = none := by
    rw [World.after_record]
    exact hnone
  exact Prog.run_catchError_ok (alone_await_ok (insertOp cfg id key requestHash w.clock)
    (answer_create_none hnone'))

theorem answer_delete_some (hrow : w.record key = some row) :
    (w.answer (.recordDelete key)).1 = .ok row := by
  change w.idempotencyRecords.lookup key = some row at hrow
  simp only [World.answer, hrow]

theorem alone_inspectFromDb_answered (hrow : w.record key = some row)
    (hlive : w.clock < row.expiresAt) (hcode : truthyCode row.statusCode = some statusCode) :
    alone (inspectFromDb cfg key requestHash) w =
      if row.requestHash = requestHash then
        (.ok (.cached statusCode row.response), w.after [cacheOp cfg key row.data])
      else (.ok .hashMismatch, w) := by
  have hexpired : ¬row.expiresAt ≤ w.clock := Nat.not_le.mpr hlive
  have hdata : row.data = ⟨row.requestHash, some statusCode, row.response⟩ := by
    rw [IdempotencyRecord.data, truthyCode_eq hcode]
  change alone (inspectRecord cfg key requestHash w.clock (w.record key)) w = _
  rw [hrow]
  by_cases hhash : row.requestHash = requestHash
  · simp only [inspectRecord, if_neg hexpired, if_pos hhash, hcode, set_eq_cacheOp, ← hdata]
    exact alone_await_ok _ rfl
  · simp only [inspectRecord, if_neg hexpired, if_neg hhash]
    rfl

variable (cfg id requestHash) in
/-- A record without a Redis entry makes the insertion fail, and is looked at. -/
theorem alone_taken (hfree : w.redisGet (redisKey key) = none) (hrow : w.record key = some row) :
    alone (checkAndAcquire cfg id key requestHash) w =
      alone (inspectFromDb cfg key requestHash)
        (w.after [lockOp cfg key requestHash, unlockOp key]) := by
  have hrow' : (w.after [lockOp cfg key requestHash]).record key = some row := by
    rw [World.after_record]
    exact hrow
  have hcreate : alone (do
      let _ ← await (insertOp cfg id key requestHash w.clock)
      pure IdempotencyCheckResult.miss) (w.after [lockOp cfg key requestHash]) =
        (.error (.prisma .p2002), w.after [lockOp cfg key requestHash]) :=
    Prog.run_bind_error (answer_create_of_record hrow')
  refine (alone_awaitAt_ok (lockOp cfg key requestHash) (answer_setNX_none hfree)).trans ?_
  refine (Prog.run_catchError_error hcreate).trans ?_
  exact alone_await_ok (unlockOp key) rfl

variable (cfg id requestHash) in
/-- Such a record is cached again when the request repeats the body. -/
theorem alone_found (hfree : w.redisGet (redisKey key) = none) (hrow : w.record key = some row)
    (hlive : w.clock < row.expiresAt) (hcode : truthyCode row.statusCode = some statusCode) :
    alone (checkAndAcquire cfg id key requestHash) w =
      if row.requestHash = requestHash then
        (.ok (.cached statusCode row.response),
          w.after [lockOp cfg key requestHash, unlockOp key, cacheOp cfg key row.data])
      else (.ok .hashMismatch, w.after [lockOp cfg key requestHash, unlockOp key]) := by
  have hrow' := (World.after_record w [lockOp cfg key requestHash, unlockOp key] key).trans hrow
  have hlive' : (w.after [lockOp cfg key requestHash, unlockOp key]).clock < row.expiresAt := by
    rwa [World.after_clock]
  rw [alone_taken cfg id requestHash hfree hrow]
  exact alone_inspectFromDb_answered hrow' hlive' hcode

/-- What Redis holds is answered from Redis. -/
theorem alone_cached {data : IdempotencyData}
    (hfound : w.redisGet (redisKey key) = some (.json data)) :
    alone (checkAndAcquire cfg id key requestHash) w =
      (.ok (parseIdempotencyData (.json data) requestHash), w) := by
  refine (alone_awaitAt_ok (lockOp cfg key requestHash)
    (answer_setNX_some hfound)).trans ?_
  have hsame : w.after [lockOp cfg key requestHash] = w := by
    simp only [World.after, List.foldl, lockOp, World.answer, hfound]
  rw [hsame]
  exact alone_await_ok (.redisGet (redisKey key)) (congrArg Except.ok hfound)

end IdempotencyService

namespace IdempotencyInterceptor

variable {cfg : IdempotencyConfig} {request : Request} {handler : Promise Response}
  {w w' : World} {row : IdempotencyRecord}

theorem alone_handleMiss_ok {response : Response} (h : alone handler w = (.ok response, w'))
    (hrow : w'.record request.key = some row) :
    alone (handleMiss cfg request handler) w =
      (.ok response.reply,
        w'.after (storeOps cfg request.key request.requestHash response)) := by
  have hstored : alone (store cfg request.key request.requestHash response.status.code
      response.body) w' =
        (.ok (), w'.after (storeOps cfg request.key request.requestHash response)) := by
    refine (alone_await_ok _ (answer_update_some hrow)).trans ?_
    rw [set_eq_cacheOp]
    rfl
  refine Prog.run_catchError_ok ((Prog.run_bind_ok h).trans ?_)
  refine (alone_await_ok (.observe (.handled (.ok response))) rfl).trans ?_
  exact Prog.run_bind_ok (Prog.run_catchError_ok hstored)

theorem alone_handleMiss_error {e : Err} (h : alone handler w = (.error e, w'))
    (hrow : w'.record request.key = some row) :
    alone (handleMiss cfg request handler) w =
      (.error e, w'.after (releaseOps request.key)) := by
  have hreleased : alone (release request.key) w' =
      (.ok (), w'.after (releaseOps request.key)) := by
    have hdeleted : alone (do let _ ← await (.recordDelete request.key)) w' =
        (.ok (), w'.after [.recordDelete request.key]) :=
      alone_await_ok _ (answer_delete_some hrow)
    exact (Prog.run_bind_ok (Prog.run_catchError_ok hdeleted)).trans
      (Prog.run_catchError_ok rfl)
  refine (Prog.run_catchError_error (Prog.run_bind_error h)).trans ?_
  refine (alone_await_ok (.observe (.handled (.error e))) rfl).trans ?_
  exact Prog.run_bind_ok (Prog.run_catchError_ok hreleased)

end IdempotencyInterceptor

end TransactionLedger
