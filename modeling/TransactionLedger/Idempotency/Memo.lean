import TransactionLedger.Idempotency.Alone
import TransactionLedger.Idempotency.Usage

/-!
# The service as a memo table

What the interceptor is for: the first success for a key is kept and given again to whoever
repeats the request, and a failure is forgotten.  When the processes of a deployment run one
after the other and no record expires, the two stores, the locks and the lost cache entries
amount to just this table.
-/

namespace TransactionLedger

open Async Data IdempotencyService IdempotencyInterceptor Deployment

/-! ## The table -/

/-- The answers that are kept, each with the hash of the body it answers, over the stores of
the application. -/
@[ext] structure Memo where
  answers : String → Option (String × Reply)
  world : World

namespace Memo

def initial (clock : ℕ) : Memo := ⟨fun _ ↦ none, .initial clock⟩

/-- Call the handler, and keep a success. -/
def compute (m : Memo) (p : Post) : Except Err Reply × Memo :=
  match alone p.handler.1 m.world with
  | (.ok response, world) =>
      (.ok response.reply,
        ⟨Function.update m.answers p.request.key (some (p.request.requestHash, response.reply)),
          world⟩)
  | (.error e, world) => (.error e, ⟨m.answers, world⟩)

def serve (m : Memo) (p : Post) : Except Err Reply × Memo :=
  if p.request.hasKey then
    match m.answers p.request.key with
    | none => m.compute p
    | some (requestHash, reply) =>
        if requestHash = p.request.requestHash then (.ok reply, m)
        else (.error (.unprocessableEntity
          "Idempotency-Key already used with a different request body"), m)
  else (.error (.badRequest "Idempotency-Key header is required"), m)

def turn (m : Memo) : Role → Except Err Outcome × Memo
  | .post p => ((m.serve p).1.map .replied, (m.serve p).2)
  | .cron => (.ok (.cleaned 0), m)
  | .background job =>
      ((alone job.1 m.world).1.map fun _ ↦ .finished, ⟨m.answers, (alone job.1 m.world).2⟩)

end Memo

/-! ## The stores of the application -/

namespace World

variable {w : World} {op : Op}

/-- The stores that the application works with. -/
def visible (w : World) : World :=
  { w with
    redis := fun _ ↦ none
    idempotencyRecords := .empty }

/-- The calls of the application neither see nor change the idempotency stores. -/
theorem answer_visible (h : op.Foreign) :
    w.visible.answer op = ((w.answer op).1, (w.answer op).2.visible) := by
  cases op with
  | transactionCreate data =>
      simp only [answer, visible]
      split
      · rfl
      · split <;> rfl
  | transactionUpdate | transactionQueueAdd | notificationQueueAdd | takeJob
  | takeNotificationJob =>
      simp only [answer, visible]
      split <;> rfl
  | notificationCreate id data =>
      simp only [answer, insertNotification, visible]
      split
      · rfl
      · split
        · rfl
        · split <;> rfl
  | notificationUpsert pair id create update =>
      simp only [answer, insertNotification, visible]
      split
      · split
        · rfl
        · split
          · rfl
          · split <;> rfl
      · split <;> rfl
  | _ => first | rfl | exact h.elim

/-- The calls of the interceptor leave the stores of the application alone. -/
theorem visible_answer (h : ¬op.Foreign) : (w.answer op).2.visible = w.visible := by
  cases op with
  | redisSetNX | recordCreate | recordUpdate | recordDelete =>
      simp only [answer]
      split <;> rfl
  | _ => first | rfl | exact absurd trivial h

theorem visible_after {ops : List Op} (h : ∀ op ∈ ops, ¬op.Foreign) :
    (w.after ops).visible = w.visible := by
  induction ops generalizing w with
  | nil => rfl
  | cons op ops ih =>
      rw [after_cons, ih fun op' hop' ↦ h op' (List.mem_cons_of_mem _ hop'),
        visible_answer (h op List.mem_cons_self)]

theorem visible_drift (w : World) (dr : Drift) : (w.drift dr).visible = w.visible.drift dr := by
  cases dr with
  | tick ms => rfl
  | loseRedisKey key =>
      have hnone : (fun _ ↦ none : String → Option RedisEntry) =
          Function.update (fun _ ↦ none) key none := (Function.update_eq_self ..).symm
      simp only [visible, drift, ← hnone]

/-- What a program of the application does alone. -/
theorem alone_visible {α : Type} {p : Promise α} (huses : p.Uses Op.Foreign) (w : World) :
    alone p w.visible = ((alone p w).1, (alone p w).2.visible) :=
  Prog.run_image (fun _ ↦ rfl) (fun _ _ ↦ answer_visible) huses w

theorem alone_record {α : Type} {p : Promise α} (huses : p.Uses Op.Foreign) (w : World)
    (key : String) : (alone p w).2.record key = w.record key :=
  Prog.run_keeps (R := fun s : World ↦ s.record key = w.record key)
    (fun _ _ hop hs ↦ by rw [answer_record, hop.onRecord, hs]) huses rfl

theorem alone_redisGet {α : Type} {p : Promise α} (huses : p.Uses Op.Foreign) (w : World)
    (key : String) : (alone p w).2.redisGet key = w.redisGet key :=
  Prog.run_keeps (R := fun s : World ↦ s.redisGet key = w.redisGet key)
    (fun _ _ hop hs ↦ by rw [answer_redisGet, hop.onRedis, hs]) huses rfl

end World

/-! ## Between two requests -/

/-- What the stores can hold of a key that no request works on: nothing, or the answered
record and perhaps its copy in Redis. -/
inductive Resting : Option IdempotencyRecord → Option RedisText → Prop
  | free : Resting none none
  | recorded {row : IdempotencyRecord} {statusCode : ℕ}
      (hcode : truthyCode row.statusCode = some statusCode) : Resting (some row) none
  | cached {row : IdempotencyRecord} {statusCode : ℕ}
      (hcode : truthyCode row.statusCode = some statusCode) :
      Resting (some row) (some (.json row.data))

theorem Resting.lost {row : Option IdempotencyRecord} {found : Option RedisText}
    (h : Resting row found) : Resting row none := by
  cases h with
  | free => exact .free
  | recorded hcode => exact .recorded hcode
  | cached hcode => exact .recorded hcode

/-- The call touches the stores of no other key. -/
def Op.Concerns (key : String) : Op → Prop
  | .redisSet k _ _ => k = redisKey key
  | .redisSetNX k _ _ => k = redisKey key
  | .redisDel k => k = redisKey key
  | .recordCreate _ k _ _ => k = key
  | .recordUpdate k _ _ => k = key
  | .recordDelete k => k = key
  | _ => False

theorem Op.Concerns.not_foreign {key : String} {op : Op} (h : op.Concerns key) :
    ¬op.Foreign := by
  intro hforeign
  cases op <;> first | exact h | exact hforeign

theorem Op.Concerns.onRecord {key k : String} {op : Op} (h : op.Concerns key) (hk : k ≠ key)
    (row : Option IdempotencyRecord) : op.onRecord k row = row := by
  cases op with
  | recordCreate | recordUpdate | recordDelete =>
      exact if_neg fun hsame ↦ hk (hsame.symm.trans h)
  | _ => first | rfl | exact h.elim

theorem Op.Concerns.onRedis {key k : String} {op : Op} (h : op.Concerns key) (hk : k ≠ key)
    (found : Option RedisText) : op.onRedis (redisKey k) found = found := by
  have hne : redisKey key ≠ redisKey k := fun hsame ↦ hk (redisKey_injective hsame).symm
  cases op with
  | redisSet | redisDel =>
      obtain rfl := h
      exact if_neg hne
  | redisSetNX =>
      obtain rfl := h
      exact if_neg fun hsame ↦ hne hsame.1
  | _ => rfl

namespace World

variable {w : World} {ops : List Op} {key k : String}

theorem after_record_of_ne (h : ∀ op ∈ ops, op.Concerns key) (hk : k ≠ key) :
    (w.after ops).record k = w.record k := by
  induction ops generalizing w with
  | nil => rfl
  | cons op ops ih =>
      rw [after_cons, ih fun op' hop' ↦ h op' (List.mem_cons_of_mem _ hop'), answer_record,
        (h op List.mem_cons_self).onRecord hk]

theorem after_redisGet_of_ne (h : ∀ op ∈ ops, op.Concerns key) (hk : k ≠ key) :
    (w.after ops).redisGet (redisKey k) = w.redisGet (redisKey k) := by
  induction ops generalizing w with
  | nil => rfl
  | cons op ops ih =>
      rw [after_cons, ih fun op' hop' ↦ h op' (List.mem_cons_of_mem _ hop'), answer_redisGet,
        (h op List.mem_cons_self).onRedis hk]

/-- No request is under way. -/
def Quiet (w : World) : Prop := ∀ key, Resting (w.record key) (w.redisGet (redisKey key))

theorem Quiet.drift (h : w.Quiet) (dr : Drift) : (w.drift dr).Quiet := by
  intro key
  rw [drift_record]
  rcases drift_redisGet w dr (redisKey key) with hsame | hnone
  · rw [hsame]
    exact h key
  · rw [hnone]
    exact (h key).lost

/-- No request for another key is under way. -/
def QuietBeside (key : String) (w : World) : Prop :=
  ∀ k, k ≠ key → Resting (w.record k) (w.redisGet (redisKey k))

theorem QuietBeside.after (h : w.QuietBeside key) (hops : ∀ op ∈ ops, op.Concerns key) :
    (w.after ops).QuietBeside key := by
  intro k hk
  rw [after_record_of_ne hops hk, after_redisGet_of_ne hops hk]
  exact h k hk

theorem QuietBeside.quiet (h : w.QuietBeside key)
    (hkey : Resting (w.record key) (w.redisGet (redisKey key))) : w.Quiet := by
  intro k
  by_cases hk : k = key
  · exact hk ▸ hkey
  · exact h k hk

end World

/-! ## One turn -/

/-- What a record answers. -/
def IdempotencyRecord.answer (row : IdempotencyRecord) : Option (String × Reply) :=
  row.statusCode.map fun statusCode ↦ (row.requestHash, ⟨statusCode, row.response⟩)

/-- The table that the stores amount to. -/
def World.memo (w : World) : Memo where
  answers key := (w.record key).bind IdempotencyRecord.answer
  world := w.visible

theorem World.memo_drift (w : World) (dr : Drift) :
    (w.drift dr).memo = ⟨w.memo.answers, w.memo.world.drift dr⟩ := by
  simp only [memo, drift_record, visible_drift]

/-- The stores answer and go on as the table does. -/
structure Agrees {α : Type} (out : Except Err α × World) (spec : Except Err α × Memo) : Prop where
  answer : out.1 = spec.1
  memo : out.2.memo = spec.2
  quiet : out.2.Quiet

section

variable {cfg : IdempotencyConfig} {id : String} {p : Post} {w : World} {row : IdempotencyRecord}
  {ops : List Op}

theorem answer_eq {statusCode : ℕ} (hcode : truthyCode row.statusCode = some statusCode) :
    row.answer = some (row.requestHash, ⟨statusCode, row.response⟩) := by
  rw [IdempotencyRecord.answer, truthyCode_eq hcode]
  rfl

theorem alone_intercept {result : IdempotencyCheckResult} {w' : World}
    (hkey : p.request.hasKey)
    (h : alone (checkAndAcquire cfg id p.request.key p.request.requestHash) w =
      (.ok result, w')) :
    alone (intercept cfg id p.request p.handler.1) w =
      alone (respond cfg p.request p.handler.1 result) w' := by
  rw [intercept, if_pos hkey]
  exact (Prog.run_bind_ok h).trans (alone_await_ok (.observe (.checked result)) rfl)

theorem serve_recorded {statusCode : ℕ} (hkey : p.request.hasKey)
    (hrow : w.record p.request.key = some row)
    (hcode : truthyCode row.statusCode = some statusCode) :
    w.memo.serve p =
      if row.requestHash = p.request.requestHash then (.ok ⟨statusCode, row.response⟩, w.memo)
      else (.error (.unprocessableEntity
        "Idempotency-Key already used with a different request body"), w.memo) := by
  have hanswer : w.memo.answers p.request.key =
      some (row.requestHash, ⟨statusCode, row.response⟩) :=
    (congrArg (Option.bind · IdempotencyRecord.answer) hrow).trans (answer_eq hcode)
  rw [Memo.serve, if_pos hkey, hanswer]

theorem concerns_of_unlocked (key requestHash : String) :
    ∀ op ∈ [lockOp cfg key requestHash, unlockOp key], op.Concerns key := by
  simp [lockOp, unlockOp, Op.Concerns]

theorem after_unlocked (w : World) (key requestHash : String) :
    (w.after [lockOp cfg key requestHash, unlockOp key]).redisGet (redisKey key) = none := by
  rw [World.after_redisGet]
  exact if_pos rfl

theorem concerns_of_cached (key requestHash : String) (data : IdempotencyData) :
    ∀ op ∈ [lockOp cfg key requestHash, unlockOp key, cacheOp cfg key data],
      op.Concerns key := by
  simp [lockOp, unlockOp, cacheOp, Op.Concerns]

variable (cfg) in
theorem after_cached (w : World) (key : String) (data : IdempotencyData) (ops : List Op) :
    (w.after (ops ++ [cacheOp cfg key data])).redisGet (redisKey key) = some (.json data) := by
  have httl : some cfg.ttlSeconds ≠ some 0 := by
    have := cfg.ttlSeconds_pos
    simp only [ne_eq, Option.some.injEq]
    omega
  rw [World.after_append, World.after_redisGet]
  exact (if_pos rfl).trans (if_neg httl)

/-- Calls about one key lead to the table that differs at this key alone. -/
theorem agrees_after {α : Type} {r : Except Err α} {key : String} {m : Memo}
    (hbeside : w.QuietBeside key) (hops : ∀ op ∈ ops, op.Concerns key)
    (hworld : w.visible = m.world)
    (hothers : ∀ k, k ≠ key → (w.record k).bind IdempotencyRecord.answer = m.answers k)
    (hkey : ((w.after ops).record key).bind IdempotencyRecord.answer = m.answers key)
    (hrest : Resting ((w.after ops).record key) ((w.after ops).redisGet (redisKey key))) :
    Agrees (r, w.after ops) (r, m) where
  answer := rfl
  memo := by
    refine Memo.ext ?_
      ((World.visible_after fun op hop ↦ (hops op hop).not_foreign).trans hworld)
    funext k
    by_cases hk : k = key
    · exact hk ▸ hkey
    · rw [← hothers k hk, ← World.after_record_of_ne hops hk]
      rfl
  quiet := (hbeside.after hops).quiet hrest

/-- Calls that touch no record leave the table as it was. -/
theorem agrees_looked {α : Type} {r : Except Err α} {key : String} (hw : w.Quiet)
    (hops : ∀ op ∈ ops, op.Concerns key) (hrecord : (w.after ops).record key = w.record key)
    (hkey : Resting (w.record key) ((w.after ops).redisGet (redisKey key))) :
    Agrees (r, w.after ops) (r, w.memo) :=
  agrees_after (fun k _ ↦ hw k) hops rfl (fun _ _ ↦ rfl)
    (congrArg (Option.bind · IdempotencyRecord.answer) hrecord) (hrecord ▸ hkey)

/-- A record is given again, whether Redis has kept its copy or not. -/
theorem agrees_recorded (hw : w.Quiet) (hkey : p.request.hasKey)
    (hrow : w.record p.request.key = some row) (hlive : w.clock < row.expiresAt) :
    Agrees (alone (intercept cfg id p.request p.handler.1) w) (w.memo.serve p) := by
  have hrest := hw p.request.key
  rw [hrow] at hrest
  generalize hfound : w.redisGet (redisKey p.request.key) = found at hrest
  cases hrest with
  | @recorded _ statusCode hcode =>
      have hchecked := alone_found cfg id p.request.requestHash hfound hrow hlive hcode
      rw [serve_recorded hkey hrow hcode]
      by_cases hhash : row.requestHash = p.request.requestHash
      · rw [if_pos hhash] at hchecked ⊢
        rw [alone_intercept hkey hchecked]
        refine agrees_looked hw (concerns_of_cached _ _ _) (World.after_record ..) ?_
        have hcached := after_cached cfg w p.request.key row.data
          [lockOp cfg p.request.key p.request.requestHash, unlockOp p.request.key]
        rw [hrow]
        exact hcached ▸ .cached hcode
      · rw [if_neg hhash] at hchecked ⊢
        rw [alone_intercept hkey hchecked]
        refine agrees_looked hw (concerns_of_unlocked _ _) (World.after_record ..) ?_
        rw [after_unlocked, hrow]
        exact .recorded hcode
  | @cached _ statusCode hcode =>
      rw [alone_intercept hkey (alone_cached hfound), serve_recorded hkey hrow hcode]
      have hsame : ∀ r : Except Err Reply, Agrees (r, w) (r, w.memo) := fun r ↦ ⟨rfl, rfl, hw⟩
      simp only [parseIdempotencyData, IdempotencyRecord.data, hcode]
      by_cases hhash : row.requestHash = p.request.requestHash
      · rw [if_pos hhash, if_pos hhash]
        exact hsame _
      · rw [if_neg hhash, if_neg hhash]
        exact hsame _

/-- What the handler of a new key finds and leaves of the idempotency stores. -/
structure Opened (p : Post) (w w' : World) : Prop where
  record : ∃ row, w'.record p.request.key = some row ∧ row.requestHash = p.request.requestHash
  others : ∀ k, k ≠ p.request.key → w'.record k = w.record k
  beside : w'.QuietBeside p.request.key

variable (cfg id) in
theorem opened_acquired (hw : w.Quiet) (hnone : w.record p.request.key = none) (now : ℕ) :
    Opened p w (w.after (acquireOps cfg id p.request.key p.request.requestHash now)) := by
  have hops : ∀ op ∈ acquireOps cfg id p.request.key p.request.requestHash now,
      op.Concerns p.request.key := by
    simp [acquireOps, lockOp, insertOp, Op.Concerns]
  have hbeside : w.QuietBeside p.request.key := fun k _ ↦ hw k
  refine ⟨⟨⟨id, p.request.key, p.request.requestHash, none, none,
    now + cfg.ttlSeconds * 1000⟩, ?_, rfl⟩, fun k ↦ World.after_record_of_ne hops,
    hbeside.after hops⟩
  rw [World.after_record]
  simp only [acquireOps, List.foldl, lockOp, insertOp, Op.onRecord, hnone, if_true,
    Option.none_or]

theorem Opened.handled {w' : World} (h : Opened p w w') :
    Opened p w (alone p.handler.1 w').2 where
  record := by
    rw [World.alone_record p.handler.2]
    exact h.record
  others k hk := (World.alone_record p.handler.2 w' k).trans (h.others k hk)
  beside k hk := by
    rw [World.alone_record p.handler.2, World.alone_redisGet p.handler.2]
    exact h.beside k hk

/-- A success is recorded and cached. -/
theorem Opened.agrees_ok {w' : World} (h : Opened p w w') (response : Response) :
    Agrees (Except.ok (ε := Err) response.reply,
        w'.after (storeOps cfg p.request.key p.request.requestHash response))
      (Except.ok response.reply, ⟨Function.update w.memo.answers p.request.key
        (some (p.request.requestHash, response.reply)), w'.visible⟩) := by
  obtain ⟨row, hrow, hhash⟩ := h.record
  let answered : IdempotencyRecord :=
    { row with
      statusCode := some response.status.code
      response := some response.body }
  have hafter : (w'.after (storeOps cfg p.request.key p.request.requestHash response)).record
      p.request.key = some answered := by
    rw [World.after_record, hrow]
    exact if_pos rfl
  have hcached : (w'.after (storeOps cfg p.request.key p.request.requestHash response)).redisGet
      (redisKey p.request.key) = some (.json answered.data) := by
    rw [storeOps, ← hhash]
    exact after_cached cfg w' p.request.key answered.data
      [.recordUpdate p.request.key response.status.code response.body]
  refine agrees_after h.beside (by simp [storeOps, cacheOp, Op.Concerns]) rfl ?_ ?_ ?_
  · intro k hk
    simp only [h.others k hk, Function.update_of_ne hk]
    rfl
  · rw [hafter]
    simp only [Function.update_self, ← hhash]
    rfl
  · rw [hafter, hcached]
    exact .cached response.status.truthyCode_code

/-- A failure leaves no trace. -/
theorem Opened.agrees_error {w' : World} (h : Opened p w w')
    (hnone : w.record p.request.key = none) (e : Err) :
    Agrees (Except.error (α := Reply) e, w'.after (releaseOps p.request.key))
      (Except.error e, ⟨w.memo.answers, w'.visible⟩) := by
  have hafter : (w'.after (releaseOps p.request.key)).record p.request.key = none := by
    rw [World.after_record]
    exact if_pos rfl
  have hfree : (w'.after (releaseOps p.request.key)).redisGet (redisKey p.request.key) =
      none := by
    rw [World.after_redisGet]
    exact if_pos rfl
  refine agrees_after h.beside (by simp [releaseOps, unlockOp, Op.Concerns]) rfl ?_ ?_ ?_
  · intro k hk
    rw [h.others k hk]
    rfl
  · rw [hafter]
    exact (congrArg (Option.bind · IdempotencyRecord.answer) hnone).symm
  · rw [hafter, hfree]
    exact .free

/-- A new key is computed. -/
theorem agrees_new (hw : w.Quiet) (hkey : p.request.hasKey)
    (hnone : w.record p.request.key = none) :
    Agrees (alone (intercept cfg id p.request p.handler.1) w) (w.memo.serve p) := by
  have hfree : w.redisGet (redisKey p.request.key) = none := by
    have hrest := hw p.request.key
    rw [hnone] at hrest
    generalize w.redisGet (redisKey p.request.key) = found at hrest ⊢
    cases hrest
    rfl
  have hopened := opened_acquired cfg id hw hnone w.clock
  have hvisible : (w.after (acquireOps cfg id p.request.key p.request.requestHash
      w.clock)).visible = w.visible :=
    World.visible_after (by simp [acquireOps, lockOp, insertOp, Op.Foreign])
  rw [alone_intercept hkey (alone_acquire hfree hnone)]
  generalize w.after (acquireOps cfg id p.request.key p.request.requestHash w.clock) = w₁
    at hopened hvisible ⊢
  have hspec : alone p.handler.1 w.memo.world =
      ((alone p.handler.1 w₁).1, (alone p.handler.1 w₁).2.visible) := by
    rw [show w.memo.world = w₁.visible from hvisible.symm]
    exact World.alone_visible p.handler.2 w₁
  have hserve : w.memo.serve p = w.memo.compute p := by
    have hanswer : w.memo.answers p.request.key = none :=
      congrArg (Option.bind · IdempotencyRecord.answer) hnone
    rw [Memo.serve, if_pos hkey, hanswer]
  have hhandled := hopened.handled
  obtain ⟨row, hrow, -⟩ := hhandled.record
  rw [hserve, Memo.compute, hspec]
  change Agrees (alone (handleMiss cfg p.request p.handler.1) w₁) _
  cases hrun : alone p.handler.1 w₁ with
  | mk r w₂ =>
      rw [hrun] at hhandled hrow
      cases r with
      | ok response =>
          rw [alone_handleMiss_ok hrun hrow]
          exact hhandled.agrees_ok response
      | error e =>
          rw [alone_handleMiss_error hrun hrow]
          exact hhandled.agrees_error hnone e

variable (cfg id p) in
theorem agrees_serve (hw : w.Quiet) (hlive : w.Unexpired p.request.key) :
    Agrees (alone (intercept cfg id p.request p.handler.1) w) (w.memo.serve p) := by
  by_cases hkey : p.request.hasKey
  · cases hrow : w.record p.request.key with
    | none => exact agrees_new hw hkey hrow
    | some row => exact agrees_recorded hw hkey hrow (hlive row hrow)
  · rw [intercept, if_neg hkey, Memo.serve, if_neg hkey]
    exact ⟨rfl, rfl, hw⟩

end

/-! ## Any number of turns -/

/-- No record has expired. -/
def World.Lively (w : World) : Prop :=
  ∀ row ∈ w.idempotencyRecords.rows, w.clock < row.expiresAt

instance (w : World) : Decidable w.Lively :=
  inferInstanceAs (Decidable (∀ row ∈ w.idempotencyRecords.rows, w.clock < row.expiresAt))

theorem World.Lively.unexpired {w : World} (h : w.Lively) (key : String) : w.Unexpired key :=
  fun row hrow ↦ h row (Table.mem_of_lookup hrow)

/-- The clean-up finds nothing to remove. -/
theorem World.Lively.answer_deleteMany {w : World} (h : w.Lively) :
    w.answer (.recordDeleteMany w.clock) = (.ok 0, w) := by
  have hcount : w.idempotencyRecords.count (fun row ↦ row.expiresAt ≤ w.clock) = 0 := by
    refine List.countP_eq_zero.mpr fun row hrow ↦ ?_
    simpa using h row hrow
  have hrows : w.idempotencyRecords.rows.filter (fun row ↦ ¬row.expiresAt ≤ w.clock) =
      w.idempotencyRecords.rows := by
    refine List.filter_eq_self.mpr fun row hrow ↦ ?_
    simpa using h row hrow
  simp only [answer, hcount, Table.filter, hrows]

theorem agrees_turn (cfg : IdempotencyConfig) (id : String) (role : Role) {w : World}
    (hw : w.Quiet) (hlive : w.Lively) :
    Agrees (alone (role.main cfg id) w) (w.memo.turn role) := by
  cases role with
  | post p =>
      have hserved := agrees_serve cfg id p hw (hlive.unexpired _)
      have hreply : alone (reply (intercept cfg id p.request p.handler.1)) w =
          ((alone (intercept cfg id p.request p.handler.1) w).1.map Outcome.replied,
            (alone (intercept cfg id p.request p.handler.1) w).2) := Prog.run_bind_done ..
      rw [Role.main, hreply]
      exact ⟨congrArg (Except.map Outcome.replied) hserved.answer, hserved.memo, hserved.quiet⟩
  | cron =>
      have hdeleted : alone (cleanupExpiredRecords w.clock) w = (.ok 0, w) :=
        hlive.answer_deleteMany
      have hcleaned : alone cronJob w = (.ok (.cleaned 0), w) :=
        (alone_awaitAt_ok .cronTrigger rfl).trans (Prog.run_bind_ok hdeleted)
      rw [Role.main, hcleaned]
      exact ⟨rfl, rfl, hw⟩
  | background job =>
      have hdone : alone (Role.main cfg id (.background job)) w =
          ((alone job.1 w).1.map fun _ ↦ .finished, (alone job.1 w).2) :=
        Prog.run_bind_done ..
      rw [hdone, Memo.turn, show w.memo.world = w.visible from rfl,
        World.alone_visible job.2 w]
      refine ⟨rfl, ?_, fun key ↦ ?_⟩
      · simp only [World.memo, World.alone_record job.2]
      · rw [World.alone_record job.2, World.alone_redisGet job.2]
        exact hw key

theorem Op.OfService.unblocked {op : Op} (h : op.OfService) : op.Unblocked := by
  cases op <;> first | exact fun _ _ ↦ rfl | exact absurd trivial h

/-- What happens next: a process runs, or the stores change by themselves. -/
inductive Occasion : Type where
  | process (i : ℕ)
  | drift (dr : Drift)

def Occasion.proc : Occasion → Option ℕ
  | .process i => some i
  | .drift _ => none

namespace Deployment

/-- The processes run one after the other: what they answer, and the stores they leave. -/
def sequence (dep : Deployment) : List Occasion → World → List (Except Err Outcome) × World
  | [], w => ([], w)
  | .process i :: rest, w =>
      ((alone (dep.main i) w).1 :: (dep.sequence rest (alone (dep.main i) w).2).1,
        (dep.sequence rest (alone (dep.main i) w).2).2)
  | .drift dr :: rest, w => dep.sequence rest (w.drift dr)

/-- The same processes served by the table. -/
def tabulated (dep : Deployment) : List Occasion → Memo → List (Except Err Outcome) × Memo
  | [], m => ([], m)
  | .process i :: rest, m =>
      ((m.turn (dep.role i)).1 :: (dep.tabulated rest (m.turn (dep.role i)).2).1,
        (dep.tabulated rest (m.turn (dep.role i)).2).2)
  | .drift dr :: rest, m => dep.tabulated rest ⟨m.answers, m.world.drift dr⟩

/-- Whenever a process starts, no record has expired. -/
def StaysLively (dep : Deployment) : List Occasion → World → Prop
  | [], _ => True
  | .process i :: rest, w => w.Lively ∧ dep.StaysLively rest (alone (dep.main i) w).2
  | .drift dr :: rest, w => dep.StaysLively rest (w.drift dr)

/-- A sequence in which no process waits for a job, and none runs twice, is a run of the
deployment. -/
theorem exists_sequential_run (dep : Deployment) (d : Delivery) (occasions : List Occasion)
    {c : Config calls World ℕ (Promise Outcome)}
    (hnodup : (occasions.filterMap Occasion.proc).Nodup)
    (hready : ∀ i ∈ occasions.filterMap Occasion.proc,
      c.procs i = some (dep.main i) ∧ (dep.main i).Uses Op.Unblocked) :
    ∃ c', ((ledger d).programs Outcome).Reachable ((ledger d).programs Outcome).anyMove c c' ∧
      c'.store = (dep.sequence occasions c.store).2 ∧
      (occasions.filterMap Occasion.proc).map (((ledger d).programs Outcome).result c') =
        (dep.sequence occasions c.store).1.map some := by
  induction occasions generalizing c with
  | nil => exact ⟨c, .refl, rfl, rfl⟩
  | cons occasion rest ih =>
      cases occasion with
      | process i =>
          obtain ⟨hfirst, hnodup⟩ := List.nodup_cons.mp hnodup
          obtain ⟨hproc, huses⟩ := hready i List.mem_cons_self
          obtain ⟨b, hrun, hstore, hended, hothers⟩ :=
            Pool.exists_alone (settle_unblocked d) huses hproc
          have hresult : ((ledger d).programs Outcome).result b i =
              some (alone (dep.main i) c.store).1 := by
            rw [Pool.result, hended]
            rfl
          obtain ⟨c', hrun', hstore', hresults⟩ := ih (c := b) hnodup fun j hj ↦ by
            obtain ⟨hproc, huses⟩ := hready j (List.mem_cons_of_mem _ hj)
            exact ⟨(hothers j (ne_of_mem_of_not_mem hj hfirst)).trans hproc, huses⟩
          rw [hstore] at hstore' hresults
          refine ⟨c', hrun.trans hrun', hstore', ?_⟩
          have hlast := Pool.Reachable.result_final hrun' hresult
          exact List.cons_eq_cons.mpr ⟨hlast, hresults⟩
      | drift dr =>
          have hstep : ((ledger d).programs Outcome).step c (.drift dr) =
              some { c with store := c.store.drift dr } := rfl
          obtain ⟨c', hrun, hstore, hresults⟩ :=
            ih (c := { c with store := c.store.drift dr }) hnodup hready
          exact ⟨c', Pool.Reachable.trans (.step .refl hstep trivial) hrun, hstore, hresults⟩

theorem sequence_agrees (dep : Deployment) (occasions : List Occasion) {w : World}
    (hw : w.Quiet) (hlively : dep.StaysLively occasions w) :
    (dep.sequence occasions w).map id World.memo = dep.tabulated occasions w.memo := by
  induction occasions generalizing w with
  | nil => rfl
  | cons occasion rest ih =>
      cases occasion with
      | process i =>
          have hturn : Agrees (alone (dep.main i) w) (w.memo.turn (dep.role i)) :=
            agrees_turn dep.cfg (dep.recordId i) (dep.role i) hw hlively.1
          have hrest := ih hturn.quiet hlively.2
          rw [hturn.memo] at hrest
          rw [sequence, tabulated, ← hrest, ← hturn.answer]
          rfl
      | drift dr =>
          have hrest := ih (hw.drift dr) hlively
          rw [World.memo_drift] at hrest
          exact hrest

/-- One process after the other, with cache entries lost and time passing in between: the
deployment answers what a memo table answers, and leaves the application's stores so.  When
no process runs twice or waits for a job, this is one of its runs. -/
theorem sequence_eq_memo (dep : Deployment) (d : Delivery) (clock : ℕ)
    (occasions : List Occasion) (hlively : dep.StaysLively occasions (.initial clock)) :
    (dep.sequence occasions (.initial clock)).map id World.memo =
        dep.tabulated occasions (.initial clock) ∧
      ((occasions.filterMap Occasion.proc).Nodup →
        (∀ i ∈ occasions.filterMap Occasion.proc, (dep.main i).Uses Op.Unblocked) →
          ∃ c, ((ledger d).programs Outcome).Reachable ((ledger d).programs Outcome).anyMove
              (dep.start clock) c ∧
            c.store.memo = (dep.tabulated occasions (.initial clock)).2 ∧
            (occasions.filterMap Occasion.proc).map (((ledger d).programs Outcome).result c) =
              (dep.tabulated occasions (.initial clock)).1.map some) := by
  have hagrees := dep.sequence_agrees (w := .initial clock) occasions (fun _ ↦ .free) hlively
  refine ⟨hagrees, fun hnodup huses ↦ ?_⟩
  obtain ⟨c, hrun, hstore, hresults⟩ := dep.exists_sequential_run (c := dep.start clock) d
    occasions hnodup fun i hi ↦ ⟨rfl, huses i hi⟩
  have hmemo : dep.tabulated occasions (.initial clock) =
      ((dep.sequence occasions (.initial clock)).1,
        (dep.sequence occasions (.initial clock)).2.memo) := hagrees.symm
  rw [hmemo]
  exact ⟨c, hrun, congrArg World.memo hstore, hresults⟩

/-- The first request, its retry after Redis has lost the entry, and another body. -/
def lostEntry : List Occasion :=
  [.process 0, .drift (.loseRedisKey (redisKey "k")), .process 1, .drift (.tick 5), .process 2]

theorem sequence_eq_memo_lostEntry :
    let dep := drill fun i ↦ posting "k" (if i = 2 then "other" else "h")
    ∃ c, ((ledger .exclusive).programs Outcome).Reachable
        ((ledger .exclusive).programs Outcome).anyMove (dep.start 0) c ∧
      [0, 1, 2].map (((ledger .exclusive).programs Outcome).result c) =
        (dep.tabulated lostEntry (.initial 0)).1.map some := by
  intro dep
  obtain ⟨c, hrun, -, hresults⟩ := (sequence_eq_memo dep .exclusive 0 lostEntry
    ⟨by decide, by decide, by decide, trivial⟩).2 (by decide) fun i _ ↦ by
      refine Prog.Uses.bind ?_ fun _ ↦ trivial
      exact intercept_uses dep.cfg (fun _ h ↦ h.unblocked) _ _ trivial
  exact ⟨c, hrun, hresults⟩

end Deployment

end TransactionLedger
