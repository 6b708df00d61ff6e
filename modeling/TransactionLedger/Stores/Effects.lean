import TransactionLedger.Stores.Calls

/-!
# What a settled call does to the stores

One lemma for each thing the proofs look at: a record, a Redis value, a
transaction, a job.  A call that settles leaves the stores as they were or as
its answer leaves them, whatever its fate.
-/

namespace TransactionLedger

open Async Data

/-- A call addressed to one key leaves the value of any other unchanged. -/
theorem unchanged_or_ite {α : Type} {p : Prop} [Decidable p] {before after : α}
    (Change : α → Prop) (h : p → Change after) :
    (if p then after else before) = before ∨ Change (if p then after else before) := by
  by_cases hp : p
  · rw [if_pos hp]
    exact .inr (h hp)
  · rw [if_neg hp]
    exact .inl rfl

namespace World

variable {d : Delivery} {f : Fate} {w w' : World} {op : Op} {r : Except Err op.Res}

def record (w : World) (key : String) : Option IdempotencyRecord :=
  w.idempotencyRecords.lookup key

def transaction (w : World) (id : String) : Option Transaction :=
  w.transactions.lookup id

def job (w : World) (transactionId : String) : Option TransactionJob :=
  w.transactionQueue.lookup transactionId

theorem settle_cases (h : w.settle d f op = some (r, w')) :
    (w.answer op = (r, w') ∧ f = .run ∧ w.blocked d op = false) ∨
      ∃ e, r = .error e ∧ e.isFault ∧ op.faulty ∧
        (f = .lost e ∧ w' = w ∨ f = .torn e ∧ w' = (w.answer op).2) := by
  cases f with
  | run =>
      simp only [settle] at h
      by_cases hblocked : w.blocked d op
      · rw [if_pos hblocked] at h
        cases h
      · rw [if_neg hblocked] at h
        exact .inl ⟨Option.some.inj h, rfl, by simpa using hblocked⟩
  | lost e =>
      simp only [settle] at h
      by_cases hfault : op.faulty ∧ e.isFault
      · rw [if_pos hfault] at h
        obtain ⟨rfl, rfl⟩ := Prod.mk.inj (Option.some.inj h)
        exact .inr ⟨e, rfl, hfault.2, hfault.1, .inl ⟨rfl, rfl⟩⟩
      · rw [if_neg hfault] at h
        cases h
  | torn e =>
      simp only [settle] at h
      by_cases hfault : op.faulty ∧ e.isFault
      · rw [if_pos hfault] at h
        obtain ⟨rfl, rfl⟩ := Prod.mk.inj (Option.some.inj h)
        exact .inr ⟨e, rfl, hfault.2, hfault.1, .inr ⟨rfl, rfl⟩⟩
      · rw [if_neg hfault] at h
        cases h

/-- A call that resolves has run. -/
theorem settle_ok {a : op.Res} (h : w.settle d f op = some (.ok a, w')) :
    w.answer op = (.ok a, w') := by
  rcases settle_cases h with ⟨hrun, -, -⟩ | ⟨e, hr, -⟩
  · exact hrun
  · cases hr

theorem settle_world (h : w.settle d f op = some (r, w')) :
    w' = w ∨ w' = (w.answer op).2 := by
  rcases settle_cases h with ⟨hrun, -, -⟩ | ⟨e, -, -, -, ⟨-, hw⟩ | ⟨-, hw⟩⟩
  · exact .inr (by rw [hrun])
  · exact .inl hw
  · exact .inr hw

theorem insertNotification_error {id : String} {data : NotificationData} {e : Err}
    (h : (w.insertNotification id data).1 = .error e) :
    (w.insertNotification id data).2 = w := by
  simp only [insertNotification] at h ⊢
  split at h
  · rfl
  · split at h
    · rfl
    · split at h
      · rfl
      · cases h

/-- An insertion changes the notifications or nothing. -/
theorem insertNotification_eq (w : World) (id : String) (data : NotificationData) :
    (w.insertNotification id data).2 = w ∨
      ∃ t, (w.insertNotification id data).2 = { w with notifications := t } := by
  simp only [insertNotification]
  split
  · exact .inl rfl
  · split
    · exact .inl rfl
    · split
      · exact .inl rfl
      · exact .inr ⟨_, rfl⟩

/-- The calls of the notification processor change no other table. -/
theorem answer_notificationCreate (w : World) (id : String) (data : NotificationData) :
    ∃ t, (w.answer (.notificationCreate id data)).2 = { w with notifications := t } := by
  rcases insertNotification_eq w id data with h | ⟨t, h⟩
  · exact ⟨w.notifications, h⟩
  · exact ⟨t, h⟩

theorem answer_notificationUpsert (w : World) (pair : String × NotificationChannel)
    (id : String) (create : NotificationData) (update : NotificationUpdate) :
    ∃ t, (w.answer (.notificationUpsert pair id create update)).2 =
      { w with notifications := t } := by
  simp only [answer]
  split
  · exact answer_notificationCreate w id create
  · split
    · exact ⟨w.notifications, rfl⟩
    · exact ⟨_, rfl⟩

/-- An answer that is an error has changed nothing. -/
theorem answer_error {e : Err} (h : w.answer op = (.error e, w')) : w' = w := by
  have hsnd : (w.answer op).2 = w' := congrArg Prod.snd h
  have hfst : (w.answer op).1 = .error e := congrArg Prod.fst h
  rw [← hsnd]
  cases op with
  | redisSetNX | recordCreate | recordUpdate | recordDelete | transactionUpdate
  | transactionQueueAdd | notificationQueueAdd | takeJob | takeNotificationJob =>
      simp only [answer] at hfst ⊢
      split at hfst <;> first | rfl | cases hfst
  | notificationCreate id data => exact insertNotification_error hfst
  | notificationUpsert pair id create update =>
      simp only [answer] at hfst ⊢
      split at hfst
      · exact insertNotification_error hfst
      · split at hfst <;> first | rfl | cases hfst
  | transactionCreate data =>
      simp only [answer] at hfst ⊢
      split at hfst
      · rfl
      · split at hfst <;> first | rfl | cases hfst
  | _ => cases hfst

/-- A call that throws has changed nothing, unless it is torn. -/
theorem settle_error {e : Err} (h : w.settle d f op = some (.error e, w')) :
    w' = w ∨ ∃ e', f = .torn e' := by
  rcases settle_cases h with ⟨hrun, -, -⟩ | ⟨e', -, -, -, ⟨-, hw⟩ | ⟨hf, -⟩⟩
  · exact .inl (answer_error hrun)
  · exact .inl hw
  · exact .inr ⟨e', hf⟩

/-- A call that changes the stores has taken effect. -/
theorem settle_effect (h : w.settle d f op = some (r, w')) (hne : w' ≠ w) (e : Err) :
    f ≠ .lost e := by
  rintro rfl
  rcases settle_cases h with ⟨-, hf, -⟩ | ⟨e', -, -, -, ⟨-, hw⟩ | ⟨hf, -⟩⟩
  · cases hf
  · exact hne hw
  · cases hf

/-- A known request error is an answer of PostgreSQL. -/
theorem settle_p2002 (h : w.settle d f op = some (.error (.prisma .p2002), w')) :
    w.answer op = (.error (.prisma .p2002), w') := by
  rcases settle_cases h with ⟨hrun, -, -⟩ | ⟨e, hr, hfault, -⟩
  · exact hrun
  · cases hr
    simp [Err.isFault] at hfault

/-- Observing an outcome neither fails nor touches a store. -/
theorem settle_observe {o : Observation} {r : Except Err Unit}
    (h : w.settle d f (.observe o) = some (r, w')) : r = .ok () ∧ w' = w := by
  rcases settle_cases h with ⟨hrun, -, -⟩ | ⟨e, -, -, hfaulty, -⟩
  · cases hrun
    exact ⟨rfl, rfl⟩
  · cases hfaulty

@[simp] theorem answer_clock (w : World) (op : Op) : (w.answer op).2.clock = w.clock := by
  cases op with
  | redisSetNX | recordCreate | recordUpdate | recordDelete | transactionUpdate
  | transactionQueueAdd | notificationQueueAdd | takeJob | takeNotificationJob =>
      simp only [answer]
      split <;> rfl
  | transactionCreate data =>
      simp only [answer]
      split
      · rfl
      · split <;> rfl
  | notificationCreate id data =>
      obtain ⟨t, ht⟩ := answer_notificationCreate w id data
      rw [ht]
  | notificationUpsert pair id create update =>
      obtain ⟨t, ht⟩ := answer_notificationUpsert w pair id create update
      rw [ht]
  | _ => rfl

theorem settle_clock (h : w.settle d f op = some (r, w')) : w'.clock = w.clock := by
  rcases settle_world h with rfl | rfl
  · rfl
  · exact answer_clock w op

end World

/-! ## Records -/

/-- What a call leaves of the record with a given key. -/
def Op.onRecord (key : String) :
    Op → Option IdempotencyRecord → Option IdempotencyRecord
  | .recordCreate id k requestHash expiresAt, row =>
      if k = key then row.or (some ⟨id, k, requestHash, none, none, expiresAt⟩) else row
  | .recordUpdate k statusCode response, row =>
      if k = key then
        row.map fun r ↦ { r with statusCode := some statusCode, response := some response }
      else row
  | .recordDelete k, row => if k = key then none else row
  | .recordDeleteMany now, row => row.filter fun r ↦ ¬r.expiresAt ≤ now
  | _, row => row

theorem Op.Foreign.onRecord {op : Op} (h : op.Foreign) (key : String)
    (row : Option IdempotencyRecord) : op.onRecord key row = row := by
  cases op <;> first | rfl | exact h.elim

namespace World

variable {d : Delivery} {f : Fate} {w w' : World} {op : Op} {r : Except Err op.Res}

theorem answer_record (w : World) (op : Op) (key : String) :
    (w.answer op).2.record key = op.onRecord key (w.record key) := by
  cases op with
  | recordCreate id k requestHash expiresAt =>
      have hins := Table.lookup_insert_getD w.idempotencyRecords
        ⟨id, k, requestHash, none, none, expiresAt⟩ key
      simp only [answer, Op.onRecord]
      cases hrows : w.idempotencyRecords.insert ⟨id, k, requestHash, none, none, expiresAt⟩ with
      | none => rw [hrows] at hins; exact hins
      | some t => rw [hrows] at hins; exact hins
  | recordUpdate k statusCode response =>
      simp only [answer, Op.onRecord]
      cases hrow : w.idempotencyRecords.lookup k with
      | none =>
          by_cases hk : k = key
          · subst hk
            simp [record, hrow]
          · simp [hk]
      | some row =>
          simp only [record, Table.lookup_modify, eq_comm (a := key)]
  | recordDelete k =>
      simp only [answer, Op.onRecord]
      cases hrow : w.idempotencyRecords.lookup k with
      | none =>
          by_cases hk : k = key
          · subst hk
            simp [record, hrow]
          · simp [hk]
      | some row =>
          simp only [record, Table.lookup_delete, eq_comm (a := key)]
  | recordDeleteMany now =>
      simp only [answer, Op.onRecord, record, Table.lookup_filter]
  | redisSetNX | transactionUpdate | transactionQueueAdd | notificationQueueAdd
  | takeJob | takeNotificationJob =>
      simp only [answer]
      split <;> rfl
  | transactionCreate data =>
      simp only [answer]
      split
      · rfl
      · split <;> rfl
  | notificationCreate id data =>
      obtain ⟨t, ht⟩ := answer_notificationCreate w id data
      rw [ht]
      rfl
  | notificationUpsert pair id create update =>
      obtain ⟨t, ht⟩ := answer_notificationUpsert w pair id create update
      rw [ht]
      rfl
  | _ => rfl

theorem settle_record (h : w.settle d f op = some (r, w')) (key : String) :
    w'.record key = w.record key ∨ w'.record key = op.onRecord key (w.record key) := by
  rcases settle_world h with rfl | rfl
  · exact .inl rfl
  · exact .inr (answer_record w op key)

/-- An insertion that succeeds found no record. -/
theorem record_of_create {id key requestHash : String} {expiresAt : ℕ}
    {row : IdempotencyRecord}
    (h : w.answer (.recordCreate id key requestHash expiresAt) = (.ok row, w')) :
    w.record key = none ∧ w'.record key = some row ∧
      row = ⟨id, key, requestHash, none, none, expiresAt⟩ := by
  have hafter := answer_record w (.recordCreate id key requestHash expiresAt) key
  rw [h] at hafter
  simp only [answer] at h
  cases hins : w.idempotencyRecords.insert ⟨id, key, requestHash, none, none, expiresAt⟩ with
  | none =>
      rw [hins] at h
      cases h
  | some t =>
      have hnone : w.record key = none := by
        rw [Option.eq_none_iff_forall_ne_some]
        intro other hother
        change w.idempotencyRecords.lookup key = some other at hother
        rw [Table.insert_eq_none_iff.mpr ⟨other, hother⟩] at hins
        cases hins
      rw [hins] at h
      obtain ⟨hrow, -⟩ := Prod.mk.inj h
      obtain rfl := Except.ok.inj hrow
      refine ⟨hnone, ?_, rfl⟩
      rw [hafter, hnone]
      exact if_pos rfl

/-- A unique-constraint violation on the key found a record. -/
theorem record_of_p2002 {id key requestHash : String} {expiresAt : ℕ} {e : Err}
    (h : w.answer (.recordCreate id key requestHash expiresAt) = (.error e, w')) :
    w' = w ∧ ∃ row, w.record key = some row := by
  simp only [answer] at h
  cases hins : w.idempotencyRecords.insert ⟨id, key, requestHash, none, none, expiresAt⟩ with
  | none =>
      rw [hins] at h
      obtain ⟨-, rfl⟩ := Prod.mk.inj h
      exact ⟨rfl, Table.insert_eq_none_iff.mp hins⟩
  | some t =>
      rw [hins] at h
      cases h

end World

/-! ## Redis -/

/-- What a call leaves of the value a `GET` finds under a given key. -/
def Op.onRedis (key : String) : Op → Option RedisText → Option RedisText
  | .redisSet k value ttlSeconds, found =>
      if k = key then (if ttlSeconds = some 0 then none else some value) else found
  | .redisSetNX k value ttlSeconds, found =>
      if k = key ∧ found = none then (if ttlSeconds = 0 then none else some value) else found
  | .redisDel k, found => if k = key then none else found
  | _, found => found

theorem Op.Foreign.onRedis {op : Op} (h : op.Foreign) (key : String)
    (found : Option RedisText) : op.onRedis key found = found := by
  cases op <;> first | rfl | exact h.elim

namespace World

variable {d : Delivery} {f : Fate} {w w' : World} {op : Op} {r : Except Err op.Res}

theorem redisGet_congr {v v' : World} {key : String} (hredis : v'.redis key = v.redis key)
    (hclock : v'.clock = v.clock) : v'.redisGet key = v.redisGet key := by
  simp only [redisGet, hredis, hclock]

theorem redisGet_redisPut (w : World) (k key : String) (value : RedisText)
    (ttlSeconds : Option ℕ) :
    (w.redisPut k value ttlSeconds).redisGet key =
      if k = key then (if ttlSeconds = some 0 then none else some value)
      else w.redisGet key := by
  by_cases hk : k = key
  · subst hk
    rw [if_pos rfl]
    rcases ttlSeconds with _ | _ | ttl
    · simp [redisPut, redisGet, RedisEntry.live]
    · simp [redisPut, redisGet, RedisEntry.live]
    · have hlive : w.clock < w.clock + (ttl + 1) * 1000 := by omega
      simp [redisPut, redisGet, RedisEntry.live, hlive]
  · rw [if_neg hk]
    exact redisGet_congr (Function.update_of_ne (Ne.symm hk) ..) rfl

theorem redisGet_removed (w : World) (k key : String) :
    { w with redis := Function.update w.redis k none }.redisGet key =
      if k = key then none else w.redisGet key := by
  by_cases hk : k = key
  · subst hk
    simp [redisGet]
  · rw [if_neg hk]
    exact redisGet_congr (Function.update_of_ne (Ne.symm hk) ..) rfl

theorem answer_redisGet (w : World) (op : Op) (key : String) :
    (w.answer op).2.redisGet key = op.onRedis key (w.redisGet key) := by
  cases op with
  | redisSet k value ttlSeconds => exact redisGet_redisPut w k key value ttlSeconds
  | redisSetNX k value ttlSeconds =>
      simp only [answer, Op.onRedis]
      cases hfound : w.redisGet k with
      | some raw =>
          by_cases hk : k = key
          · subst hk
            simp [hfound]
          · simp [hk]
      | none =>
          simp only [redisGet_redisPut]
          by_cases hk : k = key
          · subst hk
            simp [hfound]
          · simp [hk]
  | redisDel k => exact redisGet_removed w k key
  | recordCreate | recordUpdate | recordDelete | transactionUpdate
  | transactionQueueAdd | notificationQueueAdd | takeJob | takeNotificationJob =>
      simp only [answer]
      split <;> rfl
  | transactionCreate data =>
      simp only [answer]
      split
      · rfl
      · split <;> rfl
  | notificationCreate id data =>
      obtain ⟨t, ht⟩ := answer_notificationCreate w id data
      rw [ht]
      rfl
  | notificationUpsert pair id create update =>
      obtain ⟨t, ht⟩ := answer_notificationUpsert w pair id create update
      rw [ht]
      rfl
  | _ => rfl

theorem settle_redisGet (h : w.settle d f op = some (r, w')) (key : String) :
    w'.redisGet key = w.redisGet key ∨
      w'.redisGet key = op.onRedis key (w.redisGet key) := by
  rcases settle_world h with rfl | rfl
  · exact .inl rfl
  · exact .inr (answer_redisGet w op key)

/-- Entries only disappear on their own. -/
theorem drift_redisGet (w : World) (dr : Drift) (key : String) :
    (w.drift dr).redisGet key = w.redisGet key ∨ (w.drift dr).redisGet key = none := by
  cases dr with
  | tick ms =>
      simp only [drift, redisGet]
      cases w.redis key with
      | none => exact .inl rfl
      | some e =>
          rcases e with ⟨value, _ | t⟩
          · exact .inl rfl
          · by_cases hlive : w.clock + ms < t
            · have : w.clock < t := by omega
              exact .inl (by simp [RedisEntry.live, hlive, this])
            · exact .inr (by simp [RedisEntry.live, hlive])
  | loseRedisKey k =>
      rw [drift, redisGet_removed]
      by_cases hk : k = key
      · exact .inr (if_pos hk)
      · exact .inl (if_neg hk)

@[simp] theorem drift_record (w : World) (dr : Drift) (key : String) :
    (w.drift dr).record key = w.record key := by
  cases dr <;> rfl

theorem clock_le_drift (w : World) (dr : Drift) : w.clock ≤ (w.drift dr).clock := by
  cases dr with
  | tick ms => exact Nat.le_add_right ..
  | loseRedisKey k => exact Nat.le_refl _

end World

/-! ## Transactions and jobs -/

/-- What a call leaves of the transaction with a given id. -/
def Op.onTransaction (id : String) : Op → Option Transaction → Option Transaction
  | .transactionCreate data, row =>
      match data.row with
      | none => row
      | some new => if new.id = id then row.or (some new) else row
  | .transactionUpdate k status, row =>
      if k = id then row.map fun r ↦ { r with status := status } else row
  | .transactionUpdateMany k filter status, row =>
      if k = id then
        row.map fun r ↦ if filter.holds r.status then { r with status := status } else r
      else row
  | _, row => row

/-- What a call leaves of the job of a transaction. -/
def Op.onJob (id : String) : Op → Option TransactionJob → Option TransactionJob
  | .transactionQueueAdd data, job =>
      if data.transactionId = id then job.or (some ⟨data, 0, .waiting⟩) else job
  | .takeJob worker k, job =>
      if k = id then job.map fun j ↦ { j with state := .active worker } else job
  | .completeJob k, job => if k = id then none else job
  | .failJob worker k, job => if k = id then job.map (TransactionJob.failedBy worker) else job
  | _, job => job

/-- What a call leaves of the notification job with a given id. -/
def Op.onNotification (jobId : String) :
    Op → Option NotificationJob → Option NotificationJob
  | .notificationQueueAdd job, found => if job.jobId = jobId then found.or (some job) else found
  | .takeNotificationJob worker k, found =>
      if k = jobId then found.map fun j ↦ { j with state := .active worker } else found
  | .completeNotificationJob k, found => if k = jobId then none else found
  | .failNotificationJob worker k, found =>
      if k = jobId then found.map (NotificationJob.failedBy worker) else found
  | _, found => found

namespace World

variable {d : Delivery} {f : Fate} {w w' : World} {op : Op} {r : Except Err op.Res}

def notification (w : World) (jobId : String) : Option NotificationJob :=
  w.notificationQueue.lookup jobId

theorem answer_transaction (w : World) (op : Op) (id : String) :
    (w.answer op).2.transaction id = op.onTransaction id (w.transaction id) := by
  cases op with
  | transactionCreate data =>
      simp only [answer, Op.onTransaction]
      cases hdata : data.row with
      | none => rfl
      | some row =>
          have hins := Table.lookup_insert_getD w.transactions row id
          simp only
          cases hrows : w.transactions.insert row with
          | none => rw [hrows] at hins; exact hins
          | some t => rw [hrows] at hins; exact hins
  | transactionUpdate k status =>
      simp only [answer, Op.onTransaction]
      cases hrow : w.transactions.lookup k with
      | none =>
          by_cases hk : k = id
          · subst hk
            simp [transaction, hrow]
          · simp [hk]
      | some row => simp only [transaction, Table.lookup_modify, eq_comm (a := id)]
  | transactionUpdateMany k filter status =>
      simp only [answer, Op.onTransaction, transaction, Table.lookup_updateWhere]
      cases hrow : w.transactions.lookup id with
      | none => simp
      | some row =>
          have hid : row.id = id := Table.key_of_lookup hrow
          by_cases hk : k = id
          · subst hk
            simp [hid]
          · have hk' : ¬id = k := fun h ↦ hk h.symm
            simp [hid, hk, hk']
  | redisSetNX | recordCreate | recordUpdate | recordDelete | transactionQueueAdd
  | notificationQueueAdd | takeJob | takeNotificationJob =>
      simp only [answer]
      split <;> rfl
  | notificationCreate id data =>
      obtain ⟨t, ht⟩ := answer_notificationCreate w id data
      rw [ht]
      rfl
  | notificationUpsert pair id create update =>
      obtain ⟨t, ht⟩ := answer_notificationUpsert w pair id create update
      rw [ht]
      rfl
  | _ => rfl

theorem answer_job (w : World) (op : Op) (id : String) :
    (w.answer op).2.job id = op.onJob id (w.job id) := by
  cases op with
  | transactionQueueAdd data =>
      have hins := Table.lookup_insert_getD w.transactionQueue ⟨data, 0, .waiting⟩ id
      simp only [answer, Op.onJob]
      cases hrows : w.transactionQueue.insert ⟨data, 0, .waiting⟩ with
      | none => rw [hrows] at hins; exact hins
      | some t => rw [hrows] at hins; exact hins
  | takeJob worker k =>
      simp only [answer, Op.onJob]
      cases hrow : w.transactionQueue.lookup k with
      | none =>
          by_cases hk : k = id
          · subst hk
            simp [job, hrow]
          · simp [hk]
      | some row => simp only [job, Table.lookup_modify, eq_comm (a := id)]
  | completeJob k => simp only [answer, Op.onJob, job, Table.lookup_delete, eq_comm (a := id)]
  | failJob worker k =>
      simp only [answer, Op.onJob, job, Table.lookup_modify, eq_comm (a := id)]
  | redisSetNX | recordCreate | recordUpdate | recordDelete | transactionUpdate
  | notificationQueueAdd | takeNotificationJob =>
      simp only [answer]
      split <;> rfl
  | transactionCreate data =>
      simp only [answer]
      split
      · rfl
      · split <;> rfl
  | notificationCreate id data =>
      obtain ⟨t, ht⟩ := answer_notificationCreate w id data
      rw [ht]
      rfl
  | notificationUpsert pair id create update =>
      obtain ⟨t, ht⟩ := answer_notificationUpsert w pair id create update
      rw [ht]
      rfl
  | _ => rfl

theorem answer_notification (w : World) (op : Op) (jobId : String) :
    (w.answer op).2.notification jobId = op.onNotification jobId (w.notification jobId) := by
  cases op with
  | notificationQueueAdd job =>
      have hins := Table.lookup_insert_getD w.notificationQueue job jobId
      simp only [answer, Op.onNotification]
      cases hrows : w.notificationQueue.insert job with
      | none => rw [hrows] at hins; exact hins
      | some t => rw [hrows] at hins; exact hins
  | redisSetNX | recordCreate | recordUpdate | recordDelete | transactionUpdate
  | transactionQueueAdd | takeJob =>
      simp only [answer]
      split <;> rfl
  | transactionCreate data =>
      simp only [answer]
      split
      · rfl
      · split <;> rfl
  | takeNotificationJob worker k =>
      simp only [answer, Op.onNotification]
      cases hrow : w.notificationQueue.lookup k with
      | none =>
          by_cases hk : k = jobId
          · subst hk
            simp [notification, hrow]
          · simp [hk]
      | some row => simp only [notification, Table.lookup_modify, eq_comm (a := jobId)]
  | completeNotificationJob k =>
      simp only [answer, Op.onNotification, notification, Table.lookup_delete,
        eq_comm (a := jobId)]
  | failNotificationJob worker k =>
      simp only [answer, Op.onNotification, notification, Table.lookup_modify,
        eq_comm (a := jobId)]
  | notificationCreate id data =>
      obtain ⟨t, ht⟩ := answer_notificationCreate w id data
      rw [ht]
      rfl
  | notificationUpsert pair id create update =>
      obtain ⟨t, ht⟩ := answer_notificationUpsert w pair id create update
      rw [ht]
      rfl
  | _ => rfl

theorem settle_transaction (h : w.settle d f op = some (r, w')) (id : String) :
    w'.transaction id = w.transaction id ∨
      w'.transaction id = op.onTransaction id (w.transaction id) := by
  rcases settle_world h with rfl | rfl
  · exact .inl rfl
  · exact .inr (answer_transaction w op id)

theorem transaction_persists (h : w.settle d f op = some (r, w')) {id : String}
    (hrow : ∃ row, w.transaction id = some row) : ∃ row, w'.transaction id = some row := by
  obtain ⟨row, hrow⟩ := hrow
  rcases settle_transaction h id with hsame | heffect
  · exact ⟨row, hsame.trans hrow⟩
  · rw [heffect, hrow]
    cases op with
    | transactionCreate data =>
        simp only [Op.onTransaction, Option.some_or, ite_self]
        split <;> exact ⟨row, rfl⟩
    | transactionUpdate k status =>
        simp only [Op.onTransaction]
        split <;> exact ⟨_, rfl⟩
    | transactionUpdateMany k filter status =>
        simp only [Op.onTransaction]
        split <;> exact ⟨_, rfl⟩
    | _ => exact ⟨row, rfl⟩

theorem settle_job (h : w.settle d f op = some (r, w')) (id : String) :
    w'.job id = w.job id ∨ w'.job id = op.onJob id (w.job id) := by
  rcases settle_world h with rfl | rfl
  · exact .inl rfl
  · exact .inr (answer_job w op id)

theorem settle_notification (h : w.settle d f op = some (r, w')) (jobId : String) :
    w'.notification jobId = w.notification jobId ∨
      w'.notification jobId = op.onNotification jobId (w.notification jobId) := by
  rcases settle_world h with rfl | rfl
  · exact .inl rfl
  · exact .inr (answer_notification w op jobId)

/-- An insertion that succeeds stores the row of its data. -/
theorem transaction_of_create {data : TransactionData} {row : Transaction}
    (h : w.answer (.transactionCreate data) = (.ok row, w')) :
    data.row = some row ∧ w'.transaction row.id = some row := by
  simp only [answer] at h
  cases hdata : data.row with
  | none =>
      rw [hdata] at h
      cases h
  | some new =>
      rw [hdata] at h
      simp only at h
      cases hins : w.transactions.insert new with
      | none =>
          rw [hins] at h
          cases h
      | some t =>
          rw [hins] at h
          obtain ⟨hrow, rfl⟩ := Prod.mk.inj h
          obtain rfl := Except.ok.inj hrow
          exact ⟨rfl, (Table.lookup_insert hins _).trans (if_pos rfl)⟩

/-- An update by id that resolves found the row. -/
theorem transaction_of_update {id : String} {status : TransactionStatus} {row : Transaction}
    (h : w.answer (.transactionUpdate id status) = (.ok row, w')) :
    ∃ old, w.transaction id = some old ∧ row = { old with status := status } ∧
      w'.transaction id = some row := by
  have hafter := answer_transaction w (.transactionUpdate id status) id
  rw [h] at hafter
  simp only [answer] at h
  cases hold : w.transactions.lookup id with
  | none =>
      rw [hold] at h
      cases h
  | some old =>
      rw [hold] at h
      obtain ⟨hrow, -⟩ := Prod.mk.inj h
      obtain rfl := Except.ok.inj hrow
      refine ⟨old, hold, rfl, hafter.trans ?_⟩
      simp only [Op.onTransaction, if_true, transaction, hold, Option.map_some]

/-- A filtered update of one row counts whether the row passed the filter. -/
theorem count_of_updateMany {id : String} {filter : StatusFilter} {status : TransactionStatus}
    {count : ℕ} (h : w.answer (.transactionUpdateMany id filter status) = (.ok count, w')) :
    count = 0 ↔ ∀ row, w.transaction id = some row → ¬filter.holds row.status := by
  obtain ⟨hcount, -⟩ := Prod.mk.inj h
  have hid : ∀ row : Transaction, decide (row.id = id ∧ filter.holds row.status) →
      row.id = id := fun row hrow ↦ (of_decide_eq_true hrow).1
  rw [← Except.ok.inj hcount, Table.count_eq_zero_iff hid]
  constructor
  · intro hnone row hrow hholds
    have hid : row.id = id := Table.key_of_lookup hrow
    exact hnone row hrow (by simp [hid, hholds])
  · intro hnone row hrow hholds
    exact hnone row hrow (by simpa using (of_decide_eq_true hholds).2)

theorem drift_transaction (w : World) (dr : Drift) (id : String) :
    (w.drift dr).transaction id = w.transaction id := by
  cases dr <;> rfl

theorem drift_job (w : World) (dr : Drift) (id : String) :
    (w.drift dr).job id = w.job id := by
  cases dr <;> rfl

theorem drift_notification (w : World) (dr : Drift) (jobId : String) :
    (w.drift dr).notification jobId = w.notification jobId := by
  cases dr <;> rfl

/-- A crash puts the jobs of the worker back. -/
theorem crash_job (w : World) (i : ℕ) (id : String) :
    (w.crash i).job id = (w.job id).map (TransactionJob.stalledBy i) := by
  simp [crash, job, Table.lookup_updateWhere]

theorem crash_notification (w : World) (i : ℕ) (jobId : String) :
    (w.crash i).notification jobId =
      (w.notification jobId).map (NotificationJob.stalledBy i) := by
  simp [crash, notification, Table.lookup_updateWhere]

end World

end TransactionLedger
