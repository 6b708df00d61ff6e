import TransactionLedger.Ledger.Entries

/-!
# Where a stored value comes from

A row, job or Redis value found after a call was there before, or is the one the call wrote.
-/

namespace TransactionLedger

open Async

namespace Op

variable {op : Op}

theorem onTransaction_cases {id : String} {old : Option Transaction} {row : Transaction}
    (h : op.onTransaction id old = some row) :
    (∃ before, old = some before ∧ before.entry = row.entry) ∨
      ∃ data, op = .transactionCreate data ∧ data.row = some row := by
  cases op with
  | transactionCreate data =>
      simp only [onTransaction] at h
      cases hdata : data.row with
      | none =>
          rw [hdata] at h
          exact .inl ⟨row, h, rfl⟩
      | some new =>
          rw [hdata] at h
          dsimp only at h
          split at h
          · cases old with
            | none => exact .inr ⟨data, rfl, hdata.trans h⟩
            | some before => exact .inl ⟨before, rfl, congrArg _ (Option.some.inj h)⟩
          · exact .inl ⟨row, h, rfl⟩
  | transactionUpdate k status =>
      simp only [onTransaction] at h
      split at h
      · obtain ⟨before, hbefore, rfl⟩ := Option.map_eq_some_iff.mp h
        exact .inl ⟨before, hbefore, rfl⟩
      · exact .inl ⟨row, h, rfl⟩
  | transactionUpdateMany k filter status =>
      simp only [onTransaction] at h
      split at h
      · obtain ⟨before, hbefore, hrow⟩ := Option.map_eq_some_iff.mp h
        refine .inl ⟨before, hbefore, ?_⟩
        rw [← hrow]
        split <;> rfl
      · exact .inl ⟨row, h, rfl⟩
  | _ => exact .inl ⟨row, h, rfl⟩

theorem onJob_cases {id : String} {old : Option TransactionJob} {job : TransactionJob}
    (h : op.onJob id old = some job) :
    (∃ before, old = some before ∧ before.data = job.data) ∨
      op = .transactionQueueAdd job.data ∧ job.data.transactionId = id := by
  cases op with
  | transactionQueueAdd data =>
      simp only [onJob] at h
      split at h
      · next hid =>
          cases old with
          | none =>
              obtain rfl := Option.some.inj h
              exact .inr ⟨rfl, hid⟩
          | some before => exact .inl ⟨before, rfl, congrArg _ (Option.some.inj h)⟩
      · exact .inl ⟨job, h, rfl⟩
  | takeJob worker k | failJob worker k =>
      simp only [onJob] at h
      split at h
      · obtain ⟨before, hbefore, rfl⟩ := Option.map_eq_some_iff.mp h
        exact .inl ⟨before, hbefore, rfl⟩
      · exact .inl ⟨job, h, rfl⟩
  | completeJob k =>
      simp only [onJob] at h
      split at h
      · cases h
      · exact .inl ⟨job, h, rfl⟩
  | _ => exact .inl ⟨job, h, rfl⟩

theorem onRecord_cases {key : String} {old : Option IdempotencyRecord} {row : IdempotencyRecord}
    (h : op.onRecord key old = some row) :
    (∃ before, old = some before ∧ before.statusCode = row.statusCode ∧
        before.response = row.response) ∨
      row.statusCode = none ∧ row.response = none ∨
      ∃ statusCode response, op = .recordUpdate key statusCode response ∧
        row.statusCode = some statusCode ∧ row.response = some response := by
  cases op with
  | recordCreate id k requestHash expiresAt =>
      simp only [onRecord] at h
      split at h
      · cases old with
        | none =>
            obtain rfl := Option.some.inj h
            exact .inr (.inl ⟨rfl, rfl⟩)
        | some before =>
            obtain rfl := Option.some.inj h
            exact .inl ⟨before, rfl, rfl, rfl⟩
      · exact .inl ⟨row, h, rfl, rfl⟩
  | recordUpdate k statusCode response =>
      simp only [onRecord] at h
      split at h
      · next hk =>
          subst hk
          obtain ⟨before, -, rfl⟩ := Option.map_eq_some_iff.mp h
          exact .inr (.inr ⟨statusCode, response, rfl, rfl, rfl⟩)
      · exact .inl ⟨row, h, rfl, rfl⟩
  | recordDelete k =>
      simp only [onRecord] at h
      split at h
      · cases h
      · exact .inl ⟨row, h, rfl, rfl⟩
  | recordDeleteMany now =>
      obtain ⟨hrow, -⟩ := Option.filter_eq_some_iff.mp h
      exact .inl ⟨row, hrow, rfl, rfl⟩
  | _ => exact .inl ⟨row, h, rfl, rfl⟩

theorem onRedis_cases {key : String} {old : Option RedisText} {raw : RedisText}
    (h : op.onRedis key old = some raw) :
    old = some raw ∨ (∃ ttl, op = .redisSet key raw ttl) ∨ ∃ ttl, op = .redisSetNX key raw ttl := by
  cases op with
  | redisSet k value ttl =>
      simp only [onRedis] at h
      split at h
      · next hk =>
          subst hk
          split at h
          · cases h
          · obtain rfl := Option.some.inj h
            exact .inr (.inl ⟨ttl, rfl⟩)
      · exact .inl h
  | redisSetNX k value ttl =>
      simp only [onRedis] at h
      split at h
      · next hk =>
          obtain ⟨rfl, -⟩ := hk
          split at h
          · cases h
          · obtain rfl := Option.some.inj h
            exact .inr (.inr ⟨ttl, rfl⟩)
      · exact .inl h
  | redisDel k =>
      simp only [onRedis] at h
      split at h
      · cases h
      · exact .inl h
  | _ => exact .inl h

end Op

/-- The jobs differ in nothing but their progress. -/
def NotificationJob.SameNotice (job job' : NotificationJob) : Prop :=
  job' = { job with attemptsMade := job'.attemptsMade, state := job'.state }

theorem NotificationJob.SameNotice.refl (job : NotificationJob) : job.SameNotice job := rfl

theorem Op.onNotification_cases {op : Op} {jobId : String} {old : Option NotificationJob}
    {job : NotificationJob} (h : op.onNotification jobId old = some job) :
    (∃ before, old = some before ∧ before.SameNotice job) ∨
      op = .notificationQueueAdd job ∧ job.jobId = jobId := by
  cases op with
  | notificationQueueAdd new =>
      simp only [onNotification] at h
      split at h
      · next hid =>
          cases old with
          | none =>
              obtain rfl := Option.some.inj h
              exact .inr ⟨rfl, hid⟩
          | some before =>
              obtain rfl := Option.some.inj h
              exact .inl ⟨before, rfl, .refl _⟩
      · exact .inl ⟨job, h, .refl _⟩
  | takeNotificationJob worker k | failNotificationJob worker k =>
      simp only [onNotification] at h
      split at h
      · obtain ⟨before, hbefore, rfl⟩ := Option.map_eq_some_iff.mp h
        exact .inl ⟨before, hbefore, rfl⟩
      · exact .inl ⟨job, h, .refl _⟩
  | completeNotificationJob k =>
      simp only [onNotification] at h
      split at h
      · cases h
      · exact .inl ⟨job, h, .refl _⟩
  | _ => exact .inl ⟨job, h, .refl _⟩

/-- Only an acknowledgement removes a job. -/
theorem Op.completeJob_of_onJob {op : Op} {id : String} {job : TransactionJob}
    (h : op.onJob id (some job) = none) : op = .completeJob id := by
  cases op with
  | transactionQueueAdd | takeJob | failJob =>
      simp only [onJob] at h
      split at h <;> cases h
  | completeJob k =>
      simp only [onJob] at h
      split at h
      · next hk => rw [hk]
      · cases h
  | _ => cases h

theorem Op.completeNotificationJob_of_onNotification {op : Op} {jobId : String}
    {job : NotificationJob} (h : op.onNotification jobId (some job) = none) :
    op = .completeNotificationJob jobId := by
  cases op with
  | notificationQueueAdd | takeNotificationJob | failNotificationJob =>
      simp only [onNotification] at h
      split at h <;> cases h
  | completeNotificationJob k =>
      simp only [onNotification] at h
      split at h
      · next hk => rw [hk]
      · cases h
  | _ => cases h

namespace World

/-- No row of `transactions` disappears or changes what it says. -/
def Grows (w w' : World) : Prop :=
  ∀ {id row}, w.transaction id = some row →
    ∃ row', w'.transaction id = some row' ∧ row'.entry = row.entry

theorem Grows.refl (w : World) : w.Grows w := fun h ↦ ⟨_, h, rfl⟩

theorem Grows.of_same {w w' : World} (h : ∀ id, w'.transaction id = w.transaction id) :
    w.Grows w' :=
  fun {id row} hrow ↦ ⟨row, (h id).trans hrow, rfl⟩

theorem settle_grows {d : Delivery} {f : Fate} {w w' : World} {op : Op} {r : Except Err op.Res}
    (h : w.settle d f op = some (r, w')) : w.Grows w' := by
  intro id row hrow
  obtain ⟨row', hrow'⟩ := transaction_persists h ⟨row, hrow⟩
  rcases settle_transaction h id with hsame | heffect
  · exact ⟨row, hsame.trans hrow, rfl⟩
  · rw [heffect] at hrow'
    refine ⟨row', heffect.trans hrow', ?_⟩
    rcases Op.onTransaction_cases hrow' with ⟨before, hbefore, hentry⟩ | ⟨data, rfl, hdata⟩
    · obtain rfl := Option.some.inj (hrow.symm.trans hbefore)
      exact hentry.symm
    · simp only [Op.onTransaction, hdata, hrow, Option.some_or, ite_self] at hrow'
      rw [Option.some.inj hrow']

end World

end TransactionLedger
