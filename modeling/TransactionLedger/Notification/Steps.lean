import TransactionLedger.Async.Trace
import TransactionLedger.Notification.Control
import TransactionLedger.Stores.Effects

/-!
# What one call of the notification processor does
-/

namespace TransactionLedger

open Async Data NotificationProcessor

theorem NotificationData.of_row {id : String} {data : NotificationData} {row : Notification}
    (h : data.row id = some row) :
    row.pair = (data.transactionId, data.channel) ∧ row.status = data.status ∧
      row.attempts = data.attempts ∧ row.payload = data.payload ∧
      data.recipient = .str row.recipient := by
  obtain ⟨recipient, hrecipient, rfl⟩ := Option.map_eq_some_iff.mp h
  refine ⟨rfl, rfl, rfl, rfl, ?_⟩
  cases hdata : data.recipient with
  | str s =>
      rw [hdata, recipientColumn] at hrecipient
      split at hrecipient
      · rw [Option.some.inj hrecipient]
      · cases hrecipient
  | _ =>
      rw [hdata] at hrecipient
      cases hrecipient

/-- The calls that can change the notification of a pair, and how they change it. -/
inductive NoticeChange (pair : String × NotificationChannel) :
    Op → Option Notification → Option Notification → Prop where
  | created {id : String} {data : NotificationData} {row : Notification}
      (hrow : data.row id = some row) (hpair : row.pair = pair) :
      NoticeChange pair (.notificationCreate id data) none (some row)
  | inserted {k : String × NotificationChannel} {id : String} {create : NotificationData}
      {update : NotificationUpdate} {row : Notification}
      (hrow : create.row id = some row) (hpair : row.pair = pair) :
      NoticeChange pair (.notificationUpsert k id create update) none (some row)
  | updated {id : String} {create : NotificationData} {update : NotificationUpdate}
      {row : Notification} :
      NoticeChange pair (.notificationUpsert pair id create update) (some row)
        (some (update.apply row))

namespace World

variable {d : Delivery} {f : Fate} {w w' : World} {op : Op} {r : Except Err op.Res}
  {pair : String × NotificationChannel}

/-- The row of a pair. -/
def notice (w : World) (pair : String × NotificationChannel) : Option Notification :=
  w.notifications.lookup pair

theorem insertNotification_cases (w : World) (id : String) (data : NotificationData) :
    (∃ e, w.insertNotification id data = (.error e, w) ∧
      (e = .prisma .p2002 ↔ (data.row id).isSome ∧
        ∃ row, w.notice (data.transactionId, data.channel) = some row)) ∨
    ∃ row t, data.row id = some row ∧ w.notice row.pair = none ∧
      w.insertNotification id data = (.ok row, { w with notifications := t }) ∧
      ∀ pair, t.lookup pair = if row.pair = pair then some row else w.notice pair := by
  simp only [insertNotification]
  cases hrow : data.row id with
  | none => exact .inl ⟨.error "Invalid value provided", rfl, by simp⟩
  | some row =>
      have hpair := (NotificationData.of_row hrow).1
      dsimp only
      cases hins : w.notifications.insert row with
      | none =>
          obtain ⟨old, hold⟩ := Table.insert_eq_none_iff.mp hins
          exact .inl ⟨.prisma .p2002, rfl, by simpa using ⟨old, hpair ▸ hold⟩⟩
      | some t =>
          have hnone : w.notice row.pair = none := by
            rw [Option.eq_none_iff_forall_ne_some]
            intro old hold
            rw [Table.insert_eq_none_iff.mpr ⟨old, hold⟩] at hins
            cases hins
          dsimp only
          cases w.transactions.lookup data.transactionId with
          | none =>
              rw [hpair] at hnone
              exact .inl ⟨.prisma (.other "P2003"), rfl, by simp [hnone]⟩
          | some _ => exact .inr ⟨row, t, rfl, hnone, rfl, Table.lookup_insert hins⟩

theorem answer_notice (w : World) (op : Op) (pair : String × NotificationChannel) :
    (w.answer op).2.notice pair = w.notice pair ∨
      NoticeChange pair op (w.notice pair) ((w.answer op).2.notice pair) := by
  cases op with
  | notificationCreate id data =>
      rcases insertNotification_cases w id data with ⟨e, heq, -⟩ | ⟨row, t, hrow, hnone, heq, ht⟩
      · exact .inl (congrArg (fun out ↦ out.2.notice pair) heq)
      · have hafter : (w.answer (.notificationCreate id data)).2.notice pair = _ :=
          (congrArg (fun out ↦ out.2.notice pair) heq).trans (ht pair)
        rw [hafter]
        by_cases hpair : row.pair = pair
        · rw [if_pos hpair, ← hpair, hnone]
          exact .inr (.created hrow rfl)
        · exact .inl (if_neg hpair)
  | notificationUpsert k id create update =>
      simp only [answer]
      cases hold : w.notifications.lookup k with
      | none =>
          rcases insertNotification_cases w id create with
            ⟨e, heq, -⟩ | ⟨row, t, hrow, hnone, heq, ht⟩
          · exact .inl (congrArg (fun out ↦ out.2.notice pair) heq)
          · simp only [heq]
            have hafter : World.notice { w with notifications := t } pair = _ := ht pair
            rw [hafter]
            by_cases hpair : row.pair = pair
            · rw [if_pos hpair, ← hpair, hnone]
              exact .inr (.inserted hrow rfl)
            · exact .inl (if_neg hpair)
      | some row =>
          cases create.row id with
          | none => exact .inl rfl
          | some _ =>
              simp only [notice, Table.lookup_modify]
              by_cases hpair : pair = k
              · subst hpair
                rw [if_pos rfl, hold]
                exact .inr .updated
              · exact .inl (if_neg hpair)
  | redisSetNX | recordCreate | recordUpdate | recordDelete | transactionUpdate
  | transactionQueueAdd | notificationQueueAdd | takeJob | takeNotificationJob =>
      simp only [answer]
      split <;> exact .inl rfl
  | transactionCreate data =>
      simp only [answer]
      split
      · exact .inl rfl
      · split <;> exact .inl rfl
  | _ => exact .inl rfl

theorem settle_notice (h : w.settle d f op = some (r, w')) (pair : String × NotificationChannel) :
    w'.notice pair = w.notice pair ∨
      NoticeChange pair op (w.notice pair) (w'.notice pair) := by
  rcases settle_world h with rfl | rfl
  · exact .inl rfl
  · exact answer_notice w op pair

theorem drift_notice (w : World) (dr : Drift) (pair : String × NotificationChannel) :
    (w.drift dr).notice pair = w.notice pair := by
  cases dr <;> rfl

/-- An insertion that resolves has made the row. -/
theorem notice_of_create {id : String} {data : NotificationData} {row : Notification}
    (h : w.settle d f (.notificationCreate id data) = some (.ok row, w')) :
    data.row id = some row ∧ w.notice row.pair = none ∧ w'.notice row.pair = some row := by
  have hrun : w.insertNotification id data = (.ok row, w') := settle_ok h
  rcases insertNotification_cases w id data with ⟨e, heq, -⟩ | ⟨new, t, hrow, hnone, heq, ht⟩
  · cases heq.symm.trans hrun
  · obtain ⟨hnew, rfl⟩ := Prod.mk.inj (heq.symm.trans hrun)
    obtain rfl := Except.ok.inj hnew
    exact ⟨hrow, hnone, (ht _).trans (if_pos rfl)⟩

/-- A unique-constraint violation has found a row. -/
theorem notice_of_p2002 {id : String} {data : NotificationData}
    (h : w.settle d f (.notificationCreate id data) = some (.error (.prisma .p2002), w')) :
    f = .run ∧ w' = w ∧ (data.row id).isSome ∧
      ∃ row, w.notice (data.transactionId, data.channel) = some row := by
  have hrun : w.insertNotification id data = (.error (.prisma .p2002), w') := settle_p2002 h
  have hfate : f = .run := by
    rcases settle_cases h with ⟨-, hf, -⟩ | ⟨e, hr, hfault, -⟩
    · exact hf
    · cases hr
      simp [Err.isFault] at hfault
  rcases insertNotification_cases w id data with ⟨e, heq, hdup⟩ | ⟨new, t, -, -, heq, -⟩
  · obtain ⟨he, rfl⟩ := Prod.mk.inj (heq.symm.trans hrun)
    exact ⟨hfate, rfl, hdup.mp (Except.error.inj he)⟩
  · cases heq.symm.trans hrun

/-- A row for the pair makes a well-formed insertion violate the constraint. -/
theorem p2002_of_notice {id : String} {data : NotificationData} {old : Notification}
    (hrow : (data.row id).isSome)
    (hold : w.notice (data.transactionId, data.channel) = some old) :
    w.settle d .run (.notificationCreate id data) = some (.error (.prisma .p2002), w) := by
  change some (w.insertNotification id data) = _
  rcases insertNotification_cases w id data with ⟨e, heq, hdup⟩ | ⟨new, t, hnew, hnone, -, -⟩
  · rw [heq, hdup.mpr ⟨hrow, old, hold⟩]
  · rw [(NotificationData.of_row hnew).1, hold] at hnone
    cases hnone

/-- An upsert that resolves leaves a row, which is a new one when there was none. -/
theorem notice_of_upsert {id : String} {create : NotificationData} {update : NotificationUpdate}
    {row : Notification} (hpair : (create.transactionId, create.channel) = pair)
    (h : w.settle d f (.notificationUpsert pair id create update) = some (.ok row, w')) :
    w'.notice pair = some row ∧ (w.notice pair = none → create.row id = some row) := by
  have hrun := settle_ok h
  simp only [answer] at hrun
  cases hold : w.notifications.lookup pair with
  | none =>
      rw [hold] at hrun
      dsimp only at hrun
      rcases insertNotification_cases w id create with ⟨e, heq, -⟩ | ⟨new, t, hnew, -, heq, ht⟩
      · cases heq.symm.trans hrun
      · obtain ⟨hrow, rfl⟩ := Prod.mk.inj (heq.symm.trans hrun)
        obtain rfl := Except.ok.inj hrow
        have hkey := (NotificationData.of_row hnew).1.trans hpair
        exact ⟨(ht pair).trans (if_pos hkey), fun _ ↦ hnew⟩
  | some old =>
      rw [hold] at hrun
      dsimp only at hrun
      cases hvalid : create.row id with
      | none =>
          rw [hvalid] at hrun
          cases hrun
      | some _ =>
          rw [hvalid] at hrun
          obtain ⟨hrow, rfl⟩ := Prod.mk.inj hrun
          obtain rfl := Except.ok.inj hrow
          refine ⟨?_, fun hnone ↦ ?_⟩
          · simp only [notice, Table.lookup_modify, if_true, hold, Option.map_some]
          · cases hold.symm.trans hnone

theorem notice_of_find {k : String × NotificationChannel} {found : Option NotificationStatus}
    (h : w.settle d f (.notificationFindUnique k) = some (.ok found, w')) :
    w' = w ∧ found = (w.notice k).map (·.status) := by
  obtain ⟨hfound, rfl⟩ := Prod.mk.inj (settle_ok h)
  exact ⟨rfl, (Except.ok.inj hfound).symm⟩

/-- Under exclusive delivery only a waiting job is handed out. -/
theorem job_of_take {worker : ℕ} {jobId : String} {r : Except Err NotificationJob}
    (h : w.settle .exclusive f (.takeNotificationJob worker jobId) = some (r, w')) :
    ∃ job, r = .ok job ∧ w.notification jobId = some job ∧ job.state = .waiting ∧
      w'.notification jobId = some { job with state := .active worker } := by
  have hafter := answer_notification w (.takeNotificationJob worker jobId) jobId
  rcases settle_cases h with ⟨hrun, -, hblocked⟩ | ⟨e, -, -, hfaulty, -⟩
  · rw [hrun] at hafter
    simp only [blocked] at hblocked
    simp only [answer] at hrun
    cases hjob : w.notificationQueue.lookup jobId with
    | none =>
        rw [hjob] at hblocked
        cases hblocked
    | some job =>
        rw [hjob] at hblocked hrun
        obtain ⟨rfl, -⟩ := Prod.mk.inj hrun
        simp only [Op.onNotification, if_true, notification, hjob, Option.map_some] at hafter
        refine ⟨job, rfl, hjob, ?_, hafter⟩
        by_contra hbusy
        simp [hbusy] at hblocked
  · cases hfaulty

end World

end TransactionLedger
