import TransactionLedger.Transaction.Notified
import TransactionLedger.Transaction.Payload
import TransactionLedger.Validation.Body

/-!
# Somebody to notify

The conditional validation of the accounts and the choice of the recipient in
`enqueueNotification` have different notions of an absent account.
-/

namespace TransactionLedger

open Async TransactionService TransactionProcessor

/-- Completing the transaction that is stored for the request queues a notification for one
of its accounts. -/
def NotifiedOnCompletion (lib : DecimalLib) (transactionId : String) (amount : ℚ)
    (dto : CreateTransactionDto) : Prop :=
  ∀ row, (newTransaction transactionId dto amount).row = some row →
    ∃ job r, enqueueNotification lib { row with status := .completed } dto.fromAccount
        dto.toAccount = await (.notificationQueueAdd job) ∧
      job.recipient = .str r ∧ r ≠ "" ∧
      (dto.fromAccount = some (.str r) ∨ dto.toAccount = some (.str r))

/-! ## The job -/

theorem enqueueNotification_of_recipient {lib : DecimalLib} {row : Transaction}
    {fromAccount toAccount : Option Json} {account : Json}
    (haccount : recipient fromAccount toAccount = some account) (htruthy : account.truthy = true) :
    ∃ job, enqueueNotification lib row fromAccount toAccount =
      await (.notificationQueueAdd job) ∧ job.recipient = account := by
  have hjob : ∃ job, notificationFor lib row fromAccount toAccount = some job ∧
      job.recipient = account := by
    simp only [notificationFor, haccount, htruthy, if_true]
    exact ⟨_, rfl, rfl⟩
  obtain ⟨job, hjob, hrecipient⟩ := hjob
  refine ⟨job, ?_, hrecipient⟩
  simp only [enqueueNotification, hjob]

/-- A falsy account is skipped without a trace. -/
theorem enqueueNotification_skips {lib : DecimalLib} {row : Transaction}
    {fromAccount toAccount : Option Json}
    (h : ∀ account, recipient fromAccount toAccount = some account → account.truthy = false) :
    enqueueNotification lib row fromAccount toAccount = pure () := by
  have hjob : notificationFor lib row fromAccount toAccount = none := by
    unfold notificationFor
    split
    · rfl
    · next account haccount =>
        rw [h account haccount]
        rfl
  simp only [enqueueNotification, hjob]

theorem str_truthy {s : String} : (Json.str s).truthy = true ↔ s ≠ "" := decide_eq_true_iff

theorem recipient_str (s : String) (toAccount : Option Json) :
    recipient (some (.str s)) toAccount = some (.str s) := rfl

/-! ## The row -/

theorem accountColumn_str {s : String} (h : s.length ≤ 255) :
    accountColumn (some (.str s)) = some (some s) := if_pos h

/-- A stored account was absent, `null` or a string. -/
theorem accountColumn_cases {account : Option Json} {column : Option String}
    (h : accountColumn account = some column) :
    account = none ∨ account = some .null ∨ ∃ s, account = some (.str s) := by
  cases account with
  | none => exact .inl rfl
  | some value =>
      cases value with
      | null => exact .inr (.inl rfl)
      | str s => exact .inr (.inr ⟨s, rfl⟩)
      | _ => cases h

theorem exists_row {data : TransactionData} {fromAccount toAccount : Option String}
    (hfrom : accountColumn data.fromAccount = some fromAccount)
    (hto : accountColumn data.toAccount = some toAccount) (hcurrency : data.currency.length ≤ 10) :
    ∃ row, data.row = some row := by
  simp only [TransactionData.row, hfrom, hto, Option.bind_eq_bind, Option.bind_some, hcurrency,
    if_true]
  exact ⟨_, rfl⟩

/-- An empty `fromAccount` is chosen by `??` and then skipped. -/
theorem not_notified_of_emptyAccount {lib : DecimalLib} {dto : CreateTransactionDto}
    {transactionId : String} {amount : ℚ} {row : Transaction}
    (hrow : (newTransaction transactionId dto amount).row = some row)
    (hempty : dto.fromAccount = some (.str "")) :
    ¬NotifiedOnCompletion lib transactionId amount dto := by
  intro hnotified
  obtain ⟨job, r, hadd, -⟩ := hnotified row hrow
  rw [enqueueNotification_skips] at hadd
  · cases hadd
  · intro account haccount
    rw [hempty, recipient_str] at haccount
    obtain rfl := Option.some.inj haccount
    rfl

/-! ## The accounts that the types ask for -/

section

variable {cv : ClassValidator} {body : Body} {dto : CreateTransactionDto}
  (h : cv.Documented) (hbody : validationPipe cv body = .ok dto)

include h hbody

theorem currency_of_accepted : dto.currency.length ≤ 10 := by
  obtain ⟨hvalid, hdto⟩ := validationPipe_ok_iff.mp hbody
  obtain ⟨currency, hcurrency, hlength⟩ := currency_of_valid h hvalid
  rw [(ofBody_eq_some_iff.mp hdto).2.2.1] at hcurrency
  obtain rfl := Json.str.inj (Option.some.inj hcurrency)
  exact hlength

theorem fromAccount_of_accepted (htype : dto.type = .transfer ∨ dto.type = .withdrawal) :
    ∃ s, dto.fromAccount = some (.str s) ∧ s ≠ "" := by
  obtain ⟨hvalid, hdto⟩ := validationPipe_ok_iff.mp hbody
  obtain ⟨hbodyType, -, -, hfrom, -⟩ := ofBody_eq_some_iff.mp hdto
  have hasType : (body.transform cv).hasType .transfer = true ∨
      (body.transform cv).hasType .withdrawal = true := by
    rcases htype with htype | htype
    · exact .inl (hasType_iff.mpr (htype ▸ hbodyType))
    · exact .inr (hasType_iff.mpr (htype ▸ hbodyType))
  obtain ⟨s, hs, hne, -⟩ := account_of_valid h hvalid fromAccountProperty_mem hasType
  exact ⟨s, hfrom.trans hs, hne⟩

theorem toAccount_of_accepted (htype : dto.type = .transfer ∨ dto.type = .deposit) :
    ∃ s, dto.toAccount = some (.str s) ∧ s ≠ "" ∧ s.length ≤ 255 := by
  obtain ⟨hvalid, hdto⟩ := validationPipe_ok_iff.mp hbody
  obtain ⟨hbodyType, -, -, -, hto, -⟩ := ofBody_eq_some_iff.mp hdto
  have hasType : (body.transform cv).hasType .transfer = true ∨
      (body.transform cv).hasType .deposit = true := by
    rcases htype with htype | htype
    · exact .inl (hasType_iff.mpr (htype ▸ hbodyType))
    · exact .inr (hasType_iff.mpr (htype ▸ hbodyType))
  obtain ⟨s, hs, hne, hshort⟩ := account_of_valid h hvalid toAccountProperty_mem hasType
  exact ⟨s, hto.trans hs, hne, hshort⟩

/-- Only a deposit may come with an empty account to notify. -/
theorem recipient_of_accepted
    (htype : dto.type = .transfer ∨ dto.type = .withdrawal ∨ dto.type = .deposit)
    (hfrom : dto.fromAccount = none ∨ dto.fromAccount = some .null ∨
      ∃ s, dto.fromAccount = some (.str s))
    (hempty : ¬(dto.type = .deposit ∧ dto.fromAccount = some (.str ""))) :
    ∃ r, recipient dto.fromAccount dto.toAccount = some (.str r) ∧ r ≠ "" ∧
      (dto.fromAccount = some (.str r) ∨ dto.toAccount = some (.str r)) := by
  by_cases hrequired : dto.type = .transfer ∨ dto.type = .withdrawal
  · obtain ⟨s, hs, hne⟩ := fromAccount_of_accepted h hbody hrequired
    rw [hs]
    exact ⟨s, recipient_str s _, hne, .inl rfl⟩
  · have hdeposit : dto.type = .deposit := by
      rcases htype with htype | htype | htype
      · exact absurd (.inl htype) hrequired
      · exact absurd (.inr htype) hrequired
      · exact htype
    obtain ⟨s, hs, hne, -⟩ := toAccount_of_accepted h hbody (.inr hdeposit)
    rcases hfrom with hfrom | hfrom | ⟨t, hfrom⟩
    · rw [hfrom, hs]
      exact ⟨s, rfl, hne, .inr rfl⟩
    · rw [hfrom, hs]
      exact ⟨s, rfl, hne, .inr rfl⟩
    · rw [hfrom]
      refine ⟨t, recipient_str t _, fun hnil ↦ hempty ⟨hdeposit, ?_⟩, .inl rfl⟩
      rw [hfrom, hnil]

/-- A completed transaction of an accepted request notifies one of its accounts, unless it
is a deposit whose `fromAccount` is the empty string.  What a stored row takes over from its
request is as `accountColumn` restricts it. -/
theorem notifiedOnCompletion_iff (lib : DecimalLib) (transactionId : String) (amount : ℚ)
    (htype : dto.type = .transfer ∨ dto.type = .withdrawal ∨ dto.type = .deposit) :
    NotifiedOnCompletion lib transactionId amount dto ↔
      ¬(dto.type = .deposit ∧ dto.fromAccount = some (.str "")) := by
  constructor
  · rintro hnotified ⟨hdeposit, hempty⟩
    obtain ⟨s, hs, -, hshort⟩ := toAccount_of_accepted h hbody (.inr hdeposit)
    have hfromColumn : accountColumn dto.fromAccount = some (some "") := by
      rw [hempty]
      exact accountColumn_str (Nat.zero_le 255)
    have htoColumn : accountColumn dto.toAccount = some (some s) := by
      rw [hs]
      exact accountColumn_str hshort
    have hstored : ∃ row, (newTransaction transactionId dto amount).row = some row :=
      exists_row hfromColumn htoColumn (currency_of_accepted h hbody)
    obtain ⟨row, hrow⟩ := hstored
    exact not_notified_of_emptyAccount hrow hempty hnotified
  · intro hempty row hrow
    obtain ⟨-, -, -, hfromColumn, -⟩ := TransactionData.of_row hrow
    obtain ⟨r, hr, hne, haccounts⟩ :=
      recipient_of_accepted h hbody htype (accountColumn_cases hfromColumn) hempty
    obtain ⟨job, hjob, hrecipient⟩ :=
      enqueueNotification_of_recipient hr (str_truthy.mpr hne)
    exact ⟨job, r, hjob, hrecipient, hne, haccounts⟩

end

/-! ## Two deposits -/

def depositBody (fromAccount : Json) : Body :=
  [("type", .str "DEPOSIT"), ("amount", .str "50"), ("currency", .str "USD"),
    ("fromAccount", fromAccount), ("toAccount", .str "ACC-001")]

def depositDto (fromAccount : Json) : CreateTransactionDto where
  type := .deposit
  amount := "50"
  currency := "USD"
  fromAccount := some fromAccount
  toAccount := some (.str "ACC-001")
  metadata := none

theorem depositBody_accepted (fromAccount : Json) :
    validationPipe classValidator (depositBody fromAccount) =
      .ok (depositDto (fromAccount.transform classValidator.skips)) := by
  apply validationPipe_ok_iff.mpr
  constructor
  · rfl
  · rfl

theorem notifiedOnCompletion_nullAccount :
    NotifiedOnCompletion decimalJs "tx-1" 50 (depositDto .null) := by
  refine (notifiedOnCompletion_iff classValidator_documented (depositBody_accepted .null)
    decimalJs "tx-1" 50 (.inr (.inr rfl))).mpr ?_
  rintro ⟨-, hempty⟩
  cases hempty

/-- `{ type: 'DEPOSIT', fromAccount: '', toAccount: 'ACC-001' }` passes validation and is
stored, but its completion adds no job. -/
theorem notNotified_emptyAccount :
    validationPipe classValidator (depositBody (.str "")) = .ok (depositDto (.str "")) ∧
      ¬NotifiedOnCompletion decimalJs "tx-1" 50 (depositDto (.str "")) := by
  refine ⟨depositBody_accepted (.str ""), fun hnotified ↦ ?_⟩
  have hstored : ∃ row, (newTransaction "tx-1" (depositDto (.str "")) 50).row = some row :=
    exists_row (accountColumn_str (Nat.zero_le 255)) (accountColumn_str (by decide)) (by decide)
  obtain ⟨row, hrow⟩ := hstored
  exact not_notified_of_emptyAccount hrow rfl hnotified

end TransactionLedger
