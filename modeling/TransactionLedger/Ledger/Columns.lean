import TransactionLedger.Ledger.Runs
import TransactionLedger.Transaction.Payload
import TransactionLedger.Validation.Grammar

/-!
# What the columns of a run hold

Validation, decimal.js and the columns of `transactions` together: every row that a run
stores is well formed, and says what the body of its request says.
-/

namespace TransactionLedger

open Async Data TransactionService

/-- An amount of the documented form that `DECIMAL(20,8)` keeps as it is, a currency, and the
accounts that the type asks for. -/
structure Entry.WellFormed (entry : Entry) : Prop where
  amount : ∃ a : Amount, entry.amount = a.value
  amount_stored : decimalColumn 20 8 entry.amount = some entry.amount
  currency_ne_empty : entry.currency ≠ ""
  currency_length : entry.currency.length ≤ 10
  fromAccount_length : ∀ s, entry.fromAccount = some s → s.length ≤ 255
  toAccount_length : ∀ s, entry.toAccount = some s → s.length ≤ 255
  fromAccount_required : entry.type = .transfer ∨ entry.type = .withdrawal →
    ∃ s, entry.fromAccount = some s ∧ s ≠ ""
  toAccount_required : entry.type = .transfer ∨ entry.type = .deposit →
    ∃ s, entry.toAccount = some s ∧ s ≠ ""
  metadata_object : entry.metadata = none ∨ ∃ members, entry.metadata = some (.obj members)

/-- The column holds the account of the body, and is empty when there is none. -/
def HoldsAccount (column : Option String) (account : Option Json) : Prop :=
  (account = none ∨ account = some .null) ∧ column = none ∨
    ∃ s, account = some (.str s) ∧ column = some s

/-- The entry says what the body says, the amount to the last digit. -/
structure Entry.Records (entry : Entry) (dto : CreateTransactionDto) : Prop where
  type : entry.type = dto.type
  amount : Denotes dto.amount entry.amount
  currency : entry.currency = dto.currency
  fromAccount : HoldsAccount entry.fromAccount dto.fromAccount
  toAccount : HoldsAccount entry.toAccount dto.toAccount
  metadata : entry.metadata = TransactionService.metadata dto

/-- No account is too long for its column.  PostgreSQL does not reject a longer one when all
that is too much is blanks, but cuts them off. -/
def CreateTransactionDto.AccountsFit (dto : CreateTransactionDto) : Prop :=
  ∀ s, dto.fromAccount = some (.str s) ∨ dto.toAccount = some (.str s) → s.length ≤ 255

theorem TransactionData.columns_of_row {data : TransactionData} {row : Transaction}
    (h : data.row = some row) :
    row.type = data.type ∧ row.currency = data.currency ∧ row.metadata = data.metadata := by
  simp only [TransactionData.row, Option.bind_eq_bind, Option.bind_eq_some_iff] at h
  obtain ⟨fromAccount, -, toAccount, -, h⟩ := h
  split at h
  · obtain rfl := Option.some.inj h
    exact ⟨rfl, rfl, rfl⟩
  · cases h

theorem accountColumn_length {account : Option Json} {column : Option String}
    (h : accountColumn account = some column) {s : String} (hs : column = some s) :
    s.length ≤ 255 := by
  subst hs
  rcases accountColumn_cases h with rfl | rfl | ⟨t, rfl⟩
  · cases h
  · cases h
  · simp only [accountColumn] at h
    split at h
    · next hshort =>
        obtain rfl := Option.some.inj (Option.some.inj h)
        exact hshort
    · cases h

theorem HoldsAccount.required {account : Option Json} {column : Option String}
    (h : HoldsAccount column account) (hrequired : RequiredAccount account) :
    ∃ s, column = some s ∧ s ≠ "" := by
  obtain ⟨s, rfl, hne, -⟩ := hrequired
  rcases h with ⟨hnone | hnull, -⟩ | ⟨t, ht, hcolumn⟩
  · cases hnone
  · cases hnull
  · obtain rfl := Json.str.inj (Option.some.inj ht)
    exact ⟨s, hcolumn, hne⟩

section

variable {lib : DecimalLib} {id : String} {dto : CreateTransactionDto} {entry : Entry} {body : Body}

theorem Books.records (hlib : lib.Documented) (h : Books lib id dto entry)
    (hbody : body.Describes dto) : entry.Records dto := by
  obtain ⟨amount, row, hread, hrow, rfl⟩ := h
  obtain ⟨-, -, hamount, hfrom, hto⟩ := TransactionData.of_row hrow
  obtain ⟨htype, hcurrency, hmetadata⟩ := TransactionData.columns_of_row hrow
  obtain ⟨a, ha⟩ := hbody.amount_valid
  have hdenotes := Amount.denotes ha
  have hvalue : row.amount = a.value := by
    rw [hamount]
    exact Option.some.inj (hread.symm.trans (hlib.ofString_exact _ _ hdenotes))
  have hentry : Denotes dto.amount row.amount := hvalue ▸ hdenotes
  exact { type := htype, amount := hentry, currency := hcurrency,
          fromAccount := accountColumn_eq hfrom, toAccount := accountColumn_eq hto,
          metadata := hmetadata }

theorem Books.wellFormed (hlib : lib.Documented) (hbooks : Books lib id dto entry)
    (hbody : body.Describes dto) : entry.WellFormed := by
  have h := hbooks.records hlib hbody
  obtain ⟨hfrom, hto⟩ := hbooks.accounts
  obtain ⟨a, ha⟩ := hbody.amount_valid
  have hamount : entry.amount = a.value := h.amount.unique (Amount.denotes ha)
  have hmetadata : entry.metadata = none ∨ ∃ members, entry.metadata = some (.obj members) := by
    rw [h.metadata, TransactionService.metadata]
    rcases hbody.metadata_object with hnone | hnull | ⟨members, hobject⟩
    · rw [hnone]
      exact .inl rfl
    · rw [hnull]
      exact .inl rfl
    · rw [hobject]
      exact .inr ⟨members, rfl⟩
  refine
    { amount := ⟨a, hamount⟩
      amount_stored := by rw [hamount, a.decimalColumn_value]
      currency_ne_empty := h.currency ▸ hbody.currency_ne_empty
      currency_length := h.currency ▸ hbody.currency_length
      fromAccount_length := fun s ↦ accountColumn_length hfrom
      toAccount_length := fun s ↦ accountColumn_length hto
      fromAccount_required := fun htype ↦ ?_
      toAccount_required := fun htype ↦ ?_
      metadata_object := hmetadata }
  · rw [h.type] at htype
    exact h.fromAccount.required (hbody.fromAccount_required htype)
  · rw [h.type] at htype
    exact h.toAccount.required (hbody.toAccount_required htype)

end

namespace Application

variable {app : Application} {d : Delivery} {clock : ℕ} {c : State}

/-- Every row of `transactions`, in every state of every run, is well formed and says what
the copy of the body of the request with its identifier says, if both accounts fit their
columns: of a longer one PostgreSQL may cut off blanks (`accountColumn`). -/
theorem stored_wellFormed (hcv : app.cv.Documented) (hlib : app.lib.Documented)
    (h : Run d (app.deployment.start clock) c) {id : String} {row : Transaction}
    (hrow : c.store.transaction id = some row) :
    row.entry.WellFormed ∧ ∃ i p dto, app.transactionId i = id ∧ app.role i = .post p ∧
      (p.body.transform app.cv).Describes dto ∧ (dto.AccountsFit → row.entry.Records dto) := by
  obtain ⟨i, dto, hid, ⟨p, hrole, hdto⟩, hbooks, -⟩ := (obeyed_of_run h).inv.booked hrow
  have hbody := (describes_iff hcv).mp (validationPipe_ok_iff.mp hdto)
  exact ⟨hbooks.wellFormed hlib hbody, i, p, dto, hid, hrole, hbody,
    fun _ ↦ hbooks.records hlib hbody⟩

theorem deposit_wellFormed :
    ∃ row, depositAnswered.store.transaction "t" = some row ∧ row.entry.WellFormed := by
  obtain ⟨row, hrow⟩ : ∃ row, depositAnswered.store.transaction "t" = some row :=
    Option.isSome_iff_exists.mp (by decide +kernel)
  exact ⟨row, hrow, (stored_wellFormed classValidator_documented decimalJs_documented
    run_depositAnswered hrow).1⟩

end Application

end TransactionLedger
