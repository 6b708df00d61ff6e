import TransactionLedger.Transaction.Recipient

/-!
# Accounts that the store accepts

The validation of an account is skipped as a whole when its type does not ask for one, and
the columns then meet whatever the request holds.
-/

namespace TransactionLedger

open Data TransactionService

/-- The value is absent, `null` or a string of at most 255 characters. -/
def StorableAccount (account : Option Json) : Prop :=
  account = none ∨ account = some .null ∨ ∃ s, account = some (.str s) ∧ s.length ≤ 255

/-- No account makes `transaction.create` fail, and the accounts that the type asks for are
there.  Only the type and the length of an account count; PostgreSQL also refuses U+0000, and
lets blanks beyond the 255th character pass (`accountColumn`). -/
structure CreateTransactionDto.AccountsStorable (dto : CreateTransactionDto) : Prop where
  fromAccount : StorableAccount dto.fromAccount
  toAccount : StorableAccount dto.toAccount
  created : ∀ (w : World) (transactionId : String) (amount : ℚ),
    w.transactions.lookup transactionId = none →
    ∃ row, (w.answer (.transactionCreate (newTransaction transactionId dto amount))).1 = .ok row
  fromAccount_required : dto.type = .transfer ∨ dto.type = .withdrawal →
    ∃ s, dto.fromAccount = some (.str s) ∧ s ≠ ""
  toAccount_required : dto.type = .transfer ∨ dto.type = .deposit →
    ∃ s, dto.toAccount = some (.str s) ∧ s ≠ ""

theorem accountColumn_isSome_iff {account : Option Json} :
    (∃ column, accountColumn account = some column) ↔ StorableAccount account := by
  constructor
  · rintro ⟨column, hcolumn⟩
    rcases accountColumn_cases hcolumn with habsent | hnull | ⟨s, hs⟩
    · exact .inl habsent
    · exact .inr (.inl hnull)
    · refine .inr (.inr ⟨s, hs, ?_⟩)
      by_contra hlong
      rw [hs, accountColumn, if_neg hlong] at hcolumn
      cases hcolumn
  · rintro (rfl | rfl | ⟨s, rfl, hshort⟩)
    · exact ⟨none, rfl⟩
    · exact ⟨none, rfl⟩
    · exact ⟨some s, accountColumn_str hshort⟩

/-- Under a new id, the store takes a row that its columns accept. -/
theorem answer_transactionCreate {w : World} {data : TransactionData}
    (hfresh : w.transactions.lookup data.id = none) :
    (∃ row, (w.answer (.transactionCreate data)).1 = .ok row) ↔ ∃ row, data.row = some row := by
  cases hrow : data.row with
  | none => simp only [World.answer, hrow, reduceCtorEq, exists_false]
  | some row =>
      have hid : row.id = data.id := (TransactionData.of_row hrow).1
      cases hinsert : w.transactions.insert row with
      | none =>
          obtain ⟨row', hrow'⟩ := Table.insert_eq_none_iff.mp hinsert
          rw [hid, hfresh] at hrow'
          cases hrow'
      | some t =>
          simp only [World.answer, hrow, hinsert]
          exact iff_of_true ⟨row, rfl⟩ ⟨row, rfl⟩

theorem storableAccount_transform {skips : String → Bool} {account : Option Json} :
    StorableAccount (account.map (Json.transform skips)) ↔ StorableAccount account := by
  cases account with
  | none => exact iff_of_true (.inl rfl) (.inl rfl)
  | some value =>
      cases value with
      | null | str s => rfl
      | _ => simp [StorableAccount, Json.transform]

theorem hasType_transform {cv : ClassValidator} (h : cv.Documented) (body : Body)
    (type : TransactionType) : (body.transform cv).hasType type = body.hasType type := by
  unfold Body.hasType
  rw [Body.get_transform (h.skips_property "type" (by decide))]
  cases body.get "type" with
  | none => rfl
  | some value => cases value <;> rfl

section

variable {cv : ClassValidator} {body : Body} {dto : CreateTransactionDto}
  (h : cv.Documented) (hbody : validationPipe cv body = .ok dto)

include h hbody

/-- The store accepts a request exactly when it accepts both accounts. -/
theorem exists_row_iff (transactionId : String) (amount : ℚ) :
    (∃ row, (newTransaction transactionId dto amount).row = some row) ↔
      StorableAccount dto.fromAccount ∧ StorableAccount dto.toAccount := by
  constructor
  · rintro ⟨row, hrow⟩
    obtain ⟨-, -, -, hfrom, hto⟩ := TransactionData.of_row hrow
    exact ⟨accountColumn_isSome_iff.mp ⟨_, hfrom⟩, accountColumn_isSome_iff.mp ⟨_, hto⟩⟩
  · rintro ⟨hfrom, hto⟩
    obtain ⟨fromColumn, hfrom⟩ := accountColumn_isSome_iff.mpr hfrom
    obtain ⟨toColumn, hto⟩ := accountColumn_isSome_iff.mpr hto
    exact exists_row hfrom hto (currency_of_accepted h hbody)

/-- An account that is validated can be stored. -/
theorem storable_of_applies {name : String} {first second : TransactionType} {message : String}
    (hmem : CreateTransactionDto.accountProperty name first second message ∈
      CreateTransactionDto.properties)
    (happlies :
      (CreateTransactionDto.accountProperty name first second message).applies body = true) :
    StorableAccount ((body.transform cv).get name) := by
  obtain ⟨hvalid, -⟩ := validationPipe_ok_iff.mp hbody
  have htype := Bool.or_eq_true_iff.mp happlies
  rw [← hasType_transform h body first, ← hasType_transform h body second] at htype
  obtain ⟨s, hs, -, hshort⟩ := account_of_valid h hvalid hmem htype
  exact .inr (.inr ⟨s, hs, hshort⟩)

/-- The accounts of an accepted body can be stored exactly when those that are not
validated can. -/
theorem accountsStorable_iff :
    dto.AccountsStorable ↔
      (CreateTransactionDto.fromAccountProperty.applies body = false →
        StorableAccount (body.get "fromAccount")) ∧
      (CreateTransactionDto.toAccountProperty.applies body = false →
        StorableAccount (body.get "toAccount")) := by
  obtain ⟨-, -, -, hfrom, hto, -⟩ := ofBody_eq_some_iff.mp (validationPipe_ok_iff.mp hbody).2
  have hfromBody : StorableAccount dto.fromAccount ↔ StorableAccount (body.get "fromAccount") := by
    rw [hfrom, Body.get_transform (h.skips_property "fromAccount" (by decide)),
      storableAccount_transform]
  have htoBody : StorableAccount dto.toAccount ↔ StorableAccount (body.get "toAccount") := by
    rw [hto, Body.get_transform (h.skips_property "toAccount" (by decide)),
      storableAccount_transform]
  constructor
  · intro hstorable
    exact ⟨fun _ ↦ hfromBody.mp hstorable.fromAccount, fun _ ↦ htoBody.mp hstorable.toAccount⟩
  · rintro ⟨hfromSkipped, htoSkipped⟩
    have hfromStorable : StorableAccount dto.fromAccount := by
      cases happlies : CreateTransactionDto.fromAccountProperty.applies body with
      | false => exact hfromBody.mpr (hfromSkipped happlies)
      | true => exact hfrom ▸ storable_of_applies h hbody fromAccountProperty_mem happlies
    have htoStorable : StorableAccount dto.toAccount := by
      cases happlies : CreateTransactionDto.toAccountProperty.applies body with
      | false => exact htoBody.mpr (htoSkipped happlies)
      | true => exact hto ▸ storable_of_applies h hbody toAccountProperty_mem happlies
    constructor
    · exact hfromStorable
    · exact htoStorable
    · intro w transactionId amount hfresh
      apply (answer_transactionCreate hfresh).mpr
      exact (exists_row_iff h hbody transactionId amount).mpr ⟨hfromStorable, htoStorable⟩
    · exact fromAccount_of_accepted h hbody
    · intro htype
      obtain ⟨s, hs, hne, -⟩ := toAccount_of_accepted h hbody htype
      exact ⟨s, hs, hne⟩

end

theorem accountsStorable_nullAccount : (depositDto .null).AccountsStorable := by
  apply (accountsStorable_iff classValidator_documented (depositBody_accepted .null)).mpr
  constructor
  · intro _
    exact .inr (.inl rfl)
  · intro hskipped
    cases hskipped

/-- `{ type: 'DEPOSIT', fromAccount: 5, toAccount: 'ACC-001' }` passes validation, and the
store rejects it. -/
theorem notStorable_numberAccount :
    validationPipe classValidator (depositBody (.num 5)) = .ok (depositDto (.num 5)) ∧
      ((World.initial 0).answer
        (.transactionCreate (newTransaction "tx-1" (depositDto (.num 5)) 50))).1 =
          .error (.error "Invalid value provided") ∧
      ¬(depositDto (.num 5)).AccountsStorable := by
  refine ⟨depositBody_accepted (.num 5), rfl, fun hstorable ↦ ?_⟩
  rcases hstorable.fromAccount with habsent | hnull | ⟨s, hs, -⟩
  · cases habsent
  · cases hnull
  · cases hs

end TransactionLedger
