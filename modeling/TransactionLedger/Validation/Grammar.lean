import TransactionLedger.Validation.Body

/-!
# The accepted bodies

The decorators of `CreateTransactionDto` taken together: which bodies the pipe lets
through, and what it makes of them.
-/

namespace TransactionLedger

open Data

/-- A non-empty string that fits into `VARCHAR(255)`. -/
def RequiredAccount (account : Option Json) : Prop :=
  ∃ s, account = some (.str s) ∧ s ≠ "" ∧ s.length ≤ 255

/-- The body is one of the documented form, and `dto` is what it says. -/
structure Body.Describes (body : Body) (dto : CreateTransactionDto) : Prop where
  known : ∀ m ∈ body, ∃ property ∈ CreateTransactionDto.properties, property.name = m.1
  type : body.get "type" = some (.str dto.type.text)
  amount : body.get "amount" = some (.str dto.amount)
  amount_valid : ∃ a : Amount, a.text = jsString dto.amount
  currency : body.get "currency" = some (.str dto.currency)
  currency_ne_empty : dto.currency ≠ ""
  currency_length : dto.currency.length ≤ 10
  fromAccount : dto.fromAccount = body.get "fromAccount"
  fromAccount_required : dto.type = .transfer ∨ dto.type = .withdrawal →
    RequiredAccount dto.fromAccount
  toAccount : dto.toAccount = body.get "toAccount"
  toAccount_required : dto.type = .transfer ∨ dto.type = .deposit → RequiredAccount dto.toAccount
  metadata : dto.metadata = body.get "metadata"
  metadata_object : dto.metadata = none ∨ dto.metadata = some .null ∨
    ∃ members, dto.metadata = some (.obj members)

section

variable {cv : ClassValidator} {body : Body} {dto : CreateTransactionDto}

/-- A property passes when every one of its constraints holds, or none is looked at. -/
def Property.Passes (cv : ClassValidator) (body : Body) (property : Property) : Prop :=
  property.applies body = true → ∀ c ∈ property.constraints,
    c.decorator.check cv (body.get property.name) = true

theorem Property.errors_eq_nil_iff {property : Property} :
    property.errors cv body = [] ↔ property.Passes cv body := by
  unfold errors Passes
  split
  · next happlies =>
      rw [List.map_eq_nil_iff, List.filter_eq_nil_iff]
      simp [happlies]
  · next hskipped => exact iff_of_true rfl fun happlies ↦ absurd happlies hskipped

theorem unknownErrors_eq_nil_iff {properties : List Property} :
    unknownErrors properties body = [] ↔
      ∀ m ∈ body, ∃ property ∈ properties, property.name = m.1 := by
  rw [unknownErrors, List.map_eq_nil_iff, List.filter_eq_nil_iff]
  simp

theorem validateBody_eq_nil_iff {properties : List Property} :
    validateBody cv properties body = [] ↔
      (∀ m ∈ body, ∃ property ∈ properties, property.name = m.1) ∧
        ∀ property ∈ properties, property.Passes cv body := by
  rw [validateBody, List.append_eq_nil_iff, unknownErrors_eq_nil_iff, List.flatMap_eq_nil_iff]
  simp only [Property.errors_eq_nil_iff]

/-! ## Each property -/

theorem text_ne_nil (a : Amount) : a.text ≠ [] := by
  intro hnil
  obtain ⟨d, hd⟩ := List.exists_mem_of_ne_nil _ a.noLeadingZero.ne_nil
  have hmem : digitUnit d ∈ a.text := by
    unfold Amount.text
    simp only [decimalText, Decimal.text, List.mem_append, List.mem_map]
    exact .inl ⟨d, hd, rfl⟩
  rw [hnil] at hmem
  cases hmem

variable (h : cv.Documented)

include h

theorem passes_type_iff : CreateTransactionDto.typeProperty.Passes cv body ↔
    ∃ type : TransactionType, body.get "type" = some (.str type.text) := by
  constructor
  · intro hpasses
    obtain ⟨s, hs, hvalue⟩ := (h.isEnum_iff _ _).mp (hpasses rfl _ List.mem_cons_self)
    obtain ⟨type, -, rfl⟩ := List.mem_map.mp hs
    exact ⟨type, hvalue⟩
  · rintro ⟨type, hvalue⟩ - c hc
    obtain rfl := List.mem_singleton.mp hc
    refine (h.isEnum_iff _ _).mpr ⟨type.text, List.mem_map_of_mem ?_, hvalue⟩
    cases type <;> decide

theorem passes_amount_iff : CreateTransactionDto.amountProperty.Passes cv body ↔
    ∃ s, body.get "amount" = some (.str s) ∧ ∃ a : Amount, a.text = jsString s := by
  constructor
  · intro hpasses
    have hstring := hpasses rfl _ (List.mem_cons_of_mem _ List.mem_cons_self)
    have hamount := hpasses rfl _
      (List.mem_cons_of_mem _ (List.mem_cons_of_mem _ List.mem_cons_self))
    obtain ⟨s, hvalue⟩ := (h.isString_iff _).mp hstring
    refine ⟨s, hvalue, (IsPositiveDecimalString.validateString_iff _).mp ?_⟩
    change body.get "amount" = some (.str s) at hvalue
    change IsPositiveDecimalString.validate ((body.get "amount").map Json.value) = true at hamount
    rw [hvalue] at hamount
    exact hamount
  · rintro ⟨s, hvalue, a, ha⟩ - c hc
    have hne : s ≠ "" := by
      rintro rfl
      exact text_ne_nil a ha
    change c.decorator.check cv (body.get "amount") = true
    rw [hvalue]
    simp only [CreateTransactionDto.amountProperty, List.mem_cons, List.not_mem_nil, or_false] at hc
    rcases hc with rfl | rfl | rfl
    · exact (h.isNotEmpty_iff _).mpr ⟨by simp, by simp, by simpa using hne⟩
    · exact (h.isString_iff _).mpr ⟨s, rfl⟩
    · exact (IsPositiveDecimalString.validateString_iff _).mpr ⟨a, ha⟩

theorem passes_currency_iff : CreateTransactionDto.currencyProperty.Passes cv body ↔
    ∃ s, body.get "currency" = some (.str s) ∧ s ≠ "" ∧ s.length ≤ 10 := by
  constructor
  · intro hpasses
    have hempty := hpasses rfl _ (List.mem_cons_of_mem _ List.mem_cons_self)
    have hlength := hpasses rfl _
      (List.mem_cons_of_mem _ (List.mem_cons_of_mem _ List.mem_cons_self))
    obtain ⟨s, hvalue, hshort⟩ := (h.maxLength_iff _ 10).mp hlength
    obtain ⟨-, -, hne⟩ := (h.isNotEmpty_iff _).mp hempty
    refine ⟨s, hvalue, fun hnil ↦ hne ?_, hshort⟩
    rw [← hnil]
    exact hvalue
  · rintro ⟨s, hvalue, hne, hshort⟩ - c hc
    change c.decorator.check cv (body.get "currency") = true
    rw [hvalue]
    simp only [CreateTransactionDto.currencyProperty, List.mem_cons, List.not_mem_nil, or_false]
      at hc
    rcases hc with rfl | rfl | rfl
    · exact (h.isString_iff _).mpr ⟨s, rfl⟩
    · exact (h.isNotEmpty_iff _).mpr ⟨by simp, by simp, by simpa using hne⟩
    · exact (h.maxLength_iff _ _).mpr ⟨s, rfl, hshort⟩

theorem passes_account_iff {name : String} {first second : TransactionType} {message : String} :
    (CreateTransactionDto.accountProperty name first second message).Passes cv body ↔
      (body.hasType first = true ∨ body.hasType second = true →
        RequiredAccount (body.get name)) := by
  have happlies : (CreateTransactionDto.accountProperty name first second message).applies body =
      true ↔ body.hasType first = true ∨ body.hasType second = true := Bool.or_eq_true_iff
  constructor
  · intro hpasses htype
    have hchecked := hpasses (happlies.mpr htype)
    have hempty := hchecked _ List.mem_cons_self
    have hlength := hchecked _ (List.mem_cons_of_mem _ (List.mem_cons_of_mem _ List.mem_cons_self))
    obtain ⟨s, hvalue, hshort⟩ := (h.maxLength_iff _ 255).mp hlength
    obtain ⟨-, -, hne⟩ := (h.isNotEmpty_iff _).mp hempty
    refine ⟨s, hvalue, fun hnil ↦ hne ?_, hshort⟩
    rw [← hnil]
    exact hvalue
  · intro hrequired htype c hc
    obtain ⟨s, hvalue, hne, hshort⟩ := hrequired (happlies.mp htype)
    change c.decorator.check cv (body.get name) = true
    rw [hvalue]
    simp only [CreateTransactionDto.accountProperty, List.mem_cons, List.not_mem_nil, or_false]
      at hc
    rcases hc with rfl | rfl | rfl
    · exact (h.isNotEmpty_iff _).mpr ⟨by simp, by simp, by simpa using hne⟩
    · exact (h.isString_iff _).mpr ⟨s, rfl⟩
    · exact (h.maxLength_iff _ _).mpr ⟨s, rfl, hshort⟩

theorem passes_metadata_iff : CreateTransactionDto.metadataProperty.Passes cv body ↔
    body.get "metadata" = none ∨ body.get "metadata" = some .null ∨
      ∃ members, body.get "metadata" = some (.obj members) := by
  have happlies : CreateTransactionDto.metadataProperty.applies body = true ↔
      body.get "metadata" ≠ none ∧ body.get "metadata" ≠ some .null := by
    change body.isPresent "metadata" = true ↔ _
    unfold Body.isPresent
    split <;> simp_all
  constructor
  · intro hpasses
    by_cases hpresent : body.get "metadata" ≠ none ∧ body.get "metadata" ≠ some .null
    · have hobject := hpasses (happlies.mpr hpresent) _ List.mem_cons_self
      exact .inr (.inr ((h.isObject_iff _).mp hobject))
    · rw [not_and_or, not_not, not_not] at hpresent
      exact hpresent.imp_right .inl
  · rintro hvalue hpresent c hc
    obtain rfl := List.mem_singleton.mp hc
    obtain ⟨hsome, hnull⟩ := happlies.mp hpresent
    exact (h.isObject_iff _).mpr ((hvalue.resolve_left hsome).resolve_left hnull)

omit h in
theorem hasType_of_type {type : TransactionType} (htype : body.get "type" = some (.str type.text))
    (t : TransactionType) : body.hasType t = true ↔ type = t := by
  rw [hasType_iff, htype]
  constructor
  · intro heq
    exact TransactionType.text_injective (Json.str.inj (Option.some.inj heq))
  · rintro rfl
    rfl

/-- What passes the decorators and becomes the DTO is what describes it. -/
theorem describes_iff : (validateBody cv CreateTransactionDto.properties body = [] ∧
    CreateTransactionDto.ofBody body = some dto) ↔ body.Describes dto := by
  rw [validateBody_eq_nil_iff, ofBody_eq_some_iff]
  simp only [CreateTransactionDto.properties, List.forall_mem_cons, passes_type_iff h,
    passes_amount_iff h, passes_currency_iff h, passes_metadata_iff h,
    CreateTransactionDto.fromAccountProperty, CreateTransactionDto.toAccountProperty,
    passes_account_iff h]
  constructor
  · rintro ⟨⟨hknown, -, ⟨s, hs, hamount⟩, ⟨t, ht, hne, hshort⟩, hfrom, hto, hmetadata, -⟩,
      htype, hamount', hcurrency, hfrom', hto', hmetadata'⟩
    obtain rfl : s = dto.amount := by simpa using hs.symm.trans hamount'
    obtain rfl : t = dto.currency := by simpa using ht.symm.trans hcurrency
    rw [hasType_of_type htype, hasType_of_type htype, ← hfrom'] at hfrom
    rw [hasType_of_type htype, hasType_of_type htype, ← hto'] at hto
    rw [← hmetadata'] at hmetadata
    exact { known := hknown, type := htype, amount := hamount', amount_valid := hamount,
            currency := hcurrency, currency_ne_empty := hne, currency_length := hshort,
            fromAccount := hfrom', fromAccount_required := hfrom, toAccount := hto',
            toAccount_required := hto, metadata := hmetadata', metadata_object := hmetadata }
  · intro hbody
    have htype := hasType_of_type hbody.type
    have hfrom := hbody.fromAccount_required
    have hto := hbody.toAccount_required
    have hmetadata := hbody.metadata_object
    rw [hbody.fromAccount] at hfrom
    rw [hbody.toAccount] at hto
    rw [hbody.metadata] at hmetadata
    refine ⟨⟨hbody.known, ⟨_, hbody.type⟩, ⟨_, hbody.amount, hbody.amount_valid⟩,
      ⟨_, hbody.currency, hbody.currency_ne_empty, hbody.currency_length⟩, ?_, ?_, hmetadata, ?_⟩,
      hbody.type, hbody.amount, hbody.currency, hbody.fromAccount, hbody.toAccount, hbody.metadata⟩
    · rwa [htype, htype]
    · rwa [htype, htype]
    · exact fun _ hmem ↦ by cases hmem

/-- The pipe accepts exactly the bodies whose copy has the documented form, passes on what
the copy says, and says what is wrong with every other body. -/
theorem validationPipe_ok_iff_describes :
    (validationPipe cv body = .ok dto ↔ (body.transform cv).Describes dto) ∧
      ∀ errors, validationPipe cv body = .error errors → errors ≠ [] :=
  ⟨validationPipe_ok_iff.trans (describes_iff h), fun _ herrors ↦
    (validationPipe_error h herrors).2⟩

end

/-! ## A transfer -/

/-- The two members under inherited keys are dropped before anything is checked. -/
def transferBody : Body :=
  [("type", .str "TRANSFER"), ("amount", .str "12.50"), ("currency", .str "EUR"),
    ("fromAccount", .str "a"), ("toAccount", .str "b"), ("toString", .str "y"),
    ("metadata", .obj [("valueOf", .num 1), ("note", .str "x")])]

def transferDto : CreateTransactionDto where
  type := .transfer
  amount := "12.50"
  currency := "EUR"
  fromAccount := some (.str "a")
  toAccount := some (.str "b")
  metadata := some (.obj [("note", .str "x")])

theorem transferBody_described : (transferBody.transform classValidator).Describes transferDto :=
  (validationPipe_ok_iff_describes classValidator_documented).1.mp (by rfl)

end TransactionLedger
