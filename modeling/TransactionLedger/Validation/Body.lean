import TransactionLedger.Stores.Rows
import TransactionLedger.Validation.Amount

/-!
# Request bodies

The decorators of `src/transaction/dto/create-transaction.dto.ts`, as the validation pipe
of `src/main.ts` runs them: with `whitelist`, `forbidNonWhitelisted` and `transform`.  What
they see is not the body but the instance that class-transformer has made of it.
-/

namespace TransactionLedger

open Data

/-! ## class-validator and class-transformer -/

/-- The checks of class-validator; `none` is `undefined`. -/
structure ClassValidator where
  isEnum : Option Json → List String → Bool
  isNotEmpty : Option Json → Bool
  isString : Option Json → Bool
  maxLength : Option Json → ℕ → Bool
  isObject : Option Json → Bool
  /-- The keys that Nest and class-transformer do not copy, at any depth: `__proto__` and the
  like, and those under which every object inherits a function. -/
  skips : String → Bool

structure ClassValidator.Documented (cv : ClassValidator) : Prop where
  isEnum_iff : ∀ value values, cv.isEnum value values = true ↔
    ∃ s ∈ values, value = some (.str s)
  isNotEmpty_iff : ∀ value, cv.isNotEmpty value = true ↔
    value ≠ none ∧ value ≠ some .null ∧ value ≠ some (.str "")
  isString_iff : ∀ value, cv.isString value = true ↔ ∃ s, value = some (.str s)
  maxLength_iff : ∀ value max, cv.maxLength value max = true ↔
    ∃ s, value = some (.str s) ∧ s.length ≤ max
  isObject_iff : ∀ value, cv.isObject value = true ↔ ∃ members, value = some (.obj members)
  skips_property : ∀ name ∈ ["type", "amount", "currency", "fromAccount", "toAccount",
    "metadata"], cv.skips name = false

mutual

/-- The value as class-transformer copies it. -/
def Json.transform (skips : String → Bool) : Json → Json
  | .null => .null
  | .bool b => .bool b
  | .num q => .num q
  | .str s => .str s
  | .arr items => .arr (transformItems skips items)
  | .obj members => .obj (transformMembers skips members)

def transformItems (skips : String → Bool) : List Json → List Json
  | [] => []
  | v :: items => v.transform skips :: transformItems skips items

def transformMembers (skips : String → Bool) : List (String × Json) → List (String × Json)
  | [] => []
  | (k, v) :: members =>
      if skips k then transformMembers skips members
      else (k, v.transform skips) :: transformMembers skips members

end

mutual

/-- The value as JavaScript sees it. -/
def Json.value : Json → JsonValue ℚ
  | .null => .null
  | .bool b => .bool b
  | .num q => .num q
  | .str s => .str (jsString s)
  | .arr items => .arr (itemValues items)
  | .obj members => .obj (memberValues members)

def itemValues : List Json → List (JsonValue ℚ)
  | [] => []
  | v :: items => v.value :: itemValues items

def memberValues : List (String × Json) → List (JsString × JsonValue ℚ)
  | [] => []
  | (k, v) :: members => (jsString k, v.value) :: memberValues members

end

inductive Decorator : Type where
  | isEnum (values : List String)
  | isNotEmpty
  | isString
  | isPositiveDecimalString
  | maxLength (max : ℕ)
  | isObject
  deriving DecidableEq

def Decorator.check (cv : ClassValidator) (value : Option Json) : Decorator → Bool
  | .isEnum values => cv.isEnum value values
  | .isNotEmpty => cv.isNotEmpty value
  | .isString => cv.isString value
  | .isPositiveDecimalString => IsPositiveDecimalString.validate (value.map Json.value)
  | .maxLength max => cv.maxLength value max
  | .isObject => cv.isObject value

/-! ## The properties of CreateTransactionDto -/

/-- The object that `JSON.parse` made of the body. -/
abbrev Body : Type := List (String × Json)

def Body.get (body : Body) (key : String) : Option Json := List.lookup key body

def Body.transform (cv : ClassValidator) (body : Body) : Body := transformMembers cv.skips body

theorem Body.get_transform {cv : ClassValidator} {key : String} (hkey : cv.skips key = false)
    (body : Body) : (body.transform cv).get key = (body.get key).map (Json.transform cv.skips) := by
  unfold transform get
  induction body with
  | nil => rfl
  | cons m body ih =>
      obtain ⟨k, v⟩ := m
      rw [transformMembers, List.lookup_cons]
      by_cases hskips : cv.skips k = true
      · have hne : (key == k) = false := by
          rw [beq_eq_false_iff_ne]
          rintro rfl
          cases hkey.symm.trans hskips
        rw [if_pos hskips, ih, hne]
      · rw [if_neg hskips, List.lookup_cons, ih]
        cases key == k <;> rfl

/-- A decorator with the message it was given, if any. -/
structure Constraint where
  decorator : Decorator
  message : Option String

/-- `applies` is the condition of `ValidateIf` or of `IsOptional`. -/
structure Property where
  name : String
  applies : Body → Bool
  constraints : List Constraint

def TransactionType.text : TransactionType → String
  | .deposit => "DEPOSIT"
  | .withdrawal => "WITHDRAWAL"
  | .transfer => "TRANSFER"
  | .refund => "REFUND"

def TransactionType.all : List TransactionType := [.deposit, .withdrawal, .transfer, .refund]

/-- `o.type === type`. -/
def Body.hasType (body : Body) (type : TransactionType) : Bool :=
  match body.get "type" with
  | some (.str s) => s = type.text
  | _ => false

/-- The value is neither `null` nor `undefined`. -/
def Body.isPresent (body : Body) (key : String) : Bool :=
  match body.get key with
  | none | some .null => false
  | some _ => true

namespace CreateTransactionDto

def typeProperty : Property where
  name := "type"
  applies _ := true
  constraints := [⟨.isEnum (TransactionType.all.map TransactionType.text), none⟩]

/-- `defaultMessage` of the amount validator. -/
def amountMessage : String :=
  "amount must be a positive decimal string " ++
    "(no leading zeros, up to 12 integer digits and 8 decimal places)"

def amountProperty : Property where
  name := "amount"
  applies _ := true
  constraints :=
    [⟨.isNotEmpty, none⟩, ⟨.isString, none⟩, ⟨.isPositiveDecimalString, some amountMessage⟩]

def currencyProperty : Property where
  name := "currency"
  applies _ := true
  constraints := [⟨.isString, none⟩, ⟨.isNotEmpty, none⟩, ⟨.maxLength 10, none⟩]

/-- An account that is validated for two of the types only. -/
def accountProperty (name : String) (first second : TransactionType) (message : String) :
    Property where
  name := name
  applies body := body.hasType first || body.hasType second
  constraints := [⟨.isNotEmpty, some message⟩, ⟨.isString, none⟩, ⟨.maxLength 255, none⟩]

def fromAccountProperty : Property :=
  accountProperty "fromAccount" .transfer .withdrawal
    "fromAccount is required for TRANSFER and WITHDRAWAL"

def toAccountProperty : Property :=
  accountProperty "toAccount" .transfer .deposit
    "toAccount is required for TRANSFER and DEPOSIT"

def metadataProperty : Property where
  name := "metadata"
  applies body := body.isPresent "metadata"
  constraints := [⟨.isObject, none⟩]

def properties : List Property :=
  [typeProperty, amountProperty, currencyProperty, fromAccountProperty, toAccountProperty,
    metadataProperty]

end CreateTransactionDto

/-! ## The pipe -/

inductive ValidationError : Type where
  /-- `forbidNonWhitelisted`. -/
  | unknown (property : String)
  | failed (property : String) (constraint : Constraint)

/-- The constraints that the value of a property fails. -/
def Property.errors (cv : ClassValidator) (body : Body) (property : Property) :
    List ValidationError :=
  if property.applies body then
    (property.constraints.filter fun c ↦ !c.decorator.check cv (body.get property.name)).map
      (.failed property.name)
  else []

def unknownErrors (properties : List Property) (body : Body) : List ValidationError :=
  (body.filter fun m ↦ !properties.any (·.name = m.1)).map fun m ↦ .unknown m.1

def validateBody (cv : ClassValidator) (properties : List Property) (body : Body) :
    List ValidationError :=
  unknownErrors properties body ++ properties.flatMap (·.errors cv body)

/-- The body as an instance of the class; the types of `type`, `amount` and `currency` are
those that the decorators ask for. -/
def CreateTransactionDto.ofBody (body : Body) : Option CreateTransactionDto :=
  match body.get "type", body.get "amount", body.get "currency" with
  | some (.str type), some (.str amount), some (.str currency) =>
      (TransactionType.all.find? (·.text = type)).map fun type ↦
        { type := type, amount := amount, currency := currency,
          fromAccount := body.get "fromAccount", toAccount := body.get "toAccount",
          metadata := body.get "metadata" }
  | _, _, _ => none

/-- `ValidationPipe.transform`: the instance when nothing fails. -/
def validationPipe (cv : ClassValidator) (body : Body) :
    Except (List ValidationError) CreateTransactionDto :=
  match validateBody cv CreateTransactionDto.properties (body.transform cv),
    CreateTransactionDto.ofBody (body.transform cv) with
  | [], some dto => .ok dto
  | errors, _ => .error errors

theorem validationPipe_ok_iff {cv : ClassValidator} {body : Body} {dto : CreateTransactionDto} :
    validationPipe cv body = .ok dto ↔
      validateBody cv CreateTransactionDto.properties (body.transform cv) = [] ∧
        CreateTransactionDto.ofBody (body.transform cv) = some dto := by
  unfold validationPipe
  constructor
  · intro h
    split at h
    · next hvalid hdto =>
        obtain rfl := Except.ok.inj h
        exact ⟨hvalid, hdto⟩
    · cases h
  · rintro ⟨hvalid, hdto⟩
    rw [hvalid, hdto]

theorem fromAccountProperty_mem :
    CreateTransactionDto.fromAccountProperty ∈ CreateTransactionDto.properties :=
  .tail _ (.tail _ (.tail _ (.head _)))

theorem toAccountProperty_mem :
    CreateTransactionDto.toAccountProperty ∈ CreateTransactionDto.properties :=
  .tail _ (.tail _ (.tail _ (.tail _ (.head _))))

/-! ## What validation promises -/

section

variable {cv : ClassValidator} {body : Body}

/-- An error about a property names one of its constraints that its value fails. -/
theorem mem_validateBody_failed {properties : List Property} {name : String} {c : Constraint} :
    .failed name c ∈ validateBody cv properties body ↔
      ∃ property ∈ properties, property.name = name ∧ property.applies body = true ∧
        c ∈ property.constraints ∧ c.decorator.check cv (body.get name) = false := by
  rw [validateBody, List.mem_append, List.mem_flatMap]
  constructor
  · rintro (h | ⟨property, hmem, h⟩)
    · obtain ⟨m, -, hm⟩ := List.mem_map.mp h
      cases hm
    · simp only [Property.errors] at h
      split at h
      · next happlies =>
          obtain ⟨d, hd, heq⟩ := List.mem_map.mp h
          obtain ⟨rfl, rfl⟩ := ValidationError.failed.inj heq
          obtain ⟨hd, hfails⟩ := List.mem_filter.mp hd
          rw [Bool.not_eq_true'] at hfails
          exact ⟨property, hmem, rfl, happlies, hd, hfails⟩
      · cases h
  · rintro ⟨property, hmem, rfl, happlies, hc, hfails⟩
    refine Or.inr ⟨property, hmem, ?_⟩
    rw [Property.errors, if_pos happlies]
    refine List.mem_map_of_mem (List.mem_filter.mpr ⟨hc, ?_⟩)
    rw [hfails, Bool.not_false]

/-- Every constraint of a property that applies holds in an accepted body. -/
theorem check_of_valid {properties : List Property} (h : validateBody cv properties body = [])
    {property : Property} (hmem : property ∈ properties) (happlies : property.applies body = true)
    {c : Constraint} (hc : c ∈ property.constraints) :
    c.decorator.check cv (body.get property.name) = true := by
  by_contra hfails
  rw [Bool.not_eq_true] at hfails
  have herror := mem_validateBody_failed.mpr ⟨property, hmem, rfl, happlies, hc, hfails⟩
  rw [h] at herror
  cases herror

theorem TransactionType.text_injective : Function.Injective TransactionType.text := by
  intro a b h
  cases a <;> cases b <;> first | rfl | exact absurd h (by decide)

theorem hasType_iff {type : TransactionType} :
    body.hasType type = true ↔ body.get "type" = some (.str type.text) := by
  unfold Body.hasType
  split
  · next s h =>
      rw [h, decide_eq_true_iff]
      exact ⟨fun h ↦ by rw [h], fun h ↦ Json.str.inj (Option.some.inj h)⟩
  · next h =>
      constructor
      · intro hfalse
        cases hfalse
      · intro htype
        exact absurd htype (h _)

theorem find_type_text (type : TransactionType) :
    TransactionType.all.find? (fun t ↦ t.text = type.text) = some type := by
  cases type <;> decide

theorem ofBody_eq_some_iff {dto : CreateTransactionDto} :
    CreateTransactionDto.ofBody body = some dto ↔
      body.get "type" = some (.str dto.type.text) ∧ body.get "amount" = some (.str dto.amount) ∧
        body.get "currency" = some (.str dto.currency) ∧
        dto.fromAccount = body.get "fromAccount" ∧ dto.toAccount = body.get "toAccount" ∧
        dto.metadata = body.get "metadata" := by
  unfold CreateTransactionDto.ofBody
  constructor
  · intro h
    split at h
    · next type amount currency htype hamount hcurrency =>
        obtain ⟨t, hfind, rfl⟩ := Option.map_eq_some_iff.mp h
        have htext : t.text = type := by simpa using List.find?_some hfind
        rw [htype, htext]
        exact ⟨rfl, hamount, hcurrency, rfl, rfl, rfl⟩
    · cases h
  · rintro ⟨htype, hamount, hcurrency, hfrom, hto, hmetadata⟩
    rw [htype, hamount, hcurrency, ← hfrom, ← hto, ← hmetadata]
    simp only [find_type_text, Option.map_some]

variable (h : cv.Documented) (hvalid : validateBody cv CreateTransactionDto.properties body = [])

include h hvalid

theorem currency_of_valid :
    ∃ s, body.get "currency" = some (.str s) ∧ s.length ≤ 10 := by
  have hcheck := check_of_valid hvalid
    (List.mem_cons_of_mem _ (List.mem_cons_of_mem _ List.mem_cons_self)) rfl
    (List.mem_cons_of_mem _ (List.mem_cons_of_mem _ List.mem_cons_self))
  exact (h.maxLength_iff _ 10).mp hcheck

/-- An accepted body is an instance of the class. -/
theorem exists_dto_of_valid : ∃ dto, CreateTransactionDto.ofBody body = some dto := by
  have htype := check_of_valid hvalid List.mem_cons_self rfl List.mem_cons_self
  obtain ⟨text, htext, htype⟩ := (h.isEnum_iff _ _).mp htype
  obtain ⟨type, -, rfl⟩ := List.mem_map.mp htext
  have hamount := check_of_valid hvalid (List.mem_cons_of_mem _ List.mem_cons_self) rfl
    (List.mem_cons_of_mem _ List.mem_cons_self)
  obtain ⟨amount, hamount⟩ := (h.isString_iff _).mp hamount
  obtain ⟨currency, hcurrency, -⟩ := currency_of_valid h hvalid
  let dto : CreateTransactionDto :=
    { type := type, amount := amount, currency := currency, fromAccount := body.get "fromAccount",
      toAccount := body.get "toAccount", metadata := body.get "metadata" }
  exact ⟨dto, ofBody_eq_some_iff.mpr ⟨htype, hamount, hcurrency, rfl, rfl, rfl⟩⟩

omit hvalid in
/-- A body that is rejected has failed a check. -/
theorem validationPipe_error {errors : List ValidationError}
    (herrors : validationPipe cv body = .error errors) :
    errors = validateBody cv CreateTransactionDto.properties (body.transform cv) ∧
      errors ≠ [] := by
  unfold validationPipe at herrors
  split at herrors
  · cases herrors
  · next hother =>
      obtain rfl := Except.error.inj herrors
      refine ⟨rfl, fun hvalid ↦ ?_⟩
      obtain ⟨dto, hdto⟩ := exists_dto_of_valid h hvalid
      exact hother dto hvalid hdto

/-- An account that the type asks for is a short string that is not empty. -/
theorem account_of_valid {name : String} {first second : TransactionType} {message : String}
    (hmem : CreateTransactionDto.accountProperty name first second message ∈
      CreateTransactionDto.properties)
    (htype : body.hasType first = true ∨ body.hasType second = true) :
    ∃ s, body.get name = some (.str s) ∧ s ≠ "" ∧ s.length ≤ 255 := by
  have happlies : (body.hasType first || body.hasType second) = true :=
    Bool.or_eq_true_iff.mpr htype
  have hempty := check_of_valid hvalid hmem happlies List.mem_cons_self
  have hlength := check_of_valid hvalid hmem happlies
    (List.mem_cons_of_mem _ (List.mem_cons_of_mem _ List.mem_cons_self))
  obtain ⟨s, hs, hshort⟩ := (h.maxLength_iff _ 255).mp hlength
  obtain ⟨-, -, hne⟩ := (h.isNotEmpty_iff _).mp hempty
  refine ⟨s, hs, fun hnil ↦ hne ?_, hshort⟩
  rw [← hnil]
  exact hs

end

/-- The functions of `Object.prototype`, and the key that leads to it. -/
def inheritedKeys : List String :=
  ["constructor", "hasOwnProperty", "isPrototypeOf", "propertyIsEnumerable", "toLocaleString",
    "toString", "valueOf", "__defineGetter__", "__defineSetter__", "__lookupGetter__",
    "__lookupSetter__", "__proto__"]

/-- The documented checks. -/
def classValidator : ClassValidator where
  isEnum value values :=
    match value with
    | some (.str s) => s ∈ values
    | _ => false
  isNotEmpty value :=
    match value with
    | none | some .null => false
    | some (.str s) => s ≠ ""
    | some _ => true
  isString value :=
    match value with
    | some (.str _) => true
    | _ => false
  maxLength value max :=
    match value with
    | some (.str s) => s.length ≤ max
    | _ => false
  isObject value :=
    match value with
    | some (.obj _) => true
    | _ => false
  skips key := key ∈ inheritedKeys

theorem classValidator_documented : classValidator.Documented where
  isEnum_iff := by
    intro value values
    simp only [classValidator]
    split
    · simp
    · next hother =>
        apply iff_of_false Bool.false_ne_true
        rintro ⟨s, -, hs⟩
        exact hother s hs
  isNotEmpty_iff := by
    intro value
    simp only [classValidator]
    split
    · simp
    · simp
    · simp
    · next hnull hstr =>
        apply iff_of_true rfl
        refine ⟨Option.some_ne_none _, ?_, ?_⟩
        · intro hvalue
          exact hnull (Option.some.inj hvalue)
        · intro hvalue
          exact hstr "" (Option.some.inj hvalue)
  isString_iff := by
    intro value
    simp only [classValidator]
    split
    · next s => exact iff_of_true rfl ⟨s, rfl⟩
    · next hother =>
        apply iff_of_false Bool.false_ne_true
        rintro ⟨s, hs⟩
        exact hother s hs
  maxLength_iff := by
    intro value max
    simp only [classValidator]
    split
    · simp
    · next hother =>
        apply iff_of_false Bool.false_ne_true
        rintro ⟨s, hs, -⟩
        exact hother s hs
  isObject_iff := by
    intro value
    simp only [classValidator]
    split
    · next members => exact iff_of_true rfl ⟨members, rfl⟩
    · next hother =>
        apply iff_of_false Bool.false_ne_true
        rintro ⟨members, hmembers⟩
        exact hother members hmembers
  skips_property := by decide

end TransactionLedger
