import TransactionLedger.Api.Listing
import TransactionLedger.Transaction.Payload
import TransactionLedger.Validation.Body

/-!
# Query strings

The decorators of the two list queries and of `src/common/dto/pagination-query.dto.ts`, as
the validation pipe runs them on what class-transformer makes of a parsed query string.
Every parameter is optional; two of them are numbers and have a default.
-/

namespace TransactionLedger

/-! ## The parsed query -/

/-- A parameter that is repeated becomes an array. -/
inductive QueryValue : Type where
  | text (s : String)
  | texts (items : List String)

abbrev Query : Type := List (String × QueryValue)

def Query.get (query : Query) (key : String) : Option QueryValue := List.lookup key query

inductive JsNumber : Type where
  | nan
  | infinite (negative : Bool)
  | finite (q : ℚ)

def JsNumber.isInteger : JsNumber → Bool
  | .finite q => q.den = 1
  | _ => false

def JsNumber.atLeast (min : ℕ) : JsNumber → Bool
  | .nan => false
  | .infinite negative => !negative
  | .finite q => (min : ℚ) ≤ q

def JsNumber.atMost (max : ℕ) : JsNumber → Bool
  | .nan => false
  | .infinite negative => negative
  | .finite q => q ≤ max

/-- The global function `Number`, the formats that class-validator takes from validator.js,
and the keys that class-transformer does not copy. -/
structure QueryLib where
  number : String → JsNumber
  isDateString : String → Bool
  isUUID : String → Bool
  skips : String → Bool
  isDateString_empty : isDateString "" = false
  isUUID_empty : isUUID "" = false

def Query.transform (lib : QueryLib) (query : Query) : Query :=
  query.filter fun m ↦ !lib.skips m.1

/-! ## Properties -/

/-- What class-transformer makes of a value. -/
inductive QueryField : Type where
  | text (s : String)
  | texts (items : List String)
  | number (x : JsNumber)
  | numbers (xs : List JsNumber)

inductive QueryDecorator : Type where
  | isInt
  | min (n : ℕ)
  | max (n : ℕ)
  | isEnum (values : List String)
  | isString
  | maxLength (n : ℕ)
  | isDateString
  | isUUID

def QueryDecorator.check (lib : QueryLib) : QueryDecorator → QueryField → Bool
  | .isInt, .number x => x.isInteger
  | .min n, .number x => x.atLeast n
  | .max n, .number x => x.atMost n
  | .isEnum values, .text s => s ∈ values
  | .isString, .text _ => true
  | .maxLength n, .text s => s.length ≤ n
  | .isDateString, .text s => lib.isDateString s
  | .isUUID, .text s => lib.isUUID s
  | _, _ => false

/-- `asNumber` stands for `Type(() => Number)`, `initial` is the initialiser of the field.
Every property carries `IsOptional`. -/
structure QueryProperty where
  name : String
  asNumber : Bool
  initial : Option ℕ
  decorators : List QueryDecorator

def QueryProperty.field (lib : QueryLib) (query : Query) (property : QueryProperty) :
    Option QueryField :=
  match query.get property.name with
  | none => property.initial.map fun n ↦ .number (.finite n)
  | some (.text s) => some (if property.asNumber then .number (lib.number s) else .text s)
  | some (.texts items) =>
      some (if property.asNumber then .numbers (items.map lib.number) else .texts items)

namespace PaginationQueryDto

def pageProperty : QueryProperty where
  name := "page"
  asNumber := true
  initial := some 1
  decorators := [.isInt, .min 1]

def limitProperty : QueryProperty where
  name := "limit"
  asNumber := true
  initial := some 20
  decorators := [.isInt, .min 1, .max 100]

end PaginationQueryDto

/-- A property without a default, whose value stays a text. -/
def textProperty (name : String) (decorators : List QueryDecorator) : QueryProperty where
  name := name
  asNumber := false
  initial := none
  decorators := decorators

def TransactionStatus.all : List TransactionStatus := [.queued, .processing, .completed, .failed]

def NotificationStatus.text : NotificationStatus → String
  | .pending => "PENDING"
  | .processing => "PROCESSING"
  | .delivered => "DELIVERED"
  | .failed => "FAILED"
  | .deadLetter => "DEAD_LETTER"

def NotificationStatus.all : List NotificationStatus :=
  [.pending, .processing, .delivered, .failed, .deadLetter]

def NotificationChannel.text : NotificationChannel → String
  | .email => "EMAIL"
  | .sms => "SMS"
  | .push => "PUSH"
  | .webhook => "WEBHOOK"

def NotificationChannel.all : List NotificationChannel := [.email, .sms, .push, .webhook]

namespace ListTransactionsQueryDto

def statusProperty : QueryProperty :=
  textProperty "status" [.isEnum (TransactionStatus.all.map TransactionStatus.text)]

def typeProperty : QueryProperty :=
  textProperty "type" [.isEnum (TransactionType.all.map TransactionType.text)]

def accountProperty : QueryProperty := textProperty "account" [.isString, .maxLength 255]

def startDateProperty : QueryProperty := textProperty "startDate" [.isDateString]

def endDateProperty : QueryProperty := textProperty "endDate" [.isDateString]

def properties : List QueryProperty :=
  [PaginationQueryDto.pageProperty, PaginationQueryDto.limitProperty, statusProperty,
    typeProperty, accountProperty, startDateProperty, endDateProperty]

end ListTransactionsQueryDto

namespace ListNotificationsQueryDto

def statusProperty : QueryProperty :=
  textProperty "status" [.isEnum (NotificationStatus.all.map NotificationStatus.text)]

def channelProperty : QueryProperty :=
  textProperty "channel" [.isEnum (NotificationChannel.all.map NotificationChannel.text)]

def transactionIdProperty : QueryProperty := textProperty "transactionId" [.isUUID]

def properties : List QueryProperty :=
  [PaginationQueryDto.pageProperty, PaginationQueryDto.limitProperty, statusProperty,
    channelProperty, transactionIdProperty]

end ListNotificationsQueryDto

/-! ## The pipe -/

inductive QueryError : Type where
  /-- `forbidNonWhitelisted`. -/
  | unknown (property : String)
  | failed (property : String) (decorator : QueryDecorator)

def QueryProperty.errors (lib : QueryLib) (query : Query) (property : QueryProperty) :
    List QueryError :=
  match property.field lib query with
  | none => []
  | some field =>
      (property.decorators.filter fun d ↦ !d.check lib field).map (.failed property.name)

def validateQuery (lib : QueryLib) (properties : List QueryProperty) (query : Query) :
    List QueryError :=
  ((query.filter fun m ↦ !properties.any (·.name = m.1)).map fun m ↦ .unknown m.1) ++
    properties.flatMap (·.errors lib query)

/-- `ofQuery` reads the instance. -/
def queryPipe {δ : Type} (lib : QueryLib) (properties : List QueryProperty)
    (ofQuery : Query → Option δ) (query : Query) : Except (List QueryError) δ :=
  match validateQuery lib properties (query.transform lib), ofQuery (query.transform lib) with
  | [], some dto => .ok dto
  | errors, _ => .error errors

/-! ## The instance -/

/-- A field that is a whole number. -/
def QueryProperty.count (lib : QueryLib) (query : Query) (property : QueryProperty) : Option ℕ :=
  match property.field lib query with
  | some (.number (.finite q)) => if q.den = 1 ∧ 0 ≤ q.num then some q.num.toNat else none
  | _ => none

/-- A parameter that is absent or one text. -/
def Query.readText (query : Query) (name : String) : Option (Option String) :=
  match query.get name with
  | none => some none
  | some (.text s) => some (some s)
  | some (.texts _) => none

/-- A parameter that is absent or the text of a constant. -/
def Query.readEnum {α : Type} (all : List α) (text : α → String) (query : Query)
    (name : String) : Option (Option α) :=
  match query.get name with
  | none => some none
  | some (.text s) => (all.find? (text · = s)).map some
  | some (.texts _) => none

def PaginationQueryDto.ofQuery (lib : QueryLib) (query : Query) : Option PaginationQueryDto :=
  match pageProperty.count lib query, limitProperty.count lib query with
  | some page, some limit =>
      if h : 1 ≤ page ∧ 1 ≤ limit then some ⟨page, limit, h.1, h.2⟩ else none
  | _, _ => none

def ListTransactionsQueryDto.ofQuery (lib : QueryLib) (query : Query) :
    Option ListTransactionsQueryDto := do
  let pagination ← PaginationQueryDto.ofQuery lib query
  let status ← query.readEnum TransactionStatus.all TransactionStatus.text "status"
  let type ← query.readEnum TransactionType.all TransactionType.text "type"
  let account ← query.readText "account"
  let startDate ← query.readText "startDate"
  let endDate ← query.readText "endDate"
  if h : (∀ s ∈ account, s.length ≤ 255) ∧ startDate ≠ some "" ∧ endDate ≠ some "" then
    some ⟨pagination, status, type, account, startDate, endDate, h.1, h.2.1, h.2.2⟩
  else none

def ListNotificationsQueryDto.ofQuery (lib : QueryLib) (query : Query) :
    Option ListNotificationsQueryDto := do
  let pagination ← PaginationQueryDto.ofQuery lib query
  let status ← query.readEnum NotificationStatus.all NotificationStatus.text "status"
  let channel ← query.readEnum NotificationChannel.all NotificationChannel.text "channel"
  let transactionId ← query.readText "transactionId"
  if h : transactionId ≠ some "" then
    some ⟨pagination, status, channel, transactionId, h⟩
  else none

/-! ## What the queries say -/

/-- A parameter that is absent or a text that `Number` reads as `n`. -/
def Query.Counts (lib : QueryLib) (query : Query) (name : String) (initial n : ℕ) : Prop :=
  query.get name = none ∧ initial = n ∨
    ∃ s, query.get name = some (.text s) ∧ lib.number s = .finite n

structure Query.DescribesPage (lib : QueryLib) (query : Query) (dto : PaginationQueryDto) :
    Prop where
  page : query.Counts lib "page" 1 dto.page
  limit : query.Counts lib "limit" 20 dto.limit
  limit_le : dto.limit ≤ 100

/-- The query is one of the documented form, and `dto` is what it says. -/
structure Query.DescribesTransactions (lib : QueryLib) (query : Query)
    (dto : ListTransactionsQueryDto) : Prop where
  known : ∀ m ∈ query, ∃ property ∈ ListTransactionsQueryDto.properties, property.name = m.1
  pagination : query.DescribesPage lib dto.toPaginationQueryDto
  status : query.get "status" = dto.status.map (.text ·.text)
  type : query.get "type" = dto.type.map (.text ·.text)
  account : query.get "account" = dto.account.map .text
  startDate : query.get "startDate" = dto.startDate.map .text
  startDate_valid : ∀ s ∈ dto.startDate, lib.isDateString s = true
  endDate : query.get "endDate" = dto.endDate.map .text
  endDate_valid : ∀ s ∈ dto.endDate, lib.isDateString s = true

structure Query.DescribesNotifications (lib : QueryLib) (query : Query)
    (dto : ListNotificationsQueryDto) : Prop where
  known : ∀ m ∈ query, ∃ property ∈ ListNotificationsQueryDto.properties, property.name = m.1
  pagination : query.DescribesPage lib dto.toPaginationQueryDto
  status : query.get "status" = dto.status.map (.text ·.text)
  channel : query.get "channel" = dto.channel.map (.text ·.text)
  transactionId : query.get "transactionId" = dto.transactionId.map .text
  transactionId_valid : ∀ s ∈ dto.transactionId, lib.isUUID s = true

section

variable {lib : QueryLib} {query : Query} {property : QueryProperty} {name : String}

/-- A property passes when it has no value, or one that every decorator accepts. -/
def QueryProperty.Passes (lib : QueryLib) (query : Query) (property : QueryProperty) : Prop :=
  ∀ field, property.field lib query = some field →
    ∀ d ∈ property.decorators, d.check lib field = true

theorem QueryProperty.errors_eq_nil_iff :
    property.errors lib query = [] ↔ property.Passes lib query := by
  unfold errors Passes
  split
  · next hnone =>
      refine iff_of_true rfl fun field hfield ↦ ?_
      rw [hnone] at hfield
      cases hfield
  · next field hfield =>
      rw [List.map_eq_nil_iff, List.filter_eq_nil_iff, hfield]
      simp

theorem validateQuery_eq_nil_iff {properties : List QueryProperty} :
    validateQuery lib properties query = [] ↔
      (∀ m ∈ query, ∃ property ∈ properties, property.name = m.1) ∧
        ∀ property ∈ properties, property.Passes lib query := by
  rw [validateQuery, List.append_eq_nil_iff, List.map_eq_nil_iff, List.filter_eq_nil_iff,
    List.flatMap_eq_nil_iff]
  simp [QueryProperty.errors_eq_nil_iff]

theorem queryPipe_ok_iff {δ : Type} {properties : List QueryProperty}
    {ofQuery : Query → Option δ} {dto : δ} :
    queryPipe lib properties ofQuery query = .ok dto ↔
      validateQuery lib properties (query.transform lib) = [] ∧
        ofQuery (query.transform lib) = some dto := by
  unfold queryPipe
  constructor
  · intro h
    split at h
    · next hvalid hdto =>
        obtain rfl := Except.ok.inj h
        exact ⟨hvalid, hdto⟩
    · cases h
  · rintro ⟨hvalid, hdto⟩
    rw [hvalid, hdto]

/-- A rejection lists what has failed. -/
theorem queryPipe_error {δ : Type} {properties : List QueryProperty}
    {ofQuery : Query → Option δ} {errors : List QueryError}
    (h : queryPipe lib properties ofQuery query = .error errors) :
    errors = validateQuery lib properties (query.transform lib) := by
  unfold queryPipe at h
  split at h
  · cases h
  · exact (Except.error.inj h).symm

/-! ## Counts -/

theorem QueryProperty.field_number_iff {initial n : ℕ} (hnumber : property.asNumber = true)
    (hinitial : property.initial = some initial) :
    property.field lib query = some (.number (.finite n)) ↔
      query.Counts lib property.name initial n := by
  unfold field Query.Counts
  cases hget : query.get property.name with
  | none => simp [hinitial]
  | some value => cases value <;> simp [hnumber]

theorem QueryProperty.count_eq_some_iff {n : ℕ} :
    property.count lib query = some n ↔
      property.field lib query = some (.number (.finite n)) := by
  unfold count
  split
  · next q hfield =>
      rw [hfield]
      simp only [Option.some.injEq, QueryField.number.injEq, JsNumber.finite.injEq]
      constructor
      · intro h
        split at h
        · next hwhole =>
            obtain rfl := Option.some.inj h
            have hnum : ((q.num.toNat : ℤ) : ℚ) = q := by
              rw [Int.toNat_of_nonneg hwhole.2]
              exact (Rat.den_eq_one_iff q).mp hwhole.1
            exact_mod_cast hnum.symm
        · cases h
      · rintro rfl
        simp
  · next hother =>
      refine iff_of_false (fun h ↦ by cases h) fun hfield ↦ hother n hfield

/-- What `IsInt` and `Min(1)` accept. -/
theorem QueryDecorator.check_whole_iff (lib : QueryLib) {field : QueryField} :
    (isInt.check lib field = true ∧ (min 1).check lib field = true) ↔
      ∃ n : ℕ, 1 ≤ n ∧ field = .number (.finite n) := by
  constructor
  · rintro ⟨hint, hmin⟩
    rcases field with s | items | x | xs
    · cases hint
    · cases hint
    · rcases x with - | negative | q
      · cases hint
      · cases hint
      · have hden : q.den = 1 := of_decide_eq_true hint
        have hone : ((1 : ℕ) : ℚ) ≤ q := of_decide_eq_true hmin
        have hwhole : (q.num : ℚ) = q := (Rat.den_eq_one_iff q).mp hden
        have hnum : 1 ≤ q.num := by
          rw [← hwhole] at hone
          exact_mod_cast hone
        obtain ⟨n, hn⟩ := Int.eq_ofNat_of_zero_le (le_trans zero_le_one hnum)
        refine ⟨n, by omega, ?_⟩
        rw [← hwhole, hn]
        rfl
    · cases hint
  · rintro ⟨n, hn, rfl⟩
    refine ⟨decide_eq_true (Rat.den_natCast n), decide_eq_true ?_⟩
    exact_mod_cast hn

theorem QueryDecorator.check_max_iff {n m : ℕ} :
    (max m).check lib (.number (.finite n)) = true ↔ n ≤ m := by
  change decide ((n : ℚ) ≤ m) = true ↔ _
  rw [decide_eq_true_iff]
  exact_mod_cast Iff.rfl

/-- A property with a default always has a value. -/
theorem QueryProperty.exists_field (lib : QueryLib) (query : Query) {initial : ℕ}
    (hinitial : property.initial = some initial) :
    ∃ field, property.field lib query = some field := by
  unfold field
  split
  · exact ⟨_, by rw [hinitial]; rfl⟩
  · exact ⟨_, rfl⟩
  · exact ⟨_, rfl⟩

/-- A count passes when it is a whole number from 1 on that keeps to the other bounds. -/
theorem passes_count_iff {initial : ℕ} (bounds : List QueryDecorator)
    (hnumber : property.asNumber = true) (hinitial : property.initial = some initial)
    (hdecorators : property.decorators = .isInt :: .min 1 :: bounds) :
    property.Passes lib query ↔ ∃ n : ℕ, 1 ≤ n ∧
      (∀ d ∈ bounds, d.check lib (.number (.finite n)) = true) ∧
        query.Counts lib property.name initial n := by
  unfold QueryProperty.Passes
  simp only [hdecorators, List.forall_mem_cons]
  constructor
  · intro h
    obtain ⟨field, hfield⟩ := QueryProperty.exists_field lib query hinitial
    obtain ⟨hint, hmin, hbounds⟩ := h field hfield
    obtain ⟨n, hn, rfl⟩ := (QueryDecorator.check_whole_iff lib).mp ⟨hint, hmin⟩
    exact ⟨n, hn, hbounds, (QueryProperty.field_number_iff hnumber hinitial).mp hfield⟩
  · rintro ⟨n, hn, hbounds, hcounts⟩ field hfield
    have hwhole := (QueryProperty.field_number_iff hnumber hinitial).mpr hcounts
    obtain rfl := Option.some.inj (hfield.symm.trans hwhole)
    obtain ⟨hint, hmin⟩ := (QueryDecorator.check_whole_iff lib).mpr ⟨n, hn, rfl⟩
    exact ⟨hint, hmin, hbounds⟩

theorem passes_page_iff : PaginationQueryDto.pageProperty.Passes lib query ↔
    ∃ n, 1 ≤ n ∧ query.Counts lib "page" 1 n := by
  rw [passes_count_iff [] rfl rfl rfl]
  simp [PaginationQueryDto.pageProperty]

theorem passes_limit_iff : PaginationQueryDto.limitProperty.Passes lib query ↔
    ∃ n, 1 ≤ n ∧ n ≤ 100 ∧ query.Counts lib "limit" 20 n := by
  rw [passes_count_iff [.max 100] rfl rfl rfl]
  simp [PaginationQueryDto.limitProperty, QueryDecorator.check_max_iff]

/-! ## Texts -/

/-- A text passes when it is absent or accepted; a repeated parameter never passes. -/
theorem passes_text_iff {decorators : List QueryDecorator} (hchecked : decorators ≠ []) :
    (textProperty name decorators).Passes lib query ↔
      ∃ v : Option String, query.get name = v.map .text ∧
        ∀ s ∈ v, ∀ d ∈ decorators, d.check lib (.text s) = true := by
  unfold QueryProperty.Passes QueryProperty.field
  simp only [textProperty]
  cases hget : query.get name with
  | none => exact iff_of_true (fun _ h ↦ by cases h) ⟨none, rfl, fun _ h ↦ by cases h⟩
  | some value =>
      cases value with
      | text s =>
          constructor
          · intro h
            refine ⟨some s, rfl, fun t ht ↦ ?_⟩
            obtain rfl := Option.some.inj ht
            exact h _ rfl
          · rintro ⟨v, hv, h⟩ field hfield
            obtain ⟨t, rfl, ht⟩ := Option.map_eq_some_iff.mp hv.symm
            obtain rfl := QueryValue.text.inj ht
            obtain rfl := Option.some.inj hfield
            exact h t rfl
      | texts items =>
          refine iff_of_false (fun h ↦ ?_) ?_
          · obtain ⟨d, hd⟩ := List.exists_mem_of_ne_nil _ hchecked
            have hcheck := h (.texts items) rfl d hd
            cases d <;> cases hcheck
          · rintro ⟨v, hv, -⟩
            obtain ⟨t, -, ht⟩ := Option.map_eq_some_iff.mp hv.symm
            cases ht

theorem Query.readText_eq_some_iff {v : Option String} :
    query.readText name = some v ↔ query.get name = v.map .text := by
  unfold readText
  cases hget : query.get name with
  | none => cases v <;> simp
  | some value => cases value <;> cases v <;> simp [eq_comm]

/-- The constants of an enumeration and their texts. -/
structure Spells {α : Type} (all : List α) (text : α → String) : Prop where
  complete : ∀ a, a ∈ all
  injective : Function.Injective text

variable {α : Type} {all : List α} {text : α → String}

theorem Spells.find_eq_some_iff (h : Spells all text) {s : String} {a : α} :
    all.find? (text · = s) = some a ↔ text a = s := by
  constructor
  · intro hfind
    simpa using List.find?_some hfind
  · rintro rfl
    cases hfind : all.find? (text · = text a) with
    | none => simpa using List.find?_eq_none.mp hfind a (h.complete a)
    | some b =>
        have hb : text b = text a := by simpa using List.find?_some hfind
        rw [h.injective hb]

theorem Spells.readEnum_eq_some_iff (h : Spells all text) {v : Option α} :
    query.readEnum all text name = some v ↔ query.get name = v.map (.text <| text ·) := by
  unfold Query.readEnum
  cases hget : query.get name with
  | none => cases v <;> simp
  | some value =>
      cases value with
      | text s =>
          cases v with
          | none => simp
          | some a => simpa [h.find_eq_some_iff] using eq_comm
      | texts items => cases v <;> simp

/-- `IsEnum` accepts the texts of the constants. -/
theorem Spells.passes_iff (h : Spells all text) :
    (textProperty name [.isEnum (all.map text)]).Passes lib query ↔
      ∃ v : Option α, query.get name = v.map (.text <| text ·) := by
  rw [passes_text_iff (List.cons_ne_nil _ _)]
  constructor
  · rintro ⟨v, hv, hvalid⟩
    cases v with
    | none => exact ⟨none, hv⟩
    | some s =>
        have hmem := of_decide_eq_true (hvalid s rfl _ List.mem_cons_self)
        obtain ⟨a, -, rfl⟩ := List.mem_map.mp hmem
        exact ⟨some a, hv⟩
  · rintro ⟨v, hv⟩
    refine ⟨v.map text, by rw [hv, Option.map_map]; rfl, fun s hs d hd ↦ ?_⟩
    obtain ⟨a, -, rfl⟩ := Option.map_eq_some_iff.mp hs
    obtain rfl := List.mem_singleton.mp hd
    exact decide_eq_true (List.mem_map_of_mem (h.complete a))

end

theorem transactionStatus_spells : Spells TransactionStatus.all TransactionStatus.text where
  complete a := by cases a <;> decide
  injective a b h := by cases a <;> cases b <;> first | rfl | exact absurd h (by decide)

theorem transactionType_spells : Spells TransactionType.all TransactionType.text where
  complete a := by cases a <;> decide
  injective := TransactionType.text_injective

theorem notificationStatus_spells : Spells NotificationStatus.all NotificationStatus.text where
  complete a := by cases a <;> decide
  injective a b h := by cases a <;> cases b <;> first | rfl | exact absurd h (by decide)

theorem notificationChannel_spells :
    Spells NotificationChannel.all NotificationChannel.text where
  complete a := by cases a <;> decide
  injective a b h := by cases a <;> cases b <;> first | rfl | exact absurd h (by decide)

/-! ## The accepted queries -/

section

variable {lib : QueryLib} {query : Query}

theorem Query.Counts.unique {name : String} {initial n m : ℕ}
    (hn : query.Counts lib name initial n) (hm : query.Counts lib name initial m) : n = m := by
  rcases hn with ⟨hnone, rfl⟩ | ⟨s, hs, hn⟩ <;> rcases hm with ⟨hnone', rfl⟩ | ⟨t, ht, hm⟩
  · rfl
  · cases hnone.symm.trans ht
  · cases hs.symm.trans hnone'
  · obtain rfl := QueryValue.text.inj (Option.some.inj (hs.symm.trans ht))
    exact_mod_cast JsNumber.finite.inj (hn.symm.trans hm)

theorem textOption_injective :
    Function.Injective (Option.map QueryValue.text) :=
  Option.map_injective fun _ _ ↦ QueryValue.text.inj

theorem PaginationQueryDto.ofQuery_eq_some_iff {dto : PaginationQueryDto} :
    ofQuery lib query = some dto ↔
      query.Counts lib "page" 1 dto.page ∧ query.Counts lib "limit" 20 dto.limit := by
  have hpage (n : ℕ) : pageProperty.count lib query = some n ↔ query.Counts lib "page" 1 n :=
    QueryProperty.count_eq_some_iff.trans (QueryProperty.field_number_iff rfl rfl)
  have hlimit (n : ℕ) : limitProperty.count lib query = some n ↔ query.Counts lib "limit" 20 n :=
    QueryProperty.count_eq_some_iff.trans (QueryProperty.field_number_iff rfl rfl)
  unfold ofQuery
  constructor
  · intro h
    split at h
    · next page limit hcount hcount' =>
        split at h
        · obtain rfl := Option.some.inj h
          exact ⟨(hpage _).mp hcount, (hlimit _).mp hcount'⟩
        · cases h
    · cases h
  · rintro ⟨hcounts, hcounts'⟩
    rw [(hpage _).mpr hcounts, (hlimit _).mpr hcounts']
    exact dif_pos ⟨dto.page_pos, dto.limit_pos⟩

theorem ListTransactionsQueryDto.ofQuery_eq_some_iff {dto : ListTransactionsQueryDto} :
    ofQuery lib query = some dto ↔
      (query.Counts lib "page" 1 dto.page ∧ query.Counts lib "limit" 20 dto.limit) ∧
        query.get "status" = dto.status.map (.text <| ·.text) ∧
        query.get "type" = dto.type.map (.text <| ·.text) ∧
        query.get "account" = dto.account.map .text ∧
        query.get "startDate" = dto.startDate.map .text ∧
        query.get "endDate" = dto.endDate.map .text := by
  rw [← PaginationQueryDto.ofQuery_eq_some_iff, ← transactionStatus_spells.readEnum_eq_some_iff,
    ← transactionType_spells.readEnum_eq_some_iff, ← Query.readText_eq_some_iff,
    ← Query.readText_eq_some_iff, ← Query.readText_eq_some_iff]
  unfold ofQuery
  simp only [Option.bind_eq_bind, Option.bind_eq_some_iff]
  constructor
  · rintro ⟨pagination, hpagination, status, hstatus, type, htype, account, haccount, startDate,
      hstart, endDate, hend, h⟩
    split at h
    · obtain rfl := Option.some.inj h
      exact ⟨hpagination, hstatus, htype, haccount, hstart, hend⟩
    · cases h
  · rintro ⟨hpagination, hstatus, htype, haccount, hstart, hend⟩
    exact ⟨_, hpagination, _, hstatus, _, htype, _, haccount, _, hstart, _, hend,
      dif_pos ⟨dto.account_short, dto.startDate_ne, dto.endDate_ne⟩⟩

theorem ListNotificationsQueryDto.ofQuery_eq_some_iff {dto : ListNotificationsQueryDto} :
    ofQuery lib query = some dto ↔
      (query.Counts lib "page" 1 dto.page ∧ query.Counts lib "limit" 20 dto.limit) ∧
        query.get "status" = dto.status.map (.text <| ·.text) ∧
        query.get "channel" = dto.channel.map (.text <| ·.text) ∧
        query.get "transactionId" = dto.transactionId.map .text := by
  rw [← PaginationQueryDto.ofQuery_eq_some_iff, ← notificationStatus_spells.readEnum_eq_some_iff,
    ← notificationChannel_spells.readEnum_eq_some_iff, ← Query.readText_eq_some_iff]
  unfold ofQuery
  simp only [Option.bind_eq_bind, Option.bind_eq_some_iff]
  constructor
  · rintro ⟨pagination, hpagination, status, hstatus, channel, hchannel, transactionId, hid, h⟩
    split at h
    · obtain rfl := Option.some.inj h
      exact ⟨hpagination, hstatus, hchannel, hid⟩
    · cases h
  · rintro ⟨hpagination, hstatus, hchannel, hid⟩
    exact ⟨_, hpagination, _, hstatus, _, hchannel, _, hid, dif_pos dto.transactionId_ne⟩

theorem passes_shortText_iff {name : String} {n : ℕ} :
    (textProperty name [.isString, .maxLength n]).Passes lib query ↔
      ∃ v : Option String, query.get name = v.map .text ∧ ∀ s ∈ v, s.length ≤ n := by
  rw [passes_text_iff (List.cons_ne_nil _ _)]
  simp [QueryDecorator.check]

theorem passes_date_iff {name : String} :
    (textProperty name [.isDateString]).Passes lib query ↔
      ∃ v : Option String, query.get name = v.map .text ∧
        ∀ s ∈ v, lib.isDateString s = true := by
  rw [passes_text_iff (List.cons_ne_nil _ _)]
  simp [QueryDecorator.check]

theorem passes_uuid_iff {name : String} :
    (textProperty name [.isUUID]).Passes lib query ↔
      ∃ v : Option String, query.get name = v.map .text ∧ ∀ s ∈ v, lib.isUUID s = true := by
  rw [passes_text_iff (List.cons_ne_nil _ _)]
  simp [QueryDecorator.check]

namespace ListTransactionsQueryDto

theorem validateQuery_eq_nil_iff : validateQuery lib properties query = [] ↔
    (∀ m ∈ query, ∃ property ∈ properties, property.name = m.1) ∧
      (∃ n, 1 ≤ n ∧ query.Counts lib "page" 1 n) ∧
      (∃ n, 1 ≤ n ∧ n ≤ 100 ∧ query.Counts lib "limit" 20 n) ∧
      (∃ v : Option TransactionStatus, query.get "status" = v.map (.text <| ·.text)) ∧
      (∃ v : Option TransactionType, query.get "type" = v.map (.text <| ·.text)) ∧
      (∃ v : Option String, query.get "account" = v.map .text ∧ ∀ s ∈ v, s.length ≤ 255) ∧
      (∃ v : Option String, query.get "startDate" = v.map .text ∧
        ∀ s ∈ v, lib.isDateString s = true) ∧
      ∃ v : Option String, query.get "endDate" = v.map .text ∧
        ∀ s ∈ v, lib.isDateString s = true := by
  rw [TransactionLedger.validateQuery_eq_nil_iff, properties]
  simp only [List.forall_mem_cons, statusProperty, typeProperty, accountProperty,
    startDateProperty, endDateProperty, passes_page_iff, passes_limit_iff,
    transactionStatus_spells.passes_iff, transactionType_spells.passes_iff,
    passes_shortText_iff, passes_date_iff]
  simp

/-- What the pipe makes of a query string. -/
def pipe (lib : QueryLib) : Query → Except (List QueryError) ListTransactionsQueryDto :=
  queryPipe lib properties (ofQuery lib)

/-- An accepted query is an instance of the class. -/
theorem exists_pipe_ok (hvalid : validateQuery lib properties (query.transform lib) = []) :
    ∃ dto, pipe lib query = .ok dto := by
  obtain ⟨-, ⟨page, hpage, hcounts⟩, ⟨limit, hlimit, -, hcounts'⟩, ⟨status, hstatus⟩,
    ⟨type, htype⟩, ⟨account, haccount, hshort⟩, ⟨startDate, hstart, hstart'⟩,
    endDate, hend, hend'⟩ := validateQuery_eq_nil_iff.mp hvalid
  have hne {date : Option String} (hdate : ∀ s ∈ date, lib.isDateString s = true) :
      date ≠ some "" := by
    rintro rfl
    have hempty := hdate "" rfl
    rw [lib.isDateString_empty] at hempty
    cases hempty
  let dto : ListTransactionsQueryDto :=
    ⟨⟨page, limit, hpage, hlimit⟩, status, type, account, startDate, endDate, hshort, hne hstart',
      hne hend'⟩
  exact ⟨dto, queryPipe_ok_iff.mpr ⟨hvalid, ofQuery_eq_some_iff.mpr
    ⟨⟨hcounts, hcounts'⟩, hstatus, htype, haccount, hstart, hend⟩⟩⟩

theorem pipe_ok_iff {dto : ListTransactionsQueryDto} :
    pipe lib query = .ok dto ↔ (query.transform lib).DescribesTransactions lib dto := by
  refine queryPipe_ok_iff.trans ?_
  rw [validateQuery_eq_nil_iff, ofQuery_eq_some_iff]
  constructor
  · rintro ⟨⟨hknown, -, ⟨limit, -, hle, hcounts'⟩, -, -, -, ⟨startDate, hstart', hvalid⟩,
      endDate, hend', hvalid'⟩, ⟨hpage, hlimit⟩, hstatus, htype, haccount, hstart, hend⟩
    obtain rfl := hcounts'.unique hlimit
    obtain rfl := textOption_injective (hstart'.symm.trans hstart)
    obtain rfl := textOption_injective (hend'.symm.trans hend)
    exact ⟨hknown, ⟨hpage, hlimit, hle⟩, hstatus, htype, haccount, hstart, hvalid, hend, hvalid'⟩
  · intro h
    exact ⟨⟨h.known, ⟨_, dto.page_pos, h.pagination.page⟩,
      ⟨_, dto.limit_pos, h.pagination.limit_le, h.pagination.limit⟩, ⟨_, h.status⟩, ⟨_, h.type⟩,
      ⟨_, h.account, dto.account_short⟩, ⟨_, h.startDate, h.startDate_valid⟩,
      ⟨_, h.endDate, h.endDate_valid⟩⟩,
      ⟨h.pagination.page, h.pagination.limit⟩, h.status, h.type, h.account, h.startDate, h.endDate⟩

end ListTransactionsQueryDto

namespace ListNotificationsQueryDto

theorem validateQuery_eq_nil_iff : validateQuery lib properties query = [] ↔
    (∀ m ∈ query, ∃ property ∈ properties, property.name = m.1) ∧
      (∃ n, 1 ≤ n ∧ query.Counts lib "page" 1 n) ∧
      (∃ n, 1 ≤ n ∧ n ≤ 100 ∧ query.Counts lib "limit" 20 n) ∧
      (∃ v : Option NotificationStatus, query.get "status" = v.map (.text <| ·.text)) ∧
      (∃ v : Option NotificationChannel, query.get "channel" = v.map (.text <| ·.text)) ∧
      ∃ v : Option String, query.get "transactionId" = v.map .text ∧
        ∀ s ∈ v, lib.isUUID s = true := by
  rw [TransactionLedger.validateQuery_eq_nil_iff, properties]
  simp only [List.forall_mem_cons, statusProperty, channelProperty, transactionIdProperty,
    passes_page_iff, passes_limit_iff, notificationStatus_spells.passes_iff,
    notificationChannel_spells.passes_iff, passes_uuid_iff]
  simp

def pipe (lib : QueryLib) : Query → Except (List QueryError) ListNotificationsQueryDto :=
  queryPipe lib properties (ofQuery lib)

theorem exists_pipe_ok (hvalid : validateQuery lib properties (query.transform lib) = []) :
    ∃ dto, pipe lib query = .ok dto := by
  obtain ⟨-, ⟨page, hpage, hcounts⟩, ⟨limit, hlimit, -, hcounts'⟩, ⟨status, hstatus⟩,
    ⟨channel, hchannel⟩, transactionId, hid, hid'⟩ := validateQuery_eq_nil_iff.mp hvalid
  have hne : transactionId ≠ some "" := by
    rintro rfl
    have hempty := hid' "" rfl
    rw [lib.isUUID_empty] at hempty
    cases hempty
  let dto : ListNotificationsQueryDto :=
    ⟨⟨page, limit, hpage, hlimit⟩, status, channel, transactionId, hne⟩
  exact ⟨dto, queryPipe_ok_iff.mpr ⟨hvalid, ofQuery_eq_some_iff.mpr
    ⟨⟨hcounts, hcounts'⟩, hstatus, hchannel, hid⟩⟩⟩

theorem pipe_ok_iff {dto : ListNotificationsQueryDto} :
    pipe lib query = .ok dto ↔ (query.transform lib).DescribesNotifications lib dto := by
  refine queryPipe_ok_iff.trans ?_
  rw [validateQuery_eq_nil_iff, ofQuery_eq_some_iff]
  constructor
  · rintro ⟨⟨hknown, -, ⟨limit, -, hle, hcounts'⟩, -, -, transactionId, hid', hvalid⟩,
      ⟨hpage, hlimit⟩, hstatus, hchannel, hid⟩
    obtain rfl := hcounts'.unique hlimit
    obtain rfl := textOption_injective (hid'.symm.trans hid)
    exact ⟨hknown, ⟨hpage, hlimit, hle⟩, hstatus, hchannel, hid, hvalid⟩
  · intro h
    exact ⟨⟨h.known, ⟨_, dto.page_pos, h.pagination.page⟩,
      ⟨_, dto.limit_pos, h.pagination.limit_le, h.pagination.limit⟩, ⟨_, h.status⟩, ⟨_, h.channel⟩,
      ⟨_, h.transactionId, h.transactionId_valid⟩⟩,
      ⟨h.pagination.page, h.pagination.limit⟩, h.status, h.channel, h.transactionId⟩

end ListNotificationsQueryDto

/-- The two list endpoints accept exactly the queries whose copy has the documented form, pass
on what the copy says, and say what is wrong with every other query. -/
theorem listQueries_accepted_iff (lib : QueryLib) (query : Query) :
    ((∀ dto, ListTransactionsQueryDto.pipe lib query = .ok dto ↔
        (query.transform lib).DescribesTransactions lib dto) ∧
      ∀ errors, ListTransactionsQueryDto.pipe lib query = .error errors → errors ≠ []) ∧
    (∀ dto, ListNotificationsQueryDto.pipe lib query = .ok dto ↔
        (query.transform lib).DescribesNotifications lib dto) ∧
      ∀ errors, ListNotificationsQueryDto.pipe lib query = .error errors → errors ≠ [] := by
  refine ⟨⟨fun _ ↦ ListTransactionsQueryDto.pipe_ok_iff, ?_⟩,
    fun _ ↦ ListNotificationsQueryDto.pipe_ok_iff, ?_⟩
  · rintro errors herrors rfl
    obtain ⟨dto, hdto⟩ := ListTransactionsQueryDto.exists_pipe_ok (queryPipe_error herrors).symm
    cases herrors.symm.trans hdto
  · rintro errors herrors rfl
    obtain ⟨dto, hdto⟩ := ListNotificationsQueryDto.exists_pipe_ok (queryPipe_error herrors).symm
    cases herrors.symm.trans hdto

end

/-! ## A query -/

open Data

/-- The parts between the hyphens have these lengths and these characters. -/
def isHyphenated (lengths : List ℕ) (characters : List Char) (s : String) : Bool :=
  let parts := s.toList.splitOn '-'
  parts.map List.length == lengths && parts.all fun part ↦ part.all (characters.contains ·)

theorem isHyphenated_empty {lengths : List ℕ} {characters : List Char} (h : lengths ≠ [0]) :
    isHyphenated lengths characters "" = false := by
  simp [isHyphenated, Ne.symm h]

theorem isDateString_of_empty :
    isHyphenated [4, 2, 2] "0123456789".toList "" = false := isHyphenated_empty (by simp)

theorem isUUID_of_empty :
    isHyphenated [8, 4, 4, 4, 12] "0123456789abcdefABCDEF".toList "" = false :=
  isHyphenated_empty (by simp)

/-- Decimal numerals, calendar dates and UUIDs. -/
def queryLib : QueryLib where
  number s :=
    match readDecimal (jsString s) with
    | some d => .finite d.value
    | none => .nan
  isDateString := isHyphenated [4, 2, 2] "0123456789".toList
  isUUID := isHyphenated [8, 4, 4, 4, 12] "0123456789abcdefABCDEF".toList
  skips key := key ∈ inheritedKeys
  isDateString_empty := isDateString_of_empty
  isUUID_empty := isUUID_of_empty

/-- `?page=2&status=QUEUED&startDate=2024-01-01&toString=1`. -/
def secondPage : Query :=
  [("page", .text "2"), ("status", .text "QUEUED"), ("startDate", .text "2024-01-01"),
    ("toString", .text "1")]

theorem secondPage_accepted :
    ∃ dto, ListTransactionsQueryDto.pipe queryLib secondPage = .ok dto ∧ dto.page = 2 ∧
      dto.limit = 20 ∧ dto.status = some .queued ∧ dto.startDate = some "2024-01-01" := by
  let dto : ListTransactionsQueryDto :=
    ⟨⟨2, 20, by decide, by decide⟩, some .queued, none, none, some "2024-01-01", none, by simp,
      by decide, by decide⟩
  refine ⟨dto, ((listQueries_accepted_iff queryLib secondPage).1.1 dto).mpr ?_, rfl, rfl, rfl, rfl⟩
  have htext : decimalText ⟨[2], []⟩ = jsString "2" := by decide
  have hpage : queryLib.number "2" = .finite (2 : ℕ) := by
    simp only [queryLib, ← htext, readDecimal_decimalText]
    norm_num [Decimal.value, wholeValue, fractionValue]
  exact { known := by decide
          pagination := ⟨.inr ⟨"2", rfl, hpage⟩, .inl ⟨rfl, rfl⟩, by decide⟩
          status := rfl
          type := rfl
          account := rfl
          startDate := rfl
          startDate_valid := by decide
          endDate := rfl
          endDate_valid := by decide }

end TransactionLedger
