import TransactionLedger.Data.DecimalPrinter
import TransactionLedger.Transaction.Service
import TransactionLedger.Validation.Amount

/-!
# The notified amount

The amount of a request goes through the constructor of `Prisma.Decimal`, the column and
`Decimal.toString` before `enqueueNotification` puts it into the payload.
-/

namespace TransactionLedger

open Data

/-! ## Decimals as the library prints them -/

/-- The exponential notation of decimal.js for numbers below one. -/
def exponentialText (d : Decimal) : JsString :=
  d.exponential digitUnit (unit '.') [unit 'e', unit '-']

/-- The string is a plain decimal numeral of the number. -/
def Denotes (s : String) (q : ℚ) : Prop :=
  ∃ d : Decimal, d.whole ≠ [] ∧ decimalText d = jsString s ∧ d.value = q

/-- The default behaviour of decimal.js: construction from a string is exact, and a number
is printed with its shortest digits, in exponential notation when its base-10 exponent is
-7 or less. -/
structure DecimalLib.Documented (lib : DecimalLib) : Prop where
  ofString_exact : ∀ s q, Denotes s q → lib.ofString s = some q
  toString_plain : ∀ d : Decimal, d.Shortest → 1 / 10 ^ 6 ≤ d.value → d.value < 10 ^ 21 →
    jsString (lib.toString d.value) = decimalText d
  toString_exponential : ∀ d : Decimal, d.Shortest → 0 < d.value → d.value < 1 / 10 ^ 6 →
    jsString (lib.toString d.value) = exponentialText d

/-- `validate` accepts the string. -/
def ValidAmount (s : String) : Prop :=
  IsPositiveDecimalString.validate (some (.str (jsString s)) : Option (JsonValue ℚ)) = true

theorem validAmount_iff (s : String) : ValidAmount s ↔ ∃ a : Amount, a.text = jsString s :=
  IsPositiveDecimalString.validateString_iff (jsString s)

/-- The string is accepted again and denotes the same number. -/
def SameAmount (given sent : String) : Prop :=
  ValidAmount sent ∧ ∃ q, Denotes given q ∧ Denotes sent q

theorem Amount.denotes {a : Amount} {s : String} (h : a.text = jsString s) :
    Denotes s a.value :=
  ⟨a.numeral, a.noLeadingZero.ne_nil, h, rfl⟩

theorem Denotes.unique {s : String} {q r : ℚ} (hq : Denotes s q) (hr : Denotes s r) : q = r := by
  obtain ⟨d, -, hd, rfl⟩ := hq
  obtain ⟨e, -, he, rfl⟩ := hr
  obtain rfl := decimalText_injective (hd.trans he.symm)
  rfl

/-- An exponent mark is no letter of a plain numeral. -/
theorem exponentialText_ne_text (d : Decimal) (a : Amount) : exponentialText d ≠ a.text := by
  intro h
  have hmem : unit 'e' ∈ exponentialText d := Decimal.mem_exponential d List.mem_cons_self
  rw [h] at hmem
  have hpoint : unit 'e' ≠ unit '.' := by decide
  have hdigit : ∀ digit, digitUnit digit ≠ unit 'e' := by decide
  rcases Decimal.mem_text hmem with ⟨digit, hc⟩ | hc
  · exact hdigit digit hc
  · exact hpoint hc

/-- The shortest numeral of an amount is an amount. -/
def Amount.trim (a : Amount) : Amount where
  numeral := a.numeral.trim
  noLeadingZero := a.noLeadingZero
  whole_length := a.whole_length
  fraction_length := a.numeral.trim_length.trans a.fraction_length
  positive := by
    rw [a.numeral.trim_value]
    exact a.positive

theorem Amount.trim_value (a : Amount) : a.trim.value = a.value := a.numeral.trim_value

theorem Amount.value_lt (a : Amount) : a.value < 10 ^ 21 := by
  have hlt := a.numeral.value_lt
  have hpow : (10 : ℚ) ^ a.numeral.whole.length ≤ 10 ^ 21 :=
    pow_le_pow_right₀ (by norm_num) (a.whole_length.trans (by norm_num))
  exact lt_of_lt_of_le hlt hpow

/-- An amount that went through the library is an amount of the same number exactly when it
is printed in plain notation. -/
theorem sameAmount_toString_iff {lib : DecimalLib} (h : lib.Documented) {given : String}
    {a : Amount} (hgiven : a.text = jsString given) :
    SameAmount given (lib.toString a.value) ↔ 1 / 10 ^ 6 ≤ a.value := by
  have hshortest := Decimal.trim_shortest a.noLeadingZero
  have hvalue : a.numeral.trim.value = a.value := a.trim_value
  constructor
  · rintro ⟨hvalid, -⟩
    by_contra hsmall
    rw [not_le] at hsmall
    obtain ⟨b, hb⟩ := (validAmount_iff _).mp hvalid
    have hprinted := h.toString_exponential a.numeral.trim hshortest
      (a.trim.positive) (by rwa [hvalue])
    rw [hvalue] at hprinted
    exact exponentialText_ne_text _ b (hprinted.symm.trans hb.symm)
  · intro hlarge
    have hprinted := h.toString_plain a.numeral.trim hshortest (by rwa [hvalue])
      (by rw [hvalue]; exact a.value_lt)
    rw [hvalue] at hprinted
    have hsent : Denotes (lib.toString a.value) a.trim.value := Amount.denotes hprinted.symm
    rw [a.trim_value] at hsent
    exact ⟨(validAmount_iff _).mpr ⟨a.trim, hprinted.symm⟩, a.value, Amount.denotes hgiven, hsent⟩

/-! ## The payload -/

open TransactionService TransactionProcessor

theorem notificationFor_amount {lib : DecimalLib} {transaction : Transaction}
    {fromAccount toAccount : Option Json} {job : NotificationJob}
    (h : notificationFor lib transaction fromAccount toAccount = some job) :
    job.payload.amount = lib.toString transaction.amount := by
  simp only [notificationFor] at h
  split at h
  · cases h
  · split at h
    · obtain rfl := Option.some.inj h
      rfl
    · cases h

/-- The amount in the notification job of a transaction is the number that was validated,
and is valid itself, exactly when it is at least a millionth. -/
theorem notifiedAmount_iff {lib : DecimalLib} (h : lib.Documented) {transactionId : String}
    {dto : CreateTransactionDto} (hvalid : ValidAmount dto.amount) {amount : ℚ}
    (hread : lib.ofString dto.amount = some amount) {row : Transaction}
    (hrow : (newTransaction transactionId dto amount).row = some row)
    (status : TransactionStatus) {fromAccount toAccount : Option Json} {job : NotificationJob}
    (hjob : notificationFor lib { row with status := status } fromAccount toAccount =
      some job) :
    SameAmount dto.amount job.payload.amount ↔
      ∃ q, Denotes dto.amount q ∧ 1 / 10 ^ 6 ≤ q := by
  obtain ⟨a, ha⟩ := (validAmount_iff dto.amount).mp hvalid
  have hdenotes := Amount.denotes ha
  have hamount : row.amount = a.value := by
    rw [(TransactionData.of_row hrow).2.2.1]
    exact Option.some.inj (hread.symm.trans (h.ofString_exact _ _ hdenotes))
  rw [notificationFor_amount hjob, hamount, sameAmount_toString_iff h ha]
  constructor
  · intro hlarge
    exact ⟨a.value, hdenotes, hlarge⟩
  · rintro ⟨q, hq, hlarge⟩
    rwa [hdenotes.unique hq]

/-! ## decimal.js -/

def readDigit (c : CodeUnit) : Option Digit := (List.finRange 10).find? (digitUnit · = c)

/-- A plain decimal numeral, read at the point. -/
def readDecimal (s : JsString) : Option Decimal :=
  match s.splitOn (unit '.') with
  | [whole] => (whole.mapM readDigit).map fun digits ↦ ⟨digits, []⟩
  | [whole, fraction] => do
      let whole ← whole.mapM readDigit
      let fraction ← fraction.mapM readDigit
      pure ⟨whole, fraction⟩
  | _ => none

def digitChar (d : Digit) : Char := Char.ofNat (48 + d.val)

/-- Construction and printing for numbers below `10 ^ 21`. -/
def decimalJs : DecimalLib where
  ofString s := (readDecimal (jsString s)).map Decimal.value
  toString q :=
    let d := Decimal.ofRat q
    if 1 / 10 ^ 6 ≤ q then String.ofList (d.text digitChar '.')
    else String.ofList (d.exponential digitChar '.' ['e', '-'])

theorem readDigit_digitUnit (d : Digit) : readDigit (digitUnit d) = some d := by
  revert d
  decide

theorem mapM_readDigit (digits : List Digit) :
    (digits.map digitUnit).mapM readDigit = some digits := by
  induction digits with
  | nil => rfl
  | cons d digits ih =>
      rw [List.map_cons, List.mapM_cons, readDigit_digitUnit, ih]
      rfl

theorem readDecimal_decimalText (d : Decimal) : readDecimal (decimalText d) = some d := by
  obtain ⟨whole, fraction⟩ := d
  simp only [readDecimal, decimalText, Decimal.text]
  split_ifs with hfraction
  · rw [List.append_nil, List.splitOn_eq_singleton (point_not_mem whole), hfraction]
    simp only [mapM_readDigit, Option.map_some]
  · rw [List.splitOn_append_cons_self_of_not_mem (point_not_mem whole),
      List.splitOn_eq_singleton (point_not_mem fraction)]
    simp only [mapM_readDigit, Option.bind_eq_bind, Option.bind_some, Option.pure_def]

theorem unit_digitChar : unit ∘ digitChar = digitUnit := by
  funext d
  revert d
  decide

theorem digitChar_small (d : Digit) : (digitChar d).toNat < 0x10000 := by
  revert d
  decide

theorem decimalJs_documented : decimalJs.Documented where
  ofString_exact := by
    rintro s q ⟨d, -, hd, rfl⟩
    change (readDecimal (jsString s)).map Decimal.value = some d.value
    rw [← hd, readDecimal_decimalText, Option.map_some]
  toString_plain := by
    intro d hshortest hlarge _
    have hsmall : ∀ c ∈ d.text digitChar '.', c.toNat < 0x10000 := by
      intro c hc
      rcases Decimal.mem_text hc with ⟨digit, rfl⟩ | rfl
      · exact digitChar_small digit
      · decide
    change jsString (if 1 / 10 ^ 6 ≤ d.value then _ else _) = _
    rw [if_pos hlarge, Decimal.ofRat_value hshortest, jsString_ofList hsmall, Decimal.map_text,
      unit_digitChar]
  toString_exponential := by
    intro d hshortest _ hsmall
    have hunits : ∀ c ∈ d.exponential digitChar '.' ['e', '-'], c.toNat < 0x10000 := by
      intro c hc
      rcases List.mem_append.mp hc with hc | hc
      · rcases List.mem_append.mp hc with hc | hc
        · rcases Decimal.mem_text hc with ⟨digit, rfl⟩ | rfl
          · exact digitChar_small digit
          · decide
        · have hmark : ['e', '-'].all fun c ↦ c.toNat < 0x10000 := by decide
          exact of_decide_eq_true (List.all_eq_true.mp hmark c hc)
      · obtain ⟨digit, -, rfl⟩ := List.mem_map.mp hc
        exact digitChar_small digit
    change jsString (if 1 / 10 ^ 6 ≤ d.value then _ else _) = _
    rw [if_neg (not_le.mpr hsmall), Decimal.ofRat_value hshortest, jsString_ofList hunits,
      Decimal.map_exponential, unit_digitChar]
    rfl

/-! ## Two deposits -/

def depositOf (amount : String) : CreateTransactionDto where
  type := .deposit
  amount := amount
  currency := "USD"
  fromAccount := none
  toAccount := some (.str "ACC-002")
  metadata := none

def depositRow (amount : ℚ) : Transaction where
  id := "tx-1"
  type := .deposit
  status := .queued
  amount := amount
  currency := "USD"
  fromAccount := none
  toAccount := some "ACC-002"
  metadata := none

def depositNotice (amount : ℚ) : NotificationJob where
  name := "send-notification"
  transactionId := "tx-1"
  channel := .email
  recipient := .str "ACC-002"
  payload := { type := .deposit, amount := decimalJs.toString amount, currency := "USD" }
  jobId := notificationJobId "tx-1"

theorem depositRow_stored (s : String) (amount : ℚ) :
    (newTransaction "tx-1" (depositOf s) amount).row = some (depositRow amount) := by
  have hlength : "ACC-002".length ≤ 255 := by decide
  have hcurrency : "USD".length ≤ 10 := by decide
  simp only [newTransaction, depositOf, TransactionData.row, accountColumn, hlength, hcurrency,
    if_true, Option.bind_eq_bind, Option.bind_some]
  rfl

theorem depositNotice_added (amount : ℚ) :
    notificationFor decimalJs { depositRow amount with status := .completed } none
      (some (.str "ACC-002")) = some (depositNotice amount) := by
  have hne : "ACC-002" ≠ "" := by decide
  have htruthy : (Json.str "ACC-002").truthy = true := decide_eq_true hne
  simp only [notificationFor, recipient, htruthy, if_true]
  rfl

/-- `100.50`. -/
def hundredAndHalf : Amount where
  numeral := ⟨[1, 0, 0], [5, 0]⟩
  noLeadingZero := Or.inr ⟨List.cons_ne_nil _ _, by decide⟩
  whole_length := by decide
  fraction_length := by decide
  positive := by norm_num [Decimal.value, wholeValue, fractionValue, Nat.ofDigits]

/-- `0.0000001`. -/
def tenMillionth : Amount where
  numeral := ⟨[0], [0, 0, 0, 0, 0, 0, 1]⟩
  noLeadingZero := Or.inl rfl
  whole_length := by decide
  fraction_length := by decide
  positive := by norm_num [Decimal.value, wholeValue, fractionValue, Nat.ofDigits]

theorem hundredAndHalf_text : hundredAndHalf.text = jsString "100.50" := by decide

theorem tenMillionth_text : tenMillionth.text = jsString "0.0000001" := by decide

theorem notifiedAmount_hundredAndHalf :
    SameAmount "100.50" (depositNotice hundredAndHalf.value).payload.amount := by
  have hdenotes := Amount.denotes hundredAndHalf_text
  refine (notifiedAmount_iff decimalJs_documented ((validAmount_iff _).mpr ⟨_, hundredAndHalf_text⟩)
    (decimalJs_documented.ofString_exact _ _ hdenotes)
    (depositRow_stored "100.50" hundredAndHalf.value) .completed
    (depositNotice_added hundredAndHalf.value)).mpr ⟨_, hdenotes, ?_⟩
  norm_num [hundredAndHalf, Amount.value, Decimal.value, wholeValue, fractionValue, Nat.ofDigits]

/-- The notified amount of `0.0000001` is `1e-7`, which `validate` rejects. -/
theorem notifiedAmount_tenMillionth :
    ValidAmount (depositOf "0.0000001").amount ∧
      decimalJs.ofString (depositOf "0.0000001").amount = some tenMillionth.value ∧
      (newTransaction "tx-1" (depositOf "0.0000001") tenMillionth.value).row =
        some (depositRow tenMillionth.value) ∧
      notificationFor decimalJs { depositRow tenMillionth.value with status := .completed } none
        (some (.str "ACC-002")) = some (depositNotice tenMillionth.value) ∧
      jsString (depositNotice tenMillionth.value).payload.amount = jsString "1e-7" ∧
      ¬SameAmount (depositOf "0.0000001").amount
        (depositNotice tenMillionth.value).payload.amount := by
  have hdenotes := Amount.denotes tenMillionth_text
  have hsmall : tenMillionth.value < 1 / 10 ^ 6 := by
    norm_num [tenMillionth, Amount.value, Decimal.value, wholeValue, fractionValue, Nat.ofDigits]
  refine ⟨(validAmount_iff _).mpr ⟨_, tenMillionth_text⟩,
    decimalJs_documented.ofString_exact _ _ hdenotes, depositRow_stored _ _,
    depositNotice_added _, ?_, fun h ↦ ?_⟩
  · have hprinted := decimalJs_documented.toString_exponential tenMillionth.numeral
      ⟨tenMillionth.noLeadingZero, by decide⟩ tenMillionth.positive hsmall
    refine hprinted.trans ?_
    decide
  · exact not_le.mpr hsmall ((sameAmount_toString_iff decimalJs_documented tenMillionth_text).mp h)

end TransactionLedger
