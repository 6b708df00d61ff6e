import Mathlib.Data.Rat.Floor
import TransactionLedger.Data.Decimal
import TransactionLedger.Data.JsonValue
import TransactionLedger.Data.Pattern

/-!
# Amounts

The amount validator of `src/common/validators/is-positive-decimal-string.validator.ts`
and the `DECIMAL(20,8)` column of `prisma/schema.prisma`.
-/

namespace TransactionLedger

open Data Data.Pattern RegularExpression

/-! ## The validator -/

/-- The class `\d`. -/
def digitUnits : List CodeUnit :=
  ['0', '1', '2', '3', '4', '5', '6', '7', '8', '9'].map unit

namespace IsPositiveDecimalString

/-- `/^\d+(\.\d{1,8})?$/`. -/
def format : RegularExpression CodeUnit :=
  some1 (oneOf digitUnits) * optional (char (unit '.') * oneTo (oneOf digitUnits) 8)

/-- `/^0\d/`. -/
def leadingZero : RegularExpression CodeUnit := char (unit '0') * oneOf digitUnits

/-- `/^0+(\.0+)?$/`. -/
def zero : RegularExpression CodeUnit :=
  some1 (oneOf [unit '0']) * optional (char (unit '.') * some1 (oneOf [unit '0']))

/-- `validate` on a string. -/
def validateString (value : JsString) : Bool :=
  if !format.rmatch value then false
  else if startsWith leadingZero value then false
  else if zero.rmatch value then false
  else
    let intPart := (value.splitOn (unit '.')).headD []
    if 12 < intPart.length then false else true

/-- `none` is `undefined`. -/
def validate {ν : Type} (value : Option (JsonValue ν)) : Bool :=
  match value with
  | some (.str s) => validateString s
  | _ => false

end IsPositiveDecimalString

/-! ## Amounts as numerals -/

def digitUnit (d : Digit) : CodeUnit := codeUnit (48 + d.val)

theorem digitUnit_injective : Function.Injective digitUnit := by decide

theorem digitUnit_ne_point (d : Digit) : digitUnit d ≠ unit '.' := by
  revert d
  decide

theorem digitUnits_eq_map : digitUnits = (List.finRange 10).map digitUnit := by decide

theorem mem_digitUnits (c : CodeUnit) : c ∈ digitUnits ↔ ∃ d, digitUnit d = c := by
  rw [digitUnits_eq_map, List.mem_map]
  simp

theorem forall_mem_digitUnits (word : JsString) :
    (∀ c ∈ word, c ∈ digitUnits) ↔ ∃ digits : List Digit, word = digits.map digitUnit := by
  constructor
  · intro h
    induction word with
    | nil => exact ⟨[], rfl⟩
    | cons c word ih =>
        obtain ⟨hc, hword⟩ := List.forall_mem_cons.mp h
        obtain ⟨d, rfl⟩ := (mem_digitUnits c).mp hc
        obtain ⟨digits, rfl⟩ := ih hword
        exact ⟨d :: digits, rfl⟩
  · rintro ⟨digits, rfl⟩ c hc
    obtain ⟨d, -, rfl⟩ := List.mem_map.mp hc
    exact (mem_digitUnits _).mpr ⟨d, rfl⟩

/-- How a decimal numeral is written in JavaScript. -/
abbrev decimalText (d : Decimal) : JsString := d.text digitUnit (unit '.')

theorem decimalText_injective : Function.Injective decimalText :=
  Decimal.text_injective digitUnit_injective digitUnit_ne_point

theorem point_not_mem (digits : List Digit) : unit '.' ∉ digits.map digitUnit := by
  intro hmem
  obtain ⟨digit, -, hdigit⟩ := List.mem_map.mp hmem
  exact digitUnit_ne_point digit hdigit

/-- A numeral of the documented form: a whole part of 1 to 12 digits that is `0` or has no
leading zero, at most 8 digits behind the point, and a number greater than zero. -/
structure Amount where
  numeral : Decimal
  noLeadingZero : NoLeadingZero numeral.whole
  whole_length : numeral.whole.length ≤ 12
  fraction_length : numeral.fraction.length ≤ 8
  positive : 0 < numeral.value

namespace Amount

def text (a : Amount) : JsString := decimalText a.numeral

def value (a : Amount) : ℚ := a.numeral.value

theorem text_injective : Function.Injective text := by
  rintro ⟨d, _, _, _, _⟩ ⟨e, _, _, _, _⟩ h
  obtain rfl := decimalText_injective h
  rfl

end Amount

namespace IsPositiveDecimalString

/-! ## What the patterns match -/

theorem format_rmatch_iff (s : JsString) :
    format.rmatch s = true ↔
      ∃ d : Decimal, d.whole ≠ [] ∧ d.fraction.length ≤ 8 ∧ decimalText d = s := by
  rw [format, mul_rmatch_iff]
  constructor
  · rintro ⟨whole, rest, rfl, hwhole, hrest⟩
    obtain ⟨hne, hdigits⟩ := (some1_oneOf_rmatch_iff digitUnits whole).mp hwhole
    obtain ⟨whole, rfl⟩ := (forall_mem_digitUnits whole).mp hdigits
    rw [Ne, List.map_eq_nil_iff] at hne
    rcases (optional_rmatch_iff _ rest).mp hrest with rfl | hpoint
    · exact ⟨⟨whole, []⟩, hne, Nat.zero_le 8, rfl⟩
    · obtain ⟨fraction, rfl, hfraction⟩ := (char_mul_rmatch_iff _ _ rest).mp hpoint
      obtain ⟨hfne, hlength, hdigits⟩ :=
        (oneTo_oneOf_rmatch_iff digitUnits fraction (by omega)).mp hfraction
      obtain ⟨fraction, rfl⟩ := (forall_mem_digitUnits fraction).mp hdigits
      rw [Ne, List.map_eq_nil_iff] at hfne
      rw [List.length_map] at hlength
      exact ⟨⟨whole, fraction⟩, hne, hlength, by simp only [Decimal.text, if_neg hfne]⟩
  · rintro ⟨d, hne, hlength, rfl⟩
    refine ⟨_, _, rfl, ?_, ?_⟩
    · apply (some1_oneOf_rmatch_iff digitUnits _).mpr
      exact ⟨by simpa using hne, (forall_mem_digitUnits _).mpr ⟨d.whole, rfl⟩⟩
    · apply (optional_rmatch_iff _ _).mpr
      split
      · exact Or.inl rfl
      · next hfne =>
          refine Or.inr ((char_mul_rmatch_iff _ _ _).mpr ⟨_, rfl, ?_⟩)
          apply (oneTo_oneOf_rmatch_iff digitUnits _ (by omega)).mpr
          refine ⟨by simpa using hfne, ?_, (forall_mem_digitUnits _).mpr ⟨d.fraction, rfl⟩⟩
          rw [List.length_map]
          exact hlength

theorem leadingZero_startsWith_iff {d : Decimal} (hne : d.whole ≠ []) :
    startsWith leadingZero (decimalText d) = true ↔ ¬NoLeadingZero d.whole := by
  obtain ⟨first, whole, hwhole⟩ := List.exists_cons_of_ne_nil hne
  have htext : decimalText d = digitUnit first :: (whole.map digitUnit ++
      if d.fraction = [] then [] else unit '.' :: d.fraction.map digitUnit) := by
    rw [decimalText, Decimal.text, hwhole, List.map_cons, List.cons_append]
  rw [startsWith_iff, htext, hwhole]
  constructor
  · rintro ⟨start, rest, heq, hstart⟩ hno
    obtain ⟨second, rfl, hsecond⟩ := (char_mul_rmatch_iff _ _ start).mp hstart
    obtain ⟨c, hc, rfl⟩ := (oneOf_rmatch_iff digitUnits second).mp hsecond
    obtain ⟨hfirst, hrest⟩ := List.cons.inj heq
    obtain rfl : first = 0 := digitUnit_injective hfirst
    rcases hno with hzero | ⟨-, hhead⟩
    · obtain rfl := (List.cons.inj hzero).2
      obtain ⟨digit, rfl⟩ := (mem_digitUnits c).mp hc
      split at hrest
      · cases hrest
      · exact digitUnit_ne_point digit (List.cons.inj hrest).1.symm
    · exact hhead rfl
  · intro hno
    have hfirst : first = 0 := by
      by_contra hfirst
      exact hno (Or.inr ⟨List.cons_ne_nil _ _, fun h ↦ hfirst (Option.some.inj h)⟩)
    subst hfirst
    cases whole with
    | nil => exact absurd (Or.inl rfl) hno
    | cons second whole =>
        refine ⟨[digitUnit 0, digitUnit second], _, rfl, ?_⟩
        apply (char_mul_rmatch_iff _ _ _).mpr
        refine ⟨[digitUnit second], rfl, ?_⟩
        exact (oneOf_rmatch_iff _ _).mpr ⟨_, (mem_digitUnits _).mpr ⟨second, rfl⟩, rfl⟩

theorem forall_mem_zero (digits : List Digit) :
    (∀ c ∈ digits.map digitUnit, c ∈ [unit '0']) ↔
      digits = List.replicate digits.length 0 := by
  rw [List.eq_replicate_iff]
  constructor
  · intro h
    refine ⟨rfl, fun d hd ↦ digitUnit_injective ?_⟩
    exact List.mem_singleton.mp (h (digitUnit d) (List.mem_map_of_mem hd))
  · rintro ⟨-, h⟩ c hc
    obtain ⟨d, hd, rfl⟩ := List.mem_map.mp hc
    rw [h d hd]
    exact List.mem_singleton.mpr rfl

/-- The zero pattern finds the numerals that are made of zeros. -/
theorem zero_rmatch_iff {d : Decimal} (hne : d.whole ≠ []) :
    zero.rmatch (decimalText d) = true ↔ d.value = 0 := by
  rw [Decimal.value_eq_zero_iff, zero, mul_rmatch_iff]
  constructor
  · rintro ⟨whole, rest, heq, hwhole, hrest⟩
    obtain ⟨-, hzeros⟩ := (some1_oneOf_rmatch_iff _ whole).mp hwhole
    have hdigits : ∀ c ∈ [unit '0'], c ∈ digitUnits := by
      intro c hc
      rw [List.mem_singleton.mp hc]
      decide
    obtain ⟨whole, rfl⟩ :=
      (forall_mem_digitUnits whole).mp fun c hc ↦ hdigits c (hzeros c hc)
    have hwhole := (forall_mem_zero whole).mp hzeros
    rcases (optional_rmatch_iff _ rest).mp hrest with rfl | hpoint
    · have hd : d = ⟨whole, []⟩ := decimalText_injective heq
      rw [hd]
      exact ⟨hwhole, rfl⟩
    · obtain ⟨fraction, rfl, hfraction⟩ := (char_mul_rmatch_iff _ _ rest).mp hpoint
      obtain ⟨hfne, hzeros⟩ := (some1_oneOf_rmatch_iff _ fraction).mp hfraction
      obtain ⟨fraction, rfl⟩ :=
        (forall_mem_digitUnits fraction).mp fun c hc ↦ hdigits c (hzeros c hc)
      rw [Ne, List.map_eq_nil_iff] at hfne
      have hd : d = ⟨whole, fraction⟩ := by
        apply decimalText_injective
        refine heq.trans ?_
        simp only [Decimal.text, if_neg hfne]
      rw [hd]
      exact ⟨hwhole, (forall_mem_zero fraction).mp hzeros⟩
  · rintro ⟨hwhole, hfraction⟩
    refine ⟨_, _, rfl, ?_, ?_⟩
    · apply (some1_oneOf_rmatch_iff _ _).mpr
      exact ⟨by simpa using hne, (forall_mem_zero d.whole).mpr hwhole⟩
    · apply (optional_rmatch_iff _ _).mpr
      split
      · exact Or.inl rfl
      · next hfne =>
          refine Or.inr ((char_mul_rmatch_iff _ _ _).mpr ⟨_, rfl, ?_⟩)
          apply (some1_oneOf_rmatch_iff _ _).mpr
          exact ⟨by simpa using hfne, (forall_mem_zero d.fraction).mpr hfraction⟩

/-- What stands before the point. -/
theorem intPart_decimalText (d : Decimal) :
    ((decimalText d).splitOn (unit '.')).headD [] = d.whole.map digitUnit := by
  have hpoint := point_not_mem d.whole
  simp only [decimalText, Decimal.text]
  split
  · rw [List.append_nil, List.splitOn_eq_singleton hpoint]
    rfl
  · rw [List.splitOn_append_cons_self_of_not_mem hpoint]
    rfl

theorem validateString_iff (s : JsString) :
    validateString s = true ↔ ∃ a : Amount, a.text = s := by
  constructor
  · intro h
    simp only [validateString] at h
    split at h
    · cases h
    · next hformat =>
        rw [Bool.not_eq_true', Bool.not_eq_false] at hformat
        obtain ⟨d, hne, hlength, rfl⟩ := (format_rmatch_iff s).mp hformat
        split at h
        · cases h
        · next hleading =>
            rw [leadingZero_startsWith_iff hne, not_not] at hleading
            split at h
            · cases h
            · next hzero =>
                rw [zero_rmatch_iff hne] at hzero
                split at h
                · cases h
                · next hint =>
                    rw [intPart_decimalText, List.length_map] at hint
                    exact ⟨⟨d, hleading, by omega, hlength,
                      lt_of_le_of_ne d.value_nonneg (Ne.symm hzero)⟩, rfl⟩
  · rintro ⟨⟨d, hleading, hwhole, hfraction, hpositive⟩, rfl⟩
    have hne : d.whole ≠ [] := hleading.ne_nil
    have hformat : format.rmatch (decimalText d) = true :=
      (format_rmatch_iff _).mpr ⟨d, hne, hfraction, rfl⟩
    have hleading' : ¬startsWith leadingZero (decimalText d) = true := by
      rw [leadingZero_startsWith_iff hne, not_not]
      exact hleading
    have hzero : ¬zero.rmatch (decimalText d) = true := by
      rw [zero_rmatch_iff hne]
      exact hpositive.ne'
    have hint : ¬12 < (((decimalText d).splitOn (unit '.')).headD []).length := by
      rw [intPart_decimalText, List.length_map]
      omega
    change validateString (decimalText d) = true
    rw [validateString, hformat, Bool.not_true, if_neg Bool.false_ne_true, if_neg hleading',
      if_neg hzero]
    exact if_neg hint

end IsPositiveDecimalString

/-! ## The column -/

/-- The nearest integer; ties go away from zero. -/
def roundHalfAway (q : ℚ) : ℤ := if 0 ≤ q then ⌊q + 1 / 2⌋ else -⌊-q + 1 / 2⌋

/-- What a `DECIMAL(precision, scale)` column stores: the value rounded to `scale` digits,
or an overflow error. -/
def decimalColumn (precision scale : ℕ) (q : ℚ) : Option ℚ :=
  let units := roundHalfAway (q * 10 ^ scale)
  if units.natAbs < 10 ^ precision then some (units / 10 ^ scale) else none

theorem roundHalfAway_natCast (n : ℕ) : roundHalfAway n = n := by
  rw [roundHalfAway, if_pos (Nat.cast_nonneg n), Int.floor_natCast_add]
  norm_num

/-- A whole number of units within the precision is stored as it is. -/
theorem decimalColumn_eq_some {precision scale n : ℕ} {q : ℚ} (hunits : q * 10 ^ scale = n)
    (hlt : n < 10 ^ precision) : decimalColumn precision scale q = some q := by
  have hpow : (10 : ℚ) ^ scale ≠ 0 := by positivity
  simp only [decimalColumn, hunits, roundHalfAway_natCast, Int.natAbs_natCast, if_pos hlt]
  rw [Int.cast_natCast, ← hunits, mul_div_cancel_right₀ q hpow]

namespace Amount

theorem value_units (a : Amount) :
    ∃ n : ℕ, a.value * 10 ^ 8 = n ∧ 1 ≤ n ∧ n ≤ 10 ^ 20 - 1 := by
  obtain ⟨n, hn⟩ := Decimal.value_mul_pow a.fraction_length
  have hpositive := a.positive
  have hlow : (0 : ℚ) < n := by
    rw [← hn]
    positivity
  have hwhole : (10 : ℚ) ^ a.numeral.whole.length ≤ 10 ^ 12 :=
    pow_le_pow_right₀ (by norm_num) a.whole_length
  have hhigh : (n : ℚ) < (10 ^ 20 : ℕ) := by
    rw [← hn]
    push_cast
    have hlt := a.numeral.value_lt
    linarith
  rw [Nat.cast_pos] at hlow
  rw [Nat.cast_lt] at hhigh
  exact ⟨n, hn, hlow, by omega⟩

theorem decimalColumn_value (a : Amount) : decimalColumn 20 8 a.value = some a.value := by
  obtain ⟨n, hn, -, hhigh⟩ := a.value_units
  exact decimalColumn_eq_some hn (by omega)

end Amount

/-- The validator accepts exactly the numerals of the documented form; the column stores
each of them as it is, and two of them denote one number only if they differ in zeros at
the end of the fraction. -/
theorem validate_exact {ν : Type} :
    (∀ s : JsString,
      IsPositiveDecimalString.validate (some (.str s) : Option (JsonValue ν)) = true ↔
        ∃! a : Amount, a.text = s) ∧
      (∀ a : Amount, ∃ n : ℕ, a.value * 10 ^ 8 = n ∧ 1 ≤ n ∧ n ≤ 10 ^ 20 - 1 ∧
        decimalColumn 20 8 a.value = some a.value) ∧
      ∀ a b : Amount, a.value = b.value ↔ a.numeral.SameNumeral b.numeral := by
  refine ⟨fun s ↦ ?_, fun a ↦ ?_, fun a b ↦ ?_⟩
  · refine (IsPositiveDecimalString.validateString_iff s).trans ⟨?_, ExistsUnique.exists⟩
    rintro ⟨a, rfl⟩
    exact ⟨a, rfl, fun b h ↦ Amount.text_injective h⟩
  · obtain ⟨n, hn, hlow, hhigh⟩ := a.value_units
    exact ⟨n, hn, hlow, hhigh, a.decimalColumn_value⟩
  · exact Decimal.value_eq_iff a.noLeadingZero b.noLeadingZero

end TransactionLedger
