import Mathlib.Algebra.Order.Field.Rat
import Mathlib.Data.Nat.Digits.Defs
import Mathlib.Tactic.Linarith
import Mathlib.Tactic.Positivity
import TransactionLedger.Data.Delimited

/-!
# Decimals

Decimal numerals as digit lists: a whole part and a fraction.  Two numerals without
leading zeros denote one number exactly when they differ in trailing zeros of the
fraction.
-/

namespace Data

abbrev Digit : Type := Fin 10

/-- The literals of `Digit` are formed with this instance. -/
instance neZero_ten : NeZero 10 := ⟨by omega⟩

/-- The number that a list of digits spells, the most significant digit first. -/
def wholeValue (digits : List Digit) : ℕ := Nat.ofDigits 10 (digits.reverse.map Fin.val)

/-- The number that the digits behind a decimal point spell. -/
def fractionValue : List Digit → ℚ
  | [] => 0
  | d :: digits => (d.val + fractionValue digits) / 10

/-! ## Whole parts -/

theorem wholeValue_nil : wholeValue [] = 0 := rfl

theorem val_lt_of_mem {digits : List Digit} {n : ℕ} (h : n ∈ digits.map Fin.val) : n < 10 := by
  obtain ⟨d, -, rfl⟩ := List.mem_map.mp h
  exact d.isLt

theorem wholeValue_lt (digits : List Digit) : wholeValue digits < 10 ^ digits.length := by
  have h : ∀ n ∈ digits.reverse.map Fin.val, n < 10 := fun n ↦ val_lt_of_mem
  have hlt := Nat.ofDigits_lt_base_pow_length (by omega) h
  rwa [List.length_map, List.length_reverse] at hlt

theorem wholeValue_cons (d : Digit) (digits : List Digit) :
    wholeValue (d :: digits) = 10 ^ digits.length * d.val + wholeValue digits := by
  rw [wholeValue, wholeValue, List.reverse_cons, List.map_append, Nat.ofDigits_append,
    List.length_map, List.length_reverse, List.map_singleton, Nat.ofDigits_singleton, add_comm]

theorem wholeValue_eq_zero_iff (digits : List Digit) :
    wholeValue digits = 0 ↔ digits = List.replicate digits.length 0 := by
  induction digits with
  | nil => exact ⟨fun _ ↦ rfl, fun _ ↦ rfl⟩
  | cons d digits ih =>
      rw [wholeValue_cons, Nat.add_eq_zero_iff, ih, List.length_cons, List.replicate_succ,
        List.cons.injEq, Nat.mul_eq_zero]
      constructor
      · rintro ⟨hd | hd, hrest⟩
        · exact absurd hd (by positivity)
        · exact ⟨Fin.ext hd, hrest⟩
      · rintro ⟨rfl, hrest⟩
        exact ⟨Or.inr rfl, hrest⟩

/-- A whole part without leading zeros; zero itself is one digit. -/
def NoLeadingZero (digits : List Digit) : Prop :=
  digits = [0] ∨ digits ≠ [] ∧ digits.head? ≠ some 0

theorem NoLeadingZero.ne_nil {digits : List Digit} (h : NoLeadingZero digits) :
    digits ≠ [] := by
  rcases h with rfl | ⟨hne, -⟩
  · exact List.cons_ne_nil 0 []
  · exact hne

theorem wholeValue_pos {digits : List Digit} (hne : digits ≠ [])
    (hhead : digits.head? ≠ some 0) : 0 < wholeValue digits := by
  obtain ⟨d, rest, rfl⟩ := List.exists_cons_of_ne_nil hne
  have hd : d ≠ 0 := fun h ↦ hhead (by rw [h]; rfl)
  have hval : 0 < d.val := Nat.pos_of_ne_zero fun h ↦ hd (Fin.ext h)
  rw [wholeValue_cons]
  positivity

theorem digits_wholeValue {digits : List Digit} (hhead : digits.head? ≠ some 0) :
    Nat.digits 10 (wholeValue digits) = digits.reverse.map Fin.val := by
  apply Nat.digits_ofDigits 10 (by omega)
  · exact fun n ↦ val_lt_of_mem
  · intro hne hzero
    apply hhead
    rw [List.getLast_map, List.getLast_reverse] at hzero
    rw [List.head?_eq_some_head (by simpa using hne)]
    exact congrArg some (Fin.ext hzero)

/-- Whole parts without leading zeros are determined by their number. -/
theorem wholeValue_injective {digits digits' : List Digit} (h : NoLeadingZero digits)
    (h' : NoLeadingZero digits') (heq : wholeValue digits = wholeValue digits') :
    digits = digits' := by
  have hzero : wholeValue [0] = 0 := rfl
  rcases h with rfl | ⟨hne, hhead⟩
  · rcases h' with rfl | ⟨hne', hhead'⟩
    · rfl
    · have hpos := wholeValue_pos hne' hhead'
      omega
  · rcases h' with rfl | ⟨hne', hhead'⟩
    · have hpos := wholeValue_pos hne hhead
      omega
    · have hmap : digits.reverse.map Fin.val = digits'.reverse.map Fin.val := by
        rw [← digits_wholeValue hhead, ← digits_wholeValue hhead', heq]
      have hreverse := List.map_injective_iff.mpr Fin.val_injective hmap
      exact List.reverse_injective hreverse

/-! ## Fractions -/

theorem fractionValue_nonneg (digits : List Digit) : 0 ≤ fractionValue digits := by
  induction digits with
  | nil => exact le_refl 0
  | cons d digits ih =>
      rw [fractionValue]
      positivity

theorem fractionValue_lt_one (digits : List Digit) : fractionValue digits < 1 := by
  induction digits with
  | nil => exact zero_lt_one
  | cons d digits ih =>
      have hd : (d.val : ℚ) ≤ 9 := by
        have hlt := d.isLt
        exact_mod_cast (by omega : d.val ≤ 9)
      rw [fractionValue, div_lt_one (by norm_num)]
      linarith

/-- The digits of a fraction, read as a whole number. -/
theorem fractionValue_mul_pow (digits : List Digit) :
    fractionValue digits * 10 ^ digits.length = wholeValue digits := by
  induction digits with
  | nil => simp [fractionValue, wholeValue_nil]
  | cons d digits ih =>
      rw [fractionValue, wholeValue_cons, List.length_cons, pow_succ]
      push_cast
      rw [← ih]
      ring

theorem fractionValue_replicate_zero (n : ℕ) : fractionValue (List.replicate n 0) = 0 := by
  induction n with
  | zero => rfl
  | succ n ih => simp [List.replicate_succ, fractionValue, ih]

theorem fractionValue_append_zeros (digits : List Digit) (n : ℕ) :
    fractionValue (digits ++ List.replicate n 0) = fractionValue digits := by
  induction digits with
  | nil => exact fractionValue_replicate_zero n
  | cons d digits ih => rw [List.cons_append, fractionValue, fractionValue, ih]

theorem eq_zeros_of_fractionValue {digits : List Digit} (h : fractionValue digits = 0) :
    digits = List.replicate digits.length 0 := by
  induction digits with
  | nil => rfl
  | cons d digits ih =>
      have hrest := fractionValue_nonneg digits
      have hd : (0 : ℚ) ≤ d.val := Nat.cast_nonneg _
      rw [fractionValue] at h
      have hd0 : (d.val : ℚ) = 0 := by linarith
      have hdigit : d = 0 := Fin.ext (Nat.cast_eq_zero.mp hd0)
      have hzeros := ih (by linarith)
      rw [List.length_cons, List.replicate_succ, ← hzeros, hdigit]

theorem fractionValue_eq_zero_iff (digits : List Digit) :
    fractionValue digits = 0 ↔ digits = List.replicate digits.length 0 := by
  constructor
  · exact eq_zeros_of_fractionValue
  · intro h
    rw [h, fractionValue_replicate_zero]

/-- The fractions are equal up to zeros at the end. -/
def SameUpToZeros (digits digits' : List Digit) : Prop :=
  ∃ n n', digits ++ List.replicate n 0 = digits' ++ List.replicate n' 0

theorem fractionValue_eq_iff (digits digits' : List Digit) :
    fractionValue digits = fractionValue digits' ↔ SameUpToZeros digits digits' := by
  constructor
  · intro h
    induction digits generalizing digits' with
    | nil =>
        have hzeros := eq_zeros_of_fractionValue h.symm
        exact ⟨digits'.length, 0, by simpa using hzeros.symm⟩
    | cons d digits ih =>
        cases digits' with
        | nil =>
            have hzeros := eq_zeros_of_fractionValue h
            exact ⟨0, (d :: digits).length, by simpa using hzeros⟩
        | cons d' digits' =>
            have hlow := fractionValue_nonneg digits
            have hlow' := fractionValue_nonneg digits'
            have hhigh := fractionValue_lt_one digits
            have hhigh' := fractionValue_lt_one digits'
            rw [fractionValue, fractionValue] at h
            have hle : (d.val : ℚ) < (d'.val + 1 : ℕ) := by push_cast; linarith
            have hge : (d'.val : ℚ) < (d.val + 1 : ℕ) := by push_cast; linarith
            rw [Nat.cast_lt] at hle hge
            obtain rfl : d = d' := Fin.ext (by omega)
            obtain ⟨n, n', hsame⟩ := ih digits' (by linarith)
            exact ⟨n, n', by rw [List.cons_append, List.cons_append, hsame]⟩
  · rintro ⟨n, n', h⟩
    rw [← fractionValue_append_zeros digits n, h, fractionValue_append_zeros]

/-! ## Numerals -/

structure Decimal where
  whole : List Digit
  fraction : List Digit
  deriving DecidableEq

namespace Decimal

def value (d : Decimal) : ℚ := wholeValue d.whole + fractionValue d.fraction

/-- How a numeral is written; the point is left out before an empty fraction. -/
def text {σ : Type} (spell : Digit → σ) (point : σ) (d : Decimal) : List σ :=
  d.whole.map spell ++ if d.fraction = [] then [] else point :: d.fraction.map spell

theorem value_nonneg (d : Decimal) : 0 ≤ d.value := by
  have hfraction := fractionValue_nonneg d.fraction
  unfold value
  positivity

theorem value_lt (d : Decimal) : d.value < 10 ^ d.whole.length := by
  have hwhole : (wholeValue d.whole + 1 : ℚ) ≤ 10 ^ d.whole.length := by
    exact_mod_cast wholeValue_lt d.whole
  have hfraction := fractionValue_lt_one d.fraction
  unfold value
  linarith

/-- A numeral with at most `scale` digits behind the point is a whole number of units
of the last place. -/
theorem value_mul_pow {d : Decimal} {scale : ℕ} (h : d.fraction.length ≤ scale) :
    ∃ n : ℕ, d.value * 10 ^ scale = n := by
  obtain ⟨k, rfl⟩ := Nat.exists_eq_add_of_le h
  refine ⟨wholeValue d.whole * 10 ^ (d.fraction.length + k) +
    wholeValue d.fraction * 10 ^ k, ?_⟩
  push_cast
  rw [value, add_mul, ← fractionValue_mul_pow d.fraction, pow_add]
  ring

theorem value_eq_zero_iff (d : Decimal) :
    d.value = 0 ↔ d.whole = List.replicate d.whole.length 0 ∧
      d.fraction = List.replicate d.fraction.length 0 := by
  have hfraction := fractionValue_nonneg d.fraction
  have hwhole : (0 : ℚ) ≤ wholeValue d.whole := Nat.cast_nonneg _
  rw [← wholeValue_eq_zero_iff, ← fractionValue_eq_zero_iff, value]
  constructor
  · intro h
    have hzero : (wholeValue d.whole : ℚ) = 0 := by linarith
    exact ⟨Nat.cast_eq_zero.mp hzero, by linarith⟩
  · rintro ⟨h, hzero⟩
    rw [h, hzero, Nat.cast_zero, add_zero]

/-- The numerals differ in zeros at the end of the fraction only. -/
def SameNumeral (d e : Decimal) : Prop :=
  d.whole = e.whole ∧ SameUpToZeros d.fraction e.fraction

theorem wholeValue_eq_of_value_eq {d e : Decimal} (h : d.value = e.value) :
    wholeValue d.whole = wholeValue e.whole := by
  have hlow := fractionValue_nonneg d.fraction
  have hlow' := fractionValue_nonneg e.fraction
  have hhigh := fractionValue_lt_one d.fraction
  have hhigh' := fractionValue_lt_one e.fraction
  unfold value at h
  have hle : (wholeValue d.whole : ℚ) < (wholeValue e.whole + 1 : ℕ) := by push_cast; linarith
  have hge : (wholeValue e.whole : ℚ) < (wholeValue d.whole + 1 : ℕ) := by push_cast; linarith
  rw [Nat.cast_lt] at hle hge
  omega

theorem value_eq_iff {d e : Decimal} (hd : NoLeadingZero d.whole) (he : NoLeadingZero e.whole) :
    d.value = e.value ↔ d.SameNumeral e := by
  constructor
  · intro h
    have hwhole := wholeValue_eq_of_value_eq h
    refine ⟨wholeValue_injective hd he hwhole, ?_⟩
    rw [← fractionValue_eq_iff]
    unfold value at h
    rw [hwhole] at h
    linarith
  · rintro ⟨hwhole, hfraction⟩
    rw [value, value, hwhole, (fractionValue_eq_iff _ _).mpr hfraction]

theorem text_injective {σ : Type} {spell : Digit → σ} {point : σ}
    (hspell : Function.Injective spell) (hpoint : ∀ d, spell d ≠ point) :
    Function.Injective (text spell point) := by
  intro d e h
  have hletters : ∀ digits : List Digit, ∀ c ∈ digits.map spell, c ≠ point := by
    intro digits c hc
    obtain ⟨digit, -, rfl⟩ := List.mem_map.mp hc
    exact hpoint digit
  have hends : ∀ fraction : List Digit,
      EndsAt (· = point) (if fraction = [] then [] else point :: fraction.map spell) := by
    intro fraction
    split
    · exact endsAt_nil _
    · exact endsAt_cons (by rfl) _
  obtain ⟨hwhole, hfraction⟩ := delimited_of_alphabet (fun c (hc : c ≠ point) ↦ hc)
    (hletters d.whole) (hletters e.whole) _ _ (hends d.fraction) (hends e.fraction) h
  have hmap := List.map_injective_iff.mpr hspell
  have hdigits : d.fraction = e.fraction := by
    split at hfraction
    · next hd =>
        split at hfraction
        · next he => rw [hd, he]
        · cases hfraction
    · split at hfraction
      · cases hfraction
      · exact hmap (List.cons.inj hfraction).2
  obtain ⟨whole, fraction⟩ := d
  obtain rfl := hmap hwhole
  obtain rfl := hdigits
  rfl

end Decimal

end Data
