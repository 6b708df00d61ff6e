import Mathlib.Data.List.DropRight
import Mathlib.Data.Nat.Digits.Lemmas
import Mathlib.Data.Nat.Prime.Basic
import Mathlib.Data.Rat.Floor
import Mathlib.Tactic.NormNum.Prime
import TransactionLedger.Data.Decimal

/-!
# Printing decimals

The shortest numeral of a number and its two notations.  Every number that has a finite
expansion has exactly one shortest numeral, which long division finds.
-/

namespace Data

/-! ## Whole numbers -/

def natDigits (n : ℕ) : List Digit :=
  if n = 0 then [0] else (Nat.digits 10 n).reverse.map (Fin.ofNat 10)

theorem wholeValue_natDigits (n : ℕ) : wholeValue (natDigits n) = n := by
  rw [natDigits]
  split
  · next h => rw [h]; rfl
  · have hdigits : (Nat.digits 10 n).map (Fin.val ∘ Fin.ofNat 10) = Nat.digits 10 n := by
      refine (List.map_congr_left fun d hd ↦ ?_).trans (List.map_id _)
      exact Nat.mod_eq_of_lt (Nat.digits_lt_base (by omega) hd)
    rw [wholeValue, ← List.map_reverse, List.reverse_reverse, List.map_map, hdigits,
      Nat.ofDigits_digits]

theorem noLeadingZero_natDigits (n : ℕ) : NoLeadingZero (natDigits n) := by
  rw [natDigits]
  split
  · exact Or.inl rfl
  · next h =>
      have hne : Nat.digits 10 n ≠ [] := Nat.digits_ne_nil_iff_ne_zero.mpr h
      refine Or.inr ⟨by simpa using hne, ?_⟩
      rw [List.head?_map, List.head?_reverse, List.getLast?_eq_some_getLast hne]
      intro hzero
      have hlast := Nat.getLast_digit_ne_zero 10 h
      have hlt := Nat.digits_lt_base (by omega) (List.getLast_mem hne)
      have hval : (Nat.digits 10 n).getLast hne % 10 = 0 :=
        congrArg Fin.val (Option.some.inj hzero)
      rw [Nat.mod_eq_of_lt hlt] at hval
      exact hlast hval

theorem natDigits_wholeValue {digits : List Digit} (h : NoLeadingZero digits) :
    natDigits (wholeValue digits) = digits :=
  wholeValue_injective (noLeadingZero_natDigits _) h (wholeValue_natDigits _)

/-! ## Shortest numerals -/

namespace Decimal

/-- No digit can be left out. -/
structure Shortest (d : Decimal) : Prop where
  noLeadingZero : NoLeadingZero d.whole
  noTrailingZero : d.fraction.getLast? ≠ some 0

/-- The numeral without the zeros at the end of the fraction. -/
def trim (d : Decimal) : Decimal where
  whole := d.whole
  fraction := d.fraction.rdropWhile (· = 0)

theorem trim_shortest {d : Decimal} (h : NoLeadingZero d.whole) : d.trim.Shortest where
  noLeadingZero := h
  noTrailingZero := by
    intro hlast
    have hne : d.fraction.rdropWhile (· = 0) ≠ [] := by
      intro hnil
      rw [trim, hnil] at hlast
      cases hlast
    rw [trim, List.getLast?_eq_some_getLast hne] at hlast
    have hnot := List.rdropWhile_last_not _ d.fraction hne
    exact hnot (decide_eq_true (Option.some.inj hlast))

theorem trim_sameNumeral (d : Decimal) : d.SameNumeral d.trim := by
  refine ⟨rfl, 0, (d.fraction.rtakeWhile (· = 0)).length, ?_⟩
  have hzeros : d.fraction.rtakeWhile (· = 0) =
      List.replicate (d.fraction.rtakeWhile (· = 0)).length 0 := by
    apply List.eq_replicate_of_mem
    intro c hc
    simpa using List.mem_rtakeWhile_imp hc
  rw [List.replicate_zero, List.append_nil, ← hzeros]
  exact (List.rdropWhile_append_rtakeWhile ..).symm

theorem trim_value (d : Decimal) : d.trim.value = d.value := by
  obtain ⟨hwhole, hfraction⟩ := d.trim_sameNumeral
  rw [value, value, ← hwhole, (fractionValue_eq_iff _ _).mpr hfraction]

theorem trim_length (d : Decimal) : d.trim.fraction.length ≤ d.fraction.length :=
  (List.rdropWhile_prefix _ d.fraction).length_le

end Decimal

/-! ## Long division -/

/-- The first digits of a number below one, up to the last one that is not zero. -/
def fractionDigits : ℕ → ℚ → List Digit
  | 0, _ => []
  | n + 1, r =>
      if r = 0 then []
      else Fin.ofNat 10 ⌊10 * r⌋.toNat :: fractionDigits n (10 * r - ⌊10 * r⌋)

theorem floor_ten_mul_fractionValue (d : Digit) (digits : List Digit) :
    ⌊10 * fractionValue (d :: digits)⌋ = d.val := by
  have hlow := fractionValue_nonneg digits
  have hhigh := fractionValue_lt_one digits
  rw [fractionValue, mul_div_cancel₀ _ (by norm_num), Int.floor_eq_iff, Int.cast_natCast]
  exact ⟨by linarith, by linarith⟩

theorem fractionDigits_fractionValue {digits : List Digit} (h : digits.getLast? ≠ some 0)
    {n : ℕ} (hlength : digits.length ≤ n) :
    fractionDigits n (fractionValue digits) = digits := by
  induction digits generalizing n with
  | nil =>
      cases n with
      | zero => rfl
      | succ n => exact if_pos rfl
  | cons d digits ih =>
      obtain ⟨n, rfl⟩ : ∃ m, n = m + 1 := by
        rw [List.length_cons] at hlength
        exact ⟨n - 1, by omega⟩
      have hne : fractionValue (d :: digits) ≠ 0 := by
        intro hzero
        apply h
        rw [eq_zeros_of_fractionValue hzero, List.getLast?_replicate]
        exact if_neg (Nat.succ_ne_zero _)
      have htail : digits.getLast? ≠ some 0 := by
        cases digits with
        | nil => exact fun h ↦ by cases h
        | cons e digits => rwa [List.getLast?_cons_cons] at h
      have hrest : 10 * fractionValue (d :: digits) - (d.val : ℤ) = fractionValue digits := by
        rw [fractionValue, mul_div_cancel₀ _ (by norm_num), Int.cast_natCast]
        ring
      rw [fractionDigits, if_neg hne, floor_ten_mul_fractionValue, hrest, Int.toNat_natCast,
        ih htail (by simpa using hlength)]
      exact congrArg (· :: digits) (Fin.ext (Nat.mod_eq_of_lt d.isLt))

theorem wholeValue_append_singleton (digits : List Digit) (d : Digit) :
    wholeValue (digits ++ [d]) = d.val + 10 * wholeValue digits := by
  rw [wholeValue, List.reverse_append, List.reverse_singleton, List.singleton_append,
    List.map_cons, Nat.ofDigits_cons]
  rfl

/-- A prime factor of ten that does not divide the digits divides the denominator as often
as there are digits. -/
theorem length_lt_den {p n den num digits : ℕ} (hp : p.Prime) (hten : p ∣ 10)
    (hdigits : ¬p ∣ digits) (hden : 0 < den) (heq : num * 10 ^ n = digits * den) : n < den := by
  have hdvd : p ^ n ∣ digits * den := by
    rw [← heq]
    exact Dvd.dvd.mul_left (pow_dvd_pow_of_dvd hten n) num
  have hcoprime : (p ^ n).Coprime digits :=
    Nat.Coprime.pow_left n ((Nat.Prime.coprime_iff_not_dvd hp).mpr hdigits)
  calc
    n < p ^ n := Nat.lt_pow_self hp.one_lt
    _ ≤ den := Nat.le_of_dvd hden (hcoprime.dvd_of_dvd_mul_left hdvd)

theorem length_le_den {digits : List Digit} (h : digits.getLast? ≠ some 0) :
    digits.length ≤ (fractionValue digits).den := by
  rcases List.eq_nil_or_concat digits with rfl | ⟨front, d, rfl⟩
  · exact Nat.zero_le _
  · have hd : d.val ≠ 0 := by
      intro hzero
      apply h
      rw [List.concat_eq_append, List.getLast?_concat]
      exact congrArg some (Fin.ext hzero)
    have hmod : wholeValue (front.concat d) % 10 = d.val := by
      rw [List.concat_eq_append, wholeValue_append_singleton, Nat.add_mul_mod_self_left,
        Nat.mod_eq_of_lt d.isLt]
    set r := fractionValue (front.concat d) with hr
    have heq : r.num.toNat * 10 ^ (front.concat d).length =
        wholeValue (front.concat d) * r.den := by
      have hnum : (r.num.toNat : ℤ) = r.num :=
        Int.toNat_of_nonneg (Rat.num_nonneg.mpr (fractionValue_nonneg _))
      have hvalue := fractionValue_mul_pow (front.concat d)
      rw [← hr] at hvalue
      have hcast : ((r.num.toNat * 10 ^ (front.concat d).length : ℕ) : ℚ) =
          (wholeValue (front.concat d) * r.den : ℕ) := by
        push_cast
        rw [← hvalue, ← Int.cast_natCast, hnum, ← Rat.mul_den_eq_num]
        ring
      exact_mod_cast hcast
    by_cases htwo : 2 ∣ wholeValue (front.concat d)
    · have hfive : ¬5 ∣ wholeValue (front.concat d) := by omega
      exact (length_lt_den (by norm_num) (by norm_num) hfive r.den_pos heq).le
    · exact (length_lt_den (by norm_num) (by norm_num) htwo r.den_pos heq).le

namespace Decimal

/-- The shortest numeral of a number. -/
def ofRat (q : ℚ) : Decimal where
  whole := natDigits ⌊q⌋.toNat
  fraction := fractionDigits (q - ⌊q⌋).den (q - ⌊q⌋)

theorem ofRat_value {d : Decimal} (h : d.Shortest) : ofRat d.value = d := by
  have hlow := fractionValue_nonneg d.fraction
  have hhigh := fractionValue_lt_one d.fraction
  have hfloor : ⌊d.value⌋ = wholeValue d.whole := by
    rw [value, Int.floor_eq_iff, Int.cast_natCast]
    exact ⟨by linarith, by linarith⟩
  have hrest : d.value - (wholeValue d.whole : ℤ) = fractionValue d.fraction := by
    rw [value, Int.cast_natCast]
    ring
  rw [ofRat, hfloor, hrest, Int.toNat_natCast, natDigits_wholeValue h.noLeadingZero,
    fractionDigits_fractionValue h.noTrailingZero (length_le_den h.noTrailingZero)]

/-! ## Notations -/

/-- The exponential notation of a number below one; `mark` stands before the exponent,
whose sign it shows. -/
def exponential {σ : Type} (spell : Digit → σ) (point : σ) (mark : List σ) (d : Decimal) :
    List σ :=
  let digits := d.fraction.dropWhile (· = 0)
  text spell point ⟨digits.take 1, digits.drop 1⟩ ++ mark ++
    (natDigits (d.fraction.length - digits.length + 1)).map spell

theorem map_text {σ τ : Type} (f : σ → τ) (spell : Digit → σ) (point : σ) (d : Decimal) :
    (d.text spell point).map f = d.text (f ∘ spell) (f point) := by
  rw [text, text, List.map_append, List.map_map]
  split
  · rfl
  · rw [List.map_cons, List.map_map]

theorem map_exponential {σ τ : Type} (f : σ → τ) (spell : Digit → σ) (point : σ)
    (mark : List σ) (d : Decimal) :
    (d.exponential spell point mark).map f = d.exponential (f ∘ spell) (f point) (mark.map f) := by
  rw [exponential, exponential, List.map_append, List.map_append, List.map_map, map_text]

theorem mem_text {σ : Type} {spell : Digit → σ} {point c : σ} {d : Decimal}
    (h : c ∈ d.text spell point) : (∃ digit, spell digit = c) ∨ c = point := by
  rw [text, List.mem_append] at h
  rcases h with h | h
  · obtain ⟨digit, -, rfl⟩ := List.mem_map.mp h
    exact Or.inl ⟨digit, rfl⟩
  · split at h
    · cases h
    · rcases List.mem_cons.mp h with rfl | h
      · exact Or.inr rfl
      · obtain ⟨digit, -, rfl⟩ := List.mem_map.mp h
        exact Or.inl ⟨digit, rfl⟩

theorem mem_exponential {σ : Type} {spell : Digit → σ} {point c : σ} {mark : List σ}
    (d : Decimal) (h : c ∈ mark) : c ∈ d.exponential spell point mark :=
  List.mem_append_left _ (List.mem_append_right _ h)

end Decimal

end Data
