import Mathlib.Computability.RegularExpressions
import Mathlib.Data.List.Infix

/-!
# Patterns

The quantifiers of pattern literals over regular expressions, and the words that the
quantified letters match.  A pattern anchored at the start alone is tested against the
prefixes of a word.
-/

namespace Data.Pattern

open RegularExpression

variable {α : Type}

/-- A class of letters. -/
def oneOf (letters : List α) : RegularExpression α :=
  letters.foldr (fun c r ↦ char c + r) 0

/-- `r+`. -/
def some1 (r : RegularExpression α) : RegularExpression α := r * r.star

/-- `(r)?`. -/
def optional (r : RegularExpression α) : RegularExpression α := 1 + r

/-- At most `n` times `r`. -/
def upTo (r : RegularExpression α) : ℕ → RegularExpression α
  | 0 => 1
  | n + 1 => optional (r * upTo r n)

/-- `r{1,n}`. -/
def oneTo (r : RegularExpression α) (n : ℕ) : RegularExpression α := r * upTo r (n - 1)

variable [DecidableEq α]

/-- The test of a pattern that is anchored at the start only. -/
def startsWith (r : RegularExpression α) (word : List α) : Bool :=
  word.inits.any r.rmatch

theorem startsWith_iff (r : RegularExpression α) (word : List α) :
    startsWith r word = true ↔ ∃ start rest, word = start ++ rest ∧ r.rmatch start = true := by
  rw [startsWith, List.any_eq_true]
  constructor
  · rintro ⟨start, hmem, hmatch⟩
    obtain ⟨rest, rfl⟩ := (List.mem_inits start word).mp hmem
    exact ⟨start, rest, rfl, hmatch⟩
  · rintro ⟨start, rest, rfl, hmatch⟩
    exact ⟨start, (List.mem_inits _ _).mpr (List.prefix_append start rest), hmatch⟩

theorem oneOf_rmatch_iff (letters word : List α) :
    (oneOf letters).rmatch word = true ↔ ∃ c ∈ letters, word = [c] := by
  induction letters with
  | nil => simp [oneOf]
  | cons c letters ih =>
      have hcons : oneOf (c :: letters) = char c + oneOf letters := rfl
      rw [hcons, add_rmatch_iff, char_rmatch_iff, ih]
      simp

theorem optional_rmatch_iff (r : RegularExpression α) (word : List α) :
    (optional r).rmatch word = true ↔ word = [] ∨ r.rmatch word = true := by
  rw [optional, add_rmatch_iff, one_rmatch_iff]

/-- A letter of a class, then the rest. -/
theorem oneOf_mul_rmatch_iff (letters : List α) (r : RegularExpression α) (word : List α) :
    (oneOf letters * r).rmatch word = true ↔
      ∃ c rest, word = c :: rest ∧ c ∈ letters ∧ r.rmatch rest = true := by
  rw [mul_rmatch_iff]
  constructor
  · rintro ⟨start, rest, rfl, hstart, hrest⟩
    obtain ⟨c, hc, rfl⟩ := (oneOf_rmatch_iff letters start).mp hstart
    exact ⟨c, rest, rfl, hc, hrest⟩
  · rintro ⟨c, rest, rfl, hc, hrest⟩
    exact ⟨[c], rest, rfl, (oneOf_rmatch_iff letters [c]).mpr ⟨c, hc, rfl⟩, hrest⟩

theorem char_mul_rmatch_iff (c : α) (r : RegularExpression α) (word : List α) :
    (char c * r).rmatch word = true ↔ ∃ rest, word = c :: rest ∧ r.rmatch rest = true := by
  rw [mul_rmatch_iff]
  constructor
  · rintro ⟨start, rest, rfl, hstart, hrest⟩
    obtain rfl := (char_rmatch_iff c start).mp hstart
    exact ⟨rest, rfl, hrest⟩
  · rintro ⟨rest, rfl, hrest⟩
    exact ⟨[c], rest, rfl, (char_rmatch_iff c [c]).mpr rfl, hrest⟩

theorem star_oneOf_rmatch_iff (letters word : List α) :
    (star (oneOf letters)).rmatch word = true ↔ ∀ c ∈ word, c ∈ letters := by
  rw [star_rmatch_iff]
  constructor
  · rintro ⟨parts, rfl, hparts⟩ c hc
    obtain ⟨part, hpart, hcpart⟩ := List.mem_flatten.mp hc
    obtain ⟨d, hd, rfl⟩ := (oneOf_rmatch_iff letters part).mp (hparts part hpart).2
    obtain rfl := List.mem_singleton.mp hcpart
    exact hd
  · intro h
    refine ⟨word.map fun c ↦ [c], (List.flatMap_singleton' word).symm, fun part hpart ↦ ?_⟩
    obtain ⟨c, hc, rfl⟩ := List.mem_map.mp hpart
    exact ⟨List.cons_ne_nil c [], (oneOf_rmatch_iff letters [c]).mpr ⟨c, h c hc, rfl⟩⟩

theorem some1_oneOf_rmatch_iff (letters word : List α) :
    (some1 (oneOf letters)).rmatch word = true ↔ word ≠ [] ∧ ∀ c ∈ word, c ∈ letters := by
  rw [some1, oneOf_mul_rmatch_iff]
  constructor
  · rintro ⟨c, rest, rfl, hc, hrest⟩
    have htail := (star_oneOf_rmatch_iff letters rest).mp hrest
    exact ⟨List.cons_ne_nil c rest, List.forall_mem_cons.mpr ⟨hc, htail⟩⟩
  · rintro ⟨hne, hall⟩
    obtain ⟨c, rest, rfl⟩ := List.exists_cons_of_ne_nil hne
    obtain ⟨hc, htail⟩ := List.forall_mem_cons.mp hall
    exact ⟨c, rest, rfl, hc, (star_oneOf_rmatch_iff letters rest).mpr htail⟩

theorem upTo_oneOf_rmatch_iff (letters word : List α) (n : ℕ) :
    (upTo (oneOf letters) n).rmatch word = true ↔
      word.length ≤ n ∧ ∀ c ∈ word, c ∈ letters := by
  induction n generalizing word with
  | zero =>
      rw [upTo, one_rmatch_iff]
      constructor
      · rintro rfl
        simp
      · rintro ⟨hlength, -⟩
        apply List.eq_nil_of_length_eq_zero
        omega
  | succ n ih =>
      rw [upTo, optional_rmatch_iff, oneOf_mul_rmatch_iff]
      constructor
      · rintro (rfl | ⟨c, rest, rfl, hc, hrest⟩)
        · simp
        · obtain ⟨hlength, htail⟩ := (ih rest).mp hrest
          refine ⟨?_, List.forall_mem_cons.mpr ⟨hc, htail⟩⟩
          rw [List.length_cons]
          omega
      · rintro ⟨hlength, hall⟩
        cases word with
        | nil => exact Or.inl rfl
        | cons c rest =>
            obtain ⟨hc, htail⟩ := List.forall_mem_cons.mp hall
            rw [List.length_cons] at hlength
            exact Or.inr ⟨c, rest, rfl, hc, (ih rest).mpr ⟨by omega, htail⟩⟩

theorem oneTo_oneOf_rmatch_iff (letters word : List α) {n : ℕ} (hn : 1 ≤ n) :
    (oneTo (oneOf letters) n).rmatch word = true ↔
      word ≠ [] ∧ word.length ≤ n ∧ ∀ c ∈ word, c ∈ letters := by
  rw [oneTo, oneOf_mul_rmatch_iff]
  constructor
  · rintro ⟨c, rest, rfl, hc, hrest⟩
    obtain ⟨hlength, htail⟩ := (upTo_oneOf_rmatch_iff letters rest (n - 1)).mp hrest
    refine ⟨List.cons_ne_nil c rest, ?_, List.forall_mem_cons.mpr ⟨hc, htail⟩⟩
    rw [List.length_cons]
    omega
  · rintro ⟨hne, hlength, hall⟩
    obtain ⟨c, rest, rfl⟩ := List.exists_cons_of_ne_nil hne
    obtain ⟨hc, htail⟩ := List.forall_mem_cons.mp hall
    rw [List.length_cons] at hlength
    exact ⟨c, rest, rfl, hc, (upTo_oneOf_rmatch_iff letters rest (n - 1)).mpr ⟨by omega, htail⟩⟩

end Data.Pattern
