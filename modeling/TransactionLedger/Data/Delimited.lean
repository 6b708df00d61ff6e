import Mathlib.Data.List.Basic

/-!
# Delimited texts

Two texts are delimited when no continuation can make one run into the other: what
follows begins with a stop, or is nothing.  Joining delimited texts by a separator and
closing them by a bracket is then uniquely readable.
-/

namespace Data

variable {σ : Type}

/-- What follows a text begins with a stop, or is nothing. -/
def EndsAt (stops : σ → Prop) (rest : List σ) : Prop :=
  ∀ c tail, rest = c :: tail → stops c

theorem endsAt_nil (stops : σ → Prop) : EndsAt stops [] := by
  intro c tail h
  cases h

theorem endsAt_cons {stops : σ → Prop} {c : σ} (hc : stops c) (tail : List σ) :
    EndsAt stops (c :: tail) := by
  intro c' tail' h
  obtain ⟨rfl, -⟩ := List.cons.inj h
  exact hc

/-- Reading two texts before a stop tells them apart. -/
def Delimited (stops : σ → Prop) (x y : List σ) : Prop :=
  ∀ rest rest', EndsAt stops rest → EndsAt stops rest' → x ++ rest = y ++ rest' →
    x = y ∧ rest = rest'

/-- Texts over an alphabet without stops are delimited. -/
theorem delimited_of_alphabet {stops letters : σ → Prop}
    (hdisjoint : ∀ c, letters c → ¬stops c) {x y : List σ} (hx : ∀ c ∈ x, letters c)
    (hy : ∀ c ∈ y, letters c) : Delimited stops x y := by
  intro rest rest' hrest hrest' heq
  induction x generalizing y with
  | nil =>
      cases y with
      | nil => exact ⟨rfl, heq⟩
      | cons c y =>
          have hletter := hy c List.mem_cons_self
          exact absurd (hrest c _ heq) (hdisjoint c hletter)
  | cons c x ih =>
      cases y with
      | nil =>
          have hletter := hx c List.mem_cons_self
          exact absurd (hrest' c _ heq.symm) (hdisjoint c hletter)
      | cons c' y =>
          obtain ⟨rfl, htail⟩ := List.cons.inj heq
          obtain ⟨rfl, hsame⟩ := ih (fun d hd ↦ hx d (List.mem_cons_of_mem _ hd))
            (fun d hd ↦ hy d (List.mem_cons_of_mem _ hd)) htail
          exact ⟨rfl, hsame⟩

/-- A text that cannot be mistaken for the closing bracket. -/
def Opens (close : σ) (x : List σ) : Prop :=
  ∃ c tail, x = c :: tail ∧ c ≠ close

/-- A joined and closed sequence of delimited texts is uniquely readable. -/
theorem intercalate_inj (stops : σ → Prop) {sep close : σ} (hsep : stops sep)
    (hclose : stops close) (hne : sep ≠ close) {xs ys : List (List σ)}
    (hxs : ∀ x ∈ xs, Opens close x) (hys : ∀ y ∈ ys, Opens close y)
    (hdelimited : ∀ x ∈ xs, ∀ y ∈ ys, Delimited stops x y) {rest rest' : List σ}
    (heq : [sep].intercalate xs ++ close :: rest = [sep].intercalate ys ++ close :: rest') :
    xs = ys ∧ rest = rest' := by
  have hopens : ∀ (x : List σ) (zs : List (List σ)) (r r' : List σ), Opens close x →
      [sep].intercalate (x :: zs) ++ r ≠ close :: r' := by
    rintro x zs r r' ⟨c, tail, rfl, hc⟩ h
    cases zs with
    | nil =>
        rw [List.intercalate_singleton] at h
        exact hc (List.cons.inj h).1
    | cons z zs =>
        rw [List.intercalate_cons_cons] at h
        exact hc (List.cons.inj h).1
  induction xs generalizing ys with
  | nil =>
      cases ys with
      | nil => exact ⟨rfl, (List.cons.inj heq).2⟩
      | cons y ys => exact absurd heq.symm (hopens y ys _ _ (hys y List.mem_cons_self))
  | cons x xs ih =>
      cases ys with
      | nil => exact absurd heq (hopens x xs _ _ (hxs x List.mem_cons_self))
      | cons y ys =>
          have hxy := hdelimited x List.mem_cons_self y List.mem_cons_self
          have hxs' : ∀ z ∈ xs, Opens close z := fun z hz ↦ hxs z (List.mem_cons_of_mem _ hz)
          have hys' : ∀ z ∈ ys, Opens close z := fun z hz ↦ hys z (List.mem_cons_of_mem _ hz)
          have hrec : ∀ z ∈ xs, ∀ z' ∈ ys, Delimited stops z z' := fun z hz z' hz' ↦
            hdelimited z (List.mem_cons_of_mem _ hz) z' (List.mem_cons_of_mem _ hz')
          cases xs with
          | nil =>
              cases ys with
              | nil =>
                  rw [List.intercalate_singleton, List.intercalate_singleton] at heq
                  obtain ⟨rfl, hrest⟩ :=
                    hxy _ _ (endsAt_cons hclose _) (endsAt_cons hclose _) heq
                  exact ⟨rfl, (List.cons.inj hrest).2⟩
              | cons y' ys =>
                  rw [List.intercalate_singleton, List.intercalate_cons_cons, List.append_assoc,
                    List.append_assoc] at heq
                  have hrest :=
                    (hxy _ _ (endsAt_cons hclose _) (endsAt_cons hsep _) heq).2
                  exact absurd (List.cons.inj hrest).1.symm hne
          | cons x' xs =>
              cases ys with
              | nil =>
                  rw [List.intercalate_singleton, List.intercalate_cons_cons, List.append_assoc,
                    List.append_assoc] at heq
                  have hrest :=
                    (hxy _ _ (endsAt_cons hsep _) (endsAt_cons hclose _) heq).2
                  exact absurd (List.cons.inj hrest).1 hne
              | cons y' ys =>
                  rw [List.intercalate_cons_cons, List.intercalate_cons_cons, List.append_assoc,
                    List.append_assoc, List.append_assoc, List.append_assoc] at heq
                  obtain ⟨rfl, hrest⟩ :=
                    hxy _ _ (endsAt_cons hsep _) (endsAt_cons hsep _) heq
                  obtain ⟨htail, hsame⟩ := ih hxs' hys' hrec (List.cons.inj hrest).2
                  exact ⟨by rw [htail], hsame⟩

end Data
