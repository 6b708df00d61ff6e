import Mathlib.Data.List.Nodup

/-!
# Tables with a unique index

A table is a list of rows whose index keys are pairwise different, so a second
row with a key that is already present cannot be built.  Statements go through
`lookup`, the row an index scan finds.
-/

namespace Data

/-- Two elements that both count are one when only one counts. -/
theorem eq_of_countP_le_one {α : Type} {p : α → Bool} {l : List α} (h : l.countP p ≤ 1)
    {a b : α} (ha : a ∈ l) (hb : b ∈ l) (hpa : p a) (hpb : p b) : a = b := by
  rw [List.countP_eq_length_filter] at h
  have hmema : a ∈ l.filter p := List.mem_filter.mpr ⟨ha, hpa⟩
  have hmemb : b ∈ l.filter p := List.mem_filter.mpr ⟨hb, hpb⟩
  obtain ⟨x, hx⟩ : ∃ x, l.filter p = [x] := by
    rw [← List.length_eq_one_iff]
    have := List.length_pos_of_mem hmema
    omega
  rw [hx, List.mem_singleton] at hmema hmemb
  rw [hmema, hmemb]

/-- A finite table with a unique index on `key`. -/
structure Table {κ ρ : Type} (key : ρ → κ) where
  rows : List ρ
  unique : (rows.map key).Nodup

namespace Table

variable {κ ρ : Type} {key : ρ → κ}

def empty : Table key := ⟨[], List.nodup_nil⟩

variable [DecidableEq κ]

def lookup (t : Table key) (k : κ) : Option ρ :=
  t.rows.find? fun r ↦ key r = k

/-- Insert a row; `none` is the unique-constraint violation. -/
def insert (t : Table key) (r : ρ) : Option (Table key) :=
  if h : key r ∈ t.rows.map key then none
  else some ⟨r :: t.rows, by simpa [List.nodup_cons] using ⟨by simpa using h, t.unique⟩⟩

omit [DecidableEq κ] in
theorem unique_filter (t : Table key) (p : ρ → Bool) :
    ((t.rows.filter p).map key).Nodup :=
  (List.Sublist.map key List.filter_sublist).nodup t.unique

def filter (t : Table key) (p : ρ → Bool) : Table key :=
  ⟨t.rows.filter p, t.unique_filter p⟩

def delete (t : Table key) (k : κ) : Table key :=
  t.filter fun r ↦ key r ≠ k

def count (t : Table key) (p : ρ → Bool) : ℕ :=
  t.rows.countP p

omit [DecidableEq κ] in
theorem map_key_updateWhere (rows : List ρ) (p : ρ → Bool) {f : ρ → ρ}
    (hf : ∀ r, key (f r) = key r) :
    (rows.map fun r ↦ if p r then f r else r).map key = rows.map key := by
  rw [List.map_map]
  apply List.map_congr_left
  intro r _
  by_cases hr : p r <;> simp [hr, hf]

def updateWhere (t : Table key) (p : ρ → Bool) (f : ρ → ρ) (hf : ∀ r, key (f r) = key r) :
    Table key :=
  ⟨t.rows.map fun r ↦ if p r then f r else r, by
    rw [map_key_updateWhere t.rows p hf]
    exact t.unique⟩

def modify (t : Table key) (k : κ) (f : ρ → ρ) (hf : ∀ r, key (f r) = key r) : Table key :=
  t.updateWhere (fun r ↦ key r = k) f hf

theorem key_of_lookup {t : Table key} {k : κ} {r : ρ} (h : t.lookup k = some r) :
    key r = k := by
  simpa using List.find?_some h

theorem mem_of_lookup {t : Table key} {k : κ} {r : ρ} (h : t.lookup k = some r) : r ∈ t.rows :=
  List.mem_of_find?_eq_some h

theorem mem_keys_of_lookup {t : Table key} {k : κ} {r : ρ} (h : t.lookup k = some r) :
    k ∈ t.rows.map key := by
  rw [← key_of_lookup h]
  exact List.mem_map_of_mem (mem_of_lookup h)

theorem lookup_eq_none_iff {t : Table key} {k : κ} :
    t.lookup k = none ↔ k ∉ t.rows.map key := by
  simp [lookup, List.find?_eq_none]

/-- With a unique index, every row is the one its key finds. -/
theorem lookup_of_mem {t : Table key} {r : ρ} (hr : r ∈ t.rows) :
    t.lookup (key r) = some r := by
  cases h : t.lookup (key r) with
  | none => exact absurd (List.mem_map_of_mem hr) (lookup_eq_none_iff.mp h)
  | some r' =>
      have hmem : r' ∈ t.rows := List.mem_of_find?_eq_some h
      rw [List.inj_on_of_nodup_map t.unique hmem hr (key_of_lookup h)]

theorem insert_eq_none_iff {t : Table key} {r : ρ} :
    t.insert r = none ↔ ∃ r', t.lookup (key r) = some r' := by
  rw [← Option.ne_none_iff_exists', ne_eq, lookup_eq_none_iff, not_not]
  unfold insert
  split <;> simp_all

theorem lookup_insert {t t' : Table key} {r : ρ} (h : t.insert r = some t') (k : κ) :
    t'.lookup k = if key r = k then some r else t.lookup k := by
  unfold insert at h
  split at h
  · simp at h
  · obtain rfl := Option.some.inj h
    by_cases hk : key r = k <;> simp [lookup, hk]

/-- Inserting a row that may already be there: the first row of a key stays. -/
theorem lookup_insert_getD (t : Table key) (r : ρ) (k : κ) :
    ((t.insert r).getD t).lookup k =
      if key r = k then (t.lookup k).or (some r) else t.lookup k := by
  cases hins : t.insert r with
  | none =>
      obtain ⟨r', hr'⟩ := insert_eq_none_iff.mp hins
      by_cases hk : key r = k
      · subst hk
        simp [hr']
      · simp [hk]
  | some t' =>
      have hnone : t.lookup (key r) = none := by
        rw [Option.eq_none_iff_forall_ne_some]
        intro r' hr'
        rw [insert_eq_none_iff.mpr ⟨r', hr'⟩] at hins
        cases hins
      rw [Option.getD_some, lookup_insert hins]
      by_cases hk : key r = k
      · subst hk
        simp [hnone]
      · simp [hk]

theorem lookup_filter (t : Table key) (p : ρ → Bool) (k : κ) :
    (t.filter p).lookup k = (t.lookup k).filter p := by
  cases h : t.lookup k with
  | none =>
      rw [Option.filter_none, lookup_eq_none_iff]
      intro hk
      obtain ⟨r, hr, rfl⟩ := List.mem_map.mp hk
      rw [lookup_of_mem (List.mem_of_mem_filter hr)] at h
      exact absurd h (by simp)
  | some r =>
      have hrk : key r = k := key_of_lookup h
      have hr : r ∈ t.rows := List.mem_of_find?_eq_some h
      by_cases hp : p r
      · have hmem : r ∈ (t.filter p).rows := List.mem_filter.mpr ⟨hr, hp⟩
        rw [Option.filter_some, if_pos hp, ← hrk]
        exact lookup_of_mem hmem
      · rw [Option.filter_some, if_neg hp, lookup_eq_none_iff]
        intro hk
        obtain ⟨r', hr', hr'k⟩ := List.mem_map.mp hk
        obtain ⟨hmem, hp'⟩ := List.mem_filter.mp hr'
        have : r' = r := List.inj_on_of_nodup_map t.unique hmem hr (hr'k.trans hrk.symm)
        exact hp (this ▸ hp')

theorem lookup_delete (t : Table key) (k k' : κ) :
    (t.delete k).lookup k' = if k' = k then none else t.lookup k' := by
  rw [delete, lookup_filter]
  cases h : t.lookup k' with
  | none => simp
  | some r =>
      have hrk : key r = k' := key_of_lookup h
      by_cases hk : k' = k <;> simp [Option.filter_some, hrk, hk]

theorem lookup_updateWhere (t : Table key) (p : ρ → Bool) (f : ρ → ρ)
    (hf : ∀ r, key (f r) = key r) (k : κ) :
    (t.updateWhere p f hf).lookup k = (t.lookup k).map fun r ↦ if p r then f r else r := by
  cases h : t.lookup k with
  | none =>
      rw [Option.map_none, lookup_eq_none_iff]
      change k ∉ (t.rows.map fun r ↦ if p r then f r else r).map key
      rw [map_key_updateWhere t.rows p hf]
      exact lookup_eq_none_iff.mp h
  | some r =>
      have hrk : key r = k := key_of_lookup h
      have hr : r ∈ t.rows := List.mem_of_find?_eq_some h
      have hmem : (if p r then f r else r) ∈ (t.updateWhere p f hf).rows :=
        List.mem_map_of_mem hr
      have hkey : key (if p r then f r else r) = k := by
        split <;> simp [hf, hrk]
      rw [Option.map_some, ← hkey]
      exact lookup_of_mem hmem

theorem lookup_modify (t : Table key) (k : κ) (f : ρ → ρ) (hf : ∀ r, key (f r) = key r)
    (k' : κ) :
    (t.modify k f hf).lookup k' = if k' = k then (t.lookup k').map f else t.lookup k' := by
  rw [modify, lookup_updateWhere]
  cases h : t.lookup k' with
  | none => simp
  | some r =>
      have hrk : key r = k' := key_of_lookup h
      by_cases hk : k' = k <;> simp [hrk, hk]

/-- A write addressed to one key touches no row exactly when the row with that
key does not qualify. -/
theorem count_eq_zero_iff {t : Table key} {p : ρ → Bool} {k : κ}
    (hp : ∀ r, p r → key r = k) :
    t.count p = 0 ↔ ∀ r, t.lookup k = some r → ¬ p r := by
  rw [count, List.countP_eq_zero]
  constructor
  · intro h r hr
    exact h r (List.mem_of_find?_eq_some hr)
  · intro h r hr hpr
    have hlookup := lookup_of_mem hr
    rw [hp r hpr] at hlookup
    exact h r hlookup hpr

/-- A unique index finds the only row of its key. -/
theorem count_eq_one {t : Table key} {k : κ} {r : ρ} (h : t.lookup k = some r) :
    t.count (fun r ↦ key r = k) = 1 := by
  have hmem : k ∈ t.rows.map key := by
    by_contra hnot
    rw [lookup_eq_none_iff.mpr hnot] at h
    cases h
  calc
    t.count (fun r ↦ key r = k) = (t.rows.map key).countP (fun k' ↦ k' = k) := by
      rw [List.countP_map]
      rfl
    _ = (t.rows.map key).count k := by
      apply List.countP_congr
      intro k' _
      simp
    _ = 1 := List.count_eq_one_of_mem t.unique hmem

end Table

end Data
