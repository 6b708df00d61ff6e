import TransactionLedger.Data.Paging

/-!
# Pages of a table that grows

Between the queries for two pages, rows come in and move the others to later places.  A
reader who goes on to the last page sees some rows twice, but passes by none.
-/

namespace Data

variable {ρ κ τ : Type} {rows sorted : List ρ}

/-- A place that only moves on stands in the window of some step. -/
theorem exists_window {limit n : ℕ} {place : ℕ → ℕ} (hmono : ∀ p < n, place p ≤ place (p + 1))
    (hlast : place n < (n + 1) * limit) :
    ∃ p ≤ n, p * limit ≤ place p ∧ place p < p * limit + limit := by
  induction n with
  | zero =>
      refine ⟨0, le_rfl, ?_, ?_⟩
      · rw [Nat.zero_mul]
        exact Nat.zero_le _
      · omega
  | succ n ih =>
      rcases Nat.lt_or_ge (place (n + 1)) ((n + 1) * limit) with hbefore | hreached
      · have hstays := (hmono n (Nat.lt_succ_self n)).trans_lt hbefore
        obtain ⟨p, hp, hwindow⟩ := ih (fun q hq ↦ hmono q (hq.trans (Nat.lt_succ_self n))) hstays
        exact ⟨p, hp.trans (Nat.le_succ n), hwindow⟩
      · refine ⟨n + 1, le_rfl, hreached, ?_⟩
        rwa [Nat.succ_mul] at hlast

/-- Rows that are kept are counted again. -/
theorem countP_le_of_kept {tag : ρ → τ} {rows' : List ρ} {test : ρ → Bool}
    (hnodup : (rows.map tag).Nodup)
    (hkept : ∀ a ∈ rows, test a = true → ∃ b ∈ rows', tag b = tag a ∧ test b = true) :
    rows.countP test ≤ rows'.countP test := by
  have htags : ((rows.filter test).map tag).Nodup :=
    (List.filter_sublist.map tag).nodup hnodup
  have hsubset : (rows.filter test).map tag ⊆ (rows'.filter test).map tag := by
    intro t ht
    obtain ⟨a, ha, rfl⟩ := List.mem_map.mp ht
    obtain ⟨hmem, hpass⟩ := List.mem_filter.mp ha
    obtain ⟨b, hb, htag, hpass'⟩ := hkept a hmem hpass
    rw [← htag]
    exact List.mem_map_of_mem (List.mem_filter.mpr ⟨hb, hpass'⟩)
  have hlength := (List.subperm_of_subset htags hsubset).length_le
  rwa [List.length_map, List.length_map, ← List.countP_eq_length_filter,
    ← List.countP_eq_length_filter] at hlength

variable [LinearOrder κ] {key : ρ → κ}

/-- A row that shares its key with no other has its place from the rows before it. -/
theorem mem_page_of_unique {limit p : ℕ} (h : IsOrdering (Descending key) rows sorted)
    (hnodup : rows.Nodup) {a : ρ} (ha : a ∈ rows)
    (hunique : ∀ b ∈ rows, key b = key a → b = a)
    (hlow : p * limit ≤ rows.countP (key a < key ·))
    (hhigh : rows.countP (key a < key ·) < p * limit + limit) : a ∈ page limit p sorted := by
  obtain ⟨before, after, hsplit⟩ := List.append_of_mem (h.perm.mem_iff.mpr ha)
  have hsorted := h.pairwise
  rw [hsplit] at hsorted
  have hplace : rows.countP (key a < key ·) = before.length := by
    rw [← h.perm.countP_eq, hsplit]
    refine le_antisymm (countP_le_length (upwardClosed_lt key (key a)) hsorted
      (decide_eq_false (lt_irrefl _))) ?_
    have hbefore : before.countP (key a < key ·) = before.length := by
      refine List.countP_eq_length.mpr fun b hb ↦ decide_eq_true (lt_of_le_of_ne ?_ ?_)
      · exact (List.pairwise_append.mp hsorted).2.2 b hb a List.mem_cons_self
      · intro heq
        have hmem : b ∈ rows := h.perm.subset (hsplit ▸ List.mem_append_left _ hb)
        have hself : a ∈ before := hunique b hmem heq.symm ▸ hb
        have hdistinct := h.perm.nodup_iff.mpr hnodup
        rw [hsplit] at hdistinct
        exact (List.nodup_append.mp hdistinct).2.2 a hself a List.mem_cons_self rfl
    rw [List.countP_append, hbefore]
    exact Nat.le_add_right _ _
  rw [hplace] at hlow hhigh
  exact hsplit ▸ mem_page hlow hhigh

section

variable {tag : ρ → τ} {tables orders : ℕ → List ρ} {n : ℕ}
  (hkept : ∀ p < n, ∀ a ∈ tables p, ∃ b ∈ tables (p + 1), tag b = tag a ∧ key b = key a)

include hkept

omit [LinearOrder κ] in
theorem exists_kept {p q : ℕ} (hpq : p ≤ q) (hq : q ≤ n) {a : ρ} (ha : a ∈ tables p) :
    ∃ b ∈ tables q, tag b = tag a ∧ key b = key a := by
  induction q, hpq using Nat.le_induction with
  | base => exact ⟨a, ha, rfl, rfl⟩
  | succ q _ ih =>
      obtain ⟨b, hb, htag, hkey⟩ := ih ((Nat.le_succ q).trans hq)
      obtain ⟨c, hc, htag', hkey'⟩ := hkept q (Nat.lt_of_succ_le hq) b hb
      exact ⟨c, hc, htag'.trans htag, hkey'.trans hkey⟩

/-- Whoever reads on to the last page has seen every row of the first table that shares its
key with no other. -/
theorem exists_mem_page (hnodup : ∀ p, ((tables p).map tag).Nodup)
    (horders : ∀ p ≤ n, IsOrdering (Descending key) (tables p) (orders p)) {limit : ℕ}
    (hlast : (tables n).length ≤ (n + 1) * limit) {a : ρ} (ha : a ∈ tables 0)
    (hunique : ∀ b ∈ tables n, key b = key a → tag b = tag a) :
    ∃ p ≤ n, ∃ b ∈ page limit p (orders p), tag b = tag a := by
  have hmono : ∀ p < n,
      (tables p).countP (key a < key ·) ≤ (tables (p + 1)).countP (key a < key ·) := by
    intro p hp
    refine countP_le_of_kept (hnodup p) fun b hb hpass ↦ ?_
    obtain ⟨c, hc, htag, hkey⟩ := hkept p hp b hb
    exact ⟨c, hc, htag, hkey ▸ hpass⟩
  have hinside : (tables n).countP (key a < key ·) < (n + 1) * limit := by
    obtain ⟨b, hb, -, hkey⟩ := exists_kept hkept (Nat.zero_le n) le_rfl ha
    refine lt_of_lt_of_le (lt_of_le_of_ne List.countP_le_length fun hall ↦ ?_) hlast
    have hlater := of_decide_eq_true (List.countP_eq_length.mp hall b hb)
    exact lt_irrefl _ (hkey ▸ hlater)
  obtain ⟨p, hp, hlow, hhigh⟩ := exists_window hmono hinside
  obtain ⟨b, hb, htag, hkey⟩ := exists_kept hkept (Nat.zero_le p) hp ha
  refine ⟨p, hp, b, ?_, htag⟩
  rw [← hkey] at hlow hhigh
  refine mem_page_of_unique (horders p hp) (List.Nodup.of_map tag (hnodup p)) hb ?_ hlow hhigh
  intro c hc hsame
  obtain ⟨c', hc', htag', hkey'⟩ := exists_kept hkept hp le_rfl hc
  have hcommon := hunique c' hc' (hkey'.trans (hsame.trans hkey))
  exact List.inj_on_of_nodup_map (hnodup p) hc hb (htag'.symm.trans (hcommon.trans htag.symm))

end

end Data
