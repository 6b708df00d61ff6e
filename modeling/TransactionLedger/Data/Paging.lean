import Mathlib.Data.List.Nodup
import Mathlib.Data.List.Sort

/-!
# Pages of an ordering whose key is not unique

Each page is a window of an ordering of its own.  All the orderings are descending in the
key, so they agree up to the rows that share one, and the pages fit together exactly when
no page boundary separates two such rows.
-/

open scoped List

namespace Data

variable {ρ κ : Type}

/-- `sorted` has the rows of `rows`, ordered by `r`. -/
structure IsOrdering (r : ρ → ρ → Prop) (rows sorted : List ρ) : Prop where
  perm : sorted ~ rows
  pairwise : sorted.Pairwise r

theorem exists_isOrdering (r : ρ → ρ → Prop) [DecidableRel r]
    (htrans : ∀ a b c, r a b → r b c → r a c) (htotal : ∀ a b, r a b ∨ r b a) (rows : List ρ) :
    ∃ sorted, IsOrdering r rows sorted := by
  have hsorted : (rows.mergeSort (r · ·)).Pairwise fun a b ↦ decide (r a b) = true :=
    List.pairwise_mergeSort
      (fun a b c hab hbc ↦ by
        rw [decide_eq_true_iff] at hab hbc ⊢
        exact htrans a b c hab hbc)
      (fun a b ↦ by
        rw [Bool.or_eq_true, decide_eq_true_iff, decide_eq_true_iff]
        exact htotal a b) rows
  refine ⟨rows.mergeSort (r · ·), rows.mergeSort_perm _, hsorted.imp ?_⟩
  intro a b hab
  exact of_decide_eq_true hab

/-! ## Pages -/

/-- The page with a number counted from zero. -/
def page (limit p : ℕ) (rows : List ρ) : List ρ := (rows.drop (p * limit)).take limit

def pageCount (limit total : ℕ) : ℕ := (total + limit - 1) / limit

/-- The first `n` pages, each of an ordering of its own. -/
def concatPages (limit n : ℕ) (orders : ℕ → List ρ) : List ρ :=
  (List.range n).flatMap fun p ↦ page limit p (orders p)

theorem concatPages_succ (limit n : ℕ) (orders : ℕ → List ρ) :
    concatPages limit (n + 1) orders = concatPages limit n orders ++ page limit n (orders n) := by
  simp only [concatPages, List.range_succ, List.flatMap_append, List.flatMap_singleton]

theorem take_append_page (limit n : ℕ) (rows : List ρ) :
    rows.take (n * limit) ++ page limit n rows = rows.take ((n + 1) * limit) := by
  rw [page, Nat.succ_mul, List.take_add]

/-- The pages of a single ordering are its prefix. -/
theorem concatPages_const (limit n : ℕ) (rows : List ρ) :
    (concatPages limit n fun _ ↦ rows) = rows.take (n * limit) := by
  induction n with
  | zero => rw [Nat.zero_mul, List.take_zero, concatPages, List.range_zero, List.flatMap_nil]
  | succ n ih => rw [concatPages_succ, ih, take_append_page]

theorem map_page {σ : Type} (f : ρ → σ) (limit p : ℕ) (rows : List ρ) :
    (page limit p rows).map f = page limit p (rows.map f) := by
  rw [page, page, List.map_take, List.map_drop]

theorem map_concatPages {σ : Type} (f : ρ → σ) (limit n : ℕ) (orders : ℕ → List ρ) :
    (concatPages limit n orders).map f = concatPages limit n fun p ↦ (orders p).map f := by
  simp only [concatPages, List.map_flatMap, map_page]

theorem le_pageCount_mul {limit : ℕ} (hlimit : 1 ≤ limit) (total : ℕ) :
    total ≤ pageCount limit total * limit := by
  have hdiv := Nat.div_add_mod (total + limit - 1) limit
  have hmod := Nat.mod_lt (total + limit - 1) hlimit
  rw [Nat.mul_comm] at hdiv
  rw [pageCount]
  omega

theorem lt_pageCount {limit p total : ℕ} (hlimit : 1 ≤ limit) (h : p * limit < total) :
    p < pageCount limit total := by
  rw [pageCount, Nat.lt_iff_add_one_le, Nat.le_div_iff_mul_le hlimit, Nat.succ_mul]
  omega

/-! ## Descending orderings -/

variable [LinearOrder κ]

/-- No row stands before one with a greater key. -/
abbrev Descending (key : ρ → κ) (a b : ρ) : Prop := key b ≤ key a

/-- A page boundary lies between rows that share a key: the rows with greater keys than `t`
end before it, and those with the key `t` after it. -/
def Straddles (key : ρ → κ) (limit : ℕ) (rows : List ρ) : Prop :=
  ∃ p t, rows.countP (t < key ·) < p * limit ∧ p * limit < rows.countP (t ≤ key ·)

variable {key : ρ → κ} {rows sorted : List ρ}

/-- A test that greater keys pass too. -/
def UpwardClosed (key : ρ → κ) (test : ρ → Bool) : Prop :=
  ∀ a b, key a ≤ key b → test a = true → test b = true

theorem upwardClosed_lt (key : ρ → κ) (t : κ) : UpwardClosed key (t < key ·) := by
  intro a b hab ha
  rw [decide_eq_true_iff] at ha ⊢
  exact lt_of_lt_of_le ha hab

theorem upwardClosed_le (key : ρ → κ) (t : κ) : UpwardClosed key (t ≤ key ·) := by
  intro a b hab ha
  rw [decide_eq_true_iff] at ha ⊢
  exact le_trans ha hab

section

variable {test : ρ → Bool} (htest : UpwardClosed key test)

include htest

/-- The rows that pass stand first. -/
theorem filter_eq_take (h : sorted.Pairwise (Descending key)) :
    sorted.filter test = sorted.take (sorted.countP test) := by
  induction sorted with
  | nil => rfl
  | cons a sorted ih =>
      obtain ⟨hfirst, hrest⟩ := List.pairwise_cons.mp h
      by_cases ha : test a = true
      · rw [List.filter_cons_of_pos ha, List.countP_cons_of_pos ha, List.take_succ_cons, ih hrest]
      · have hnone : ∀ b ∈ a :: sorted, ¬test b = true := by
          intro b hb
          rcases List.mem_cons.mp hb with rfl | hb
          · exact ha
          · exact fun hpass ↦ ha (htest b a (hfirst b hb) hpass)
        rw [List.filter_eq_nil_iff.mpr hnone, List.countP_eq_zero.mpr hnone, List.take_zero]

variable {before after : List ρ} {a : ρ}
  (h : (before ++ a :: after).Pairwise (Descending key))

include h

theorem length_lt_countP (ha : test a = true) :
    before.length < (before ++ a :: after).countP test := by
  have hbefore : before.countP test = before.length := by
    apply List.countP_eq_length.mpr
    intro b hb
    exact htest a b ((List.pairwise_append.mp h).2.2 b hb a List.mem_cons_self) ha
  rw [List.countP_append, hbefore, List.countP_cons_of_pos ha]
  omega

theorem countP_le_length (ha : test a = false) :
    (before ++ a :: after).countP test ≤ before.length := by
  have hafter : (a :: after).countP test = 0 := by
    apply List.countP_eq_zero.mpr
    intro b hb hpass
    have hba : key b ≤ key a := by
      rcases List.mem_cons.mp hb with rfl | hb
      · exact le_refl _
      · exact (List.pairwise_cons.mp (List.pairwise_append.mp h).2.1).1 b hb
    rw [htest b a hba hpass] at ha
    cases ha
  rw [List.countP_append, hafter]
  exact List.countP_le_length

end

theorem exists_split {k : ℕ} (h : k < rows.length) :
    ∃ before a after, rows = before ++ a :: after ∧ before.length = k := by
  refine ⟨rows.take k, rows[k], rows.drop (k + 1), ?_, List.length_take_of_le (le_of_lt h)⟩
  rw [← List.drop_eq_getElem_cons h, List.take_append_drop]

/-- The keys come out in the same order, whatever the ordering. -/
theorem map_key_eq {sorted' : List ρ} (h : IsOrdering (Descending key) rows sorted)
    (h' : IsOrdering (Descending key) rows sorted') : sorted.map key = sorted'.map key := by
  have hkeys : ∀ {l : List ρ}, l.Pairwise (Descending key) →
      (l.map key).Pairwise fun s t ↦ t ≤ s := by
    intro l hl
    rw [List.pairwise_map]
    exact hl
  apply List.Perm.eq_of_pairwise _ (hkeys h.pairwise) (hkeys h'.pairwise)
  · exact (h.perm.trans h'.perm.symm).map key
  · exact fun s t _ _ hst hts ↦ le_antisymm hts hst

/-! ## Pages that fit together -/

/-- At a boundary between different keys, a prefix has the same rows in every ordering. -/
theorem take_perm_take {sorted' : List ρ} {k : ℕ}
    (hk : ∀ t, rows.countP (t < key ·) < k → rows.countP (t ≤ key ·) ≤ k)
    (h : IsOrdering (Descending key) rows sorted) (h' : IsOrdering (Descending key) rows sorted') :
    sorted.take k ~ sorted'.take k := by
  have hperm : sorted ~ sorted' := h.perm.trans h'.perm.symm
  cases k with
  | zero => exact .refl _
  | succ k =>
      rcases Nat.lt_or_ge k sorted.length with hinside | hwhole
      · -- The last row of the prefix has the least key there.
        obtain ⟨before, last, after, hsplit, hlength⟩ := exists_split hinside
        have hsorted := h.pairwise
        rw [hsplit] at hsorted
        have hgreater := countP_le_length (upwardClosed_lt key (key last)) hsorted
          (decide_eq_false (lt_irrefl _))
        have hatLeast := length_lt_countP (upwardClosed_le key (key last)) hsorted
          (decide_eq_true (le_refl _))
        rw [← hsplit, hlength, h.perm.countP_eq] at hgreater hatLeast
        have hcount : rows.countP (key last ≤ key ·) = k + 1 := by
          have := hk (key last) (Nat.lt_succ_of_le hgreater)
          omega
        have htake : ∀ {l : List ρ}, IsOrdering (Descending key) rows l →
            l.take (k + 1) = l.filter (key last ≤ key ·) := by
          intro l hl
          rw [filter_eq_take (upwardClosed_le key (key last)) hl.pairwise, hl.perm.countP_eq,
            hcount]
        rw [htake h, htake h']
        exact hperm.filter _
      · have hwhole' : sorted'.length ≤ k := hperm.length_eq ▸ hwhole
        rw [List.take_of_length_le (by omega), List.take_of_length_le (by omega)]
        exact hperm

/-- Without ties across a boundary, pages of different orderings make up a prefix. -/
theorem concatPages_perm_take {limit : ℕ} (hties : ¬Straddles key limit rows)
    {orders : ℕ → List ρ} (horders : ∀ p, IsOrdering (Descending key) rows (orders p)) (n : ℕ)
    (h : IsOrdering (Descending key) rows sorted) :
    concatPages limit n orders ~ sorted.take (n * limit) := by
  induction n generalizing sorted with
  | zero =>
      rw [Nat.zero_mul]
      exact .refl _
  | succ n ih =>
      have hboundary : ∀ t, rows.countP (t < key ·) < (n + 1) * limit →
          rows.countP (t ≤ key ·) ≤ (n + 1) * limit := by
        intro t hlt
        by_contra hgt
        exact hties ⟨n + 1, t, hlt, Nat.lt_of_not_le hgt⟩
      calc
        concatPages limit (n + 1) orders
            ~ concatPages limit n orders ++ page limit n (orders n) := by
          rw [concatPages_succ]
        _ ~ (orders n).take (n * limit) ++ page limit n (orders n) :=
          (ih (horders n)).append_right _
        _ ~ (orders n).take ((n + 1) * limit) := by
          rw [take_append_page]
        _ ~ sorted.take ((n + 1) * limit) := take_perm_take hboundary (horders n) h

/-- The keys of the pages are those of any single ordering. -/
theorem map_key_concatPages {orders : ℕ → List ρ}
    (horders : ∀ p, IsOrdering (Descending key) rows (orders p)) (limit n : ℕ)
    (h : IsOrdering (Descending key) rows sorted) :
    (concatPages limit n orders).map key = (sorted.map key).take (n * limit) := by
  have hkeys : (fun p ↦ (orders p).map key) = fun _ ↦ sorted.map key := by
    funext p
    exact map_key_eq (horders p) h
  rw [map_concatPages, hkeys, concatPages_const]

/-- The pages come out in descending order in any case. -/
theorem pairwise_concatPages {orders : ℕ → List ρ}
    (horders : ∀ p, IsOrdering (Descending key) rows (orders p)) (limit n : ℕ) :
    (concatPages limit n orders).Pairwise (Descending key) := by
  have hkeys : ((concatPages limit n orders).map key).Pairwise fun s t ↦ t ≤ s := by
    rw [map_key_concatPages horders limit n (horders 0), ← List.map_take, List.pairwise_map]
    exact (horders 0).pairwise.sublist (List.take_sublist _ _)
  rw [List.pairwise_map] at hkeys
  exact hkeys

/-- The pages have as many rows as the table in any case. -/
theorem length_concatPages {limit : ℕ} (hlimit : 1 ≤ limit) {orders : ℕ → List ρ}
    (horders : ∀ p, IsOrdering (Descending key) rows (orders p)) :
    (concatPages limit (pageCount limit rows.length) orders).length = rows.length := by
  have hkeys := congrArg List.length
    (map_key_concatPages horders limit (pageCount limit rows.length) (horders 0))
  rw [List.length_map, List.length_take, List.length_map, (horders 0).perm.length_eq] at hkeys
  rw [hkeys]
  exact Nat.min_eq_right (le_pageCount_mul hlimit _)

/-- Pages without a repetition have room for no other rows. -/
theorem concatPages_perm_of_nodup {limit : ℕ} (hlimit : 1 ≤ limit) {orders : ℕ → List ρ}
    (horders : ∀ p, IsOrdering (Descending key) rows (orders p))
    (hnodup : (concatPages limit (pageCount limit rows.length) orders).Nodup) :
    concatPages limit (pageCount limit rows.length) orders ~ rows := by
  have hsubset : concatPages limit (pageCount limit rows.length) orders ⊆ rows := by
    intro a ha
    obtain ⟨p, -, ha⟩ := List.mem_flatMap.mp ha
    exact (horders p).perm.subset (List.mem_of_mem_drop (List.mem_of_mem_take ha))
  apply (List.subperm_of_subset hnodup hsubset).perm_of_length_le
  exact le_of_eq (length_concatPages hlimit horders).symm

/-! ## Pages that do not -/

/-- Two rows that share a key may change places. -/
theorem isOrdering_swap {before after : List ρ} {a b : ρ}
    (h : IsOrdering (Descending key) rows (before ++ a :: b :: after)) (hab : key a = key b) :
    IsOrdering (Descending key) rows (before ++ b :: a :: after) := by
  constructor
  · exact ((List.Perm.swap a b after).append_left before).trans h.perm
  · have hsorted := h.pairwise
    rw [List.pairwise_append, List.pairwise_cons, List.pairwise_cons] at hsorted ⊢
    obtain ⟨hbefore, ⟨ha, hb, hafter⟩, hcross⟩ := hsorted
    refine ⟨hbefore, ⟨?_, ?_, hafter⟩, ?_⟩
    · intro x hx
      rcases List.mem_cons.mp hx with rfl | hx
      · exact le_of_eq hab
      · exact hb x hx
    · intro x hx
      exact ha x (List.mem_cons_of_mem b hx)
    · intro x hx y hy
      apply hcross x hx y
      rwa [(List.Perm.swap a b after).mem_iff] at hy

/-- Around a boundary that separates a tie stand two rows that share a key. -/
theorem exists_tied_split {k : ℕ} {t : κ} (hlt : rows.countP (t < key ·) < k)
    (hgt : k < rows.countP (t ≤ key ·)) (h : IsOrdering (Descending key) rows sorted) :
    ∃ before a b after, sorted = before ++ a :: b :: after ∧ before.length + 1 = k ∧
      key a = key b := by
  obtain ⟨k, rfl⟩ : ∃ j, k = j + 1 := ⟨k - 1, by omega⟩
  have hlong : k + 1 < sorted.length := by
    rw [h.perm.length_eq]
    exact lt_of_lt_of_le hgt List.countP_le_length
  obtain ⟨before, a, rest, rfl, rfl⟩ := exists_split (Nat.lt_of_succ_lt hlong)
  cases rest with
  | nil =>
      rw [List.length_append, List.length_singleton] at hlong
      omega
  | cons b after =>
      refine ⟨before, a, b, after, rfl, rfl, le_antisymm ?_ ?_⟩
      · have hb : t ≤ key b := by
          by_contra hnot
          have hsorted := h.pairwise
          rw [List.append_cons] at hsorted
          have hcount := countP_le_length (upwardClosed_le key t) hsorted (decide_eq_false hnot)
          rw [← List.append_cons, h.perm.countP_eq, List.length_append, List.length_singleton]
            at hcount
          omega
        have ha : key a ≤ t := by
          by_contra hnot
          have hcount := length_lt_countP (upwardClosed_lt key t) h.pairwise
            (decide_eq_true (lt_of_not_ge hnot))
          rw [h.perm.countP_eq] at hcount
          omega
        exact le_trans ha hb
      · have hrest := (List.pairwise_append.mp h.pairwise).2.1
        exact (List.pairwise_cons.mp hrest).1 b List.mem_cons_self

theorem mem_page {before after : List ρ} {a : ρ} {limit p : ℕ} (hlow : p * limit ≤ before.length)
    (hhigh : before.length < p * limit + limit) : a ∈ page limit p (before ++ a :: after) := by
  rw [page, List.mem_iff_getElem?]
  refine ⟨before.length - p * limit, ?_⟩
  rw [List.getElem?_take_of_lt (by omega), List.getElem?_drop, Nat.add_sub_cancel' hlow,
    List.getElem?_append_right (le_refl _), Nat.sub_self, List.getElem?_cons_zero]

theorem not_nodup_concatPages {limit n p : ℕ} {orders : ℕ → List ρ} {a : ρ} (hp : p + 1 < n)
    (hfirst : a ∈ page limit p (orders p)) (hsecond : a ∈ page limit (p + 1) (orders (p + 1))) :
    ¬(concatPages limit n orders).Nodup := by
  intro hnodup
  have hdisjoint := (List.nodup_flatMap.mp hnodup).2
  rw [List.pairwise_iff_getElem] at hdisjoint
  have hpages := hdisjoint p (p + 1) (by rw [List.length_range]; omega)
    (by rw [List.length_range]; exact hp) (Nat.lt_succ_self p)
  rw [List.getElem_range, List.getElem_range] at hpages
  exact hpages hfirst hsecond

variable {limit : ℕ} (hlimit : 1 ≤ limit)

include hlimit

/-- A tie across a boundary lets a row stand on both of its sides. -/
theorem exists_not_nodup_of_straddles (hties : Straddles key limit rows) :
    ∃ orders : ℕ → List ρ, (∀ p, IsOrdering (Descending key) rows (orders p)) ∧
      ¬(concatPages limit (pageCount limit rows.length) orders).Nodup := by
  obtain ⟨p, t, hlt, hgt⟩ := hties
  cases p with
  | zero => omega
  | succ p =>
      obtain ⟨sorted, h⟩ := exists_isOrdering (Descending key)
        (fun _ _ _ hab hbc ↦ le_trans hbc hab) (fun a b ↦ le_total (key b) (key a)) rows
      obtain ⟨before, a, b, after, rfl, hlength, hab⟩ := exists_tied_split hlt hgt h
      have hlast : p + 1 < pageCount limit rows.length :=
        lt_pageCount hlimit (lt_of_lt_of_le hgt List.countP_le_length)
      rw [Nat.succ_mul] at hlength
      refine ⟨fun q ↦ if q = p then before ++ a :: b :: after else before ++ b :: a :: after,
        ?_, ?_⟩
      · intro q
        dsimp only
        split
        · exact h
        · exact isOrdering_swap h hab
      · apply not_nodup_concatPages (a := a) hlast
        · rw [if_pos rfl]
          apply mem_page
          · omega
          · omega
        · rw [if_neg (Nat.succ_ne_self p), List.append_cons]
          apply mem_page
          · rw [List.length_append, List.length_singleton, Nat.succ_mul]
            omega
          · rw [List.length_append, List.length_singleton, Nat.succ_mul]
            omega

/-- The pages list every row once, whatever their orderings, exactly when no boundary
separates a tie. -/
theorem forall_concatPages_perm_iff (hnodup : rows.Nodup) :
    (∀ orders : ℕ → List ρ, (∀ p, IsOrdering (Descending key) rows (orders p)) →
      concatPages limit (pageCount limit rows.length) orders ~ rows) ↔
        ¬Straddles key limit rows := by
  constructor
  · intro hperm hties
    obtain ⟨orders, horders, htwice⟩ := exists_not_nodup_of_straddles hlimit hties
    exact htwice ((hperm orders horders).nodup_iff.mpr hnodup)
  · intro hties orders horders
    have htake := concatPages_perm_take hties horders (pageCount limit rows.length) (horders 0)
    rw [List.take_of_length_le] at htake
    · exact htake.trans (horders 0).perm
    · rw [(horders 0).perm.length_eq]
      exact le_pageCount_mul hlimit _

end Data
