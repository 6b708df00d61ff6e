import Mathlib.Data.List.Lex
import Mathlib.Data.List.Perm.Basic
import Mathlib.Data.List.Sort
import TransactionLedger.Data.Decimal
import TransactionLedger.Data.Delimited
import TransactionLedger.Data.JsonValue

/-!
# The request hash

`stableStringify` and `requestHash` of
`src/common/interceptors/idempotency.interceptor.ts`.  A body is a JSON document as
`JSON.parse` builds it: strings are sequences of UTF-16 code units, numbers are of any
type `ν`, and the keys of an object are pairwise different.
-/

namespace TransactionLedger

open Data

/-! ## The code -/

/-- `JSON.stringify` on strings and on finite numbers. -/
structure JsonStringify (ν : Type) where
  quote : JsString → JsString
  numeral : ν → JsString

section

variable {ν : Type} (js : JsonStringify ν)

mutual

def stableStringify : JsonValue ν → JsString
  | .null => ['n', 'u', 'l', 'l'].map unit
  | .bool true => ['t', 'r', 'u', 'e'].map unit
  | .bool false => ['f', 'a', 'l', 's', 'e'].map unit
  | .num x => js.numeral x
  | .str s => js.quote s
  | .arr items => unit '[' :: [unit ','].intercalate (stringifyItems items) ++ [unit ']']
  | .obj members =>
      unit '{' :: [unit ','].intercalate
        (((stringifyMembers members).mergeSort fun a b ↦ a.1 ≤ b.1).map fun m ↦
          js.quote m.1 ++ unit ':' :: m.2) ++ [unit '}']

/-- `obj.map(stableStringify)`. -/
def stringifyItems : List (JsonValue ν) → List JsString
  | [] => []
  | v :: items => stableStringify v :: stringifyItems items

/-- Each key with `stableStringify(obj[key])`. -/
def stringifyMembers : List (JsString × JsonValue ν) → List (JsString × JsString)
  | [] => []
  | (k, v) :: members => (k, stableStringify v) :: stringifyMembers members

end

/-- `request.body ?? {}`, hashed. -/
def requestHash (sha256 : JsString → String) (body : Option (JsonValue ν)) : String :=
  match body with
  | none | some .null => sha256 (stableStringify js (.obj []))
  | some v => sha256 (stableStringify js v)

end

/-! ## What the printers promise -/

/-- The code units of a numeral: digits, signs, the point and the exponent mark. -/
def numeralUnits : List CodeUnit :=
  ['0', '1', '2', '3', '4', '5', '6', '7', '8', '9', '+', '-', '.', 'e'].map unit

/-- A string is printed as a quoted text that delimits itself, a number as a numeral,
and neither printer gives two values one text. -/
structure JsonStringify.Lawful {ν : Type} (js : JsonStringify ν) : Prop where
  quote_injective : Function.Injective js.quote
  quote_delimits : ∀ s t rest rest', js.quote s ++ rest = js.quote t ++ rest' →
    js.quote s = js.quote t
  quote_head : ∀ s, ∃ tail, js.quote s = unit '"' :: tail
  numeral_injective : Function.Injective js.numeral
  numeral_ne_nil : ∀ x, js.numeral x ≠ []
  numeral_units : ∀ x, ∀ c ∈ js.numeral x, c ∈ numeralUnits

/-- What follows a value inside a document. -/
def Structural (c : CodeUnit) : Prop :=
  c = unit ',' ∨ c = unit ']' ∨ c = unit '}'

/-- What the first code unit of a text tells. -/
inductive Shape : Type where
  | null | yes | no | num | str | arr | obj
  deriving DecidableEq

def Shape.leads : Shape → List CodeUnit
  | .null => [unit 'n']
  | .yes => [unit 't']
  | .no => [unit 'f']
  | .num => numeralUnits
  | .str => [unit '"']
  | .arr => [unit '[']
  | .obj => [unit '{']

theorem Shape.eq_of_lead {a b : Shape} {c : CodeUnit} (ha : c ∈ a.leads) (hb : c ∈ b.leads) :
    a = b := by
  have h : a.leads.all (fun c ↦ c ∈ b.leads → a = b) := by
    cases a <;> cases b <;> decide
  exact of_decide_eq_true (List.all_eq_true.mp h c ha) hb

theorem Shape.not_structural {a : Shape} {c : CodeUnit} (ha : c ∈ a.leads) :
    c ≠ unit ',' ∧ c ≠ unit ']' ∧ c ≠ unit '}' := by
  have h : a.leads.all (fun c ↦ c ≠ unit ',' ∧ c ≠ unit ']' ∧ c ≠ unit '}') := by
    cases a <;> decide
  exact of_decide_eq_true (List.all_eq_true.mp h c ha)

section

variable {ν : Type} {js : JsonStringify ν}

def shape : JsonValue ν → Shape
  | .null => .null
  | .bool true => .yes
  | .bool false => .no
  | .num _ => .num
  | .str _ => .str
  | .arr _ => .arr
  | .obj _ => .obj

theorem stableStringify_lead (h : js.Lawful) (v : JsonValue ν) :
    ∃ c tail, stableStringify js v = c :: tail ∧ c ∈ (shape v).leads := by
  cases v with
  | null => exact ⟨_, _, rfl, List.mem_cons_self⟩
  | bool b => cases b <;> exact ⟨_, _, rfl, List.mem_cons_self⟩
  | num x =>
      obtain ⟨c, tail, hx⟩ := List.exists_cons_of_ne_nil (h.numeral_ne_nil x)
      exact ⟨c, tail, hx, h.numeral_units x c (hx ▸ List.mem_cons_self)⟩
  | str s =>
      obtain ⟨tail, hs⟩ := h.quote_head s
      exact ⟨_, tail, hs, List.mem_cons_self⟩
  | arr items => exact ⟨_, _, rfl, List.mem_cons_self⟩
  | obj members => exact ⟨_, _, rfl, List.mem_cons_self⟩

/-- The values are made by one constructor, and are the same truth value if they are one. -/
inductive Matching : JsonValue ν → JsonValue ν → Prop where
  | null : Matching .null .null
  | bool (b : Bool) : Matching (.bool b) (.bool b)
  | num (x y : ν) : Matching (.num x) (.num y)
  | str (s t : JsString) : Matching (.str s) (.str t)
  | arr (items items' : List (JsonValue ν)) : Matching (.arr items) (.arr items')
  | obj (members members' : List (JsString × JsonValue ν)) :
      Matching (.obj members) (.obj members')

theorem matching_of_shape {v w : JsonValue ν} (h : shape v = shape w) : Matching v w := by
  rcases v with _ | (_ | _) | _ | _ | _ | _ <;> rcases w with _ | (_ | _) | _ | _ | _ | _ <;>
    first | constructor | cases h

/-- The first letters of texts that begin alike tell how the values are made. -/
theorem matching_of_append (h : js.Lawful) {v w : JsonValue ν} {rest rest' : JsString}
    (heq : stableStringify js v ++ rest = stableStringify js w ++ rest') : Matching v w := by
  obtain ⟨c, tail, hv, hc⟩ := stableStringify_lead h v
  obtain ⟨c', tail', hw, hc'⟩ := stableStringify_lead h w
  rw [hv, hw] at heq
  obtain ⟨rfl, -⟩ := List.cons.inj heq
  exact matching_of_shape (Shape.eq_of_lead hc hc')

theorem stringifyItems_eq_map (items : List (JsonValue ν)) :
    stringifyItems js items = items.map (stableStringify js) := by
  induction items with
  | nil => rfl
  | cons v items ih => rw [stringifyItems, ih, List.map_cons]

theorem stringifyMembers_eq_map (members : List (JsString × JsonValue ν)) :
    stringifyMembers js members = members.map fun m ↦ (m.1, stableStringify js m.2) := by
  induction members with
  | nil => rfl
  | cons m members ih => rw [stringifyMembers, ih, List.map_cons]

/-! ## Reading a text back -/

theorem structural_not_numeral (c : CodeUnit) (hc : c ∈ numeralUnits) : ¬Structural c := by
  obtain ⟨hcomma, hbracket, hbrace⟩ := Shape.not_structural (a := .num) hc
  rintro (rfl | rfl | rfl)
  · exact hcomma rfl
  · exact hbracket rfl
  · exact hbrace rfl

/-- The text of one member: `JSON.stringify(k) + ':' + stableStringify(obj[k])`. -/
def memberText (js : JsonStringify ν) (m : JsString × JsString) : JsString :=
  js.quote m.1 ++ unit ':' :: m.2

theorem memberText_append (h : js.Lawful) {m m' : JsString × JsString} {rest rest' : JsString}
    (heq : memberText js m ++ rest = memberText js m' ++ rest') :
    m.1 = m'.1 ∧ m.2 ++ rest = m'.2 ++ rest' := by
  simp only [memberText, List.append_assoc, List.cons_append] at heq
  have hquote := h.quote_delimits _ _ _ _ heq
  rw [hquote] at heq
  exact ⟨h.quote_injective hquote, (List.cons.inj (List.append_cancel_left heq)).2⟩

theorem memberText_injective (h : js.Lawful) : Function.Injective (memberText js) := by
  intro m m' heq
  have hnil : memberText js m ++ [] = memberText js m' ++ [] := congrArg (· ++ []) heq
  obtain ⟨hkey, htext⟩ := memberText_append h hnil
  simp only [List.append_nil] at htext
  exact Prod.ext hkey htext

def sortMembers {α : Type} (members : List (JsString × α)) : List (JsString × α) :=
  members.mergeSort fun a b ↦ a.1 ≤ b.1

/-- The items of an array are read off its text. -/
theorem items_of_append (h : js.Lawful) {items items' : List (JsonValue ν)}
    {rest rest' : JsString}
    (hitems : ∀ v ∈ items, ∀ w, Delimited Structural (stableStringify js v)
      (stableStringify js w))
    (heq : stableStringify js (.arr items) ++ rest = stableStringify js (.arr items') ++ rest') :
    stringifyItems js items = stringifyItems js items' ∧ rest = rest' := by
  have hopens : ∀ items : List (JsonValue ν), ∀ x ∈ stringifyItems js items,
      Opens (unit ']') x := by
    intro items x hx
    rw [stringifyItems_eq_map] at hx
    obtain ⟨v, -, rfl⟩ := List.mem_map.mp hx
    obtain ⟨c, tail, hv, hc⟩ := stableStringify_lead h v
    exact ⟨c, tail, hv, (Shape.not_structural hc).2.1⟩
  simp only [stableStringify, List.cons_append, List.append_assoc, List.nil_append] at heq
  refine intercalate_inj Structural (.inl rfl) (.inr (.inl rfl)) (by decide) (hopens items)
    (hopens items') ?_ (List.cons.inj heq).2
  intro x hx y hy
  rw [stringifyItems_eq_map] at hx hy
  obtain ⟨v, hv, rfl⟩ := List.mem_map.mp hx
  obtain ⟨w, -, rfl⟩ := List.mem_map.mp hy
  exact hitems v hv w

/-- The sorted members of an object are read off its text. -/
theorem members_of_append (h : js.Lawful) {members members' : List (JsString × JsonValue ν)}
    {rest rest' : JsString}
    (hmembers : ∀ m ∈ members, ∀ w, Delimited Structural (stableStringify js m.2)
      (stableStringify js w))
    (heq : stableStringify js (.obj members) ++ rest =
      stableStringify js (.obj members') ++ rest') :
    sortMembers (stringifyMembers js members) = sortMembers (stringifyMembers js members') ∧
      rest = rest' := by
  have hopens : ∀ members : List (JsString × JsonValue ν),
      ∀ x ∈ (sortMembers (stringifyMembers js members)).map (memberText js),
        Opens (unit '}') x := by
    intro members x hx
    obtain ⟨m, -, rfl⟩ := List.mem_map.mp hx
    obtain ⟨tail, hquote⟩ := h.quote_head m.1
    exact ⟨unit '"', tail ++ unit ':' :: m.2, by rw [memberText, hquote, List.cons_append],
      by decide⟩
  have hvalue : ∀ members : List (JsString × JsonValue ν),
      ∀ m ∈ sortMembers (stringifyMembers js members),
        ∃ m' ∈ members, m.2 = stableStringify js m'.2 := by
    intro members m hm
    rw [sortMembers, List.mem_mergeSort, stringifyMembers_eq_map] at hm
    obtain ⟨m', hm', rfl⟩ := List.mem_map.mp hm
    exact ⟨m', hm', rfl⟩
  simp only [stableStringify, List.cons_append, List.append_assoc, List.nil_append] at heq
  have hread := intercalate_inj Structural (.inl rfl) (.inr (.inr rfl)) (by decide)
    (hopens members) (hopens members') ?_ (List.cons.inj heq).2
  · exact ⟨List.map_injective_iff.mpr (memberText_injective h) hread.1, hread.2⟩
  · intro x hx y hy r r' hr hr' hsame
    obtain ⟨m, hm, rfl⟩ := List.mem_map.mp hx
    obtain ⟨m', hm', rfl⟩ := List.mem_map.mp hy
    obtain ⟨hkey, htext⟩ := memberText_append h hsame
    obtain ⟨v, hv, hmv⟩ := hvalue members m hm
    obtain ⟨w, -, hmw⟩ := hvalue members' m' hm'
    rw [hmv, hmw] at htext
    obtain ⟨heq, hrest⟩ := hmembers v hv w.2 r r' hr hr' htext
    refine ⟨congrArg (memberText js) (Prod.ext hkey ?_), hrest⟩
    rw [hmv, hmw, heq]

/-- The text of a value shows where it ends. -/
theorem delimited_stableStringify (h : js.Lawful) (v : JsonValue ν) :
    ∀ w, Delimited Structural (stableStringify js v) (stableStringify js w) := by
  induction v using JsonValue.depthInduction with
  | null =>
      intro w rest rest' hrest hrest' heq
      cases matching_of_append h heq with
      | null => exact ⟨rfl, List.append_cancel_left heq⟩
  | bool b =>
      intro w rest rest' hrest hrest' heq
      cases matching_of_append h heq with
      | bool => exact ⟨rfl, List.append_cancel_left heq⟩
  | num x =>
      intro w rest rest' hrest hrest' heq
      cases matching_of_append h heq with
      | num _ y =>
          exact delimited_of_alphabet structural_not_numeral (h.numeral_units x)
            (h.numeral_units y) rest rest' hrest hrest' heq
  | str s =>
      intro w rest rest' hrest hrest' heq
      cases matching_of_append h heq with
      | str _ t =>
          have hquote := h.quote_delimits s t rest rest' heq
          refine ⟨hquote, ?_⟩
          simp only [stableStringify, hquote] at heq
          exact List.append_cancel_left heq
  | arr items ih =>
      intro w rest rest' hrest hrest' heq
      cases matching_of_append h heq with
      | arr _ items' =>
          obtain ⟨hitems, hsame⟩ := items_of_append h ih heq
          exact ⟨by simp only [stableStringify, hitems], hsame⟩
  | obj members ih =>
      intro w rest rest' hrest hrest' heq
      cases matching_of_append h heq with
      | obj _ members' =>
          obtain ⟨hmembers, hsame⟩ := members_of_append h ih heq
          simp only [sortMembers] at hmembers
          exact ⟨by simp only [stableStringify, hmembers], hsame⟩

/-! ## The canonical form -/

theorem forall₂_same (js : JsonStringify ν) {items items' : List (JsonValue ν)}
    (hitems : ∀ v ∈ items, ∀ w, stableStringify js v = stableStringify js w → v.Same w)
    (heq : items.map (stableStringify js) = items'.map (stableStringify js)) :
    List.Forall₂ JsonValue.Same items items' := by
  induction items generalizing items' with
  | nil =>
      obtain rfl := List.map_eq_nil_iff.mp heq.symm
      exact .nil
  | cons v items ih =>
      cases items' with
      | nil => cases heq
      | cons w items' =>
          obtain ⟨hvw, htail⟩ := List.cons.inj heq
          exact .cons (hitems v List.mem_cons_self w hvw)
            (ih (fun u hu ↦ hitems u (List.mem_cons_of_mem _ hu)) htail)

theorem map_eq_of_forall₂ (js : JsonStringify ν) {items items' : List (JsonValue ν)}
    (h : List.Forall₂ JsonValue.Same items items')
    (hitems : ∀ v ∈ items, ∀ w ∈ items', v.Same w → stableStringify js v = stableStringify js w) :
    items.map (stableStringify js) = items'.map (stableStringify js) := by
  induction h with
  | nil => rfl
  | cons hvw _ ih =>
      rw [List.map_cons, List.map_cons,
        hitems _ List.mem_cons_self _ List.mem_cons_self hvw,
        ih fun v hv w hw ↦ hitems v (List.mem_cons_of_mem _ hv) w (List.mem_cons_of_mem _ hw)]

theorem exists_shuffled {members members' : List (JsString × JsonValue ν)}
    (h : sortMembers (stringifyMembers js members) =
      sortMembers (stringifyMembers js members')) :
    ∃ shuffled : List (JsString × JsonValue ν),
      (members.map fun m ↦ (m.1, stableStringify js m.2)) =
        shuffled.map (fun m ↦ (m.1, stableStringify js m.2)) ∧ shuffled.Perm members' := by
  have hperm : (stringifyMembers js members).Perm (stringifyMembers js members') := by
    calc
      (stringifyMembers js members).Perm (sortMembers (stringifyMembers js members)) :=
        (List.mergeSort_perm ..).symm
      _ = sortMembers (stringifyMembers js members') := h
      List.Perm _ (stringifyMembers js members') := List.mergeSort_perm ..
  rw [stringifyMembers_eq_map, stringifyMembers_eq_map] at hperm
  have hcomp := List.eq_map_comp_perm
    fun m : JsString × JsonValue ν ↦ (m.1, stableStringify js m.2)
  exact (congrFun (congrFun hcomp _) members').mpr hperm

/-- Members with different keys have one sorted order. -/
theorem sortMembers_eq_of_perm {α : Type} {members members' : List (JsString × α)}
    (hperm : members.Perm members') (hkeys : (members.map Prod.fst).Nodup) :
    sortMembers members = sortMembers members' := by
  have hsorted : ∀ l : List (JsString × α),
      (sortMembers l).Pairwise fun a b ↦ decide (a.1 ≤ b.1) = true := by
    intro l
    apply List.pairwise_mergeSort
    · intro a b c hab hbc
      simp only [decide_eq_true_eq] at hab hbc ⊢
      exact hab.trans hbc
    · intro a b
      simpa using le_total a.1 b.1
  have hsame : (sortMembers members).Perm (sortMembers members') :=
    (List.mergeSort_perm ..).trans (hperm.trans (List.mergeSort_perm ..).symm)
  refine hsame.eq_of_pairwise ?_ (hsorted members) (hsorted members')
  intro a b ha hb hab hba
  simp only [decide_eq_true_eq] at hab hba
  have ha' : a ∈ members := List.mem_mergeSort.mp ha
  have hb' : b ∈ members := hperm.mem_iff.mpr (List.mem_mergeSort.mp hb)
  exact List.inj_on_of_nodup_map hkeys ha' hb' (le_antisymm hab hba)

theorem stringifyMembers_perm {members members' : List (JsString × JsonValue ν)}
    (h : members.Perm members') :
    (stringifyMembers js members).Perm (stringifyMembers js members') := by
  rw [stringifyMembers_eq_map, stringifyMembers_eq_map]
  exact h.map _

theorem stringifyMembers_eq_zip (members : List (JsString × JsonValue ν)) :
    stringifyMembers js members =
      (members.map Prod.fst).zip ((members.map Prod.snd).map (stableStringify js)) := by
  induction members with
  | nil => rfl
  | cons m members ih => rw [stringifyMembers, ih, List.map_cons, List.map_cons, List.map_cons,
      List.zip_cons_cons]

theorem keys_stringifyMembers (members : List (JsString × JsonValue ν)) :
    (stringifyMembers js members).map Prod.fst = members.map Prod.fst := by
  rw [stringifyMembers_eq_map, List.map_map]
  rfl

/-- Values with one text are the same document. -/
theorem same_of_stableStringify (h : js.Lawful) (v : JsonValue ν) :
    ∀ w, stableStringify js v = stableStringify js w → v.Same w := by
  induction v using JsonValue.depthInduction with
  | arr items ih =>
      intro w heq
      have hnil : stableStringify js (.arr items) ++ [] = stableStringify js w ++ [] :=
        congrArg (· ++ []) heq
      cases matching_of_append h hnil with
      | arr _ items' =>
          obtain ⟨hitems, -⟩ :=
            items_of_append h (fun v _ ↦ delimited_stableStringify h v) hnil
          rw [stringifyItems_eq_map, stringifyItems_eq_map] at hitems
          exact .arr (forall₂_same js ih hitems)
  | obj members ih =>
      intro w heq
      have hnil : stableStringify js (.obj members) ++ [] = stableStringify js w ++ [] :=
        congrArg (· ++ []) heq
      cases matching_of_append h hnil with
      | obj _ members' =>
          obtain ⟨hsorted, -⟩ :=
            members_of_append h (fun m _ ↦ delimited_stableStringify h m.2) hnil
          obtain ⟨shuffled, htexts, hperm⟩ := exists_shuffled hsorted
          have hkeys := congrArg (List.map Prod.fst) htexts
          have hvalues := congrArg (List.map Prod.snd) htexts
          rw [List.map_map, List.map_map] at hkeys hvalues
          refine .obj hkeys (forall₂_same js ?_ ?_) hperm
          · intro v hv
            obtain ⟨m, hm, rfl⟩ := List.mem_map.mp hv
            exact ih m hm
          · rw [List.map_map, List.map_map]
            exact hvalues
  | null =>
      intro w heq
      cases matching_of_append h (congrArg (· ++ []) heq) with
      | null => exact .null
  | bool b =>
      intro w heq
      cases matching_of_append h (congrArg (· ++ []) heq) with
      | bool => exact .bool b
  | num x =>
      intro w heq
      cases matching_of_append h (congrArg (· ++ []) heq) with
      | num _ y =>
          obtain rfl := h.numeral_injective heq
          exact .num x
  | str s =>
      intro w heq
      cases matching_of_append h (congrArg (· ++ []) heq) with
      | str _ t =>
          obtain rfl := h.quote_injective heq
          exact .str s

/-- The same document has one text. -/
theorem stableStringify_of_same (v : JsonValue ν) :
    ∀ w, v.Same w → v.Distinct → w.Distinct → stableStringify js v = stableStringify js w := by
  induction v using JsonValue.depthInduction with
  | arr items ih =>
      intro w hsame hv hw
      cases hsame with
      | arr hitems =>
          cases hv with
          | arr hv =>
              cases hw with
              | arr hw =>
                  have htexts := map_eq_of_forall₂ js hitems fun u hu u' hu' h ↦
                    ih u hu u' h (hv u hu) (hw u' hu')
                  simp only [stableStringify, stringifyItems_eq_map, htexts]
  | obj members ih =>
      intro w hsame hv hw
      cases hsame with
      | @obj _ shuffled members' hkeys hvalues hperm =>
          cases hv with
          | obj hnodup hv =>
              cases hw with
              | obj hnodup' hw =>
                  have hvalues := map_eq_of_forall₂ js hvalues fun u hu u' hu' h ↦ by
                    obtain ⟨m, hm, rfl⟩ := List.mem_map.mp hu
                    obtain ⟨m', hm', rfl⟩ := List.mem_map.mp hu'
                    exact ih m hm _ h (hv m hm) (hw m' (hperm.mem_iff.mp hm'))
                  have htexts : stringifyMembers js members = stringifyMembers js shuffled := by
                    rw [stringifyMembers_eq_zip, stringifyMembers_eq_zip, hkeys, hvalues]
                  have hnodup : ((stringifyMembers js shuffled).map Prod.fst).Nodup := by
                    rw [keys_stringifyMembers, ← hkeys]
                    exact hnodup
                  have hsorted := sortMembers_eq_of_perm (stringifyMembers_perm hperm) hnodup
                  simp only [sortMembers] at hsorted
                  simp only [stableStringify, htexts, hsorted]
  | null | bool b | num x | str s =>
      intro w hsame _ _
      cases hsame
      rfl

end

/-- A JSON document: no object in it has two members with one key. -/
structure JsonDocument (ν : Type) where
  value : JsonValue ν
  distinct : value.Distinct

/-- `{}`. -/
def JsonDocument.empty (ν : Type) : JsonDocument ν where
  value := .obj []
  distinct := .obj List.nodup_nil fun m hm ↦ by cases hm

/-- The document that is hashed, `request.body ?? {}`. -/
def hashedDocument {ν : Type} (body : Option (JsonDocument ν)) : JsonDocument ν :=
  match body with
  | none => .empty ν
  | some ⟨.null, _⟩ => .empty ν
  | some v => v

theorem requestHash_eq {ν : Type} (js : JsonStringify ν) (sha256 : JsString → String)
    (body : Option (JsonDocument ν)) :
    requestHash js sha256 (body.map JsonDocument.value) =
      sha256 (stableStringify js (hashedDocument body).value) := by
  rcases body with _ | ⟨value, hdistinct⟩
  · rfl
  · cases value <;> rfl

/-- `stableStringify` gives two documents one text exactly when they are equal up to the
order of members; so does the hash of two bodies, as long as no two canonical texts
collide.  A missing or `null` body counts as `{}`. -/
theorem stableStringify_canonical {ν : Type} (js : JsonStringify ν) (h : js.Lawful)
    (sha256 : JsString → String)
    (hcollision : ∀ v w : JsonValue ν,
      sha256 (stableStringify js v) = sha256 (stableStringify js w) →
        stableStringify js v = stableStringify js w) :
    (∀ v w : JsonDocument ν,
      stableStringify js v.value = stableStringify js w.value ↔ v.value.Same w.value) ∧
    ∀ body body' : Option (JsonDocument ν),
      requestHash js sha256 (body.map JsonDocument.value) =
          requestHash js sha256 (body'.map JsonDocument.value) ↔
        (hashedDocument body).value.Same (hashedDocument body').value := by
  have hcanonical : ∀ v w : JsonDocument ν,
      stableStringify js v.value = stableStringify js w.value ↔ v.value.Same w.value :=
    fun v w ↦ ⟨same_of_stableStringify h v.value w.value,
      fun hsame ↦ stableStringify_of_same v.value w.value hsame v.distinct w.distinct⟩
  refine ⟨hcanonical, fun body body' ↦ ?_⟩
  rw [requestHash_eq, requestHash_eq, ← hcanonical]
  exact ⟨hcollision _ _, congrArg sha256⟩

/-! ## A printer of single digits -/

/-- A code unit inside a quoted text; only quotes and backslashes are escaped. -/
def escaped (c : CodeUnit) : JsString :=
  if c = unit '"' ∨ c = unit '\\' then [unit '\\', c] else [c]

/-- The numbers are the digits from 0 to 9. -/
def digitStringify : JsonStringify Digit where
  quote s := unit '"' :: s.flatMap escaped ++ [unit '"']
  numeral x := [codeUnit (48 + x)]

theorem escaped_append {s t rest rest' : JsString}
    (h : s.flatMap escaped ++ unit '"' :: rest = t.flatMap escaped ++ unit '"' :: rest') :
    s = t := by
  have hhead : ∀ (c : CodeUnit) (tail tail' : JsString),
      escaped c ++ tail ≠ unit '"' :: tail' := by
    intro c tail tail' h
    unfold escaped at h
    split at h
    · exact absurd (List.cons.inj h).1 (by decide)
    · rename_i hc
      exact hc (.inl (List.cons.inj h).1)
  have hnext : ∀ (c c' : CodeUnit) (tail tail' : JsString),
      escaped c ++ tail = escaped c' ++ tail' → c = c' ∧ tail = tail' := by
    intro c c' tail tail' h
    unfold escaped at h
    split at h <;> split at h
    · obtain ⟨-, h⟩ := List.cons.inj h
      exact List.cons.inj h
    · rename_i hc hc'
      exact absurd (.inr (List.cons.inj h).1.symm) hc'
    · rename_i hc hc'
      exact absurd (.inr (List.cons.inj h).1) hc
    · exact List.cons.inj h
  induction s generalizing t with
  | nil =>
      cases t with
      | nil => rfl
      | cons c t =>
          rw [List.flatMap_cons, List.append_assoc] at h
          exact absurd h.symm (hhead c _ _)
  | cons c s ih =>
      cases t with
      | nil =>
          rw [List.flatMap_cons, List.append_assoc] at h
          exact absurd h (hhead c _ _)
      | cons c' t =>
          rw [List.flatMap_cons, List.flatMap_cons, List.append_assoc, List.append_assoc] at h
          obtain ⟨rfl, htail⟩ := hnext c c' _ _ h
          rw [ih htail]

theorem digitStringify_lawful : digitStringify.Lawful where
  quote_injective s t h := by
    simp only [digitStringify, List.cons_append, List.cons.injEq, true_and] at h
    exact escaped_append h
  quote_delimits s t rest rest' h := by
    simp only [digitStringify, List.cons_append, List.append_assoc, List.nil_append,
      List.cons.injEq, true_and] at h
    rw [escaped_append h]
  quote_head s := ⟨_, rfl⟩
  numeral_injective := by
    intro x y h
    revert x y
    decide
  numeral_ne_nil x h := by cases h
  numeral_units := by
    intro x c hc
    obtain rfl := List.mem_singleton.mp hc
    revert x
    decide

/-- A digest without collisions: each code unit becomes a character of its own. -/
def spelled (s : JsString) : String :=
  String.ofList (s.map fun c : CodeUnit ↦ Char.ofNat (65536 + c.val))

theorem spelled_injective : Function.Injective spelled := by
  have hunit : ∀ c : CodeUnit, (Char.ofNat (65536 + c.val)).toNat = 65536 + c.val := by
    intro c
    have hvalid : (65536 + c.val).isValidChar := by
      right
      omega
    rw [Char.ofNat, dif_pos hvalid]
    rfl
  intro s t h
  refine List.map_injective_iff.mpr ?_ (String.ofList_injective h)
  intro c c' hc
  have hnat := congrArg Char.toNat hc
  rw [hunit, hunit] at hnat
  apply Fin.ext
  omega

/-- `{"b":2,"a":1}`. -/
def laterFirst : JsonDocument Digit where
  value := .obj [([unit 'b'], .num 2), ([unit 'a'], .num 1)]
  distinct := by
    refine .obj (by decide) fun m hm ↦ ?_
    rcases List.mem_cons.mp hm with rfl | hm
    · exact .num 2
    · obtain rfl := List.mem_singleton.mp hm
      exact .num 1

/-- `{"a":1,"b":2}`. -/
def earlierFirst : JsonDocument Digit where
  value := .obj [([unit 'a'], .num 1), ([unit 'b'], .num 2)]
  distinct := by
    refine .obj (by decide) fun m hm ↦ ?_
    rcases List.mem_cons.mp hm with rfl | hm
    · exact .num 1
    · obtain rfl := List.mem_singleton.mp hm
      exact .num 2

theorem stableStringify_canonical_keyOrder :
    stableStringify digitStringify laterFirst.value =
        stableStringify digitStringify earlierFirst.value ∧
      requestHash digitStringify spelled (some laterFirst.value) =
        requestHash digitStringify spelled (some earlierFirst.value) := by
  have hsame : laterFirst.value.Same earlierFirst.value :=
    .obj rfl (.cons (.num 2) (.cons (.num 1) .nil)) (List.Perm.swap ..)
  have hcanonical := stableStringify_canonical digitStringify digitStringify_lawful spelled
    fun _ _ h ↦ spelled_injective h
  exact ⟨(hcanonical.1 laterFirst earlierFirst).mpr hsame,
    (hcanonical.2 (some laterFirst) (some earlierFirst)).mpr hsame⟩

end TransactionLedger
