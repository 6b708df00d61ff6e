import Mathlib.Data.Fin.Basic
import Mathlib.Data.List.Forall2

/-!
# JSON values

Strings are sequences of UTF-16 code units, numbers are of any type `ν`.
-/

namespace Data

/-- A UTF-16 code unit; JavaScript compares strings by them. -/
abbrev CodeUnit : Type := Fin 65536

abbrev JsString : Type := List CodeUnit

def codeUnit (n : ℕ) : CodeUnit := Fin.ofNat 65536 n

def unit (c : Char) : CodeUnit := codeUnit c.toNat

/-- The code units of a character. -/
def utf16 (c : Char) : JsString :=
  if c.toNat < 0x10000 then [unit c]
  else [codeUnit (0xD800 + (c.toNat - 0x10000) / 0x400),
    codeUnit (0xDC00 + (c.toNat - 0x10000) % 0x400)]

def jsString (s : String) : JsString := s.toList.flatMap utf16

theorem jsString_ofList {cs : List Char} (h : ∀ c ∈ cs, c.toNat < 0x10000) :
    jsString (String.ofList cs) = cs.map unit := by
  rw [jsString, String.toList_ofList]
  induction cs with
  | nil => rfl
  | cons c cs ih =>
      obtain ⟨hc, hcs⟩ := List.forall_mem_cons.mp h
      rw [List.flatMap_cons, ih hcs, utf16, if_pos hc, List.map_cons, List.singleton_append]

inductive JsonValue (ν : Type) : Type where
  | null
  | bool (b : Bool)
  | num (x : ν)
  | str (s : JsString)
  | arr (items : List (JsonValue ν))
  | obj (members : List (JsString × JsonValue ν))

namespace JsonValue

variable {ν : Type}

/-- No object in the value has two members with one key. -/
inductive Distinct : JsonValue ν → Prop where
  | null : Distinct .null
  | bool (b : Bool) : Distinct (.bool b)
  | num (x : ν) : Distinct (.num x)
  | str (s : JsString) : Distinct (.str s)
  | arr {items : List (JsonValue ν)} (h : ∀ v ∈ items, Distinct v) : Distinct (.arr items)
  | obj {members : List (JsString × JsonValue ν)} (hkeys : (members.map Prod.fst).Nodup)
      (h : ∀ m ∈ members, Distinct m.2) : Distinct (.obj members)

/-- The values are equal up to the order of the members of objects. -/
inductive Same : JsonValue ν → JsonValue ν → Prop where
  | null : Same .null .null
  | bool (b : Bool) : Same (.bool b) (.bool b)
  | num (x : ν) : Same (.num x) (.num x)
  | str (s : JsString) : Same (.str s) (.str s)
  | arr {items items' : List (JsonValue ν)} (h : List.Forall₂ Same items items') :
      Same (.arr items) (.arr items')
  | obj {members shuffled members' : List (JsString × JsonValue ν)}
      (hkeys : members.map Prod.fst = shuffled.map Prod.fst)
      (h : List.Forall₂ Same (members.map Prod.snd) (shuffled.map Prod.snd))
      (hperm : shuffled.Perm members') : Same (.obj members) (.obj members')

/-- The induction over the depth of a value. -/
@[elab_as_elim]
theorem depthInduction {motive : JsonValue ν → Prop} (null : motive .null)
    (bool : ∀ b, motive (.bool b)) (num : ∀ x, motive (.num x)) (str : ∀ s, motive (.str s))
    (arr : ∀ items, (∀ v ∈ items, motive v) → motive (.arr items))
    (obj : ∀ members, (∀ m ∈ members, motive m.2) → motive (.obj members))
    (v : JsonValue ν) : motive v := by
  refine @JsonValue.rec ν motive (fun items ↦ ∀ v ∈ items, motive v)
    (fun members ↦ ∀ m ∈ members, motive m.2) (fun m ↦ motive m.2)
    null bool num str arr obj ?_ ?_ ?_ ?_ ?_ v
  · intro v hv
    cases hv
  · intro head tail hhead htail v hv
    rcases List.mem_cons.mp hv with rfl | hv
    · exact hhead
    · exact htail v hv
  · intro m hm
    cases hm
  · intro head tail hhead htail m hm
    rcases List.mem_cons.mp hm with rfl | hm
    · exact hhead
    · exact htail m hm
  · exact fun _ _ h ↦ h

end JsonValue

end Data
