import LegalHold.Serde.Codec
import Mathlib.Logic.Equiv.Defs

/-!
# Formats

How the values of a type are written and read again, put together from the formats of their
parts.  What a written value says depends at no depth on the order of its members, or on others
that no field is named after; so a format tells which values say the same, and how they are
written is one way to say it.

Every field of a structure is always written here, and has to be there when it is read.

## Main definitions

* `Build` — values that arrays and objects are made of.
* `Format` — how a type is written and read, and what says what.
* `Format.listOf`, `Format.record` — formats of lists and of structures.

## Main results

* `mapM_read_eq_some_iff`, `visitMap_eq_some_iff` — **what is said is read**, item by item and
  field by field.
-/

namespace Serde

open JsonSchema

/-- A type of values in which arrays and objects can be made of other values. -/
class Build (V : Type) extends Value V where
  array : List V → V
  object : List (String × V) → V
  view_array : ∀ items, view (array items) = .array items
  view_object : ∀ members, view (object members) = .object members

/-- How the values of a type are written and read, with which of them survive and which values say
them. -/
structure Format (V α : Type) where
  write : α → V
  read : V → Option α
  /-- What is read again when it has been written. -/
  Valid : α → Prop
  /-- The value says this, in one way or another. -/
  Says : V → α → Prop
  says_write : ∀ a, Says (write a) a
  read_eq_some_iff : ∀ {v a b}, Says v a → (read v = some b ↔ b = a ∧ Valid a)

variable {V α : Type}

/-- What is said of something valid is read as this again. -/
theorem Format.read_of_says {F : Format V α} {v : V} {a : α} (h : F.Says v a) (ha : F.Valid a) :
    F.read v = some a := (F.read_eq_some_iff h).mpr ⟨rfl, ha⟩

/-! ### Lists -/

/-- **What is said is read**, item by item. -/
theorem mapM_read_eq_some_iff {F : Format V α} {items : List V} {as bs : List α}
    (h : List.Forall₂ F.Says items as) :
    items.mapM F.read = some bs ↔ bs = as ∧ ∀ a ∈ as, F.Valid a := by
  induction h generalizing bs with
  | nil => simp [eq_comm]
  | @cons v a items as hsaid _ ih =>
    rw [List.mapM_cons, List.forall_mem_cons]
    constructor
    · intro h
      obtain ⟨b, hb, h⟩ := Option.bind_eq_some_iff.mp h
      obtain ⟨bs', hbs, h⟩ := Option.bind_eq_some_iff.mp h
      obtain ⟨rfl, hvalid⟩ := (F.read_eq_some_iff hsaid).mp hb
      obtain ⟨rfl, hvalids⟩ := ih.mp hbs
      exact ⟨(Option.some.inj h).symm, hvalid, hvalids⟩
    · rintro ⟨rfl, hvalid, hvalids⟩
      rw [F.read_of_says hsaid hvalid, ih.mpr ⟨rfl, hvalids⟩]
      rfl

/-- The format of lists: an array that says the items one by one. -/
def Format.listOf [Build V] (F : Format V α) : Format V (List α) where
  write as := Build.array (as.map F.write)
  read v :=
    match Value.view v with
    | .array items => items.mapM F.read
    | _ => none
  Valid as := ∀ a ∈ as, F.Valid a
  Says v as := ∃ items, Value.view v = .array items ∧ List.Forall₂ F.Says items as
  says_write as := by
    refine ⟨as.map F.write, Build.view_array _, ?_⟩
    rw [List.forall₂_map_left_iff, List.forall₂_same]
    exact fun a _ => F.says_write a
  read_eq_some_iff := by
    rintro v as bs ⟨items, hview, hsaid⟩
    rw [hview]
    exact mapM_read_eq_some_iff hsaid

/-! ### Structures -/

/-- A field that has to be there, with the format of what it holds. -/
structure Slot (V : Type) : Type 1 where
  name : String
  Content : Type
  format : Format V Content

namespace Slot

/-- The slot as a field that is read. -/
def toField (s : Slot V) : Field V := ⟨s.name, s.Content, s.format.read, none, none⟩

/-- The members that are written for the fields. -/
def writeAll : (slots : List (Slot V)) → Contents (slots.map toField) → List (String × V)
  | [], _ => []
  | s :: slots, (content, contents) =>
    (s.name, s.format.write content) :: writeAll slots contents

/-- The members say what the fields hold, one member for each of them. -/
def SaysAll (members : List (String × V)) :
    (slots : List (Slot V)) → Contents (slots.map toField) → Prop
  | [], _ => True
  | s :: slots, (content, contents) =>
    (∃ v, s.toField.occurrences members = [(s.name, v)] ∧ s.format.Says v content) ∧
      SaysAll members slots contents

/-- All fields hold something that is read as itself again. -/
def ValidAll : (slots : List (Slot V)) → Contents (slots.map toField) → Prop
  | [], _ => True
  | s :: slots, (content, contents) => s.format.Valid content ∧ ValidAll slots contents

variable {slots : List (Slot V)} {contents contents' : Contents (slots.map toField)}
  {members : List (String × V)}

/-- **What is said is read**, field by field. -/
theorem visitMap_eq_some_iff (h : SaysAll members slots contents) :
    visitMap (slots.map toField) members = some contents' ↔
      contents' = contents ∧ ValidAll slots contents := by
  induction slots with
  | nil => exact ⟨fun _ => ⟨rfl, trivial⟩, fun _ => rfl⟩
  | cons s slots ih =>
    obtain ⟨content, contents⟩ := contents
    obtain ⟨content', contents'⟩ := contents'
    obtain ⟨⟨v, hoccurs, hsaid⟩, hrest⟩ := h
    have hfirst : s.toField.visitMap members = s.format.read v := by
      unfold Field.visitMap
      rw [hoccurs]
      rfl
    refine Contents.cons_eq_some.trans ?_
    rw [hfirst]
    refine (and_congr (s.format.read_eq_some_iff hsaid) (ih hrest)).trans ?_
    constructor
    · rintro ⟨⟨rfl, hvalid⟩, rfl, hvalids⟩
      exact ⟨rfl, hvalid, hvalids⟩
    · rintro ⟨heq, hvalid, hvalids⟩
      cases heq
      exact ⟨⟨rfl, hvalid⟩, rfl, hvalids⟩

/-- A member that no field is named after does not matter. -/
theorem SaysAll.cons (h : SaysAll members slots contents) {m : String × V}
    (hm : m.1 ∉ slots.map fun s => s.name) : SaysAll (m :: members) slots contents := by
  induction slots with
  | nil => trivial
  | cons s slots ih =>
    obtain ⟨content, contents⟩ := contents
    obtain ⟨⟨v, hoccurs, hsaid⟩, hrest⟩ := h
    obtain ⟨hne, hm⟩ := List.ne_and_not_mem_of_not_mem_cons hm
    refine ⟨⟨v, ?_, hsaid⟩, ih hrest hm⟩
    unfold Field.occurrences at hoccurs ⊢
    rw [List.filter_cons, if_neg (by simpa [toField] using hne)]
    exact hoccurs

/-- A field that is not among the written ones has no member among those that are written. -/
theorem occurrences_writeAll {f : Field V} (h : f.name ∉ slots.map fun s => s.name) :
    f.occurrences (writeAll slots contents) = [] := by
  induction slots with
  | nil => rfl
  | cons s slots ih =>
    obtain ⟨content, contents⟩ := contents
    obtain ⟨hne, h⟩ := List.ne_and_not_mem_of_not_mem_cons h
    have hrest : f.occurrences (writeAll slots contents) = [] := ih h
    unfold Field.occurrences at hrest ⊢
    rw [writeAll, List.filter_cons, if_neg (by simpa using Ne.symm hne)]
    exact hrest

/-- What is written says what the fields hold. -/
theorem saysAll_writeAll (hnodup : (slots.map fun s => s.name).Nodup) :
    SaysAll (writeAll slots contents) slots contents := by
  induction slots with
  | nil => trivial
  | cons s slots ih =>
    obtain ⟨content, contents⟩ := contents
    obtain ⟨hname, hnodup⟩ := List.nodup_cons.mp hnodup
    refine ⟨⟨_, ?_, s.format.says_write content⟩, (ih hnodup).cons hname⟩
    have hrest : s.toField.occurrences (writeAll slots contents) = [] :=
      occurrences_writeAll hname
    unfold Field.occurrences at hrest ⊢
    rw [writeAll, List.filter_cons, if_pos (by simp [toField]), hrest]

end Slot

/-- The format of structures with these fields: an object that has a member for each, in any order
and among others. -/
def Format.record [Build V] (slots : List (Slot V)) (hnodup : (slots.map fun s => s.name).Nodup)
    (e : α ≃ Contents (slots.map Slot.toField)) : Format V α where
  write a := Build.object (Slot.writeAll slots (e a))
  read v := (deserialize (slots.map Slot.toField) v).map e.symm
  Valid a := Slot.ValidAll slots (e a)
  Says v a := ∃ members, Value.view v = .object members ∧ Slot.SaysAll members slots (e a)
  says_write a := ⟨_, Build.view_object _, Slot.saysAll_writeAll hnodup⟩
  read_eq_some_iff := by
    rintro v a b ⟨members, hview, hsaid⟩
    unfold deserialize
    rw [hview, Option.map_eq_some_iff]
    constructor
    · rintro ⟨contents, hread, rfl⟩
      obtain ⟨rfl, hvalid⟩ := (Slot.visitMap_eq_some_iff hsaid).mp hread
      exact ⟨e.symm_apply_apply a, hvalid⟩
    · rintro ⟨rfl, hvalid⟩
      exact ⟨e b, (Slot.visitMap_eq_some_iff hsaid).mpr ⟨rfl, hvalid⟩, e.symm_apply_apply b⟩

end Serde
