import LegalHold.JsonSchema.Schema

/-!
# Derived deserializers

What the deserializer that is derived for a structure makes of a value.  An object is read
member by member: members that no field is named after are skipped, a field that occurs twice
is an error, and one that does not occur is an error unless there is something to put in its
place.  An array is read element by element, in the order in which the fields are declared.

The library fixes neither the values nor what a field reads from one.

## Main definitions

* `Field`, `Contents` — a declared field, and what the fields of a structure hold.
* `deserialize` — the structure that a value is read as.

## Main results

* `deserialize_isSome_iff` — **which values are read**.
-/

namespace Serde

open JsonSchema

/-- A declared field: its name, how it is read, and what it is when it is missing. -/
structure Field (V : Type) : Type 1 where
  name : String
  Content : Type
  read : V → Option Content
  /-- What it holds when an object has no such member, if it may be missing. -/
  missing : Option Content
  /-- What it holds when an array ends before it, if that is allowed. -/
  omitted : Option Content

variable {V : Type}

/-- What the fields of a structure hold, one after the other. -/
def Contents : List (Field V) → Type
  | [] => Unit
  | f :: fs => f.Content × Contents fs

/-- The contents with one more field that has been read. -/
def Contents.cons {f : Field V} {fs : List (Field V)} (content : Option f.Content)
    (contents : Option (Contents fs)) : Option (Contents (f :: fs)) :=
  content.bind fun c => contents.map fun cs => (c, cs)

theorem Contents.isSome_cons {f : Field V} {fs : List (Field V)} {content : Option f.Content}
    {contents : Option (Contents fs)} :
    (cons content contents).isSome = true ↔ content.isSome = true ∧ contents.isSome = true := by
  have heq : (cons content contents).isSome = (content.isSome && contents.isSome) := by
    cases content <;> cases contents <;> rfl
  rw [heq, Bool.and_eq_true]

namespace Field

/-- The members that are named after the field. -/
def occurrences (f : Field V) (members : List (String × V)) : List (String × V) :=
  members.filter fun m => m.1 == f.name

/-- The content of the field in an object. -/
def visitMap (f : Field V) (members : List (String × V)) : Option f.Content :=
  match f.occurrences members with
  | [] => f.missing
  | [m] => f.read m.2
  | _ => none

/-- The field is read from the members of an object. -/
def Found (f : Field V) (members : List (String × V)) : Prop :=
  (∃ m, f.occurrences members = [m] ∧ (f.read m.2).isSome = true) ∨
    (f.missing.isSome = true ∧ ∀ m ∈ members, m.1 ≠ f.name)

theorem visitMap_isSome_iff {f : Field V} {members : List (String × V)} :
    (f.visitMap members).isSome = true ↔ f.Found members := by
  have hnil : f.occurrences members = [] ↔ ∀ m ∈ members, m.1 ≠ f.name := by
    simp [occurrences]
  unfold visitMap Found
  rw [← hnil]
  match f.occurrences members with
  | [] => simp
  | [m] => simp
  | _ :: _ :: _ => simp

end Field

/-- The contents of the fields in an object. -/
def visitMap : (fields : List (Field V)) → List (String × V) → Option (Contents fields)
  | [], _ => some ()
  | f :: fs, members => Contents.cons (f.visitMap members) (visitMap fs members)

/-- The contents of the fields in an array. -/
def visitSeq : (fields : List (Field V)) → List V → Option (Contents fields)
  | [], [] => some ()
  | [], _ :: _ => none
  | f :: fs, [] => Contents.cons f.omitted (visitSeq fs [])
  | f :: fs, v :: vs => Contents.cons (f.read v) (visitSeq fs vs)

/-- The fields are read from the items of an array, in their order; those at the end may be left
off if they can be missing. -/
inductive Listed : List (Field V) → List V → Prop
  | nil : Listed [] []
  | omitted {f : Field V} {fs : List (Field V)} (h : f.omitted.isSome = true)
      (rest : Listed fs []) : Listed (f :: fs) []
  | cons {f : Field V} {fs : List (Field V)} {v : V} {vs : List V}
      (h : (f.read v).isSome = true) (rest : Listed fs vs) : Listed (f :: fs) (v :: vs)

theorem visitMap_isSome_iff {fields : List (Field V)} {members : List (String × V)} :
    (visitMap fields members).isSome = true ↔ ∀ f ∈ fields, f.Found members := by
  induction fields with
  | nil => exact ⟨fun _ f hf => (List.not_mem_nil hf).elim, fun _ => rfl⟩
  | cons f fs ih =>
    rw [List.forall_mem_cons, ← ih, ← Field.visitMap_isSome_iff]
    exact Contents.isSome_cons

theorem visitSeq_isSome_iff {fields : List (Field V)} {items : List V} :
    (visitSeq fields items).isSome = true ↔ Listed fields items := by
  induction fields generalizing items with
  | nil =>
    cases items with
    | nil => exact ⟨fun _ => .nil, fun _ => rfl⟩
    | cons v vs =>
      constructor
      · intro h
        cases h
      · intro h
        cases h
  | cons f fs ih =>
    cases items with
    | nil =>
      refine Contents.isSome_cons.trans ⟨fun h => .omitted h.1 (ih.mp h.2), fun h => ?_⟩
      cases h with
      | omitted homitted hrest => exact ⟨homitted, ih.mpr hrest⟩
    | cons v vs =>
      refine Contents.isSome_cons.trans ⟨fun h => .cons h.1 (ih.mp h.2), fun h => ?_⟩
      cases h with
      | cons hread hrest => exact ⟨hread, ih.mpr hrest⟩

/-- The structure that a value is read as. -/
def deserialize [Value V] (fields : List (Field V)) (v : V) : Option (Contents fields) :=
  match Value.view v with
  | .object members => visitMap fields members
  | .array items => visitSeq fields items
  | _ => none

/-- **Which values are read**: an object with every field in it, and an array of the fields. -/
theorem deserialize_isSome_iff [Value V] {fields : List (Field V)} {v : V} :
    (deserialize fields v).isSome = true ↔
      (∃ members, Value.view v = .object members ∧ ∀ f ∈ fields, f.Found members) ∨
        ∃ items, Value.view v = .array items ∧ Listed fields items := by
  unfold deserialize
  cases Value.view v with
  | object members => simp [visitMap_isSome_iff]
  | array items => simp [visitSeq_isSome_iff]
  | _ => simp

end Serde
