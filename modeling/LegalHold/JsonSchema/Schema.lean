import Mathlib.Algebra.Group.Int.Defs
import Mathlib.Computability.RegularExpressions
import Mathlib.Data.Set.Basic

/-!
# JSON Schema

Schemas as data, and the values they accept.  The library does not fix the type of the
values: it needs to know what a value looks like from outside, a number or a text, a list
of values or one of named members.

The keywords are those of types, bounds, patterns and enumerations of texts; a schema of
objects lists properties and required members, and may forbid all others.  `format` is an
annotation and accepts everything.

## Main definitions

* `View`, `Value` — what a value looks like.
* `Keywords`, `Schema`, `Schema.accepts` — schemas and what they accept.
* `Schema.shape` — a schema without its bounds: the members and their types.

## Main results

* `digits_rmatch` — what a pattern of one character and any number of others matches.
* `Schema.accepts_iff` — **what is accepted**.
* `Schema.accepts_record_iff` — the same for an object that allows no other members.
-/

namespace JsonSchema

universe u

/-! ### Patterns -/

section

variable {α : Type u}

/-- The expression that matches one of the characters. -/
def oneOf : List α → RegularExpression α
  | [] => 0
  | c :: cs => .char c + oneOf cs

/-- One of the characters `first`, and any number of `rest` after it. -/
def digits (first rest : List α) : RegularExpression α := oneOf first * (oneOf rest).star

theorem mem_oneOf {cs : List α} {x : List α} : x ∈ (oneOf cs).matches' ↔ ∃ c ∈ cs, x = [c] := by
  induction cs with
  | nil => exact ⟨fun h => h.elim, fun ⟨_, hmem, _⟩ => by cases hmem⟩
  | cons c cs ih =>
    have hadd : x ∈ (oneOf (c :: cs)).matches' ↔ x = [c] ∨ x ∈ (oneOf cs).matches' := Iff.rfl
    rw [hadd, ih]
    simp

theorem mem_star_oneOf {cs : List α} {x : List α} :
    x ∈ (oneOf cs).star.matches' ↔ ∀ c ∈ x, c ∈ cs := by
  rw [RegularExpression.matches'_star, Language.mem_kstar]
  constructor
  · rintro ⟨words, rfl, hwords⟩ c hc
    obtain ⟨word, hword, hc⟩ := List.mem_flatten.mp hc
    obtain ⟨d, hd, rfl⟩ := mem_oneOf.mp (hwords word hword)
    rw [List.mem_singleton.mp hc]
    exact hd
  · intro h
    refine ⟨x.map fun c => [c], ?_, fun word hword => ?_⟩
    · rw [← List.flatMap_def, List.flatMap_singleton']
    · obtain ⟨c, hc, rfl⟩ := List.mem_map.mp hword
      exact mem_oneOf.mpr ⟨c, h c hc, rfl⟩

/-- **What a pattern of one character and any number of others matches.** -/
theorem digits_rmatch [DecidableEq α] {first rest x : List α} :
    (digits first rest).rmatch x = true ↔
      ∃ c cs, x = c :: cs ∧ c ∈ first ∧ ∀ d ∈ cs, d ∈ rest := by
  have hmul : x ∈ (digits first rest).matches' ↔ ∃ a ∈ (oneOf first).matches',
      ∃ b ∈ (oneOf rest).star.matches', a ++ b = x := Iff.rfl
  rw [RegularExpression.rmatch_iff_matches', hmul]
  constructor
  · rintro ⟨a, ha, b, hb, rfl⟩
    obtain ⟨c, hc, rfl⟩ := mem_oneOf.mp ha
    exact ⟨c, b, rfl, hc, mem_star_oneOf.mp hb⟩
  · rintro ⟨c, cs, rfl, hc, hcs⟩
    exact ⟨[c], mem_oneOf.mpr ⟨c, hc, rfl⟩, cs, mem_star_oneOf.mpr hcs, rfl⟩

end

/-! ### Values -/

/-- What a schema sees of a value, one level deep: its type, and the parts of which it is made. -/
inductive View (V : Type u) where
  | null
  | boolean (b : Bool)
  /-- The number `mantissa * 10 ^ exponent`. -/
  | number (mantissa exponent : Int)
  | string (s : String)
  | array (items : List V)
  | object (members : List (String × V))

/-- A representation of JSON values, of which nothing is used but what it shows. -/
class Value (V : Type u) where
  view : V → View V

/-- The types that a schema can ask for. -/
inductive Kind where
  | null
  | boolean
  | integer
  | number
  | string
  | array
  | object
  deriving DecidableEq, Repr

/-- `mantissa * 10 ^ exponent` is an integer. -/
def integral (mantissa exponent : Int) : Bool :=
  decide (0 ≤ exponent) || mantissa % 10 ^ (-exponent).toNat == 0

/-- The two sides of `bound ≤ mantissa * 10 ^ exponent`, free of fractions. -/
def scaled (bound mantissa exponent : Int) : Int × Int :=
  (bound * 10 ^ (-exponent).toNat, mantissa * 10 ^ exponent.toNat)

section

variable {V : Type u}

@[simp] theorem integral_zero (mantissa : Int) : integral mantissa 0 = true := rfl

@[simp] theorem scaled_zero (bound mantissa : Int) :
    scaled bound mantissa 0 = (bound, mantissa) := by
  simp [scaled]

/-- The value is of the type; an integer is a number without a fraction. -/
def View.is : View V → Kind → Bool
  | .null, .null => true
  | .boolean _, .boolean => true
  | .number mantissa exponent, .integer => integral mantissa exponent
  | .number _ _, .number => true
  | .string _, .string => true
  | .array _, .array => true
  | .object _, .object => true
  | _, _ => false

/-- The value is one of the texts of an enumeration. -/
def View.among : View V → List String → Bool
  | .string s, texts => texts.contains s
  | _, _ => false

/-! ### Schemas -/

/-- The keywords of a schema that look at a value as a whole, and not at its parts. -/
structure Keywords where
  /-- `type`: one of these, or any. -/
  types : List Kind := []
  minLength : ℕ := 0
  maxLength : Option ℕ := none
  /-- `pattern`, anchored at both ends. -/
  pattern : Option (RegularExpression Char) := none
  minimum : Option Int := none
  maximum : Option Int := none
  /-- `enum`, of texts. -/
  enumeration : Option (List String) := none
  maxItems : Option ℕ := none

/-- The keywords accept the value; a bound has no say in values of a type that it is not about. -/
def Keywords.accepts (k : Keywords) (v : View V) : Bool :=
  (k.types.isEmpty || k.types.any v.is) && k.enumeration.all v.among &&
    match v with
    | .string s =>
      decide (k.minLength ≤ s.length) && k.maxLength.all (fun n => decide (s.length ≤ n)) &&
        k.pattern.all fun p => p.rmatch s.toList
    | .number mantissa exponent =>
      let within (bound : Int) : Int × Int := scaled bound mantissa exponent
      k.minimum.all (fun n => decide ((within n).1 ≤ (within n).2)) &&
        k.maximum.all fun n => decide ((within n).2 ≤ (within n).1)
    | .array items => k.maxItems.all fun n => decide (items.length ≤ n)
    | _ => true

end

/-- A schema: keywords for the value itself, and schemas for its members or its items. -/
inductive Schema where
  /-- `closed` is `additionalProperties: false`. -/
  | node (keywords : Keywords) (properties : List (String × Schema)) (required : List String)
      (closed : Bool) (items : Option Schema)

namespace Schema

/-- A schema that does not look inside a value. -/
def leaf (keywords : Keywords) : Schema := .node keywords [] [] false none

/-- A schema of objects that allows no members but its properties. -/
def record (properties : List (String × Schema)) (required : List String) : Schema :=
  .node { types := [.object] } properties required true none

/-- A schema of arrays, with one schema for all items. -/
def listOf (keywords : Keywords) (items : Schema) : Schema :=
  .node keywords [] [] false (some items)

/-- What the schema demands of the value as a whole. -/
def keywords : Schema → Keywords
  | .node keywords _ _ _ _ => keywords

/-- The schema of the member of this name, if it is declared. -/
def property? (name : String) : Schema → Option Schema
  | .node _ properties _ _ _ => properties.lookup name

variable {V : Type u} [Value V]

mutual

/-- The schema accepts the value, with all its members and items. -/
def accepts : Schema → V → Bool
  | .node keywords properties required closed items, v =>
    keywords.accepts (Value.view v) &&
      match Value.view v with
      | .object members =>
        required.all (fun name => members.any fun m => m.1 == name) &&
          (!closed || members.all fun m => properties.any fun p => p.1 == m.1) &&
          acceptsMembers properties members
      | .array values => acceptsItems items values
      | _ => true

/-- Each of the properties accepts the members of an object that go by its name. -/
def acceptsMembers : List (String × Schema) → List (String × V) → Bool
  | [], _ => true
  | (name, schema) :: rest, members =>
    members.all (fun m => m.1 != name || schema.accepts m.2) && acceptsMembers rest members

/-- Every item of an array is accepted by the schema of the items, if there is one. -/
def acceptsItems : Option Schema → List V → Bool
  | none, _ => true
  | some schema, values => values.all schema.accepts

end

mutual

/-- The types of the value and of its members, and which members there are. -/
def shape : Schema → Schema
  | .node keywords properties required closed items =>
    .node { types := keywords.types } (shapes properties) required closed (shapeOfItems items)

/-- The shapes of the schemas of the members. -/
def shapes : List (String × Schema) → List (String × Schema)
  | [] => []
  | (name, schema) :: rest => (name, schema.shape) :: shapes rest

/-- The shape of the schema of the items, if there is one. -/
def shapeOfItems : Option Schema → Option Schema
  | none => none
  | some schema => some schema.shape

end

/-! ### What is accepted -/

variable {keywords : Keywords} {properties : List (String × Schema)} {required : List String}
  {closed : Bool} {items : Option Schema} {v : V}

theorem acceptsMembers_iff {members : List (String × V)} :
    acceptsMembers properties members = true ↔
      ∀ p ∈ properties, ∀ m ∈ members, m.1 = p.1 → p.2.accepts m.2 = true := by
  induction properties with
  | nil => simp [acceptsMembers]
  | cons p rest ih =>
    obtain ⟨name, schema⟩ := p
    simp only [acceptsMembers, Bool.and_eq_true, ih, List.forall_mem_cons, List.all_eq_true,
      Bool.or_eq_true, bne_iff_ne, ne_eq, ← imp_iff_not_or]

/-- **What is accepted**: a value within the bounds, and so are its members or its items. -/
theorem accepts_iff :
    (node keywords properties required closed items).accepts v = true ↔
      keywords.accepts (Value.view v) = true ∧
      (∀ members, Value.view v = .object members →
        (∀ name ∈ required, ∃ m ∈ members, m.1 = name) ∧
        (closed = true → ∀ m ∈ members, ∃ p ∈ properties, p.1 = m.1) ∧
        ∀ p ∈ properties, ∀ m ∈ members, m.1 = p.1 → p.2.accepts m.2 = true) ∧
      ∀ values, Value.view v = .array values →
        ∀ schema ∈ items, ∀ value ∈ values, schema.accepts value = true := by
  rw [accepts, Bool.and_eq_true]
  refine and_congr_right fun _ => ?_
  cases hview : Value.view v with
  | object members =>
    have hclosed : (!closed || members.all fun m => properties.any fun p => p.1 == m.1) = true ↔
        (closed = true → ∀ m ∈ members, ∃ p ∈ properties, p.1 = m.1) := by
      cases closed <;> simp
    simp only [Bool.and_eq_true, hclosed, acceptsMembers_iff, List.all_eq_true, List.any_eq_true,
      beq_iff_eq, View.object.injEq, reduceCtorEq, false_imp_iff, implies_true, and_true,
      forall_eq', and_assoc]
  | array values =>
    cases items <;> simp [acceptsItems]
  | _ => simp

theorem accepts_leaf_iff :
    (leaf keywords).accepts v = true ↔ keywords.accepts (Value.view v) = true := by
  simp [leaf, accepts_iff]

theorem accepts_listOf_iff {item : Schema} :
    (listOf keywords item).accepts v = true ↔ keywords.accepts (Value.view v) = true ∧
      ∀ values, Value.view v = .array values → ∀ value ∈ values, item.accepts value = true := by
  simp [listOf, accepts_iff]

/-- **What a closed object has to be**: every required member is there, and every member is a
property and accepted as such. -/
theorem accepts_record_iff (hnodup : (properties.map Prod.fst).Nodup) :
    (record properties required).accepts v = true ↔ ∃ members, Value.view v = .object members ∧
      (∀ name ∈ required, ∃ m ∈ members, m.1 = name) ∧
      ∀ m ∈ members, ∃ p ∈ properties, p.1 = m.1 ∧ p.2.accepts m.2 = true := by
  unfold record
  rw [accepts_iff]
  constructor
  · rintro ⟨htype, hobject, -⟩
    cases hview : Value.view v with
    | object members =>
      obtain ⟨hrequired, hclosed, haccepted⟩ := hobject members hview
      refine ⟨members, rfl, hrequired, fun m hm => ?_⟩
      obtain ⟨p, hp, hname⟩ := hclosed rfl m hm
      exact ⟨p, hp, hname, haccepted p hp m hm hname.symm⟩
    | _ => simp [hview, Keywords.accepts, View.is] at htype
  · rintro ⟨members, hview, hrequired, hmembers⟩
    refine ⟨by simp [hview, Keywords.accepts, View.is], fun members' hview' => ?_, ?_⟩
    · cases hview.symm.trans hview'
      refine ⟨hrequired, fun _ m hm => ?_, fun p hp m hm hname => ?_⟩
      · obtain ⟨p, hp, hname, -⟩ := hmembers m hm
        exact ⟨p, hp, hname⟩
      · obtain ⟨p', hp', hname', haccepted⟩ := hmembers m hm
        rw [← List.inj_on_of_nodup_map hnodup hp' hp (hname'.trans hname)]
        exact haccepted
    · intro values hview'
      cases hview.symm.trans hview'

@[simp] theorem property?_record_nil {name : String} :
    (record [] required).property? name = none := rfl

@[simp] theorem property?_record_cons {name name' : String} {property : Schema} :
    (record ((name', property) :: properties) required).property? name =
      if name = name' then some property else (record properties required).property? name := by
  show List.lookup name ((name', property) :: properties) = _
  rw [List.lookup_cons]
  by_cases h : name = name'
  · rw [if_pos h, beq_iff_eq.mpr h]
  · rw [if_neg h, beq_eq_false_iff_ne.mpr h]
    rfl

/-- Under a name that is declared once there is one property, the declared one. -/
theorem property?_eq_some_iff (hnodup : (properties.map Prod.fst).Nodup) {name : String}
    {property : Schema} :
    (record properties required).property? name = some property ↔
      (name, property) ∈ properties := by
  show properties.lookup name = some property ↔ _
  rw [List.lookup_eq_some_iff]
  constructor
  · rintro ⟨before, after, rfl, -⟩
    exact List.mem_append_right _ List.mem_cons_self
  · intro hmem
    obtain ⟨before, after, rfl⟩ := List.append_of_mem hmem
    refine ⟨before, after, rfl, fun p hp => bne_iff_ne.mpr fun h => ?_⟩
    rw [List.map_append, List.nodup_append] at hnodup
    exact hnodup.2.2 p.1 (List.mem_map_of_mem hp) name (by simp) h.symm

/-- What a schema of records accepts, with the property of each member looked up by its name. -/
theorem accepts_record_iff_property (hnodup : (properties.map Prod.fst).Nodup) :
    (record properties required).accepts v = true ↔ ∃ members, Value.view v = .object members ∧
      (∀ name ∈ required, ∃ m ∈ members, m.1 = name) ∧ ∀ m ∈ members,
        ∃ property ∈ (record properties required).property? m.1, property.accepts m.2 = true := by
  rw [accepts_record_iff hnodup]
  refine exists_congr fun members => and_congr_right fun _ => and_congr_right fun _ =>
    forall₂_congr fun m _ => ?_
  constructor
  · rintro ⟨⟨name, property⟩, hp, rfl, haccepted⟩
    exact ⟨property, (property?_eq_some_iff hnodup).mpr hp, haccepted⟩
  · rintro ⟨property, hproperty, haccepted⟩
    exact ⟨(m.1, property), (property?_eq_some_iff hnodup).mp hproperty, rfl, haccepted⟩

theorem map_fst_shapes : (shapes properties).map Prod.fst = properties.map Prod.fst := by
  induction properties with
  | nil => rfl
  | cons q rest ih =>
    obtain ⟨name, schema⟩ := q
    rw [shapes, List.map_cons, List.map_cons, ih]

/-- The shape of a closed object: its members, and the shape of each of them. -/
theorem accepts_shape_record_iff (hnodup : (properties.map Prod.fst).Nodup) :
    (record properties required).shape.accepts v = true ↔
      ∃ members, Value.view v = .object members ∧
        (∀ name ∈ required, ∃ m ∈ members, m.1 = name) ∧
        ∀ m ∈ members, ∃ p ∈ shapes properties, p.1 = m.1 ∧ p.2.accepts m.2 = true :=
  accepts_record_iff (map_fst_shapes.symm ▸ hnodup)

end Schema

end JsonSchema
