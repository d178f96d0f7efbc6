import LegalHold.AgentTools

/-!
# The arguments of the tools

The schema that a tool advertises and the deserializer derived for its request describe the
same members, each in its own way.  What the deserializer reads is compared with what the
schema says of members and types: it also reads arrays, skips members that nobody has
declared, and takes `null` for a member that is not there.

## Main definitions

* `Declaration.Typed`, `Declaration.Readable` — a value of the types advertised, and one that
  the member is read from.
* `Tool.Loose` — what is decoded although it is not as advertised.

## Main results

* `ToolRuntime.Documented.request_isSome_iff` — which values are decoded.
* `Tool.accepts_shape_iff` — which values have the members and the types advertised.
* `ToolRuntime.execute_rejects_iff` — **which calls are refused as the schema advertises**.
-/

namespace LegalHold

open Interleave JsonSchema

/-! ### What is decoded -/

namespace Declaration

/-- Whether the member may be missing from an object of arguments. -/
def optional : Declaration → Bool
  | .text | .integer => false
  | .optionalText | .optionalStatus | .optionalValue => true

/-- The JSON types that the advertised schema allows for a member of the declaration. -/
def types : Declaration → List Kind
  | .text | .optionalText | .optionalStatus => [.string]
  | .integer => [.integer]
  | .optionalValue => [.string, .null]

/-- The value is of the types that the schema advertises for the member. -/
def Typed (d : Declaration) (v : Json) : Prop :=
  (Schema.leaf { types := d.types }).accepts v = true

/-- A status that is given as an object with one member, which the derived deserializer of an
enumeration reads beside the plain text. -/
def StatusObject (v : Json) : Prop :=
  v = .obj [("active", .null)] ∨ v = .obj [("released", .null)]

/-- The deserializer that is derived for the member reads the value, which for a status may also
be an object with one member. -/
def Readable : Declaration → Json → Prop
  | .text, v => ∃ s, v = .str s
  | .integer, v => ∃ n, v = .num n ∧ minI64 ≤ n ∧ n ≤ maxI64
  | .optionalText, v => v = .null ∨ ∃ s, v = .str s
  | .optionalStatus, v =>
    v = .null ∨ v = .str "active" ∨ v = .str "released" ∨ StatusObject v
  | .optionalValue, v => v = .null ∨ ∃ s, v = .str s

/-- The derived deserializer reads the member from a value that is not of the types advertised. -/
def Stray : Declaration → Json → Prop
  | .optionalText, v => v = .null
  | .optionalStatus, v => v = .null ∨ StatusObject v
  | _, _ => False

end Declaration

/-- The member is in the object once, or not at all when it may be missing. -/
def Found (member : String × Declaration) (members : List (String × Json)) : Prop :=
  (∃ m, members.filter (fun m => m.1 == member.1) = [m] ∧ member.2.Readable m.2) ∨
    (member.2.optional = true ∧ ∀ m ∈ members, m.1 ≠ member.1)

/-- The members are in the array in their order; one with a default may be left off at the
end. -/
inductive Positional : List (String × Declaration) → List Json → Prop
  | nil : Positional [] []
  | omitted {name : String} {rest : List (String × Declaration)} (listed : Positional rest []) :
    Positional ((name, .optionalValue) :: rest) []
  | cons {name : String} {d : Declaration} {rest : List (String × Declaration)} {v : Json}
      {items : List Json} (readable : d.Readable v) (listed : Positional rest items) :
    Positional ((name, d) :: rest) (v :: items)

/-- What is decoded although it is not as advertised: an array of the members in their order,
or an object with all of them and besides with one that is not declared or with `null`, or a
status as an object, for one that may be missing. -/
def Tool.Loose (t : Tool) (v : Json) : Prop :=
  (∃ items, v = .arr items ∧ Positional t.declared items) ∨
    ∃ members, v = .obj members ∧ (∀ member ∈ t.declared, Found member members) ∧
      ∃ m ∈ members, (∀ member ∈ t.declared, member.1 ≠ m.1) ∨
        ∃ member ∈ t.declared, member.1 = m.1 ∧ member.2.Stray m.2

/-! ### Members -/

theorem deserializeString_isSome_iff {v : Json} :
    (deserializeString v).isSome = true ↔ ∃ s, v = .str s := by
  cases v <;> simp [deserializeString]

theorem deserializeOption_isSome_iff {α : Type} {deserialize : Json → Option α} {v : Json} :
    (deserializeOption deserialize v).isSome = true ↔
      v = .null ∨ (deserialize v).isSome = true := by
  cases v <;> simp [deserializeOption]

theorem Status.variant_isSome_iff {name : String} :
    (variant name).isSome = true ↔ name = "active" ∨ name = "released" := by
  unfold variant
  split <;> simp_all

theorem Status.deserialize_isSome_iff {v : Json} :
    (deserialize v).isSome = true ↔
      v = .str "active" ∨ v = .str "released" ∨ Declaration.StatusObject v := by
  unfold deserialize Declaration.StatusObject
  split
  · simp [variant_isSome_iff]
  · simp [variant_isSome_iff]
  · next hstr hobj =>
    simp only [Option.isSome_none, Bool.false_eq_true, false_iff, not_or]
    exact ⟨hstr _, hstr _, hobj _, hobj _⟩

namespace ToolRuntime

variable {rt : ToolRuntime}

/-- **What the field of a member reads**: the reader that a declaration gets reads the values that
are readable for it, and no others. -/
theorem Documented.read_isSome_iff (h : rt.Documented) {name : String} {d : Declaration}
    {v : Json} : ((rt.field (name, d)).read v).isSome = true ↔ d.Readable v := by
  cases d with
  | text =>
    show (rt.deserializeRequired String deserializeString v).isSome = true ↔ _
    rw [h.required]
    exact deserializeString_isSome_iff
  | integer =>
    show (rt.deserializeRequired Int deserializeI64 v).isSome = true ↔ _
    rw [h.required]
    cases v <;> simp [deserializeI64, Declaration.Readable]
  | optionalText =>
    refine deserializeOption_isSome_iff.trans (or_congr_right ?_)
    exact deserializeString_isSome_iff
  | optionalStatus =>
    refine deserializeOption_isSome_iff.trans (or_congr_right ?_)
    exact Status.deserialize_isSome_iff
  | optionalValue =>
    show (rt.deserializeOptionalValue String deserializeString v).isSome = true ↔ _
    rw [h.optionalValue, Option.isSome_map, deserializeOption_isSome_iff,
      deserializeString_isSome_iff]
    rfl

theorem field_name {name : String} {d : Declaration} : (rt.field (name, d)).name = name := by
  cases d <;> rfl

theorem field_missing {name : String} {d : Declaration} :
    (rt.field (name, d)).missing.isSome = d.optional := by
  cases d <;> rfl

theorem field_omitted {name : String} {d : Declaration} :
    (rt.field (name, d)).omitted.isSome = true ↔ d = .optionalValue := by
  cases d <;> simp [field]

theorem Documented.found_iff (h : rt.Documented) {member : String × Declaration}
    {members : List (String × Json)} :
    (rt.field member).Found members ↔ Found member members := by
  obtain ⟨name, d⟩ := member
  simp only [Serde.Field.Found, Serde.Field.occurrences, Found, field_name, field_missing,
    h.read_isSome_iff]

theorem Documented.listed_iff (h : rt.Documented) {declared : List (String × Declaration)}
    {items : List Json} :
    Serde.Listed (declared.map rt.field) items ↔ Positional declared items := by
  induction declared generalizing items with
  | nil =>
    constructor
    · rintro ⟨⟩
      exact .nil
    · rintro ⟨⟩
      exact .nil
  | cons member rest ih =>
    obtain ⟨name, d⟩ := member
    rw [List.map_cons]
    constructor
    · intro hlisted
      cases hlisted with
      | omitted homitted hrest =>
        obtain rfl := field_omitted.mp homitted
        exact .omitted (ih.mp hrest)
      | cons hread hrest => exact .cons (h.read_isSome_iff.mp hread) (ih.mp hrest)
    · intro hlisted
      cases hlisted with
      | omitted hrest => exact .omitted (field_omitted.mpr rfl) (ih.mpr hrest)
      | cons hread hrest => exact .cons (h.read_isSome_iff.mpr hread) (ih.mpr hrest)

/-- **Which values are decoded**: arrays that list a readable value for every declared member in
its place, and objects in which every declared member is found. -/
theorem Documented.request_isSome_iff (h : rt.Documented) {t : Tool} {v : Json} :
    (t.request rt v).isSome = true ↔ (∃ items, v = .arr items ∧ Positional t.declared items) ∨
      ∃ members, v = .obj members ∧ ∀ member ∈ t.declared, Found member members := by
  have hread : (t.request rt v).isSome = (rt.read t.declared v).isSome := by
    cases t <;> simp [Tool.request, Tool.declared, GetHoldRequest.deserialize,
      ListHoldsRequest.deserialize, ListActivityRequest.deserialize,
      CreateHoldRequest.deserialize, AddScopeRequest.deserialize, ReleaseHoldRequest.deserialize]
  rw [hread, ToolRuntime.read, Serde.deserialize_isSome_iff]
  simp only [List.forall_mem_map, h.found_iff, h.listed_iff]
  cases v <;> simp

end ToolRuntime

/-! ### What is advertised -/

namespace Tool

variable {t : Tool} {v : Json}

/-- The schema of a tool and the members of its request. -/
structure Advertises (properties : List (String × Schema)) (required : List String)
    (declared : List (String × Declaration)) : Prop where
  nodup : (properties.map Prod.fst).Nodup
  shapes : ∀ p, p ∈ Schema.shapes properties ↔
    ∃ member ∈ declared, p = (member.1, .leaf { types := member.2.types })
  required : ∀ name, name ∈ required ↔
    ∃ member ∈ declared, member.1 = name ∧ member.2.optional = false

/-- **The schema and the deserializer have the same members**, of the same types. -/
theorem advertises (t : Tool) : ∃ properties required,
    t.inputSchema = .record properties required ∧ Advertises properties required t.declared := by
  cases t
  -- The two list the members in their own orders.
  all_goals
    refine ⟨_, _, rfl, by decide, fun p => ?_, fun name => ?_⟩
    · simp [declared, GetHoldRequest.declared, ListHoldsRequest.declared,
        ListActivityRequest.declared, CreateHoldRequest.declared, AddScopeRequest.declared,
        ReleaseHoldRequest.declared, Declaration.types, Schema.shapes, Schema.shape,
        Schema.shapeOfItems, Schema.leaf, plainText, boundedText, subjectText, statusText,
        positiveDecimal, decimal, pageSize]
      tauto
    · simp [declared, GetHoldRequest.declared, ListHoldsRequest.declared,
        ListActivityRequest.declared, CreateHoldRequest.declared, AddScopeRequest.declared,
        ReleaseHoldRequest.declared, Declaration.optional]
      tauto

theorem declared_nodup (t : Tool) : (t.declared.map Prod.fst).Nodup := by
  cases t <;> decide

theorem view_eq_object_iff {members : List (String × Json)} :
    Value.view v = .object members ↔ v = .obj members := by
  cases v <;> simp [Value.view]

/-- **Which values have the members and the types advertised.** -/
theorem accepts_shape_iff : t.inputSchema.shape.accepts v = true ↔
    ∃ members, v = .obj members ∧
      (∀ member ∈ t.declared, member.2.optional = false → ∃ m ∈ members, m.1 = member.1) ∧
      ∀ m ∈ members, ∃ member ∈ t.declared, member.1 = m.1 ∧ member.2.Typed m.2 := by
  obtain ⟨properties, required, hschema, h⟩ := t.advertises
  rw [hschema, Schema.accepts_shape_record_iff h.nodup]
  refine exists_congr fun members => and_congr view_eq_object_iff (and_congr ?_ ?_)
  · constructor
    · intro hrequired member hmember hoptional
      exact hrequired _ ((h.required _).mpr ⟨member, hmember, rfl, hoptional⟩)
    · intro hrequired name hname
      obtain ⟨member, hmember, rfl, hoptional⟩ := (h.required name).mp hname
      exact hrequired member hmember hoptional
  · refine forall₂_congr fun m _ => ?_
    constructor
    · rintro ⟨p, hp, hname, haccepted⟩
      obtain ⟨member, hmember, rfl⟩ := (h.shapes p).mp hp
      exact ⟨member, hmember, hname, haccepted⟩
    · rintro ⟨member, hmember, hname, htyped⟩
      exact ⟨_, (h.shapes _).mpr ⟨member, hmember, rfl⟩, hname, htyped⟩

end Tool

/-! ### Where they differ -/

/-- **Read from a value of another type**: only what may be missing is. -/
theorem Declaration.stray_iff {d : Declaration} {v : Json} :
    d.Stray v ↔ d.Readable v ∧ ¬d.Typed v := by
  -- The types that are advertised are those that the shape of the value is looked up in.
  have htyped : d.Typed v ↔ d.types.any (Value.view v).is = true := by
    unfold Typed
    rw [Schema.accepts_leaf_iff]
    cases d <;> cases v <;> simp [types, Keywords.accepts, View.is, Value.view]
  rw [htyped]
  cases d with
  | text =>
    refine ⟨False.elim, ?_⟩
    rintro ⟨⟨s, rfl⟩, h⟩
    exact h rfl
  | integer =>
    refine ⟨False.elim, ?_⟩
    rintro ⟨⟨n, rfl, -⟩, h⟩
    exact h rfl
  | optionalText =>
    constructor
    · rintro rfl
      exact ⟨.inl rfl, by decide⟩
    · rintro ⟨rfl | ⟨s, rfl⟩, h⟩
      · rfl
      · exact absurd rfl h
  | optionalStatus =>
    constructor
    · rintro (rfl | rfl | rfl)
      · exact ⟨.inl rfl, by decide⟩
      · exact ⟨.inr (.inr (.inr (.inl rfl))), by decide⟩
      · exact ⟨.inr (.inr (.inr (.inr rfl))), by decide⟩
    · rintro ⟨rfl | rfl | rfl | hobject, h⟩
      · exact .inl rfl
      · exact absurd rfl h
      · exact absurd rfl h
      · exact .inr hobject
  | optionalValue =>
    refine ⟨False.elim, ?_⟩
    rintro ⟨rfl | ⟨s, rfl⟩, h⟩
    · exact h rfl
    · exact h rfl

/-- A member that is found is read wherever it stands. -/
theorem Found.readable {member : String × Declaration} {members : List (String × Json)}
    (h : Found member members) {m : String × Json} (hm : m ∈ members) (hname : member.1 = m.1) :
    member.2.Readable m.2 := by
  rcases h with ⟨m', hfilter, hreadable⟩ | ⟨-, habsent⟩
  · have hmem : m ∈ members.filter fun m => m.1 == member.1 :=
      List.mem_filter.mpr ⟨hm, beq_iff_eq.mpr hname.symm⟩
    rw [hfilter] at hmem
    rw [List.mem_singleton.mp hmem]
    exact hreadable
  · exact absurd hname.symm (habsent m hm)

/-- A required member that is found is there. -/
theorem Found.present {member : String × Declaration} {members : List (String × Json)}
    (h : Found member members) (hrequired : member.2.optional = false) :
    ∃ m ∈ members, m.1 = member.1 := by
  rcases h with ⟨m, hfilter, -⟩ | ⟨hoptional, -⟩
  · have hmem : m ∈ members.filter fun m => m.1 == member.1 := by
      rw [hfilter]
      exact List.mem_singleton_self m
    obtain ⟨hm, hname⟩ := List.mem_filter.mp hmem
    exact ⟨m, hm, beq_iff_eq.mp hname⟩
  · rw [hrequired] at hoptional
    cases hoptional

/-- **What is decoded although it is not as advertised.** -/
theorem ToolRuntime.Documented.loose_iff {rt : ToolRuntime} (h : rt.Documented) {t : Tool}
    {v : Json} :
    t.Loose v ↔ (t.request rt v).isSome = true ∧ ¬t.inputSchema.shape.accepts v = true := by
  rw [h.request_isSome_iff, Tool.accepts_shape_iff]
  constructor
  · rintro (⟨items, rfl, hlisted⟩ | ⟨members, rfl, hfound, m, hm, hloose⟩)
    · refine ⟨.inl ⟨items, rfl, hlisted⟩, ?_⟩
      rintro ⟨members, hmembers, -⟩
      cases hmembers
    · refine ⟨.inr ⟨members, rfl, hfound⟩, ?_⟩
      rintro ⟨members', hmembers, -, htyped⟩
      cases hmembers
      obtain ⟨member, hmember, hname, hvalue⟩ := htyped m hm
      rcases hloose with hextra | ⟨member', hmember', hname', hstray⟩
      · exact hextra member hmember hname
      · -- There is one member of this name, and the value is not of its type.
        obtain rfl := List.inj_on_of_nodup_map t.declared_nodup hmember hmember'
          (hname.trans hname'.symm)
        exact (Declaration.stray_iff.mp hstray).2 hvalue
  -- An object that is read and refused has a member that is refused, and this is extra or stray.
  · rintro ⟨⟨items, rfl, hlisted⟩ | ⟨members, rfl, hfound⟩, hrefused⟩
    · exact .inl ⟨items, rfl, hlisted⟩
    · refine .inr ⟨members, rfl, hfound, ?_⟩
      by_contra hnone
      refine hrefused ⟨members, rfl, fun member hmember => (hfound member hmember).present,
        fun m hm => ?_⟩
      by_contra huntyped
      refine hnone ⟨m, hm, ?_⟩
      by_cases hextra : ∀ member ∈ t.declared, member.1 ≠ m.1
      · exact .inl hextra
      · push Not at hextra
        obtain ⟨member, hmember, hname⟩ := hextra
        refine .inr ⟨member, hmember, hname, Declaration.stray_iff.mpr ⟨?_, fun htyped => ?_⟩⟩
        · exact (hfound member hmember).readable hm hname
        · exact huntyped ⟨member, hmember, hname, htyped⟩

namespace ToolRuntime

variable {rt : ToolRuntime}

/-- **Which calls are refused as the schema advertises.**  A text whose value has not the members
and the types of the advertised schema, or that has none, is refused as `InvalidArguments`
before the capability is asked, exactly when its value is not one of those that are read
loosely. -/
theorem execute_rejects_iff (h : rt.Documented) (t : Tool) (text : String) :
    ((¬∃ v, rt.parse text = some v ∧ t.inputSchema.shape.accepts v = true) →
        rt.execute ⟨t.name, text⟩ = .ret (.error (.domain .invalidArguments))) ↔
      ¬∃ v, rt.parse text = some v ∧ t.Loose v := by
  rw [execute_refused_iff]
  constructor
  · rintro hrejects ⟨v, hparse, hloose⟩
    obtain ⟨hrequest, hrefused⟩ := h.loose_iff.mp hloose
    have hnone := hrejects (fun ⟨v', hparse', haccepted⟩ => by
      cases hparse.symm.trans hparse'
      exact hrefused haccepted) v hparse
    rw [hnone] at hrequest
    cases hrequest
  · intro hnone hrefused v hparse
    by_contra hrequest
    refine hnone ⟨v, hparse, h.loose_iff.mpr ⟨Option.isSome_iff_ne_none.mpr hrequest, ?_⟩⟩
    exact fun haccepted => hrefused ⟨v, hparse, haccepted⟩

end ToolRuntime

namespace Sample

/-- The arguments to put `f` under `h` for Bob only, but for a misspelling. -/
def misspelled : Json :=
  .obj [("organization_id", .str "org"), ("hold_id", .str "h"), ("scope_kind", .str "file"),
    ("scope_id", .str "f"), ("subjct", .str "bob"), ("expected_revision", .str "1"),
    ("idempotency_key", .str "add")]

/-- The arguments of the misspelled call, written out as an agent sends them. -/
def misspelledText : String :=
  "\x7b\"organization_id\":\"org\",\"hold_id\":\"h\",\"scope_kind\":\"file\",\"scope_id\":\"f\"," ++
    "\"subjct\":\"bob\",\"expected_revision\":\"1\",\"idempotency_key\":\"add\"\x7d"

/-- The empty object, written out. -/
def emptyText : String := "\x7b\x7d"

/-- The arguments to put `f` under `h`, with a number for the revision. -/
def mistyped : Json :=
  .obj [("organization_id", .str "org"), ("hold_id", .str "h"), ("scope_kind", .str "file"),
    ("scope_id", .str "f"), ("expected_revision", .num 1), ("idempotency_key", .str "add")]

/-- The mistyped arguments, written out. -/
def mistypedText : String :=
  "\x7b\"organization_id\":\"org\",\"hold_id\":\"h\",\"scope_kind\":\"file\",\"scope_id\":\"f\"," ++
    "\"expected_revision\":1,\"idempotency_key\":\"add\"\x7d"

/-- A text in quotes; the texts that are printed below have nothing to escape. -/
def quoted (s : String) : String := "\"" ++ s ++ "\""

mutual

/-- `serde_json::to_string_pretty`, for values without floats and texts with nothing to escape;
each line starts with `indent`. -/
def pretty (indent : String) : Json → String
  | .null => "null"
  | .bool b => if b then "true" else "false"
  | .num n => formatI64 n
  | .float mantissa exponent => formatI64 mantissa ++ "e" ++ formatI64 exponent
  | .str s => quoted s
  | .arr [] => "[]"
  | .arr items =>
    "[\n" ++ ",\n".intercalate (prettyItems (indent ++ "  ") items) ++ "\n" ++ indent ++ "]"
  | .obj [] => "\x7b\x7d"
  | .obj members =>
    "\x7b\n" ++ ",\n".intercalate (prettyMembers (indent ++ "  ") members) ++ "\n" ++ indent ++
      "\x7d"

/-- The items of an array, each with its indentation. -/
def prettyItems (indent : String) : List Json → List String
  | [] => []
  | item :: items => (indent ++ pretty indent item) :: prettyItems indent items

/-- The members of an object, each with its indentation and its name. -/
def prettyMembers (indent : String) : List (String × Json) → List String
  | [] => []
  | (name, value) :: members =>
    (indent ++ quoted name ++ ": " ++ pretty indent value) :: prettyMembers indent members

end

example : pretty "" (.obj [("tool", .str "t"), ("scopes", .arr [.num 1, .obj []])]) =
    "\x7b\n  \"tool\": \"t\",\n  \"scopes\": [\n    1,\n    \x7b\x7d\n  ]\n\x7d" := by
  decide

/-- A contract runtime that can parse just these three texts, and prints values with an
indentation of two spaces. -/
def toolRuntime : ToolRuntime where
  parse text :=
    if text = misspelledText then some misspelled
    else if text = emptyText then some (.obj [])
    else if text = mistypedText then some mistyped else none
  toStringPretty v := .ok (pretty "" v)
  deserializeRequired _ deserialize := deserialize
  deserializeOptionalValue _ deserialize v := (deserializeOption deserialize v).map some

theorem toolRuntime_documented : toolRuntime.Documented := ⟨fun _ _ => rfl, fun _ _ => rfl⟩

theorem parse_emptyText : toolRuntime.parse emptyText = some (.obj []) := by
  have hne : emptyText ≠ misspelledText := by decide
  simp only [toolRuntime, hne, if_false, if_true]

theorem parse_mistypedText : toolRuntime.parse mistypedText = some mistyped := by
  have hne : mistypedText ≠ misspelledText := by decide
  have hne' : mistypedText ≠ emptyText := by decide
  simp only [toolRuntime, hne, hne', if_false, if_true]

/-- Nothing is added without arguments, nor with a number in the place of a text. -/
theorem unreadable_refused :
    toolRuntime.execute ⟨"legal_hold_add_scope", emptyText⟩ =
        .ret (.error (.domain .invalidArguments)) ∧
      toolRuntime.execute ⟨"legal_hold_add_scope", mistypedText⟩ =
        .ret (.error (.domain .invalidArguments)) := by
  constructor
  · refine (ToolRuntime.execute_rejects_iff toolRuntime_documented .addScope emptyText).mpr ?_ ?_
    · rintro ⟨v, hparse, hloose⟩
      cases parse_emptyText.symm.trans hparse
      rcases hloose with ⟨items, hitems, -⟩ | ⟨members, hmembers, -, m, hm, -⟩
      · cases hitems
      · cases hmembers
        cases hm
    · rintro ⟨v, hparse, haccepted⟩
      cases parse_emptyText.symm.trans hparse
      exact absurd haccepted (by decide)
  · refine (ToolRuntime.execute_rejects_iff toolRuntime_documented .addScope mistypedText).mpr ?_ ?_
    · rintro ⟨v, hparse, hloose⟩
      cases parse_mistypedText.symm.trans hparse
      rcases hloose with ⟨items, hitems, -⟩ | ⟨members, hmembers, hfound, -⟩
      · cases hitems
      -- The revision is there, but it is not read from a number.
      · cases hmembers
        rcases hfound ("expected_revision", .text) List.mem_cons_self with
          ⟨m, hm, s, hs⟩ | ⟨hoptional, -⟩
        · obtain rfl : ("expected_revision", Json.num 1) = m := List.singleton_inj.mp hm
          cases hs
        · cases hoptional
    · rintro ⟨v, hparse, haccepted⟩
      cases parse_mistypedText.symm.trans hparse
      exact absurd haccepted (by decide)

/-- **With a misspelled subject** the arguments are not as advertised, and yet the capability is
asked to put `f` under `h` for all subjects. -/
theorem misspelled_executed :
    toolRuntime.Documented ∧ toolRuntime.parse misspelledText = some misspelled ∧
      Tool.addScope.inputSchema.shape.accepts misspelled = false ∧
      ∃ k, toolRuntime.execute ⟨"legal_hold_add_scope", misspelledText⟩ =
        .ask (.addScope ⟨"1", "h", "add", "org", "f", "file", none⟩) k := by
  have hparse : toolRuntime.parse misspelledText = some misspelled := by
    simp only [toolRuntime, if_true]
  refine ⟨toolRuntime_documented, hparse, by decide, ?_⟩
  have hdecode : toolRuntime.decode .addScope ⟨Tool.addScope.name, misspelledText⟩ =
      .ok (.addScope ⟨"1", "h", "add", "org", "f", "file", none⟩) := by
    unfold ToolRuntime.decode
    rw [hparse]
    rfl
  have hexecute : toolRuntime.execute ⟨Tool.addScope.name, misspelledText⟩ = _ :=
    ToolRuntime.execute_name .addScope misspelledText
  unfold ToolRuntime.invoke at hexecute
  rw [hdecode] at hexecute
  exact ⟨_, hexecute⟩

end Sample

end LegalHold
