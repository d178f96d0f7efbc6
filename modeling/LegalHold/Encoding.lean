import LegalHold.Arguments
import LegalHold.Serde.Codec

/-!
# Requests on the wire

The seven requests as they are written by the serializer derived for them, and as they are
read again by the derived deserializer.  A client may order the members of its arguments as it
likes and may add others; the capability is asked for what the client has meant.

## Main definitions

* `LegalHoldRequest.InRange` — its page size is an `i64`.
* `LegalHoldRequest.Carried` — an object has the members of a request, in any order and among
  others.
* `ToolRuntime.Documented.codec` — the derived serializer, beside the derived deserializer.

## Main results

* `ToolRuntime.Documented.request_carried` — **an object that carries a request is read as
  it**.
* `requests_survive` — **requests survive the wire**: what the derived deserializers read, what
  has the advertised members and types, and what is passed on are the requests that can be sent.
-/

namespace LegalHold

open Interleave JsonSchema

namespace LegalHoldRequest

/-- The tool that offers the operation of a request. -/
def tool : LegalHoldRequest → Tool
  | .addScope _ => .addScope
  | .createHold _ => .create
  | .getHold _ => .get
  | .listActivity _ => .activity
  | .listHolds _ => .list
  | .releaseHold _ => .release
  | .removeScope _ => .removeScope

/-- The page size of the request, if it has one, is an `i64`. -/
def InRange : LegalHoldRequest → Prop
  | .listActivity r => minI64 ≤ r.limit ∧ r.limit ≤ maxI64
  | .listHolds r => minI64 ≤ r.limit ∧ r.limit ≤ maxI64
  | _ => True

/-- The object has the members that the request is sent with, in any order, and no others that
it declares. -/
def Carried (r : LegalHoldRequest) (members : List (String × Json)) : Prop :=
  ∃ sent, r.toValue = .obj sent ∧
    (members.filter fun m => m.1 ∈ r.tool.declared.map Prod.fst).Perm sent

end LegalHoldRequest

/-! ### Members as they are written -/

theorem Declaration.integer_typed (n : Int) : Declaration.integer.Typed (.num n) := by
  simp [Typed, types, Schema.accepts_leaf_iff, Keywords.accepts, View.is, integral]

namespace ToolRuntime.Documented

variable {rt : ToolRuntime}

/-- The field of a member, with what is written for it. -/
def codec (h : rt.Documented) : String × Declaration → Serde.Codec Json
  | (name, .text) =>
    { rt.field (name, .text) with
      Valid := fun _ => True
      write := fun s : String => some (.str s)
      read_write := by
        rintro s v - ⟨⟩
        exact h.required _ _
      missing_write := by
        rintro s - ⟨⟩
      valid_read := fun _ => trivial
      valid_missing := fun _ => trivial
      valid_omitted := fun _ => trivial }
  | (name, .integer) =>
    { rt.field (name, .integer) with
      Valid := fun n : Int => minI64 ≤ n ∧ n ≤ maxI64
      write := fun n : Int => some (.num n)
      read_write := by
        rintro n v hn ⟨⟩
        exact (h.required _ _).trans (if_pos hn)
      missing_write := by
        rintro n - ⟨⟩
      valid_read := by
        intro v n hread
        replace hread : deserializeI64 v = some n := (h.required _ _).symm.trans hread
        unfold deserializeI64 at hread
        split at hread
        · split at hread
          · next hn =>
            cases hread
            exact hn
          · cases hread
        · cases hread
      valid_missing := by
        rintro n ⟨⟩
      valid_omitted := by
        rintro n ⟨⟩ }
  | (name, .optionalText) =>
    { rt.field (name, .optionalText) with
      Valid := fun _ => True
      write := fun s : Option String => s.map .str
      read_write := by
        rintro (_ | s) v - ⟨⟩
        rfl
      missing_write := by
        rintro (_ | s) - ⟨⟩
        rfl
      valid_read := fun _ => trivial
      valid_missing := fun _ => trivial
      valid_omitted := fun _ => trivial }
  | (name, .optionalStatus) =>
    { rt.field (name, .optionalStatus) with
      Valid := fun _ => True
      write := fun s : Option Status => s.map fun status => .str status.text
      read_write := by
        rintro (_ | status) v - ⟨⟩
        cases status <;> rfl
      missing_write := by
        rintro (_ | s) - ⟨⟩
        rfl
      valid_read := fun _ => trivial
      valid_missing := fun _ => trivial
      valid_omitted := fun _ => trivial }
  | (name, .optionalValue) =>
    { rt.field (name, .optionalValue) with
      Valid := fun _ => True
      write := fun s : OptionalValue String => s.map Json.ofOption
      read_write := by
        rintro (_ | s) v - ⟨⟩
        cases s <;> exact h.optionalValue _ _
      missing_write := by
        rintro (_ | s) - ⟨⟩
        rfl
      valid_read := fun _ => trivial
      valid_missing := fun _ => trivial
      valid_omitted := fun _ => trivial }

theorem codec_name (h : rt.Documented) (member : String × Declaration) :
    (h.codec member).name = member.1 := by
  obtain ⟨name, d⟩ := member
  cases d <;> rfl

theorem codec_names (h : rt.Documented) (ds : List (String × Declaration)) :
    (ds.map h.codec).map (fun c => c.name) = ds.map Prod.fst := by
  rw [List.map_map]
  exact List.map_congr_left fun member _ => h.codec_name member

/-- What is written for a member is of the types advertised. -/
theorem typed_of_write (h : rt.Documented) {member : String × Declaration}
    {content : (h.codec member).Content} {v : Json}
    (hwrite : (h.codec member).write content = some v) : member.2.Typed v := by
  obtain ⟨name, d⟩ := member
  cases d with
  | text =>
    cases hwrite
    exact plainText_accepts content
  | integer =>
    cases hwrite
    exact Declaration.integer_typed content
  | optionalText =>
    obtain ⟨s, -, rfl⟩ := Option.map_eq_some_iff.mp hwrite
    exact plainText_accepts s
  | optionalStatus =>
    obtain ⟨s, -, rfl⟩ := Option.map_eq_some_iff.mp hwrite
    exact plainText_accepts s.text
  | optionalValue =>
    obtain ⟨s, -, rfl⟩ := Option.map_eq_some_iff.mp hwrite
    exact nullableText_accepts s

/-- A member is left out only if it may be missing. -/
theorem written_of_required (h : rt.Documented) {member : String × Declaration}
    (content : (h.codec member).Content) (hrequired : member.2.optional = false) :
    ∃ v, (h.codec member).write content = some v := by
  obtain ⟨name, d⟩ := member
  cases d with
  | text => exact ⟨_, rfl⟩
  | integer => exact ⟨_, rfl⟩
  | optionalText => cases hrequired
  | optionalStatus => cases hrequired
  | optionalValue => cases hrequired

/-! ### Requests as they are written -/

/-- What the fields of a request hold. -/
def contents (h : rt.Documented) : (r : LegalHoldRequest) →
    Serde.Contents ((r.tool.declared.map h.codec).map Serde.Codec.toField)
  | .addScope r => (r.expectedRevision, r.holdId, r.idempotencyKey, r.organizationId, r.scopeId,
      r.scopeKind, r.subject, ())
  | .createHold r => (r.holdId, r.idempotencyKey, r.legalAuthority, r.organizationId, r.reason,
      r.title, ())
  | .getHold r => (r.holdId, r.organizationId, ())
  | .listActivity r => (r.after, r.holdId, r.limit, r.organizationId, ())
  | .listHolds r => (r.cursor, r.limit, r.organizationId, r.status, ())
  | .releaseHold r => (r.expectedRevision, r.holdId, r.idempotencyKey, r.organizationId,
      r.reason, ())
  | .removeScope r => (r.expectedRevision, r.holdId, r.idempotencyKey, r.organizationId,
      r.scopeId, r.scopeKind, r.subject, ())

/-- **The value it is sent as** is what the derived serializer writes. -/
theorem toValue_eq (h : rt.Documented) (r : LegalHoldRequest) :
    r.toValue = .obj (Serde.serialize (r.tool.declared.map h.codec) (h.contents r)) := by
  cases r with
  | addScope r =>
    obtain ⟨_, _, _, _, _, _, subject⟩ := r
    cases subject <;> rfl
  | createHold r => rfl
  | getHold r => rfl
  | listActivity r =>
    obtain ⟨_, _, after, _⟩ := r
    cases after <;> rfl
  | listHolds r =>
    obtain ⟨cursor, _, _, status⟩ := r
    cases cursor <;> cases status <;> rfl
  | releaseHold r => rfl
  | removeScope r =>
    obtain ⟨_, _, _, _, _, _, subject⟩ := r
    cases subject <;> rfl

/-- Only a page size has bounds. -/
theorem contents_valids_iff (h : rt.Documented) {r : LegalHoldRequest} :
    Serde.Valids (r.tool.declared.map h.codec) (h.contents r) ↔ r.InRange := by
  cases r with
  | listActivity r =>
    constructor
    · rintro ⟨-, -, hlimit, -⟩
      exact hlimit
    · exact fun hlimit => ⟨trivial, trivial, hlimit, trivial, trivial⟩
  | listHolds r =>
    constructor
    · rintro ⟨-, hlimit, -⟩
      exact hlimit
    · exact fun hlimit => ⟨trivial, hlimit, trivial, trivial, trivial⟩
  | _ => exact ⟨fun _ => trivial, fun _ => by repeat constructor⟩

/-- **A request is what its fields hold.** -/
theorem request_eq_some_iff (h : rt.Documented) {t : Tool} {v : Json} {r : LegalHoldRequest} :
    t.request rt v = some r ↔ r.tool = t ∧
      Serde.deserialize ((r.tool.declared.map h.codec).map Serde.Codec.toField) v =
        some (h.contents r) := by
  constructor
  · intro hrequest
    cases t
    all_goals
      obtain ⟨r', hr', rfl⟩ := Option.map_eq_some_iff.mp hrequest
      obtain ⟨contents, hread, rfl⟩ := Option.map_eq_some_iff.mp hr'
      exact ⟨rfl, hread⟩
  · rintro ⟨rfl, hread⟩
    cases r
    all_goals
      refine Option.map_eq_some_iff.mpr ⟨_, Option.map_eq_some_iff.mpr ⟨_, hread, rfl⟩, rfl⟩

/-- **What is sent is as advertised.** -/
theorem accepts_toValue (h : rt.Documented) (r : LegalHoldRequest) :
    r.tool.inputSchema.shape.accepts r.toValue = true := by
  refine Tool.accepts_shape_iff.mpr ⟨_, h.toValue_eq r, fun member hmember hrequired => ?_,
    fun m hm => ?_⟩
  · obtain ⟨m, hm, hname⟩ := Serde.exists_mem_serialize (h.contents r)
      (List.mem_map_of_mem hmember) fun content => h.written_of_required content hrequired
    exact ⟨m, hm, hname.trans (h.codec_name member)⟩
  · obtain ⟨c, hc, content, hwrite, hname⟩ := Serde.mem_serialize hm
    obtain ⟨member, hmember, rfl⟩ := List.mem_map.mp hc
    exact ⟨member, hmember, (hname.trans (h.codec_name member)).symm, h.typed_of_write hwrite⟩

/-- **An object that carries a request is read as it.** -/
theorem request_carried (h : rt.Documented) {r : LegalHoldRequest} (hr : r.InRange)
    {members : List (String × Json)} (hcarried : r.Carried members) :
    r.tool.request rt (.obj members) = some r := by
  obtain ⟨sent, hsent, hperm⟩ := hcarried
  rw [h.toValue_eq r] at hsent
  cases hsent
  refine h.request_eq_some_iff.mpr ⟨rfl, ?_⟩
  refine Serde.visitMap_serialize ?_ (h.contents_valids_iff.mpr hr) ?_
  · rw [h.codec_names]
    exact r.tool.declared_nodup
  · unfold Serde.declared
    rw [h.codec_names]
    exact hperm

end ToolRuntime.Documented

/-! ### Calls of the tools -/

/-- **What a call asks the capability.** -/
theorem ToolRuntime.execute_asks_iff {rt : ToolRuntime} {t : Tool} {text : String}
    {r : LegalHoldRequest} : (∃ k, rt.execute ⟨t.name, text⟩ = .ask r k) ↔
      ∃ v, rt.parse text = some v ∧ t.request rt v = some r := by
  rw [execute_name]
  unfold invoke decode
  cases hparse : rt.parse text with
  | none => simp
  | some v =>
    cases hrequest : t.request rt v with
    | none => simp [hrequest]
    | some r' => simp [hrequest]

/-- **Requests survive the wire.**  A request is what the derived deserializer of a tool reads from
some value exactly when its page size is an `i64`, and then it is that of no tool but its own;
it is serialized with the members and the types of the schema that the tool advertises, whatever
the bounds there; and every text that is parsed into an object with these members, in any order
and beside any others that are not declared, makes the tool ask the capability for this very
request. -/
theorem requests_survive {rt : ToolRuntime} (h : rt.Documented) (r : LegalHoldRequest) :
    (∀ t : Tool, (∃ v, t.request rt v = some r) ↔ t = r.tool ∧ r.InRange) ∧
      r.tool.inputSchema.shape.accepts r.toValue = true ∧
      (r.InRange → ∀ text members, rt.parse text = some (.obj members) → r.Carried members →
        ∃ k, rt.execute ⟨r.tool.name, text⟩ = .ask r k) := by
  refine ⟨fun t => ⟨?_, ?_⟩, h.accepts_toValue r, fun hr text members hparse hcarried => ?_⟩
  · rintro ⟨v, hrequest⟩
    obtain ⟨htool, hread⟩ := h.request_eq_some_iff.mp hrequest
    exact ⟨htool.symm, h.contents_valids_iff.mp (Serde.deserialize_valids hread)⟩
  · rintro ⟨rfl, hr⟩
    refine ⟨r.toValue, ?_⟩
    obtain ⟨sent, hsent, hnames⟩ : ∃ sent, r.toValue = .obj sent ∧
        ∀ m ∈ sent, m.1 ∈ r.tool.declared.map Prod.fst :=
      ⟨_, h.toValue_eq r, fun m hm => h.codec_names _ ▸ Serde.name_of_mem_serialize hm⟩
    rw [hsent]
    refine h.request_carried hr ⟨sent, hsent, List.Perm.of_eq ?_⟩
    exact List.filter_eq_self.mpr fun m hm => decide_eq_true (hnames m hm)
  · exact ToolRuntime.execute_asks_iff.mpr ⟨_, hparse, h.request_carried hr hcarried⟩

namespace Sample

/-- The request that is read from the misspelled arguments. -/
def unspelled : LegalHoldRequest := .addScope ⟨"1", "h", "add", "org", "f", "file", none⟩

theorem unspelled_survives : ∃ k,
    toolRuntime.execute ⟨"legal_hold_add_scope", misspelledText⟩ = .ask unspelled k := by
  have hparse : toolRuntime.parse misspelledText = some misspelled := by
    simp only [toolRuntime, if_true]
  have hperm : [("organization_id", "org"), ("hold_id", "h"), ("scope_kind", "file"),
      ("scope_id", "f"), ("expected_revision", "1"), ("idempotency_key", "add")].Perm
      [("expected_revision", "1"), ("hold_id", "h"), ("idempotency_key", "add"),
        ("organization_id", "org"), ("scope_id", "f"), ("scope_kind", "file")] := by decide
  obtain ⟨-, -, hexecute⟩ := requests_survive toolRuntime_documented unspelled
  exact hexecute trivial misspelledText _ hparse
    ⟨_, rfl, hperm.map fun m : String × String => (m.1, Json.str m.2)⟩

end Sample

end LegalHold
