import LegalHold.Conformance
import LegalHold.Encoding
import LegalHold.Serde.Format

/-!
# Responses on the wire

What the storage returns is cast into the response of the capability by writing it down and
reading it as the type of the response; and a client reads it once more.  The casts are those
that the handlers have been given, and whatever says a response, with its members in any order
and beside others, is read as it by a client.

## Main definitions

* `holdFormat`, `activityFormat` — holds and events, as the derived serializers and
  deserializers have them.
* `Response.SaidBy`, `Response.Received` — a value says a response, and is read as it.

## Main results

* `read_toValue_hold`, `read_toValue_activity` — **what a cast makes of a view**.
* `responses_survive` — **what is answered is what a client reads**.
-/

namespace LegalHold

open Interleave JsonSchema Serde
open Std (ExtTreeMap)

instance : Build Json where
  array := .arr
  object := .obj
  view_array _ := rfl
  view_object _ := rfl

/-! ### Formats of members -/

/-- A text is written as a string, and is said by nothing else. -/
def textFormat : Format Json String where
  write := .str
  read := deserializeString
  Valid _ := True
  Says v s := v = .str s
  says_write _ := rfl
  read_eq_some_iff := by
    rintro v a b rfl
    simp [deserializeString, eq_comm]

/-- `Timestamp`: a time that is written as text, and read from a text that parses as RFC 3339. -/
def timestampFormat (timestamp : String → Except String Unit) : Format Json String where
  write := .str
  read v := (deserializeString v).bind fun s => (timestamp s).toOption.map fun _ => s
  Valid s := timestamp s = .ok ()
  Says v s := v = .str s
  says_write _ := rfl
  read_eq_some_iff := by
    rintro v a b rfl
    cases h : timestamp a <;> simp [deserializeString, h, Except.toOption, eq_comm]

/-- The status of a response, as its text. -/
def statusFormat : Format Json String where
  write := .str
  read v := (Status.deserialize v).map Status.text
  Valid s := s = "active" ∨ s = "released"
  Says v s := v = .str s
  says_write _ := rfl
  read_eq_some_iff := by
    rintro v a b rfl
    show (Status.variant a).map Status.text = some b ↔ _
    unfold Status.variant
    split
    · simp [Status.text, eq_comm]
    · simp [Status.text, eq_comm]
    · next hactive hreleased =>
      have hnone : ¬ (a = "active" ∨ a = "released") := not_or.mpr ⟨hactive, hreleased⟩
      simp [hnone]

/-- `Option`: nothing is written as `null`, which must not say anything else. -/
def optionFormat {α : Type} (F : Format Json α) (hnull : ∀ a, ¬ F.Says .null a) :
    Format Json (Option α) where
  write
    | none => .null
    | some a => F.write a
  read := deserializeOption F.read
  Valid o := ∀ a ∈ o, F.Valid a
  Says v
    | none => v = .null
    | some a => F.Says v a
  says_write o := by
    cases o with
    | none => rfl
    | some a => exact F.says_write a
  read_eq_some_iff := by
    intro v o b h
    cases o with
    | none =>
      cases h
      simp [deserializeOption, eq_comm]
    | some a =>
      have hne : v ≠ .null := by
        rintro rfl
        exact hnull a h
      have hread : deserializeOption F.read v = (F.read v).map some := by
        cases v <;> first | rfl | exact absurd rfl hne
      rw [hread, Option.map_eq_some_iff]
      simp only [F.read_eq_some_iff h, Option.mem_some_iff, forall_eq']
      constructor
      · rintro ⟨a', ⟨rfl, hvalid⟩, rfl⟩
        exact ⟨rfl, hvalid⟩
      · rintro ⟨rfl, hvalid⟩
        exact ⟨a, ⟨rfl, hvalid⟩, rfl⟩

/-- A map that is collected from its own entries is the same map. -/
theorem ofList_toList (m : ExtTreeMap String Json) : ExtTreeMap.ofList m.toList = m := by
  refine ExtTreeMap.ext_getElem? fun k => ?_
  rw [ExtTreeMap.ofList_eq_insertMany_empty, getElem?_insertMany_toList,
    ExtTreeMap.getElem?_empty, Option.or_none]

/-- Entries that are sorted in among others come where they have been among those of their
name. -/
theorem filter_orderedInsert (k : String) (entry : String × Json)
    (entries : List (String × Json)) :
    (entries.orderedInsert (fun a b => a.1 ≤ b.1) entry).filter (fun e => e.1 == k) =
      (entry :: entries).filter fun e => e.1 == k := by
  induction entries with
  | nil => rfl
  | cons e entries ih =>
    rw [List.orderedInsert_cons]
    split
    · rfl
    · next hle =>
      rw [List.filter_cons, ih]
      -- They are not both of the name, as the later one would not be smaller.
      by_cases he : e.1 = k
      · have hentry : ¬ entry.1 = k := fun heq => hle (by rw [heq, he])
        simp [he, hentry]
      · simp [he, List.filter_cons]

theorem filter_insertionSort (k : String) (entries : List (String × Json)) :
    (entries.insertionSort fun a b => a.1 ≤ b.1).filter (fun e => e.1 == k) =
      entries.filter fun e => e.1 == k := by
  induction entries with
  | nil => rfl
  | cons e entries ih =>
    rw [List.insertionSort_cons, filter_orderedInsert, List.filter_cons, List.filter_cons, ih]

/-- Sorting the entries does not change what is collected from them. -/
theorem ofList_insertionSort (entries : List (String × Json)) :
    ExtTreeMap.ofList (entries.insertionSort fun a b => a.1 ≤ b.1) =
      ExtTreeMap.ofList entries := by
  have hlast : ∀ (l : List (String × Json)) (k : String),
      l.reverse.find? (fun e => e.1 == k) = (l.filter fun e => e.1 == k).reverse.head? :=
    fun l k => by rw [← List.filter_reverse, List.head?_filter]
  refine ExtTreeMap.ext_getElem? fun k => ?_
  rw [getElem?_ofList, getElem?_ofList, hlast, hlast, filter_insertionSort]

/-- `BTreeMap<String, Value>`: written as an object, and read from one whatever its members
are. -/
def mapFormat : Format Json (ExtTreeMap String Json) where
  write m := .obj m.toList
  read
    | .obj members => some (ExtTreeMap.ofList members)
    | _ => none
  Valid _ := True
  Says v m := ∃ members, v = .obj members ∧ ExtTreeMap.ofList members = m
  says_write m := ⟨_, rfl, ofList_toList m⟩
  read_eq_some_iff := by
    rintro v m b ⟨members, rfl, rfl⟩
    simp [eq_comm]

/-- A member that has to be there, as the contract runtime reads it. -/
def ToolRuntime.Documented.slot {rt : ToolRuntime} (h : rt.Documented) (name : String) {α : Type}
    (F : Format Json α) : Slot Json where
  name := name
  Content := α
  format :=
    { F with
      read := rt.deserializeRequired α F.read
      read_eq_some_iff := by
        intro v a b hsaid
        rw [h.required]
        exact F.read_eq_some_iff hsaid }

/-- A text or `null`, such as a release reason. -/
def optionalText : Format Json (Option String) := optionFormat textFormat fun _ => nofun

/-- A time or `null`, such as the time of a release. -/
def optionalTimestamp (timestamp : String → Except String Unit) : Format Json (Option String) :=
  optionFormat (timestampFormat timestamp) fun _ => nofun

/-! ### Formats of responses -/

/-- `HoldActivity`: an event as the contract has it, with any object as its payload. -/
structure HoldActivity where
  activityId : String
  actorSubject : String
  createdAt : String
  kind : String
  payload : ExtTreeMap String Json

/-- What `serde_json::to_value` makes of an event of the storage on its way through
`wire_cast`. -/
def ActivityView.toValue (a : ActivityView) : Json :=
  .obj [("activity_id", .str a.activityId), ("kind", .str a.kind.text),
    ("actor_subject", .str a.actorSubject), ("payload", a.payload),
    ("created_at", .str a.createdAt)]

/-- The event of a response; its payload is collected. -/
def ActivityView.activity? (a : ActivityView) : Option HoldActivity :=
  match a.payload with
  | .obj members => some ⟨a.activityId, a.actorSubject, a.createdAt, a.kind.text,
      ExtTreeMap.ofList members⟩
  | _ => none

theorem ActivityView.activity?_eq_some {a : ActivityView} {act : HoldActivity} :
    a.activity? = some act ↔ ∃ members, a.payload = .obj members ∧
      act = ⟨a.activityId, a.actorSubject, a.createdAt, a.kind.text,
        ExtTreeMap.ofList members⟩ := by
  unfold activity?
  cases a.payload <;> simp [eq_comm]

section

variable {rt : ToolRuntime} (h : rt.Documented) (timestamp : String → Except String Unit)

/-- The members of `HoldScope` with their formats, in the order of the declaration. -/
def scopeSlots : List (Slot Json) :=
  [h.slot "created_at" (timestampFormat timestamp), h.slot "scope_id" textFormat,
    h.slot "scope_kind" textFormat, h.slot "subject" optionalText]

/-- `HoldScope`: a scope of a response, written as an object and read from one that has its
members in any order. -/
def scopeFormat : Format Json ScopeView :=
  .record (scopeSlots h timestamp)
    (show ["created_at", "scope_id", "scope_kind", "subject"].Nodup by decide)
    { toFun := fun s => (s.createdAt, s.scopeId, s.scopeKind, s.subject, ())
      invFun := fun (createdAt, scopeId, scopeKind, subject, ()) =>
        ⟨scopeKind, scopeId, subject, createdAt⟩
      left_inv := fun _ => rfl
      right_inv := fun _ => rfl }

/-- The members of a hold of a response with their formats, in the order of the declaration. -/
def holdSlots : List (Slot Json) :=
  [h.slot "created_at" (timestampFormat timestamp), h.slot "created_by" textFormat,
    h.slot "hold_id" textFormat, h.slot "legal_authority" textFormat,
    h.slot "organization_id" textFormat, h.slot "reason" textFormat,
    h.slot "release_reason" optionalText, h.slot "released_at" (optionalTimestamp timestamp),
    h.slot "released_by" optionalText, h.slot "revision" textFormat,
    h.slot "scopes" (scopeFormat h timestamp).listOf, h.slot "status" statusFormat,
    h.slot "title" textFormat]

/-- `GetHoldResponse` and those that have the same members. -/
def holdFormat : Format Json HoldView :=
  .record (holdSlots h timestamp)
    (show ["created_at", "created_by", "hold_id", "legal_authority", "organization_id", "reason",
      "release_reason", "released_at", "released_by", "revision", "scopes", "status",
      "title"].Nodup by decide)
    { toFun := fun v => (v.createdAt, v.createdBy, v.holdId, v.legalAuthority, v.organizationId,
        v.reason, v.releaseReason, v.releasedAt, v.releasedBy, v.revision, v.scopes, v.status,
        v.title, ())
      invFun := fun (createdAt, createdBy, holdId, legalAuthority, organizationId, reason,
        releaseReason, releasedAt, releasedBy, revision, scopes, status, title, ()) =>
        { organizationId, holdId, title, reason, legalAuthority, status, revision, createdBy,
          createdAt, releasedBy, releasedAt, releaseReason, scopes }
      left_inv := fun _ => rfl
      right_inv := fun _ => rfl }

/-- The members of `ListHoldsResponse` with their formats. -/
def listHoldsSlots : List (Slot Json) :=
  [h.slot "holds" (holdFormat h timestamp).listOf, h.slot "next_cursor" optionalText]

/-- `ListHoldsResponse`: the holds of a page, and the cursor of the next one if there is any. -/
def listHoldsFormat : Format Json ListHoldsResponse :=
  .record (listHoldsSlots h timestamp) (show ["holds", "next_cursor"].Nodup by decide)
    { toFun := fun r => (r.holds, r.nextCursor, ())
      invFun := fun (holds, nextCursor, ()) => ⟨holds, nextCursor⟩
      left_inv := fun _ => rfl
      right_inv := fun _ => rfl }

/-- The members of `HoldActivity` with their formats, the payload being any object. -/
def activitySlots : List (Slot Json) :=
  [h.slot "activity_id" textFormat, h.slot "actor_subject" textFormat,
    h.slot "created_at" (timestampFormat timestamp), h.slot "kind" textFormat,
    h.slot "payload" mapFormat]

/-- `HoldActivity`: an event of a response, written as an object and read from one that has its
members in any order. -/
def activityFormat : Format Json HoldActivity :=
  .record (activitySlots h timestamp)
    (show ["activity_id", "actor_subject", "created_at", "kind", "payload"].Nodup by decide)
    { toFun := fun a => (a.activityId, a.actorSubject, a.createdAt, a.kind, a.payload, ())
      invFun := fun (activityId, actorSubject, createdAt, kind, payload, ()) =>
        ⟨activityId, actorSubject, createdAt, kind, payload⟩
      left_inv := fun _ => rfl
      right_inv := fun _ => rfl }

/-- The members of `ListActivityResponse` with their formats. -/
def listActivitySlots : List (Slot Json) :=
  [h.slot "events" (activityFormat h timestamp).listOf, h.slot "next_cursor" textFormat]

/-- `ListActivityResponse`: the events of a page, and the cursor that comes after them. -/
def listActivityFormat : Format Json (List HoldActivity × String) :=
  .record (listActivitySlots h timestamp) (show ["events", "next_cursor"].Nodup by decide)
    { toFun := fun r => (r.1, r.2, ())
      invFun := fun (events, nextCursor, ()) => (events, nextCursor)
      left_inv := fun _ => rfl
      right_inv := fun _ => rfl }

/-! ### What says a view -/

variable {h timestamp}

theorem says_optionalText (s : Option String) : optionalText.Says (Json.ofOption s) s := by
  cases s <;> rfl

theorem says_optionalTimestamp (s : Option String) :
    (optionalTimestamp timestamp).Says (Json.ofOption s) s := by
  cases s <;> rfl

/-- An array says a list when its items say the items of the list, one by one. -/
theorem says_map {α : Type} {F : Format Json α} {write : α → Json}
    (hsaid : ∀ a, F.Says (write a) a) (as : List α) : F.listOf.Says (.arr (as.map write)) as := by
  refine ⟨as.map write, rfl, ?_⟩
  rw [List.forall₂_map_left_iff, List.forall₂_same]
  exact fun a _ => hsaid a

theorem says_toValue_scope (s : ScopeView) : (scopeFormat h timestamp).Says s.toValue s :=
  ⟨_, rfl, ⟨_, rfl, rfl⟩, ⟨_, rfl, rfl⟩, ⟨_, rfl, rfl⟩,
    ⟨_, rfl, says_optionalText s.subject⟩, trivial⟩

/-- The storage has the members of a hold in another order. -/
theorem says_toValue_hold (v : HoldView) : (holdFormat h timestamp).Says v.toValue v :=
  ⟨_, rfl, ⟨_, rfl, rfl⟩, ⟨_, rfl, rfl⟩, ⟨_, rfl, rfl⟩, ⟨_, rfl, rfl⟩, ⟨_, rfl, rfl⟩,
    ⟨_, rfl, rfl⟩, ⟨_, rfl, says_optionalText v.releaseReason⟩,
    ⟨_, rfl, says_optionalTimestamp v.releasedAt⟩, ⟨_, rfl, says_optionalText v.releasedBy⟩,
    ⟨_, rfl, rfl⟩, ⟨_, rfl, says_map says_toValue_scope v.scopes⟩, ⟨_, rfl, rfl⟩,
    ⟨_, rfl, rfl⟩, trivial⟩

theorem says_toValue_activity {a : ActivityView} {act : HoldActivity}
    (ha : a.activity? = some act) : (activityFormat h timestamp).Says a.toValue act := by
  obtain ⟨members, hpayload, rfl⟩ := ActivityView.activity?_eq_some.mp ha
  exact ⟨_, rfl, ⟨_, rfl, rfl⟩, ⟨_, rfl, rfl⟩, ⟨_, rfl, rfl⟩, ⟨_, rfl, rfl⟩,
    ⟨_, rfl, members, hpayload, rfl⟩, trivial⟩

/-! ### What is written -/

theorem write_optionalText (s : Option String) : optionalText.write s = Json.ofOption s := by
  cases s <;> rfl

theorem write_optionalTimestamp (s : Option String) :
    (optionalTimestamp timestamp).write s = Json.ofOption s := by
  cases s <;> rfl

theorem write_scope (s : ScopeView) : (scopeFormat h timestamp).write s = s.response := by
  unfold ScopeView.response
  rw [← write_optionalText]
  rfl

theorem write_hold (v : HoldView) : (holdFormat h timestamp).write v = v.response := by
  have hscopes : (scopeFormat h timestamp).listOf.write v.scopes =
      .arr (v.scopes.map ScopeView.response) :=
    congrArg Json.arr (List.map_congr_left fun s _ => write_scope s)
  have hreleased : (optionalTimestamp timestamp).write v.releasedAt = Json.ofOption v.releasedAt :=
    write_optionalTimestamp v.releasedAt
  unfold HoldView.response
  rw [← hscopes, ← write_optionalText v.releaseReason, ← write_optionalText v.releasedBy,
    ← hreleased]
  rfl

theorem write_listHolds (r : ListHoldsResponse) :
    (listHoldsFormat h timestamp).write r = (Response.holds r).toValue := by
  have hholds : (holdFormat h timestamp).listOf.write r.holds =
      .arr (r.holds.map HoldView.response) :=
    congrArg Json.arr (List.map_congr_left fun v _ => write_hold v)
  show _ = Json.obj [("holds", .arr (r.holds.map HoldView.response)),
    ("next_cursor", Json.ofOption r.nextCursor)]
  rw [← hholds, ← write_optionalText]
  rfl

/-- The payload of an event is written in the order of its names, and says the same. -/
theorem says_response_activity {a : ActivityView} {act : HoldActivity}
    (ha : a.activity? = some act) : (activityFormat h timestamp).Says a.response act := by
  obtain ⟨members, hpayload, rfl⟩ := ActivityView.activity?_eq_some.mp ha
  refine ⟨_, rfl, ⟨_, rfl, rfl⟩, ⟨_, rfl, rfl⟩, ⟨_, rfl, rfl⟩, ⟨_, rfl, rfl⟩,
    ⟨_, rfl, members.insertionSort fun a b => a.1 ≤ b.1, ?_, ofList_insertionSort members⟩,
    trivial⟩
  rw [hpayload]
  rfl

/-! ### What a cast makes of a view -/

theorem forM_eq_ok {ε α : Type} {f : α → Except ε Unit} {l : List α} :
    l.forM f = .ok () ↔ ∀ a ∈ l, f a = .ok () := by
  induction l with
  | nil => exact ⟨fun _ a ha => (List.not_mem_nil ha).elim, fun _ => rfl⟩
  | cons a l ih =>
    rw [List.forall_mem_cons, ← ih]
    show (f a >>= fun _ => l.forM f) = .ok () ↔ _
    rw [bind_eq_ok]
    exact ⟨fun ⟨_, ha, hl⟩ => ⟨ha, hl⟩, fun ⟨ha, hl⟩ => ⟨(), ha, hl⟩⟩

theorem valid_scope_iff {s : ScopeView} :
    (scopeFormat h timestamp).Valid s ↔ timestamp s.createdAt = .ok () :=
  ⟨fun hvalid => hvalid.1, fun hvalid => ⟨hvalid, trivial, trivial, fun _ _ => trivial, trivial⟩⟩

/-- **The handlers cast a hold as its type is read.** -/
theorem wireHold_eq_ok_iff {Ctx : Type} {p : Plugin Ctx} {v v' : HoldView} :
    p.wireHold v = .ok v' ↔ v' = v ∧ (holdFormat h p.timestamp).Valid v := by
  -- What is valid of a hold is what the cast looks at: the times and the status.
  have hvalid : (holdFormat h p.timestamp).Valid v ↔ p.timestamp v.createdAt = .ok () ∧
      (∀ s ∈ v.releasedAt, p.timestamp s = .ok ()) ∧
      (∀ scope ∈ v.scopes, p.timestamp scope.createdAt = .ok ()) ∧
      (v.status = "active" ∨ v.status = "released") := by
    constructor
    · rintro ⟨hcreated, -, -, -, -, -, -, hreleased, -, -, hscopes, hstatus, -, -⟩
      exact ⟨hcreated, hreleased, fun s hs => (hscopes s hs).1, hstatus⟩
    · rintro ⟨hcreated, hreleased, hscopes, hstatus⟩
      exact ⟨hcreated, trivial, trivial, trivial, trivial, trivial, fun _ _ => trivial, hreleased,
        fun _ _ => trivial, trivial, fun s hs => valid_scope_iff.mpr (hscopes s hs), hstatus,
        trivial, trivial⟩
  have hreleased : v.releasedAt.forM p.timestamp = .ok () ↔
      ∀ s ∈ v.releasedAt, p.timestamp s = .ok () := by
    cases v.releasedAt with
    | none => exact ⟨fun _ => nofun, fun _ => rfl⟩
    | some s => simp [Option.forM]
  rw [hvalid]
  constructor
  · intro hcast
    obtain ⟨⟨⟩, hcreated, hcast⟩ := bind_eq_ok.mp hcast
    obtain ⟨⟨⟩, hrelease, hcast⟩ := bind_eq_ok.mp hcast
    obtain ⟨⟨⟩, hscopes, hcast⟩ := bind_eq_ok.mp hcast
    split at hcast
    · next hstatus =>
      cases hcast
      exact ⟨rfl, hcreated, hreleased.mp hrelease, forM_eq_ok.mp hscopes, hstatus⟩
    · cases hcast
  · rintro ⟨rfl, hcreated, hrelease, hscopes, hstatus⟩
    refine bind_eq_ok.mpr ⟨(), hcreated, bind_eq_ok.mpr ⟨(), hreleased.mpr hrelease, ?_⟩⟩
    exact bind_eq_ok.mpr ⟨(), forM_eq_ok.mpr hscopes, if_pos hstatus⟩

theorem toOption_eq_some {ε α : Type} {x : Except ε α} {a : α} :
    x.toOption = some a ↔ x = .ok a := by
  cases x <;> simp [Except.toOption]

theorem read_toValue_hold {Ctx : Type} {p : Plugin Ctx} (v : HoldView) :
    (holdFormat h p.timestamp).read v.toValue = (p.wireHold v).toOption := by
  refine Option.ext fun v' => ?_
  rw [toOption_eq_some, wireHold_eq_ok_iff (h := h)]
  exact (holdFormat h p.timestamp).read_eq_some_iff (says_toValue_hold v)

theorem valid_activity_iff {act : HoldActivity} :
    (activityFormat h timestamp).Valid act ↔ timestamp act.createdAt = .ok () :=
  ⟨fun hvalid => hvalid.2.2.1, fun hvalid => ⟨trivial, trivial, hvalid, trivial, trivial, trivial⟩⟩

theorem createdAt_of_activity? {a : ActivityView} {act : HoldActivity}
    (ha : a.activity? = some act) : act.createdAt = a.createdAt := by
  obtain ⟨members, -, rfl⟩ := ActivityView.activity?_eq_some.mp ha
  rfl

/-- An event is cast when its time is read and its payload is an object. -/
theorem wireEvent_eq_ok_iff {Ctx : Type} {p : Plugin Ctx} {a a' : ActivityView} :
    p.wireEvent a = .ok a' ↔ a' = a ∧ p.timestamp a.createdAt = .ok () ∧
      ∃ act, a.activity? = some act := by
  obtain ⟨activityId, kind, actorSubject, payload, createdAt⟩ := a
  cases payload with
  | obj members =>
    constructor
    · intro hcast
      obtain ⟨⟨⟩, hcreated, hcast⟩ := bind_eq_ok.mp hcast
      cases hcast
      exact ⟨rfl, hcreated, _, rfl⟩
    · rintro ⟨rfl, hcreated, -⟩
      exact bind_eq_ok.mpr ⟨(), hcreated, rfl⟩
  | _ =>
    constructor
    · intro hcast
      obtain ⟨⟨⟩, -, hcast⟩ := bind_eq_ok.mp hcast
      cases hcast
    · rintro ⟨-, -, act, hact⟩
      cases hact

/-- What is read as an event has an object for its payload. -/
theorem activity?_of_read {a : ActivityView} {act : HoldActivity}
    (hread : (activityFormat h timestamp).read a.toValue = some act) :
    ∃ act', a.activity? = some act' := by
  obtain ⟨contents, hread, -⟩ := Option.map_eq_some_iff.mp hread
  obtain ⟨-, hread⟩ := Contents.cons_eq_some.mp hread
  obtain ⟨-, hread⟩ := Contents.cons_eq_some.mp hread
  obtain ⟨-, hread⟩ := Contents.cons_eq_some.mp hread
  obtain ⟨-, hread⟩ := Contents.cons_eq_some.mp hread
  obtain ⟨hpayload, -⟩ := Contents.cons_eq_some.mp hread
  replace hpayload : mapFormat.read a.payload = some _ := (h.required _ _).symm.trans hpayload
  cases hvalue : a.payload with
  | obj members => exact ⟨_, ActivityView.activity?_eq_some.mpr ⟨members, hvalue, rfl⟩⟩
  | _ =>
    rw [hvalue] at hpayload
    cases hpayload

/-- **The handlers cast an event as its type is read.** -/
theorem read_toValue_activity {Ctx : Type} {p : Plugin Ctx} (a : ActivityView) :
    (activityFormat h p.timestamp).read a.toValue =
      (p.wireEvent a).toOption.bind ActivityView.activity? := by
  refine Option.ext fun act => ?_
  rw [Option.bind_eq_some_iff]
  simp only [toOption_eq_some, wireEvent_eq_ok_iff]
  constructor
  · intro hread
    obtain ⟨act', hact⟩ := activity?_of_read hread
    obtain ⟨rfl, hvalid⟩ :=
      ((activityFormat h p.timestamp).read_eq_some_iff (says_toValue_activity hact)).mp hread
    refine ⟨a, ⟨rfl, ?_, act, hact⟩, hact⟩
    rw [← createdAt_of_activity? hact]
    exact valid_activity_iff.mp hvalid
  · rintro ⟨a', ⟨rfl, hcreated, -⟩, hact⟩
    refine Format.read_of_says (says_toValue_activity hact) (valid_activity_iff.mpr ?_)
    rw [createdAt_of_activity? hact]
    exact hcreated

end

/-! ### Responses -/

section

variable {rt : ToolRuntime} (h : rt.Documented) (timestamp : String → Except String Unit)

/-- The value says the response in the format of its operation. -/
def Response.SaidBy (response : Response) (v : Json) : Prop :=
  match response with
  | .hold view => (holdFormat h timestamp).Says v view
  | .holds r => (listHoldsFormat h timestamp).Says v r
  | .activity r => ∃ events, List.Forall₂ (fun a act => a.activity? = some act) r.events events ∧
      (listActivityFormat h timestamp).Says v (events, r.nextCursor)

/-- A client reads the value as the response. -/
def Response.Received (response : Response) (v : Json) : Prop :=
  match response with
  | .hold view => (holdFormat h timestamp).read v = some view
  | .holds r => (listHoldsFormat h timestamp).read v = some r
  | .activity r => ∃ events, List.Forall₂ (fun a act => a.activity? = some act) r.events events ∧
      (listActivityFormat h timestamp).read v = some (events, r.nextCursor)

end

theorem exists_forall₂ {α β : Type} {R : α → β → Prop} {l : List α} (h : ∀ a ∈ l, ∃ b, R a b) :
    ∃ bs, List.Forall₂ R l bs := by
  induction l with
  | nil => exact ⟨[], .nil⟩
  | cons a l ih =>
    obtain ⟨⟨b, hb⟩, hrest⟩ := List.forall_mem_cons.mp h
    obtain ⟨bs, hbs⟩ := ih hrest
    exact ⟨b :: bs, .cons hb hbs⟩

section

variable {rt : ToolRuntime} {h : rt.Documented} {Ctx : Type} {p : Plugin Ctx} {v : Json}

/-- A page of holds that has been cast survives. -/
theorem holds_survive {views : List HoldView} (hcast : ∀ view ∈ views, p.wireHold view = .ok view)
    {next : Option String} (hsaid : (listHoldsFormat h p.timestamp).Says v ⟨views, next⟩) :
    (listHoldsFormat h p.timestamp).read v = some ⟨views, next⟩ := by
  refine Format.read_of_says hsaid ⟨fun view hview => ?_, fun _ _ => trivial, trivial⟩
  exact (wireHold_eq_ok_iff.mp (hcast view hview)).2

/-- A page of activity that has been cast says what its events do. -/
theorem says_listActivity {r : ListActivityResponse} {events : List HoldActivity}
    (hevents : List.Forall₂ (fun a act => a.activity? = some act) r.events events) :
    (listActivityFormat h p.timestamp).Says (Response.activity r).toValue
      (events, r.nextCursor) := by
  refine ⟨_, rfl, ⟨_, rfl, r.events.map ActivityView.response, rfl, ?_⟩, ⟨_, rfl, rfl⟩, trivial⟩
  rw [List.forall₂_map_left_iff]
  exact hevents.imp fun a act hact => says_response_activity hact

theorem activity_survives {events : List ActivityView} {acts : List HoldActivity}
    (hcast : ∀ a ∈ events, p.wireEvent a = .ok a)
    (hacts : List.Forall₂ (fun a act => a.activity? = some act) events acts) {next : String}
    (hsaid : (listActivityFormat h p.timestamp).Says v (acts, next)) :
    (listActivityFormat h p.timestamp).read v = some (acts, next) := by
  refine Format.read_of_says hsaid ⟨fun act hact => valid_activity_iff.mpr ?_, trivial, trivial⟩
  obtain ⟨a, ha, heq⟩ := forall₂_mem_right hacts hact
  rw [createdAt_of_activity? heq]
  exact (wireEvent_eq_ok_iff.mp (hcast a ha)).2.1

end

/-- **Responses survive the wire.**  The handlers cast what the storage has returned as writing it
down and reading it as the type of the response does; and whatever they answer is written as
a value from which a client reads it again, as it does from every value that says the same,
with the members in any order, at any depth, and beside any that are not declared. -/
theorem responses_survive {rt : ToolRuntime} (h : rt.Documented) {Ctx : Type} (p : Plugin Ctx) :
    (∀ view, (holdFormat h p.timestamp).read view.toValue = (p.wireHold view).toOption) ∧
      (∀ event, (activityFormat h p.timestamp).read event.toValue =
        (p.wireEvent event).toOption.bind ActivityView.activity?) ∧
      ∀ {a : Answer} {response : Response}, p.respond a = .ok response →
        response.SaidBy h p.timestamp response.toValue ∧
          ∀ v, response.SaidBy h p.timestamp v → response.Received h p.timestamp v := by
  refine ⟨read_toValue_hold, read_toValue_activity, fun {a response} hresponse => ?_⟩
  cases a with
  | hold view =>
    obtain ⟨view', hcast, rfl⟩ := map_eq_ok.mp hresponse
    obtain ⟨rfl, hvalid⟩ := wireHold_eq_ok_iff.mp (Plugin.wireCast_eq_ok.mp hcast)
    refine ⟨?_, fun v hsaid => Format.read_of_says hsaid hvalid⟩
    show (holdFormat h p.timestamp).Says view'.response view'
    rw [← write_hold]
    exact (holdFormat h p.timestamp).says_write view'
  | holds views next =>
    have hcast : ∀ view ∈ views, p.wireHold view = .ok view := by
      obtain ⟨views', hcast, -⟩ := map_eq_ok.mp hresponse
      exact cast_of_mapM Plugin.wireHold_eq_ok (Plugin.wireCast_eq_ok.mp hcast)
    cases Plugin.respond_eq_ok hresponse
    refine ⟨?_, fun v hsaid => holds_survive hcast hsaid⟩
    show (listHoldsFormat h p.timestamp).Says (Response.holds ⟨views, next⟩).toValue _
    rw [← write_listHolds]
    exact (listHoldsFormat h p.timestamp).says_write ⟨views, next⟩
  | activity events next =>
    have hcast : ∀ event ∈ events, p.wireEvent event = .ok event := by
      obtain ⟨events', hcast, -⟩ := map_eq_ok.mp hresponse
      exact cast_of_mapM Plugin.wireEvent_eq_ok (Plugin.wireCast_eq_ok.mp hcast)
    -- The payloads are objects, and so the events are those of the contract.
    obtain ⟨acts, hacts⟩ : ∃ acts, List.Forall₂ (fun a act => a.activity? = some act) events acts :=
      exists_forall₂ fun a ha => (wireEvent_eq_ok_iff.mp (hcast a ha)).2.2
    cases Plugin.respond_eq_ok hresponse
    refine ⟨⟨acts, hacts, says_listActivity hacts⟩, ?_⟩
    rintro v ⟨acts', hacts', hsaid⟩
    exact ⟨acts', hacts', activity_survives hcast hacts' hsaid⟩
  | decision d => cases hresponse

namespace Sample

/-- The event that Alice is told of when she asks for the activity of her hold. -/
def told : ActivityView :=
  ⟨"1", .holdCreated, "alice", .obj [("title", .str "t"), ("legal_authority", .str "court")],
    "1970-01-01T00:00:00Z"⟩

/-- A client reads it, though the members stand in another order and one is not declared. -/
theorem told_survives : ∃ act, told.activity? = some act ∧
    (listActivityFormat toolRuntime_documented plugin.timestamp).read
      (.obj [("note", .null), ("next_cursor", .str "1"), ("events", .arr [told.toValue])]) =
        some ([act], "1") := by
  have hresponse : plugin.respond (.activity [told] 1) = .ok (.activity (.of [told] 1)) := rfl
  obtain ⟨-, hreceived⟩ := (responses_survive toolRuntime_documented plugin).2.2 hresponse
  obtain ⟨acts, hacts, hread⟩ := hreceived
    (.obj [("note", .null), ("next_cursor", .str "1"), ("events", .arr [told.toValue])])
    ⟨[_], .cons rfl .nil, _, rfl,
      ⟨_, rfl, [told.toValue], rfl, .cons (says_toValue_activity rfl) .nil⟩, ⟨_, rfl, rfl⟩, trivial⟩
  cases hacts with
  | cons hact hnil =>
    cases hnil
    exact ⟨_, hact, hread⟩

end Sample

end LegalHold
