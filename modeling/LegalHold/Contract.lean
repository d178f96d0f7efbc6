import LegalHold.JsonSchema.Schema
import LegalHold.Requests

/-!
# The published contract

The requests as they arrive, with members that may be absent, and the schemas that the
contract publishes for them and for a hold in a response.

## Main definitions

* `OptionalValue`, `AddScopeRequest` — a scope request as it arrives.
* `LegalHoldRequest` — a request to one of the seven administrative operations, with the
  value it is sent as.
* `LegalHoldRequest.schema`, `holdResponseSchema` — the schemas.

## Main results

* `positiveDecimal_accepts_iff`, `decimal_accepts_iff` — which decimals the patterns match.
-/

namespace LegalHold

open JsonSchema

/-- JSON as a schema sees it. -/
instance : Value Json where
  view
    | .null => .null
    | .bool b => .boolean b
    | .num n => .number n 0
    | .float mantissa exponent => .number mantissa exponent
    | .str s => .string s
    | .arr items => .array items
    | .obj members => .object members

@[simp] theorem view_null : Value.view Json.null = .null := rfl

@[simp] theorem view_num (n : Int) : Value.view (Json.num n) = .number n 0 := rfl

@[simp] theorem view_str (s : String) : Value.view (Json.str s) = .string s := rfl

@[simp] theorem view_arr (items : List Json) : Value.view (Json.arr items) = .array items := rfl

@[simp] theorem view_obj (members : List (String × Json)) :
    Value.view (Json.obj members) = .object members := rfl

/-! ### Requests -/

/-- A member that may be absent, `null` or a value. -/
abbrev OptionalValue (α : Type) : Type := Option (Option α)

/-- The request of `add_scope` as it is generated from its schema.  A `subject` that is missing
and one that is `null` are different values. -/
structure AddScopeRequest where
  expectedRevision : String
  holdId : String
  idempotencyKey : String
  organizationId : String
  scopeId : String
  scopeKind : String
  subject : OptionalValue String

/-- The request of `remove_scope`, which has the members of an `AddScopeRequest`. -/
abbrev RemoveScopeRequest : Type := AddScopeRequest

/-- What `add_scope` and `remove_scope` pass on to `mutate_scope`. -/
def AddScopeRequest.mutateScope (r : AddScopeRequest) : MutateScopeRequest where
  organizationId := r.organizationId
  holdId := r.holdId
  scopeKind := r.scopeKind
  scopeId := r.scopeId
  subject := r.subject.join
  expectedRevision := r.expectedRevision
  idempotencyKey := r.idempotencyKey

/-- A member that is left out when there is nothing to say. -/
def member? {α : Type} (name : String) (toValue : α → Json) : Option α → List (String × Json)
  | none => []
  | some a => [(name, toValue a)]

/-- The serializer that is derived for `AddScopeRequest`; a missing subject is left out. -/
def AddScopeRequest.toValue (r : AddScopeRequest) : Json :=
  .obj ([("expected_revision", .str r.expectedRevision), ("hold_id", .str r.holdId),
    ("idempotency_key", .str r.idempotencyKey), ("organization_id", .str r.organizationId),
    ("scope_id", .str r.scopeId), ("scope_kind", .str r.scopeKind)] ++
    member? "subject" Json.ofOption r.subject)

/-- The serializer that is derived for `GetHoldRequest`. -/
def GetHoldRequest.toValue (r : GetHoldRequest) : Json :=
  .obj [("hold_id", .str r.holdId), ("organization_id", .str r.organizationId)]

/-- The serializer that is derived for `ListActivityRequest`; a missing cursor is left out. -/
def ListActivityRequest.toValue (r : ListActivityRequest) : Json :=
  .obj (member? "after" .str r.after ++ [("hold_id", .str r.holdId), ("limit", .num r.limit),
    ("organization_id", .str r.organizationId)])

/-- The serializer that is derived for `ListHoldsRequest`; a missing cursor or status is left
out. -/
def ListHoldsRequest.toValue (r : ListHoldsRequest) : Json :=
  .obj (member? "cursor" .str r.cursor ++ [("limit", .num r.limit),
    ("organization_id", .str r.organizationId)] ++
    member? "status" (fun status => .str status.text) r.status)

/-- A request to one of the seven administrative operations. -/
inductive LegalHoldRequest where
  | addScope (r : AddScopeRequest)
  | createHold (r : CreateHoldRequest)
  | getHold (r : GetHoldRequest)
  | listActivity (r : ListActivityRequest)
  | listHolds (r : ListHoldsRequest)
  | releaseHold (r : ReleaseHoldRequest)
  | removeScope (r : RemoveScopeRequest)

/-- The request as its handler works with it: the two forms of a missing subject have become
one. -/
def LegalHoldRequest.admin : LegalHoldRequest → AdminRequest
  | .addScope r => .addScope r.mutateScope
  | .createHold r => .createHold r
  | .getHold r => .getHold r
  | .listActivity r => .listActivity r
  | .listHolds r => .listHolds r
  | .releaseHold r => .releaseHold r
  | .removeScope r => .removeScope r.mutateScope

/-- The value that a request is serialized as when it is sent. -/
def LegalHoldRequest.toValue : LegalHoldRequest → Json
  | .addScope r => r.toValue
  | .createHold r => r.hashInput
  | .getHold r => r.toValue
  | .listActivity r => r.toValue
  | .listHolds r => r.toValue
  | .releaseHold r => r.hashInput
  | .removeScope r => r.toValue

/-! ### Schemas of members -/

/-- The schema of a text without bounds. -/
def plainText : Schema := .leaf { types := [.string] }

/-- A text with `minLength: 1` and the `maxLength` given. -/
def boundedText (maxLength : ℕ) : Schema :=
  .leaf { types := [.string], minLength := 1, maxLength := some maxLength }

/-- The schema of a text without bounds, or `null`. -/
def nullableText : Schema := .leaf { types := [.string, .null] }

/-- The `subject` of a request, which may be `null`. -/
def subjectText : Schema := .leaf { types := [.string, .null], maxLength := some 256 }

/-- A text with the format `date-time`, which a schema only annotates and does not check. -/
def dateTime : Schema := .leaf { types := [.string] }

/-- The characters of `[1-9]`. -/
def nonzeroDigit : List Char := ['1', '2', '3', '4', '5', '6', '7', '8', '9']

/-- The characters of `[0-9]`. -/
def anyDigit : List Char := '0' :: nonzeroDigit

/-- The schema of a revision or of a number of an event, with the pattern `^[1-9][0-9]*$`. -/
def positiveDecimal : Schema :=
  .leaf { types := [.string], pattern := some (digits nonzeroDigit anyDigit) }

/-- The schema of a cursor of the activity, with the pattern `^[0-9]+$`. -/
def decimal : Schema :=
  .leaf { types := [.string], pattern := some (digits anyDigit anyDigit) }

/-- An integer from 1 to the `maximum` given. -/
def pageSize (maximum : Int) : Schema :=
  .leaf { types := [.integer], minimum := some 1, maximum := some maximum }

/-- The schema of a status: one of the two texts. -/
def statusText : Schema :=
  .leaf { types := [.string], enumeration := some ["active", "released"] }

/-! ### Schemas of requests -/

/-- `create-hold-request.schema.json`: six texts, all of them required. -/
def createHoldRequestSchema : Schema :=
  .record
    [("organization_id", boundedText 256), ("hold_id", boundedText 256),
      ("title", boundedText 300), ("reason", boundedText 4000),
      ("legal_authority", boundedText 1000), ("idempotency_key", boundedText 200)]
    ["organization_id", "hold_id", "title", "reason", "legal_authority", "idempotency_key"]

/-- `get-hold-request.schema.json`: the organization and the hold. -/
def getHoldRequestSchema : Schema :=
  .record [("organization_id", plainText), ("hold_id", plainText)] ["organization_id", "hold_id"]

/-- `list-activity-request.schema.json`, with pages of up to 500 events where the plugin has no
more than 200. -/
def listActivityRequestSchema : Schema :=
  .record
    [("organization_id", plainText), ("hold_id", plainText), ("after", decimal),
      ("limit", pageSize 500)]
    ["organization_id", "hold_id", "limit"]

/-- `list-holds-request.schema.json`. -/
def listHoldsRequestSchema : Schema :=
  .record
    [("organization_id", plainText), ("status", statusText), ("limit", pageSize 200),
      ("cursor", plainText)]
    ["organization_id", "limit"]

/-- `mutate-scope-request.schema.json`, for the addition and the removal of a scope. -/
def mutateScopeRequestSchema : Schema :=
  .record
    [("organization_id", plainText), ("hold_id", plainText), ("scope_kind", boundedText 64),
      ("scope_id", boundedText 256),
      ("subject", subjectText), ("expected_revision", positiveDecimal),
      ("idempotency_key", boundedText 200)]
    ["organization_id", "hold_id", "scope_kind", "scope_id", "expected_revision",
      "idempotency_key"]

/-- `release-hold-request.schema.json`: the hold, its expected revision, the reason and the
key. -/
def releaseHoldRequestSchema : Schema :=
  .record
    [("organization_id", plainText), ("hold_id", plainText),
      ("expected_revision", positiveDecimal), ("reason", boundedText 4000),
      ("idempotency_key", boundedText 200)]
    ["organization_id", "hold_id", "expected_revision", "reason", "idempotency_key"]

/-- The schema that the contract publishes for a request. -/
def LegalHoldRequest.schema : LegalHoldRequest → Schema
  | .addScope _ | .removeScope _ => mutateScopeRequestSchema
  | .createHold _ => createHoldRequestSchema
  | .getHold _ => getHoldRequestSchema
  | .listActivity _ => listActivityRequestSchema
  | .listHolds _ => listHoldsRequestSchema
  | .releaseHold _ => releaseHoldRequestSchema

/-! ### The schema of a hold -/

/-- `HoldScope` in `hold-response.schema.json`. -/
def holdScopeSchema : Schema :=
  .record
    [("scope_kind", plainText), ("scope_id", plainText), ("subject", nullableText),
      ("created_at", dateTime)]
    ["scope_kind", "scope_id", "subject", "created_at"]

/-- `hold-response.schema.json`. -/
def holdResponseSchema : Schema :=
  .record
    [("organization_id", plainText), ("hold_id", plainText), ("title", plainText),
      ("reason", plainText), ("legal_authority", plainText), ("status", statusText),
      ("revision", positiveDecimal), ("created_by", plainText), ("created_at", dateTime),
      ("released_by", nullableText), ("released_at", nullableText),
      ("release_reason", nullableText),
      ("scopes", .listOf { types := [.array], maxItems := some 1000 } holdScopeSchema)]
    ["organization_id", "hold_id", "title", "reason", "legal_authority", "status", "revision",
      "created_by", "created_at", "released_by", "released_at", "release_reason", "scopes"]

/-! ### What the members accept -/

theorem plainText_accepts (s : String) : plainText.accepts (Json.str s) = true := by
  simp [plainText, Schema.accepts_leaf_iff, Keywords.accepts, View.is]

theorem nullableText_accepts (s : Option String) :
    nullableText.accepts (Json.ofOption s) = true := by
  cases s <;> simp [nullableText, Json.ofOption, Schema.accepts_leaf_iff, Keywords.accepts, View.is]

theorem statusText_accepts_iff {s : String} :
    statusText.accepts (Json.str s) = true ↔ s = "active" ∨ s = "released" := by
  simp [statusText, Schema.accepts_leaf_iff, Keywords.accepts, View.is, View.among]

theorem dateTime_accepts (s : String) : dateTime.accepts (Json.str s) = true := plainText_accepts s

theorem boundedText_accepts_iff {n : ℕ} {s : String} :
    (boundedText n).accepts (Json.str s) = true ↔ 1 ≤ s.length ∧ s.length ≤ n := by
  simp [boundedText, Schema.accepts_leaf_iff, Keywords.accepts, View.is]

theorem pageSize_accepts_iff {maximum n : Int} :
    (pageSize maximum).accepts (Json.num n) = true ↔ 1 ≤ n ∧ n ≤ maximum := by
  simp [pageSize, Schema.accepts_leaf_iff, Keywords.accepts, View.is]

/-! ### Decimals -/

theorem mem_anyDigit {c : Char} : c ∈ anyDigit ↔ c.isDigit = true := by
  constructor
  · intro h
    have hall : anyDigit.all Char.isDigit = true := by decide
    exact List.all_eq_true.mp hall c h
  · intro h
    obtain ⟨hlt, hchar⟩ := digitChar_of_isDigit h
    have hall : ∀ n < 10, Nat.digitChar n ∈ anyDigit := by decide
    rw [← hchar]
    exact hall _ hlt

theorem mem_nonzeroDigit {c : Char} : c ∈ nonzeroDigit ↔ c.isDigit = true ∧ c ≠ '0' := by
  rw [← mem_anyDigit]
  constructor
  · intro h
    refine ⟨List.mem_cons_of_mem _ h, ?_⟩
    rintro rfl
    exact absurd h (by decide)
  · rintro ⟨h, hne⟩
    exact (List.mem_cons.mp h).resolve_left hne

/-- The texts that `^[1-9][0-9]*$` accepts: a digit that is not zero, and then digits. -/
theorem positiveDecimal_accepts {s : String} :
    positiveDecimal.accepts (Json.str s) = true ↔ ∃ c cs, s.toList = c :: cs ∧
      (c.isDigit = true ∧ c ≠ '0') ∧ ∀ d ∈ cs, d.isDigit = true := by
  have hpattern : positiveDecimal.accepts (Json.str s) = true ↔
      (digits nonzeroDigit anyDigit).rmatch s.toList = true := by
    simp [positiveDecimal, Schema.accepts_leaf_iff, Keywords.accepts, View.is]
  simp only [hpattern, digits_rmatch, mem_nonzeroDigit, mem_anyDigit]

/-- **What it accepts** are the texts of the positive integers. -/
theorem positiveDecimal_accepts_iff {s : String} :
    positiveDecimal.accepts (Json.str s) = true ↔ ∃ n : ℕ, 0 < n ∧ s = formatI64 n := by
  rw [positiveDecimal_accepts]
  constructor
  · rintro ⟨c, cs, heq, ⟨hdigit, hne⟩, hcs⟩
    have htext := toDigits_ofDigitChars hdigit hne hcs
    refine ⟨Nat.ofDigitChars 10 (c :: cs) 0, Nat.pos_of_ne_zero fun hzero => ?_, ?_⟩
    · rw [hzero, Nat.toDigits_zero] at htext
      exact hne (List.cons.inj htext).1.symm
    · rw [← String.toList_inj, toList_formatI64_natCast, htext, heq]
  · rintro ⟨n, hn, rfl⟩
    obtain ⟨c, cs, heq, hne⟩ := toDigits_head_ne_zero hn
    have hdigits : ∀ d ∈ Nat.toDigits 10 n, d.isDigit = true := fun d hd =>
      Nat.isDigit_of_mem_toDigits (by decide) (by decide) hd
    rw [heq] at hdigits
    exact ⟨c, cs, (toList_formatI64_natCast n).trans heq, ⟨hdigits c List.mem_cons_self, hne⟩,
      fun d hd => hdigits d (List.mem_cons_of_mem c hd)⟩

/-- The texts that `^[0-9]+$` accepts: at least one character, and digits only. -/
theorem decimal_accepts_iff {s : String} :
    decimal.accepts (Json.str s) = true ↔
      s.toList ≠ [] ∧ ∀ c ∈ s.toList, c.isDigit = true := by
  have hpattern : decimal.accepts (Json.str s) = true ↔
      (digits anyDigit anyDigit).rmatch s.toList = true := by
    simp [decimal, Schema.accepts_leaf_iff, Keywords.accepts, View.is]
  rw [hpattern, digits_rmatch]
  constructor
  · rintro ⟨c, cs, heq, hc, hcs⟩
    rw [heq]
    exact ⟨by simp, fun d hd => mem_anyDigit.mp ((List.mem_cons.mp hd).elim (· ▸ hc) (hcs d))⟩
  · rintro ⟨hne, hall⟩
    obtain ⟨c, cs, heq⟩ := List.exists_cons_of_ne_nil hne
    rw [heq] at hall
    exact ⟨c, cs, heq, mem_anyDigit.mpr (hall c List.mem_cons_self), fun d hd =>
      mem_anyDigit.mpr (hall d (List.mem_cons_of_mem c hd))⟩

end LegalHold
