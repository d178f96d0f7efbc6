import LegalHold.Service
import Mathlib.Data.String.Basic

/-!
# Requests of the plugin

What the plugin makes of a request before it calls its storage: the checks on
texts and numbers, and the digest by which a repeated request is recognized.

## Main definitions

* `validText`, `validId`, `parseRevision` — the checks.
* `MutateScopeRequest.input?` — from a scope request to the input of
  `mutate_scope`.
* `ListActivityRequest.op?`, `ListActivityResponse.of` — the two ends of
  `list_activity`.
-/

namespace LegalHold

/-! ### Checks -/

/-- `MAX_ID_BYTES`, for ids of holds, organizations, subjects and scopes. -/
def maxIdBytes : ℕ := 512

/-- `MAX_IDEMPOTENCY_BYTES`, for idempotency keys. -/
def maxIdempotencyBytes : ℕ := 200

/-- `MAX_PAGE_SIZE`, for pages of holds and of activity alike. -/
def maxPageSize : Int := 200

/-- `char::is_control`, the Unicode category `Cc`. -/
def isControl (c : Char) : Bool := c.toNat < 0x20 || (0x7f ≤ c.toNat && c.toNat < 0xa0)

/-- `char::is_whitespace`, the Unicode property `White_Space`. -/
def isWhitespace (c : Char) : Bool :=
  (0x9 ≤ c.toNat && c.toNat ≤ 0xd) || c.toNat = 0x20 || c.toNat = 0x85 || c.toNat = 0xa0 ||
    c.toNat = 0x1680 || (0x2000 ≤ c.toNat && c.toNat ≤ 0x200a) || c.toNat = 0x2028 ||
    c.toNat = 0x2029 || c.toNat = 0x202f || c.toNat = 0x205f || c.toNat = 0x3000

/-- `valid_text`; what is left of a text by `trim` is empty when the text has
white space only. -/
def validText (value : String) (maxBytes : ℕ) (allowEmpty : Bool) : Bool :=
  value.utf8ByteSize ≤ maxBytes && (allowEmpty || !value.toList.all isWhitespace) &&
    !value.toList.any isControl

/-- `valid_id`: a text of 1 to 512 bytes without control characters. -/
def validId (value : String) : Bool := validText value maxIdBytes false

/-- `valid_idempotency_key`: a text of 1 to 200 bytes without control characters. -/
def validIdempotencyKey (value : String) : Bool := validText value maxIdempotencyBytes false

/-- `parse_revision`: a positive `i64`. -/
def parseRevision (value : String) : Option Int := (parseI64 value).filter (0 < ·)

theorem parseRevision_eq_some {s : String} {n : Int} :
    parseRevision s = some n ↔ parseI64 s = some n ∧ 0 < n := by
  simp [parseRevision]

/-! ### Scopes -/

/-- A request to `add_scope` or `remove_scope`, with what the two have in common. -/
structure MutateScopeRequest where
  organizationId : String
  holdId : String
  scopeKind : String
  scopeId : String
  subject : Option String
  expectedRevision : String
  idempotencyKey : String

/-- `hash_input` in `mutate_scope`: the value whose digest becomes the request
hash. -/
def ScopeRequest.hashInput (i : ScopeRequest) : Json :=
  .obj [("organization_id", .str i.organizationId), ("hold_id", .str i.holdId),
    ("scope_kind", .str i.scopeKind), ("scope_id", .str i.scopeId),
    ("subject", Json.ofOption i.subject),
    ("expected_revision", .str (formatI64 i.expectedRevision)),
    ("idempotency_key", .str i.idempotencyKey)]

/-- The storage input that `mutate_scope` makes of a request, or `none` when a check refuses
it. -/
def MutateScopeRequest.input? [Backend] (r : MutateScopeRequest) (caller actor : String) :
    Option ScopeRequest := do
  let expectedRevision ← parseRevision r.expectedRevision
  if !validId r.organizationId || !validId r.holdId || !validText r.scopeKind 128 false ||
      !validId r.scopeId || r.subject.any (fun value => !validId value) ||
      !validIdempotencyKey r.idempotencyKey then
    none
  else
    let input : ScopeRequest := {
      caller := caller
      actor := actor
      organizationId := r.organizationId
      holdId := r.holdId
      scopeKind := r.scopeKind
      scopeId := r.scopeId
      subject := r.subject
      expectedRevision := expectedRevision
      idempotencyKey := r.idempotencyKey
      requestHash := [] }
    some { input with requestHash := Backend.digest input.hashInput }

/-- What is checked of a scope request before the storage is asked. -/
theorem MutateScopeRequest.input?_ne_none_iff [Backend] {r : MutateScopeRequest}
    {caller actor : String} : r.input? caller actor ≠ none ↔
      (∃ n, parseI64 r.expectedRevision = some n ∧ 0 < n) ∧ validId r.organizationId = true ∧
        validId r.holdId = true ∧ validText r.scopeKind 128 false = true ∧
        validId r.scopeId = true ∧ (∀ value ∈ r.subject, validId value = true) ∧
        validIdempotencyKey r.idempotencyKey = true := by
  have hsubject : r.subject.any (fun value => !validId value) = false ↔
      ∀ value ∈ r.subject, validId value = true := by
    cases r.subject <;> simp
  simp only [← parseRevision_eq_some]
  unfold input?
  cases hrevision : parseRevision r.expectedRevision with
  | none => simp
  | some n => simp [and_assoc, hsubject]

/-- What the plugin hands to its storage carries the digest of its contents. -/
theorem MutateScopeRequest.requestHash_eq [Backend] {r : MutateScopeRequest}
    {caller actor : String} {input : ScopeRequest} (h : r.input? caller actor = some input) :
    input.requestHash = Backend.digest input.hashInput := by
  obtain ⟨revision, -, h⟩ := Option.bind_eq_some_iff.mp h
  split at h
  · cases h
  · cases h
    rfl

/-- The hash input tells what is to be done, and to which hold. -/
theorem ScopeRequest.hashInput_inj {i j : ScopeRequest} (h : i.hashInput = j.hashInput) :
    i.organizationId = j.organizationId ∧ i.holdId = j.holdId ∧ i.scope = j.scope := by
  unfold hashInput at h
  simp only [Json.obj.injEq, List.cons.injEq, Prod.mk.injEq, true_and, Json.str.injEq] at h
  obtain ⟨horg, hhold, hkind, hid, hsubject, -⟩ := h
  refine ⟨horg, hhold, ?_⟩
  unfold scope
  rw [hkind, hid, Json.ofOption_injective hsubject]

/-! ### Activity -/

/-- A request to `list_activity`, with its cursor and its page size. -/
structure ListActivityRequest where
  organizationId : String
  holdId : String
  after : Option String
  limit : Int

/-- The cursor of a request as a number, which is 0 when none is given and must not be
negative. -/
def ListActivityRequest.cursor (r : ListActivityRequest) : Option Int :=
  (parseI64 (r.after.getD "0")).filter (0 ≤ ·)

/-- The storage call that `list_activity` makes of a request, or `none` when a check refuses
it. -/
def ListActivityRequest.op? (r : ListActivityRequest) : Option Op :=
  if !validId r.organizationId || !validId r.holdId || !(1 ≤ r.limit && r.limit ≤ maxPageSize) then
    none
  else r.cursor.map fun after => .listActivity r.organizationId r.holdId after r.limit

/-- What a valid request asks the storage for. -/
theorem ListActivityRequest.op?_eq_some {r : ListActivityRequest} {op : Op} :
    r.op? = some op ↔ (validId r.organizationId = true ∧ validId r.holdId = true ∧
      1 ≤ r.limit ∧ r.limit ≤ maxPageSize) ∧
      ∃ after, parseI64 (r.after.getD "0") = some after ∧ 0 ≤ after ∧
        op = .listActivity r.organizationId r.holdId after r.limit := by
  unfold op? cursor
  constructor
  · intro h
    split at h
    · cases h
    · next hvalid =>
      obtain ⟨after, hafter, rfl⟩ := Option.map_eq_some_iff.mp h
      obtain ⟨hparse, hnonneg⟩ := Option.filter_eq_some_iff.mp hafter
      simp only [Bool.or_eq_true, Bool.not_eq_true', Bool.and_eq_false_iff, not_or] at hvalid
      refine ⟨?_, after, hparse, by simpa using hnonneg, rfl⟩
      simpa [and_assoc] using hvalid
  · rintro ⟨⟨horg, hhold, hlow, hhigh⟩, after, hparse, hnonneg, rfl⟩
    simp [horg, hhold, hlow, hhigh, hparse, hnonneg]

/-- The response of `list_activity`: a page of events, and the cursor that comes after it. -/
structure ListActivityResponse where
  events : List ActivityView
  nextCursor : String

/-- The response that `list_activity` makes of events and of the next number. -/
def ListActivityResponse.of (events : List ActivityView) (next : Int) : ListActivityResponse :=
  ⟨events, formatI64 next⟩

/-! ### Requests to run the service with -/

namespace Sample

/-- SHA-256 of what is hashed in the runs below: two requests to add a scope, one to
remove it, and the evidence of a check that one hold and that no hold matches. -/
def digest : Json → List UInt8
  | .obj [("organization_id", .str "org"), ("hold_id", .str "h"), ("scope_kind", .str "file"),
      ("scope_id", .str "f"), ("subject", .null), ("expected_revision", .str "1"),
      ("idempotency_key", .str "add")] =>
    [239, 66, 146, 142, 64, 186, 58, 181, 62, 34, 119, 109, 47, 219, 211, 40, 146, 127, 79, 52,
      62, 131, 119, 100, 167, 89, 85, 193, 59, 173, 236, 147]
  | .obj [("organization_id", .str "org"), ("hold_id", .str "h"), ("scope_kind", .str "file"),
      ("scope_id", .str "f"), ("subject", .null), ("expected_revision", .str "3"),
      ("idempotency_key", .str "add")] =>
    [167, 147, 10, 52, 38, 36, 4, 106, 52, 183, 213, 226, 40, 202, 210, 9, 44, 28, 222, 4, 1, 250,
      251, 10, 145, 184, 4, 37, 3, 107, 32, 192]
  | .obj [("organization_id", .str "org"), ("hold_id", .str "h"), ("scope_kind", .str "file"),
      ("scope_id", .str "f"), ("subject", .null), ("expected_revision", .str "2"),
      ("idempotency_key", .str "remove")] =>
    [218, 192, 217, 85, 16, 157, 117, 46, 65, 206, 87, 230, 156, 178, 23, 200, 152, 148, 184, 4,
      48, 187, 64, 169, 216, 56, 225, 58, 91, 91, 73, 8]
  | .obj [("caller", .str "retention"), ("action_id", .str "a"), ("scope_kind", .str "file"),
      ("scope_id", .str "f"), ("subject", .str "bob"), ("mode", .str "delete"),
      ("reason", .str "cleanup"),
      ("matching_holds", .arr [.obj [("hold_id", .str "h"), ("revision", .str "2")]])] =>
    [115, 76, 182, 203, 59, 15, 198, 171, 144, 53, 198, 88, 138, 30, 51, 48, 131, 138, 57, 163,
      70, 163, 96, 243, 40, 66, 225, 233, 112, 176, 152, 10]
  | .obj [("caller", .str "retention"), ("action_id", .str "a"), ("scope_kind", .str "file"),
      ("scope_id", .str "f"), ("subject", .str "bob"), ("mode", .str "delete"),
      ("reason", .str "cleanup"), ("matching_holds", .arr [])] =>
    [226, 23, 142, 11, 181, 142, 161, 77, 141, 21, 66, 113, 2, 164, 103, 251, 200, 228, 229, 5,
      144, 209, 211, 197, 224, 79, 133, 230, 115, 243, 63, 84]
  | _ => []

/-- The first ten seconds of 1970, and texts ordered by code points. -/
scoped instance backend : Backend where
  formatTime t :=
    if t < 10 then .ok ("1970-01-01T00:00:0" ++ Nat.repr t ++ "Z") else .error "out of range"
  textOrder := inferInstance
  digest := digest

/-- Session `i` goes on with `n` statements, none of which fails. -/
def steps (i n : ℕ) : List Label := List.replicate n (.step i .done)

/-- The operation that creates the hold `h`, under this digest. -/
def create (requestHash : List UInt8) : Op :=
  .createHold ⟨"admin", "alice", "org", "h", "title", "reason", "court", "create", requestHash⟩

/-- A request about the file `f` and the hold `h`. -/
def scopeRequest (idempotencyKey : String) (expectedRevision : Int) : ScopeRequest :=
  let input : ScopeRequest :=
    ⟨"admin", "alice", "org", "h", "file", "f", none, expectedRevision, idempotencyKey, []⟩
  { input with requestHash := digest input.hashInput }

/-- The operation that puts `f` under `h` for all subjects. -/
def add (expectedRevision : Int) : Op := .addScope (scopeRequest "add" expectedRevision)

/-- The operation that takes `f` out of `h` again. -/
def remove (expectedRevision : Int) : Op := .removeScope (scopeRequest "remove" expectedRevision)

/-- The operation that releases `h`. -/
def release (expectedRevision : Int) : Op :=
  .releaseHold ⟨"admin", "alice", "org", "h", expectedRevision, "over", "release", [3]⟩

/-- What the retention service asks about `f`: may it be deleted for Bob? -/
def question : RetentionCheck := ⟨"retention", "a", "file", "f", "bob", "delete", "cleanup"⟩

/-- The hold `h` is created and put on the file `f`. -/
def holding : List Label :=
  .start (create [1]) :: steps 0 8 ++ .start (add 1) :: steps 1 10

/-- The schedule goes on from `holding` with the release of the hold. -/
def closing : List Label := holding ++ .start (release 2) :: steps 2 9

/-- That no statement has failed can be computed. -/
theorem all_done {es : List Event} (h : es.all (·.fate = .done) = true) :
    ∀ e ∈ es, e.fate = .done := fun e he => by simpa using List.all_eq_true.mp h e he

end Sample

end LegalHold
