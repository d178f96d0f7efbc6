import LegalHold.Plugin

/-!
# Requests and the operations they ask for

The requests of the contract and what the plugin makes of a valid one: the
operation its storage is asked to carry out for the caller and the actor, with
the digest of the request.

## Main definitions

* `CreateHoldRequest.input?`, `ReleaseHoldRequest.input?`, `ListHoldsRequest.op?`
  and their like — the validation of each request.
* `AdminRequest`, `AdminRequest.op?` — an administrative request, and the
  operation it asks for.
* `Op.Issued`, `Op.HashedFrom` — an operation that a request has asked for, and
  the value that was hashed for it.

## Main results

* `Op.HashedFrom.requestHash` — a mutation carries the digest of its request.
* `Op.HashedFrom.target` — **the value hashed tells the organization and the
  hold**.
-/

namespace LegalHold

/-- `MAX_SHORT_TEXT_BYTES`, for titles and authorities. -/
def maxShortTextBytes : ℕ := 1000

/-- `MAX_REASON_BYTES`, for the reasons of holds and releases. -/
def maxReasonBytes : ℕ := 20000

/-! ### Mutations -/

/-- A request to `create_hold`, with its six texts. -/
structure CreateHoldRequest where
  holdId : String
  idempotencyKey : String
  legalAuthority : String
  organizationId : String
  reason : String
  title : String

/-- The value that a create request is serialized as, of which the request hash is the digest. -/
def CreateHoldRequest.hashInput (r : CreateHoldRequest) : Json :=
  .obj [("hold_id", .str r.holdId), ("idempotency_key", .str r.idempotencyKey),
    ("legal_authority", .str r.legalAuthority), ("organization_id", .str r.organizationId),
    ("reason", .str r.reason), ("title", .str r.title)]

/-- A request to `release_hold`, with the revision that it expects. -/
structure ReleaseHoldRequest where
  expectedRevision : String
  holdId : String
  idempotencyKey : String
  organizationId : String
  reason : String

/-- The value that a release request is serialized as, of which the request hash is the digest. -/
def ReleaseHoldRequest.hashInput (r : ReleaseHoldRequest) : Json :=
  .obj [("expected_revision", .str r.expectedRevision), ("hold_id", .str r.holdId),
    ("idempotency_key", .str r.idempotencyKey), ("organization_id", .str r.organizationId),
    ("reason", .str r.reason)]

section

variable [Backend]

/-- The storage input that `create_hold` makes of a request, or `none` when a check refuses it. -/
def CreateHoldRequest.input? (r : CreateHoldRequest) (caller actor : String) :
    Option CreateHold :=
  if !validId r.organizationId || !validId r.holdId ||
      !validText r.title maxShortTextBytes false || !validText r.reason maxReasonBytes false ||
      !validText r.legalAuthority maxShortTextBytes false ||
      !validIdempotencyKey r.idempotencyKey then
    none
  else
    some {
      caller := caller
      actor := actor
      organizationId := r.organizationId
      holdId := r.holdId
      title := r.title
      reason := r.reason
      legalAuthority := r.legalAuthority
      idempotencyKey := r.idempotencyKey
      requestHash := Backend.digest r.hashInput }

/-- The storage input that `release_hold` makes of a request, or `none` when a check refuses
it. -/
def ReleaseHoldRequest.input? (r : ReleaseHoldRequest) (caller actor : String) :
    Option ReleaseHold := do
  let expectedRevision ← parseRevision r.expectedRevision
  if !validId r.organizationId || !validId r.holdId || !validText r.reason maxReasonBytes false ||
      !validIdempotencyKey r.idempotencyKey then
    none
  else
    some {
      caller := caller
      actor := actor
      organizationId := r.organizationId
      holdId := r.holdId
      expectedRevision := expectedRevision
      reason := r.reason
      idempotencyKey := r.idempotencyKey
      requestHash := Backend.digest r.hashInput }

end

/-! ### Reads -/

/-- A request to `get_hold`, for a hold of an organization. -/
structure GetHoldRequest where
  holdId : String
  organizationId : String

/-- The checks that the handler of `get_hold` makes. -/
def GetHoldRequest.valid (r : GetHoldRequest) : Bool := validId r.organizationId && validId r.holdId

/-- The storage call that `get_hold` makes of a request, or `none` when a check refuses it. -/
def GetHoldRequest.op? (r : GetHoldRequest) : Option Op :=
  if r.valid then some (.getHold r.organizationId r.holdId) else none

/-- A request to `list_holds`, with its filter, its cursor and its page size. -/
structure ListHoldsRequest where
  cursor : Option String
  limit : Int
  organizationId : String
  status : Option Status

/-- The checks that the handler of `list_holds` makes. -/
def ListHoldsRequest.valid (r : ListHoldsRequest) : Bool :=
  validId r.organizationId && (1 ≤ r.limit && r.limit ≤ maxPageSize) && r.cursor.all validId

/-- The storage call that `list_holds` makes of a request, or `none` when a check refuses it. -/
def ListHoldsRequest.op? (r : ListHoldsRequest) : Option Op :=
  if r.valid then some (.listHolds r.organizationId r.status r.cursor r.limit) else none

/-- What a caller of the guard wants to do. -/
inductive RetentionMode where
  | delete
  | anonymize
  deriving DecidableEq, Repr

/-- The text of a mode in the evidence. -/
def RetentionMode.text : RetentionMode → String
  | .delete => "delete"
  | .anonymize => "anonymize"

/-- A request to `check_retention`, the operation of the retention guard. -/
structure CheckRetentionRequest where
  actionId : String
  mode : RetentionMode
  reason : String
  scopeId : String
  scopeKind : String
  subject : String

/-- The storage input of a retention check, or `none` when the request is invalid. -/
def CheckRetentionRequest.input? (r : CheckRetentionRequest) (caller : String) :
    Option RetentionCheck :=
  if !validId r.actionId || !validText r.scopeKind 128 false || !validId r.scopeId ||
      !validId r.subject || !validText r.reason maxReasonBytes true then
    none
  else
    some {
      caller := caller
      actionId := r.actionId
      scopeKind := r.scopeKind
      scopeId := r.scopeId
      subject := r.subject
      mode := r.mode.text
      reason := r.reason }

/-! ### Administrative requests -/

/-- A request to one of the seven administrative operations. -/
inductive AdminRequest where
  | createHold (r : CreateHoldRequest)
  | getHold (r : GetHoldRequest)
  | listHolds (r : ListHoldsRequest)
  | addScope (r : MutateScopeRequest)
  | removeScope (r : MutateScopeRequest)
  | releaseHold (r : ReleaseHoldRequest)
  | listActivity (r : ListActivityRequest)

/-- The organization that a request is about. -/
def AdminRequest.organizationId : AdminRequest → String
  | .createHold r => r.organizationId
  | .getHold r => r.organizationId
  | .listHolds r => r.organizationId
  | .addScope r => r.organizationId
  | .removeScope r => r.organizationId
  | .releaseHold r => r.organizationId
  | .listActivity r => r.organizationId

/-- The organization an administrative operation is about; a retention check is about
none. -/
def Op.organization? : Op → Option String
  | .createHold i => some i.organizationId
  | .addScope i => some i.organizationId
  | .removeScope i => some i.organizationId
  | .releaseHold i => some i.organizationId
  | .getHold org _ => some org
  | .listHolds org .. => some org
  | .listActivity org .. => some org
  | .checkRetention _ => none

section

variable [Backend]

/-- The operation a valid request asks for, on behalf of a caller and an actor. -/
def AdminRequest.op? (caller actor : String) : AdminRequest → Option Op
  | .createHold r => (r.input? caller actor).map .createHold
  | .getHold r => r.op?
  | .listHolds r => r.op?
  | .addScope r => (r.input? caller actor).map .addScope
  | .removeScope r => (r.input? caller actor).map .removeScope
  | .releaseHold r => (r.input? caller actor).map .releaseHold
  | .listActivity r => r.op?

/-- A request has asked for the operation, and has passed the checks of its handler. -/
def Op.Issued (op : Op) : Prop :=
  (∃ (r : AdminRequest) (caller actor : String), r.op? caller actor = some op) ∨
    ∃ (r : CheckRetentionRequest) (caller : String),
      (r.input? caller).map .checkRetention = some op

/-- The value whose digest the mutation carries as its request hash. -/
def Op.HashedFrom : Op → Json → Prop
  | .createHold i, v => ∃ (r : CreateHoldRequest) (caller actor : String),
    r.input? caller actor = some i ∧ v = r.hashInput
  | .addScope i, v => (∃ (r : MutateScopeRequest) (caller actor : String),
    r.input? caller actor = some i) ∧ v = i.hashInput
  | .removeScope i, v => (∃ (r : MutateScopeRequest) (caller actor : String),
    r.input? caller actor = some i) ∧ v = i.hashInput
  | .releaseHold i, v => ∃ (r : ReleaseHoldRequest) (caller actor : String),
    r.input? caller actor = some i ∧ v = r.hashInput
  | _, _ => False

/-! ### What a valid request becomes -/

theorem CreateHoldRequest.input?_eq_some {r : CreateHoldRequest} {caller actor : String}
    {i : CreateHold} : r.input? caller actor = some i ↔
      (validId r.organizationId = true ∧ validId r.holdId = true ∧
        validText r.title maxShortTextBytes false = true ∧
        validText r.reason maxReasonBytes false = true ∧
        validText r.legalAuthority maxShortTextBytes false = true ∧
        validIdempotencyKey r.idempotencyKey = true) ∧
      i = ⟨caller, actor, r.organizationId, r.holdId, r.title, r.reason, r.legalAuthority,
        r.idempotencyKey, Backend.digest r.hashInput⟩ := by
  unfold input?
  split
  · next h =>
    constructor
    · intro hn
      cases hn
    · rintro ⟨⟨h1, h2, h3, h4, h5, h6⟩, -⟩
      simp [h1, h2, h3, h4, h5, h6] at h
  · next h =>
    simp only [Bool.or_eq_true, Bool.not_eq_true', not_or, Bool.not_eq_false, and_assoc] at h
    simp only [Option.some.injEq, h, true_and]
    exact eq_comm

theorem ReleaseHoldRequest.input?_eq_some {r : ReleaseHoldRequest} {caller actor : String}
    {i : ReleaseHold} (h : r.input? caller actor = some i) :
    ∃ expectedRevision, parseRevision r.expectedRevision = some expectedRevision ∧
      i = ⟨caller, actor, r.organizationId, r.holdId, expectedRevision, r.reason,
        r.idempotencyKey, Backend.digest r.hashInput⟩ := by
  obtain ⟨revision, hrevision, h⟩ := Option.bind_eq_some_iff.mp h
  split at h
  · cases h
  · cases h
    exact ⟨revision, hrevision, rfl⟩

/-- What is checked of a release request before the storage is asked. -/
theorem ReleaseHoldRequest.input?_ne_none_iff {r : ReleaseHoldRequest} {caller actor : String} :
    r.input? caller actor ≠ none ↔
      (∃ n, parseI64 r.expectedRevision = some n ∧ 0 < n) ∧ validId r.organizationId = true ∧
        validId r.holdId = true ∧ validText r.reason maxReasonBytes false = true ∧
        validIdempotencyKey r.idempotencyKey = true := by
  simp only [← parseRevision_eq_some]
  unfold input?
  cases hrevision : parseRevision r.expectedRevision with
  | none => simp
  | some n => simp [and_assoc]

theorem MutateScopeRequest.input?_eq_some {r : MutateScopeRequest} {caller actor : String}
    {i : ScopeRequest} (h : r.input? caller actor = some i) :
    i.caller = caller ∧ i.actor = actor ∧ i.organizationId = r.organizationId ∧
      i.holdId = r.holdId := by
  obtain ⟨revision, -, h⟩ := Option.bind_eq_some_iff.mp h
  split at h
  · cases h
  · cases h
    exact ⟨rfl, rfl, rfl, rfl⟩

omit [Backend] in
theorem ListHoldsRequest.op?_eq_some {r : ListHoldsRequest} {op : Op} :
    r.op? = some op ↔ (validId r.organizationId = true ∧ 1 ≤ r.limit ∧ r.limit ≤ maxPageSize ∧
      ∀ cursor ∈ r.cursor, validId cursor = true) ∧
      op = .listHolds r.organizationId r.status r.cursor r.limit := by
  have hvalid : r.valid = true ↔ validId r.organizationId = true ∧ 1 ≤ r.limit ∧
      r.limit ≤ maxPageSize ∧ ∀ cursor ∈ r.cursor, validId cursor = true := by
    unfold valid
    cases r.cursor <;> simp [and_assoc]
  rw [← hvalid]
  unfold op?
  split
  · next h => simp [h, eq_comm]
  · next h => simp [h]

omit [Backend] in
theorem GetHoldRequest.op?_eq_some {r : GetHoldRequest} {op : Op} (h : r.op? = some op) :
    op = .getHold r.organizationId r.holdId := by
  unfold op? at h
  split at h
  · exact (Option.some.inj h).symm
  · cases h

/-- **An operation is about the organization of its request.** -/
theorem AdminRequest.op?_organization {r : AdminRequest} {caller actor : String} {op : Op}
    (h : r.op? caller actor = some op) : op.organization? = some r.organizationId := by
  cases r with
  | createHold r =>
    obtain ⟨i, hi, rfl⟩ := Option.map_eq_some_iff.mp h
    rw [(CreateHoldRequest.input?_eq_some.mp hi).2]
    rfl
  | getHold r =>
    rw [GetHoldRequest.op?_eq_some h]
    rfl
  | listHolds r =>
    rw [(ListHoldsRequest.op?_eq_some.mp h).2]
    rfl
  | addScope r =>
    obtain ⟨i, hi, rfl⟩ := Option.map_eq_some_iff.mp h
    exact congrArg some (MutateScopeRequest.input?_eq_some hi).2.2.1
  | removeScope r =>
    obtain ⟨i, hi, rfl⟩ := Option.map_eq_some_iff.mp h
    exact congrArg some (MutateScopeRequest.input?_eq_some hi).2.2.1
  | releaseHold r =>
    obtain ⟨i, hi, rfl⟩ := Option.map_eq_some_iff.mp h
    obtain ⟨revision, -, rfl⟩ := ReleaseHoldRequest.input?_eq_some hi
    rfl
  | listActivity r =>
    obtain ⟨-, after, -, -, rfl⟩ := ListActivityRequest.op?_eq_some.mp h
    rfl

/-! ### Digests -/

/-- A mutation that was asked for is hashed from something. -/
theorem Op.Issued.hashed {op : Op} (h : op.Issued) {cmd : Command} (hcmd : op.command? = some cmd) :
    ∃ v, op.HashedFrom v := by
  rcases h with ⟨r, caller, actor, h⟩ | ⟨r, caller, h⟩
  · cases r with
    | createHold r =>
      obtain ⟨i, hi, rfl⟩ := Option.map_eq_some_iff.mp h
      exact ⟨_, r, caller, actor, hi, rfl⟩
    | addScope r =>
      obtain ⟨i, hi, rfl⟩ := Option.map_eq_some_iff.mp h
      exact ⟨_, ⟨r, caller, actor, hi⟩, rfl⟩
    | removeScope r =>
      obtain ⟨i, hi, rfl⟩ := Option.map_eq_some_iff.mp h
      exact ⟨_, ⟨r, caller, actor, hi⟩, rfl⟩
    | releaseHold r =>
      obtain ⟨i, hi, rfl⟩ := Option.map_eq_some_iff.mp h
      exact ⟨_, r, caller, actor, hi, rfl⟩
    -- a read is no command
    | getHold r =>
      rw [GetHoldRequest.op?_eq_some h] at hcmd
      cases hcmd
    | listHolds r =>
      rw [(ListHoldsRequest.op?_eq_some.mp h).2] at hcmd
      cases hcmd
    | listActivity r =>
      obtain ⟨-, after, -, -, rfl⟩ := ListActivityRequest.op?_eq_some.mp h
      cases hcmd
  · obtain ⟨i, -, rfl⟩ := Option.map_eq_some_iff.mp h
    cases hcmd

/-- **A mutation carries the digest of its request.** -/
theorem Op.HashedFrom.requestHash {op : Op} {v : Json} (h : op.HashedFrom v) {cmd : Command}
    (hcmd : op.command? = some cmd) : cmd.requestHash = Backend.digest v := by
  cases op with
  | createHold i =>
    obtain ⟨r, caller, actor, hi, rfl⟩ := h
    cases hcmd
    rw [(CreateHoldRequest.input?_eq_some.mp hi).2]
    rfl
  | addScope i =>
    obtain ⟨⟨r, caller, actor, hi⟩, rfl⟩ := h
    cases hcmd
    exact MutateScopeRequest.requestHash_eq hi
  | removeScope i =>
    obtain ⟨⟨r, caller, actor, hi⟩, rfl⟩ := h
    cases hcmd
    exact MutateScopeRequest.requestHash_eq hi
  | releaseHold i =>
    obtain ⟨r, caller, actor, hi, rfl⟩ := h
    cases hcmd
    obtain ⟨revision, -, rfl⟩ := ReleaseHoldRequest.input?_eq_some hi
    rfl
  | _ => exact h.elim

/-- What a serialized request says of its target: the organization and the hold. -/
def Json.target (v : Json) : Option Json × Option Json :=
  (v.field "organization_id", v.field "hold_id")

/-- The value hashed names the organization and the hold of the mutation. -/
theorem Op.HashedFrom.target_eq {op : Op} {v : Json} (h : op.HashedFrom v) {cmd : Command}
    (hcmd : op.command? = some cmd) :
    v.target = (some (.str cmd.organizationId), some (.str cmd.holdId)) := by
  cases op with
  | createHold i =>
    obtain ⟨r, caller, actor, hi, rfl⟩ := h
    cases hcmd
    rw [(CreateHoldRequest.input?_eq_some.mp hi).2]
    rfl
  | addScope i =>
    obtain ⟨-, rfl⟩ := h
    cases hcmd
    rfl
  | removeScope i =>
    obtain ⟨-, rfl⟩ := h
    cases hcmd
    rfl
  | releaseHold i =>
    obtain ⟨r, caller, actor, hi, rfl⟩ := h
    cases hcmd
    obtain ⟨revision, -, rfl⟩ := ReleaseHoldRequest.input?_eq_some hi
    rfl
  | _ => exact h.elim

/-- **The value hashed tells the organization and the hold.** -/
theorem Op.HashedFrom.target {op op' : Op} {v : Json} (h : op.HashedFrom v)
    (h' : op'.HashedFrom v) {cmd cmd' : Command} (hcmd : op.command? = some cmd)
    (hcmd' : op'.command? = some cmd') :
    cmd.organizationId = cmd'.organizationId ∧ cmd.holdId = cmd'.holdId := by
  have heq := (h.target_eq hcmd).symm.trans (h'.target_eq hcmd')
  simp only [Prod.mk.injEq, Option.some.injEq, Json.str.injEq] at heq
  exact heq

end

/-! ### Requests to run the service with -/

namespace Sample

/-- SHA-256 of two requests to create a hold, besides what is hashed for scopes and checks. -/
def requestDigest : Json → List UInt8
  | .obj [("hold_id", .str "h"), ("idempotency_key", .str "create"),
      ("legal_authority", .str "court"), ("organization_id", .str "org"),
      ("reason", .str "reason"), ("title", .str "title")] =>
    [215, 60, 247, 76, 17, 248, 106, 165, 66, 230, 213, 244, 76, 34, 113, 111, 146, 233, 91, 246,
      106, 133, 253, 199, 218, 240, 170, 238, 12, 208, 82, 26]
  | .obj [("hold_id", .str "k"), ("idempotency_key", .str "another"),
      ("legal_authority", .str "court"), ("organization_id", .str "org"),
      ("reason", .str "reason"), ("title", .str "title")] =>
    [68, 5, 98, 43, 48, 193, 220, 82, 230, 98, 60, 192, 167, 135, 183, 242, 162, 65, 86, 78, 50, 95,
      60, 53, 220, 208, 119, 50, 185, 27, 26, 183]
  | v => digest v

/-- A request to create this hold under this key. -/
def createRequest (holdId idempotencyKey : String) : CreateHoldRequest :=
  ⟨holdId, idempotencyKey, "court", "org", "reason", "title"⟩

/-- The operation that Alice asks for by a request. -/
def issued [Backend] (r : AdminRequest) : Op := (r.op? "admin" "alice").getD default

namespace Requests

/-- The backend in which these requests have their real digests. -/
scoped instance requests : Backend := { backend with digest := requestDigest }

end Requests

end Sample

end LegalHold
