import LegalHold.Postgres

/-!
# The storage functions

The functions of `storage.rs`, statement for statement.  `?` is the monad's
error, an early return is a `throw` or the end of a branch, and a transaction
that is dropped without `commit` is left to the machine to roll back.

The part of each mutating function that runs once no receipt has been found is a
definition of its own (`createHold.fresh`, `mutateScope.fresh`,
`releaseHold.fresh`).

## Main definitions

* `HoldView`, `HoldView.toValue`, `HoldView.fromValue` — a view and its JSON.
* `createHold`, `getHold`, `listHolds`, `mutateScope`, `releaseHold`,
  `listActivity`, `checkRetention` — the operations.

## Main results

* `HoldView.fromValue_toValue` — a stored view is decoded to itself.
-/

namespace LegalHold

open Interleave

/-! ### Views and errors -/

/-- A scope as it is shown in a hold: what is held, for whom if not for everybody, and since when,
with the time written out as a text. -/
structure ScopeView where
  scopeKind : String
  scopeId : String
  subject : Option String
  createdAt : String
  deriving DecidableEq, Repr, Inhabited

/-- A hold as the storage returns it, with its scopes.  Times, status and revision are texts; the
three fields of a release are there once the hold has been released. -/
structure HoldView where
  organizationId : String
  holdId : String
  title : String
  reason : String
  legalAuthority : String
  status : String
  revision : String
  createdBy : String
  createdAt : String
  releasedBy : Option String
  releasedAt : Option String
  releaseReason : Option String
  scopes : List ScopeView
  deriving DecidableEq, Repr, Inhabited

/-- An event in the history of a hold as the storage returns it, with its number as a decimal
text. -/
structure ActivityView where
  activityId : String
  kind : ActivityKind
  actorSubject : String
  payload : Json
  createdAt : String
  deriving Inhabited

/-- The answer of the retention guard: whether the action is allowed, under which id the decision
has been recorded, and why it is not. -/
structure GuardDecision where
  allowed : Bool
  decisionId : String
  reasonCode : Option String
  deriving DecidableEq, Repr, Inhabited

/-- The reasons for which the storage refuses a request that the database has carried out so
far. -/
inductive DomainFailure where
  | notFound
  | revisionConflict
  | idempotencyConflict
  | scopeConflict
  | holdReleased
  deriving DecidableEq, Repr

/-- How a storage operation fails: for a reason of its own, because a statement has failed (under
the label that the operation gives it), or because a stored value cannot be shown or read. -/
inductive StorageError where
  | domain (failure : DomainFailure)
  | database (operation : String) (source : SqlError)
  | invalidStored (message : String)
  | serialization (message : String)
  deriving DecidableEq, Repr

/-- The text that is stored in `legal_holds.status`. -/
def Status.text : Status → String
  | .active => "active"
  | .released => "released"

/-! ### Views as JSON -/

namespace Json

/-- A member that is required and must be a text. -/
def getStr (name : String) (v : Json) : Except String String :=
  match v.field name with
  | some (.str s) => .ok s
  | some _ => .error "invalid type"
  | none => .error "missing field"

/-- A text member that may be absent or `null`. -/
def getOptStr (name : String) (v : Json) : Except String (Option String) :=
  match v.field name with
  | none => .ok none
  | some .null => .ok none
  | some (.str s) => .ok (some s)
  | some _ => .error "invalid type"

/-- A member that is required and must be an array. -/
def getArr (name : String) (v : Json) : Except String (List Json) :=
  match v.field name with
  | some (.arr items) => .ok items
  | some _ => .error "invalid type"
  | none => .error "missing field"

/-- What the deserializer derived for a structure reads an array as: its items are the members in
the order of their declaration, when there are as many. -/
def positional (names : List String) : Json → Json
  | .arr items => if items.length = names.length then .obj (names.zip items) else .arr items
  | v => v

end Json

/-- `serde_json::to_value`; it cannot fail on texts and lists of them. -/
def ScopeView.toValue (s : ScopeView) : Json :=
  .obj [("scope_kind", .str s.scopeKind), ("scope_id", .str s.scopeId),
    ("subject", Json.ofOption s.subject), ("created_at", .str s.createdAt)]

/-- `serde_json::from_value`, as it is derived for `ScopeView`. -/
def ScopeView.fromValue (v : Json) : Except String ScopeView := do
  let v := v.positional ["scope_kind", "scope_id", "subject", "created_at"]
  return {
    scopeKind := ← v.getStr "scope_kind"
    scopeId := ← v.getStr "scope_id"
    subject := ← v.getOptStr "subject"
    createdAt := ← v.getStr "created_at" }

/-- `serde_json::to_value`, as it is derived for `HoldView`: the value that is stored in a
receipt. -/
def HoldView.toValue (h : HoldView) : Json :=
  .obj [("organization_id", .str h.organizationId), ("hold_id", .str h.holdId),
    ("title", .str h.title), ("reason", .str h.reason),
    ("legal_authority", .str h.legalAuthority), ("status", .str h.status),
    ("revision", .str h.revision), ("created_by", .str h.createdBy),
    ("created_at", .str h.createdAt), ("released_by", Json.ofOption h.releasedBy),
    ("released_at", Json.ofOption h.releasedAt),
    ("release_reason", Json.ofOption h.releaseReason),
    ("scopes", .arr (h.scopes.map ScopeView.toValue))]

/-- `serde_json::from_value`, as it is derived for `HoldView`. -/
def HoldView.fromValue (v : Json) : Except String HoldView := do
  let v := v.positional ["organization_id", "hold_id", "title", "reason", "legal_authority",
    "status", "revision", "created_by", "created_at", "released_by", "released_at",
    "release_reason", "scopes"]
  return {
    organizationId := ← v.getStr "organization_id"
    holdId := ← v.getStr "hold_id"
    title := ← v.getStr "title"
    reason := ← v.getStr "reason"
    legalAuthority := ← v.getStr "legal_authority"
    status := ← v.getStr "status"
    revision := ← v.getStr "revision"
    createdBy := ← v.getStr "created_by"
    createdAt := ← v.getStr "created_at"
    releasedBy := ← v.getOptStr "released_by"
    releasedAt := ← v.getOptStr "released_at"
    releaseReason := ← v.getOptStr "release_reason"
    scopes := ← (← v.getArr "scopes").mapM ScopeView.fromValue }

theorem ScopeView.fromValue_toValue (s : ScopeView) : ScopeView.fromValue s.toValue = .ok s := by
  obtain ⟨kind, id, subject, at'⟩ := s
  cases subject <;> rfl

theorem ScopeView.mapM_fromValue (l : List ScopeView) :
    (l.map ScopeView.toValue).mapM ScopeView.fromValue = .ok l := by
  induction l with
  | nil => rfl
  | cons s l ih =>
    rw [List.map_cons, List.mapM_cons, ScopeView.fromValue_toValue, ih]
    rfl

/-- **A stored view is decoded to itself**, so that a retry is answered with what the first
attempt was. -/
theorem HoldView.fromValue_toValue (h : HoldView) : HoldView.fromValue h.toValue = .ok h := by
  obtain ⟨org, id, title, reason, authority, status, revision, createdBy, createdAt, releasedBy,
    releasedAt, releaseReason, scopes⟩ := h
  have hs := ScopeView.mapM_fromValue scopes
  -- every text member is found under its name; the scopes are left to `mapM_fromValue`
  cases releasedBy <;> cases releasedAt <;> cases releaseReason <;>
    · show HoldView.mk org id title reason authority status revision createdBy createdAt _ _ _ <$>
        (scopes.map ScopeView.toValue).mapM ScopeView.fromValue = _
      rw [hs]
      rfl

/-! ### Statements with errors -/

/-- A storage function in progress: statements that it asks of the database, and an error or a
value at the end. -/
abbrev Storage (α : Type) : Type := ExceptT StorageError (Prog Stmt Stmt.Reply) α

/-- Issue a statement under a label, as `map_err(|source| database(operation, source))` does. -/
def issue (operation : String) (s : Stmt) : Storage s.Rows :=
  ExceptT.mk (.ask s fun
    | .ok rows => .ret (.ok rows)
    | .error source => .ret (.error (.database operation source)))

/-- A computation that asks nothing of the database. -/
def pureStep {α : Type} (x : Except StorageError α) : Storage α := ExceptT.mk (.ret x)

/-- A domain failure that is returned early; the transaction is dropped and rolls back. -/
def refuse {α : Type} (failure : DomainFailure) : Storage α := pureStep (.error (.domain failure))

/-- Decodes the response that a receipt holds into the view it was made of. -/
def decodeResponse (response : Json) : Storage HoldView :=
  pureStep ((HoldView.fromValue response).mapError .serialization)

/-! ### Views from rows -/

theorem map_eq_ok {ε α β : Type} {x : Except ε α} {f : α → β} {b : β} :
    f <$> x = .ok b ↔ ∃ a, x = .ok a ∧ f a = b := by
  cases x <;> simp

theorem mapError_eq_ok {ε ε' α : Type} {x : Except ε α} {f : ε → ε'} {a : α} :
    x.mapError f = .ok a ↔ x = .ok a := by
  cases x <;> simp [Except.mapError]

theorem bind_eq_ok {ε α β : Type} {x : Except ε α} {f : α → Except ε β} {b : β} :
    x >>= f = .ok b ↔ ∃ a, x = .ok a ∧ f a = .ok b := by
  cases x with
  | error e =>
    constructor
    · intro h
      cases h
    · rintro ⟨a, h, -⟩
      cases h
  | ok a =>
    constructor
    · exact fun h => ⟨a, rfl, h⟩
    · rintro ⟨a', h, h'⟩
      cases h
      exact h'

theorem bind_eq_error {ε α β : Type} {x : Except ε α} {f : α → Except ε β} {e : ε}
    (h : x >>= f = .error e) : x = .error e ∨ ∃ a, x = .ok a ∧ f a = .error e := by
  cases x with
  | error e' =>
    cases h
    exact .inl rfl
  | ok a => exact .inr ⟨a, rfl, h⟩

/-- What a traversal that succeeds has made of each element. -/
theorem mapM_eq_ok {ε α β : Type} {f : α → Except ε β} :
    ∀ {l : List α} {bs : List β}, l.mapM f = .ok bs →
      List.Forall₂ (fun a b => f a = .ok b) l bs := by
  intro l
  induction l with
  | nil =>
    intro bs h
    cases h
    exact .nil
  | cons a l ih =>
    intro bs h
    rw [List.mapM_cons] at h
    obtain ⟨b, hb, h⟩ := bind_eq_ok.mp h
    obtain ⟨bs', hbs, h⟩ := bind_eq_ok.mp h
    cases h
    exact .cons hb (ih hbs)

/-- What every step of a traversal keeps, the traversal keeps. -/
theorem map_eq_of_mapM {ε α β γ : Type} {f : α → Except ε β} {g : β → γ} {g' : α → γ}
    (hf : ∀ {a b}, f a = .ok b → g b = g' a) {l : List α} {bs : List β} (h : l.mapM f = .ok bs) :
    bs.map g = l.map g' := by
  have hall := mapM_eq_ok h
  clear h
  induction hall with
  | nil => rfl
  | cons hab _ ih => rw [List.map_cons, List.map_cons, hf hab, ih]

/-- What is related to a list element by element comes from one of its elements. -/
theorem forall₂_mem_right {α β : Type} {R : α → β → Prop} {l : List α} {l' : List β}
    (h : List.Forall₂ R l l') {b : β} (hb : b ∈ l') : ∃ a ∈ l, R a b := by
  induction h with
  | nil => cases hb
  | @cons a b' l l' hab _ ih =>
    rcases List.mem_cons.mp hb with rfl | hb
    · exact ⟨a, List.mem_cons_self, hab⟩
    · obtain ⟨a', ha', hab'⟩ := ih hb
      exact ⟨a', List.mem_cons_of_mem a ha', hab'⟩

/-- What comes out of a traversal was made of something. -/
theorem mem_of_mapM {ε α β : Type} {f : α → Except ε β} {l : List α} {bs : List β}
    (h : l.mapM f = .ok bs) {b : β} (hb : b ∈ bs) : ∃ a ∈ l, f a = .ok b :=
  forall₂_mem_right (mapM_eq_ok h) hb

theorem mapM_eq_error {ε α β : Type} {f : α → Except ε β} {e : ε} :
    ∀ {l : List α}, l.mapM f = .error e → ∃ a ∈ l, f a = .error e := by
  intro l
  induction l with
  | nil =>
    intro h
    cases h
  | cons a l ih =>
    intro h
    rw [List.mapM_cons] at h
    rcases bind_eq_error h with h | ⟨b, -, h⟩
    · exact ⟨a, List.mem_cons_self, h⟩
    · rcases bind_eq_error h with h | ⟨bs, -, h⟩
      · obtain ⟨a', ha', he⟩ := ih h
        exact ⟨a', List.mem_cons_of_mem _ ha', he⟩
      · cases h

section

variable [Backend]

/-- `format_time`: a time as RFC 3339 text, an error when the year does not fit in the format. -/
def formatTime (value : Time) : Except StorageError String :=
  (Backend.formatTime value).mapError .invalidStored

/-- A scope row as it is shown: its id and who has added it are left out, and its time is written
out. -/
def scopeView (row : ScopeRow) : Except StorageError ScopeView := do
  return { scopeKind := row.scopeKind, scopeId := row.scopeId, subject := row.subject,
           createdAt := ← formatTime row.createdAt }

/-- The second half of `load_hold_tx`: a view from the rows read. -/
def holdView (row : HoldRow) (scopeRows : List ScopeRow) : Except StorageError HoldView := do
  let scopes ← scopeRows.mapM scopeView
  let createdAt ← formatTime row.createdAt
  let releasedAt ← row.releasedAt.mapM formatTime
  return {
    organizationId := row.organizationId
    holdId := row.holdId
    title := row.title
    reason := row.reason
    legalAuthority := row.legalAuthority
    status := row.status.text
    revision := formatI64 row.revision
    createdBy := row.createdBy
    createdAt := createdAt
    releasedBy := row.releasedBy
    releasedAt := releasedAt
    releaseReason := row.releaseReason
    scopes := scopes }

/-- What a view is made of, when it can be made. -/
theorem holdView_eq_ok {row : HoldRow} {rows : List ScopeRow} {view : HoldView} :
    holdView row rows = .ok view ↔ ∃ scopes createdAt releasedAt,
      rows.mapM scopeView = .ok scopes ∧ formatTime row.createdAt = .ok createdAt ∧
      row.releasedAt.mapM formatTime = .ok releasedAt ∧
      view = ⟨row.organizationId, row.holdId, row.title, row.reason, row.legalAuthority,
        row.status.text, formatI64 row.revision, row.createdBy, createdAt, row.releasedBy,
        releasedAt, row.releaseReason, scopes⟩ := by
  unfold holdView
  constructor
  · intro h
    obtain ⟨scopes, hs, h⟩ := bind_eq_ok.mp h
    obtain ⟨createdAt, hc, h⟩ := bind_eq_ok.mp h
    obtain ⟨releasedAt, hr, h⟩ := bind_eq_ok.mp h
    cases h
    exact ⟨scopes, createdAt, releasedAt, hs, hc, hr, rfl⟩
  · rintro ⟨scopes, createdAt, releasedAt, hs, hc, hr, rfl⟩
    refine bind_eq_ok.mpr ⟨scopes, hs, ?_⟩
    refine bind_eq_ok.mpr ⟨createdAt, hc, ?_⟩
    exact bind_eq_ok.mpr ⟨releasedAt, hr, rfl⟩

/-- Rendering rows can only fail on a timestamp. -/
theorem holdView_error {row : HoldRow} {rows : List ScopeRow} {e : StorageError}
    (h : holdView row rows = .error e) : ∃ message, e = .invalidStored message := by
  have htime : ∀ {time : Time}, formatTime time = .error e →
      ∃ message, e = .invalidStored message := by
    intro time he
    unfold formatTime at he
    cases hb : Backend.formatTime time with
    | ok text =>
      rw [hb] at he
      cases he
    | error message =>
      rw [hb] at he
      cases he
      exact ⟨message, rfl⟩
  unfold holdView at h
  rcases bind_eq_error h with h | ⟨scopes, -, h⟩
  · obtain ⟨s, -, hs⟩ := mapM_eq_error h
    rcases bind_eq_error hs with hs | ⟨text, -, hs⟩
    · exact htime hs
    · cases hs
  rcases bind_eq_error h with h | ⟨createdAt, -, h⟩
  · exact htime h
  rcases bind_eq_error h with h | ⟨releasedAt, -, h⟩
  · cases hr : row.releasedAt with
    | none =>
      rw [hr] at h
      cases h
    | some time =>
      rw [hr] at h
      rcases bind_eq_error h with h | ⟨text, -, h⟩
      · exact htime h
      · cases h
  · cases h

/-- A row of the activity table as it is shown, its number and its time written out as texts. -/
def activityView (row : ActivityRow) : Except StorageError ActivityView := do
  return { activityId := formatI64 row.activityId, kind := row.kind,
           actorSubject := row.actorSubject, payload := row.payload,
           createdAt := ← formatTime row.createdAt }

/-! ### Shared parts -/

/-- `replay`: the response that the receipt for a key holds, if there is one.  A receipt with
another digest belongs to another request, and the key cannot be used again. -/
def replay (caller actor : String) (operation : Operation) (idempotencyKey : String)
    (requestHash : List UInt8) : Storage (Option Json) := do
  let row : Option CommandRow ← issue "read legal hold command"
    (.query (.selectCommand ⟨caller, actor, operation, idempotencyKey⟩))
  match row with
  | none => return none
  | some row =>
    if row.requestHash ≠ requestHash then refuse .idempotencyConflict
    else return some row.response

/-- `lock_hold`: locks the row of a hold of the organization until the transaction ends, and reads
status and revision from it. -/
def lockHold (organizationId holdId : String) : Storage (Status × Int) := do
  let row : Option (Status × Int) ←
    issue "lock legal hold" (.query (.lockHold organizationId holdId))
  match row with
  | none => refuse .notFound
  | some row => return row

/-- `load_hold_tx`: reads a hold and then its scopes, by two statements of the transaction it is
called in. -/
def loadHoldTx (organizationId holdId : String) : Storage HoldView := do
  let row : Option HoldRow ←
    issue "read legal hold" (.query (.selectHold organizationId holdId))
  match row with
  | none => refuse .notFound
  | some row =>
    let scopeRows ← issue "read legal hold scopes" (.query (.selectScopes holdId))
    pureStep (holdView row scopeRows)

/-- `append_activity`: adds an event to the history of a hold, under a number that the sequence
gives out. -/
def appendActivity (organizationId holdId : String) (kind : ActivityKind) (actor : String)
    (payload : Json) : Storage Unit :=
  issue "append legal hold activity"
    (.query (.insertActivity organizationId holdId kind actor payload))

/-- `store_command`: stores the receipt of a command, its response being the view that is
returned. -/
def storeCommand (caller actor : String) (operation : Operation) (idempotencyKey : String)
    (requestHash : List UInt8) (response : Json) : Storage Unit :=
  issue "store legal hold command"
    (.query (.insertCommand ⟨caller, actor, operation, idempotencyKey⟩ requestHash response))

/-! ### `create_hold` -/

/-- What `create_hold` does when no receipt is found: it inserts the hold, its activity and the
receipt. -/
def createHold.fresh (input : CreateHold) : Storage HoldView := do
  let inserted : ℕ ← issue "insert legal hold" (.query (.insertHold input.holdId
    input.organizationId input.title input.reason input.legalAuthority input.actor))
  if inserted ≠ 1 then refuse .idempotencyConflict
  else
    appendActivity input.organizationId input.holdId .holdCreated input.actor
      (.obj [("title", .str input.title), ("legal_authority", .str input.legalAuthority)])
    let view ← loadHoldTx input.organizationId input.holdId
    storeCommand input.caller input.actor .createHold input.idempotencyKey input.requestHash
      view.toValue
    issue "commit create hold" .commit
    return view

/-- `create_hold`: one transaction, which is answered from the receipt when there is one. -/
def createHold (input : CreateHold) : Storage HoldView := do
  issue "begin create hold" .begin
  match ← replay input.caller input.actor .createHold input.idempotencyKey input.requestHash with
  | some response => decodeResponse response
  | none => createHold.fresh input

/-! ### `get_hold` and `list_holds` -/

/-- `get_hold`: a hold that is read in a transaction of its own. -/
def getHold (organizationId holdId : String) : Storage HoldView := do
  issue "begin read hold" .begin
  let view ← loadHoldTx organizationId holdId
  issue "commit read hold" .commit
  return view

/-- The loop of `list_holds`: one `get_hold` for each listed id. -/
def listHolds.collect (organizationId : String) : List String → Storage (List HoldView)
  | [] => return []
  | holdId :: rest => do
    let hold ← getHold organizationId holdId
    let holds ← listHolds.collect organizationId rest
    return hold :: holds

/-- `list_holds`: the ids of a page are read by one statement outside of any transaction, and then
every hold of it by a transaction of its own. -/
def listHolds (organizationId : String) (status : Option Status) (cursor : Option String)
    (limit : Int) : Storage (List HoldView × Option String) := do
  let rows : List String ←
    issue "list legal holds" (.pool (.listHolds organizationId status cursor (limit + 1)))
  -- `limit + 1` ids were asked for, to see whether there are more.
  let hasMore : Bool := limit < rows.length
  let holds ← listHolds.collect organizationId
    (rows.take (if limit < 0 then 200 else limit.toNat))
  return (holds, if hasMore then holds.getLast?.map (·.holdId) else none)

/-! ### `mutate_scope` -/

/-- What `mutate_scope` does when no receipt is found: it locks the hold, checks it and changes
its scopes. -/
def mutateScope.fresh (input : MutateScope) : Storage HoldView := do
  let (status, revision) ← lockHold input.organizationId input.holdId
  if status ≠ .active then refuse .holdReleased
  else if revision ≠ input.expectedRevision then refuse .revisionConflict
  else
    -- Neither statement fails for a scope that is there or missing: it affects no row.
    let changed : ℕ ←
      if input.add then
        issue "add legal hold scope" (.query (.insertScope input.holdId
          ⟨input.scopeKind, input.scopeId, input.subject⟩ input.actor))
      else
        issue "remove legal hold scope" (.query (.deleteScope input.holdId
          ⟨input.scopeKind, input.scopeId, input.subject⟩))
    if changed ≠ 1 then refuse .scopeConflict
    else
      issue "advance legal hold revision" (.query (.advanceRevision input.holdId))
      appendActivity input.organizationId input.holdId
        (if input.add then .scopeAdded else .scopeRemoved) input.actor
        (.obj [("scope_kind", .str input.scopeKind), ("scope_id", .str input.scopeId),
          ("subject", Json.ofOption input.subject)])
      let view ← loadHoldTx input.organizationId input.holdId
      storeCommand input.caller input.actor input.operation input.idempotencyKey
        input.requestHash view.toValue
      issue "commit mutate hold scope" .commit
      return view

/-- `mutate_scope`, behind both `add_scope` and `remove_scope`: one transaction, which is answered
from the receipt when there is one. -/
def mutateScope (input : MutateScope) : Storage HoldView := do
  issue "begin mutate hold scope" .begin
  match ← replay input.caller input.actor input.operation input.idempotencyKey
      input.requestHash with
  | some response => decodeResponse response
  | none => mutateScope.fresh input

/-! ### `release_hold` -/

/-- What `release_hold` does when no receipt is found: it locks the hold, checks it and marks it
as released. -/
def releaseHold.fresh (input : ReleaseHold) : Storage HoldView := do
  let (status, revision) ← lockHold input.organizationId input.holdId
  if status ≠ .active then refuse .holdReleased
  else if revision ≠ input.expectedRevision then refuse .revisionConflict
  else
    issue "release legal hold" (.query (.releaseHold input.holdId input.actor input.reason))
    appendActivity input.organizationId input.holdId .holdReleased input.actor
      (.obj [("reason", .str input.reason)])
    let view ← loadHoldTx input.organizationId input.holdId
    storeCommand input.caller input.actor .releaseHold input.idempotencyKey input.requestHash
      view.toValue
    issue "commit release hold" .commit
    return view

/-- `release_hold`: one transaction, which is answered from the receipt when there is one. -/
def releaseHold (input : ReleaseHold) : Storage HoldView := do
  issue "begin release hold" .begin
  match ← replay input.caller input.actor .releaseHold input.idempotencyKey
      input.requestHash with
  | some response => decodeResponse response
  | none => releaseHold.fresh input

/-! ### `list_activity` -/

/-- `list_activity`: the hold is read first, so that a hold of another organization is not found;
the page is then read by a statement of its own, and its last number is the next cursor. -/
def listActivity (organizationId holdId : String) (after limit : Int) :
    Storage (List ActivityView × Int) := do
  let _ ← getHold organizationId holdId
  let rows : List ActivityRow ← issue "list legal hold activity"
    (.pool (.listActivity organizationId holdId after limit))
  let events ← pureStep (rows.mapM activityView)
  let next := match events.getLast? with
    | none => after
    | some event => (parseI64 event.activityId).getD after
  return (events, next)

/-! ### `check_retention` -/

/-- The `matching_holds` array of the evidence, in the order in which the query has found the
holds. -/
def matchingHolds (rows : List (String × Int)) : Json :=
  .arr (rows.map fun row =>
    .obj [("hold_id", .str row.1), ("revision", .str (formatI64 row.2))])

/-- The value of which the digest is taken, with the members in the order in which the source
writes them. -/
def evidence (input : RetentionCheck) (rows : List (String × Int)) : Json :=
  .obj [("caller", .str input.caller), ("action_id", .str input.actionId),
    ("scope_kind", .str input.scopeKind), ("scope_id", .str input.scopeId),
    ("subject", .str input.subject), ("mode", .str input.mode), ("reason", .str input.reason),
    ("matching_holds", matchingHolds rows)]

/-- The id of a decision, `format!("guard:{}", hex::encode(request_hash))`. -/
def decisionId (requestHash : List UInt8) : String := "guard:" ++ hexEncode requestHash

/-- The decision that `check_retention` makes from the rows it has read. -/
def guardDecision (input : RetentionCheck) (rows : List (String × Int)) : GuardDecision where
  allowed := rows.isEmpty
  decisionId := decisionId (Backend.digest (evidence input rows))
  reasonCode := if rows.isEmpty then none else some "active_legal_hold"

/-- The row `check_retention` stores for the rows it has read. -/
def guardRow (input : RetentionCheck) (rows : List (String × Int)) (evaluatedAt : Time) :
    DecisionRow where
  decisionId := (guardDecision input rows).decisionId
  actionId := input.actionId
  callerInstance := input.caller
  requestHash := Backend.digest (evidence input rows)
  allowed := (guardDecision input rows).allowed
  reasonCode := (guardDecision input rows).reasonCode
  matchingHolds := matchingHolds rows
  evaluatedAt := evaluatedAt

/-- `check_retention`: one statement reads the holds that match, another records what is decided
from them.  There is no transaction around the two. -/
def checkRetention (input : RetentionCheck) : Storage GuardDecision := do
  let rows : List (String × Int) ← issue "evaluate legal hold guard"
    (.pool (.matchHolds input.scopeKind input.scopeId input.subject))
  let decision := guardDecision input rows
  issue "store legal hold guard decision"
    (.pool (.insertDecision decision.decisionId input.actionId input.caller
      (Backend.digest (evidence input rows)) decision.allowed decision.reasonCode
      (matchingHolds rows)))
  return decision

end

end LegalHold
