import LegalHold.Schema

/-!
# Operations and commands

What the plugin asks of its storage: the inputs of the storage functions, the
operations a session can run, and, for the four mutating ones, the command they
denote.

The plugin calls `mutate_scope` with two pairs of constants only, `add_scope`
with `add` and `remove_scope` without; an operation of a session is therefore a
`ScopeRequest` under one of the two names.

## Main definitions

* `CreateHold`, `MutateScope`, `ReleaseHold`, `RetentionCheck` — the inputs.
* `Op` — the operations.
* `Change`, `Command`, `Op.command?` — a mutation as a command on one hold.
-/

namespace LegalHold

/-- The input of `create_hold` in the storage: the checked request, who makes it, and its
digest. -/
structure CreateHold where
  caller : String
  actor : String
  organizationId : String
  holdId : String
  title : String
  reason : String
  legalAuthority : String
  idempotencyKey : String
  requestHash : List UInt8
  deriving DecidableEq, Repr, Inhabited

/-- The part of the input of `mutate_scope` that `add_scope` and `remove_scope` have in common. -/
structure ScopeRequest where
  caller : String
  actor : String
  organizationId : String
  holdId : String
  scopeKind : String
  scopeId : String
  subject : Option String
  expectedRevision : Int
  idempotencyKey : String
  requestHash : List UInt8
  deriving DecidableEq, Repr, Inhabited

/-- The input of `mutate_scope`: a scope request, under the name of its operation and with the
direction of the change. -/
structure MutateScope extends ScopeRequest where
  operation : Operation
  add : Bool
  deriving DecidableEq, Repr, Inhabited

/-- The input of `release_hold` in the storage: the checked request, who makes it, and its
digest. -/
structure ReleaseHold where
  caller : String
  actor : String
  organizationId : String
  holdId : String
  expectedRevision : Int
  reason : String
  idempotencyKey : String
  requestHash : List UInt8
  deriving DecidableEq, Repr, Inhabited

/-- The input of `check_retention`: what is to be done to which resource, and who asks. -/
structure RetentionCheck where
  caller : String
  actionId : String
  scopeKind : String
  scopeId : String
  subject : String
  mode : String
  reason : String
  deriving DecidableEq, Repr, Inhabited

/-- The scope that a request is about: kind, id and subject. -/
def ScopeRequest.scope (i : ScopeRequest) : Scope := ⟨i.scopeKind, i.scopeId, i.subject⟩

/-- What a session can be asked to do, with the input that the handler has checked. -/
inductive Op where
  | createHold (i : CreateHold)
  | addScope (i : ScopeRequest)
  | removeScope (i : ScopeRequest)
  | releaseHold (i : ReleaseHold)
  | getHold (organizationId holdId : String)
  | listHolds (organizationId : String) (status : Option Status) (cursor : Option String)
      (limit : Int)
  | listActivity (organizationId holdId : String) (after limit : Int)
  | checkRetention (i : RetentionCheck)
  deriving DecidableEq, Repr, Inhabited

/-! ### Mutations as commands -/

/-- What a mutation wants to have changed of its hold, by the operation that asks for it. -/
inductive Change where
  | create (title reason legalAuthority : String)
  | addScope (scope : Scope) (expectedRevision : Int)
  | removeScope (scope : Scope) (expectedRevision : Int)
  | release (reason : String) (expectedRevision : Int)
  deriving DecidableEq, Repr, Inhabited

/-- The operation by which a change is made. -/
def Change.operation : Change → Operation
  | .create .. => .createHold
  | .addScope .. => .addScope
  | .removeScope .. => .removeScope
  | .release .. => .releaseHold

/-- The kind of the activity row a change leaves behind. -/
def Change.kind : Change → ActivityKind
  | .create .. => .holdCreated
  | .addScope .. => .scopeAdded
  | .removeScope .. => .scopeRemoved
  | .release .. => .holdReleased

/-- The payload of the activity row that a change writes. -/
def Change.payload : Change → Json
  | .create title _ legalAuthority =>
    .obj [("title", .str title), ("legal_authority", .str legalAuthority)]
  | .addScope scope _ => scopePayload scope
  | .removeScope scope _ => scopePayload scope
  | .release reason _ => .obj [("reason", .str reason)]
where
  scopePayload (scope : Scope) : Json :=
    .obj [("scope_kind", .str scope.scopeKind), ("scope_id", .str scope.scopeId),
      ("subject", Json.ofOption scope.subject)]

/-- The revision a change expects the hold to have; creation expects none. -/
def Change.expectedRevision : Change → Option Int
  | .create .. => none
  | .addScope _ revision => some revision
  | .removeScope _ revision => some revision
  | .release _ revision => some revision

/-- A mutation of one hold, as its caller, actor and key identify it. -/
structure Command where
  caller : String
  actor : String
  idempotencyKey : String
  requestHash : List UInt8
  organizationId : String
  holdId : String
  change : Change
  deriving DecidableEq, Repr, Inhabited

/-- What identifies a command: caller, actor, operation and idempotency key. -/
def Command.key (c : Command) : CommandKey :=
  ⟨c.caller, c.actor, c.change.operation, c.idempotencyKey⟩

/-- The command that a request to create a hold denotes. -/
def CreateHold.command (i : CreateHold) : Command :=
  ⟨i.caller, i.actor, i.idempotencyKey, i.requestHash, i.organizationId, i.holdId,
    .create i.title i.reason i.legalAuthority⟩

/-- The command that a request to add or to remove a scope denotes. -/
def ScopeRequest.command (i : ScopeRequest) (add : Bool) : Command :=
  ⟨i.caller, i.actor, i.idempotencyKey, i.requestHash, i.organizationId, i.holdId,
    if add then .addScope i.scope i.expectedRevision else .removeScope i.scope i.expectedRevision⟩

/-- The command that a request to release a hold denotes. -/
def ReleaseHold.command (i : ReleaseHold) : Command :=
  ⟨i.caller, i.actor, i.idempotencyKey, i.requestHash, i.organizationId, i.holdId,
    .release i.reason i.expectedRevision⟩

/-- The command of an operation, if it is one that mutates. -/
def Op.command? : Op → Option Command
  | .createHold i => some i.command
  | .addScope i => some (i.command true)
  | .removeScope i => some (i.command false)
  | .releaseHold i => some i.command
  | _ => none

end LegalHold
