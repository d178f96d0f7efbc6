import LegalHold.Contract
import LegalHold.Handlers
import LegalHold.Serde.Struct

/-!
# The agent tools

The adapter that offers the seven administrative operations as tools.  A tool is advertised
with the schema of its request; a call of it is decoded into the request, by the deserializer
derived for its type, and passed on to the capability.

What the adapter depends on and the repository does not contain is a parameter: the parser and
the printer of JSON texts, and the two functions by which the contract runtime reads members.

## Main definitions

* `Tool`, `toolDefinitions` — the tools and their catalog.
* `ToolRuntime` — the dependencies.
* `AddScopeRequest.deserialize` and its like — the derived deserializers.
* `ToolRuntime.execute` — a call of a tool, as a program that asks the capability.

## Main results

* `ToolRuntime.execute_refused_iff` — **a call is refused before the capability is asked**
  exactly when nothing is decoded.
-/

namespace LegalHold

open Interleave JsonSchema

/-! ### Tools -/

/-- The seven tools, one for each administrative operation. -/
inductive Tool where
  | get
  | list
  | activity
  | create
  | addScope
  | removeScope
  | release
  deriving DecidableEq, Repr

/-- Whether calls of a tool may be made side by side, or one at a time. -/
inductive ToolExecutionClass where
  | parallelSafe
  | exclusive
  deriving DecidableEq, Repr

/-- What the catalog says of a tool, which is all that an agent knows of it. -/
structure ToolDefinition where
  name : String
  description : String
  /-- `input_schema_json`. -/
  inputSchema : Schema
  execution : ToolExecutionClass

namespace Tool

/-- The name under which an agent calls the tool, as the constant of the adapter has it. -/
def name : Tool → String
  | .create => "legal_hold_create"
  | .get => "legal_hold_get"
  | .list => "legal_hold_list"
  | .addScope => "legal_hold_add_scope"
  | .removeScope => "legal_hold_remove_scope"
  | .release => "legal_hold_release"
  | .activity => "legal_hold_list_activity"

/-- The description that the catalog gives an agent. -/
def description : Tool → String
  | .get => "Get one legal hold for authorized review."
  | .list => "List legal holds with bounded cursor pagination."
  | .activity => "List bounded activity for one legal hold."
  | .create => "Create a legal hold with a caller-scoped idempotency key."
  | .addScope => "Add one exact scope using the current expected revision."
  | .removeScope => "Remove one exact scope using the current expected revision."
  | .release => "Irreversibly release a legal hold using the current expected revision."

/-- The schema that is advertised for the arguments of a tool: that of the request of its
operation. -/
def inputSchema : Tool → Schema
  | .get => getHoldRequestSchema
  | .list => listHoldsRequestSchema
  | .activity => listActivityRequestSchema
  | .create => createHoldRequestSchema
  | .addScope => mutateScopeRequestSchema
  | .removeScope => mutateScopeRequestSchema
  | .release => releaseHoldRequestSchema

/-- The execution class that is advertised: the tools that change anything are exclusive. -/
def execution : Tool → ToolExecutionClass
  | .get => .parallelSafe
  | .list => .parallelSafe
  | .activity => .parallelSafe
  | .create => .exclusive
  | .addScope => .exclusive
  | .removeScope => .exclusive
  | .release => .exclusive

/-- `tool`: the entry of a tool in the catalog. -/
def definition (t : Tool) : ToolDefinition where
  name := t.name
  description := t.description
  inputSchema := t.inputSchema
  execution := t.execution

/-- The tools in the order of the catalog. -/
def all : List Tool := [.get, .list, .activity, .create, .addScope, .removeScope, .release]

end Tool

/-- `tool_definitions`: the catalog of the seven tools. -/
def toolDefinitions : List ToolDefinition := Tool.all.map Tool.definition

/-! ### What serde reads -/

/-- `String::deserialize`, for a value that has been parsed: only a string is read. -/
def deserializeString : Json → Option String
  | .str s => some s
  | _ => none

/-- `i64::deserialize`, for a value that has been parsed: only an integer in range is read. -/
def deserializeI64 : Json → Option Int
  | .num n => if minI64 ≤ n ∧ n ≤ maxI64 then some n else none
  | _ => none

/-- `Option::deserialize`: `null` is nothing, and every other value is something or an error. -/
def deserializeOption {α : Type} (deserialize : Json → Option α) : Json → Option (Option α)
  | .null => some none
  | v => (deserialize v).map some

/-- The status that the text of a variant of `ListHoldsRequestStatus` stands for. -/
def Status.variant : String → Option Status
  | "active" => some .active
  | "released" => some .released
  | _ => none

/-- `ListHoldsRequestStatus::deserialize`: a variant is its name, or an object with the name
and no content. -/
def Status.deserialize : Json → Option Status
  | .str name => variant name
  | .obj [(name, .null)] => variant name
  | _ => none

/-! ### The dependencies -/

/-- What the adapter is linked with and the repository does not contain: a parser and a printer of
JSON, and the two readers of members that the generated structures name. -/
structure ToolRuntime where
  /-- The value of a JSON text. -/
  parse : String → Option Json
  /-- `serde_json::to_string_pretty`. -/
  toStringPretty : Json → Except String String
  /-- `lenso_contract_runtime::serde::deserialize_required`. -/
  deserializeRequired : (α : Type) → (Json → Option α) → Json → Option α
  /-- `lenso_contract_runtime::serde::deserialize_optional_value`. -/
  deserializeOptionalValue : (α : Type) → (Json → Option α) → Json → Option (OptionalValue α)

namespace ToolRuntime

/-- The contract runtime reads a required member as its type does, and tells `null` from a
value in an optional one. -/
structure Documented (rt : ToolRuntime) : Prop where
  required : ∀ {α : Type} (deserialize : Json → Option α) (v : Json),
    rt.deserializeRequired α deserialize v = deserialize v
  optionalValue : ∀ {α : Type} (deserialize : Json → Option α) (v : Json),
    rt.deserializeOptionalValue α deserialize v = (deserializeOption deserialize v).map some

end ToolRuntime

/-- How a member of a request is declared. -/
inductive Declaration where
  /-- `String`. -/
  | text
  /-- `i64`. -/
  | integer
  /-- `Option<String>`. -/
  | optionalText
  /-- `Option<ListHoldsRequestStatus>`. -/
  | optionalStatus
  /-- `OptionalValue<String>`, with a default. -/
  | optionalValue
  deriving DecidableEq, Repr

namespace ToolRuntime

variable (rt : ToolRuntime)

/-- The field that is derived for a member. -/
def field : String × Declaration → Serde.Field Json
  | (name, .text) => ⟨name, String, rt.deserializeRequired String deserializeString, none, none⟩
  | (name, .integer) => ⟨name, Int, rt.deserializeRequired Int deserializeI64, none, none⟩
  | (name, .optionalText) =>
    ⟨name, Option String, deserializeOption deserializeString, some none, none⟩
  | (name, .optionalStatus) =>
    ⟨name, Option Status, deserializeOption Status.deserialize, some none, none⟩
  | (name, .optionalValue) =>
    ⟨name, OptionalValue String, rt.deserializeOptionalValue String deserializeString, some none,
      some none⟩

/-- The deserializer that serde derives for a structure whose members are declared so: each member
is read by the deserializer of its type. -/
def read (declared : List (String × Declaration)) (v : Json) :
    Option (Serde.Contents (declared.map rt.field)) := Serde.deserialize (declared.map rt.field) v

end ToolRuntime

/-! ### Requests -/

/-- The members of `AddScopeRequest` in the order of the declaration, which is that of a
sequence. -/
def AddScopeRequest.declared : List (String × Declaration) :=
  [("expected_revision", .text), ("hold_id", .text), ("idempotency_key", .text),
    ("organization_id", .text), ("scope_id", .text), ("scope_kind", .text),
    ("subject", .optionalValue)]

/-- The members of `CreateHoldRequest` in the order of the declaration. -/
def CreateHoldRequest.declared : List (String × Declaration) :=
  [("hold_id", .text), ("idempotency_key", .text), ("legal_authority", .text),
    ("organization_id", .text), ("reason", .text), ("title", .text)]

/-- The members of `GetHoldRequest` in the order of the declaration. -/
def GetHoldRequest.declared : List (String × Declaration) :=
  [("hold_id", .text), ("organization_id", .text)]

/-- The members of `ListActivityRequest` in the order of the declaration. -/
def ListActivityRequest.declared : List (String × Declaration) :=
  [("after", .optionalText), ("hold_id", .text), ("limit", .integer), ("organization_id", .text)]

/-- The members of `ListHoldsRequest` in the order of the declaration. -/
def ListHoldsRequest.declared : List (String × Declaration) :=
  [("cursor", .optionalText), ("limit", .integer), ("organization_id", .text),
    ("status", .optionalStatus)]

/-- The members of `ReleaseHoldRequest` in the order of the declaration. -/
def ReleaseHoldRequest.declared : List (String × Declaration) :=
  [("expected_revision", .text), ("hold_id", .text), ("idempotency_key", .text),
    ("organization_id", .text), ("reason", .text)]

section

variable (rt : ToolRuntime)

/-- The deserializer that is derived for `AddScopeRequest`: the contents of the declared members,
put into the structure. -/
def AddScopeRequest.deserialize (v : Json) : Option AddScopeRequest :=
  (rt.read declared v).map fun (expectedRevision, holdId, idempotencyKey, organizationId, scopeId,
    scopeKind, subject, ()) =>
    ⟨expectedRevision, holdId, idempotencyKey, organizationId, scopeId, scopeKind, subject⟩

/-- The deserializer that is derived for `CreateHoldRequest`. -/
def CreateHoldRequest.deserialize (v : Json) : Option CreateHoldRequest :=
  (rt.read declared v).map fun (holdId, idempotencyKey, legalAuthority, organizationId, reason,
    title, ()) => ⟨holdId, idempotencyKey, legalAuthority, organizationId, reason, title⟩

/-- The deserializer that is derived for `GetHoldRequest`. -/
def GetHoldRequest.deserialize (v : Json) : Option GetHoldRequest :=
  (rt.read declared v).map fun (holdId, organizationId, ()) => ⟨holdId, organizationId⟩

/-- The deserializer that is derived for `ListActivityRequest`. -/
def ListActivityRequest.deserialize (v : Json) : Option ListActivityRequest :=
  (rt.read declared v).map fun (after, holdId, limit, organizationId, ()) =>
    ⟨organizationId, holdId, after, limit⟩

/-- The deserializer that is derived for `ListHoldsRequest`. -/
def ListHoldsRequest.deserialize (v : Json) : Option ListHoldsRequest :=
  (rt.read declared v).map fun (cursor, limit, organizationId, status, ()) =>
    ⟨cursor, limit, organizationId, status⟩

/-- The deserializer that is derived for `ReleaseHoldRequest`. -/
def ReleaseHoldRequest.deserialize (v : Json) : Option ReleaseHoldRequest :=
  (rt.read declared v).map fun (expectedRevision, holdId, idempotencyKey, organizationId, reason,
    ()) => ⟨expectedRevision, holdId, idempotencyKey, organizationId, reason⟩

end

namespace Tool

/-- The members that the request of a tool declares, in their order. -/
def declared : Tool → List (String × Declaration)
  | .get => GetHoldRequest.declared
  | .list => ListHoldsRequest.declared
  | .activity => ListActivityRequest.declared
  | .create => CreateHoldRequest.declared
  | .addScope => AddScopeRequest.declared
  | .removeScope => AddScopeRequest.declared
  | .release => ReleaseHoldRequest.declared

/-- The request that a value is decoded into, by the deserializer of the tool that has been
called. -/
def request (rt : ToolRuntime) (v : Json) : Tool → Option LegalHoldRequest
  | .get => (GetHoldRequest.deserialize rt v).map .getHold
  | .list => (ListHoldsRequest.deserialize rt v).map .listHolds
  | .activity => (ListActivityRequest.deserialize rt v).map .listActivity
  | .create => (CreateHoldRequest.deserialize rt v).map .createHold
  | .addScope => (AddScopeRequest.deserialize rt v).map .addScope
  | .removeScope => (AddScopeRequest.deserialize rt v).map .removeScope
  | .release => (ReleaseHoldRequest.deserialize rt v).map .releaseHold

end Tool

/-! ### Calls -/

/-- An error that the capability declares, or one that the client does not know. -/
inductive LegalHoldError where
  | known (error : DomainError)
  | unknown (code : String)
  deriving DecidableEq, Repr

/-- How an invocation of the capability fails: with an error that the operation declares, or at
run time. -/
inductive LegalHoldInvocationError where
  | domain (error : LegalHoldError)
  | runtime (failure : RuntimeFailure)
  deriving DecidableEq, Repr

/-- What an agent is told of an operation that has been rejected. -/
structure ExecutionFailedPayload where
  reasonCode : String
  message : String
  detailsJson : Json

/-- The errors that a tool provider declares. -/
inductive ExecuteError where
  | invalidArguments
  | notFound
  | permissionDenied
  | executionFailed (payload : ExecutionFailedPayload)

/-- The error of a call of a tool: one that a tool provider declares, or a failure at run time. -/
inductive ToolError where
  | domain (error : ExecuteError)
  | runtime (failure : RuntimeFailure)

/-- A call as it comes in: the name of a tool, and a text that should be its arguments. -/
structure ExecuteRequest where
  name : String
  argumentsJson : String

/-- The type of the content of a response, of which the adapter uses one only. -/
inductive ContentType where
  | text
  deriving DecidableEq, Repr

/-- The response to a call: a text that is made from what the capability has answered, and the
name of the tool beside it. -/
structure ExecuteResponse where
  contentBlocks : Option (List Json)
  content : String
  contentType : ContentType
  metadataJson : Json

/-- `rejected`: an error of the capability that has no counterpart among those of a tool provider
is passed on by its code. -/
def rejected (code : String) : ExecuteError :=
  .executionFailed
    { reasonCode := code
      message := "Legal Hold rejected the operation."
      detailsJson := .obj [("domain_error", .str code)] }

/-- `tool_error`, which a macro defines for each operation in the same way: errors that have a
counterpart are mapped to it, and the others are rejections. -/
def LegalHoldError.toolError : LegalHoldError → ExecuteError
  | .known .invalidRequest => .invalidArguments
  | .known .notFound => .notFound
  | .known .forbidden => .permissionDenied
  | .known .unauthenticated => .permissionDenied
  | .known .holdReleased => rejected "hold_released"
  | .known .idempotencyConflict => rejected "idempotency_conflict"
  | .known .revisionConflict => rejected "revision_conflict"
  | .known .scopeConflict => rejected "scope_conflict"
  | .unknown _ => rejected "unknown_domain_error"

/-- A call in progress: it invokes the capability, which answers with the value of a response. -/
abbrev Call : Type → Type :=
  Prog LegalHoldRequest fun _ => Except LegalHoldInvocationError Json

namespace ToolRuntime

variable (rt : ToolRuntime)

/-- `success`: what the capability has answered, printed as the content of a response.  The call
fails at run time when that cannot be printed, though the operation has been carried out. -/
def success (name : String) (response : Json) : Except ToolError ExecuteResponse :=
  match rt.toStringPretty response with
  | .error error =>
    .error (.runtime (.pluginFailure
      ("Legal Hold Tool could not serialize its response: " ++ error)))
  | .ok content =>
    .ok
      { contentBlocks := none
        content := content
        contentType := .text
        metadataJson := .obj [("tool", .str name)] }

/-- `decode`: the request that the arguments are read as.  A text that is no JSON and a value that
is no request are told apart by nobody. -/
def decode (t : Tool) (request : ExecuteRequest) : Except ToolError LegalHoldRequest :=
  ((rt.parse request.argumentsJson).bind fun v => t.request rt v).elim
    (.error (.domain .invalidArguments)) .ok

/-- `invoke!`: the arguments are decoded, the capability is asked, and its answer is printed or
its error mapped.  Arguments that are not decoded ask for nothing. -/
def invoke (t : Tool) (request : ExecuteRequest) : Call (Except ToolError ExecuteResponse) :=
  match rt.decode t request with
  | .error error => .ret (.error error)
  | .ok arguments =>
    .ask arguments fun
      | .ok response => .ret (rt.success t.name response)
      | .error (.domain error) => .ret (.error (.domain error.toolError))
      | .error (.runtime failure) => .ret (.error (.runtime failure))

/-- `execute`: a call goes to the tool of its name, and is refused when there is none. -/
def execute (request : ExecuteRequest) : Call (Except ToolError ExecuteResponse) :=
  match Tool.all.find? fun t => t.name = request.name with
  | some t => rt.invoke t request
  | none => .ret (.error (.domain .notFound))

end ToolRuntime

/-! ### Refused calls -/

namespace ToolRuntime

variable {rt : ToolRuntime}

theorem find?_name (t : Tool) : (Tool.all.find? fun t' => t'.name = t.name) = some t := by
  cases t <;> rfl

/-- A call is for the tool of its name. -/
theorem execute_name (t : Tool) (text : String) :
    rt.execute ⟨t.name, text⟩ = rt.invoke t ⟨t.name, text⟩ := by
  unfold execute
  rw [find?_name]

/-- **A call is refused before the capability is asked** exactly when nothing is decoded. -/
theorem execute_refused_iff {t : Tool} {text : String} :
    rt.execute ⟨t.name, text⟩ = .ret (.error (.domain .invalidArguments)) ↔
      ∀ v, rt.parse text = some v → t.request rt v = none := by
  rw [execute_name]
  unfold invoke decode
  cases hparse : rt.parse text with
  | none => simp
  | some v =>
    cases hrequest : t.request rt v with
    | none => simp [hrequest]
    | some arguments => simp [hrequest]

end ToolRuntime

end LegalHold
