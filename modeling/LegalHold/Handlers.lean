import LegalHold.Requests

/-!
# The handlers of the plugin

The eight operations as the plugin offers them: who may call them, what is
checked before the storage is asked, and what becomes of its answer.

The plugin's dependencies are not part of the repository.  They are parameters:
the calling instance of an invocation, the verifier of actor assertions, the
membership and access queries and the text format of a timestamp on the wire.

## Main definitions

* `Plugin` — a configured instance and its dependencies.
* `Plugin.authorizeAdmin`, `Plugin.allowedCaller` — the gates.
* `Plugin.createHold`, …, `Plugin.checkRetention` — the handlers.
* `Plugin.handle` — an administrative request under its handler.

## Main results

* `Plugin.handle_authorized` — behind its gate, a handler runs the program of the
  operation its request asks for.
* `Plugin.handle_unauthorized`, `Plugin.handle_invalid`, `Plugin.handle_unprepared` — what it
  settles by itself.
-/

namespace LegalHold

open Interleave

/-! ### Errors -/

/-- `RuntimeFailure`, as far as the plugin makes one itself. -/
inductive RuntimeFailure where
  | pluginFailure (detail : String)
  | internal (detail : String)
  | invalidResolvedPlan (detail : String)
  /-- One that a dependency has met. -/
  | other (description : String)
  deriving DecidableEq, Repr

/-- The errors that the operations declare in the contract. -/
inductive DomainError where
  | forbidden
  | holdReleased
  | idempotencyConflict
  | invalidRequest
  | notFound
  | revisionConflict
  | scopeConflict
  | unauthenticated
  deriving DecidableEq, Repr

/-- The error of a call: one that the operation declares, or a failure at run time. -/
inductive PluginError where
  | domain (error : DomainError)
  | runtime (failure : RuntimeFailure)
  deriving DecidableEq, Repr

/-- How the query of a dependency can fail. -/
inductive InvocationError where
  | domain (description : String)
  | runtime (failure : RuntimeFailure)
  deriving DecidableEq, Repr

/-- Why an administrative call is not let through: nobody is authenticated, somebody is who may
not make it, or the authorization itself has failed at run time. -/
inductive AuthorizationFailure where
  | unauthenticated
  | forbidden
  | runtime (failure : RuntimeFailure)
  deriving DecidableEq, Repr

/-- `map_authorization!`, which a macro repeats for the error type of each operation. -/
def mapAuthorization : AuthorizationFailure → PluginError
  | .unauthenticated => .domain .unauthenticated
  | .forbidden => .domain .forbidden
  | .runtime failure => .runtime failure

/-- The mapping of `create_hold`, which has no hold to miss and no revision to expect: all but a
conflict of keys is an invalid request. -/
def mapCreateDomain : DomainFailure → DomainError
  | .idempotencyConflict => .idempotencyConflict
  | _ => .invalidRequest

/-- `map_common_domain!`, the same for each operation but `create_hold`. -/
def mapCommonDomain : DomainFailure → DomainError
  | .notFound => .notFound
  | .revisionConflict => .revisionConflict
  | .idempotencyConflict => .idempotencyConflict
  | .scopeConflict => .scopeConflict
  | .holdReleased => .holdReleased

/-- The text of a domain failure in a message. -/
def DomainFailure.debug : DomainFailure → String
  | .notFound => "NotFound"
  | .revisionConflict => "RevisionConflict"
  | .idempotencyConflict => "IdempotencyConflict"
  | .scopeConflict => "ScopeConflict"
  | .holdReleased => "HoldReleased"

/-- The message of a storage error, as `thiserror` derives it. -/
def StorageError.message : StorageError → String
  | .domain failure => "legal hold domain failure: " ++ failure.debug
  | .database operation _ => "PostgreSQL operation `" ++ operation ++ "` failed"
  | .invalidStored message => "stored Legal Hold value is invalid: " ++ message
  | .serialization _ => "Legal Hold response serialization failed"

/-- `storage_runtime`: a storage error that is not a domain failure is passed on by its message
alone. -/
def storageRuntime (error : StorageError) : PluginError :=
  .runtime (.pluginFailure error.message)

/-- `serialization_runtime`: a response that cannot be cast is the fault of the plugin. -/
def serializationRuntime (error : String) : PluginError :=
  .runtime (.internal ("Legal Hold wire serialization failed: " ++ error))

/-- A handler in progress: statements that it asks of the database, and an error or an answer at
the end. -/
abbrev Handler (α : Type) : Type := ExceptT PluginError (Prog Stmt Stmt.Reply) α

/-- A part of a handler that is settled without the database. -/
def settle {α : Type} (x : Except PluginError α) : Handler α := ExceptT.mk (.ret x)

/-- The error that `map_storage` makes of a storage error: a domain failure is mapped, and all
others are failures at run time. -/
def mapStorageError (mapDomain : DomainFailure → DomainError) : StorageError → PluginError
  | .domain failure => .domain (mapDomain failure)
  | error => storageRuntime error

/-- `map_storage`: runs a storage operation and maps its error, if it has one. -/
def mapStorage {α : Type} (mapDomain : DomainFailure → DomainError) (result : Storage α) :
    Handler α :=
  ExceptT.mk (result.run.bind fun x => .ret (x.mapError (mapStorageError mapDomain)))

/-! ### Operations and permissions -/

/-- `CAPABILITY_ID`, for which an assertion must have been made. -/
def capabilityId : String := "lenso.legal-hold@1"

/-- `ADD_SCOPE_OPERATION`, the name of the operation in assertions. -/
def addScopeOperation : String := "add_scope"
/-- `CREATE_HOLD_OPERATION`, the name of the operation in assertions. -/
def createHoldOperation : String := "create_hold"
/-- `GET_HOLD_OPERATION`, the name of the operation in assertions. -/
def getHoldOperation : String := "get_hold"
/-- `LIST_ACTIVITY_OPERATION`, the name of the operation in assertions. -/
def listActivityOperation : String := "list_activity"
/-- `LIST_HOLDS_OPERATION`, the name of the operation in assertions. -/
def listHoldsOperation : String := "list_holds"
/-- `RELEASE_HOLD_OPERATION`, the name of the operation in assertions. -/
def releaseHoldOperation : String := "release_hold"
/-- `REMOVE_SCOPE_OPERATION`, the name of the operation in assertions. -/
def removeScopeOperation : String := "remove_scope"

/-- `LEGAL_HOLD_READ`, the permission to see holds and their activity. -/
def legalHoldRead : String := "legal-hold.read"

/-- `LEGAL_HOLD_WRITE`, the permission to create holds and to change their scopes. -/
def legalHoldWrite : String := "legal-hold.write"

/-- `LEGAL_HOLD_RELEASE`, the permission to release holds. -/
def legalHoldRelease : String := "legal-hold.release"

/-! ### The plugin -/

/-- The configuration, as far as the handlers use it. -/
structure LegalHoldConfig where
  authIssuer : String
  authAssertionPublicKey : String
  adminCallers : List String
  guardCallers : List String

/-- The subject that an invocation proves for an operation of a capability. -/
abbrev Verifier (Ctx : Type) : Type :=
  Ctx → (capability operation : String) → Except Unit String

/-- `LegalHoldConfig::verifier`: what checks the assertions that the configured issuer has signed
with the configured key. -/
def LegalHoldConfig.verifier {Ctx : Type} (config : LegalHoldConfig)
    (fromPublicKeyBase64 : (issuer publicKey : String) → Except Unit (Verifier Ctx)) :
    Except RuntimeFailure (Verifier Ctx) :=
  (fromPublicKeyBase64 config.authIssuer config.authAssertionPublicKey).mapError fun _ =>
    .invalidResolvedPlan "Legal Hold Auth verification key is invalid"

/-- An instance of the plugin, with invocations of type `Ctx`. -/
structure Plugin (Ctx : Type) where
  config : LegalHoldConfig
  /-- The database is there. -/
  prepared : Bool
  callerInstance : Ctx → Option String
  /-- `ActorAssertionVerifier::from_public_key_base64`. -/
  fromPublicKeyBase64 : (issuer publicKey : String) → Except Unit (Verifier Ctx)
  checkMembership : Ctx → (organizationId subject : String) → Except InvocationError Bool
  checkPermission : Ctx → (subject kind id permission : String) → Except InvocationError Bool
  /-- Whether a text is read as a `Timestamp`. -/
  timestamp : String → Except String Unit

/-- The response of `list_holds`: the holds of a page, and the cursor of the next one if there are
more. -/
structure ListHoldsResponse where
  holds : List HoldView
  nextCursor : Option String

/-- What an administrative operation answers with: a hold, a page of holds, or a page of
events. -/
inductive Response where
  | hold (view : HoldView)
  | holds (response : ListHoldsResponse)
  | activity (response : ListActivityResponse)

namespace Plugin

variable {Ctx : Type} (p : Plugin Ctx)

/-- `allowed_caller`: the instance that makes the call, if it is one of those configured. -/
def allowedCaller (ctx : Ctx) (allowed : List String) : Option String :=
  (p.callerInstance ctx).bind fun caller =>
    if allowed.any fun entry => entry = caller then some caller else none

/-- `authenticated_subject`: the subject that the assertion of an invocation proves for just this
operation, if it is an id that can be stored. -/
def authenticatedSubject (ctx : Ctx) (operation : String) : Except Unit String := do
  let verifier ← (p.config.verifier p.fromPublicKeyBase64).mapError fun _ => ()
  let subject ← verifier ctx capabilityId operation
  if validId subject then .ok subject else .error ()

/-- The answer of a dependency to an authorization query. -/
def queried (rejected : String) : Except InvocationError Bool → Except AuthorizationFailure Bool
  | .ok answer => .ok answer
  | .error (.domain _) => .error (.runtime (.pluginFailure rejected))
  | .error (.runtime failure) => .error (.runtime failure)

/-- `authorize_admin`: the caller and the subject of an administrative call, when caller,
assertion, membership and permission are all in order.  They are looked at one after the other,
and the first that is not settles the answer. -/
def authorizeAdmin (ctx : Ctx) (operation organizationId permission : String) :
    Except AuthorizationFailure (String × String) := do
  let caller ← (p.allowedCaller ctx p.config.adminCallers).elim (.error .forbidden) .ok
  let actor ← (p.authenticatedSubject ctx operation).mapError fun _ =>
    AuthorizationFailure.unauthenticated
  let active ← queried
    "Organization Membership rejected a Legal Hold authorization query"
    (p.checkMembership ctx organizationId actor)
  if !active then .error .forbidden
  else
    let allowed ← queried "Access Control rejected a Legal Hold authorization query"
      (p.checkPermission ctx actor "organization" organizationId permission)
    if !allowed then .error .forbidden else .ok (caller, actor)

/-- `prepared()`: an instance that is not active has no database, and fails at run time. -/
def isPrepared : Except PluginError Unit :=
  if p.prepared then .ok ()
  else .error (.runtime (.pluginFailure "Legal Hold Plugin is not prepared"))

/-! ### Responses -/

/-- A hold of a response: it is read back from the view's JSON, where timestamps and the
status are checked. -/
def wireHold (view : HoldView) : Except String HoldView := do
  p.timestamp view.createdAt
  view.releasedAt.forM p.timestamp
  view.scopes.forM fun scope => p.timestamp scope.createdAt
  if view.status = "active" ∨ view.status = "released" then .ok view
  else .error ("unknown variant `" ++ view.status ++ "`")

/-- An event of a response; its payload is an object. -/
def wireEvent (event : ActivityView) : Except String ActivityView := do
  p.timestamp event.createdAt
  match event.payload with
  | .obj _ => .ok event
  | _ => .error "invalid type"

/-- `wire_cast`: a value of the storage as one of the contract, by way of its JSON. -/
def wireCast {α β : Type} (cast : α → Except String β) (value : α) : Except PluginError β :=
  (cast value).mapError serializationRuntime

/-! ### The administrative operations -/

variable [Backend]

/-- What the administrative handlers share: the gate, the validation, the storage call
and the response. -/
def administer {α β : Type} (ctx : Ctx) (operation organizationId permission : String)
    (mapDomain : DomainFailure → DomainError) (call : String → String → Option (Storage α))
    (respond : α → Except PluginError β) : Handler β := do
  let (caller, actor) ← settle
    ((p.authorizeAdmin ctx operation organizationId permission).mapError mapAuthorization)
  match call caller actor with
  | none => settle (.error (.domain .invalidRequest))
  | some storage =>
    settle p.isPrepared
    let value ← mapStorage mapDomain storage
    settle (respond value)

/-- The handler of `create_hold`, with the mapping of failures that is its own. -/
def createHold (ctx : Ctx) (request : CreateHoldRequest) : Handler HoldView :=
  p.administer ctx createHoldOperation request.organizationId legalHoldWrite mapCreateDomain
    (fun caller actor => (request.input? caller actor).map LegalHold.createHold)
    (wireCast p.wireHold)

/-- The handler of `get_hold`, the one with the fewest checks. -/
def getHold (ctx : Ctx) (request : GetHoldRequest) : Handler HoldView :=
  p.administer ctx getHoldOperation request.organizationId legalHoldRead mapCommonDomain
    (fun _ _ =>
      if request.valid then some (LegalHold.getHold request.organizationId request.holdId)
      else none)
    (wireCast p.wireHold)

/-- The handler of `list_holds`: every hold of the page is cast, and the cursor goes along. -/
def listHolds (ctx : Ctx) (request : ListHoldsRequest) : Handler ListHoldsResponse :=
  p.administer ctx listHoldsOperation request.organizationId legalHoldRead mapCommonDomain
    (fun _ _ =>
      if request.valid then
        some (LegalHold.listHolds request.organizationId request.status request.cursor
          request.limit)
      else none)
    fun page => do return ⟨← wireCast (·.mapM p.wireHold) page.1, page.2⟩

/-- The handler of `add_scope`, which tells `mutate_scope` to add. -/
def addScope (ctx : Ctx) (request : MutateScopeRequest) : Handler HoldView :=
  p.administer ctx addScopeOperation request.organizationId legalHoldWrite mapCommonDomain
    (fun caller actor => (request.input? caller actor).map fun input =>
      mutateScope { input with operation := .addScope, add := true })
    (wireCast p.wireHold)

/-- The handler of `remove_scope`, which tells `mutate_scope` to remove. -/
def removeScope (ctx : Ctx) (request : MutateScopeRequest) : Handler HoldView :=
  p.administer ctx removeScopeOperation request.organizationId legalHoldWrite mapCommonDomain
    (fun caller actor => (request.input? caller actor).map fun input =>
      mutateScope { input with operation := .removeScope, add := false })
    (wireCast p.wireHold)

/-- The handler of `release_hold`, the only operation to ask for its own permission. -/
def releaseHold (ctx : Ctx) (request : ReleaseHoldRequest) : Handler HoldView :=
  p.administer ctx releaseHoldOperation request.organizationId legalHoldRelease mapCommonDomain
    (fun caller actor => (request.input? caller actor).map LegalHold.releaseHold)
    (wireCast p.wireHold)

/-- The handler of `list_activity`, where a cursor is a number written as a text, and 0 when there
is none. -/
def listActivity (ctx : Ctx) (request : ListActivityRequest) : Handler ListActivityResponse :=
  p.administer ctx listActivityOperation request.organizationId legalHoldRead mapCommonDomain
    (fun _ _ =>
      if !validId request.organizationId || !validId request.holdId ||
          !(1 ≤ request.limit && request.limit ≤ maxPageSize) then none
      else request.cursor.map fun after =>
        LegalHold.listActivity request.organizationId request.holdId after request.limit)
    fun page => do
      return ListActivityResponse.of (← wireCast (·.mapM p.wireEvent) page.1) page.2

/-! ### The retention guard -/

/-- The handler of the retention guard.  It is for other instances and not for people: a
configured caller is all that it asks for. -/
def checkRetention (ctx : Ctx) (request : CheckRetentionRequest) : Handler GuardDecision := do
  let caller ← settle
    ((p.allowedCaller ctx p.config.guardCallers).elim (.error (.domain .forbidden)) .ok)
  match request.input? caller with
  | none => settle (.error (.domain .invalidRequest))
  | some input =>
    settle p.isPrepared
    ExceptT.mk ((LegalHold.checkRetention input).run.bind fun x => .ret (x.mapError storageRuntime))

/-! ### All administrative operations -/

/-- An administrative request under the handler of its operation. -/
def handle (ctx : Ctx) : AdminRequest → Handler Response
  | .createHold r => .hold <$> p.createHold ctx r
  | .getHold r => .hold <$> p.getHold ctx r
  | .listHolds r => .holds <$> p.listHolds ctx r
  | .addScope r => .hold <$> p.addScope ctx r
  | .removeScope r => .hold <$> p.removeScope ctx r
  | .releaseHold r => .hold <$> p.releaseHold ctx r
  | .listActivity r => .activity <$> p.listActivity ctx r

/-! ### What a handler does -/

section

variable {p} {α β : Type} {ctx : Ctx} {operation organizationId permission : String}
  {mapDomain : DomainFailure → DomainError} {call : String → String → Option (Storage α)}
  {respond : α → Except PluginError β}

omit [Backend] in
/-- Nothing is asked of the database when the gate is closed. -/
theorem administer_error {failure : AuthorizationFailure}
    (h : p.authorizeAdmin ctx operation organizationId permission = .error failure) :
    (p.administer ctx operation organizationId permission mapDomain call respond).run =
      .ret (.error (mapAuthorization failure)) := by
  unfold administer
  rw [h]
  rfl

omit [Backend] in
/-- Behind the gate an invalid request is refused. -/
theorem administer_invalid {caller actor : String}
    (h : p.authorizeAdmin ctx operation organizationId permission = .ok (caller, actor))
    (hcall : call caller actor = none) :
    (p.administer ctx operation organizationId permission mapDomain call respond).run =
      .ret (.error (.domain .invalidRequest)) := by
  unfold administer
  rw [h]
  show (match call caller actor with
    | none => settle (.error (.domain .invalidRequest))
    | some storage => do
      settle p.isPrepared
      let value ← mapStorage mapDomain storage
      settle (respond value) : Handler β).run = _
  rw [hcall]
  rfl

omit [Backend] in
/-- Nothing is asked of a database that is not there. -/
theorem administer_unprepared {caller actor : String} {storage : Storage α}
    (h : p.authorizeAdmin ctx operation organizationId permission = .ok (caller, actor))
    (hcall : call caller actor = some storage) (hp : p.prepared = false) :
    (p.administer ctx operation organizationId permission mapDomain call respond).run =
      .ret (.error (.runtime (.pluginFailure "Legal Hold Plugin is not prepared"))) := by
  unfold administer isPrepared
  rw [h, hp]
  show (match call caller actor with
    | none => settle (.error (.domain .invalidRequest))
    | some storage => do
      settle (.error (.runtime (.pluginFailure "Legal Hold Plugin is not prepared")))
      let value ← mapStorage mapDomain storage
      settle (respond value) : Handler β).run = _
  rw [hcall]
  rfl

omit [Backend] in
/-- Behind the gate a valid request is answered by its storage call. -/
theorem administer_ok {caller actor : String} {storage : Storage α}
    (h : p.authorizeAdmin ctx operation organizationId permission = .ok (caller, actor))
    (hcall : call caller actor = some storage) (hp : p.prepared = true) :
    (p.administer ctx operation organizationId permission mapDomain call respond).run =
      storage.run.bind fun x => .ret (x.mapError (mapStorageError mapDomain) >>= respond) := by
  unfold administer isPrepared
  rw [h, hp]
  show (match call caller actor with
    | none => settle (.error (.domain .invalidRequest))
    | some storage => do
      settle (.ok ())
      let value ← mapStorage mapDomain storage
      settle (respond value) : Handler β).run = _
  rw [hcall]
  refine (Prog.bind_assoc storage.run _ _).trans (congrArg storage.run.bind (funext fun x => ?_))
  cases x with
  | ok a => rfl
  | error e => rfl

omit [Backend] in
/-- A handler that runs a storage operation does so under the names that operation and response
have outside, too. -/
theorem run_map_of_run {γ δ : Type} {x : Handler β} {storage : Storage α} {g : α → γ} {k : β → δ}
    {finish : Except StorageError α → Except PluginError β}
    {finish' : Except StorageError γ → Except PluginError δ}
    (h : x.run = storage.run.bind fun a => .ret (finish a))
    (hfinish : ∀ a, (finish a).map k = finish' (a.map g)) :
    (k <$> x).run = (g <$> storage).run.bind fun b => .ret (finish' b) := by
  have hleft : (k <$> x).run = x.run.bind fun b => .ret (b.map k) := by
    refine congrArg x.run.bind (funext fun b => ?_)
    cases b <;> rfl
  have hright : (g <$> storage).run = storage.run.bind fun a => .ret (a.map g) := by
    refine congrArg storage.run.bind (funext fun a => ?_)
    cases a <;> rfl
  rw [hleft, hright, h, Prog.bind_assoc, Prog.bind_assoc]
  exact congrArg storage.run.bind (funext fun a => congrArg Prog.ret (hfinish a))

end

omit [Backend] in
/-- The parts of a response that are read back first. -/
theorem map_wireCast {γ δ ε : Type} (x : Except PluginError γ) (g : γ → δ) (k : δ → ε) :
    (x >>= fun a => pure (g a)).map k = (fun a => k (g a)) <$> x := by
  cases x <;> rfl

/-- The response to an answer of the storage. -/
def respond : Answer → Except PluginError Response
  | .hold view => .hold <$> wireCast p.wireHold view
  | .holds views nextCursor =>
    (fun holds => .holds ⟨holds, nextCursor⟩) <$> wireCast (·.mapM p.wireHold) views
  | .activity events next =>
    (fun events => .activity (ListActivityResponse.of events next)) <$>
      wireCast (·.mapM p.wireEvent) events
  | .decision _ => .error (serializationRuntime "invalid type")

end Plugin

/-- An answer of the storage as a response; an administrative operation has no decision for an
answer. -/
def Answer.response? : Answer → Option Response
  | .hold view => some (.hold view)
  | .holds views nextCursor => some (.holds ⟨views, nextCursor⟩)
  | .activity events next => some (.activity (ListActivityResponse.of events next))
  | .decision _ => none

namespace Plugin

variable {Ctx : Type} {p : Plugin Ctx}

theorem wireCast_eq_ok {α β : Type} {cast : α → Except String β} {a : α} {b : β} :
    wireCast cast a = .ok b ↔ cast a = .ok b := by
  unfold wireCast
  cases cast a <;> simp [Except.mapError]

theorem wireHold_eq_ok {view view' : HoldView} (h : p.wireHold view = .ok view') :
    view' = view := by
  obtain ⟨-, -, h⟩ := bind_eq_ok.mp h
  obtain ⟨-, -, h⟩ := bind_eq_ok.mp h
  obtain ⟨-, -, h⟩ := bind_eq_ok.mp h
  split at h
  · exact (Except.ok.inj h).symm
  · cases h

theorem wireEvent_eq_ok {event event' : ActivityView} (h : p.wireEvent event = .ok event') :
    event' = event := by
  obtain ⟨-, -, h⟩ := bind_eq_ok.mp h
  split at h
  · exact (Except.ok.inj h).symm
  · cases h

/-- What is sent is what the storage has answered. -/
theorem respond_eq_ok {a : Answer} {response : Response} (h : p.respond a = .ok response) :
    a.response? = some response := by
  have hmap : ∀ {α : Type} {cast : α → Except String α} {l l' : List α},
      (∀ {x y}, cast x = .ok y → y = x) → l.mapM cast = .ok l' → l' = l := by
    intro α cast l l' hcast hl
    have hsame := map_eq_of_mapM (f := cast) (g := id) (fun h => hcast h) hl
    simpa using hsame
  cases a with
  | hold view =>
    obtain ⟨view', hview, rfl⟩ := map_eq_ok.mp h
    rw [wireHold_eq_ok (wireCast_eq_ok.mp hview)]
    rfl
  | holds views nextCursor =>
    obtain ⟨views', hviews, rfl⟩ := map_eq_ok.mp h
    rw [hmap wireHold_eq_ok (wireCast_eq_ok.mp hviews)]
    rfl
  | activity events next =>
    obtain ⟨events', hevents, rfl⟩ := map_eq_ok.mp h
    rw [hmap wireEvent_eq_ok (wireCast_eq_ok.mp hevents)]
    rfl
  | decision d => cases h

end Plugin

/-- The name under which the operation of a request is invoked. -/
def AdminRequest.operation : AdminRequest → String
  | .createHold _ => "create_hold"
  | .getHold _ => "get_hold"
  | .listHolds _ => "list_holds"
  | .addScope _ => "add_scope"
  | .removeScope _ => "remove_scope"
  | .releaseHold _ => "release_hold"
  | .listActivity _ => "list_activity"

/-- The permission a request needs: to read, to write or to release. -/
def AdminRequest.permission : AdminRequest → String
  | .getHold _ | .listHolds _ | .listActivity _ => "legal-hold.read"
  | .createHold _ | .addScope _ | .removeScope _ => "legal-hold.write"
  | .releaseHold _ => "legal-hold.release"

/-- The mapping of domain failures that the handler of a request uses. -/
def AdminRequest.mapDomain : AdminRequest → DomainFailure → DomainError
  | .createHold _ => mapCreateDomain
  | _ => mapCommonDomain

namespace Plugin

variable {Ctx : Type} {p : Plugin Ctx} [Backend] {ctx : Ctx} {r : AdminRequest}

/-- **Behind its gate a handler runs the program of the operation** that its request asks
for, and answers with what that ends in. -/
theorem handle_authorized {caller actor : String} {op : Op}
    (h : p.authorizeAdmin ctx r.operation r.organizationId r.permission = .ok (caller, actor))
    (hop : r.op? caller actor = some op) (hp : p.prepared = true) :
    (p.handle ctx r).run = (program op).run.bind fun x =>
      .ret (x.mapError (mapStorageError r.mapDomain) >>= p.respond) := by
  -- Each handler is `administer` at the values of its operation, and `program` starts the same
  -- storage function.
  cases r with
  | createHold r =>
    obtain ⟨input, hinput, rfl⟩ := Option.map_eq_some_iff.mp hop
    refine run_map_of_run (administer_ok h (by rw [hinput]; rfl) hp) fun a => ?_
    cases a <;> rfl
  | getHold r =>
    obtain ⟨hvalid, heq⟩ := Option.ite_none_right_eq_some.mp hop
    cases heq
    refine run_map_of_run (administer_ok h (if_pos hvalid) hp) fun a => ?_
    cases a <;> rfl
  | listHolds r =>
    obtain ⟨hvalid, heq⟩ := Option.ite_none_right_eq_some.mp hop
    cases heq
    refine run_map_of_run (administer_ok h (if_pos hvalid) hp) fun a => ?_
    cases a with
    | ok page => exact map_wireCast _ _ _
    | error e => rfl
  | addScope r =>
    obtain ⟨input, hinput, rfl⟩ := Option.map_eq_some_iff.mp hop
    refine run_map_of_run (administer_ok h (by rw [hinput]; rfl) hp) fun a => ?_
    cases a <;> rfl
  | removeScope r =>
    obtain ⟨input, hinput, rfl⟩ := Option.map_eq_some_iff.mp hop
    refine run_map_of_run (administer_ok h (by rw [hinput]; rfl) hp) fun a => ?_
    cases a <;> rfl
  | releaseHold r =>
    obtain ⟨input, hinput, rfl⟩ := Option.map_eq_some_iff.mp hop
    refine run_map_of_run (administer_ok h (by rw [hinput]; rfl) hp) fun a => ?_
    cases a <;> rfl
  | listActivity r =>
    change (if _ then none else _) = some op at hop
    split at hop
    · cases hop
    · next hvalid =>
      obtain ⟨after, hafter, rfl⟩ := Option.map_eq_some_iff.mp hop
      refine run_map_of_run
        (administer_ok h ((if_neg hvalid).trans (congrArg _ hafter)) hp) fun a => ?_
      cases a with
      | ok page => exact map_wireCast _ _ _
      | error e => rfl

omit [Backend] in
/-- A handler that has settled on an error has done so under every name. -/
theorem run_map_error {α β : Type} {x : Handler α} {k : α → β} {e : PluginError}
    (h : x.run = .ret (.error e)) : (k <$> x).run = .ret (.error e) := by
  show x.run.bind _ = _
  rw [h]
  rfl

/-- **Behind a closed gate it asks nothing** of the database. -/
theorem handle_unauthorized {failure : AuthorizationFailure}
    (h : p.authorizeAdmin ctx r.operation r.organizationId r.permission = .error failure) :
    (p.handle ctx r).run = .ret (.error (mapAuthorization failure)) := by
  cases r <;> exact run_map_error (administer_error h)

/-- **Behind its gate an invalid request is refused**, whatever is in the database. -/
theorem handle_invalid {caller actor : String}
    (h : p.authorizeAdmin ctx r.operation r.organizationId r.permission = .ok (caller, actor))
    (hop : r.op? caller actor = none) :
    (p.handle ctx r).run = .ret (.error (.domain .invalidRequest)) := by
  cases r with
  | createHold r =>
    exact run_map_error (administer_invalid h (by rw [Option.map_eq_none_iff.mp hop]; rfl))
  | getHold r =>
    have hvalid : ¬r.valid = true := by simpa [AdminRequest.op?, GetHoldRequest.op?] using hop
    exact run_map_error (administer_invalid h (if_neg hvalid))
  | listHolds r =>
    have hvalid : ¬r.valid = true := by simpa [AdminRequest.op?, ListHoldsRequest.op?] using hop
    exact run_map_error (administer_invalid h (if_neg hvalid))
  | addScope r =>
    exact run_map_error (administer_invalid h (by rw [Option.map_eq_none_iff.mp hop]; rfl))
  | removeScope r =>
    exact run_map_error (administer_invalid h (by rw [Option.map_eq_none_iff.mp hop]; rfl))
  | releaseHold r =>
    exact run_map_error (administer_invalid h (by rw [Option.map_eq_none_iff.mp hop]; rfl))
  | listActivity r =>
    change (if _ then none else _) = none at hop
    refine run_map_error (administer_invalid h ?_)
    show (if _ then none else _) = none
    split at hop
    · next hinvalid => rw [if_pos hinvalid]
    · next hvalid => rw [if_neg hvalid, Option.map_eq_none_iff.mp hop, Option.map_none]

/-- A valid request is not looked into when there is no database. -/
theorem handle_unprepared {caller actor : String} {op : Op}
    (h : p.authorizeAdmin ctx r.operation r.organizationId r.permission = .ok (caller, actor))
    (hop : r.op? caller actor = some op) (hp : p.prepared = false) :
    (p.handle ctx r).run =
      .ret (.error (.runtime (.pluginFailure "Legal Hold Plugin is not prepared"))) := by
  cases r with
  | createHold r =>
    obtain ⟨input, hinput, rfl⟩ := Option.map_eq_some_iff.mp hop
    exact run_map_error (administer_unprepared h (by rw [hinput]; rfl) hp)
  | getHold r =>
    obtain ⟨hvalid, -⟩ := Option.ite_none_right_eq_some.mp hop
    exact run_map_error (administer_unprepared h (if_pos hvalid) hp)
  | listHolds r =>
    obtain ⟨hvalid, -⟩ := Option.ite_none_right_eq_some.mp hop
    exact run_map_error (administer_unprepared h (if_pos hvalid) hp)
  | addScope r =>
    obtain ⟨input, hinput, rfl⟩ := Option.map_eq_some_iff.mp hop
    exact run_map_error (administer_unprepared h (by rw [hinput]; rfl) hp)
  | removeScope r =>
    obtain ⟨input, hinput, rfl⟩ := Option.map_eq_some_iff.mp hop
    exact run_map_error (administer_unprepared h (by rw [hinput]; rfl) hp)
  | releaseHold r =>
    obtain ⟨input, hinput, rfl⟩ := Option.map_eq_some_iff.mp hop
    exact run_map_error (administer_unprepared h (by rw [hinput]; rfl) hp)
  | listActivity r =>
    change (if _ then none else _) = some op at hop
    split at hop
    · cases hop
    · next hvalid =>
      obtain ⟨after, hafter, -⟩ := Option.map_eq_some_iff.mp hop
      exact run_map_error
        (administer_unprepared h ((if_neg hvalid).trans (congrArg _ hafter)) hp)

end Plugin

end LegalHold
