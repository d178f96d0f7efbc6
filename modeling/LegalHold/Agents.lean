import LegalHold.Encoding
import LegalHold.Instance
import LegalHold.Readers

/-!
# Agents

The agent tools in front of an instance of the plugin.  A call of a tool is decoded and passed
on to the instance, which treats it as any other call; what the instance answers is turned into
an answer of the tool.  Others call the instance meanwhile.

The adapter is a front of the instance, as the instance is one of the service.  What the kernel
does between the two is left out: a call that the adapter makes is taken to reach the instance,
and its answer to reach the adapter, with no failure added on the way.

## Main definitions

* `Response.toValue` — a response as it is serialized.
* `AgentTools`, `SystemCall` — the adapter with its instance, and what comes in.
* `AgentTools.front`, `AgentTools.Reachable` — the whole system.
* `AgentTools.opened` — the operation that a call is passed on as in the end.

## Main results

* `tools_refine_service` — **what comes in through a tool goes through the gate** or is answered
  with an error.
* `exclusive_tools_commit` — **only exclusive tools change anything**, and the others never
  wait.
-/

namespace LegalHold

open Interleave

/-! ### Responses as they are serialized -/

/-- The text of a kind of event, as it is serialized. -/
def ActivityKind.text : ActivityKind → String
  | .holdCreated => "hold_created"
  | .scopeAdded => "scope_added"
  | .scopeRemoved => "scope_removed"
  | .holdReleased => "hold_released"

/-- The object that a `BTreeMap` is serialized as: its members stand in the order of their
keys. -/
def Json.ofBTreeMap : Json → Json
  | .obj members => .obj (members.insertionSort fun a b => a.1 ≤ b.1)
  | v => v

/-- A scope of a response as `HoldScope` is serialized. -/
def ScopeView.response (s : ScopeView) : Json :=
  .obj [("created_at", .str s.createdAt), ("scope_id", .str s.scopeId),
    ("scope_kind", .str s.scopeKind), ("subject", Json.ofOption s.subject)]

/-- A hold as `GetHoldResponse` is serialized, and with it the responses that have the same
members. -/
def HoldView.response (h : HoldView) : Json :=
  .obj [("created_at", .str h.createdAt), ("created_by", .str h.createdBy),
    ("hold_id", .str h.holdId), ("legal_authority", .str h.legalAuthority),
    ("organization_id", .str h.organizationId), ("reason", .str h.reason),
    ("release_reason", Json.ofOption h.releaseReason),
    ("released_at", Json.ofOption h.releasedAt), ("released_by", Json.ofOption h.releasedBy),
    ("revision", .str h.revision), ("scopes", .arr (h.scopes.map ScopeView.response)),
    ("status", .str h.status), ("title", .str h.title)]

/-- An event of a response as `HoldActivity` is serialized, with the members of its payload in the
order of a `BTreeMap`. -/
def ActivityView.response (a : ActivityView) : Json :=
  .obj [("activity_id", .str a.activityId), ("actor_subject", .str a.actorSubject),
    ("created_at", .str a.createdAt), ("kind", .str a.kind.text),
    ("payload", a.payload.ofBTreeMap)]

/-- The value that a response is serialized as on its way to the adapter. -/
def Response.toValue : Response → Json
  | .hold view => view.response
  | .holds r => .obj [("holds", .arr (r.holds.map HoldView.response)),
      ("next_cursor", Json.ofOption r.nextCursor)]
  | .activity r => .obj [("events", .arr (r.events.map ActivityView.response)),
      ("next_cursor", .str r.nextCursor)]

/-- What the client of the capability makes of the answer of the instance: the response as a
value, or the error with its kind. -/
def PluginAnswer.invocation : PluginAnswer → Except LegalHoldInvocationError Json
  | .legalHold (.ok response) => .ok response.toValue
  | .legalHold (.error (.domain error)) => .error (.domain (.known error))
  | .legalHold (.error (.runtime failure)) => .error (.runtime failure)
  | .retentionGuard _ => .error (.runtime (.other "protocol violation"))

/-! ### Calls of tools -/

namespace ToolRuntime

variable {rt : ToolRuntime}

/-- What the adapter makes of the reply of the capability: a response is printed, an error of the
contract becomes an error of the tool. -/
def outcome (rt : ToolRuntime) (t : Tool) :
    Except LegalHoldInvocationError Json → Except ToolError ExecuteResponse
  | .ok response => rt.success t.name response
  | .error (.domain error) => .error (.domain error.toolError)
  | .error (.runtime failure) => .error (.runtime failure)

/-- The tool that a call names, with the request that its arguments are decoded to, if both
exist. -/
def decoded (rt : ToolRuntime) (request : ExecuteRequest) : Option (Tool × LegalHoldRequest) :=
  (Tool.all.find? fun t => t.name = request.name).bind fun t =>
    (rt.decode t request).toOption.map fun r => (t, r)

theorem decode_error {t : Tool} {request : ExecuteRequest} {e : ToolError}
    (h : rt.decode t request = .error e) : e = .domain .invalidArguments := by
  unfold decode at h
  cases hv : (rt.parse request.argumentsJson).bind fun v => t.request rt v with
  | none =>
    rw [hv] at h
    cases h
    rfl
  | some r =>
    rw [hv] at h
    cases h

/-- A call that is not decoded is refused by the adapter. -/
theorem execute_of_decoded_none {request : ExecuteRequest} (h : rt.decoded request = none) :
    ∃ e, rt.execute request = .ret (.error (.domain e)) := by
  unfold execute
  unfold decoded at h
  cases hfind : Tool.all.find? fun t => t.name = request.name with
  | none => exact ⟨_, rfl⟩
  | some t =>
    rw [hfind] at h
    cases hdecode : rt.decode t request with
    | ok r => simp [hdecode, Except.toOption] at h
    | error e =>
      refine ⟨.invalidArguments, ?_⟩
      dsimp only
      unfold invoke
      rw [hdecode, decode_error hdecode]

/-- A call whose arguments are decoded asks the capability for the request, and then ends with
what its outcome makes of the reply. -/
theorem execute_of_decoded {request : ExecuteRequest} {t : Tool} {r : LegalHoldRequest}
    (h : rt.decoded request = some (t, r)) :
    rt.execute request = .ask r fun reply => .ret (rt.outcome t reply) := by
  unfold decoded at h
  obtain ⟨t', hfind, h⟩ := Option.bind_eq_some_iff.mp h
  obtain ⟨r', hdecode, heq⟩ := Option.map_eq_some_iff.mp h
  cases heq
  replace hdecode : rt.decode t request = .ok r := by
    cases hd : rt.decode t request with
    | error e => simp [hd, Except.toOption] at hdecode
    | ok r' =>
      simp only [hd, Except.toOption, Option.some.injEq] at hdecode
      rw [hdecode]
  unfold execute
  rw [hfind]
  dsimp only
  unfold invoke
  rw [hdecode]
  refine congrArg (Prog.ask r) (funext fun reply => ?_)
  cases reply with
  | ok response => rfl
  | error e => cases e <;> rfl

/-- The name of a call is that of its tool, and the request is one of it. -/
theorem decoded_eq_some (h : rt.Documented) {request : ExecuteRequest} {t : Tool}
    {r : LegalHoldRequest} (hdecoded : rt.decoded request = some (t, r)) :
    request.name = t.name ∧ r.tool = t := by
  obtain ⟨t', hfind, hdecoded⟩ := Option.bind_eq_some_iff.mp hdecoded
  obtain ⟨r', hdecode, heq⟩ := Option.map_eq_some_iff.mp hdecoded
  cases heq
  have hname : t.name = request.name := by simpa using List.find?_some hfind
  refine ⟨hname.symm, ?_⟩
  unfold decode at hdecode
  cases hv : (rt.parse request.argumentsJson).bind fun v => t.request rt v with
  | none => simp [hv, Except.toOption] at hdecode
  | some r' =>
    obtain ⟨v, -, hrequest⟩ := Option.bind_eq_some_iff.mp hv
    simp only [hv, Option.elim_some, Except.toOption, Option.some.injEq] at hdecode
    exact (h.request_eq_some_iff.mp (hdecode ▸ hrequest)).1

end ToolRuntime

/-! ### The adapter as a front -/

/-- The adapter with the agent tools, together with the instance of the plugin that its port is
bound to. -/
structure AgentTools (Ctx : Type) where
  legalHold : Instance Ctx
  runtime : ToolRuntime
  /-- The invocation that the instance sees when the adapter passes a call on. -/
  forwarded : Ctx → Ctx

/-- What comes in: a call of a tool, or one of the instance by somebody else. -/
inductive SystemCall (Ctx : Type) where
  | tool (ctx : Ctx) (request : ExecuteRequest)
  | direct (call : PluginCall Ctx)

/-- What a call of the system is answered with, at the place where it has come in. -/
inductive SystemAnswer where
  | tool (result : Except ToolError ExecuteResponse)
  | direct (answer : PluginAnswer)

/-- The call that stands for one that the adapter refuses by itself; nothing of it reaches the
storage. -/
def idleCall {Ctx : Type} (ctx : Ctx) : PluginCall Ctx := .legalHold ctx (.getHold ⟨"-", "-"⟩)

namespace AgentTools

variable {Ctx : Type} (sys : AgentTools Ctx)

/-- The call of the instance that a call of a tool is passed on as. -/
def passedOn (ctx : Ctx) (request : ExecuteRequest) : Option (PluginCall Ctx) :=
  (sys.runtime.decoded request).map fun (_, r) => .legalHold (sys.forwarded ctx) r.admin

variable [Backend]

/-- A call of the instance as its callers see it, with the gate and the storage service behind
it. -/
def called (call : PluginCall Ctx) :
    Prog (Option Stmt) (GatedReply Bool Stmt.Reply) PluginAnswer :=
  sys.legalHold.front.machine.prog call

/-- A tool call under the adapter: it is decoded, passed on to the instance and its answer is
printed. The adapter keeps no state of its own. -/
def execute (ctx : Ctx) (request : ExecuteRequest) :
    Prog (Option Stmt) (GatedReply Bool Stmt.Reply) (Except ToolError ExecuteResponse) :=
  (sys.runtime.execute request).serve fun r =>
    (sys.called (.legalHold (sys.forwarded ctx) r.admin)).bind fun answer =>
      .ret answer.invocation

/-- The program of a call that comes in, whether it is meant for the adapter or for the instance
itself. -/
def respondTo : SystemCall Ctx → Prog (Option Stmt) (GatedReply Bool Stmt.Reply) SystemAnswer
  | .tool ctx request => (sys.execute ctx request).bind fun x => .ret (.tool x)
  | .direct call => (sys.called call).bind fun answer => .ret (.direct answer)

/-- The call of the instance that a call of the system is passed on as, the idle one if the
adapter refuses it. -/
def passed : SystemCall Ctx → PluginCall Ctx
  | .tool ctx request => (sys.passedOn ctx request).getD (idleCall (sys.forwarded ctx))
  | .direct call => call

/-- The answer of the system to a call, made of the answer that the instance has given. -/
def answerTo : SystemCall Ctx → PluginAnswer → SystemAnswer
  | .tool _ request, answer =>
    .tool ((sys.runtime.decoded request).elim (.error (.domain .notFound)) fun (t, _) =>
      sys.runtime.outcome t answer.invocation)
  | .direct _, answer => .direct answer

variable {sys} {ctx : Ctx} {request : ExecuteRequest}

/-- A call that is not decoded is answered by the adapter. -/
theorem respondTo_refused (h : sys.passedOn ctx request = none) :
    ∃ e, sys.respondTo (.tool ctx request) = .ret (.tool (.error (.domain e))) := by
  obtain ⟨e, he⟩ := ToolRuntime.execute_of_decoded_none (Option.map_eq_none_iff.mp h)
  have hexecute : sys.execute ctx request = .ret (.error (.domain e)) := congrArg (Prog.serve _) he
  refine ⟨e, ?_⟩
  show (sys.execute ctx request).bind _ = _
  rw [hexecute]
  rfl

/-- One that is decoded is answered as the instance answers it. -/
theorem respondTo_passed (h : sys.passedOn ctx request ≠ none) :
    sys.respondTo (.tool ctx request) = (sys.called (sys.passed (.tool ctx request))).bind
      fun answer => .ret (sys.answerTo (.tool ctx request) answer) := by
  cases hdecoded : sys.runtime.decoded request with
  | none => exact absurd (by rw [passedOn, hdecoded]; rfl) h
  | some decoded =>
    obtain ⟨t, r⟩ := decoded
    -- The adapter has asked for one request, and so makes one call.
    have hexecute : sys.execute ctx request =
        (sys.called (.legalHold (sys.forwarded ctx) r.admin)).bind fun answer =>
          .ret (sys.runtime.outcome t answer.invocation) :=
      (congrArg (Prog.serve _) (ToolRuntime.execute_of_decoded hdecoded)).trans
        (Prog.bind_assoc _ _ _)
    have hpassed : sys.passed (.tool ctx request) = .legalHold (sys.forwarded ctx) r.admin := by
      show ((sys.runtime.decoded request).map _).getD _ = _
      rw [hdecoded]
      rfl
    have hanswer : ∀ answer, sys.answerTo (.tool ctx request) answer =
        .tool (sys.runtime.outcome t answer.invocation) := by
      intro answer
      show SystemAnswer.tool ((sys.runtime.decoded request).elim _ _) = _
      rw [hdecoded]
      rfl
    -- What is left is that sequencing is associative.
    simp only [hanswer, hpassed]
    show (sys.execute ctx request).bind _ = _
    rw [hexecute]
    exact Prog.bind_assoc _ _ _

variable (sys)

/-- The adapter in front of the instance: a call of a tool is decoded and passed on, and a call
that comes to the endpoint is passed on as it is. -/
@[reducible] def front : Front sys.legalHold.front.machine where
  Gate := Unit
  Turn := Empty
  turn := nofun
  Call := SystemCall Ctx
  Answer := SystemAnswer
  prog _ := sys.respondTo
  op := sys.passed
  answer := sys.answerTo
  law _ call := by
    cases call with
    | direct call => exact .inr rfl
    | tool ctx request =>
      by_cases h : sys.passedOn ctx request = none
      · obtain ⟨e, he⟩ := respondTo_refused h
        exact .inl ⟨_, he⟩
      · exact .inr (respondTo_passed h)

/-- A configuration of the whole system: the adapter, the instance and the database with all
calls. -/
abbrev Config : Type := sys.front.machine.Config

/-- The configuration before the first activation and before any call has come in. -/
def initial : sys.Config := ⟨((), (false, {})), []⟩

/-- The configuration is one that some interleaving of calls, activations and deactivations leads
to. -/
def Reachable (c : sys.Config) : Prop := Machine.Reaches sys.initial c

/-- The storage operation that a call of the system stands for once the adapter and the instance
have accepted it. -/
def opened : SystemCall Ctx → Option Op
  | .tool ctx request => (sys.passedOn ctx request).bind sys.legalHold.plugin.asked
  | .direct call => sys.legalHold.plugin.asked call

end AgentTools

/-- The call has been answered with an error, be it of the adapter, of the contract or of the
runtime. -/
def SystemAnswer.Failed : SystemAnswer → Prop
  | .tool result => ∃ e, result = .error e
  | .direct (.legalHold result) => ∃ e, result = .error e
  | .direct (.retentionGuard result) => ∃ e, result = .error e

namespace AgentTools

variable {Ctx : Type} [Backend] {sys : AgentTools Ctx} {c : sys.Config}

omit [Backend] in
/-- An error of the instance is an error for whoever has called. -/
theorem answerTo_failed (call : SystemCall Ctx) {answer : PluginAnswer}
    (h : (∃ e, answer = .legalHold (.error e)) ∨ ∃ e, answer = .retentionGuard (.error e)) :
    (sys.answerTo call answer).Failed := by
  cases call with
  | direct call =>
    rcases h with ⟨e, rfl⟩ | ⟨e, rfl⟩
    · exact ⟨e, rfl⟩
    · exact ⟨e, rfl⟩
  | tool ctx request =>
    show ∃ e, (sys.runtime.decoded request).elim
      (.error (.domain .notFound) : Except ToolError ExecuteResponse) _ = .error e
    cases sys.runtime.decoded request with
    | none => exact ⟨_, rfl⟩
    | some decoded =>
      rcases h with ⟨e, rfl⟩ | ⟨e, rfl⟩
      · cases e with
        | domain error => exact ⟨_, rfl⟩
        | runtime failure => exact ⟨_, rfl⟩
      · exact ⟨_, rfl⟩

/-- What stands behind the system: an instance, and the service behind that. -/
theorem Reachable.projects (h : sys.Reachable c) :
    ∃ (c₁ : sys.legalHold.Config) (c₂ : LegalHold.Config), LegalHold.Reachable c₂ ∧
      sys.front.Projects (fun i st => Silent (sys.legalHold.front.behind i) st.2) c c₁ ∧
      sys.legalHold.front.Projects Silent c₁ c₂ := by
  have hinit : sys.front.Projects (fun i st => Silent (sys.legalHold.front.behind i) st.2)
      sys.initial sys.legalHold.initial := by
    refine Front.Projects.init (F := sys.front) () fun i => ?_
    exact ⟨fun t ht => (List.not_mem_nil ht).elim, fun t ht => (List.not_mem_nil ht).elim,
      fun e he => (List.not_mem_nil he).elim⟩
  obtain ⟨c₁, hc₁, hproj⟩ :=
    hinit.reaches (Front.othersKeep sys.legalHold.front othersKeep_silent) h
  obtain ⟨c₂, hc₂, hproj₂⟩ := Instance.Reachable.projects hc₁
  exact ⟨c₁, c₂, hc₂, hproj, hproj₂⟩

/-- The service has the database of the system. -/
theorem shared_behind {c₁ : sys.legalHold.Config} {c₂ : LegalHold.Config}
    (hproj : sys.front.Projects (fun i st => Silent (sys.legalHold.front.behind i) st.2) c c₁)
    (hproj₂ : sys.legalHold.front.Projects Silent c₁ c₂) : c₂.shared = c.shared.2.2 :=
  hproj₂.shared.trans (congrArg Prod.snd hproj.shared)

/-- Behind a reachable configuration of the system there is one of the service with the same
database. -/
theorem Reachable.service (h : sys.Reachable c) :
    ∃ c' : LegalHold.Config, LegalHold.Reachable c' ∧ c'.shared = c.shared.2.2 := by
  obtain ⟨c₁, c₂, hc₂, hproj, hproj₂⟩ := h.projects
  exact ⟨c₂, hc₂, shared_behind hproj hproj₂⟩

/-- A call that has been passed on has been decoded. -/
theorem passedOn_of_asks {ctx : Ctx} {request : ExecuteRequest}
    (h : sys.respondTo (.tool ctx request) = (sys.called (sys.passed (.tool ctx request))).bind
      fun answer => .ret (sys.answerTo (.tool ctx request) answer)) :
    ∃ call, sys.passedOn ctx request = some call ∧ sys.passed (.tool ctx request) = call := by
  cases hpassed : sys.passedOn ctx request with
  | none =>
    obtain ⟨e, he⟩ := respondTo_refused hpassed
    cases he.symm.trans h
  | some call =>
    refine ⟨call, rfl, ?_⟩
    show (sys.passedOn ctx request).getD _ = _
    rw [hpassed]
    rfl

/-- What has been passed on opens what the instance is asked for. -/
theorem opened_of_asks {call : SystemCall Ctx}
    (h : sys.respondTo call = (sys.called (sys.passed call)).bind
      fun answer => .ret (sys.answerTo call answer)) :
    sys.opened call = sys.legalHold.plugin.asked (sys.passed call) := by
  cases call with
  | direct call => rfl
  | tool ctx request =>
    obtain ⟨call, hsome, hpassed⟩ := passedOn_of_asks h
    show (sys.passedOn ctx request).bind _ = _
    rw [hsome, hpassed]
    rfl

/-- What a call is, in the system and behind it: it has been left alone with an error, or it is
the session of an operation. -/
theorem Reachable.calls {c₁ : sys.legalHold.Config} {c₂ : LegalHold.Config}
    (hproj : sys.front.Projects (fun i st => Silent (sys.legalHold.front.behind i) st.2) c c₁)
    (hproj₂ : sys.legalHold.front.Projects Silent c₁ c₂) {i : ℕ} {call : SystemCall Ctx} {p}
    (hi : c.procs[i]? = some ⟨call, p⟩) :
    (Silent ⟨i, idleOp⟩ c.shared.2.2 ∧ ∀ a, p = some (.ret a) → a.Failed) ∨
      ∃ op q, sys.opened call = some op ∧ c₂.procs[i]? = some ⟨op, q⟩ ∧
        ∀ a, p = some (.ret a) → ∃ r, q = some (.ret r) ∧
          a = sys.answerTo call (sys.legalHold.plugin.answerTo (sys.passed call) r) := by
  obtain ⟨q₁, hq₁, hshadow⟩ := hproj.procs i call p hi
  rcases hshadow.outcome with ⟨hsilent, hanswer⟩ | ⟨⟨g, hprog⟩, hanswer⟩
  -- The adapter has answered by itself.
  · refine .inl ⟨hsilent, fun a ha => ?_⟩
    obtain ⟨g, hret⟩ := hanswer a ha
    cases call with
    | direct call => cases hret
    | tool ctx request =>
      cases hpassed : sys.passedOn ctx request with
      | none =>
        obtain ⟨e, he⟩ := respondTo_refused hpassed
        cases he.symm.trans hret
        exact ⟨_, rfl⟩
      | some call =>
        have hnone : sys.passedOn ctx request ≠ none := by simp [hpassed]
        cases (respondTo_passed hnone).symm.trans hret
  -- The adapter has passed it on, and the instance is asked next.
  · have hopened := opened_of_asks hprog
    have hshared : c₁.shared = c.shared.2 := hproj.shared
    rcases Instance.Reachable.calls hproj₂ hq₁ with ⟨hsilent, herror⟩ | ⟨op, q, hasked, hq, hret⟩
    · rw [hshared] at hsilent
      refine .inl ⟨hsilent, fun a ha => ?_⟩
      obtain ⟨a₁, ha₁, rfl⟩ := hanswer a ha
      exact answerTo_failed call (herror a₁ ha₁)
    · refine .inr ⟨op, q, hopened.trans hasked, hq, fun a ha => ?_⟩
      obtain ⟨a₁, ha₁, rfl⟩ := hanswer a ha
      obtain ⟨r, hr, rfl⟩ := hret a₁ ha₁
      exact ⟨r, hr, rfl⟩

end AgentTools

/-! ### Which tools change anything -/

theorem Tool.definition_mem (t : Tool) : t.definition ∈ toolDefinitions := by
  cases t <;> simp [toolDefinitions, all]

/-- An operation that only reads has no command. -/
theorem Op.command?_of_readOnly {op : Op} (h : op.readOnly = true) : op.command? = none := by
  cases op with
  | getHold org h => rfl
  | listHolds org status cursor limit => rfl
  | listActivity org h after limit => rfl
  | _ => cases h

/-- A request of a tool that is advertised as safe only reads. -/
theorem AdminRequest.readOnly_of_parallelSafe [Backend] {r : LegalHoldRequest}
    (h : r.tool.execution = .parallelSafe) {caller actor : String} {op : Op}
    (hop : r.admin.op? caller actor = some op) : op.readOnly = true := by
  cases r with
  | getHold r =>
    rw [GetHoldRequest.op?_eq_some hop]
    rfl
  | listHolds r =>
    rw [(ListHoldsRequest.op?_eq_some.mp hop).2]
    rfl
  | listActivity r =>
    obtain ⟨-, after, -, -, rfl⟩ := ListActivityRequest.op?_eq_some.mp hop
    rfl
  | _ => cases h

namespace AgentTools

variable {Ctx : Type} [Backend] {sys : AgentTools Ctx} {c : sys.Config}

/-- Whatever tool of the catalog goes by the name of the request is advertised as safe to run in
parallel. -/
def Safe (request : ExecuteRequest) : Prop :=
  ∀ tool ∈ toolDefinitions, tool.name = request.name → tool.execution = .parallelSafe

theorem asked_readOnly {ctx : Ctx} {r : LegalHoldRequest} (h : r.tool.execution = .parallelSafe) :
    (sys.legalHold.front.op (.legalHold ctx r.admin)).readOnly = true := by
  show ((sys.legalHold.plugin.asked (.legalHold ctx r.admin)).getD idleOp).readOnly = true
  cases hasked : sys.legalHold.plugin.asked (.legalHold ctx r.admin) with
  | none => rfl
  | some op =>
    obtain ⟨caller, actor, -, hop⟩ := Plugin.asked_legalHold.mp hasked
    exact AdminRequest.readOnly_of_parallelSafe h hop

/-- What stands behind a call of a safe tool only reads. -/
theorem passed_readOnly (hdoc : sys.runtime.Documented) {ctx : Ctx} {request : ExecuteRequest}
    (hsafe : Safe request) :
    (sys.legalHold.front.op (sys.passed (.tool ctx request))).readOnly = true := by
  show (sys.legalHold.front.op
    (((sys.runtime.decoded request).map _).getD (idleCall (sys.forwarded ctx)))).readOnly = true
  cases hdecoded : sys.runtime.decoded request with
  | none => exact asked_readOnly (r := .getHold ⟨"-", "-"⟩) rfl
  | some decoded =>
    obtain ⟨t, r⟩ := decoded
    obtain ⟨hname, rfl⟩ := ToolRuntime.decoded_eq_some hdoc hdecoded
    exact asked_readOnly (hsafe _ r.tool.definition_mem hname.symm)

/-- **A safe tool goes on at any time, and nobody can tell.** -/
theorem Reachable.safe_step (hdoc : sys.runtime.Documented) (h : sys.Reachable c) {i : ℕ}
    {ctx : Ctx} {request : ExecuteRequest} {s k}
    (hi : c.procs[i]? = some ⟨.tool ctx request, some (.ask s k)⟩) (hsafe : Safe request)
    (f : Fate) : ∃ d, Machine.step c (.step i f) = some d ∧
      d.shared.2.2.withoutReaders = c.shared.2.2.withoutReaders := by
  obtain ⟨c₁, c₂, hc₂, hproj, hproj₂⟩ := h.projects
  suffices hexec : ∃ st r, sys.front.machine.exec ⟨i, .tool ctx request⟩ s f c.shared =
      some (st, r) ∧ st.2.2.withoutReaders = c.shared.2.2.withoutReaders by
    obtain ⟨st, r, he, hsame⟩ := hexec
    refine ⟨⟨st, c.procs.set i ⟨.tool ctx request, some (k r)⟩⟩, ?_, hsame⟩
    simp only [Machine.step, hi]
    exact Option.map_eq_some_iff.mpr ⟨_, he, rfl⟩
  obtain ⟨q₁, hq₁, hshadow⟩ := hproj.procs i _ _ hi
  rcases hshadow.asks with ⟨rfl, -⟩ | ⟨g, s₁, k₁, -, rfl, rfl, -⟩
  -- It is still at the adapter.
  · exact ⟨_, _, rfl, rfl⟩
  obtain ⟨q₂, hq₂, hshadow₂⟩ := hproj₂.procs i _ _ hq₁
  rcases hshadow₂.asks with ⟨rfl, -⟩ | ⟨prepared, stmt, k₂, -, rfl, rfl, -⟩
  -- It is at the gate of the instance.
  · exact ⟨_, _, rfl, rfl⟩
  -- It is in the database, where it reads.
  have hread : (sys.legalHold.front.op (sys.passed (.tool ctx request))).readOnly = true :=
    passed_readOnly hdoc hsafe
  have hshared := shared_behind hproj hproj₂
  obtain ⟨srv, r, he⟩ := Server.exec_readOnly (hc₂.reader_asks hq₂ hread) c₂.shared _ f
  have hsame : srv.withoutReaders = c₂.shared.withoutReaders :=
    readers_sound.hidden_exec hc₂ hq₂ hread he
  rw [hshared] at he hsame
  refine ⟨(c.shared.1, (c.shared.2.1, srv)), r, ?_, hsame⟩
  exact Option.map_eq_some_iff.mpr
    ⟨_, Option.map_eq_some_iff.mpr ⟨_, he, rfl⟩, rfl⟩

/-- **What a call has committed** is the operation that it opens. -/
theorem Reachable.opened_of_commit (h : sys.Reachable c) {t : Tx} (ht : t ∈ c.shared.2.2.log)
    {call : SystemCall Ctx} {p} (hi : c.procs[t.owner.id]? = some ⟨call, p⟩) :
    sys.opened call = some t.owner.op := by
  obtain ⟨c₁, c₂, hc₂, hproj, hproj₂⟩ := h.projects
  have hshared := shared_behind hproj hproj₂
  rcases Reachable.calls hproj hproj₂ hi with ⟨hsilent, -⟩ | ⟨op, q, hopened, hq, -⟩
  · exact absurd rfl (hsilent.2.1 t ht)
  rw [← hshared] at ht
  obtain ⟨q', hq', hop⟩ := hc₂.owned.log t ht
  cases hq.symm.trans hq'
  exact hopened.trans (congrArg some hop)

/-- **What a tool has committed** is what its arguments ask for, of a tool that is not safe. -/
theorem Reachable.tool_commit (hdoc : sys.runtime.Documented) (h : sys.Reachable c) {t : Tx}
    (ht : t ∈ c.shared.2.2.log) {ctx : Ctx} {request : ExecuteRequest} {p}
    (hi : c.procs[t.owner.id]? = some ⟨.tool ctx request, p⟩) :
    ∃ r : LegalHoldRequest, sys.runtime.decoded request = some (r.tool, r) ∧
      request.name = r.tool.name ∧ r.tool.execution = .exclusive ∧
      sys.legalHold.plugin.asked (.legalHold (sys.forwarded ctx) r.admin) = some t.owner.op := by
  obtain ⟨call, hpassed, hasked⟩ := Option.bind_eq_some_iff.mp (h.opened_of_commit ht hi)
  obtain ⟨⟨tool, r⟩, hdecoded, rfl⟩ := Option.map_eq_some_iff.mp hpassed
  obtain ⟨hname, rfl⟩ := ToolRuntime.decoded_eq_some hdoc hdecoded
  refine ⟨r, hdecoded, hname, ?_, hasked⟩
  cases hexecution : r.tool.execution with
  | exclusive => rfl
  | parallelSafe =>
    obtain ⟨caller, actor, -, hop⟩ := Plugin.asked_legalHold.mp hasked
    have hread := AdminRequest.readOnly_of_parallelSafe hexecution hop
    obtain ⟨c₂, hc₂, hshared⟩ := h.service
    obtain ⟨n, hn⟩ := List.getElem?_of_mem (hshared ▸ ht)
    obtain ⟨cmd, -, -, view, -, t', hn', hcmd, -⟩ := hc₂.commit hn
    cases hn.symm.trans hn'
    cases (Op.command?_of_readOnly hread).symm.trans hcmd

end AgentTools

/-- **What comes in through a tool goes through the gate.**  Behind every run of the agent tools
over an instance, whoever else calls the instance meanwhile, there is a run of the service with
the same database.  What has come in has either been left alone by the database and can only be
answered with an error, or it is the session of the operation that its arguments open, which
the gate has let pass, and its answer is what the adapter makes of what the instance makes of
the answer of that session.  The dispatch between the two is taken to add no failures. -/
theorem tools_refine_service {Ctx : Type} [Backend] (sys : AgentTools Ctx) {c : sys.Config}
    (h : sys.Reachable c) :
    ∃ c' : Config, Reachable c' ∧ c'.shared = c.shared.2.2 ∧ c'.procs.length = c.procs.length ∧
      ∀ i call p, c.procs[i]? = some ⟨call, p⟩ →
        (Silent ⟨i, idleOp⟩ c.shared.2.2 ∧ ∀ a, p = some (.ret a) → a.Failed) ∨
          ∃ op q, sys.opened call = some op ∧ c'.procs[i]? = some ⟨op, q⟩ ∧
            ∀ a, p = some (.ret a) → ∃ r, q = some (.ret r) ∧
              a = sys.answerTo call (sys.legalHold.plugin.answerTo (sys.passed call) r) := by
  obtain ⟨c₁, c₂, hc₂, hproj, hproj₂⟩ := h.projects
  exact ⟨c₂, hc₂, AgentTools.shared_behind hproj hproj₂,
    hproj₂.length.trans hproj.length, fun i call p hi => AgentTools.Reachable.calls hproj hproj₂ hi⟩

/-- **Only exclusive tools change anything.**  Whatever a call of a tool has committed is what its
arguments ask for, by a tool that is advertised as exclusive, and the gate has let it pass.  A
call whose name is of no such tool can go on at any time, whatever others do, and leaves
everything as it is for everybody else. -/
theorem exclusive_tools_commit {Ctx : Type} [Backend] (sys : AgentTools Ctx)
    (hdoc : sys.runtime.Documented) {c : sys.Config} (h : sys.Reachable c) :
    (∀ t ∈ c.shared.2.2.log, ∀ ctx request p,
      c.procs[t.owner.id]? = some ⟨.tool ctx request, p⟩ →
        ∃ r : LegalHoldRequest, sys.runtime.decoded request = some (r.tool, r) ∧
          (∃ tool ∈ toolDefinitions, tool.name = request.name ∧ tool.execution = .exclusive) ∧
          sys.legalHold.plugin.asked (.legalHold (sys.forwarded ctx) r.admin) =
            some t.owner.op) ∧
      ∀ i ctx request s k, c.procs[i]? = some ⟨.tool ctx request, some (.ask s k)⟩ →
        (∀ tool ∈ toolDefinitions, tool.name = request.name → tool.execution = .parallelSafe) →
          ∀ f : Fate, ∃ d, Machine.step c (.step i f) = some d ∧
            d.shared.2.2.withoutReaders = c.shared.2.2.withoutReaders := by
  refine ⟨fun t ht ctx request p hi => ?_, fun i ctx request s k hi hsafe f =>
    AgentTools.Reachable.safe_step hdoc h hi hsafe f⟩
  obtain ⟨r, hdecoded, hname, hexecution, hasked⟩ := AgentTools.Reachable.tool_commit hdoc h ht hi
  exact ⟨r, hdecoded, ⟨_, r.tool.definition_mem, hname.symm, hexecution⟩, hasked⟩

namespace Sample

/-- The agent tools over the desk, for agents that are let in under their own names. -/
def agents : AgentTools (String × String) := ⟨desk, toolRuntime, id⟩

/-- The call by which Alice, through the tool, has `f` put under `h`. -/
def addCall : SystemCall (String × String) :=
  .tool ("console", "alice") ⟨"legal_hold_add_scope", misspelledText⟩

/-- The call by which Bob looks at the hold `h` through a tool, with the arguments of the other
call. -/
def getCall : SystemCall (String × String) :=
  .tool ("console", "bob") ⟨"legal_hold_get", misspelledText⟩

/-- The schedule in which Alice creates the hold at the console and goes on with an agent, before
a call of Bob comes in. -/
def agentCalls : List agents.front.machine.Label :=
  .move (.inr (.inl (.activate activation))) ::
    .start (.direct (.legalHold ("console", "alice")
      (.createHold ⟨"h", "create", "court", "org", "r", "t"⟩))) ::
    List.replicate 10 (.step 0 .done) ++
    .start addCall :: List.replicate 12 (.step 1 .done) ++ [.start getCall]

/-- The configuration that the calls of the agents lead to. -/
def agentsAfter : agents.Config := (Machine.run agents.initial agentCalls).getD agents.initial

set_option maxRecDepth 8000 in
theorem agents_reachable : agents.Reachable agentsAfter := ⟨agentCalls, rfl⟩

set_option maxRecDepth 8000 in
/-- The scope is stored by the session of the operation that the agent's arguments open. -/
theorem agents_refined : ∃ c' : Config, LegalHold.Reachable c' ∧ c'.shared.log.length = 2 ∧
    ∃ op q, agents.opened addCall = some op ∧ c'.procs[1]? = some ⟨op, q⟩ := by
  obtain ⟨c', hc', hshared, -, hcalls⟩ := tools_refine_service agents agents_reachable
  refine ⟨c', hc', by rw [hshared]; rfl, ?_⟩
  rcases hcalls 1 addCall _ rfl with ⟨⟨-, hlog, -⟩, -⟩ | ⟨op, q, hopened, hq, -⟩
  · exact absurd rfl (hlog _ (List.mem_cons_of_mem _ List.mem_cons_self))
  · exact ⟨op, q, hopened, hq⟩

set_option maxRecDepth 8000 in
/-- Its tool is advertised as exclusive, and Bob can go on meanwhile. -/
theorem agents_commit :
    (∃ tool ∈ toolDefinitions, tool.name = "legal_hold_add_scope" ∧ tool.execution = .exclusive) ∧
      ∀ f : Fate, ∃ d, Machine.step agentsAfter (.step 2 f) = some d := by
  obtain ⟨hcommits, hsafe⟩ :=
    exclusive_tools_commit agents toolRuntime_documented agents_reachable
  have hlog : agentsAfter.shared.2.2.log.length = 2 := rfl
  obtain ⟨-, -, htool, -⟩ :=
    hcommits agentsAfter.shared.2.2.log[1] (List.getElem_mem _) _ _ _ rfl
  refine ⟨htool, fun f => ?_⟩
  obtain ⟨d, hd, -⟩ := hsafe 2 _ _ _ _ rfl (by decide) f
  exact ⟨d, hd⟩

end Sample

end LegalHold
