import LegalHold.Agents
import LegalHold.Retries

/-!
# Redelivery

What becomes of a request that is delivered more than once: by an agent that retries a tool, by
several agents at the same time, or by the same party at the endpoint.  A text may order the
members of the request as it likes and may have others beside them.

## Main definitions

* `AgentTools.Delivers` — a call delivers a request for somebody.
* `AgentTools.granted` — the answer with a given response.
* `AgentTools.Recorded` — a commit has recorded a response for a request.

## Main results

* `deliveries_idempotent` — **at most one delivery is committed**, and all that are granted are
  answered with one response.
-/

namespace LegalHold

open Interleave

namespace AgentTools

variable {Ctx : Type} [Backend] {sys : AgentTools Ctx} {r : LegalHoldRequest}
  {caller actor : String}

/-- A call delivers the request on behalf of the caller and the actor: to the tool, with
arguments that carry it, or to the instance itself. -/
inductive Delivers (sys : AgentTools Ctx) (r : LegalHoldRequest) (caller actor : String) :
    SystemCall Ctx → Prop
  | tool {ctx : Ctx} {text : String} {members : List (String × Json)}
      (parsed : sys.runtime.parse text = some (.obj members)) (carried : r.Carried members)
      (authorized : sys.legalHold.plugin.authorizeAdmin (sys.forwarded ctx) r.admin.operation
        r.admin.organizationId r.admin.permission = .ok (caller, actor)) :
      Delivers sys r caller actor (.tool ctx ⟨r.tool.name, text⟩)
  | direct {ctx : Ctx}
      (authorized : sys.legalHold.plugin.authorizeAdmin ctx r.admin.operation
        r.admin.organizationId r.admin.permission = .ok (caller, actor)) :
      Delivers sys r caller actor (.direct (.legalHold ctx r.admin))

/-- The answer to a call of the system when the operation it stands for is granted this
response. -/
def granted (sys : AgentTools Ctx) (r : LegalHoldRequest) (response : Response) :
    SystemCall Ctx → SystemAnswer
  | .tool .. => .tool (sys.runtime.success r.tool.name response.toValue)
  | .direct _ => .direct (.legalHold (.ok response))

omit [Backend] in
/-- Only the tools that list have a page size, and these are not exclusive. -/
theorem inRange_of_exclusive (h : r.tool.execution = .exclusive) : r.InRange := by
  cases r with
  | listActivity r => cases h
  | listHolds r => cases h
  | _ => trivial

/-- The operation that an exclusive tool asks for has a command. -/
theorem command_of_exclusive (h : r.tool.execution = .exclusive) {op : Op}
    (hop : r.admin.op? caller actor = some op) : ∃ cmd, op.command? = some cmd := by
  cases r with
  | getHold r => cases h
  | listHolds r => cases h
  | listActivity r => cases h
  | _ =>
    obtain ⟨input, -, rfl⟩ := Option.map_eq_some_iff.mp hop
    exact ⟨_, rfl⟩

omit [Backend] in
/-- Arguments that carry the request are decoded to it. -/
theorem decoded_carried (hdoc : sys.runtime.Documented) (hr : r.InRange) {text : String}
    {members : List (String × Json)} (hparse : sys.runtime.parse text = some (.obj members))
    (hcarried : r.Carried members) :
    sys.runtime.decoded ⟨r.tool.name, text⟩ = some (r.tool, r) := by
  have hrequest : r.tool.request sys.runtime (.obj members) = some r :=
    hdoc.request_carried hr hcarried
  have hdecode : sys.runtime.decode r.tool ⟨r.tool.name, text⟩ = .ok r := by
    unfold ToolRuntime.decode
    rw [hparse, Option.bind_some, hrequest]
    rfl
  unfold ToolRuntime.decoded
  rw [ToolRuntime.find?_name, Option.bind_some, hdecode]
  rfl

/-- A delivery opens the operation of its request. -/
theorem Delivers.opened (hdoc : sys.runtime.Documented) (hr : r.InRange) {call : SystemCall Ctx}
    (h : sys.Delivers r caller actor call) : sys.opened call = r.admin.op? caller actor := by
  cases h with
  | @tool ctx text members parsed carried authorized =>
    have hpassed : sys.passedOn ctx ⟨r.tool.name, text⟩ =
        some (.legalHold (sys.forwarded ctx) r.admin) := by
      unfold passedOn
      rw [decoded_carried hdoc hr parsed carried]
      rfl
    show (sys.passedOn ctx ⟨r.tool.name, text⟩).bind _ = _
    rw [hpassed, Option.bind_some, Plugin.asked, authorized]
    rfl
  | direct authorized =>
    show sys.legalHold.plugin.asked (.legalHold _ r.admin) = _
    rw [Plugin.asked, authorized]
    rfl

omit [Backend] in
/-- A delivery is answered with an error, or with the response to the answer of the storage. -/
theorem Delivers.answerTo (hdoc : sys.runtime.Documented) (hr : r.InRange)
    {call : SystemCall Ctx} (h : sys.Delivers r caller actor call)
    (x : Except StorageError Answer) :
    (sys.answerTo call (sys.legalHold.plugin.answerTo (sys.passed call) x)).Failed ∨
      ∃ a response, x = .ok a ∧ sys.legalHold.plugin.respond a = .ok response ∧
        sys.answerTo call (sys.legalHold.plugin.answerTo (sys.passed call) x) =
          sys.granted r response call := by
  obtain ⟨ctx, hpassed⟩ : ∃ ctx, sys.passed call = .legalHold ctx r.admin := by
    cases h with
    | @tool ctx text members parsed carried authorized =>
      refine ⟨sys.forwarded ctx, ?_⟩
      show (sys.passedOn ctx ⟨r.tool.name, text⟩).getD _ = _
      rw [passedOn, decoded_carried hdoc hr parsed carried]
      rfl
    | direct authorized => exact ⟨_, rfl⟩
  rw [hpassed]
  cases x with
  | error e => exact .inl (answerTo_failed call (.inl ⟨_, rfl⟩))
  | ok a =>
    have hanswer : sys.legalHold.plugin.answerTo (.legalHold ctx r.admin) (.ok a) =
        .legalHold (sys.legalHold.plugin.respond a) := rfl
    rw [hanswer]
    cases hresponse : sys.legalHold.plugin.respond a with
    | error e => exact .inl (answerTo_failed call (.inl ⟨e, rfl⟩))
    | ok response =>
      refine .inr ⟨a, response, rfl, hresponse, ?_⟩
      cases h with
      | direct authorized => rfl
      | @tool ctx text members parsed carried authorized =>
        show SystemAnswer.tool ((sys.runtime.decoded _).elim _ _) = _
        rw [decoded_carried hdoc hr parsed carried]
        rfl

/-- A commit for the key and the digest of the request has stored this response in its receipt.
Two requests of one digest are not told apart here, as the code does not tell them apart. -/
def Recorded (sys : AgentTools Ctx) (r : LegalHoldRequest) (caller actor : String)
    (srv : Server) (response : Response) : Prop :=
  ∃ n cmd view op cmd', srv.Commit n cmd view ∧
    sys.legalHold.plugin.respond (.hold view) = .ok response ∧
    r.admin.op? caller actor = some op ∧ op.command? = some cmd' ∧ cmd.key = cmd'.key ∧
    cmd.requestHash = cmd'.requestHash

/-- The response that is recorded for a request is determined: a key has one commit. -/
theorem Recorded.unique {c : LegalHold.Config} (hc : LegalHold.Reachable c)
    {response response' : Response} (h : sys.Recorded r caller actor c.shared response)
    (h' : sys.Recorded r caller actor c.shared response') : response = response' := by
  obtain ⟨n, cmd, view, op, cmd', hcommit, hrespond, hop, hcmd, hkey, -⟩ := h
  obtain ⟨m, cmd₁, view₁, op₁, cmd₁', hcommit₁, hrespond₁, hop₁, hcmd₁, hkey₁, -⟩ := h'
  cases hop.symm.trans hop₁
  cases hcmd.symm.trans hcmd₁
  obtain rfl := hc.key_unique hcommit hcommit₁ (hkey.trans hkey₁.symm)
  obtain ⟨-, rfl⟩ := Server.commit_unique hcommit hcommit₁
  exact Except.ok.inj (hrespond.symm.trans hrespond₁)

variable {c : sys.Config}

/-- For a delivery that is not answered with an error a response is recorded, and this is what the
delivery is answered with. -/
theorem Reachable.delivered (hdoc : sys.runtime.Documented) (h : sys.Reachable c)
    (hexclusive : r.tool.execution = .exclusive) {i : ℕ} {call : SystemCall Ctx}
    {a : SystemAnswer} (hi : c.procs[i]? = some ⟨call, some (.ret a)⟩)
    (hcall : sys.Delivers r caller actor call) (hok : ¬ a.Failed) :
    ∃ response, sys.Recorded r caller actor c.shared.2.2 response ∧
      a = sys.granted r response call := by
  have hr : r.InRange := inRange_of_exclusive hexclusive
  obtain ⟨c₁, c₂, hc₂, hproj, hproj₂⟩ := h.projects
  have hshared := AgentTools.shared_behind hproj hproj₂
  rcases Reachable.calls hproj hproj₂ hi with ⟨-, hfailed⟩ | ⟨op, q, hopened, hq, hret⟩
  · exact absurd (hfailed a rfl) hok
  obtain ⟨x, rfl, rfl⟩ := hret a rfl
  have hop : r.admin.op? caller actor = some op := (hcall.opened hdoc hr).symm.trans hopened
  -- The operation mutates, so that its answer is that of a commit of its key.
  obtain ⟨cmd', hcmd'⟩ := command_of_exclusive hexclusive hop
  rcases hcall.answerTo hdoc hr x with hfailed | ⟨answer, response, rfl, hrespond, hgranted⟩
  · exact absurd hfailed hok
  have hreturned : LegalHold.Returned c₂ i op (.ok answer) := hq
  obtain ⟨r', hr', -⟩ := hc₂.outcome (i := ⟨i, op⟩) hreturned hcmd'
  cases r' with
  | error e => cases hr'
  | ok view =>
    cases hr'
    obtain ⟨n, cmd, hcommit, hkey, hhash⟩ := hc₂.ok (i := ⟨i, op⟩) hreturned hcmd'
    rw [hshared] at hcommit
    exact ⟨response, ⟨n, cmd, view, op, cmd', hcommit, hrespond, hop, hcmd', hkey, hhash⟩,
      hgranted⟩

/-- Two commits of deliveries of one request are the same commit. -/
theorem Reachable.delivered_once (hdoc : sys.runtime.Documented) (h : sys.Reachable c)
    (hexclusive : r.tool.execution = .exclusive) {n m : ℕ} {t t' : Tx}
    {call call' : SystemCall Ctx} {p p'} (hn : c.shared.2.2.log[n]? = some t)
    (hm : c.shared.2.2.log[m]? = some t') (hi : c.procs[t.owner.id]? = some ⟨call, p⟩)
    (hj : c.procs[t'.owner.id]? = some ⟨call', p'⟩) (hcall : sys.Delivers r caller actor call)
    (hcall' : sys.Delivers r caller actor call') : n = m := by
  have hr : r.InRange := inRange_of_exclusive hexclusive
  have hop : r.admin.op? caller actor = some t.owner.op :=
    (hcall.opened hdoc hr).symm.trans (h.opened_of_commit (List.mem_of_getElem? hn) hi)
  have hop' : r.admin.op? caller actor = some t'.owner.op :=
    (hcall'.opened hdoc hr).symm.trans (h.opened_of_commit (List.mem_of_getElem? hm) hj)
  obtain ⟨c₂, hc₂, hshared⟩ := h.service
  rw [← hshared] at hn hm
  obtain ⟨cmd, ws, activityId, view, hmutation, hcommit⟩ := hc₂.commit hn
  obtain ⟨cmd', ws', activityId', view', hmutation', hcommit'⟩ := hc₂.commit hm
  -- They are of one operation, and so of one key.
  have heq : t.owner.op.command? = t'.owner.op.command? :=
    congrArg Op.command? (Option.some.inj (hop.symm.trans hop'))
  cases hmutation.command.symm.trans (heq.trans hmutation'.command)
  exact hc₂.key_unique hcommit hcommit' rfl

end AgentTools

/-- **A request that is delivered more than once is carried out at most once.**  Of all its
deliveries for one party, through tools and at the endpoint, one after the other or at the same
time, at most one has been committed; and those that have not been answered with an error have
been answered with one and the same response, which a commit has recorded for the key and the
digest of the request.  The dispatch between adapter and instance is taken to add no failures of
its own. -/
theorem deliveries_idempotent {Ctx : Type} [Backend] (sys : AgentTools Ctx)
    (hdoc : sys.runtime.Documented) {c : sys.Config} (h : sys.Reachable c) {r : LegalHoldRequest}
    (hexclusive : r.tool.execution = .exclusive) (caller actor : String) :
    (∀ (n m : ℕ) (t t' : Tx) call call' p p', c.shared.2.2.log[n]? = some t →
      c.shared.2.2.log[m]? = some t' → c.procs[t.owner.id]? = some ⟨call, p⟩ →
      c.procs[t'.owner.id]? = some ⟨call', p'⟩ → sys.Delivers r caller actor call →
      sys.Delivers r caller actor call' → n = m) ∧
    ∃ response, ∀ (i : ℕ) call (a : SystemAnswer), c.procs[i]? = some ⟨call, some (.ret a)⟩ →
      sys.Delivers r caller actor call → a.Failed ∨
        a = sys.granted r response call ∧
          sys.Recorded r caller actor c.shared.2.2 response := by
  refine ⟨fun n m t t' call call' p p' hn hm hi hj hcall hcall' =>
    AgentTools.Reachable.delivered_once hdoc h hexclusive hn hm hi hj hcall hcall', ?_⟩
  by_cases hsome : ∃ response, sys.Recorded r caller actor c.shared.2.2 response
  -- The response of the one is that of all others.
  · obtain ⟨response, hcarried⟩ := hsome
    refine ⟨response, fun i call a hi hcall => or_iff_not_imp_left.mpr fun hok => ?_⟩
    obtain ⟨response', hcarried', hgranted⟩ :=
      AgentTools.Reachable.delivered hdoc h hexclusive hi hcall hok
    obtain ⟨c', hc', hshared⟩ := h.service
    rw [← hshared] at hcarried hcarried'
    obtain rfl := hcarried.unique hc' hcarried'
    exact ⟨hgranted, hshared ▸ hcarried⟩
  · refine ⟨.holds ⟨[], none⟩, fun i call a hi hcall => .inl ?_⟩
    by_contra hok
    obtain ⟨response, hcarried, -⟩ := AgentTools.Reachable.delivered hdoc h hexclusive hi hcall hok
    exact hsome ⟨response, hcarried⟩

namespace Sample

/-- Alice asks at the console for what the agent has already done. -/
def deskAddCall : SystemCall (String × String) :=
  .direct (.legalHold ("console", "alice") unspelled.admin)

/-- The run of the agents goes on: Alice's call comes in at the endpoint and runs to its answer. -/
def agentsAgain : agents.Config :=
  (Machine.run agentsAfter (.start deskAddCall :: List.replicate 4 (.step 3 .done))).getD
    agentsAfter

set_option maxRecDepth 8000 in
theorem agentsAgain_reachable : agents.Reachable agentsAgain :=
  agents_reachable.trans ⟨.start deskAddCall :: List.replicate 4 (.step 3 .done), rfl⟩

set_option maxRecDepth 8000 in
/-- Alice, who repeats at the endpoint what she has had a tool do, is answered with the response
that is recorded for the tool's commit. -/
theorem agentsAgain_answered : ∃ response,
    agents.Recorded unspelled "console" "alice" agentsAgain.shared.2.2 response ∧
      agentsAgain.procs[3]? =
        some ⟨deskAddCall, some (.ret (.direct (.legalHold (.ok response))))⟩ := by
  obtain ⟨-, response, hall⟩ := deliveries_idempotent agents toolRuntime_documented
    agentsAgain_reachable (r := unspelled) rfl "console" "alice"
  have hanswered : ∃ answer, agentsAgain.procs[3]? = some ⟨deskAddCall, some (.ret answer)⟩ ∧
      ∃ response, answer = .direct (.legalHold (.ok response)) := ⟨_, rfl, _, rfl⟩
  obtain ⟨answer, hanswer, response', rfl⟩ := hanswered
  rcases hall 3 deskAddCall _ hanswer (.direct rfl) with ⟨e, hfailed⟩ | ⟨hgranted, hcarried⟩
  · cases hfailed
  · cases (hgranted : _ = SystemAnswer.direct (.legalHold (.ok response)))
    exact ⟨_, hcarried, hanswer⟩

end Sample

end LegalHold
