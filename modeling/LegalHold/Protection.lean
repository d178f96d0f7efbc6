import LegalHold.Guard
import LegalHold.Provenance
import LegalHold.Redelivery

/-!
# Protection

What a legal hold is good for, from the answer that somebody has been given to the permission
that somebody else asks for.  The two may come in anywhere, through a tool or at the endpoint,
with the plugin deactivated and activated again in between.

## Main definitions

* `AgentTools.Requested` — a call of the run has asked for a command, and was authorized to.
* `AgentTools.CollisionFree` — the digests of different scope requests differ.

## Main results

* `acknowledged_scope_protects` — **an addition that has been acknowledged keeps the guard from
  allowing anything**, until somebody who is authorized for the organization of the hold has
  removed the scope or released the hold.
-/

namespace LegalHold

open Interleave

section

variable [Backend] {c : Config}

/-- What a command leaves of its hold is of its organization. -/
theorem Reachable.hold?_of_commit (h : Reachable c) {n : ℕ} {cmd : Command} {view : HoldView}
    (hc : c.shared.Commit n cmd view) : ∃ row,
      (c.shared.asOf (n + 1)).hold? cmd.holdId = some row ∧
        row.organizationId = cmd.organizationId := by
  obtain ⟨t, ws, activityId, -, hm, hsucc⟩ := h.mutation hc
  rw [hsucc, (hm.putAll_writes cmd.holdId).1]
  rcases hm.changed.hold? with ⟨-, title, reason, authority, -, hnew⟩ |
    ⟨old, revision, -, opened, ⟨reason, -, hnew⟩ | ⟨-, hnew⟩⟩
  · exact ⟨_, hnew, rfl⟩
  · exact ⟨_, hnew, opened.organization⟩
  · exact ⟨_, hnew, opened.organization⟩

/-- All commands on a hold are for one organization. -/
theorem Reachable.same_organization (h : Reachable c) {n m : ℕ} {cmd cmd' : Command}
    {view view' : HoldView} (hc : c.shared.Commit n cmd view) (hc' : c.shared.Commit m cmd' view')
    (hnm : n ≤ m) (hhold : cmd'.holdId = cmd.holdId) :
    cmd'.organizationId = cmd.organizationId := by
  obtain ⟨row, hrow, horg⟩ := h.hold?_of_commit hc
  obtain ⟨row', hrow', horg'⟩ := h.hold?_of_commit hc'
  obtain ⟨last, hlast, horigin⟩ := h.inv.hold?_mono (m := m + 1) (by omega) hrow
  rw [hhold] at hrow'
  cases hlast.symm.trans hrow'
  rw [← horg, ← horg']
  exact congrArg Prod.fst horigin

end

namespace AgentTools

variable {Ctx : Type} [Backend] {sys : AgentTools Ctx} {c c₀ : sys.Config}

/-- A call of the run has asked for the command: its request is valid, and the gate has found
its caller configured and its actor a member of the organization with the permission that the
change needs. -/
def Requested (sys : AgentTools Ctx) (c : sys.Config) (cmd : Command) : Prop :=
  ∃ (i : ℕ) (call : SystemCall Ctx) (p : _) (op : Op) (ctx : Ctx) (r : AdminRequest),
    c.procs[i]? = some ⟨call, p⟩ ∧ sys.opened call = some op ∧ op.command? = some cmd ∧
    sys.passed call = .legalHold ctx r ∧ sys.legalHold.plugin.Authorized ctx r.operation
      cmd.organizationId cmd.change.permission cmd.caller cmd.actor

/-- Additions of scopes that have been asked for in the run have different digests if they
differ. -/
def CollisionFree (sys : AgentTools Ctx) (c : sys.Config) : Prop :=
  ∀ (i j : ℕ) (call call' : SystemCall Ctx) p p' (input input' : ScopeRequest),
    c.procs[i]? = some ⟨call, p⟩ → c.procs[j]? = some ⟨call', p'⟩ →
    sys.opened call = some (.addScope input) → sys.opened call' = some (.addScope input') →
    Backend.digest input.hashInput = Backend.digest input'.hashInput →
    input.hashInput = input'.hashInput

/-- What has been opened by a call is what the instance is asked for. -/
theorem asked_of_opened {call : SystemCall Ctx} {op : Op} (h : sys.opened call = some op) :
    sys.legalHold.plugin.asked (sys.passed call) = some op := by
  cases call with
  | direct call => exact h
  | tool ctx request =>
    obtain ⟨call, hpassed, hasked⟩ := Option.bind_eq_some_iff.mp h
    show sys.legalHold.plugin.asked ((sys.passedOn ctx request).getD _) = _
    rw [hpassed]
    exact hasked

/-- What the instance is asked for, and is no read, has been opened by the call. -/
theorem opened_of_asked {call : SystemCall Ctx} {op : Op}
    (h : sys.legalHold.plugin.asked (sys.passed call) = some op) (hop : op.readOnly = false) :
    sys.opened call = some op := by
  cases call with
  | direct call => exact h
  | tool ctx request =>
    cases hpassed : sys.passedOn ctx request with
    | some call =>
      have heq : sys.passed (.tool ctx request) = call := by rw [passed, hpassed]; rfl
      rw [heq] at h
      exact Option.bind_eq_some_iff.mpr ⟨call, hpassed, h⟩
    -- The call that stands for a refused one is a read.
    | none =>
      have heq : sys.passed (.tool ctx request) = idleCall (sys.forwarded ctx) := by
        rw [passed, hpassed]; rfl
      rw [heq] at h
      obtain ⟨caller, actor, -, hread⟩ := Plugin.asked_legalHold.mp h
      rw [GetHoldRequest.op?_eq_some hread] at hop
      cases hop

/-- What stands behind a run that goes on. -/
theorem Reachable.projects_later (h : sys.Reachable c₀) (hr : Machine.Reaches c₀ c) :
    ∃ (c₁ d₁ : sys.legalHold.Config) (c₂ d₂ : LegalHold.Config), Later c₂ d₂ ∧
      sys.front.Projects (fun i st => Silent (sys.legalHold.front.behind i) st.2) c₀ c₁ ∧
      sys.legalHold.front.Projects Silent c₁ c₂ ∧
      sys.front.Projects (fun i st => Silent (sys.legalHold.front.behind i) st.2) c d₁ ∧
      sys.legalHold.front.Projects Silent d₁ d₂ := by
  obtain ⟨c₁, c₂, hc₂, hproj, hproj₂⟩ := h.projects
  obtain ⟨d₁, hd₁, hproj'⟩ :=
    hproj.reaches (Front.othersKeep sys.legalHold.front othersKeep_silent) hr
  obtain ⟨d₂, hd₂, hproj₂'⟩ := hproj₂.reaches othersKeep_silent hd₁
  exact ⟨c₁, d₁, c₂, d₂, ⟨hc₂, hd₂⟩, hproj, hproj₂, hproj', hproj₂'⟩

/-- A session of the service that is no read is that of a call. -/
theorem opened_of_known {c₁ : sys.legalHold.Config} {c₂ : LegalHold.Config}
    (hproj : sys.front.Projects (fun i st => Silent (sys.legalHold.front.behind i) st.2) c c₁)
    (hproj₂ : sys.legalHold.front.Projects Silent c₁ c₂) {i : Session Op}
    (hi : Config.Known c₂ i) (hop : i.op.readOnly = false) :
    ∃ call p, c.procs[i.id]? = some ⟨call, p⟩ ∧ sys.opened call = some i.op := by
  obtain ⟨id, op⟩ := i
  obtain ⟨⟨op', q⟩, hq, rfl⟩ := hi
  have hlt : id < c.procs.length := by
    rw [← hproj.length, ← hproj₂.length]
    exact (List.getElem?_eq_some_iff.mp hq).1
  obtain ⟨⟨call, p⟩, hp⟩ : ∃ proc, c.procs[id]? = some proc := ⟨_, List.getElem?_eq_getElem hlt⟩
  obtain ⟨q₁, hq₁, -⟩ := hproj.procs id call p hp
  obtain ⟨q₂, hq₂, -⟩ := hproj₂.procs id _ _ hq₁
  cases hq.symm.trans hq₂
  refine ⟨call, p, hp, opened_of_asked ?_ hop⟩
  replace hop : ((sys.legalHold.plugin.asked (sys.passed call)).getD idleOp).readOnly = false := hop
  show _ = some ((sys.legalHold.plugin.asked (sys.passed call)).getD idleOp)
  cases hasked : sys.legalHold.plugin.asked (sys.passed call) with
  | some op => rfl
  | none =>
    rw [hasked] at hop
    cases hop

/-- The additions of the service carry the digests of what has been asked for. -/
theorem hashed {c₁ : sys.legalHold.Config} {c₂ : LegalHold.Config}
    (hproj : sys.front.Projects (fun i st => Silent (sys.legalHold.front.behind i) st.2) c c₁)
    (hproj₂ : sys.legalHold.front.Projects Silent c₁ c₂) (hfree : sys.CollisionFree c) :
    Hashed c₂ where
  digest {i input} hi hop := by
    obtain ⟨call, p, -, hopened⟩ := opened_of_known hproj hproj₂ hi (by rw [hop]; rfl)
    have hissued : i.op.Issued := Plugin.asked_issued (asked_of_opened hopened)
    rw [hop] at hissued
    obtain ⟨v, hhashed⟩ := hissued.hashed rfl
    obtain ⟨⟨r, caller, actor, hinput⟩, -⟩ := hhashed
    exact MutateScopeRequest.requestHash_eq hinput
  collisionFree {i j input input'} hi hj hop hop' heq := by
    obtain ⟨call, p, hp, hopened⟩ := opened_of_known hproj hproj₂ hi (by rw [hop]; rfl)
    obtain ⟨call', p', hp', hopened'⟩ := opened_of_known hproj hproj₂ hj (by rw [hop']; rfl)
    exact hfree _ _ _ _ _ _ _ _ hp hp' (hop ▸ hopened) (hop' ▸ hopened') heq

/-- **Every command that has been carried out has been asked for.** -/
theorem Reachable.requested (h : sys.Reachable c) {n : ℕ} {cmd : Command} {view : HoldView}
    (hcommit : c.shared.2.2.Commit n cmd view) : sys.Requested c cmd := by
  obtain ⟨t, hn, hcmd, -⟩ := hcommit
  obtain ⟨c₁, c₂, hc₂, hproj, hproj₂⟩ := h.projects
  have hshared := AgentTools.shared_behind hproj hproj₂
  have ht : t ∈ c₂.shared.log := hshared ▸ List.mem_of_getElem? hn
  have hread : t.owner.op.readOnly = false := by
    cases hop : t.owner.op.readOnly with
    | false => rfl
    | true => cases (Op.command?_of_readOnly hop).symm.trans hcmd
  obtain ⟨call, p, hp, hopened⟩ := opened_of_known hproj hproj₂ (hc₂.owned.log t ht) hread
  have hasked := asked_of_opened hopened
  cases hpassed : sys.passed call with
  | legalHold ctx r =>
    rw [hpassed] at hasked
    obtain ⟨caller, actor, hgate, hop⟩ := Plugin.asked_legalHold.mp hasked
    obtain ⟨rfl, rfl, horg, hpermission⟩ := AdminRequest.op?_permission hop hcmd
    refine ⟨_, call, p, _, ctx, r, hp, hopened, hcmd, hpassed, ?_⟩
    rw [horg, hpermission]
    exact Plugin.authorizeAdmin_eq_ok_iff.mp hgate
  -- A check is no command.
  | retentionGuard ctx r =>
    rw [hpassed] at hasked
    obtain ⟨caller, input, -, -, hop⟩ := Plugin.asked_retentionGuard.mp hasked
    rw [hop] at hcmd
    cases hcmd

/-- An addition that has not been answered with an error is one that the service has answered
with a view. -/
theorem acknowledged {c₁ : sys.legalHold.Config} {c₂ : LegalHold.Config}
    (hc₂ : LegalHold.Reachable c₂)
    (hproj : sys.front.Projects (fun i st => Silent (sys.legalHold.front.behind i) st.2) c c₁)
    (hproj₂ : sys.legalHold.front.Projects Silent c₁ c₂) {i : ℕ} {call : SystemCall Ctx}
    {a : SystemAnswer} {added : ScopeRequest}
    (hi : c.procs[i]? = some ⟨call, some (.ret a)⟩)
    (hadd : sys.opened call = some (.addScope added)) (hok : ¬ a.Failed) :
    ∃ view, LegalHold.Returned c₂ i (.addScope added) (.ok (.hold view)) := by
  rcases Reachable.calls hproj hproj₂ hi with ⟨-, hfailed⟩ | ⟨op, q, hopened, hq, hret⟩
  · exact absurd (hfailed a rfl) hok
  cases hadd.symm.trans hopened
  obtain ⟨x, rfl, rfl⟩ := hret a rfl
  have hreturned : LegalHold.Returned c₂ i (.addScope added) x := hq
  obtain ⟨r, rfl, -⟩ := hc₂.outcome (i := ⟨i, .addScope added⟩) hreturned rfl
  cases r with
  | ok view => exact ⟨view, hreturned⟩
  | error e =>
    refine absurd (answerTo_failed call ?_) hok
    cases sys.passed call with
    | legalHold ctx r => exact .inl ⟨_, rfl⟩
    | retentionGuard ctx r => exact .inr ⟨_, rfl⟩

/-- A decision is one that the service has answered with. -/
theorem decided {c₁ : sys.legalHold.Config} {c₂ : LegalHold.Config}
    (hproj : sys.front.Projects (fun i st => Silent (sys.legalHold.front.behind i) st.2) c c₁)
    (hproj₂ : sys.legalHold.front.Projects Silent c₁ c₂) {j : ℕ} {guard : SystemCall Ctx}
    {input : RetentionCheck} {d : GuardDecision}
    (hj : c.procs[j]? = some ⟨guard, some (.ret (.direct (.retentionGuard (.ok d))))⟩)
    (hcheck : sys.opened guard = some (.checkRetention input)) :
    LegalHold.Returned c₂ j (.checkRetention input) (.ok (.decision d)) := by
  rcases Reachable.calls hproj hproj₂ hj with ⟨-, hfailed⟩ | ⟨op, q, hopened, hq, hret⟩
  · obtain ⟨e, he⟩ := hfailed _ rfl
    cases he
  cases hcheck.symm.trans hopened
  obtain ⟨x, rfl, hanswer⟩ := hret _ rfl
  have hreturned : LegalHold.Returned c₂ j (.checkRetention input) x := hq
  -- An answer of this form is that of a direct call of the guard whose session has decided.
  cases guard with
  | tool ctx request => cases hanswer
  | direct call =>
    cases call with
    | legalHold ctx r => cases hanswer
    | retentionGuard ctx r =>
      cases x with
      | error e => cases hanswer
      | ok answer =>
        cases answer with
        | decision d' =>
          cases hanswer
          exact hreturned
        | _ => cases hanswer

end AgentTools

/-- **An addition that has been acknowledged protects.**  Once somebody has been answered that a
scope is under a hold, through a tool or at the endpoint, a check of it that begins afterwards is
allowed only when, after the commit that has been acknowledged and before the query of the
check, a command has taken the scope out again or released the hold.  Such a command was asked
for in the run by a call that was authorized for the organization of the hold. -/
theorem acknowledged_scope_protects {Ctx : Type} [Backend] (sys : AgentTools Ctx)
    {c₀ c : sys.Config} (h : sys.Reachable c₀) (hr : Machine.Reaches c₀ c)
    (hfree : sys.CollisionFree c₀) {i j : ℕ} {call guard : SystemCall Ctx} {a : SystemAnswer}
    {added : ScopeRequest} {input : RetentionCheck} {d : GuardDecision}
    (hi : c₀.procs[i]? = some ⟨call, some (.ret a)⟩)
    (hadd : sys.opened call = some (.addScope added)) (hok : ¬ a.Failed)
    (hlate : c₀.procs.length ≤ j)
    (hj : c.procs[j]? = some ⟨guard, some (.ret (.direct (.retentionGuard (.ok d))))⟩)
    (hcheck : sys.opened guard = some (.checkRetention input))
    (hscope : added.scope ∈ input.scopes) (hallowed : d.allowed = true) :
    ∃ (n : ℕ) (cmd : Command) (view : HoldView), c₀.shared.2.2.Commit n cmd view ∧
      cmd.key = (added.command true).key ∧ cmd.Adds added.holdId added.scope ∧
      ∃ e ∈ c.shared.2.2.eventsOf ⟨j, .checkRetention input⟩,
        e.stmt = .pool (.matchHolds input.scopeKind input.scopeId input.subject) ∧
        ∃ (m : ℕ) (cmd' : Command), n < m ∧ m < e.seen ∧
          c.shared.2.2.commands[m]? = some cmd' ∧
          (cmd'.Removes added.holdId added.scope ∨ cmd'.Releases added.holdId) ∧
          cmd'.organizationId = cmd.organizationId ∧ sys.Requested c cmd' := by
  have hc : sys.Reachable c := h.trans hr
  obtain ⟨c₁, d₁, c₂, d₂, hlater, hproj, hproj₂, hproj', hproj₂'⟩ := h.projects_later hr
  have hshared₀ := AgentTools.shared_behind hproj hproj₂
  have hshared := AgentTools.shared_behind hproj' hproj₂'
  obtain ⟨view, hreturned⟩ := AgentTools.acknowledged hlater.before hproj hproj₂ hi hadd hok
  obtain ⟨n, cmd, hcommit, hkey, hadds⟩ := hlater.before.added
    (AgentTools.hashed hproj hproj₂ hfree) (i := ⟨i, .addScope added⟩) rfl hreturned
  have hcommit' := hlater.commit hcommit
  obtain ⟨e, hmem, hstmt, hiff⟩ :=
    hlater.reachable.checked (AgentTools.decided hproj' hproj₂' hj hcheck)
  -- The check has seen the addition.
  have hseen : c₂.shared.log.length ≤ e.seen :=
    hlater.seen (i := ⟨j, .checkRetention input⟩)
      ((hproj₂.length.trans hproj.length).trans_le hlate) hmem
  have hlt := Server.commit_lt hcommit
  have hnot : ¬ Blocks (d₂.shared.commands.take e.seen) added.holdId input := by
    intro hblocks
    have hdenied := hiff.mpr ⟨_, hblocks⟩
    rw [hallowed] at hdenied
    cases hdenied
  -- Had nothing undone it, the check would have been denied.
  obtain ⟨m, cmd', hnm, hme, hm, hundone⟩ : ∃ (m : ℕ) (cmd' : Command), n < m ∧ m < e.seen ∧
      d₂.shared.commands[m]? = some cmd' ∧
      (cmd'.Removes added.holdId added.scope ∨ cmd'.Releases added.holdId) := by
    by_contra hnone
    push Not at hnone
    exact hnot (hlater.reachable.blocks_of_adds hcommit' hadds hscope (by omega)
      fun hnm hlt' hm => hnone _ _ hnm hlt' hm)
  obtain ⟨view', hundo⟩ := hlater.reachable.commands_iff.mp hm
  have hhold : cmd'.holdId = cmd.holdId := by
    rw [hadds.1]
    exact hundone.elim (fun hremoves => hremoves.1) fun hreleases => hreleases.1
  have horg := hlater.reachable.same_organization hcommit' hundo (Nat.le_of_lt hnm) hhold
  rw [hshared₀] at hcommit
  rw [hshared] at hmem hm hundo
  refine ⟨n, cmd, view, hcommit, hkey, hadds, e, hmem, hstmt, m, cmd', hnm, hme, hm, hundone, horg,
    ?_⟩
  exact hc.requested hundo

namespace Sample

/-- The call by which the hold is released at the console. -/
def deskRelease : SystemCall (String × String) :=
  .direct (.legalHold ("console", "alice") (.releaseHold ⟨"2", "h", "release", "org", "over"⟩))

/-- The call by which the guard is asked about `f`. -/
def deskCheck : SystemCall (String × String) :=
  .direct (.retentionGuard ("retention", "") ⟨"a", .delete, "cleanup", "f", "file", "bob"⟩)

/-- What happens after Alice has been answered: the hold is released, and the guard is asked. -/
def lifting : List agents.front.machine.Label :=
  .start deskRelease :: List.replicate 11 (.step 4 .done) ++
    .start deskCheck :: List.replicate 4 (.step 5 .done)

/-- The configuration in which the guard, asked after the release, has allowed the deletion. -/
def agentsLifted : agents.Config := (Machine.run agentsAgain lifting).getD agentsAgain

set_option maxRecDepth 8000 in
theorem agentsLifted_reaches : Machine.Reaches agentsAgain agentsLifted := ⟨lifting, rfl⟩

set_option maxRecDepth 8000 in
/-- All that has been asked to add is one scope. -/
theorem agentsAgain_adds {i : ℕ} {call : SystemCall (String × String)} {p}
    (hp : agentsAgain.procs[i]? = some ⟨call, p⟩) {input : ScopeRequest}
    (h : agents.opened call = some (.addScope input)) :
    agents.opened deskAddCall = some (.addScope input) := by
  have hcalls : agentsAgain.procs.map Machine.Proc.op =
      [.direct (.legalHold ("console", "alice")
        (.createHold ⟨"h", "create", "court", "org", "r", "t"⟩)), addCall, getCall, deskAddCall] :=
    rfl
  have hcall : (agentsAgain.procs.map Machine.Proc.op)[i]? = some call := by
    rw [List.getElem?_map, hp]
    rfl
  rw [hcalls] at hcall
  match i with
  | 0 =>
    cases hcall
    cases h
  | 1 =>
    cases hcall
    exact h
  | 2 =>
    cases hcall
    cases h
  | 3 =>
    cases hcall
    exact h
  | i + 4 => cases hcall

set_option maxRecDepth 8000 in
/-- Somebody who was authorized has lifted what Alice had added. -/
theorem agentsLifted_requested : ∃ cmd, (cmd.Removes "h" ⟨"file", "f", none⟩ ∨ cmd.Releases "h") ∧
    agents.Requested agentsLifted cmd := by
  have hfree : agents.CollisionFree agentsAgain := by
    intro i j call call' p p' input input' hi hj h h' _
    cases (agentsAgain_adds hi h).symm.trans (agentsAgain_adds hj h')
    rfl
  have hanswered : ∃ answer, agentsAgain.procs[3]? = some ⟨deskAddCall, some (.ret answer)⟩ ∧
      ∃ response, answer = .direct (.legalHold (.ok response)) := ⟨_, rfl, _, rfl⟩
  obtain ⟨answer, hanswer, response, rfl⟩ := hanswered
  have hdecided : ∃ d : GuardDecision, agentsLifted.procs[5]? =
      some ⟨deskCheck, some (.ret (.direct (.retentionGuard (.ok d))))⟩ ∧ d.allowed = true :=
    ⟨_, rfl, rfl⟩
  obtain ⟨d, hd, hallowed⟩ := hdecided
  have hadd : ∃ added, agents.opened deskAddCall = some (.addScope added) ∧ added.holdId = "h" ∧
      added.scope = ⟨"file", "f", none⟩ := ⟨_, rfl, rfl, rfl⟩
  obtain ⟨added, hopened, hhold, hscope⟩ := hadd
  have hcheck : agents.opened deskCheck = some (.checkRetention question) := rfl
  obtain ⟨-, -, -, -, -, -, -, -, -, -, cmd, -, -, -, hundone, -, hrequested⟩ :=
    acknowledged_scope_protects agents agentsAgain_reachable agentsLifted_reaches hfree hanswer
      hopened (by rintro ⟨e, he⟩; cases he) (by decide) hd hcheck (by rw [hscope]; decide) hallowed
  rw [hhold, hscope] at hundone
  exact ⟨cmd, hundone, hrequested⟩

end Sample

end LegalHold
