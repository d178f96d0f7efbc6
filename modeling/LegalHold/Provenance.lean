import LegalHold.Authorization
import LegalHold.Checks
import LegalHold.Instance

/-!
# Where stored rows come from

Every row of the database goes back to a call that was allowed to ask for it.  A hold row is
what the command that created it and the one that released it say; a scope row, an activity
row and a receipt are of one command each; a decision is that of a check.  The commands and
the checks are those of requests that have passed the gate of their handler and its
validation.

## Main definitions

* `Db.Sourced` — all rows go back to commands of some kind.
* `Instance.Requested`, `Instance.Asked` — the commands and the checks that calls of a run have
  asked for.
* `Db.Checked`, `DecisionRow.Checked` — the texts in the rows are within their bounds.

## Main results

* `stored_rows_requested` — **nothing is stored that was not asked for** by somebody who may.
* `stored_texts_checked` — **no text is stored that is out of bounds**.
-/

namespace LegalHold

open Interleave

/-! ### Rows and the commands behind them -/

/-- A hold row goes back to the command that created it and, when it has been released, to the
one that released it. -/
structure HoldRow.Sourced (P : Command → Prop) (row : HoldRow) : Prop where
  created : ∃ cmd, P cmd ∧ cmd.holdId = row.holdId ∧ cmd.organizationId = row.organizationId ∧
    cmd.actor = row.createdBy ∧ cmd.change = .create row.title row.reason row.legalAuthority
  released : (row.releasedBy = none ∧ row.releaseReason = none) ∨
    ∃ cmd reason revision, P cmd ∧ cmd.holdId = row.holdId ∧
      cmd.organizationId = row.organizationId ∧ cmd.change = .release reason revision ∧
      row.releasedBy = some cmd.actor ∧ row.releaseReason = some reason

/-- A scope row goes back to the command that added it, for the organization of its hold. -/
def Db.SourcedScope (db : Db) (P : Command → Prop) (row : ScopeRow) : Prop :=
  ∃ cmd hold revision, P cmd ∧ cmd.holdId = row.holdId ∧ cmd.actor = row.createdBy ∧
    cmd.change = .addScope row.toScope revision ∧ db.hold? row.holdId = some hold ∧
    cmd.organizationId = hold.organizationId

/-- Every row of the tables goes back to a command with the property `P`. -/
structure Db.Sourced (P : Command → Prop) (db : Db) : Prop where
  holds : ∀ row ∈ db.holds, row.Sourced P
  scopes : ∀ row ∈ db.scopes, db.SourcedScope P row
  activity : ∀ row ∈ db.activity, ∃ cmd, P cmd ∧ row = cmd.activity row.activityId row.createdAt
  commands : ∀ row ∈ db.commands, ∃ cmd view, P cmd ∧ row = cmd.receipt view row.createdAt

section

variable {P : Command → Prop} {db : Db} {ws : List Write}

/-! ### Rows after some writes -/

/-- A hold row after some writes was there or is one of theirs. -/
theorem Db.mem_holds_putAll {row : HoldRow} :
    ∀ {db : Db}, row ∈ (db.putAll ws).holds →
      row ∈ db.holds ∨ .insertHold row ∈ ws ∨ .updateHold row ∈ ws := by
  induction ws with
  | nil => exact .inl
  | cons w ws ih =>
    intro db hrow
    rcases ih hrow with hrow | hrow | hrow
    · cases w with
      | insertHold new =>
        rcases List.mem_append.mp hrow with hrow | hrow
        · exact .inl hrow
        · obtain rfl := List.mem_singleton.mp hrow
          exact .inr (.inl List.mem_cons_self)
      | updateHold new =>
        obtain ⟨old, hold, rfl⟩ := List.mem_map.mp hrow
        split
        · exact .inr (.inr List.mem_cons_self)
        · exact .inl hold
      | _ => exact .inl hrow
    · exact .inr (.inl (List.mem_cons_of_mem w hrow))
    · exact .inr (.inr (List.mem_cons_of_mem w hrow))

/-- A scope row that is there after some writes was there before, or has been inserted by one of
them. -/
theorem Db.mem_scopes_putAll {row : ScopeRow} :
    ∀ {db : Db}, row ∈ (db.putAll ws).scopes → row ∈ db.scopes ∨ .insertScope row ∈ ws := by
  induction ws with
  | nil => exact .inl
  | cons w ws ih =>
    intro db hrow
    rcases ih hrow with hrow | hrow
    · cases w with
      | insertScope new =>
        rcases List.mem_append.mp hrow with hrow | hrow
        · exact .inl hrow
        · obtain rfl := List.mem_singleton.mp hrow
          exact .inr List.mem_cons_self
      | deleteScope h scope => exact .inl (List.mem_filter.mp hrow).1
      | _ => exact .inl hrow
    · exact .inr (List.mem_cons_of_mem w hrow)

/-- A hold row keeps its origin when the revision is advanced. -/
theorem HoldRow.Sourced.advanced {row : HoldRow} (h : row.Sourced P) : row.advanced.Sourced P :=
  ⟨h.created, h.released⟩

/-- What a change makes of the hold rows goes back to the commands before it and to its own. -/
theorem Changes.sourced_holds {c : Command} {now : Time} (h : Changes db c now ws) (hc : P c)
    (hdb : ∀ row ∈ db.holds, row.Sourced P) {row : HoldRow}
    (hrow : .insertHold row ∈ ws ∨ .updateHold row ∈ ws) : row.Sourced P := by
  have hfound : ∀ {revision : Int} {old : HoldRow}, db.Open c revision old → old.Sourced P :=
    fun opened => hdb _ (List.mem_of_find?_eq_some opened.found)
  cases h with
  | @create title reason legalAuthority change absent =>
    simp only [List.mem_singleton, Write.insertHold.injEq, reduceCtorEq, or_false] at hrow
    subst hrow
    exact ⟨⟨c, hc, rfl, rfl, rfl, change⟩, .inl ⟨rfl, rfl⟩⟩
  | addScope change opened absent drawn =>
    simp only [List.mem_cons, reduceCtorEq, List.not_mem_nil, or_false, false_or,
      Write.updateHold.injEq] at hrow
    subst hrow
    exact (hfound opened).advanced
  | removeScope change opened present =>
    simp only [List.mem_cons, reduceCtorEq, List.not_mem_nil, or_false, false_or,
      Write.updateHold.injEq] at hrow
    subst hrow
    exact (hfound opened).advanced
  | @release reason revision old change opened =>
    simp only [List.mem_singleton, Write.updateHold.injEq, reduceCtorEq, false_or] at hrow
    subst hrow
    -- The row is that of the hold the command has named, in its organization.
    have hid := Db.holdId_of_hold? opened.found
    exact ⟨(hfound opened).created, .inr ⟨c, reason, revision, hc, hid.symm,
      opened.organization.symm, change, rfl, rfl⟩⟩

variable [Backend]

/-- **A mutation adds rows of its own command only.** -/
theorem Mutation.sourced {t : Tx} {c : Command} {activityId : Int} {view : HoldView}
    (h : Mutation db t c ws activityId view) (hc : P c) (hdb : db.Sourced P) :
    (db.putAll t.writes).Sourced P := by
  have hmem : ∀ w ∈ t.writes, w ∈ ws ∨ w = .insertActivity (c.activity activityId t.startedAt) ∨
      w = .insertCommand (c.receipt view t.startedAt) := by
    intro w hw
    rw [h.writes] at hw
    simpa using hw
  constructor
  case holds =>
    intro row hrow
    rcases Db.mem_holds_putAll hrow with hrow | hrow
    · exact hdb.holds row hrow
    · refine h.changed.sourced_holds hc hdb.holds (hrow.imp (fun hw => ?_) fun hw => ?_)
      · simpa using hmem _ hw
      · simpa using hmem _ hw
  case scopes =>
    intro row hrow
    rcases Db.mem_scopes_putAll hrow with hrow | hrow
    -- An old one, whose hold is still in its organization.
    · obtain ⟨cmd, hold, revision, hcmd, hid, hactor, hchange, hhold, horg⟩ := hdb.scopes row hrow
      obtain ⟨hold', hhold', horigin⟩ := h.origin_eq hhold
      exact ⟨cmd, hold', revision, hcmd, hid, hactor, hchange, hhold',
        horg.trans (congrArg Prod.fst horigin).symm⟩
    · have hw : .insertScope row ∈ ws := by simpa using hmem _ hrow
      obtain ⟨hold, hhold, horg⟩ := h.changed.found
      rw [← (h.putAll_writes c.holdId).1] at hhold
      cases h.changed with
      | @addScope scope revision scopeRowId old change opened absent drawn =>
        simp only [List.mem_cons, Write.insertScope.injEq, reduceCtorEq, List.not_mem_nil,
          or_false] at hw
        subst hw
        exact ⟨c, hold, revision, hc, rfl, rfl, change, hhold, horg.symm⟩
      | create => simp at hw
      | removeScope => simp at hw
      | release => simp at hw
  case activity =>
    intro row hrow
    rcases Db.mem_activity_putAll hrow with hrow | hrow
    · exact hdb.activity row hrow
    · have hnone : .insertActivity row ∉ ws := by
        intro hw
        cases h.changed <;> simp at hw
      have hrow : row = c.activity activityId t.startedAt := by
        simpa [hnone] using hmem _ hrow
      subst hrow
      exact ⟨c, hc, rfl⟩
  case commands =>
    intro row hrow
    rw [h.commands_eq] at hrow
    rcases List.mem_append.mp hrow with hrow | hrow
    · exact hdb.commands row hrow
    · obtain rfl := List.mem_singleton.mp hrow
      exact ⟨c, view, hc, rfl⟩

/-- The rows after the first commits of a run go back to commands of the run. -/
theorem Reachable.sourced_asOf {c : Config} (h : Reachable c)
    (hP : ∀ n cmd view, c.shared.Commit n cmd view → P cmd) {m : ℕ}
    (hm : m ≤ c.shared.log.length) : (c.shared.asOf m).Sourced P := by
  have hempty : (c.shared.asOf 0).Sourced P :=
    ⟨fun row hrow => (List.not_mem_nil hrow).elim, fun row hrow => (List.not_mem_nil hrow).elim,
      fun row hrow => (List.not_mem_nil hrow).elim, fun row hrow => (List.not_mem_nil hrow).elim⟩
  refine h.commit_induction_from (P := fun n => (c.shared.asOf n).Sourced P) hempty ?_
    (Nat.zero_le _) hm
  intro n t cmd ws activityId view _ ih hcommit hmutation hsucc
  rw [hsucc]
  exact hmutation.sourced (hP n cmd view hcommit) ih

/-- **All rows go back to the commits** of the run. -/
theorem Reachable.sourced {c : Config} (h : Reachable c)
    (hP : ∀ n cmd view, c.shared.Commit n cmd view → P cmd) : c.shared.db.Sourced P := by
  rw [h.db_eq]
  exact h.sourced_asOf hP (Nat.le_refl _)

end

/-! ### Calls and what they have asked for -/

/-- The permission that the operation of a change asks for. -/
def Change.permission : Change → String
  | .release .. => "legal-hold.release"
  | _ => "legal-hold.write"

section

variable [Backend]

/-- The command of a request is for its caller, its actor and its organization. -/
theorem AdminRequest.op?_permission {r : AdminRequest} {caller actor : String} {op : Op}
    {cmd : Command} (h : r.op? caller actor = some op) (hcmd : op.command? = some cmd) :
    cmd.caller = caller ∧ cmd.actor = actor ∧ cmd.organizationId = r.organizationId ∧
      cmd.change.permission = r.permission := by
  cases r with
  | createHold r =>
    obtain ⟨i, hi, rfl⟩ := Option.map_eq_some_iff.mp h
    rw [(CreateHoldRequest.input?_eq_some.mp hi).2] at hcmd
    cases hcmd
    exact ⟨rfl, rfl, rfl, rfl⟩
  | addScope r =>
    obtain ⟨i, hi, rfl⟩ := Option.map_eq_some_iff.mp h
    obtain ⟨hcaller, hactor, horg, -⟩ := MutateScopeRequest.input?_eq_some hi
    cases hcmd
    exact ⟨hcaller, hactor, horg, rfl⟩
  | removeScope r =>
    obtain ⟨i, hi, rfl⟩ := Option.map_eq_some_iff.mp h
    obtain ⟨hcaller, hactor, horg, -⟩ := MutateScopeRequest.input?_eq_some hi
    cases hcmd
    exact ⟨hcaller, hactor, horg, rfl⟩
  | releaseHold r =>
    obtain ⟨i, hi, rfl⟩ := Option.map_eq_some_iff.mp h
    obtain ⟨revision, -, rfl⟩ := ReleaseHoldRequest.input?_eq_some hi
    cases hcmd
    exact ⟨rfl, rfl, rfl, rfl⟩
  -- Reads are no commands.
  | getHold r =>
    rw [GetHoldRequest.op?_eq_some h] at hcmd
    cases hcmd
  | listHolds r =>
    rw [(ListHoldsRequest.op?_eq_some.mp h).2] at hcmd
    cases hcmd
  | listActivity r =>
    obtain ⟨-, after, -, -, rfl⟩ := ListActivityRequest.op?_eq_some.mp h
    cases hcmd

omit [Backend] in
/-- The input of a check is for its caller and its action. -/
theorem CheckRetentionRequest.input?_eq_some {r : CheckRetentionRequest} {caller : String}
    {input : RetentionCheck} (h : r.input? caller = some input) :
    validId r.actionId = true ∧ input.actionId = r.actionId ∧ input.caller = caller := by
  unfold input? at h
  split at h
  · cases h
  · next hchecked =>
    simp only [Bool.or_eq_true, Bool.not_eq_true', not_or, Bool.not_eq_false] at hchecked
    cases h
    exact ⟨hchecked.1.1.1.1, rfl, rfl⟩

namespace Instance

variable {Ctx : Type} (inst : Instance Ctx)

/-- A call of the run has asked for the command: its request is valid, and the gate has found
its caller configured and its actor a member of the organization with the permission that the
change needs. -/
def Requested (c : inst.Config) (cmd : Command) : Prop :=
  ∃ (i : ℕ) (ctx : Ctx) (r : AdminRequest) (p : _) (op : Op),
    c.procs[i]? = some ⟨.legalHold ctx r, p⟩ ∧
    r.op? cmd.caller cmd.actor = some op ∧ op.command? = some cmd ∧
    inst.plugin.Authorized ctx r.operation cmd.organizationId cmd.change.permission cmd.caller
      cmd.actor

/-- A call of the run has asked for the check: its request is valid, and its caller is
configured for the guard. -/
def Asked (c : inst.Config) (input : RetentionCheck) : Prop :=
  ∃ (i : ℕ) (ctx : Ctx) (r : CheckRetentionRequest) (p : _),
    c.procs[i]? = some ⟨.retentionGuard ctx r, p⟩ ∧
    r.input? input.caller = some input ∧ inst.plugin.callerInstance ctx = some input.caller ∧
    input.caller ∈ inst.plugin.config.guardCallers

variable {inst} {c : inst.Config} {c' : LegalHold.Config}

/-- A session of the storage that has left a trace is that of a call. -/
theorem asked_of_known (hproj : inst.front.Projects Silent c c') {i : Session Op}
    (hi : Config.Known c' i) (hloud : ¬ Silent ⟨i.id, idleOp⟩ c.shared.2) :
    ∃ call p, c.procs[i.id]? = some ⟨call, p⟩ ∧ inst.plugin.asked call = some i.op := by
  obtain ⟨⟨op, q⟩, hq, hop⟩ := hi
  have hlt : i.id < c.procs.length := by
    rw [← hproj.length]
    exact (List.getElem?_eq_some_iff.mp hq).1
  obtain ⟨⟨call, p⟩, hp⟩ : ∃ s, c.procs[i.id]? = some s := ⟨_, List.getElem?_eq_getElem hlt⟩
  rcases Reachable.calls hproj hp with ⟨hsilent, -⟩ | ⟨op', q', hasked, hq', -⟩
  · exact absurd hsilent hloud
  · rw [hq] at hq'
    cases hq'
    obtain rfl : op = i.op := hop
    exact ⟨call, p, hp, hasked⟩

/-- **Every commit has been asked for** by a call of the run that was authorized. -/
theorem requested_of_commit (hc' : LegalHold.Reachable c')
    (hproj : inst.front.Projects Silent c c') {n : ℕ} {cmd : Command} {view : HoldView}
    (hcommit : c'.shared.Commit n cmd view) : inst.Requested c cmd := by
  obtain ⟨t, hn, hcmd, -⟩ := hcommit
  have ht := List.mem_of_getElem? hn
  have hloud : ¬ Silent ⟨t.owner.id, idleOp⟩ c.shared.2 := by
    rw [← hproj.shared]
    exact fun hsilent => hsilent.2.1 t ht rfl
  obtain ⟨call, p, hp, hasked⟩ := asked_of_known hproj (hc'.owned.log t ht) hloud
  cases call with
  | legalHold ctx r =>
    obtain ⟨caller, actor, hgate, hop⟩ := Plugin.asked_legalHold.mp hasked
    obtain ⟨rfl, rfl, horg, hpermission⟩ := AdminRequest.op?_permission hop hcmd
    refine ⟨t.owner.id, ctx, r, p, _, hp, hop, hcmd, ?_⟩
    rw [horg, hpermission]
    exact Plugin.authorizeAdmin_eq_ok_iff.mp hgate
  -- A check is no command.
  | retentionGuard ctx r =>
    obtain ⟨caller, input, -, -, hop⟩ := Plugin.asked_retentionGuard.mp hasked
    rw [hop] at hcmd
    cases hcmd

/-- **Every decision has been asked for** by a check of the run, and says what the check has
found. -/
theorem asked_of_decision (hc' : LegalHold.Reachable c')
    (hproj : inst.front.Projects Silent c c') {row : DecisionRow}
    (hrow : row ∈ c'.shared.decisions) :
    ∃ input n, inst.Asked c input ∧ n ≤ c'.shared.log.length ∧
      row = guardRow input (input.found (c'.shared.asOf n)) row.evaluatedAt := by
  obtain ⟨j, input, q, n, f, m, hq, -, hevents, heq⟩ := hc'.proposed hrow
  have hmem : (⟨⟨j, .checkRetention input⟩, input.query, .done, n⟩ : Event) ∈
      c'.shared.eventsOf ⟨j, .checkRetention input⟩ := by
    rw [hevents]
    exact List.mem_cons_self
  have htrace := (List.mem_filter.mp hmem).1
  -- The session has left a statement in the trace, and so its call was passed on.
  have hloud : ¬ Silent ⟨j, idleOp⟩ c.shared.2 := by
    rw [← hproj.shared]
    exact fun hsilent => hsilent.2.2 _ htrace rfl
  obtain ⟨call, p, hp, hasked⟩ :=
    asked_of_known hproj (i := ⟨j, .checkRetention input⟩) ⟨_, hq, rfl⟩ hloud
  refine ⟨input, n, ?_, hc'.inv.seen_le hmem, heq⟩
  cases call with
  | legalHold ctx r =>
    obtain ⟨caller, actor, -, hop⟩ := Plugin.asked_legalHold.mp hasked
    have horg := AdminRequest.op?_organization hop
    cases horg
  | retentionGuard ctx r =>
    obtain ⟨caller, input', hcaller, hinput, hop⟩ := Plugin.asked_retentionGuard.mp hasked
    obtain ⟨hcalled, hmem⟩ := Plugin.allowedCaller_eq_some_iff.mp hcaller
    cases hop
    obtain ⟨-, -, rfl⟩ := CheckRetentionRequest.input?_eq_some hinput
    exact ⟨j, ctx, r, p, hp, hinput, hcalled, hmem⟩

end Instance

/-- **Nothing is stored that was not asked for by somebody who may.**  In every run of an
instance each stored row goes back to calls of the run: a hold to the requests that created and
released it, a scope, an activity row and a receipt to one request each, all of them valid and
let pass by the gate for the organization of the hold, with the permission for that kind of
change; a decision to a valid request of a configured caller, of which it is the evaluation at
some commit. -/
theorem stored_rows_requested {Ctx : Type} (inst : Instance Ctx) {c : inst.Config}
    (h : inst.Reachable c) :
    c.shared.2.db.Sourced (inst.Requested c) ∧
      ∀ row ∈ c.shared.2.decisions, ∃ input n, inst.Asked c input ∧
        n ≤ c.shared.2.log.length ∧
        row = guardRow input (input.found (c.shared.2.asOf n)) row.evaluatedAt := by
  obtain ⟨c', hc', hproj⟩ := h.projects
  rw [← hproj.shared]
  exact ⟨hc'.sourced fun n cmd view hcommit => Instance.requested_of_commit hc' hproj hcommit,
    fun row hrow => Instance.asked_of_decision hc' hproj hrow⟩

end

namespace Sample

/-- Alice may write in the organization of the hold that is stored. -/
theorem desk_requested : ∃ row ∈ deskAfter.shared.2.db.holds, ∃ cmd,
    desk.Requested deskAfter cmd ∧ cmd.holdId = row.holdId ∧ cmd.actor = row.createdBy := by
  refine ⟨_, List.mem_singleton.mpr rfl, ?_⟩
  obtain ⟨cmd, hcmd, hid, -, hactor, -⟩ :=
    ((stored_rows_requested desk desk_reachable).1.holds _ (List.mem_singleton.mpr rfl)).created
  exact ⟨cmd, hcmd, hid, hactor⟩

end Sample

/-! ### Texts within their bounds -/

/-- What has been checked of the texts of a scope. -/
def Scope.Checked (scope : Scope) : Prop :=
  validText scope.scopeKind 128 false = true ∧ validId scope.scopeId = true ∧
    ∀ subject ∈ scope.subject, validId subject = true

/-- What has been checked of the texts of a change. -/
def Change.Checked : Change → Prop
  | .create title reason legalAuthority =>
    validText title maxShortTextBytes false = true ∧
      validText reason maxReasonBytes false = true ∧
      validText legalAuthority maxShortTextBytes false = true
  | .addScope scope revision => scope.Checked ∧ 0 < revision
  | .removeScope scope revision => scope.Checked ∧ 0 < revision
  | .release reason revision => validText reason maxReasonBytes false = true ∧ 0 < revision

/-- What has been checked of the texts of a command: who asks, for which organization and hold,
under which key, and for what. -/
structure Command.Checked (cmd : Command) : Prop where
  caller : validIdentifier cmd.caller 256 = true
  actor : validId cmd.actor = true
  organizationId : validId cmd.organizationId = true
  holdId : validId cmd.holdId = true
  idempotencyKey : validIdempotencyKey cmd.idempotencyKey = true
  change : cmd.change.Checked

/-- The texts of a hold row satisfy the checks that the handlers make of a request. -/
structure HoldRow.Checked (row : HoldRow) : Prop where
  holdId : validId row.holdId = true
  organizationId : validId row.organizationId = true
  title : validText row.title maxShortTextBytes false = true
  reason : validText row.reason maxReasonBytes false = true
  legalAuthority : validText row.legalAuthority maxShortTextBytes false = true
  createdBy : validId row.createdBy = true
  releasedBy : ∀ actor ∈ row.releasedBy, validId actor = true
  releaseReason : ∀ reason ∈ row.releaseReason, validText reason maxReasonBytes false = true

/-- The texts that a view shows of its hold and its scopes are within their bounds. -/
structure HoldView.Checked (view : HoldView) : Prop where
  holdId : validId view.holdId = true
  organizationId : validId view.organizationId = true
  title : validText view.title maxShortTextBytes false = true
  reason : validText view.reason maxReasonBytes false = true
  legalAuthority : validText view.legalAuthority maxShortTextBytes false = true
  createdBy : validId view.createdBy = true
  releasedBy : ∀ actor ∈ view.releasedBy, validId actor = true
  releaseReason : ∀ reason ∈ view.releaseReason, validText reason maxReasonBytes false = true
  scopes : ∀ s ∈ view.scopes, Scope.Checked ⟨s.scopeKind, s.scopeId, s.subject⟩

/-- The texts of a scope row satisfy the checks that the handlers make of a request. -/
def ScopeRow.Checked (row : ScopeRow) : Prop :=
  validId row.holdId = true ∧ validId row.createdBy = true ∧ row.toScope.Checked

/-- The texts of the rows are within their bounds, those in the view of a receipt included. -/
structure Db.Checked (db : Db) : Prop where
  holds : ∀ row ∈ db.holds, row.Checked
  scopes : ∀ row ∈ db.scopes, row.Checked
  activity : ∀ row ∈ db.activity, validId row.organizationId = true ∧
    validId row.holdId = true ∧ validId row.actorSubject = true ∧
    ∃ change : Change, change.Checked ∧ row.kind = change.kind ∧ row.payload = change.payload
  commands : ∀ row ∈ db.commands, validIdentifier row.callerInstance 256 = true ∧
    validId row.actorSubject = true ∧ validIdempotencyKey row.idempotencyKey = true ∧
    ∃ view : HoldView, row.response = view.toValue ∧ view.Checked

/-- The texts of a decision, which are those of its check, are within their bounds. -/
structure DecisionRow.Checked (row : DecisionRow) : Prop where
  actionId : validId row.actionId = true
  callerInstance : validIdentifier row.callerInstance 256 = true

/-- A hold row of checked commands is checked. -/
theorem HoldRow.Sourced.checked {row : HoldRow} (h : row.Sourced Command.Checked) :
    row.Checked := by
  obtain ⟨⟨cmd, hcmd, hid, horg, hactor, hchange⟩, hreleased⟩ := h
  have hcreated := hcmd.change
  rw [hchange] at hcreated
  refine ⟨hid ▸ hcmd.holdId, horg ▸ hcmd.organizationId, hcreated.1, hcreated.2.1,
    hcreated.2.2, hactor ▸ hcmd.actor, fun actor hmem => ?_, fun reason hmem => ?_⟩
  · rcases hreleased with ⟨hnone, -⟩ | ⟨cmd', reason, revision, hcmd', -, -, -, hby, -⟩
    · rw [hnone] at hmem
      cases hmem
    · rw [hby] at hmem
      cases hmem
      exact hcmd'.actor
  · rcases hreleased with ⟨-, hnone⟩ | ⟨cmd', reason', revision, hcmd', -, -, hrelease, -, hwhy⟩
    · rw [hnone] at hmem
      cases hmem
    · rw [hwhy] at hmem
      cases hmem
      have hchecked := hcmd'.change
      rw [hrelease] at hchecked
      exact hchecked.1

/-- A scope row of a checked command is checked. -/
theorem Db.SourcedScope.checked {db : Db} {row : ScopeRow}
    (h : db.SourcedScope Command.Checked row) : row.Checked := by
  obtain ⟨cmd, hold, revision, hcmd, hid, hactor, hchange, -⟩ := h
  have hchecked := hcmd.change
  rw [hchange] at hchecked
  exact ⟨hid ▸ hcmd.holdId, hactor ▸ hcmd.actor, hchecked.1⟩

/-- Rows of checked commands are checked, if the views in the receipts are. -/
theorem Db.Sourced.checked {db : Db} (h : db.Sourced Command.Checked)
    (hviews : ∀ row ∈ db.commands, ∃ view : HoldView, row.response = view.toValue ∧
      view.Checked) : db.Checked where
  holds row hrow := (h.holds row hrow).checked
  scopes row hrow := (h.scopes row hrow).checked
  activity row hrow := by
    obtain ⟨cmd, hcmd, heq⟩ := h.activity row hrow
    rw [heq]
    exact ⟨hcmd.organizationId, hcmd.holdId, hcmd.actor, cmd.change, hcmd.change, rfl, rfl⟩
  commands row hrow := by
    obtain ⟨cmd, view, hcmd, heq⟩ := h.commands row hrow
    have hview := hviews row hrow
    rw [heq] at hview ⊢
    exact ⟨hcmd.caller, hcmd.actor, hcmd.idempotencyKey, hview⟩

section

variable [Backend]

/-- A view shows the texts of the rows from which it was made. -/
theorem holdView_checked {row : HoldRow} {rows : List ScopeRow} {view : HoldView}
    (hrow : row.Checked) (hrows : ∀ s ∈ rows, s.Checked) (h : holdView row rows = .ok view) :
    view.Checked := by
  obtain ⟨scopes, createdAt, releasedAt, hscopes, -, -, rfl⟩ := holdView_eq_ok.mp h
  refine ⟨hrow.holdId, hrow.organizationId, hrow.title, hrow.reason, hrow.legalAuthority,
    hrow.createdBy, hrow.releasedBy, hrow.releaseReason, fun s hs => ?_⟩
  obtain ⟨r, hr, hmade⟩ := mem_of_mapM hscopes hs
  obtain ⟨text, -, hmade⟩ := bind_eq_ok.mp hmade
  cases hmade
  exact (hrows r hr).2.2

/-- **The views in the receipts are checked**, since each of them was made from the rows that its
own commit has left behind. -/
theorem Reachable.receipts_checked {c : Config} (h : Reachable c)
    (hchecked : ∀ n cmd view, c.shared.Commit n cmd view → cmd.Checked) :
    ∀ row ∈ c.shared.db.commands, ∃ view : HoldView, row.response = view.toValue ∧
      view.Checked := by
  rw [h.db_eq]
  refine h.commit_induction_from (k := 0) (P := fun n => ∀ row ∈ (c.shared.asOf n).commands,
    ∃ view : HoldView, row.response = view.toValue ∧ view.Checked) ?_ ?_ (Nat.zero_le _)
    (Nat.le_refl _)
  · exact fun row hrow => (List.not_mem_nil hrow).elim
  · intro n t cmd ws activityId view _ ih hcommit hmutation hsucc row hrow
    rw [hsucc, hmutation.commands_eq] at hrow
    rcases List.mem_append.mp hrow with hrow | hrow
    · exact ih row hrow
    · obtain rfl := List.mem_singleton.mp hrow
      have hsourced := h.sourced_asOf hchecked (Server.commit_lt hcommit)
      have hview := hmutation.view
      rw [← hsucc] at hview
      obtain ⟨found, hfound, -, hmade⟩ := Db.loadHold_eq_ok.mp hview
      refine ⟨view, rfl, holdView_checked ?_ (fun s hs => ?_) hmade⟩
      · exact (hsourced.holds found (List.mem_of_find?_eq_some hfound)).checked
      · exact (hsourced.scopes s (Db.mem_sortedScopes.mp hs).1).checked

/-- What is checked of a request holds of its command. -/
theorem AdminRequest.op?_checked {r : AdminRequest} {caller actor : String} {op : Op}
    {cmd : Command} (h : r.op? caller actor = some op) (hcmd : op.command? = some cmd) :
    validId cmd.organizationId = true ∧ validId cmd.holdId = true ∧
      validIdempotencyKey cmd.idempotencyKey = true ∧ cmd.change.Checked := by
  have hscope : ∀ {r : MutateScopeRequest} {i : ScopeRequest}, r.input? caller actor = some i →
      validId i.organizationId = true ∧ validId i.holdId = true ∧
        validIdempotencyKey i.idempotencyKey = true ∧ i.scope.Checked ∧
        0 < i.expectedRevision := by
    intro r i hi
    obtain ⟨-, horg, hid, hkind, hscope, hsubject, hkey⟩ :=
      MutateScopeRequest.input?_ne_none_iff.mp (Option.ne_none_iff_exists'.mpr ⟨i, hi⟩)
    obtain ⟨revision, hrevision, hi⟩ := Option.bind_eq_some_iff.mp hi
    split at hi
    · cases hi
    · cases hi
      exact ⟨horg, hid, hkey, ⟨hkind, hscope, hsubject⟩, (parseRevision_eq_some.mp hrevision).2⟩
  cases r with
  | createHold r =>
    obtain ⟨i, hi, rfl⟩ := Option.map_eq_some_iff.mp h
    obtain ⟨⟨horg, hid, htitle, hreason, hauthority, hkey⟩, rfl⟩ :=
      CreateHoldRequest.input?_eq_some.mp hi
    cases hcmd
    exact ⟨horg, hid, hkey, htitle, hreason, hauthority⟩
  | addScope r =>
    obtain ⟨i, hi, rfl⟩ := Option.map_eq_some_iff.mp h
    cases hcmd
    exact hscope hi
  | removeScope r =>
    obtain ⟨i, hi, rfl⟩ := Option.map_eq_some_iff.mp h
    cases hcmd
    exact hscope hi
  | releaseHold r =>
    obtain ⟨i, hi, rfl⟩ := Option.map_eq_some_iff.mp h
    obtain ⟨-, horg, hid, hreason, hkey⟩ :=
      ReleaseHoldRequest.input?_ne_none_iff.mp (Option.ne_none_iff_exists'.mpr ⟨i, hi⟩)
    obtain ⟨revision, hrevision, rfl⟩ := ReleaseHoldRequest.input?_eq_some hi
    cases hcmd
    exact ⟨horg, hid, hkey, hreason, (parseRevision_eq_some.mp hrevision).2⟩
  -- Reads are no commands.
  | getHold r =>
    rw [GetHoldRequest.op?_eq_some h] at hcmd
    cases hcmd
  | listHolds r =>
    rw [(ListHoldsRequest.op?_eq_some.mp h).2] at hcmd
    cases hcmd
  | listActivity r =>
    obtain ⟨-, after, -, -, rfl⟩ := ListActivityRequest.op?_eq_some.mp h
    cases hcmd

namespace Instance

variable {Ctx : Type} (inst : Instance Ctx)

omit [Backend] in
/-- The callers of an accepted configuration are valid names. -/
theorem caller_valid {caller : String}
    (h : caller ∈ inst.plugin.config.adminCallers ∨ caller ∈ inst.plugin.config.guardCallers) :
    validIdentifier caller 256 = true := by
  have hall := Configuration.validateConfig_eq_ok_iff.mp inst.accepted
  rw [inst.configured] at h
  rcases h with h | h
  · have hbad := hall .invalidAdminCallers
    by_contra hinvalid
    exact hbad (.inr (.inr (.inl ⟨caller, h, by simpa using hinvalid⟩)))
  · have hbad := hall .invalidGuardCallers
    by_contra hinvalid
    exact hbad (.inr (.inr (.inl ⟨caller, h, by simpa using hinvalid⟩)))

variable {inst} {c : inst.Config}

theorem Requested.checked {cmd : Command} (h : inst.Requested c cmd) : cmd.Checked := by
  obtain ⟨i, ctx, r, p, op, -, hop, hcmd, hauthorized⟩ := h
  obtain ⟨horg, hid, hkey, hchange⟩ := AdminRequest.op?_checked hop hcmd
  exact ⟨inst.caller_valid (.inl hauthorized.configured), hauthorized.valid, horg, hid, hkey,
    hchange⟩

end Instance

/-- **No text is stored that is out of bounds**: in every run of an instance the texts that
callers have sent and that are stored in hold, scope, activity and receipt rows, of tables that
declare no bound at all, are within the bounds of the requests and of the configuration, with no
control characters.  The payload of an activity row is that of a change so checked, and the
response of a receipt is that of a view so checked; of a decision this is said of the caller and
of the action. -/
theorem stored_texts_checked {Ctx : Type} (inst : Instance Ctx) {c : inst.Config}
    (h : inst.Reachable c) :
    c.shared.2.db.Checked ∧ ∀ row ∈ c.shared.2.decisions, row.Checked := by
  obtain ⟨c', hc', hproj⟩ := h.projects
  rw [← hproj.shared]
  have hchecked : ∀ n cmd view, c'.shared.Commit n cmd view → cmd.Checked :=
    fun n cmd view hcommit => (Instance.requested_of_commit hc' hproj hcommit).checked
  refine ⟨(hc'.sourced hchecked).checked (hc'.receipts_checked hchecked), fun row hrow => ?_⟩
  obtain ⟨input, n, ⟨i, ctx, r, p, -, hinput, -, hcaller⟩, -, heq⟩ :=
    Instance.asked_of_decision hc' hproj hrow
  obtain ⟨haction, hinputAction, -⟩ := CheckRetentionRequest.input?_eq_some hinput
  rw [← hinputAction] at haction
  rw [heq]
  exact ⟨haction, inst.caller_valid (.inr hcaller)⟩

end

namespace Sample

/-- The stored hold and the view in its receipt are within their bounds. -/
theorem desk_checked : deskAfter.shared.2.db.holds ≠ [] ∧ deskAfter.shared.2.db.commands ≠ [] ∧
    deskAfter.shared.2.db.Checked :=
  ⟨by decide, nofun, (stored_texts_checked desk desk_reachable).1⟩

end Sample

end LegalHold
