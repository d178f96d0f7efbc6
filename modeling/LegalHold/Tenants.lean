import LegalHold.Failures
import LegalHold.Handlers
import LegalHold.Receipts
import LegalHold.Tailing

/-!
# Organizations

Statements select the rows of a hold by its id alone, and receipts are kept
under caller and actor, not under an organization.  That an operation stays
within its organization rests on three things: the row is locked under both id
and organization, a hold belongs to one organization for ever, and a receipt is
replayed only for the request it was written for, which names the organization.

## Main definitions

* `Requested` — every operation of the run was asked for, and the digests of
  the requests do not collide.
* `Response.About` — the response is about the organization and the hold of the
  request.

## Main results

* `Reachable.step_tenant` — a step of a session leaves the holds of other
  organizations as they are.
* `Reachable.replayed_target` — a replayed view is of the hold asked for.
* `tenant_integrity` — **every operation stays within its organization**.
-/

namespace LegalHold

open Interleave

/-- The hold that a request is about, if it is about one. -/
def AdminRequest.holdId? : AdminRequest → Option String
  | .createHold r => some r.holdId
  | .getHold r => some r.holdId
  | .listHolds _ => none
  | .addScope r => some r.holdId
  | .removeScope r => some r.holdId
  | .releaseHold r => some r.holdId
  | .listActivity r => some r.holdId

section

variable [Backend]

/-- What the run is asked to do: each operation by some request, and no two values hashed for
them with the same digest. -/
structure Requested (c : Config) : Prop where
  issued : ∀ {i : Session Op}, Config.Known c i → i.op.Issued
  collisionFree : ∀ {i j : Session Op} {v w : Json}, Config.Known c i → Config.Known c j →
    i.op.HashedFrom v → j.op.HashedFrom w → Backend.digest v = Backend.digest w → v = w

/-- The response is about the organization and the hold of the request: its views are of them,
and its events are what activity rows of them report. -/
def Response.About (db : Db) (r : AdminRequest) : Response → Prop
  | .hold view => view.organizationId = r.organizationId ∧ r.holdId? = some view.holdId
  | .holds response => ∀ view ∈ response.holds, view.organizationId = r.organizationId
  | .activity response => ∀ event ∈ response.events, ∃ row ∈ db.activity,
    row.organizationId = r.organizationId ∧ r.holdId? = some row.holdId ∧
      activityView row = .ok event

variable {c : Config}

/-! ### What an operation changes -/

omit [Backend] in
/-- A command is about the organization of its operation. -/
theorem Op.organization_command {op : Op} {cmd : Command} (h : op.command? = some cmd) :
    op.organization? = some cmd.organizationId := by
  cases op <;> cases h <;> rfl

/-- **A mutation leaves the holds of other organizations as they are.** -/
theorem Mutation.other_organization {db : Db} {t : Tx} {cmd : Command} {ws : List Write}
    {activityId : Int} {view : HoldView} (h : Mutation db t cmd ws activityId view)
    {hold : String} {row : HoldRow}
    (hrow : db.hold? hold = some row ∨ (db.putAll t.writes).hold? hold = some row)
    (horg : row.organizationId ≠ cmd.organizationId) :
    (db.putAll t.writes).hold? hold = db.hold? hold ∧
      (db.putAll t.writes).scopesOf hold = db.scopesOf hold ∧
      (db.putAll t.writes).activityOf hold = db.activityOf hold := by
  refine h.other_hold ?_
  rintro rfl
  rcases hrow with hrow | hrow
  -- the hold was there, and keeps its organization
  · obtain ⟨row', hrow', horigin⟩ := h.origin_eq hrow
    exact horg ((congrArg Prod.fst horigin).symm.trans (h.organization_eq hrow'))
  · exact horg (h.organization_eq hrow)

/-- **A step of a session leaves the holds of other organizations as they are.** -/
theorem Reachable.step_tenant (h : Reachable c) {i : Session Op} {org : String}
    (horganization : i.op.organization? = some org) (hi : Config.Known c i) {l : Label}
    (hl : IsOwn i.id l) {c' : Config} (hstep : Machine.step c l = some c') {hold : String}
    {row : HoldRow}
    (hrow : c.shared.db.hold? hold = some row ∨ c'.shared.db.hold? hold = some row)
    (horg : row.organizationId ≠ org) :
    c'.shared.db.hold? hold = c.shared.db.hold? hold ∧
      c'.shared.db.scopesOf hold = c.shared.db.scopesOf hold ∧
      c'.shared.db.activityOf hold = c.shared.db.activityOf hold := by
  have hlater : Later c c' := ⟨h, Machine.Reaches.of_step hstep⟩
  rcases step_untouched hl hstep with hsame | ⟨t, hid, hlog⟩
  · rw [hsame.db]
    exact ⟨rfl, rfl, rfl⟩
  -- the step is the commit of the session
  · have hn : c'.shared.log[c.shared.log.length]? = some t := by simp [hlog]
    obtain ⟨cmd, ws, activityId, view, hm, -⟩ := hlater.reachable.commit hn
    have howner := hlater.reachable.owner_eq (hi.later hlater.reaches) hn hid
    have hafter : c'.shared.db = c.shared.db.putAll t.writes := by
      rw [hlater.reachable.db_eq, hlog, List.length_append, List.length_singleton,
        Server.asOf_succ hn, hlater.asOf (Nat.le_refl _), ← h.db_eq]
    rw [hlater.asOf (Nat.le_refl _), ← h.db_eq] at hm
    have hcmd := Op.organization_command hm.command
    rw [howner, horganization] at hcmd
    cases hcmd
    rw [hafter] at hrow ⊢
    exact hm.other_organization hrow horg

/-! ### What it answers with -/

theorem Mutation.view_organizationId {db : Db} {t : Tx} {cmd : Command} {ws : List Write}
    {activityId : Int} {view : HoldView} (h : Mutation db t cmd ws activityId view) :
    view.organizationId = cmd.organizationId := by
  obtain ⟨row, -, horg, hmade⟩ := Db.loadHold_eq_ok.mp h.view
  rw [holdView_organizationId hmade]
  exact horg

/-- **A view that a mutation answers with, replayed or not, is of the hold asked for**: the
receipt was written for the same request. -/
theorem Reachable.replayed_target (h : Reachable c) (hreq : Requested c) {i : Session Op}
    {cmd : Command} {view : HoldView} (hr : Returned c i.id i.op (.ok (.hold view)))
    (hcmd : i.op.command? = some cmd) :
    view.organizationId = cmd.organizationId ∧ view.holdId = cmd.holdId := by
  obtain ⟨n, cmd₀, hcommit, -, hhash⟩ := h.ok hr hcmd
  obtain ⟨t, ws, activityId, hn, hm, -⟩ := h.mutation hcommit
  have hi := Config.known_of_returned hr
  have hj := h.owned.log t (List.mem_of_getElem? hn)
  obtain ⟨v, hv⟩ := (hreq.issued hi).hashed hcmd
  obtain ⟨w, hw⟩ := (hreq.issued hj).hashed hm.command
  -- equal digests, so that the same value was hashed for both
  rw [hw.requestHash hm.command, hv.requestHash hcmd] at hhash
  cases hreq.collisionFree hj hi hw hv hhash
  obtain ⟨horg, hhold⟩ := hw.target hv hm.command hcmd
  exact ⟨hm.view_organizationId.trans horg, hm.view_holdId.trans hhold⟩

omit [Backend] in
theorem Server.mem_activityPage {db : Db} {org hold : String} {after limit : Int} {a : ActivityRow}
    (h : a ∈ Server.activityPage db org hold after limit) :
    a ∈ db.activity ∧ a.organizationId = org ∧ a.holdId = hold := by
  have hmem := (List.mem_insertionSort _).mp (List.mem_of_mem_take h)
  simp only [List.mem_filter, decide_eq_true_eq] at hmem
  exact ⟨hmem.1, hmem.2.1, hmem.2.2.1⟩

omit [Backend] in
/-- The activity rows that are there stay there under any writes. -/
theorem Db.activity_subset_putAll (db : Db) (ws : List Write) :
    db.activity ⊆ (db.putAll ws).activity := by
  intro a ha
  have hof : ∀ db : Db, a ∈ db.activityOf a.holdId ↔ a ∈ db.activity := fun db => by
    simp [Db.activityOf]
  rw [← hof, Db.activityOf_putAll]
  exact List.mem_append_left _ ((hof db).mpr ha)

omit [Backend] in
/-- Every activity row is of a hold, and of its organization. -/
theorem Db.Coherent.activity_organization {db : Db} (h : db.Coherent) {a : ActivityRow}
    (ha : a ∈ db.activity) :
    ∃ row, db.hold? a.holdId = some row ∧ row.organizationId = a.organizationId := by
  have hof : a ∈ db.activityOf a.holdId := by simpa [Db.activityOf] using ha
  cases hrow : db.hold? a.holdId with
  | some row => exact ⟨row, rfl, (h.organization a.holdId row hrow a hof).symm⟩
  | none =>
    -- a hold that is not there has no events
    have hnil := (Record.replay_eq_none_iff (h.lawful a.holdId)).mp
      ((h.replayed a.holdId).trans (Db.record?_eq_none hrow))
    have hlen := h.length_eventsOf a.holdId
    rw [hnil, List.length_nil] at hlen
    rw [List.length_eq_zero_iff.mp hlen.symm] at hof
    cases hof

/-! ### Organizations are kept apart -/

/-- What a mutation answers with is about its hold. -/
theorem Reachable.command_about (h : Reachable c) (hreq : Requested c) {r : AdminRequest}
    {i : Session Op} {cmd : Command} {a : Answer} (hr : Returned c i.id i.op (.ok a))
    (hcmd : i.op.command? = some cmd) (horg : cmd.organizationId = r.organizationId)
    (hhold : r.holdId? = some cmd.holdId) :
    ∃ response, a.response? = some response ∧ response.About c.shared.db r := by
  obtain ⟨r', heq, -⟩ := h.outcome hr hcmd
  cases r' with
  | error e => cases heq
  | ok view =>
    cases heq
    obtain ⟨hvorg, hvhold⟩ := h.replayed_target hreq hr hcmd
    exact ⟨_, rfl, hvorg.trans horg, hhold.trans (congrArg some hvhold.symm)⟩

/-- **What an operation answers with is about its organization** and the hold of the request. -/
theorem Reachable.about (h : Reachable c) (hreq : Requested c) {r : AdminRequest}
    {caller actor : String} {i : Session Op} {a : Answer} (hop : r.op? caller actor = some i.op)
    (hr : Returned c i.id i.op (.ok a)) :
    ∃ response, a.response? = some response ∧ response.About c.shared.db r := by
  obtain ⟨id, op⟩ := i
  have hpost := returned_post h hr
  cases r with
  | createHold r =>
    obtain ⟨input, hinput, rfl⟩ := Option.map_eq_some_iff.mp hop
    rw [(CreateHoldRequest.input?_eq_some.mp hinput).2] at hr
    exact h.command_about hreq hr rfl rfl rfl
  | addScope r =>
    obtain ⟨input, hinput, rfl⟩ := Option.map_eq_some_iff.mp hop
    obtain ⟨-, -, horg, hhold⟩ := MutateScopeRequest.input?_eq_some hinput
    exact h.command_about hreq hr rfl horg (congrArg some hhold.symm)
  | removeScope r =>
    obtain ⟨input, hinput, rfl⟩ := Option.map_eq_some_iff.mp hop
    obtain ⟨-, -, horg, hhold⟩ := MutateScopeRequest.input?_eq_some hinput
    exact h.command_about hreq hr rfl horg (congrArg some hhold.symm)
  | releaseHold r =>
    obtain ⟨input, hinput, rfl⟩ := Option.map_eq_some_iff.mp hop
    obtain ⟨revision, -, rfl⟩ := ReleaseHoldRequest.input?_eq_some hinput
    exact h.command_about hreq hr rfl rfl rfl
  | getHold r =>
    obtain rfl := GetHoldRequest.op?_eq_some hop
    obtain ⟨-, view, e₁, e₂, rfl, hview⟩ := hpost a rfl
    obtain ⟨horg, hhold⟩ := hview.target
    exact ⟨_, rfl, horg, congrArg some hhold.symm⟩
  -- Every hold of the page was read by the organization of the request.
  | listHolds r =>
    obtain ⟨-, rfl⟩ := ListHoldsRequest.op?_eq_some.mp hop
    obtain ⟨-, views, next, e, rfl, hlisted⟩ := hpost a rfl
    refine ⟨_, rfl, fun view hview => ?_⟩
    obtain ⟨e₁, e₂, -, hread⟩ := hlisted.views view hview
    exact hread.target.1
  -- The rows of the page are of the hold, and stay in the table for good.
  | listActivity r =>
    obtain ⟨-, after, -, -, rfl⟩ := ListActivityRequest.op?_eq_some.mp hop
    obtain ⟨-, events, next, e, rfl, hread⟩ := hpost a rfl
    refine ⟨_, rfl, fun event hevent => ?_⟩
    obtain ⟨row, hrow, hviewed⟩ := mem_of_mapM hread.rows hevent
    obtain ⟨hmem, horg, hhold⟩ := Server.mem_activityPage hrow
    have hseen := h.inv.seen_le hread.mem
    refine ⟨row, ?_, horg, congrArg some hhold.symm, hviewed⟩
    rw [h.db_eq]
    exact h.preserves (P := fun db => row ∈ db.activity) hseen hmem
      fun db t _ _ _ _ _ _ hrow => Db.activity_subset_putAll db t.writes hrow

/-- A receipt is replayed to the caller and the actor it was written for, or the view is the
session's own. -/
theorem Reachable.receipt_owner (h : Reachable c) {i : Session Op} {cmd : Command}
    {view : HoldView} (hr : Returned c i.id i.op (.ok (.hold view)))
    (hcmd : i.op.command? = some cmd) :
    (∃ n t, c.shared.log[n]? = some t ∧ t.owner = i ∧ c.shared.Commit n cmd view) ∨
      ∃ receipt ∈ c.shared.db.commands, HoldView.fromValue receipt.response = .ok view ∧
        receipt.callerInstance = cmd.caller ∧ receipt.actorSubject = cmd.actor ∧
        ∃ t cmd₀ view₀, t ∈ c.shared.log ∧ t.owner.op.command? = some cmd₀ ∧
          receipt = cmd₀.receipt view₀ t.startedAt := by
  obtain ⟨r', heq, hout⟩ := h.outcome hr hcmd
  cases r' with
  | error e => cases heq
  | ok view' =>
    cases heq
    generalize hout' : (Except.ok view : Except StorageError HoldView) = out at hout
    cases hout with
    -- The receipt that was found was left by a commit, under the same caller and actor.
    | @replayed e row looked found same =>
      have hseen := h.inv.seen_le (Server.receiptRead_mem looked.read).1
      obtain ⟨n, -, cmd₀, view₀, now, hcommit, hkey, rfl, t, hn, rfl⟩ :=
        (h.command?_iff hseen).mp found
      have hstored := (h.command?_iff (Nat.le_refl _)).mpr
        ⟨n, Server.commit_lt hcommit, cmd₀, view₀, _, hcommit, hkey, rfl, t, hn, rfl⟩
      rw [← h.db_eq] at hstored
      obtain ⟨t', hn', hcmd₀, -⟩ := hcommit
      cases hn.symm.trans hn'
      exact .inr ⟨_, List.mem_of_find?_eq_some hstored, mapError_eq_ok.mp hout'.symm,
        congrArg CommandKey.callerInstance hkey, congrArg CommandKey.actorSubject hkey,
        t, cmd₀, view₀, List.mem_of_getElem? hn, hcmd₀, rfl⟩
    | @committed e looked unseen untaken n t ws activityId view' logged owner mutation =>
      cases hout'
      refine .inl ⟨n, t, logged, owner, t, logged, mutation.command, ?_⟩
      rw [Server.asOf_succ logged]
      exact mutation.view
    | _ => cases hout'

/-- **Tenant integrity.**  In every run whose operations were asked for, an administrative
operation leaves the rows of other organizations' holds as they are, answers with views and
events of its own organization and of the hold it was asked about, and replays a receipt only to
the caller and the actor it was written for; activity rows are of the organization of their
hold. -/
theorem tenant_integrity (h : Reachable c) (hreq : Requested c) :
    (∀ {r : AdminRequest} {caller actor : String} {i : Session Op} {l : Label} {c₁ c₂ : Config},
      r.op? caller actor = some i.op → Reachable c₁ → Config.Known c₁ i → IsOwn i.id l →
      Machine.step c₁ l = some c₂ → ∀ {hold : String} {row : HoldRow},
      (c₁.shared.db.hold? hold = some row ∨ c₂.shared.db.hold? hold = some row) →
      row.organizationId ≠ r.organizationId →
        c₂.shared.db.hold? hold = c₁.shared.db.hold? hold ∧
        c₂.shared.db.scopesOf hold = c₁.shared.db.scopesOf hold ∧
        c₂.shared.db.activityOf hold = c₁.shared.db.activityOf hold) ∧
    (∀ {r : AdminRequest} {caller actor : String} {i : Session Op} {a : Answer},
      r.op? caller actor = some i.op → Returned c i.id i.op (.ok a) →
      ∃ response, a.response? = some response ∧ response.About c.shared.db r) ∧
    (∀ a ∈ c.shared.db.activity, ∃ row, c.shared.db.hold? a.holdId = some row ∧
      row.organizationId = a.organizationId) ∧
    ∀ {i : Session Op} {cmd : Command} {view : HoldView},
      Returned c i.id i.op (.ok (.hold view)) → i.op.command? = some cmd →
      (∃ n t, c.shared.log[n]? = some t ∧ t.owner = i ∧ c.shared.Commit n cmd view) ∨
        ∃ receipt ∈ c.shared.db.commands, HoldView.fromValue receipt.response = .ok view ∧
          receipt.callerInstance = cmd.caller ∧ receipt.actorSubject = cmd.actor ∧
          ∃ t cmd₀ view₀, t ∈ c.shared.log ∧ t.owner.op.command? = some cmd₀ ∧
            receipt = cmd₀.receipt view₀ t.startedAt := by
  refine ⟨?_, h.about hreq, ?_, h.receipt_owner⟩
  · intro r caller actor i l c₁ c₂ hop hc₁ hi hl hstep hold row hrow horg
    exact hc₁.step_tenant (AdminRequest.op?_organization hop) hi hl hstep hrow horg
  · intro a ha
    exact h.now_coherent.activity_organization ha

end

namespace Sample.Requests

/-- The operation of a request to create `h`. -/
def created : Op := issued (.createHold (createRequest "h" "create"))

/-- The schedule in which the request is made twice. -/
def twice : List Label :=
  .start created :: List.replicate 8 (.step 0 .done) ++
    .start created :: List.replicate 2 (.step 1 .done)

theorem hashInput_of_hashedFrom {v : Json} (h : created.HashedFrom v) :
    v = (createRequest "h" "create").hashInput := by
  obtain ⟨r, caller, actor, hinput, rfl⟩ := h
  have heq := (CreateHoldRequest.input?_eq_some.mp hinput).2
  simp only [CreateHold.mk.injEq] at heq
  obtain ⟨-, -, horg, hhold, htitle, hreason, hauthority, hkey, -⟩ := heq
  unfold CreateHoldRequest.hashInput
  rw [← horg, ← hhold, ← htitle, ← hreason, ← hauthority, ← hkey]

theorem requested_twice : Requested (after twice) := by
  have hop : ∀ {i : Session Op}, Config.Known (after twice) i → i.op = created := by
    intro i hi
    have hmem : i.op ∈ [created, created] := hi.mem_ops
    rcases List.mem_cons.mp hmem with hfirst | hsecond
    · exact hfirst
    · exact List.mem_singleton.mp hsecond
  constructor
  · intro i hi
    rw [hop hi]
    exact .inl ⟨.createHold (createRequest "h" "create"), "admin", "alice", rfl⟩
  · intro i j v w hi hj hv hw _
    rw [hop hi] at hv
    rw [hop hj] at hw
    exact (hashInput_of_hashedFrom hv).trans (hashInput_of_hashedFrom hw).symm

/-- The second answer is the receipt of the first. -/
theorem twice_integrity :
    ∃ view, Returned (after twice) 1 created (.ok (.hold view)) ∧ view.organizationId = "org" ∧
      view.holdId = "h" ∧ ∃ receipt ∈ (after twice).shared.db.commands,
        HoldView.fromValue receipt.response = .ok view := by
  obtain ⟨-, habout, -, howner⟩ := tenant_integrity (reachable_after twice) requested_twice
  obtain ⟨view, hr⟩ : ∃ view, Returned (after twice) 1 created (.ok (.hold view)) := ⟨_, rfl⟩
  obtain ⟨_, heq, hview⟩ :=
    @habout (.createHold (createRequest "h" "create")) "admin" "alice" ⟨1, created⟩ _ rfl hr
  cases heq
  refine ⟨view, hr, hview.1, (Option.some.inj hview.2).symm, ?_⟩
  rcases @howner ⟨1, created⟩ _ view hr rfl with ⟨n, t, hn, ht, -⟩ | ⟨receipt, hmem, hfrom, -⟩
  -- only the first session has a commit
  · have howners : (after twice).shared.log.map (·.owner.id) = [0] := rfl
    have hmem := List.mem_map_of_mem (f := (·.owner.id)) (List.mem_of_getElem? hn)
    rw [howners, ht] at hmem
    cases List.mem_singleton.mp hmem
  · exact ⟨receipt, hmem, hfrom⟩

end Sample.Requests

end LegalHold
