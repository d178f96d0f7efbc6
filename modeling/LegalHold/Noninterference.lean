import LegalHold.Listing
import LegalHold.Lockstep
import LegalHold.Tenants

/-!
# What organizations tell of each other

Two states hold the same for an organization, and the same receipts for a caller
and an actor, and differ in the holds of other organizations.  A request for the
organization ends the same in both, with one exception: hold ids are not kept
apart by organization, so an attempt to create a hold tells whether its id is
taken.

## Main definitions

* `SameTenant` — the tables hold the same of an organization.
* `Op.SharedAlike` — what all organizations share makes no difference.
* `alone` — an operation run from a configuration, with nothing in between.

## Main results

* `tenant_noninterference` — **other organizations make no difference**.
* `Sample.Requests.taken_id_interferes` — but for ids that they have taken.
-/

namespace LegalHold

open Interleave Timeline

/-! ### The rows of an organization -/

/-- The tables hold the same of an organization, and the same receipts of a caller and an
actor. -/
structure SameTenant (org caller actor : String) (db db' : Db) : Prop where
  holds : ∀ row : HoldRow, row.organizationId = org → (row ∈ db'.holds ↔ row ∈ db.holds)
  scopes : ∀ hold ∈ db.holds, hold.organizationId = org → ∀ row : ScopeRow,
    row.holdId = hold.holdId → (row ∈ db'.scopes ↔ row ∈ db.scopes)
  activity : ∀ row : ActivityRow, row.organizationId = org →
    (row ∈ db'.activity ↔ row ∈ db.activity)
  receipts : ∀ row : CommandRow, row.callerInstance = caller → row.actorSubject = actor →
    (row ∈ db'.commands ↔ row ∈ db.commands)

/-- Rows that agree in something they all differ in, one by one, are the same. -/
theorem eq_of_map_eq {α β : Type} {f : α → β} {l l' : List α} (hmap : l'.map f = l.map f)
    (hnodup : (l.map f).Nodup) (hmem : ∀ a ∈ l', a ∈ l) : l' = l := by
  have hlength : l'.length = l.length := by
    rw [← List.length_map (f := f), hmap, List.length_map]
  refine List.ext_getElem hlength fun n hn' hn => ?_
  refine List.inj_on_of_nodup_map hnodup (hmem _ (List.getElem_mem hn')) (List.getElem_mem hn) ?_
  have hget := congrArg (·[n]?) hmap
  simpa [hn, hn'] using hget

/-- The hold of an organization, looked up by its id. -/
theorem Db.Coherent.filter_hold?_eq_some {db : Db} (hc : db.Coherent) {org h : String}
    {row : HoldRow} : (db.hold? h).filter (·.organizationId = org) = some row ↔
      row ∈ db.holds ∧ row.holdId = h ∧ row.organizationId = org := by
  rw [Option.filter_eq_some_iff]
  constructor
  · rintro ⟨hrow, horg⟩
    exact ⟨List.mem_of_find?_eq_some hrow, Db.holdId_of_hold? hrow, by simpa using horg⟩
  · rintro ⟨hmem, rfl, horg⟩
    exact ⟨Db.hold?_of_mem hc.holds_nodup hmem, by simpa using horg⟩

namespace SameTenant

variable {org caller actor h : String} {db db' : Db}

/-- Two states are the same for a tenant when the rows of the organization, and the receipts of
the caller and the actor, are the same. -/
theorem of_filter (holds : db'.holds.filter (·.organizationId = org) =
      db.holds.filter (·.organizationId = org))
    (scopes : db'.scopes = db.scopes)
    (activity : db'.activity.filter (·.organizationId = org) =
      db.activity.filter (·.organizationId = org))
    (receipts : db'.commands.filter (fun row => row.callerInstance = caller ∧
      row.actorSubject = actor) = db.commands.filter fun row => row.callerInstance = caller ∧
        row.actorSubject = actor) : SameTenant org caller actor db db' := by
  have hmem : ∀ {α : Type} {p : α → Bool} {l l' : List α}, l'.filter p = l.filter p →
      ∀ a, p a = true → (a ∈ l' ↔ a ∈ l) := by
    intro α p l l' heq a ha
    have hiff : a ∈ l'.filter p ↔ a ∈ l.filter p := by rw [heq]
    simpa [ha] using hiff
  constructor
  · intro row horg
    exact hmem holds row (by simpa using horg)
  · intro hold _ _ row _
    rw [scopes]
  · intro row horg
    exact hmem activity row (by simpa using horg)
  · intro row hcaller hactor
    exact hmem receipts row (by simp [hcaller, hactor])

/-- The hold, where it is the organization's, is the same. -/
theorem hold?_eq (same : SameTenant org caller actor db db') (hc : db.Coherent)
    (hc' : db'.Coherent) (h : String) :
    (db'.hold? h).filter (·.organizationId = org) =
      (db.hold? h).filter (·.organizationId = org) := by
  refine Option.ext fun row => ?_
  rw [hc.filter_hold?_eq_some, hc'.filter_hold?_eq_some]
  constructor
  · rintro ⟨hmem, hid, horg⟩
    exact ⟨(same.holds row horg).mp hmem, hid, horg⟩
  · rintro ⟨hmem, hid, horg⟩
    exact ⟨(same.holds row horg).mpr hmem, hid, horg⟩

/-- Any choice of the activity rows of a hold of the organization is the same on both sides. -/
theorem filter_activity_eq (same : SameTenant org caller actor db db') (hc : db.Coherent)
    (hc' : db'.Coherent) {p : ActivityRow → Bool}
    (hp : ∀ a, p a = true → a.organizationId = org ∧ a.holdId = h) :
    db'.activity.filter p = db.activity.filter p := by
  have hordered : ∀ {db : Db}, db.Coherent →
      (db.activity.filter p).Pairwise fun a b => a.activityId < b.activityId := by
    intro db hc
    have hsub : db.activity.filter p = (db.activityOf h).filter p := by
      rw [Db.activityOf, List.filter_filter]
      refine List.filter_congr fun a _ => ?_
      by_cases ha : p a = true
      · simp [ha, (hp a ha).2]
      · simp [ha]
    rw [hsub]
    exact (hc.ordered h).sublist List.filter_sublist
  refine eq_of_increasing (hordered hc') (hordered hc) fun a => ?_
  simp only [List.mem_filter]
  exact and_congr_left fun ha => same.activity a (hp a ha).1

theorem activityPage_eq (same : SameTenant org caller actor db db') (hc : db.Coherent)
    (hc' : db'.Coherent) (h : String) (after limit : Int) :
    Server.activityPage db' org h after limit = Server.activityPage db org h after limit := by
  unfold Server.activityPage
  rw [same.filter_activity_eq hc hc' (h := h)]
  intro a ha
  simp only [decide_eq_true_eq] at ha
  exact ⟨ha.1, ha.2.1⟩

variable {row : HoldRow}

theorem activityOf_eq (same : SameTenant org caller actor db db') (hc : db.Coherent)
    (hc' : db'.Coherent) (hrow : db.hold? h = some row) (hrow' : db'.hold? h = some row)
    (horg : row.organizationId = org) : db'.activityOf h = db.activityOf h := by
  -- The activity of a hold is its organization's.
  have hown : ∀ {db : Db}, db.Coherent → db.hold? h = some row → db.activityOf h =
      db.activity.filter fun a => a.organizationId = org ∧ a.holdId = h := by
    intro db hc hrow
    refine List.filter_congr fun a ha => ?_
    by_cases hid : a.holdId = h
    · have hof : a ∈ db.activityOf h := List.mem_filter.mpr ⟨ha, by simpa using hid⟩
      simp [hid, (hc.organization h row hrow a hof).trans horg]
    · simp [hid]
  rw [hown hc hrow, hown hc' hrow']
  refine same.filter_activity_eq hc hc' (h := h) fun a ha => ?_
  simpa using ha

/-- The scopes are the same, in the same order: the order is that of the events. -/
theorem scopesOf_eq (same : SameTenant org caller actor db db') (hc : db.Coherent)
    (hc' : db'.Coherent) (hrow : db.hold? h = some row) (hrow' : db'.hold? h = some row)
    (horg : row.organizationId = org) : db'.scopesOf h = db.scopesOf h := by
  have hevents : db'.eventsOf h = db.eventsOf h := by
    unfold Db.eventsOf
    rw [same.activityOf_eq hc hc' hrow hrow' horg]
  have hrecord := (hc'.replayed h).symm.trans ((congrArg _ hevents).trans (hc.replayed h))
  rw [Db.record?_eq_some hrow, Db.record?_eq_some hrow'] at hrecord
  have hscopes := congrArg Record.scopes (Option.some.inj hrecord)
  have hnodup := Record.scopes_nodup (hc.lawful h)
    ((hc.replayed h).trans (Db.record?_eq_some hrow))
  refine eq_of_map_eq hscopes hnodup.of_map fun s hs => ?_
  obtain ⟨hmem, hid⟩ := List.mem_filter.mp hs
  have hhold : row.holdId = h := Db.holdId_of_hold? hrow
  have hsid : s.holdId = row.holdId := by simpa [hhold] using hid
  exact List.mem_filter.mpr
    ⟨(same.scopes row (List.mem_of_find?_eq_some hrow) horg s hsid).mp hmem, hid⟩

theorem near (same : SameTenant org caller actor db db') (hc : db.Coherent) (hc' : db'.Coherent)
    (hrow : (db.hold? h).filter (·.organizationId = org) = some row) : db.Near db' h := by
  have hsame := same.hold?_eq hc hc' h
  rw [hrow] at hsame
  obtain ⟨hrow, horg⟩ := Option.filter_eq_some_iff.mp hrow
  obtain ⟨hrow', -⟩ := Option.filter_eq_some_iff.mp hsame
  have hscopes := same.scopesOf_eq hc hc' hrow hrow' (by simpa using horg)
  exact ⟨by rw [Db.hold?_unstamped, Db.hold?_unstamped, hrow, hrow'],
    by rw [Db.scopesOf_unstamped, Db.scopesOf_unstamped, hscopes]⟩

/-- **The organization sees the same of every hold.** -/
theorem seenAlike (same : SameTenant org caller actor db db') (hc : db.Coherent)
    (hc' : db'.Coherent) (h : String) : Db.SeenAlike org h db db' := by
  cases hrow : (db.hold? h).filter (·.organizationId = org) with
  | none => exact .inl ⟨hrow, (same.hold?_eq hc hc' h).trans hrow⟩
  | some row => exact .inr (same.near hc hc' hrow)

theorem command?_eq (same : SameTenant org caller actor db db')
    (hkeys : (db.commands.map (·.toCommandKey)).Nodup)
    (hkeys' : (db'.commands.map (·.toCommandKey)).Nodup) {key : CommandKey}
    (hcaller : key.callerInstance = caller) (hactor : key.actorSubject = actor) :
    db'.command? key = db.command? key := by
  have hfound : ∀ {db : Db}, (db.commands.map (·.toCommandKey)).Nodup → ∀ {row : CommandRow},
      db.command? key = some row ↔ row ∈ db.commands ∧ row.toCommandKey = key := by
    intro db hkeys row
    constructor
    · intro hrow
      have hkey := List.find?_some hrow
      exact ⟨List.mem_of_find?_eq_some hrow, by simpa using hkey⟩
    · rintro ⟨hmem, rfl⟩
      exact Db.command?_of_mem hkeys hmem
  refine Option.ext fun row => ?_
  rw [hfound hkeys, hfound hkeys']
  refine and_congr_left fun hkey => ?_
  exact same.receipts row (hkey ▸ hcaller) (hkey ▸ hactor)

/-- The hold of a command is the same, or it is none of the organization's. -/
theorem target (same : SameTenant org caller actor db db') (hc : db.Coherent)
    (hc' : db'.Coherent) {cmd : Command} (horg : cmd.organizationId = org)
    (hcommand : db'.command? cmd.key = db.command? cmd.key) :
    cmd.Foreign db db' ∨ cmd.Alike db db' := by
  subst horg
  have halike : db'.unstamped.command? cmd.key = db.unstamped.command? cmd.key := by
    rw [Db.command?_unstamped, Db.command?_unstamped, hcommand]
  cases hrow : (db.hold? cmd.holdId).filter (·.organizationId = cmd.organizationId) with
  | some row => exact .inr ⟨same.near hc hc' hrow, halike⟩
  | none =>
    by_cases htaken : db.hold? cmd.holdId ≠ none ∨ db'.hold? cmd.holdId ≠ none
    · exact .inl ⟨hrow, (same.hold?_eq hc hc' cmd.holdId).trans hrow, htaken⟩
    -- Where there is no hold at all, there is nothing of it.
    · simp only [ne_eq, not_or, not_not] at htaken
      obtain ⟨hnone, hnone'⟩ := htaken
      refine .inr ⟨⟨?_, ?_⟩, halike⟩
      · rw [Db.hold?_unstamped, Db.hold?_unstamped, hnone, hnone']
      · rw [Db.scopesOf_unstamped, Db.scopesOf_unstamped, hc.orphan _ hnone, hc'.orphan _ hnone']

/-- **The organization is listed the same pages** on both sides. -/
theorem holdPage_eq [Backend] (same : SameTenant org caller actor db db') (hc : db.Coherent)
    (hc' : db'.Coherent) (status : Option Status) (cursor : Option String) (limit : Int) :
    Server.holdPage db' org status cursor limit = Server.holdPage db org status cursor limit := by
  rw [LegalHold.holdPage_eq, LegalHold.holdPage_eq]
  have hmem : ∀ hold, hold ∈ db'.matchingIds org status ↔ hold ∈ db.matchingIds org status := by
    intro hold
    unfold Db.matchingIds
    simp only [List.mem_map, List.mem_filter, decide_eq_true_eq]
    refine exists_congr fun row => and_congr_left fun _ => and_congr_left fun hrow => ?_
    exact same.holds row hrow.1
  rw [above_congr (hc.nodup_matchingIds org status) (hc'.nodup_matchingIds org status) hmem]

end SameTenant

section

variable [Backend] {c c' : Config}

/-! ### What holds of the tables at any moment -/

/-- Every timestamp that is stored in a reachable configuration can be written out. -/
theorem Reachable.dated (h : Reachable c) : c.shared.db.Dated := by
  rw [h.db_eq]
  exact h.preserves (P := Db.Dated) (Nat.zero_le _) Db.dated_empty
    fun db t cmd ws activityId view hdb hm => hm.dated hdb

/-- There is one receipt for each key in a reachable configuration. -/
theorem Reachable.receipts_nodup (h : Reachable c) :
    (c.shared.db.commands.map (·.toCommandKey)).Nodup := by
  rw [h.db_eq]
  refine h.preserves (P := fun db => (db.commands.map (·.toCommandKey)).Nodup) (Nat.zero_le _)
    List.nodup_nil ?_
  intro db t cmd ws activityId view _ hm hnodup
  rw [hm.commands_eq, List.map_append]
  refine List.nodup_append.mpr ⟨hnodup, List.nodup_singleton _, ?_⟩
  intro key hkey key' hkey'
  rw [List.mem_singleton.mp hkey']
  rintro rfl
  -- The key of the new receipt was not in use.
  obtain ⟨row, hrow, heq⟩ := List.mem_map.mp hkey
  have hunseen := List.find?_eq_none.mp hm.unseen row hrow
  exact hunseen (by simpa [Command.receipt] using heq)

/-! ### Operations -/

/-- The answer with the timestamps taken out of its views, so that what they say of the holds
remains. -/
def Answer.unstamped : Answer → Answer
  | .hold view => .hold view.unstamped
  | .holds views nextCursor => .holds (views.map HoldView.unstamped) nextCursor
  | a => a

/-- What all organizations share makes no difference to an operation: the ids of holds, the
numbers of rows, and the time. -/
structure Op.SharedAlike (op : Op) (srv srv' : Server) : Prop where
  /-- An id that is to be used for a new hold is free in both states, or in neither. -/
  holdId : ∀ input, op = .createHold input → srv.db.command? input.command.key = none →
    (srv'.db.hold? input.holdId = none ↔ srv.db.hold? input.holdId = none)
  /-- There is a number for the activity row in both states, or in neither. -/
  activity : ∀ cmd, op.command? = some cmd →
    (maxI64 < srv'.seq.activity ↔ maxI64 < srv.seq.activity)
  /-- There is a number for the scope row in both states, or in neither. -/
  scopeRow : ∀ input, op = .addScope input →
    (maxI64 < srv'.seq.scopeRow ↔ maxI64 < srv.seq.scopeRow)
  /-- The time can be written out. -/
  time : ∀ cmd, op.command? = some cmd → Formattable srv.clock ∧ Formattable srv'.clock

/-- A new session runs the operation from here to its end, with nothing in between. -/
def alone (c : Config) (op : Op) : Option (Server × Except StorageError Answer) :=
  Machine.runAlone (M := machine) .done ⟨c.procs.length, op⟩ (program op).run c.shared

/-- A session that has the only transaction does not wait. -/
theorem Server.perform_isSome {srv : Server} {i : Session Op}
    (hown : ∀ t ∈ srv.txs, t.owner.id = i.id) (s : Stmt) :
    (srv.perform i s).isSome = true := by
  have hblocks : ∀ locks, srv.blocks i locks = false := by
    intro locks
    refine List.any_eq_false.mpr fun t ht => ?_
    simp [hown t ht]
  cases s with
  | begin =>
    simp only [Server.perform]
    split <;> rfl
  | commit =>
    simp only [Server.perform]
    split <;> rfl
  | query q =>
    simp only [Server.perform, hblocks, Bool.false_eq_true, if_false]
    split <;> rfl
  | pool q => rfl

/-- **An operation runs to its end** when no transaction is open. -/
theorem exists_alone (htxs : c.shared.txs = []) (op : Op) : ∃ st a, alone c op = some (st, a) := by
  obtain ⟨i, hi⟩ : ∃ i : Session Op, i = ⟨c.procs.length, op⟩ := ⟨_, rfl⟩
  have halone : Alone machine .done i (fun srv : Server => ∀ t ∈ srv.txs, t.owner.id = i.id)
      (program op).run fun _ srv => ∀ t ∈ srv.txs, t.owner.id = i.id := by
    refine Alone.always (fun s srv hown => ?_) _
    obtain ⟨⟨srv₁, r⟩, hperform⟩ := Option.isSome_iff_exists.mp (Server.perform_isSome hown s)
    have hexec : srv.exec i s .done = some (srv₁.note i s .done srv.log.length, r) := by
      simp only [Server.exec, hperform, Option.map_some]
    refine ⟨_, r, hexec, fun t ht => ?_⟩
    rcases (Server.exec_owners hexec).1 t ht with heq | ⟨t₀, ht₀, heq⟩
    · rw [heq]
    · rw [heq]
      exact hown t₀ ht₀
  have hnone : ∀ t ∈ c.shared.txs, t.owner.id = i.id := by
    intro t ht
    rw [htxs] at ht
    cases ht
  obtain ⟨st, a, hrun, -⟩ := halone c.shared hnone
  subst hi
  exact ⟨st, a, hrun⟩

/-- A mutation carries the caller and the actor on whose behalf it was asked for. -/
theorem AdminRequest.op?_command {r : AdminRequest} {caller actor : String} {op : Op}
    (h : r.op? caller actor = some op) {cmd : Command} (hcmd : op.command? = some cmd) :
    cmd.organizationId = r.organizationId ∧ cmd.caller = caller ∧ cmd.actor = actor := by
  have horg := (Op.organization_command hcmd).symm.trans (AdminRequest.op?_organization h)
  refine ⟨Option.some.inj horg, ?_⟩
  cases r with
  | createHold r =>
    obtain ⟨i, hi, rfl⟩ := Option.map_eq_some_iff.mp h
    cases hcmd
    rw [(CreateHoldRequest.input?_eq_some.mp hi).2]
    exact ⟨rfl, rfl⟩
  | addScope r =>
    obtain ⟨i, hi, rfl⟩ := Option.map_eq_some_iff.mp h
    cases hcmd
    obtain ⟨hcaller, hactor, -, -⟩ := MutateScopeRequest.input?_eq_some hi
    exact ⟨hcaller, hactor⟩
  | removeScope r =>
    obtain ⟨i, hi, rfl⟩ := Option.map_eq_some_iff.mp h
    cases hcmd
    obtain ⟨hcaller, hactor, -, -⟩ := MutateScopeRequest.input?_eq_some hi
    exact ⟨hcaller, hactor⟩
  | releaseHold r =>
    obtain ⟨i, hi, rfl⟩ := Option.map_eq_some_iff.mp h
    obtain ⟨revision, -, rfl⟩ := ReleaseHoldRequest.input?_eq_some hi
    cases hcmd
    exact ⟨rfl, rfl⟩
  -- a read is no command
  | getHold r =>
    rw [GetHoldRequest.op?_eq_some h] at hcmd
    cases hcmd
  | listHolds r =>
    rw [(ListHoldsRequest.op?_eq_some.mp h).2] at hcmd
    cases hcmd
  | listActivity r =>
    obtain ⟨-, after, -, -, rfl⟩ := ListActivityRequest.op?_eq_some.mp h
    cases hcmd

/-- What a command of the organization can tell the two states apart by. -/
theorem SameTenant.comparable {org caller actor : String}
    (same : SameTenant org caller actor c.shared.db c'.shared.db) (h : Reachable c)
    (h' : Reachable c') {op : Op} (shared : op.SharedAlike c.shared c'.shared) {cmd : Command}
    (hcmd : op.command? = some cmd) (horg : cmd.organizationId = org)
    (hcaller : cmd.caller = caller) (hactor : cmd.actor = actor) :
    cmd.Comparable c.shared c'.shared := by
  have hreceipt : c'.shared.db.command? cmd.key = c.shared.db.command? cmd.key :=
    same.command?_eq h.receipts_nodup h'.receipts_nodup hcaller hactor
  exact ⟨h.dated, h'.dated, (shared.time cmd hcmd).1, (shared.time cmd hcmd).2,
    shared.activity cmd hcmd, hreceipt, same.target h.now_coherent h'.now_coherent horg hreceipt⟩

/-- **An operation of the organization does the same in both states.** -/
theorem SameTenant.program_twin {org caller actor : String} {i j : Session Op}
    (same : SameTenant org caller actor c.shared.db c'.shared.db) (h : Reachable c)
    (h' : Reachable c') {op : Op} (shared : op.SharedAlike c.shared c'.shared)
    (horg : op.organization? = some org)
    (hcmd : ∀ {cmd}, op.command? = some cmd →
      cmd.organizationId = org ∧ cmd.caller = caller ∧ cmd.actor = actor) :
    Twin machine .done i j (AtRest i j c.shared c'.shared) (program op).run (program op).run
      (Matched (fun a a' srv srv' => a'.unstamped = a.unstamped ∧
        ChangedAlike c.shared c'.shared srv srv') (ChangedAlike c.shared c'.shared)) := by
  -- For a mutation it is enough that the two servers are comparable for its command.
  have hcomparable : ∀ {cmd}, op.command? = some cmd → cmd.Comparable c.shared c'.shared := by
    intro cmd hop
    obtain ⟨horg, hcaller, hactor⟩ := hcmd hop
    exact same.comparable h h' shared hop horg hcaller hactor
  have hmutation : ∀ {x : Storage HoldView},
      Twin machine .done i j (AtRest i j c.shared c'.shared) x.run x.run
        (Matched (SameView c.shared c'.shared) (ChangedAlike c.shared c'.shared)) →
      Twin machine .done i j (AtRest i j c.shared c'.shared) (Answer.hold <$> x).run
        (Answer.hold <$> x).run (Matched (fun a a' srv srv' => a'.unstamped = a.unstamped ∧
          ChangedAlike c.shared c'.shared srv srv') (ChangedAlike c.shared c'.shared)) :=
    fun hx => Twin.run_map (hx.run_conseq fun view view' srv srv' hv =>
      ⟨congrArg Answer.hold hv.1, hv.2⟩)
  have hseen := same.seenAlike h.now_coherent h'.now_coherent
  cases op with
  | createHold input =>
    exact hmutation (createHold_twin (hcomparable rfl) fun hunseen =>
      shared.holdId input rfl hunseen)
  | addScope input =>
    exact hmutation (addScope_twin (hcomparable rfl) (shared.scopeRow input rfl))
  | removeScope input => exact hmutation (removeScope_twin (hcomparable rfl))
  | releaseHold input => exact hmutation (releaseHold_twin (hcomparable rfl))
  | getHold org' hold =>
    cases horg
    refine Twin.run_map ((getHold_twin h.dated h'.dated (hseen hold)).run_conseq ?_)
    exact fun view view' srv srv' hv => ⟨congrArg Answer.hold hv.1, hv.2.changedAlike⟩
  -- Reading starts from the same page, and goes on with the same holds.
  | listHolds org' status cursor limit =>
    cases horg
    have hpage := same.holdPage_eq h.now_coherent h'.now_coherent status cursor (limit + 1)
    refine Twin.run_map ((listHolds_twin h.dated h'.dated hpage fun hold _ =>
      hseen hold).run_conseq ?_)
    rintro ⟨views, next⟩ ⟨views', next'⟩ srv srv' ⟨⟨hviews, hnext⟩, hst⟩
    exact ⟨congrArg₂ Answer.holds hviews hnext, hst.changedAlike⟩
  | listActivity org' hold after limit =>
    cases horg
    have hpage := same.activityPage_eq h.now_coherent h'.now_coherent hold after limit
    refine Twin.run_map ((listActivity_twin h.dated h'.dated (hseen hold) hpage).run_conseq ?_)
    rintro page page' srv srv' ⟨rfl, hst⟩
    exact ⟨rfl, hst.changedAlike⟩
  | checkRetention input => cases horg

/-- **Other organizations make no difference**: in two states that hold the same of the
organization of a request, and the same receipts for its caller and actor, the request runs to
its end unless a transaction is open, ends the same but for timestamps, and changes the same
but for stamps — as long as what all organizations share makes no difference to it. -/
theorem tenant_noninterference (h : Reachable c) (h' : Reachable c') {r : AdminRequest}
    {caller actor : String} {op : Op} (hop : r.op? caller actor = some op)
    (same : SameTenant r.organizationId caller actor c.shared.db c'.shared.db)
    (shared : op.SharedAlike c.shared c'.shared) :
    (c.shared.txs = [] → ∃ st a, alone c op = some (st, a)) ∧
    (c'.shared.txs = [] → ∃ st a, alone c' op = some (st, a)) ∧
    ∀ {st st' : Server} {a a' : Except StorageError Answer},
      alone c op = some (st, a) → alone c' op = some (st', a') →
      a'.map Answer.unstamped = a.map Answer.unstamped ∧
        ∃ ws ws', st.db = c.shared.db.putAll ws ∧ st'.db = c'.shared.db.putAll ws' ∧
          ws'.map Write.unstamped = ws.map Write.unstamped := by
  refine ⟨fun htxs => exists_alone htxs op, fun htxs => exists_alone htxs op, ?_⟩
  intro st st' a a' hrun hrun'
  have hfresh : ∀ {c : Config}, Reachable c →
      c.shared.tx? ⟨c.procs.length, op⟩ = none := fun hc =>
    ((reachable_good hc).fresh ⟨_, op⟩ (Nat.le_refl _)).1
  -- Run side by side, the two programs make matching statements.
  have htwin := same.program_twin (i := ⟨c.procs.length, op⟩) (j := ⟨c'.procs.length, op⟩) h h'
    shared (AdminRequest.op?_organization hop) (AdminRequest.op?_command hop)
  have hend := htwin c.shared c'.shared
    ⟨hfresh h, hfresh h', rfl, rfl, rfl, rfl, rfl, rfl⟩ st a st' a' hrun hrun'
  -- One cannot fail where the other succeeds.
  cases a with
  | ok a =>
    cases a' with
    | ok a' => exact ⟨congrArg Except.ok hend.1, hend.2⟩
    | error e' => exact hend.elim
  | error e =>
    cases a' with
    | ok a' => exact hend.elim
    | error e' => exact ⟨congrArg Except.error hend.1.symm, hend.2⟩

end

namespace Sample.Requests

/-- The schedule in which the hold `h` is created. -/
def own : List Label := .start created :: List.replicate 8 (.step 0 .done)

/-- The request by which another organization creates its own hold `k`. -/
def foreign : Op :=
  .createHold ⟨"admin", "bob", "other", "k", "title", "reason", "court", "create",
    [140, 190, 97, 54, 37, 107, 11, 55, 38, 152, 16, 39, 248, 41, 88, 205, 221, 176, 160, 221, 66,
      175, 101, 132, 194, 59, 198, 47, 26, 172, 228, 253]⟩

/-- The schedule in which the other organization creates its hold, in this session. -/
def elsewhere (session : ℕ) : List Label :=
  .start foreign :: List.replicate 8 (.step session .done)

/-- The request to put `f` under `h`, at the first revision. -/
def added : AdminRequest := .addScope ⟨"org", "h", "file", "f", none, "1", "add"⟩

/-- What the other organization has makes no difference to it. -/
theorem added_apart :
    ∃ st st' a a', alone (after own) (issued added) = some (st, a) ∧
      alone (after (own ++ elsewhere 1)) (issued added) = some (st', a') ∧
      a'.map Answer.unstamped = a.map Answer.unstamped := by
  have hop : added.op? "admin" "alice" = some (issued added) := rfl
  have hsame : SameTenant "org" "admin" "alice" (after own).shared.db
      (after (own ++ elsewhere 1)).shared.db := .of_filter rfl rfl rfl rfl
  have hshared : (issued added).SharedAlike (after own).shared
      (after (own ++ elsewhere 1)).shared := by
    refine ⟨fun input heq => (by cases heq), fun cmd _ => ?_, fun input _ => ?_, fun cmd _ => ?_⟩
    · show maxI64 < 3 ↔ maxI64 < 2
      decide
    · show maxI64 < 1 ↔ maxI64 < 1
      rfl
    · exact ⟨⟨_, rfl⟩, ⟨_, rfl⟩⟩
  obtain ⟨hruns, hruns', hend⟩ := tenant_noninterference (reachable_after own)
    (reachable_after (own ++ elsewhere 1)) hop hsame hshared
  obtain ⟨st, a, hrun⟩ := hruns rfl
  obtain ⟨st', a', hrun'⟩ := hruns' rfl
  exact ⟨st, st', a, a', hrun, hrun', (hend hrun hrun').1⟩

/-- The request to create the hold `k` for another organization. -/
def wanted : AdminRequest := .createHold (createRequest "k" "another")

/-- **An id that another organization has taken**: the request to create `k` succeeds in one
state and conflicts in the other. -/
theorem taken_id_interferes :
    (Reachable initial ∧ Reachable (after (elsewhere 0)) ∧
      wanted.op? "admin" "alice" = some (issued wanted) ∧
      SameTenant "org" "admin" "alice" initial.shared.db (after (elsewhere 0)).shared.db) ∧
    (∃ st a, alone initial (issued wanted) = some (st, .ok a)) ∧
      ∃ st, alone (after (elsewhere 0)) (issued wanted) =
        some (st, .error (.domain .idempotencyConflict)) := by
  refine ⟨⟨Machine.Reaches.refl initial, reachable_after _, rfl, ?_⟩, ?_, _, rfl⟩
  · exact .of_filter rfl rfl rfl rfl
  · have hok : (alone initial (issued wanted)).any (fun x => x.2.toOption.isSome) = true := by
      decide +kernel
    obtain ⟨⟨st, a⟩, hrun, ha⟩ := (Option.any_eq_true _ _).mp hok
    cases a with
    | ok a => exact ⟨st, a, hrun⟩
    | error e => cases ha

end Sample.Requests

end LegalHold
