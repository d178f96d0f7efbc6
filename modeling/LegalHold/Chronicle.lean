import LegalHold.Record
import LegalHold.Storage
import Mathlib.Order.Basic

/-!
# The chronicle of committed mutations

What the committed transactions amount to, one after the other: each of them
carries out one command, on a hold that allowed it, as a whole — the change, the
activity row and the receipt — and nothing else ever reaches the tables.

`Chronicle` says so of the list of committed transactions.  Everything the
tables promise follows from it alone, without a word about sessions, statements
or locks.

## Main definitions

* `Changes`, `Mutation` — the writes of a command, and of its transaction.
* `replayLog`, `Chronicle` — the tables after a list of transactions, and the
  lists of transactions in which each one is a mutation of what was there.
* `Db.Coherent` — what holds of the tables at any moment.

## Main results

* `Mutation.record?_eq` — **refinement**: the tables of a mutated hold show what
  the command's event makes of the record they showed before.
* `Chronicle.coherent` — after a chronicle the tables are coherent.
-/

namespace LegalHold

open Timeline

/-! ### What a command leaves behind -/

/-- What a change of a command means to the record of its hold, in terms of the abstract
history. -/
def Change.happening : Change → Happening
  | .create title _ legalAuthority => .created title legalAuthority
  | .addScope scope _ => .scopeAdded scope
  | .removeScope scope _ => .scopeRemoved scope
  | .release reason _ => .released reason

namespace Command

/-- The activity row that a command writes, under a drawn number and at a time. -/
def activity (c : Command) (activityId : Int) (now : Time) : ActivityRow :=
  ⟨activityId, c.organizationId, c.holdId, c.change.kind, c.actor, c.change.payload, now⟩

/-- The receipt that a command leaves, with the view that it answers with. -/
def receipt (c : Command) (view : HoldView) (now : Time) : CommandRow :=
  ⟨c.key, c.requestHash, view.toValue, now⟩

/-- The command as an event of its hold. -/
def event (c : Command) (now : Time) : HoldEvent :=
  ⟨c.organizationId, c.actor, now, c.change.happening⟩

/-- The activity row of a command reports it. -/
@[simp] theorem event?_activity (c : Command) (activityId : Int) (now : Time) :
    (c.activity activityId now).event? = some (c.event now) := by
  obtain ⟨caller, actor, idempotencyKey, hash, org, h, change⟩ := c
  cases change <;>
    simp [activity, event, ActivityRow.event?, ActivityRow.happening?, Change.kind,
      Change.payload, Change.happening, Json.field, Json.asStr]

end Command

/-- The hold as the checks under its row lock leave it: found, active, at the
expected revision, with a revision left to take. -/
structure Db.Open (db : Db) (c : Command) (revision : Int) (row : HoldRow) : Prop where
  found : db.hold? c.holdId = some row
  organization : row.organizationId = c.organizationId
  active : row.status = .active
  revision : row.revision = revision
  room : row.revision + 1 ≤ maxI64

/-- The writes by which a command changes its hold, in a transaction that began
at `now` and found `db`. -/
inductive Changes (db : Db) (c : Command) (now : Time) : List Write → Prop where
  | create {title reason legalAuthority : String}
      (change : c.change = .create title reason legalAuthority)
      (absent : db.hold? c.holdId = none) :
      Changes db c now
        [.insertHold (createdRow c.holdId c.organizationId title reason legalAuthority c.actor now)]
  | addScope {scope : Scope} {revision scopeRowId : Int} {row : HoldRow}
      (change : c.change = .addScope scope revision) (opened : db.Open c revision row)
      (absent : ¬ db.HasScope c.holdId scope) (drawn : scopeRowId ≤ maxI64) :
      Changes db c now
        [.insertScope ⟨scope, scopeRowId, c.holdId, c.actor, now⟩, .updateHold row.advanced]
  | removeScope {scope : Scope} {revision : Int} {row : HoldRow}
      (change : c.change = .removeScope scope revision) (opened : db.Open c revision row)
      (present : ((db.scopesOf c.holdId).filter fun row => row.toScope = scope).length = 1) :
      Changes db c now [.deleteScope c.holdId scope, .updateHold row.advanced]
  | release {reason : String} {revision : Int} {row : HoldRow}
      (change : c.change = .release reason revision) (opened : db.Open c revision row) :
      Changes db c now [.updateHold (row.released c.actor reason now)]

/-- The writes of a change concern its hold and no receipt. -/
theorem Changes.holdId {db : Db} {c : Command} {now : Time} {ws : List Write}
    (h : Changes db c now ws) {w : Write} (hw : w ∈ ws) :
    w.holdId = some c.holdId ∧ w.commandKey = none := by
  cases h with
  | create change absent =>
    obtain rfl := List.mem_singleton.mp hw
    exact ⟨rfl, rfl⟩
  | addScope change opened absent drawn =>
    have hrow := Db.holdId_of_hold? opened.found
    simp only [List.mem_cons, List.not_mem_nil, or_false] at hw
    rcases hw with rfl | rfl
    · exact ⟨rfl, rfl⟩
    · exact ⟨congrArg some hrow, rfl⟩
  | removeScope change opened present =>
    have hrow := Db.holdId_of_hold? opened.found
    simp only [List.mem_cons, List.not_mem_nil, or_false] at hw
    rcases hw with rfl | rfl
    · exact ⟨rfl, rfl⟩
    · exact ⟨congrArg some hrow, rfl⟩
  | release change opened =>
    have hrow := Db.holdId_of_hold? opened.found
    obtain rfl := List.mem_singleton.mp hw
    exact ⟨congrArg some hrow, rfl⟩

/-- The row of the hold that a change leaves behind: one that is created where there was none, or
one that was there, with the next revision. -/
theorem Changes.hold? {db : Db} {c : Command} {now : Time} {ws : List Write}
    (h : Changes db c now ws) :
    (db.hold? c.holdId = none ∧ (∃ title reason authority,
      c.change = .create title reason authority ∧ (db.putAll ws).hold? c.holdId =
        some (createdRow c.holdId c.organizationId title reason authority c.actor now))) ∨
    ∃ row revision, c.change.expectedRevision = some revision ∧ db.Open c revision row ∧
      ((∃ reason, c.change = .release reason revision ∧
        (db.putAll ws).hold? c.holdId = some (row.released c.actor reason now)) ∨
      (∀ reason, c.change ≠ .release reason revision) ∧
        (db.putAll ws).hold? c.holdId = some row.advanced) := by
  cases h with
  | create change absent =>
    exact .inl ⟨absent, _, _, _, change, by simp [absent, createdRow]⟩
  | addScope change opened absent drawn =>
    have hrow := Db.holdId_of_hold? opened.found
    refine .inr ⟨_, _, by rw [change]; rfl, opened, .inr ⟨by simp [change], ?_⟩⟩
    simp [HoldRow.advanced, hrow, opened.found]
  | removeScope change opened present =>
    have hrow := Db.holdId_of_hold? opened.found
    refine .inr ⟨_, _, by rw [change]; rfl, opened, .inr ⟨by simp [change], ?_⟩⟩
    simp [HoldRow.advanced, hrow, opened.found]
  | release change opened =>
    have hrow := Db.holdId_of_hold? opened.found
    refine .inr ⟨_, _, by rw [change]; rfl, opened, .inl ⟨_, change, ?_⟩⟩
    simp [HoldRow.released, hrow, opened.found]

/-- A change leaves its hold in place, in the organization of the command. -/
theorem Changes.found {db : Db} {c : Command} {now : Time} {ws : List Write}
    (h : Changes db c now ws) :
    ∃ row, (db.putAll ws).hold? c.holdId = some row ∧ row.organizationId = c.organizationId := by
  rcases h.hold? with ⟨-, title, reason, authority, -, hnew⟩ |
    ⟨old, revision, -, opened, ⟨reason, -, hnew⟩ | ⟨-, hnew⟩⟩
  · exact ⟨_, hnew, rfl⟩
  · exact ⟨_, hnew, opened.organization⟩
  · exact ⟨_, hnew, opened.organization⟩

theorem Changes.exists_hold {db : Db} {c : Command} {now : Time} {ws : List Write}
    (h : Changes db c now ws) : ∃ row, (db.putAll ws).hold? c.holdId = some row := by
  obtain ⟨row, hrow, -⟩ := h.found
  exact ⟨row, hrow⟩

/-- What a change is depends on the rows of its hold only. -/
theorem Changes.congr {db db' : Db} {c : Command} {now : Time} {ws : List Write}
    (h : Changes db c now ws) (hhold : db'.hold? c.holdId = db.hold? c.holdId)
    (hscopes : db'.scopesOf c.holdId = db.scopesOf c.holdId) : Changes db' c now ws := by
  have hopen : ∀ {revision : Int} {row : HoldRow}, db.Open c revision row →
      db'.Open c revision row := fun opened => { opened with found := hhold.trans opened.found }
  cases h with
  | create change absent => exact .create change (hhold.trans absent)
  | addScope change opened absent drawn =>
    refine .addScope change (hopen opened) ?_ drawn
    unfold Db.HasScope
    rw [hscopes]
    exact absent
  | removeScope change opened present =>
    refine .removeScope change (hopen opened) ?_
    rw [hscopes]
    exact present
  | release change opened => exact .release change (hopen opened)

/-- The tables after these transactions, one after the other from empty ones. -/
def replayLog (log : List Tx) : Db := log.foldl (fun db t => db.putAll t.writes) {}

@[simp] theorem replayLog_nil : replayLog [] = {} := rfl

@[simp] theorem replayLog_snoc (log : List Tx) (t : Tx) :
    replayLog (log ++ [t]) = (replayLog log).putAll t.writes := by
  unfold replayLog
  rw [List.foldl_append]
  rfl

section

variable [Backend]

/-- What `load_hold_tx` returns when both of its statements read `db`. -/
def Db.loadHold (db : Db) (organizationId holdId : String) : Except StorageError HoldView :=
  match (db.hold? holdId).filter (·.organizationId = organizationId) with
  | none => .error (.domain .notFound)
  | some row => holdView row (db.sortedScopes holdId)

/-- A view is read from the row of its hold, which is of the organization asked for, and from its
scopes. -/
theorem Db.loadHold_eq_ok {db : Db} {organizationId holdId : String} {view : HoldView} :
    db.loadHold organizationId holdId = .ok view ↔
      ∃ row, db.hold? holdId = some row ∧ row.organizationId = organizationId ∧
        holdView row (db.sortedScopes holdId) = .ok view := by
  unfold loadHold
  constructor
  · intro h
    cases hrow : (db.hold? holdId).filter (·.organizationId = organizationId) with
    | none =>
      rw [hrow] at h
      cases h
    | some row =>
      rw [hrow] at h
      obtain ⟨hfound, horg⟩ := Option.filter_eq_some_iff.mp hrow
      exact ⟨row, hfound, by simpa using horg, h⟩
  · rintro ⟨row, hfound, horg, hmade⟩
    rw [hfound, Option.filter_some, if_pos (by simpa using horg)]
    exact hmade

/-- The scopes of a hold are those rows that name it. -/
theorem Db.mem_sortedScopes {db : Db} {h : String} {row : ScopeRow} :
    row ∈ db.sortedScopes h ↔ row ∈ db.scopes ∧ row.holdId = h := by
  simp [Db.sortedScopes, Db.scopesOf]

/-- A view after some writes depends on the rows of its hold only. -/
theorem Db.loadHold_putAll_congr {db db' : Db} {org h : String} {ws : List Write}
    (hhold : db'.hold? h = db.hold? h) (hscopes : db'.scopesOf h = db.scopesOf h) :
    (db'.putAll ws).loadHold org h = (db.putAll ws).loadHold org h := by
  unfold Db.loadHold Db.sortedScopes
  rw [Db.hold?_putAll_congr hhold, Db.scopesOf_putAll_congr hscopes]

/-- The transaction `t` carries out `c` on what it found in `db`, and answers
with `view`. -/
structure Mutation (db : Db) (t : Tx) (c : Command) (ws : List Write) (activityId : Int)
    (view : HoldView) : Prop where
  command : t.owner.op.command? = some c
  unseen : db.command? c.key = none
  changed : Changes db c t.startedAt ws
  writes : t.writes = ws ++ [.insertActivity (c.activity activityId t.startedAt),
    .insertCommand (c.receipt view t.startedAt)]
  later : ∀ a ∈ db.activityOf c.holdId, a.activityId < activityId
  drawn : 0 < activityId ∧ activityId ≤ maxI64
  view : (db.putAll t.writes).loadHold c.organizationId c.holdId = .ok view

/-- The transaction is a mutation of the tables that it found, with all its writes. -/
def Atomic (db : Db) (t : Tx) : Prop :=
  ∃ c ws activityId view, Mutation db t c ws activityId view

/-- Each transaction is a mutation of what those before it left behind. -/
inductive Chronicle : List Tx → Prop where
  | nil : Chronicle []
  | snoc {log : List Tx} {t : Tx} (before : Chronicle log) (atomic : Atomic (replayLog log) t) :
      Chronicle (log ++ [t])

/-! ### The tables after a mutation -/

namespace Mutation

variable {db : Db} {t : Tx} {c : Command} {ws : List Write} {activityId : Int}
  {view : HoldView}

/-- Every write of a mutation concerns its hold or its receipt. -/
theorem mem_writes (h : Mutation db t c ws activityId view) {w : Write}
    (hw : w ∈ t.writes) :
    (∀ h', w.holdId = some h' → h' = c.holdId) ∧ ∀ k, w.commandKey = some k → k = c.key := by
  rw [h.writes] at hw
  simp only [List.mem_append, List.mem_cons, List.not_mem_nil, or_false] at hw
  rcases hw with hw | rfl | rfl
  · obtain ⟨hid, hkey⟩ := h.changed.holdId hw
    rw [hid, hkey]
    exact ⟨fun h' hh => (Option.some.inj hh).symm, fun k hk => by cases hk⟩
  · exact ⟨fun h' hh => (Option.some.inj hh).symm, fun k hk => by cases hk⟩
  · exact ⟨fun h' hh => (by cases hh), fun k hk => (Option.some.inj hk).symm⟩

/-- Holds other than that of the command keep all of their rows. -/
theorem other_hold (h : Mutation db t c ws activityId view) {h' : String}
    (hne : h' ≠ c.holdId) :
    (db.putAll t.writes).hold? h' = db.hold? h' ∧
      (db.putAll t.writes).scopesOf h' = db.scopesOf h' ∧
      (db.putAll t.writes).activityOf h' = db.activityOf h' := by
  have hother : ∀ w ∈ t.writes, w.holdId ≠ some h' := fun w hw hh =>
    hne ((h.mem_writes hw).1 h' hh)
  exact ⟨Db.hold?_putAll_of_ne hother db, Db.scopesOf_putAll_of_ne hother db,
    Db.activityOf_putAll_of_ne hother db⟩

/-- The activity row and the receipt do not touch holds and scopes. -/
theorem putAll_writes (h : Mutation db t c ws activityId view) (h' : String) :
    (db.putAll t.writes).hold? h' = (db.putAll ws).hold? h' ∧
      (db.putAll t.writes).scopesOf h' = (db.putAll ws).scopesOf h' := by
  rw [h.writes, Db.putAll_append]
  exact ⟨rfl, rfl⟩

/-- The hold's activity grows by the command's row. -/
theorem activityOf_eq (h : Mutation db t c ws activityId view) :
    (db.putAll t.writes).activityOf c.holdId =
      db.activityOf c.holdId ++ [c.activity activityId t.startedAt] := by
  -- The change itself writes no activity row.
  have hchanges : (db.putAll ws).activityOf c.holdId = db.activityOf c.holdId := by
    refine Db.putAll_frame (·.activityOf c.holdId) (fun w hw db => ?_) db
    have hkinds : ∀ row, w ≠ .insertActivity row := by
      rintro row rfl
      cases h.changed <;> simp at hw
    cases w with
    | insertActivity row => exact absurd rfl (hkinds row)
    | _ => rfl
  rw [h.writes, Db.putAll_append, Db.putAll_cons, Db.putAll_cons, Db.putAll_nil]
  show ((db.putAll ws).put _).activityOf c.holdId = _
  rw [Db.activityOf_insertActivity, hchanges]
  simp [Command.activity]

/-- The table of receipts grows by the receipt of the command, at its end. -/
theorem commands_eq (h : Mutation db t c ws activityId view) :
    (db.putAll t.writes).commands = db.commands ++ [c.receipt view t.startedAt] := by
  -- Nor a receipt.
  have hchanges : (db.putAll ws).commands = db.commands := by
    refine Db.putAll_frame (·.commands) (fun w hw db => ?_) db
    have hnone := (h.changed.holdId hw).2
    cases w with
    | insertCommand row => cases hnone
    | _ => rfl
  rw [h.writes, Db.putAll_append, Db.putAll_cons, Db.putAll_cons, Db.putAll_nil]
  show ((db.putAll ws).put _).commands ++ _ = _
  rw [Db.commands_put, hchanges]
  simp

/-- Of all receipts exactly that of the command is new: every other key is looked up as before. -/
theorem command?_eq (h : Mutation db t c ws activityId view) (k : CommandKey) :
    (db.putAll t.writes).command? k =
      (db.command? k).or (if c.key = k then some (c.receipt view t.startedAt) else none) := by
  unfold Db.command?
  rw [h.commands_eq, List.find?_append, List.find?_singleton]
  by_cases hk : c.key = k <;> simp [Command.receipt, hk]

end Mutation

/-! ### Coherent tables -/

/-- What holds of the committed tables at any moment, whatever the commits so far. -/
structure Db.Coherent (db : Db) : Prop where
  /-- The primary key of `legal_holds`. -/
  holds_nodup : (db.holds.map (·.holdId)).Nodup
  /-- Scopes belong to a hold. -/
  orphan : ∀ h, db.hold? h = none → db.scopesOf h = []
  /-- Every activity row reports an event. -/
  reported : ∀ h, (db.activityOf h).map ActivityRow.event? = (db.eventsOf h).map some
  /-- The events of a hold follow its law, and tell what the tables show. -/
  lawful : ∀ h, Record.law.Lawful (db.eventsOf h)
  replayed : ∀ h, Record.law.replay (db.eventsOf h) = db.record? h
  /-- Activity is numbered in the order of commits. -/
  ordered : ∀ h, (db.activityOf h).Pairwise fun a b => a.activityId < b.activityId
  drawn : ∀ h, ∀ a ∈ db.activityOf h, 0 < a.activityId ∧ a.activityId ≤ maxI64
  organization : ∀ h row, db.hold? h = some row → ∀ a ∈ db.activityOf h,
    a.organizationId = row.organizationId

omit [Backend] in
theorem Db.coherent_empty : ({} : Db).Coherent where
  holds_nodup := List.nodup_nil
  orphan _ _ := rfl
  reported _ := rfl
  lawful _ := Law.lawful_nil
  replayed _ := rfl
  ordered _ := List.Pairwise.nil
  drawn _ _ ha := by simp [Db.activityOf] at ha
  organization _ _ _ _ ha := by simp [Db.activityOf] at ha

omit [Backend] in
theorem Db.record?_eq_none {db : Db} {h : String} (hn : db.hold? h = none) :
    db.record? h = none := by
  unfold Db.record?
  rw [hn]
  rfl

omit [Backend] in
theorem Db.record?_eq_some {db : Db} {h : String} {row : HoldRow} (hr : db.hold? h = some row) :
    db.record? h = some (row.record (db.scopesOf h)) := by
  unfold Db.record?
  rw [hr]
  rfl

omit [Backend] in
/-- A record covers a tuple when there is a row with it. -/
theorem HoldRow.covers_record {db : Db} {h : String} {row : HoldRow} {scope : Scope} :
    (row.record (db.scopesOf h)).Covers scope ↔ db.HasScope h scope := by
  simp [Record.Covers, HoldRow.record, Db.HasScope]

/-- The columns that a hold is created with and that no later command changes. -/
def HoldRow.origin (row : HoldRow) : String × String × String × String × String × Time :=
  (row.organizationId, row.title, row.reason, row.legalAuthority, row.createdBy, row.createdAt)

namespace Mutation

variable {db : Db} {t : Tx} {c : Command} {ws : List Write} {activityId : Int} {view : HoldView}

/-- **A hold is never deleted**, and keeps what it was created with. -/
theorem origin_eq (h : Mutation db t c ws activityId view) {h' : String} {row : HoldRow}
    (hr : db.hold? h' = some row) :
    ∃ row', (db.putAll t.writes).hold? h' = some row' ∧ row'.origin = row.origin := by
  by_cases hh : h' = c.holdId
  · subst hh
    rw [(h.putAll_writes c.holdId).1]
    rcases h.changed.hold? with ⟨hnone, -⟩ |
      ⟨old, revision, -, opened, ⟨reason, -, hnew⟩ | ⟨-, hnew⟩⟩
    · rw [hr] at hnone
      cases hnone
    · cases hr.symm.trans opened.found
      exact ⟨_, hnew, rfl⟩
    · cases hr.symm.trans opened.found
      exact ⟨_, hnew, rfl⟩
  · exact ⟨row, (h.other_hold hh).1.trans hr, rfl⟩

/-- The record of the hold allows what the command does to it. -/
theorem admits (h : Mutation db t c ws activityId view) :
    Record.admits (db.record? c.holdId) (c.event t.startedAt) := by
  cases h.changed with
  | @create title reason authority change absent =>
    rw [Db.record?_eq_none absent]
    exact ⟨title, authority, by simp [Command.event, change, Change.happening]⟩
  | addScope change opened absent drawn =>
    rw [Db.record?_eq_some opened.found]
    simp only [Record.admits, Command.event, change, Change.happening, Record.Allows]
    exact ⟨opened.active, fun hc => absent (HoldRow.covers_record.mp hc)⟩
  | removeScope change opened present =>
    rw [Db.record?_eq_some opened.found]
    simp only [Record.admits, Command.event, change, Change.happening, Record.Allows]
    refine ⟨opened.active, HoldRow.covers_record.mpr ?_⟩
    obtain ⟨row, hrow⟩ := List.exists_mem_of_length_pos (by rw [present]; exact Nat.one_pos)
    obtain ⟨hmem, heq⟩ := List.mem_filter.mp hrow
    exact ⟨row, hmem, by simpa using heq⟩
  | release change opened =>
    rw [Db.record?_eq_some opened.found]
    simp only [Record.admits, Command.event, change, Change.happening, Record.Allows]
    exact opened.active

/-- **Refinement**: the tables then show what the command's event makes of the
record they showed. -/
theorem record?_eq (h : Mutation db t c ws activityId view) (hdb : db.Coherent) :
    (db.putAll t.writes).record? c.holdId =
      Record.apply (db.record? c.holdId) (c.event t.startedAt) := by
  obtain ⟨hhold, hscopes⟩ := h.putAll_writes c.holdId
  unfold Db.record?
  rw [hhold, hscopes]
  cases h.changed with
  | create change absent =>
    have hnone := hdb.orphan _ absent
    simp [absent, hnone, createdRow, Record.apply, Command.event, change, Change.happening,
      HoldRow.record, Record.created]
  | @addScope scope revision scopeRowId row change opened absent drawn =>
    have hrow := Db.holdId_of_hold? opened.found
    -- The unique key has refused a second row, as `Record.insert` would.
    have hno : ¬ (row.record (db.scopesOf c.holdId)).Covers scope := fun hc =>
      absent (HoldRow.covers_record.mp hc)
    simp only [Db.putAll_cons, Db.putAll_nil, Db.hold?_updateHold, Db.hold?_insertScope,
      Db.scopesOf_updateHold, Db.scopesOf_insertScope, opened.found, HoldRow.advanced, hrow,
      if_true, Option.map_some, Record.apply, Command.event, change, Change.happening,
      Record.insert, if_neg hno]
    simp [HoldRow.record]
  | removeScope change opened present =>
    have hrow := Db.holdId_of_hold? opened.found
    simp only [Db.putAll_cons, Db.putAll_nil, Db.hold?_updateHold, Db.hold?_deleteScope,
      Db.scopesOf_updateHold, Db.scopesOf_deleteScope, opened.found, HoldRow.advanced, hrow,
      if_true, Option.map_some, Record.apply, Command.event, change, Change.happening,
      Record.erase]
    simp [HoldRow.record, List.filter_map, Function.comp_def]
  | release change opened =>
    have hrow := Db.holdId_of_hold? opened.found
    simp [HoldRow.released, hrow, opened.found, Record.apply, Command.event, change,
      Change.happening, HoldRow.record, Record.release]

theorem eventsOf_eq (h : Mutation db t c ws activityId view) :
    (db.putAll t.writes).eventsOf c.holdId = db.eventsOf c.holdId ++ [c.event t.startedAt] := by
  unfold Db.eventsOf
  rw [h.activityOf_eq, List.filterMap_append]
  simp

/-- The events of a hold are only ever added to. -/
theorem eventsOf_mono (h : Mutation db t c ws activityId view) (hold : String) :
    db.eventsOf hold <+: (db.putAll t.writes).eventsOf hold := by
  by_cases hh : hold = c.holdId
  · rw [hh, h.eventsOf_eq]
    exact List.prefix_append _ _
  · have hsame : (db.putAll t.writes).eventsOf hold = db.eventsOf hold := by
      unfold Db.eventsOf
      rw [(h.other_hold hh).2.2]
    simp only [hsame, List.prefix_refl]

/-- The ids of holds stay unique under a mutation. -/
theorem holds_nodup (h : Mutation db t c ws activityId view)
    (hdb : (db.holds.map (·.holdId)).Nodup) :
    ((db.putAll t.writes).holds.map (·.holdId)).Nodup := by
  have hupdate : ∀ (db : Db) (row : HoldRow),
      (db.put (.updateHold row)).holds.map (·.holdId) = db.holds.map (·.holdId) := by
    intro db row
    simp only [Db.put, List.map_map]
    refine List.map_congr_left fun old _ => ?_
    simp only [Function.comp]
    split
    · next heq => exact heq.symm
    · rfl
  rw [h.writes, Db.putAll_append]
  show ((db.putAll ws).holds.map (·.holdId)).Nodup
  cases h.changed with
  | create change absent =>
    -- `absent` is about the lookup; the id is not in the table either.
    have hfresh : c.holdId ∉ db.holds.map (·.holdId) := by
      intro hmem
      obtain ⟨row, hrow, hid⟩ := List.mem_map.mp hmem
      have := List.find?_eq_none.mp absent row hrow
      simp [hid] at this
    simp only [Db.putAll_cons, Db.putAll_nil, Db.put, List.map_append]
    exact List.nodup_append.mpr ⟨hdb, by simp, fun a ha b hb => by
      simp only [List.map_cons, List.map_nil, List.mem_singleton] at hb
      subst hb
      rintro rfl
      exact hfresh ha⟩
  | addScope change opened absent drawn =>
    rw [Db.putAll_cons, Db.putAll_cons, Db.putAll_nil, hupdate]
    exact hdb
  | removeScope change opened present =>
    rw [Db.putAll_cons, Db.putAll_cons, Db.putAll_nil, hupdate]
    exact hdb
  | release change opened =>
    rw [Db.putAll_cons, Db.putAll_nil, hupdate]
    exact hdb

/-- A hold keeps what it was created with. -/
theorem organization_eq (h : Mutation db t c ws activityId view) {row : HoldRow}
    (hr : (db.putAll t.writes).hold? c.holdId = some row) :
    row.organizationId = c.organizationId := by
  rw [(h.putAll_writes c.holdId).1] at hr
  rcases h.changed.hold? with ⟨-, title, reason, authority, -, hnew⟩ |
    ⟨old, revision, -, opened, ⟨reason, -, hnew⟩ | ⟨-, hnew⟩⟩
  · rw [hnew] at hr
    cases hr
    rfl
  · rw [hnew] at hr
    cases hr
    exact opened.organization
  · rw [hnew] at hr
    cases hr
    exact opened.organization

/-- A mutation leaves a row for its hold. -/
theorem exists_hold (h : Mutation db t c ws activityId view) :
    ∃ row, (db.putAll t.writes).hold? c.holdId = some row := by
  rw [(h.putAll_writes c.holdId).1]
  exact h.changed.exists_hold

/-- **A mutation keeps the tables coherent**: what the rows of a hold say of it, the activity says
too. -/
theorem coherent (h : Mutation db t c ws activityId view) (hdb : db.Coherent) :
    (db.putAll t.writes).Coherent where
  holds_nodup := h.holds_nodup hdb.holds_nodup
  orphan h' hn := by
    by_cases hh : h' = c.holdId
    · subst hh
      obtain ⟨row, hrow⟩ := h.exists_hold
      rw [hrow] at hn
      cases hn
    · obtain ⟨hhold, hscopes, -⟩ := h.other_hold hh
      rw [hhold] at hn
      rw [hscopes]
      exact hdb.orphan h' hn
  reported h' := by
    by_cases hh : h' = c.holdId
    · subst hh
      rw [h.eventsOf_eq, h.activityOf_eq, List.map_append, List.map_append, hdb.reported]
      simp
    · unfold Db.eventsOf
      rw [(h.other_hold hh).2.2]
      exact hdb.reported h'
  lawful h' := by
    by_cases hh : h' = c.holdId
    · subst hh
      rw [h.eventsOf_eq]
      refine Law.lawful_snoc.mpr ⟨hdb.lawful _, ?_⟩
      rw [hdb.replayed]
      exact h.admits
    · unfold Db.eventsOf
      rw [(h.other_hold hh).2.2]
      exact hdb.lawful h'
  replayed h' := by
    by_cases hh : h' = c.holdId
    · subst hh
      rw [h.eventsOf_eq, Law.replay_snoc, hdb.replayed, h.record?_eq hdb]
      rfl
    · obtain ⟨hhold, hscopes, hactivity⟩ := h.other_hold hh
      unfold Db.eventsOf Db.record?
      rw [hhold, hscopes, hactivity]
      exact hdb.replayed h'
  ordered h' := by
    by_cases hh : h' = c.holdId
    · subst hh
      rw [h.activityOf_eq]
      refine List.pairwise_append.mpr ⟨hdb.ordered _, List.pairwise_singleton _ _, ?_⟩
      intro a ha b hb
      obtain rfl := List.mem_singleton.mp hb
      exact h.later a ha
    · rw [(h.other_hold hh).2.2]
      exact hdb.ordered h'
  drawn h' a ha := by
    by_cases hh : h' = c.holdId
    · subst hh
      rw [h.activityOf_eq] at ha
      rcases List.mem_append.mp ha with ha | ha
      · exact hdb.drawn _ a ha
      · obtain rfl := List.mem_singleton.mp ha
        exact h.drawn
    · rw [(h.other_hold hh).2.2] at ha
      exact hdb.drawn h' a ha
  organization h' row hr a ha := by
    by_cases hh : h' = c.holdId
    · subst hh
      have horg := h.organization_eq hr
      rw [h.activityOf_eq] at ha
      rcases List.mem_append.mp ha with ha | ha
      · rw [horg]
        cases hold : db.hold? c.holdId with
        | none =>
          -- Without a hold there were no events, so there is no older row.
          have := hdb.replayed c.holdId
          rw [Db.record?_eq_none hold] at this
          have hnil := (Record.replay_eq_none_iff (hdb.lawful _)).mp this
          have hrep := hdb.reported c.holdId
          rw [hnil] at hrep
          simp only [List.map_nil, List.map_eq_nil_iff] at hrep
          rw [hrep] at ha
          cases ha
        | some old =>
          rw [hdb.organization _ old hold a ha]
          rcases h.changed.hold? with ⟨habsent, -⟩ | ⟨old', revision, -, opened, -⟩
          · rw [hold] at habsent
            cases habsent
          · rw [opened.found] at hold
            cases hold
            exact opened.organization
      · obtain rfl := List.mem_singleton.mp ha
        exact horg.symm
    · obtain ⟨hhold, -, hactivity⟩ := h.other_hold hh
      rw [hhold] at hr
      rw [hactivity] at ha
      exact hdb.organization h' row hr a ha

end Mutation

namespace Chronicle

variable {log : List Tx}

/-- **After a chronicle the tables are coherent**, by induction on its mutations. -/
theorem coherent (h : Chronicle log) : (replayLog log).Coherent := by
  induction h with
  | nil => exact Db.coherent_empty
  | snoc before atomic ih =>
    obtain ⟨c, ws, activityId, view, hm⟩ := atomic
    rw [replayLog_snoc]
    exact hm.coherent ih

/-- The beginning of a chronicle is a chronicle. -/
theorem take (h : Chronicle log) (n : ℕ) : Chronicle (log.take n) := by
  induction h with
  | nil => simpa using Chronicle.nil
  | @snoc log t before atomic ih =>
    rcases Nat.lt_or_ge log.length n with hlt | hge
    · rw [List.take_of_length_le (by simp; omega)]
      exact .snoc before atomic
    · rw [List.take_append_of_le_length hge]
      exact ih

/-- Each transaction of a chronicle is a mutation of what the ones before it
left behind. -/
theorem atomic (h : Chronicle log) {n : ℕ} {t : Tx} (hn : log[n]? = some t) :
    Atomic (replayLog (log.take n)) t := by
  induction h with
  | nil => simp at hn
  | @snoc log t' before atomic ih =>
    rcases Nat.lt_or_ge n log.length with hlt | hge
    · rw [List.getElem?_append_left hlt] at hn
      rw [List.take_append_of_le_length (Nat.le_of_lt hlt)]
      exact ih hn
    · rw [List.getElem?_append_right hge] at hn
      obtain ⟨h0, ht⟩ := List.getElem?_eq_some_iff.mp hn
      have hlen : n = log.length := by simp at h0; omega
      subst hlen
      simp only [Nat.sub_self, List.getElem_cons_zero] at ht
      subst ht
      rw [List.take_append_of_le_length (Nat.le_refl _), List.take_length]
      exact atomic

/-- **What every mutation keeps** holds from one moment on. -/
theorem preserves {P : Db → Prop} (h : Chronicle log) {n m : ℕ} (hnm : n ≤ m)
    (h0 : P (replayLog (log.take n)))
    (hs : ∀ db t c ws activityId view, db.Coherent → Mutation db t c ws activityId view →
      P db → P (db.putAll t.writes)) :
    P (replayLog (log.take m)) := by
  induction m, hnm using Nat.le_induction with
  | base => exact h0
  | succ m hnm ih =>
    rcases Nat.lt_or_ge m log.length with hlt | hge
    · obtain ⟨t, ht⟩ : ∃ t, log[m]? = some t := ⟨_, List.getElem?_eq_getElem hlt⟩
      obtain ⟨c, ws, activityId, view, hm⟩ := h.atomic ht
      rw [List.take_add_one, ht]
      show P (replayLog (log.take m ++ [t]))
      rw [replayLog_snoc]
      exact hs _ t c ws activityId view (h.take m).coherent hm ih
    · rw [List.take_of_length_le (by omega)]
      rwa [List.take_of_length_le hge] at ih

end Chronicle

end

end LegalHold
