import LegalHold.Wire

/-!
# The tables of the legal-hold schema

The rows of `001_create_legal_holds.sql`, the four tables that mutations write,
and the elementary writes a transaction collects.  A table is the list of its
rows in physical order.

`HoldRow`, `ScopeRow`, `CommandRow` and `ActivityRow` carry the columns under the
schema's names.  Status, operation and activity kind are closed sets of texts in
the source and enumerations here.

## Main definitions

* `Db` — holds, scopes, command receipts and activity.
* `Db.hold?`, `Db.scopesOf`, `Db.activityOf`, `Db.command?` — the lookups the
  statements are made of.
* `Write`, `Db.put`, `Db.putAll` — row versions written by a transaction.

## Main results

* `Db.hold?_putAll_of_ne` and its siblings — writes that concern other holds
  and other commands change nothing about this one.
-/

namespace LegalHold

/-- A database timestamp, in ticks of the database clock. -/
abbrev Time := ℕ

/-- `legal_holds.status`, which a `CHECK` of the table restricts to two texts. -/
inductive Status where
  | active
  | released
  deriving DecidableEq, Repr, Inhabited

/-- The `operation` that a receipt is keyed by. -/
inductive Operation where
  | createHold
  | addScope
  | removeScope
  | releaseHold
  deriving DecidableEq, Repr, Inhabited

/-- `legal_hold_activity.kind`, which a `CHECK` of the table restricts to four texts. -/
inductive ActivityKind where
  | holdCreated
  | scopeAdded
  | scopeRemoved
  | holdReleased
  deriving DecidableEq, Repr, Inhabited

/-- A row of `legal_holds`, with all of its columns. -/
structure HoldRow where
  holdId : String
  organizationId : String
  title : String
  reason : String
  legalAuthority : String
  status : Status
  revision : Int
  createdBy : String
  createdAt : Time
  releasedBy : Option String
  releasedAt : Option Time
  releaseReason : Option String
  deriving DecidableEq, Repr, Inhabited

/-- The tuple that a scope names; one without a `subject` stands for every subject. -/
structure Scope where
  scopeKind : String
  scopeId : String
  subject : Option String
  deriving DecidableEq, Repr, Inhabited

/-- A row of `legal_hold_scopes`, with the number that the database has drawn for it. -/
structure ScopeRow extends Scope where
  scopeRowId : Int
  holdId : String
  createdBy : String
  createdAt : Time
  deriving DecidableEq, Repr, Inhabited

/-- The primary key of `legal_hold_commands`: who has asked, by which operation, under which
key. -/
structure CommandKey where
  callerInstance : String
  actorSubject : String
  operation : Operation
  idempotencyKey : String
  deriving DecidableEq, Repr, Inhabited

/-- A row of `legal_hold_commands`: the receipt of a command, which repetitions of it are answered
from. -/
structure CommandRow extends CommandKey where
  requestHash : List UInt8
  response : Json
  createdAt : Time
  deriving Inhabited

/-- A row of `legal_hold_activity`, with the number that the database has drawn for it. -/
structure ActivityRow where
  activityId : Int
  organizationId : String
  holdId : String
  kind : ActivityKind
  actorSubject : String
  payload : Json
  createdAt : Time
  deriving Inhabited

/-- The tables that mutations write; the table of decisions is kept apart. -/
structure Db where
  holds : List HoldRow := []
  scopes : List ScopeRow := []
  commands : List CommandRow := []
  activity : List ActivityRow := []
  deriving Inhabited

/-- A version of a row that a transaction has written, or a row that it has deleted. -/
inductive Write where
  | insertHold (row : HoldRow)
  | updateHold (row : HoldRow)
  | insertScope (row : ScopeRow)
  | deleteScope (holdId : String) (scope : Scope)
  | insertCommand (row : CommandRow)
  | insertActivity (row : ActivityRow)
  deriving Inhabited

/-- The hold that a write concerns, if it concerns one. -/
def Write.holdId : Write → Option String
  | .insertHold row => some row.holdId
  | .updateHold row => some row.holdId
  | .insertScope row => some row.holdId
  | .deleteScope holdId _ => some holdId
  | .insertCommand _ => none
  | .insertActivity row => some row.holdId

/-- The key of the receipt that a write brings in, if it brings one in. -/
def Write.commandKey : Write → Option CommandKey
  | .insertCommand row => some row.toCommandKey
  | _ => none

/-- A row is found under its key, keys being unique. -/
theorem find?_of_nodup {α κ : Type} [DecidableEq κ] {key : α → κ} {rows : List α}
    (hrows : (rows.map key).Nodup) {row : α} (hrow : row ∈ rows) :
    rows.find? (fun r => key r = key row) = some row := by
  induction rows with
  | nil => cases hrow
  | cons first rest ih =>
    rw [List.map_cons, List.nodup_cons] at hrows
    rcases List.mem_cons.mp hrow with rfl | hrow
    · simp
    · have hne : key first ≠ key row := fun heq => hrows.1 (heq ▸ List.mem_map_of_mem hrow)
      rw [List.find?_cons_of_neg (by simpa using hne)]
      exact ih hrows.2 hrow

namespace Db

/-- `SELECT … FROM legal_holds WHERE hold_id = h`. -/
def hold? (db : Db) (h : String) : Option HoldRow := db.holds.find? fun row => row.holdId = h

/-- `SELECT … FROM legal_hold_scopes WHERE hold_id = h`, in physical order. -/
def scopesOf (db : Db) (h : String) : List ScopeRow := db.scopes.filter fun row => row.holdId = h

/-- `SELECT … FROM legal_hold_activity WHERE hold_id = h`, in physical order. -/
def activityOf (db : Db) (h : String) : List ActivityRow :=
  db.activity.filter fun row => row.holdId = h

/-- `SELECT … FROM legal_hold_commands` by its primary key. -/
def command? (db : Db) (k : CommandKey) : Option CommandRow :=
  db.commands.find? fun row => row.toCommandKey = k

/-- The hold has a scope row with this very tuple, `NULL` being equal to `NULL`. -/
def HasScope (db : Db) (h : String) (scope : Scope) : Prop :=
  ∃ row ∈ db.scopesOf h, row.toScope = scope

instance (db : Db) (h : String) (scope : Scope) : Decidable (db.HasScope h scope) :=
  inferInstanceAs (Decidable (∃ row ∈ db.scopesOf h, row.toScope = scope))

/-- The tables with one written version in place. -/
def put (db : Db) : Write → Db
  | .insertHold row => { db with holds := db.holds ++ [row] }
  | .updateHold row =>
    { db with holds := db.holds.map fun old => if old.holdId = row.holdId then row else old }
  | .insertScope row => { db with scopes := db.scopes ++ [row] }
  | .deleteScope h scope =>
    { db with scopes := db.scopes.filter fun row => ¬ (row.holdId = h ∧ row.toScope = scope) }
  | .insertCommand row => { db with commands := db.commands ++ [row] }
  | .insertActivity row => { db with activity := db.activity ++ [row] }

/-- Put the writes of a transaction in place, in the order they were made. -/
def putAll (db : Db) (ws : List Write) : Db := ws.foldl put db

@[simp] theorem putAll_nil (db : Db) : db.putAll [] = db := rfl

@[simp] theorem putAll_cons (db : Db) (w : Write) (ws : List Write) :
    db.putAll (w :: ws) = (db.put w).putAll ws := rfl

theorem putAll_append (db : Db) (ws ws' : List Write) :
    db.putAll (ws ++ ws') = (db.putAll ws).putAll ws' := List.foldl_append

theorem holdId_of_hold? {db : Db} {h : String} {row : HoldRow} (hr : db.hold? h = some row) :
    row.holdId = h := by
  have := List.find?_some hr
  simpa using this

/-- A hold is found under its id, ids being unique. -/
theorem hold?_of_mem {db : Db} (hdb : (db.holds.map (·.holdId)).Nodup) {row : HoldRow}
    (hrow : row ∈ db.holds) : db.hold? row.holdId = some row := find?_of_nodup hdb hrow

/-- A receipt is found under its key, keys being unique. -/
theorem command?_of_mem {db : Db} (hdb : (db.commands.map (·.toCommandKey)).Nodup)
    {row : CommandRow} (hrow : row ∈ db.commands) : db.command? row.toCommandKey = some row :=
  find?_of_nodup hdb hrow

/-! ### The lookups after one write -/

@[simp] theorem hold?_insertHold (db : Db) (row : HoldRow) (h : String) :
    (db.put (.insertHold row)).hold? h =
      (db.hold? h).or (if row.holdId = h then some row else none) := by
  simp only [hold?, put, List.find?_append, List.find?_singleton, decide_eq_true_eq]

@[simp] theorem hold?_updateHold (db : Db) (row : HoldRow) (h : String) :
    (db.put (.updateHold row)).hold? h =
      if row.holdId = h then (db.hold? h).map fun _ => row else db.hold? h := by
  -- An update does not move a row to another key.
  have hkey : (fun r : HoldRow => decide (r.holdId = h)) ∘
      (fun old => if old.holdId = row.holdId then row else old) =
        fun r => decide (r.holdId = h) := by
    funext old
    by_cases ho : old.holdId = row.holdId <;> simp [ho]
  simp only [hold?, put, List.find?_map, hkey]
  cases hf : db.holds.find? fun r => decide (r.holdId = h) with
  | none => simp
  | some old =>
    have hold : old.holdId = h := by simpa using List.find?_some hf
    by_cases hr : row.holdId = h
    · simp [hold, hr]
    · simp [hold, hr, Ne.symm hr]

@[simp] theorem hold?_insertScope (db : Db) (row : ScopeRow) (h : String) :
    (db.put (.insertScope row)).hold? h = db.hold? h := rfl

@[simp] theorem hold?_deleteScope (db : Db) (h' : String) (scope : Scope) (h : String) :
    (db.put (.deleteScope h' scope)).hold? h = db.hold? h := rfl

@[simp] theorem hold?_insertCommand (db : Db) (row : CommandRow) (h : String) :
    (db.put (.insertCommand row)).hold? h = db.hold? h := rfl

@[simp] theorem hold?_insertActivity (db : Db) (row : ActivityRow) (h : String) :
    (db.put (.insertActivity row)).hold? h = db.hold? h := rfl

@[simp] theorem scopesOf_insertHold (db : Db) (row : HoldRow) (h : String) :
    (db.put (.insertHold row)).scopesOf h = db.scopesOf h := rfl

@[simp] theorem scopesOf_updateHold (db : Db) (row : HoldRow) (h : String) :
    (db.put (.updateHold row)).scopesOf h = db.scopesOf h := rfl

@[simp] theorem scopesOf_insertScope (db : Db) (row : ScopeRow) (h : String) :
    (db.put (.insertScope row)).scopesOf h =
      db.scopesOf h ++ if row.holdId = h then [row] else [] := by
  simp [scopesOf, put, List.filter_append, List.filter_singleton]

@[simp] theorem scopesOf_deleteScope (db : Db) (h' : String) (scope : Scope) (h : String) :
    (db.put (.deleteScope h' scope)).scopesOf h =
      if h' = h then (db.scopesOf h).filter fun row => row.toScope ≠ scope else db.scopesOf h := by
  simp only [scopesOf, put, List.filter_filter]
  split
  · next heq =>
    subst heq
    refine List.filter_congr fun row _ => ?_
    by_cases hr : row.holdId = h' <;> simp [hr]
  · next hne =>
    refine List.filter_congr fun row _ => ?_
    by_cases hr : row.holdId = h
    · simp [hr, Ne.symm hne]
    · simp [hr]

@[simp] theorem scopesOf_insertCommand (db : Db) (row : CommandRow) (h : String) :
    (db.put (.insertCommand row)).scopesOf h = db.scopesOf h := rfl

@[simp] theorem scopesOf_insertActivity (db : Db) (row : ActivityRow) (h : String) :
    (db.put (.insertActivity row)).scopesOf h = db.scopesOf h := rfl

@[simp] theorem activity_put (db : Db) (w : Write) :
    (db.put w).activity =
      db.activity ++ (match w with | .insertActivity row => [row] | _ => []) := by
  cases w <;> simp [put]

@[simp] theorem commands_put (db : Db) (w : Write) :
    (db.put w).commands =
      db.commands ++ (match w with | .insertCommand row => [row] | _ => []) := by
  cases w <;> simp [put]

@[simp] theorem activityOf_insertActivity (db : Db) (row : ActivityRow) (h : String) :
    (db.put (.insertActivity row)).activityOf h =
      db.activityOf h ++ if row.holdId = h then [row] else [] := by
  simp [activityOf, put, List.filter_append, List.filter_singleton]

@[simp] theorem command?_insertCommand (db : Db) (row : CommandRow) (k : CommandKey) :
    (db.put (.insertCommand row)).command? k =
      (db.command? k).or (if row.toCommandKey = k then some row else none) := by
  simp only [command?, put, List.find?_append, List.find?_singleton, decide_eq_true_eq]

/-! ### Writes that concern something else -/

theorem hold?_put_of_ne {db : Db} {w : Write} {h : String} (hw : w.holdId ≠ some h) :
    (db.put w).hold? h = db.hold? h := by
  cases w with
  | insertHold row => simp [show row.holdId ≠ h from fun e => hw (congrArg some e)]
  | updateHold row => simp [show row.holdId ≠ h from fun e => hw (congrArg some e)]
  | _ => rfl

theorem scopesOf_put_of_ne {db : Db} {w : Write} {h : String} (hw : w.holdId ≠ some h) :
    (db.put w).scopesOf h = db.scopesOf h := by
  cases w with
  | insertScope row => simp [show row.holdId ≠ h from fun e => hw (congrArg some e)]
  | deleteScope h' scope => simp [show h' ≠ h from fun e => hw (congrArg some e)]
  | _ => rfl

theorem activityOf_put_of_ne {db : Db} {w : Write} {h : String} (hw : w.holdId ≠ some h) :
    (db.put w).activityOf h = db.activityOf h := by
  cases w with
  | insertActivity row => simp [show row.holdId ≠ h from fun e => hw (congrArg some e)]
  | _ => rfl

theorem command?_put_of_ne {db : Db} {w : Write} {k : CommandKey} (hw : w.commandKey ≠ some k) :
    (db.put w).command? k = db.command? k := by
  cases w with
  | insertCommand row => simp [show row.toCommandKey ≠ k from fun e => hw (congrArg some e)]
  | _ => rfl

/-- What every single write keeps, all of them keep. -/
theorem putAll_frame {β : Type} (f : Db → β) {ws : List Write}
    (hf : ∀ w ∈ ws, ∀ db : Db, f (db.put w) = f db) (db : Db) : f (db.putAll ws) = f db := by
  induction ws generalizing db with
  | nil => rfl
  | cons w ws ih =>
    rw [putAll_cons, ih (fun w' hw' => hf w' (List.mem_cons_of_mem _ hw')),
      hf w List.mem_cons_self]

theorem hold?_putAll_of_ne {ws : List Write} {h : String} (hws : ∀ w ∈ ws, w.holdId ≠ some h)
    (db : Db) : (db.putAll ws).hold? h = db.hold? h :=
  putAll_frame (·.hold? h) (fun w hw _ => hold?_put_of_ne (hws w hw)) db

theorem scopesOf_putAll_of_ne {ws : List Write} {h : String} (hws : ∀ w ∈ ws, w.holdId ≠ some h)
    (db : Db) : (db.putAll ws).scopesOf h = db.scopesOf h :=
  putAll_frame (·.scopesOf h) (fun w hw _ => scopesOf_put_of_ne (hws w hw)) db

theorem activityOf_putAll_of_ne {ws : List Write} {h : String}
    (hws : ∀ w ∈ ws, w.holdId ≠ some h) (db : Db) :
    (db.putAll ws).activityOf h = db.activityOf h :=
  putAll_frame (·.activityOf h) (fun w hw _ => activityOf_put_of_ne (hws w hw)) db

theorem command?_putAll_of_ne {ws : List Write} {k : CommandKey}
    (hws : ∀ w ∈ ws, w.commandKey ≠ some k) (db : Db) :
    (db.putAll ws).command? k = db.command? k :=
  putAll_frame (·.command? k) (fun w hw _ => command?_put_of_ne (hws w hw)) db

/-- What writes make of a hold row depends on that row only. -/
theorem hold?_putAll_congr {h : String} {ws : List Write} :
    ∀ {db db' : Db}, db.hold? h = db'.hold? h →
      (db.putAll ws).hold? h = (db'.putAll ws).hold? h := by
  induction ws with
  | nil => intro db db' heq; exact heq
  | cons w ws ih =>
    intro db db' heq
    refine ih ?_
    cases w with
    | insertHold row => simp only [hold?_insertHold, heq]
    | updateHold row => simp only [hold?_updateHold, heq]
    | _ => exact heq

/-- What writes make of a hold's scopes depends on those only. -/
theorem scopesOf_putAll_congr {h : String} {ws : List Write} :
    ∀ {db db' : Db}, db.scopesOf h = db'.scopesOf h →
      (db.putAll ws).scopesOf h = (db'.putAll ws).scopesOf h := by
  induction ws with
  | nil => intro db db' heq; exact heq
  | cons w ws ih =>
    intro db db' heq
    refine ih ?_
    cases w with
    | insertScope row => simp only [scopesOf_insertScope, heq]
    | deleteScope h' scope => simp only [scopesOf_deleteScope, heq]
    | _ => exact heq

/-- What writes make of a receipt depends on that receipt only. -/
theorem command?_putAll_congr {k : CommandKey} {ws : List Write} :
    ∀ {db db' : Db}, db.command? k = db'.command? k →
      (db.putAll ws).command? k = (db'.putAll ws).command? k := by
  induction ws with
  | nil => intro db db' heq; exact heq
  | cons w ws ih =>
    intro db db' heq
    refine ih ?_
    cases w with
    | insertCommand row => simp only [command?_insertCommand, heq]
    | _ => exact heq

/-- A receipt, once stored, is still found after any further writes. -/
theorem command?_putAll_of_some {ws : List Write} {k : CommandKey} {row : CommandRow} :
    ∀ {db : Db}, db.command? k = some row → (db.putAll ws).command? k = some row := by
  induction ws with
  | nil => intro db h; exact h
  | cons w ws ih =>
    intro db h
    rw [putAll_cons]
    refine ih ?_
    cases w with
    | insertCommand r => rw [command?_insertCommand, h, Option.some_or]
    | _ => exact h

end Db

end LegalHold
