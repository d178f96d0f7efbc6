import LegalHold.Interleave.System
import LegalHold.Operation
import Mathlib.Data.List.Sort
import Mathlib.Data.Prod.Lex
import Mathlib.Order.WithBot

/-!
# PostgreSQL under READ COMMITTED

The database as the statements of `storage.rs` see it.  A transaction keeps the
row versions it has written and the locks it has taken; both end with it.  Each
statement reads the rows committed when it runs, together with the transaction's
own writes, and waits while another transaction holds a lock in conflict with
one it needs.  A commit puts the written versions in place at once.

A statement can fail, and its reply can be lost although it was carried out.
Sequence numbers are drawn when a row is proposed and are never given back.  A
statement issued on the pool is a transaction of its own.

`scope_row_id` and `activity_id` are drawn from their sequences only, so their
primary keys are not checked again.

## Main definitions

* `Backend` — what lies outside the source: RFC 3339 formatting, the text order
  of the database and the digest of a JSON value.
* `Query`, `PoolQuery`, `Stmt` — the statements, inside a transaction and on the
  pool, with the rows each of them returns.
* `RowLock.conflicts`, `Lock.conflicts` — the lock table.
* `Server`, `Server.exec` — the database with its open transactions, and the
  execution of one statement.

`Server.log` and `Server.trace` are no tables: they record, for the statements of
properties, the transactions that have committed a change, in commit order, and
every statement carried out.
-/

namespace LegalHold

open Interleave

/-- What the source takes from elsewhere: the digest of a value, the text of a time, and the
collation of the database. -/
class Backend where
  /-- RFC 3339 formatting of a timestamp. -/
  formatTime : Time → Except String String
  /-- The order of texts in the database. -/
  textOrder : LinearOrder String
  /-- SHA-256 of the serialized value. -/
  digest : Json → List UInt8

/-- A text, ordered as the database orders it. -/
@[ext] structure Collated where
  text : String
  deriving DecidableEq

instance [Backend] : LinearOrder Collated :=
  @LinearOrder.lift' Collated String Backend.textOrder Collated.text fun a b h => by
    cases a; cases b; simpa using h

/-- The key of `ORDER BY scope_kind, scope_id, subject NULLS FIRST`. -/
def Scope.sortKey (s : Scope) : Collated ×ₗ Collated ×ₗ WithBot Collated :=
  toLex (⟨s.scopeKind⟩, toLex (⟨s.scopeId⟩, s.subject.map Collated.mk))

/-- A hold's scope rows in the order `load_hold_tx` asks for. -/
def Db.sortedScopes [Backend] (db : Db) (h : String) : List ScopeRow :=
  (db.scopesOf h).insertionSort fun a b => a.sortKey ≤ b.sortKey

/-! ### Statements -/

/-- The errors with which a statement can fail: broken constraints, bounds of types, and failures
of the connection. -/
inductive SqlError where
  | connection
  | uniqueViolation
  | foreignKeyViolation
  | outOfRange
  | negativeLimit
  | noTransaction
  | transactionOpen
  deriving DecidableEq, Repr

/-- The statements that the source issues inside a transaction. -/
inductive Query where
  | selectCommand (key : CommandKey)
  | insertHold (holdId organizationId title reason legalAuthority createdBy : String)
  | lockHold (organizationId holdId : String)
  | insertScope (holdId : String) (scope : Scope) (createdBy : String)
  | deleteScope (holdId : String) (scope : Scope)
  | advanceRevision (holdId : String)
  | releaseHold (holdId releasedBy releaseReason : String)
  | selectHold (organizationId holdId : String)
  | selectScopes (holdId : String)
  | insertActivity (organizationId holdId : String) (kind : ActivityKind) (actorSubject : String)
      (payload : Json)
  | insertCommand (key : CommandKey) (requestHash : List UInt8) (response : Json)

/-- What a statement returns; for a write, the number of rows affected where the
source looks at it. -/
def Query.Rows : Query → Type
  | .selectCommand _ => Option CommandRow
  | .insertHold .. => ℕ
  | .lockHold .. => Option (Status × Int)
  | .insertScope .. => ℕ
  | .deleteScope .. => ℕ
  | .advanceRevision _ => Unit
  | .releaseHold .. => Unit
  | .selectHold .. => Option HoldRow
  | .selectScopes _ => List ScopeRow
  | .insertActivity .. => Unit
  | .insertCommand .. => Unit

/-- A row of `legal_hold_guard_decisions`, the record of a decision of the guard. -/
structure DecisionRow where
  decisionId : String
  actionId : String
  callerInstance : String
  requestHash : List UInt8
  allowed : Bool
  reasonCode : Option String
  matchingHolds : Json
  evaluatedAt : Time
  deriving Inhabited

/-- The statements that the source issues on the pool, each of them a transaction of its own. -/
inductive PoolQuery where
  | listHolds (organizationId : String) (status : Option Status) (cursor : Option String)
      (limit : Int)
  | listActivity (organizationId holdId : String) (after limit : Int)
  | matchHolds (scopeKind scopeId subject : String)
  | insertDecision (decisionId actionId callerInstance : String) (requestHash : List UInt8)
      (allowed : Bool) (reasonCode : Option String) (matchingHolds : Json)

/-- What a statement on the pool returns when it succeeds. -/
def PoolQuery.Rows : PoolQuery → Type
  | .listHolds .. => List String
  | .listActivity .. => List ActivityRow
  | .matchHolds .. => List (String × Int)
  | .insertDecision .. => Unit

/-- Everything that a session asks of the database, inside a transaction or on the pool. -/
inductive Stmt where
  | begin
  | commit
  | query (q : Query)
  | pool (q : PoolQuery)

/-- What a statement returns when it succeeds. -/
def Stmt.Rows : Stmt → Type
  | .begin => Unit
  | .commit => Unit
  | .query q => q.Rows
  | .pool q => q.Rows

/-- The reply to a statement: an error, or what it returns. -/
abbrev Stmt.Reply (s : Stmt) : Type := Except SqlError s.Rows

/-- What becomes of a statement and of its reply, apart from the errors that the statement itself
runs into. -/
inductive Fate where
  /-- It runs, and its reply arrives. -/
  | done
  /-- It does not run; the session sees an error. -/
  | failed
  /-- It runs, but the session sees an error. -/
  | lost
  deriving DecidableEq, Repr

/-! ### Locks -/

/-- The modes of row locks that the statements take. -/
inductive RowLock where
  /-- Taken by a foreign-key check. -/
  | keyShare
  /-- Taken by an update of other columns than the key. -/
  | noKeyUpdate
  /-- Taken by `SELECT … FOR UPDATE`. -/
  | forUpdate
  deriving DecidableEq, Repr

/-- The conflicts between modes of row locks, from the table of the PostgreSQL manual. -/
def RowLock.conflicts : RowLock → RowLock → Bool
  | .keyShare, .forUpdate => true
  | .forUpdate, .keyShare => true
  | .keyShare, _ => false
  | _, .keyShare => false
  | _, _ => true

/-- What a transaction can hold until it ends: a lock on a committed hold, or a
row it has inserted or deleted under a unique key. -/
inductive Lock where
  | row (mode : RowLock) (holdId : String)
  | holdKey (holdId : String)
  | scopeKey (holdId : String) (scope : Scope)
  | commandKey (key : CommandKey)
  deriving DecidableEq, Repr

/-- Two different transactions cannot hold these locks at the same time. -/
def Lock.conflicts : Lock → Lock → Bool
  | .row m h, .row m' h' => h = h' && m.conflicts m'
  | .holdKey h, .holdKey h' => h = h'
  | .scopeKey h s, .scopeKey h' s' => h = h' && s = s'
  | .commandKey k, .commandKey k' => k = k'
  | _, _ => false

/-! ### The server -/

/-- The next values of the two `BIGSERIAL` sequences. -/
structure Sequences where
  activity : Int := 1
  scopeRow : Int := 1
  deriving DecidableEq, Repr

/-- A transaction: whose it is, when it began, what it has written, and which locks it holds. -/
structure Tx where
  /-- Who opened it. -/
  owner : Session Op
  /-- `transaction_timestamp()`. -/
  startedAt : Time
  /-- The row versions written so far. -/
  writes : List Write
  /-- The locks taken so far. -/
  locks : List Lock

/-- A statement that was carried out for a session, or that failed, with the number of commits
before it. -/
structure Event where
  session : Session Op
  stmt : Stmt
  fate : Fate
  /-- How many mutations were committed when it ran. -/
  seen : ℕ

/-- The database with its clock, the log of its commits and the trace of all statements. -/
structure Server where
  db : Db := {}
  decisions : List DecisionRow := []
  seq : Sequences := {}
  clock : Time := 0
  /-- The open transactions. -/
  txs : List Tx := []
  /-- The transactions that have committed a change, in commit order. -/
  log : List Tx := []
  /-- The statements so far. -/
  trace : List Event := []

/-- What a statement does to its own transaction: the writes and the locks that it adds, and the
rows it returns. -/
structure Effect (α : Type) where
  writes : List Write := []
  locks : List Lock := []
  seq : Sequences
  reply : Except SqlError α

/-- The row that `create_hold` inserts, active and at the first revision. -/
def createdRow (holdId organizationId title reason legalAuthority createdBy : String)
    (now : Time) : HoldRow where
  holdId := holdId
  organizationId := organizationId
  title := title
  reason := reason
  legalAuthority := legalAuthority
  status := .active
  revision := 1
  createdBy := createdBy
  createdAt := now
  releasedBy := none
  releasedAt := none
  releaseReason := none

/-- The row after `SET revision = revision + 1`. -/
def HoldRow.advanced (row : HoldRow) : HoldRow := { row with revision := row.revision + 1 }

/-- The row after the `SET` list of `release_hold`. -/
def HoldRow.released (row : HoldRow) (releasedBy releaseReason : String) (now : Time) : HoldRow :=
  { row with
    status := .released
    revision := row.revision + 1
    releasedBy := some releasedBy
    releasedAt := some now
    releaseReason := some releaseReason }

/-- `UPDATE legal_holds SET … WHERE hold_id = h`, the new revision being checked
against the range of `BIGINT`. -/
def updateHold (db : Db) (seq : Sequences) (h : String) (f : HoldRow → HoldRow) : Effect Unit :=
  match db.hold? h with
  | none => { seq := seq, reply := .ok () }
  | some row =>
    if maxI64 < (f row).revision then { seq := seq, reply := .error .outOfRange }
    else { writes := [.updateHold (f row)], locks := [.row .noKeyUpdate h], seq := seq,
           reply := .ok () }

/-- What a statement does in a transaction that began at `now` and sees `db`. -/
def Query.effect [Backend] (db : Db) (now : Time) (seq : Sequences) : (q : Query) → Effect q.Rows
  | .selectCommand key => { seq := seq, reply := .ok (db.command? key) }
  | .insertHold h org title reason authority createdBy =>
    match db.hold? h with
    -- `ON CONFLICT DO NOTHING`.
    | some _ => { seq := seq, reply := .ok (0 : ℕ) }
    | none =>
      { writes := [.insertHold (createdRow h org title reason authority createdBy now)],
        locks := [.holdKey h], seq := seq, reply := .ok (1 : ℕ) }
  | .lockHold org h =>
    match (db.hold? h).filter (·.organizationId = org) with
    | none => { seq := seq, reply := .ok none }
    | some row =>
      { locks := [.row .forUpdate h], seq := seq, reply := .ok (some (row.status, row.revision)) }
  -- The default of `scope_row_id` is drawn before the conflict is looked for.
  | .insertScope h scope createdBy =>
    if maxI64 < seq.scopeRow then { seq := seq, reply := .error .outOfRange }
    else
      let drawn := { seq with scopeRow := seq.scopeRow + 1 }
      if db.HasScope h scope then { seq := drawn, reply := .ok (0 : ℕ) }
      else match db.hold? h with
        | none => { seq := drawn, reply := .error .foreignKeyViolation }
        | some _ =>
          { writes := [.insertScope ⟨scope, seq.scopeRow, h, createdBy, now⟩],
            locks := [.scopeKey h scope, .row .keyShare h], seq := drawn, reply := .ok (1 : ℕ) }
  | .deleteScope h scope =>
    let rows := (db.scopesOf h).filter fun row => row.toScope = scope
    if rows = [] then { seq := seq, reply := .ok (0 : ℕ) }
    else { writes := [.deleteScope h scope], locks := [.scopeKey h scope], seq := seq,
           reply := .ok rows.length }
  | .advanceRevision h => updateHold db seq h HoldRow.advanced
  | .releaseHold h releasedBy reason => updateHold db seq h (·.released releasedBy reason now)
  | .selectHold org h => { seq := seq, reply := .ok ((db.hold? h).filter (·.organizationId = org)) }
  | .selectScopes h =>
    { seq := seq, reply := .ok (db.sortedScopes h) }
  | .insertActivity org h kind actor payload =>
    if maxI64 < seq.activity then { seq := seq, reply := .error .outOfRange }
    else
      -- The number is drawn for the proposed row, before its foreign key is checked.
      let drawn := { seq with activity := seq.activity + 1 }
      match db.hold? h with
      | none => { seq := drawn, reply := .error .foreignKeyViolation }
      | some _ =>
        { writes := [.insertActivity ⟨seq.activity, org, h, kind, actor, payload, now⟩],
          locks := [.row .keyShare h], seq := drawn, reply := .ok () }
  | .insertCommand key hash response =>
    match db.command? key with
    | some _ => { seq := seq, reply := .error .uniqueViolation }
    | none =>
      { writes := [.insertCommand ⟨key, hash, response, now⟩], locks := [.commandKey key],
        seq := seq, reply := .ok () }

namespace Server

/-- The open transaction of a session, if it has one. -/
def tx? (srv : Server) (i : Session Op) : Option Tx := srv.txs.find? fun t => t.owner.id = i.id

/-- The tables as a transaction sees them: the committed rows, with its own writes put in
place. -/
def view (srv : Server) (t : Tx) : Db := srv.db.putAll t.writes

/-- Another transaction holds a lock that is in conflict with one of those that are asked for. -/
def blocks (srv : Server) (i : Session Op) (locks : List Lock) : Bool :=
  srv.txs.any fun t => t.owner.id ≠ i.id && locks.any fun l => t.locks.any l.conflicts

/-- The server with another version of the transaction of the same owner. -/
def setTx (srv : Server) (t : Tx) : Server :=
  { srv with txs := srv.txs.map fun t' => if t'.owner.id = t.owner.id then t else t' }

/-- The transaction of a session ends without effect, and its locks are free. -/
def endTx (srv : Server) (i : Session Op) : Server :=
  { srv with txs := srv.txs.filter fun t => t.owner.id ≠ i.id }

/-- `COMMIT`: the writes are put in place and the locks are given up. -/
def commitTx (srv : Server) (t : Tx) : Server :=
  { srv.endTx t.owner with
    db := srv.db.putAll t.writes
    log := if t.writes.isEmpty then srv.log else srv.log ++ [t] }

/-- The rows a guard evaluation joins, ordered by hold. -/
def matching [Backend] (db : Db) (scopeKind scopeId subject : String) : List (String × Int) :=
  let rows := db.holds.flatMap fun h =>
    (db.scopes.filter fun s => s.holdId = h.holdId ∧ h.status = .active ∧ s.scopeKind = scopeKind ∧
      s.scopeId = scopeId ∧ (s.subject = none ∨ s.subject = some subject)).map fun _ =>
        (h.holdId, h.revision)
  rows.insertionSort fun a b => (⟨a.1⟩ : Collated) ≤ ⟨b.1⟩

/-- A page of the activity of a hold: the rows behind a number, in their order, up to the
limit. -/
def activityPage (db : Db) (organizationId holdId : String) (after limit : Int) :
    List ActivityRow :=
  ((db.activity.filter fun a => a.organizationId = organizationId ∧ a.holdId = holdId ∧
    after < a.activityId).insertionSort fun a b => a.activityId ≤ b.activityId).take limit.toNat

/-- A page of the ids of holds of an organization: those behind the cursor, in the order of the
collation, up to the limit. -/
def holdPage [Backend] (db : Db) (organizationId : String) (status : Option Status)
    (cursor : Option String) (limit : Int) : List String :=
  (((db.holds.filter fun h => h.organizationId = organizationId ∧
    (status = none ∨ status = some h.status) ∧
    (∀ c ∈ cursor, (⟨c⟩ : Collated) < ⟨h.holdId⟩)).map (·.holdId)).insertionSort fun a b =>
      (⟨a⟩ : Collated) ≤ ⟨b⟩).take limit.toNat

/-- A statement on the pool, carried out on what has been committed. -/
def pool [Backend] (srv : Server) : (q : PoolQuery) → Server × Except SqlError q.Rows
  | .listHolds org status cursor limit =>
    (srv, if limit < 0 then .error .negativeLimit
          else .ok (holdPage srv.db org status cursor limit))
  | .listActivity org h after limit =>
    (srv, if limit < 0 then .error .negativeLimit else .ok (activityPage srv.db org h after limit))
  | .matchHolds kind id subject => (srv, .ok (matching srv.db kind id subject))
  | .insertDecision decisionId actionId caller hash allowed reasonCode holds =>
    -- `ON CONFLICT(decision_id) DO NOTHING`.
    if srv.decisions.any fun row => row.decisionId = decisionId then (srv, .ok ())
    else ({ srv with
            decisions := srv.decisions ++
              [⟨decisionId, actionId, caller, hash, allowed, reasonCode, holds, srv.clock⟩] },
          .ok ())

/-- Carry out a statement; `none` while it has to wait for another transaction. -/
def perform [Backend] (i : Session Op) : (s : Stmt) → Server → Option (Server × s.Reply)
  | .begin, srv =>
    match srv.tx? i with
    | some _ => some (srv, .error .transactionOpen)
    | none => some ({ srv with txs := ⟨i, srv.clock, [], []⟩ :: srv.txs }, .ok ())
  | .commit, srv =>
    match srv.tx? i with
    | none => some (srv, .error .noTransaction)
    | some t => some (srv.commitTx t, .ok ())
  | .query q, srv =>
    match srv.tx? i with
    | none => some (srv, .error .noTransaction)
    | some t =>
      let e := q.effect (srv.view t) t.startedAt srv.seq
      if srv.blocks i e.locks then none
      else some ({ srv.setTx { t with writes := t.writes ++ e.writes, locks := t.locks ++ e.locks }
                   with seq := e.seq }, e.reply)
  | .pool q, srv => some (srv.pool q)

/-- Note a statement in the trace, with what becomes of it and how many commits it has seen. -/
def note (srv : Server) (i : Session Op) (s : Stmt) (f : Fate) (seen : ℕ) : Server :=
  { srv with trace := srv.trace ++ [⟨i, s, f, seen⟩] }

/-- Executes a statement of a session with the given fate, unless it has to wait for another
transaction. -/
def exec [Backend] (i : Session Op) (s : Stmt) (f : Fate) (srv : Server) :
    Option (Server × s.Reply) :=
  match f with
  | .done => (srv.perform i s).map fun (srv', r) => (srv'.note i s .done srv.log.length, r)
  | .failed => some (srv.note i s .failed srv.log.length, .error .connection)
  | .lost =>
    (srv.perform i s).map fun (srv', _) => (srv'.note i s .lost srv.log.length, .error .connection)

end Server

end LegalHold
