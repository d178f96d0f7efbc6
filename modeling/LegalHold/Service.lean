import LegalHold.Interleave.RelyGuarantee
import LegalHold.Storage

/-!
# The running service

Sessions of the plugin over the database: each runs one operation, any number of
them at a time, their statements interleaved in any order.  Any statement can
fail or lose its reply, a session can be dropped between two statements, and a
transaction left open is rolled back some time after its session has let go of
it.

## Main definitions

* `Answer`, `program` — the program of an operation.
* `machine` — the sessions and the database as a `Machine`.
* `Config`, `initial`, `Reachable` — its configurations.
-/

namespace LegalHold

open Interleave

/-- What an operation of the storage returns to its handler, one form for each kind of
operation. -/
inductive Answer where
  | hold (view : HoldView)
  | holds (views : List HoldView) (nextCursor : Option String)
  | activity (events : List ActivityView) (next : Int)
  | decision (d : GuardDecision)

section

variable [Backend]

/-- The program of an operation, in terms of the statements that it asks of the database. -/
def program : Op → Storage Answer
  | .createHold i => .hold <$> createHold i
  | .addScope i => .hold <$> mutateScope { i with operation := .addScope, add := true }
  | .removeScope i => .hold <$> mutateScope { i with operation := .removeScope, add := false }
  | .releaseHold i => .hold <$> releaseHold i
  | .getHold org h => .hold <$> getHold org h
  | .listHolds org status cursor limit =>
    (fun page => .holds page.1 page.2) <$> listHolds org status cursor limit
  | .listActivity org h after limit =>
    (fun page => .activity page.1 page.2) <$> listActivity org h after limit
  | .checkRetention i => .decision <$> checkRetention i

/-- The plugin's sessions over the database.  By itself the database only lets
time pass. -/
def machine : Machine where
  Op := Op
  Stmt := Stmt
  Fate := Fate
  Move := ℕ
  Shared := Server
  Result := Except StorageError Answer
  Reply := Stmt.Reply
  prog op := program op
  exec := Server.exec
  release i srv := srv.endTx i
  move ticks srv := { srv with clock := srv.clock + ticks }

/-- A configuration of the service: the database with all sessions. -/
abbrev Config : Type := (machine).Config

/-- The configuration before the first session, with an empty database. -/
def initial : Config := ⟨{}, []⟩

/-- The configuration is one that some interleaving of some operations leads to from an empty
database. -/
def Reachable (c : Config) : Prop := Machine.Reaches initial c

/-- The session with number `i` was asked for `op` and has returned `r`. -/
abbrev Returned (c : Config) (i : ℕ) (op : Op) (r : Except StorageError Answer) : Prop :=
  Machine.Returned (M := machine) c i op r

/-! ### Runs on given schedules -/

/-- A move of a run of the service. -/
abbrev Label : Type := (machine).Label

/-- Where a schedule leads from the empty database; a schedule that gets stuck
leads nowhere. -/
def after (schedule : List Label) : Config := ((machine).run initial schedule).getD initial

/-- The configuration that a schedule leads to can be reached. -/
theorem reachable_after (schedule : List Label) : Reachable (after schedule) := by
  unfold after
  cases h : (machine).run initial schedule with
  | none => exact Machine.Reaches.refl initial
  | some c => exact ⟨schedule, h⟩

end

end LegalHold
