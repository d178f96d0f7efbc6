import LegalHold.Commits
import LegalHold.Interleave.Protocol

/-!
# Checks and the rows they leave

What a check of the guard has done at any moment of a run, whatever becomes of it: it
asks once, and then proposes one row, the one for what it has found.  A row of
`legal_hold_guard_decisions` is one that a check has proposed, and the row of a
proposal that was carried out is there, its own or an older one under the same id.

## Main definitions

* `RetentionCheck.query`, `RetentionCheck.insert` — the statements of a check.
* `Progress` — how far a check has come.
* `Server.Recorded` — the rows there are, and the proposals.

## Main results

* `program_leads_quiet` — nothing but a check proposes a row.
* `Reachable.progress` — **what every check of a run has done**.
* `Reachable.recorded_rows`, `Reachable.proposed` — **the rows are those of the
  checks**.
-/

namespace LegalHold

open Interleave

/-! ### Who proposes rows -/

/-- The statement proposes a row of `legal_hold_guard_decisions`; no other kind of statement
touches that table. -/
def Stmt.storesDecision : Stmt → Bool
  | .pool (.insertDecision ..) => true
  | _ => false

/-- The statement by which a check proposes this row. -/
def DecisionRow.insert (row : DecisionRow) : Stmt :=
  .pool (.insertDecision row.decisionId row.actionId row.callerInstance row.requestHash row.allowed
    row.reasonCode row.matchingHolds)

theorem Stmt.exists_row {s : Stmt} (h : s.storesDecision = true) (now : Time) :
    ∃ row : DecisionRow, s = row.insert ∧ row.evaluatedAt = now := by
  cases s with
  | pool q =>
    cases q with
    | insertDecision id action caller hash allowed reason holds =>
      exact ⟨⟨id, action, caller, hash, allowed, reason, holds, now⟩, rfl, rfl⟩
    | _ => cases h
  | _ => cases h

section

variable [Backend]

/-- The protocol of a session that proposes no row of evidence; it has just one phase, which it
never leaves. -/
@[reducible] def quiet : Protocol machine where
  Phase := Unit
  start := ()
  may _ s := s.storesDecision = false
  next _ _ _ := ()
  inv _ := True
  holds _ _ _ := True

theorem issue_quiet {operation : String} {s : Stmt} (hs : s.storesDecision = false) :
    quiet.Leads () (issue operation s) fun _ _ => True := by
  refine ⟨hs, fun r => ?_⟩
  cases r <;> exact fun _ _ => trivial

theorem ret_quiet {α : Type} {r : Except StorageError α} :
    quiet.Leads () (ExceptT.mk (.ret r) : Storage α) fun _ _ => True :=
  Protocol.Leads.ret fun _ _ => trivial

theorem replay_quiet {caller actor key : String} {operation : Operation} {hash : List UInt8} :
    quiet.Leads () (replay caller actor operation key hash) fun _ _ => True := by
  refine (issue_quiet rfl).bind fun row _ _ => ?_
  cases row with
  | none => exact ret_quiet
  | some row =>
    dsimp only
    split <;> exact ret_quiet

theorem loadHoldTx_quiet {org h : String} :
    quiet.Leads () (loadHoldTx org h) fun _ _ => True := by
  refine (issue_quiet rfl).bind fun row _ _ => ?_
  cases row with
  | none => exact ret_quiet
  | some row => exact (issue_quiet rfl).bind fun rows _ _ => ret_quiet

theorem conclude_quiet {c : Command} {operation : String} :
    quiet.Leads () (c.conclude operation) fun _ _ => True := by
  refine (issue_quiet rfl).bind fun _ _ _ => ?_
  refine loadHoldTx_quiet.bind fun view _ _ => ?_
  refine (issue_quiet rfl).bind fun _ _ _ => ?_
  exact (issue_quiet rfl).bind fun _ _ _ => ret_quiet

theorem start_quiet {caller actor key operation : String} {op : Operation} {hash : List UInt8}
    {fresh : Storage HoldView} (hfresh : quiet.Leads () fresh fun _ _ => True) :
    quiet.Leads () (do
      issue operation .begin
      match ← replay caller actor op key hash with
      | some response => decodeResponse response
      | none => fresh) fun _ _ => True := by
  refine (issue_quiet rfl).bind fun _ _ _ => ?_
  refine replay_quiet.bind fun response _ _ => ?_
  cases response with
  | some response => exact ret_quiet
  | none => exact hfresh

theorem checked_quiet {org h : String} {revision : Int} {rest : Storage HoldView}
    (hrest : quiet.Leads () rest fun _ _ => True) :
    quiet.Leads () (do
      let (status, found) ← lockHold org h
      if status ≠ .active then refuse .holdReleased
      else if found ≠ revision then refuse .revisionConflict
      else rest) fun _ _ => True := by
  have hlock : quiet.Leads () (lockHold org h) fun _ _ => True := by
    refine (issue_quiet rfl).bind fun (row : Option (Status × Int)) _ _ => ?_
    cases row <;> exact ret_quiet
  refine hlock.bind fun row _ _ => ?_
  dsimp only
  refine Protocol.Leads.ite (fun _ => ret_quiet) fun _ => ?_
  exact Protocol.Leads.ite (fun _ => ret_quiet) fun _ => hrest

theorem changed_quiet {change : Storage ℕ} {h : String} {rest : Storage HoldView}
    (hchange : quiet.Leads () change fun _ _ => True)
    (hrest : quiet.Leads () rest fun _ _ => True) :
    quiet.Leads () (do
      let changed ← change
      if changed ≠ 1 then refuse .scopeConflict
      else
        issue "advance legal hold revision" (.query (.advanceRevision h))
        rest) fun _ _ => True := by
  refine hchange.bind fun changed _ _ => ?_
  refine Protocol.Leads.ite (fun _ => ret_quiet) fun _ => ?_
  exact (issue_quiet rfl).bind fun _ _ _ => hrest

theorem getHold_quiet {org h : String} : quiet.Leads () (getHold org h) fun _ _ => True := by
  refine (issue_quiet rfl).bind fun _ _ _ => ?_
  refine loadHoldTx_quiet.bind fun view _ _ => ?_
  exact (issue_quiet rfl).bind fun _ _ _ => ret_quiet

theorem collect_quiet {org : String} (ids : List String) :
    quiet.Leads () (listHolds.collect org ids) fun _ _ => True := by
  induction ids with
  | nil => exact ret_quiet
  | cons h rest ih =>
    refine getHold_quiet.bind fun view _ _ => ?_
    exact ih.bind fun views _ _ => ret_quiet

/-- **Nothing but a check proposes a row**: the programs of all other operations are quiet. -/
theorem program_leads_quiet (op : Op) :
    (∃ input, op = .checkRetention input) ∨ quiet.Leads () (program op) fun _ _ => True := by
  cases op with
  | createHold input =>
    refine .inr (Protocol.Leads.map (start_quiet ?_))
    refine (issue_quiet rfl).bind fun (inserted : ℕ) _ _ => ?_
    exact Protocol.Leads.ite (fun _ => ret_quiet) fun _ => conclude_quiet (c := input.command)
  | addScope input =>
    refine .inr (Protocol.Leads.map (start_quiet (checked_quiet ?_)))
    exact changed_quiet (issue_quiet rfl) (conclude_quiet (c := input.command true))
  | removeScope input =>
    refine .inr (Protocol.Leads.map (start_quiet (checked_quiet ?_)))
    exact changed_quiet (issue_quiet rfl) (conclude_quiet (c := input.command false))
  | releaseHold input =>
    refine .inr (Protocol.Leads.map (start_quiet (checked_quiet ?_)))
    exact (issue_quiet rfl).bind fun _ _ _ => conclude_quiet (c := input.command)
  | getHold org h => exact .inr getHold_quiet.map
  | listHolds org status cursor limit =>
    refine .inr (Protocol.Leads.map ?_)
    refine (issue_quiet rfl).bind fun rows _ _ => ?_
    exact (collect_quiet _).bind fun views _ _ => ret_quiet
  | listActivity org h after limit =>
    refine .inr (Protocol.Leads.map ?_)
    refine getHold_quiet.bind fun view _ _ => ?_
    refine (issue_quiet rfl).bind fun rows _ _ => ?_
    exact Protocol.Leads.bind (Q := fun _ _ => True) ret_quiet fun events _ _ => ret_quiet
  | checkRetention input => exact .inl ⟨input, rfl⟩

/-! ### How far a check has come -/

/-- The statement by which a check asks for the holds that match. -/
def RetentionCheck.query (input : RetentionCheck) : Stmt :=
  .pool (.matchHolds input.scopeKind input.scopeId input.subject)

/-- The holds that a check finds in these tables, with their revisions. -/
def RetentionCheck.found (input : RetentionCheck) (db : Db) : List (String × Int) :=
  Server.matching db input.scopeKind input.scopeId input.subject

/-- The statement by which a check proposes its row of evidence when it has found `rows`. -/
def RetentionCheck.insert (input : RetentionCheck) (rows : List (String × Int)) : Stmt :=
  .pool (.insertDecision (guardDecision input rows).decisionId input.actionId input.caller
    (Backend.digest (evidence input rows)) (guardDecision input rows).allowed
    (guardDecision input rows).reasonCode (matchingHolds rows))

theorem guardRow_insert (input : RetentionCheck) (rows : List (String × Int)) (now : Time) :
    (guardRow input rows now).insert = input.insert rows := rfl

/-- The program that is left of a check when its query has found `rows`. -/
def RetentionCheck.storing (input : RetentionCheck) (rows : List (String × Int)) :
    Prog Stmt Stmt.Reply (Except StorageError Answer) :=
  .ask (input.insert rows) fun
    | .ok _ => .ret (.ok (.decision (guardDecision input rows)))
    | .error e => .ret (.error (.database "store legal hold guard decision" e))

/-- A check asks, and goes on with what it has found. -/
theorem program_checkRetention (input : RetentionCheck) :
    (program (.checkRetention input)).run = .ask input.query fun
      | .ok rows => input.storing rows
      | .error e => .ret (.error (.database "evaluate legal hold guard" e)) := by
  refine congrArg (Prog.ask _) (funext fun r => ?_)
  cases r with
  | error e => rfl
  | ok rows =>
    refine congrArg (Prog.ask _) (funext fun r' => ?_)
    cases r' <;> rfl

/-- How far a check has come: the statements it has issued, and what is left of it. -/
inductive Progress (srv : Server) (i : Session Op) (input : RetentionCheck) :
    Option (Prog Stmt Stmt.Reply (Except StorageError Answer)) → Prop where
  /-- It has not asked yet. -/
  | asking (events : srv.eventsOf i = []) :
      Progress srv i input (some (program (.checkRetention input)).run)
  /-- It has got its answer. -/
  | storing {n : ℕ} (seen : n ≤ srv.log.length)
      (events : srv.eventsOf i = [⟨i, input.query, .done, n⟩]) :
      Progress srv i input (some (input.storing (input.found (srv.asOf n))))
  /-- It has ended without proposing a row. -/
  | aborted {p : Option (Prog Stmt Stmt.Reply (Except StorageError Answer))}
      (gone : ∀ q, p = some q → ∃ e, q = .ret (.error e))
      (events : srv.eventsOf i = [] ∨ ∃ f n, n ≤ srv.log.length ∧
        srv.eventsOf i = [⟨i, input.query, f, n⟩]) : Progress srv i input p
  /-- It has proposed the row for what it has found, and returned. -/
  | proposed {n m : ℕ} {f : Fate} {r : Except StorageError Answer} (seen : n ≤ srv.log.length)
      (events : srv.eventsOf i = [⟨i, input.query, .done, n⟩,
        ⟨i, input.insert (input.found (srv.asOf n)), f, m⟩])
      (answer : f = .done ∧ r = .ok (.decision (guardDecision input (input.found (srv.asOf n)))) ∨
        f ≠ .done ∧ ∃ e, r = .error e) : Progress srv i input (some (.ret r))

variable {c c' : Config} {i : Session Op} {input : RetentionCheck}

/-- What others do leaves a check where it is. -/
theorem Progress.kept {srv srv' : Server}
    {p : Option (Prog Stmt Stmt.Reply (Except StorageError Answer))}
    (h : Progress srv i input p) (hevents : srv'.eventsOf i = srv.eventsOf i)
    (hlog : srv.log <+: srv'.log) : Progress srv' i input p := by
  have hlen := hlog.length_le
  cases h with
  | asking events => exact .asking (hevents.trans events)
  | storing seen events =>
    rw [← Server.asOf_of_le hlog seen]
    exact .storing (Nat.le_trans seen hlen) (hevents.trans events)
  | aborted gone events =>
    refine .aborted gone ?_
    rw [hevents]
    rcases events with events | ⟨f, n, hn, events⟩
    · exact .inl events
    · exact .inr ⟨f, n, Nat.le_trans hn hlen, events⟩
  | proposed seen events answer =>
    rw [← Server.asOf_of_le hlog seen] at events answer
    exact .proposed (Nat.le_trans seen hlen) (hevents.trans events) answer

/-- The statements of a session after one of its own. -/
theorem Server.eventsOf_exec {srv srv' : Server} {s : Stmt} {f : Fate} {r : s.Reply}
    (h : srv.exec i s f = some (srv', r)) :
    srv'.eventsOf i = srv.eventsOf i ++ [⟨i, s, f, srv.log.length⟩] := by
  obtain ⟨srv₁, hmoved, rfl⟩ := Server.exec_moved h
  rw [Server.eventsOf_note]
  unfold Server.eventsOf
  rw [hmoved.trace]

/-- The statements of a session after one of another session. -/
theorem Server.eventsOf_exec_other {srv srv' : Server} {j : Session Op} {s : Stmt} {f : Fate}
    {r : s.Reply} (h : srv.exec j s f = some (srv', r)) (hne : i.id ≠ j.id) :
    srv'.eventsOf i = srv.eventsOf i := by
  obtain ⟨srv₁, hmoved, rfl⟩ := Server.exec_moved h
  rw [(Frame.note hne srv₁ s f _).events]
  unfold Server.eventsOf
  rw [hmoved.trace]

/-- A statement that fails, or whose reply is lost, returns an error. -/
theorem Server.exec_error {srv srv' : Server} {s : Stmt} {f : Fate} {r : s.Reply}
    (h : srv.exec i s f = some (srv', r)) (hf : f ≠ .done) : r = .error .connection := by
  cases f with
  | done => exact absurd rfl hf
  | failed =>
    simp only [Server.exec, Option.some.injEq, Prod.mk.injEq] at h
    exact h.2.symm
  | lost =>
    obtain ⟨⟨srv₁, r₁⟩, -, heq⟩ := Option.map_eq_some_iff.mp h
    cases heq
    rfl

/-- A statement on the pool whose reply arrives. -/
theorem Server.exec_pool {srv srv' : Server} {q : PoolQuery} {r : Stmt.Reply (.pool q)}
    (h : srv.exec i (.pool q) .done = some (srv', r)) :
    srv' = (srv.pool q).1.note i (.pool q) .done srv.log.length ∧ r = (srv.pool q).2 := by
  cases h
  exact ⟨rfl, rfl⟩

/-- `ON CONFLICT DO NOTHING`: a proposal is never refused. -/
theorem Server.pool_insertDecision_reply (srv : Server) {id action caller : String}
    {hash : List UInt8} {allowed : Bool} {reason : Option String} {holds : Json} :
    (srv.pool (.insertDecision id action caller hash allowed reason holds)).2 = .ok () := by
  simp only [Server.pool]
  split <;> rfl

/-- **One statement of a check** takes it from one stage to the next, whatever becomes of the
statement. -/
theorem Progress.exec {srv srv' : Server} {s : Stmt} {f : Fate} {r : s.Reply}
    {k : s.Reply → Prog Stmt Stmt.Reply (Except StorageError Answer)} (hinv : srv.Inv)
    (h : Progress srv i input (some (.ask s k))) (he : srv.exec i s f = some (srv', r)) :
    Progress srv' i input (some (k r)) := by
  have hevents := Server.eventsOf_exec he
  have hlog := (Server.exec_grown he).log
  generalize hp : (some (.ask s k) : Option (Prog Stmt Stmt.Reply (Except StorageError Answer))) = p
    at h
  cases h with
  | asking events =>
    rw [program_checkRetention] at hp
    cases hp
    rw [events, List.nil_append] at hevents
    by_cases hf : f = .done
    · subst hf
      obtain ⟨rfl, rfl⟩ := Server.exec_pool he
      -- It has seen what is committed.
      have hfound : Server.matching srv.db input.scopeKind input.scopeId input.subject =
          input.found (srv.asOf srv.log.length) := by
        rw [hinv.asOf_length]
        rfl
      show Progress _ i input (some (input.storing _))
      rw [hfound]
      exact .storing (Nat.le_refl _) hevents
    · rw [Server.exec_error he hf]
      exact .aborted (fun q hq => ⟨_, (Option.some.inj hq).symm⟩)
        (.inr ⟨f, _, hlog.length_le, hevents⟩)
  | @storing n seen events =>
    unfold RetentionCheck.storing at hp
    cases hp
    rw [events] at hevents
    have hasOf := Server.asOf_of_le hlog seen
    rw [← hasOf] at hevents ⊢
    have hseen := Nat.le_trans seen hlog.length_le
    by_cases hf : f = .done
    · subst hf
      obtain ⟨-, rfl⟩ := Server.exec_pool he
      rw [Server.pool_insertDecision_reply]
      exact .proposed hseen hevents (.inl ⟨rfl, rfl⟩)
    · rw [Server.exec_error he hf]
      exact .proposed hseen hevents (.inr ⟨hf, _, rfl⟩)
  | aborted gone events =>
    obtain ⟨e, hq⟩ := gone _ hp.symm
    cases hq
  | proposed seen events answer => cases hp

/-- What is said of every session: a check is at some point of its program, and no other
session proposes rows. -/
structure Conduct (srv : Server) (i : Session Op)
    (p : Option (Prog Stmt Stmt.Reply (Except StorageError Answer))) : Prop where
  check : ∀ input, i.op = .checkRetention input → Progress srv i input p
  other : (∃ input, i.op = .checkRetention input) ∨
    ∀ q, p = some q → quiet.Follows (fun _ _ => True) () q

/-- A check that is dropped stays at the stage it has come to. -/
theorem Progress.dropped {srv : Server} {s : Stmt}
    {k : s.Reply → Prog Stmt Stmt.Reply (Except StorageError Answer)}
    (h : Progress srv i input (some (.ask s k))) : Progress srv i input none := by
  generalize hp : (some (.ask s k) : Option (Prog Stmt Stmt.Reply (Except StorageError Answer))) = p
    at h
  cases h with
  | asking events => exact .aborted (fun q hq => by cases hq) (.inl events)
  | storing seen events => exact .aborted (fun q hq => by cases hq) (.inr ⟨_, _, seen, events⟩)
  | aborted gone events => exact .aborted (fun q hq => by cases hq) events
  | proposed seen events answer => cases hp

theorem Conduct.kept {srv srv' : Server}
    {p : Option (Prog Stmt Stmt.Reply (Except StorageError Answer))} (h : Conduct srv i p)
    (hevents : srv'.eventsOf i = srv.eventsOf i) (hlog : srv.log <+: srv'.log) :
    Conduct srv' i p :=
  ⟨fun input hop => (h.check input hop).kept hevents hlog, h.other⟩

/-- A session that starts has made no statement, and stands at the beginning of its program. -/
theorem Conduct.start {srv : Server} (hevents : srv.eventsOf i = []) :
    Conduct srv i (some (program i.op)) := by
  obtain ⟨id, op⟩ := i
  constructor
  · rintro input rfl
    exact .asking hevents
  · refine (program_leads_quiet op).imp_right fun hquiet q hq => ?_
    cases hq
    exact Protocol.Follows.mono (fun _ _ _ => trivial) hquiet

/-- **One statement of a session** keeps its conduct: a check goes on to its next stage, and any
other operation stays quiet. -/
theorem Conduct.exec {srv srv' : Server} {s : Stmt} {f : Fate} {r : s.Reply}
    {k : s.Reply → Prog Stmt Stmt.Reply (Except StorageError Answer)} (hinv : srv.Inv)
    (h : Conduct srv i (some (.ask s k))) (he : srv.exec i s f = some (srv', r)) :
    Conduct srv' i (some (k r)) := by
  refine ⟨fun input hop => (h.check input hop).exec hinv he, h.other.imp_right ?_⟩
  intro hquiet q hq
  cases hq
  exact (hquiet _ rfl).2 r

theorem Conduct.dropped {srv : Server} {s : Stmt}
    {k : s.Reply → Prog Stmt Stmt.Reply (Except StorageError Answer)}
    (h : Conduct srv i (some (.ask s k))) : Conduct srv i none :=
  ⟨fun input hop => (h.check input hop).dropped, h.other.imp_right fun _ q hq => by cases hq⟩

/-- A session that is about to propose a row is a check. -/
theorem Conduct.storing {srv : Server} {s : Stmt}
    {k : s.Reply → Prog Stmt Stmt.Reply (Except StorageError Answer)}
    (h : Conduct srv i (some (.ask s k))) (hstores : s.storesDecision = true) :
    ∃ input, i.op = .checkRetention input := by
  rcases h.other with hop | hquiet
  · exact hop
  · have hmay : s.storesDecision = false := (hquiet _ rfl).1
    rw [hmay] at hstores
    cases hstores

/-- **What every check of a run has done**, and that nobody else proposes rows. -/
theorem Reachable.conduct (h : Reachable c) :
    (∀ i op p, c.procs[i]? = some ⟨op, p⟩ → Conduct c.shared ⟨i, op⟩ p) ∧
      ∀ e ∈ c.shared.trace, e.stmt.storesDecision = true →
        ∃ input, e.session.op = .checkRetention input := by
  refine h.induction (P := fun c => (∀ i op p, c.procs[i]? = some ⟨op, p⟩ →
    Conduct c.shared ⟨i, op⟩ p) ∧ ∀ e ∈ Server.trace c.shared, e.stmt.storesDecision = true →
      ∃ input, e.session.op = .checkRetention input) ?_ ?_
  · exact ⟨fun i op p hi => absurd hi (by simp [initial]), fun e he => absurd he List.not_mem_nil⟩
  rintro c₁ l c₂ (hr : Reachable c₁) ⟨ih, htrace⟩ hstep
  obtain ⟨op, rfl⟩ | ⟨i, f, op, s, k, st, r, hp, he, rfl⟩ |
    ⟨i, ⟨op, q⟩, hq, ⟨-, rfl⟩ | ⟨⟨s, k, hask⟩, rfl⟩⟩ | ⟨m, rfl⟩ := Machine.step_cases hstep
  · refine ⟨fun j op' p hj => ?_, htrace⟩
    rcases Machine.procs_started hj with hj | ⟨rfl, heq⟩
    · exact ih j op' p hj
    · cases heq
      exact .start ((reachable_good hr).fresh ⟨_, op⟩ (Nat.le_refl _)).2
  -- A session takes a step: it goes on by its program, and the others have seen nothing of it.
  · have hself := ih i op _ hp
    refine ⟨fun j op' p hj => ?_, fun e hmem hstores => ?_⟩
    · rcases Machine.procs_set hj with ⟨rfl, heq⟩ | ⟨hne, hj⟩
      · cases heq
        exact hself.exec hr.inv he
      · exact (ih j op' p hj).kept (Server.eventsOf_exec_other he (Ne.symm hne))
          (Server.exec_grown he).log
    · obtain ⟨srv₁, hmoved, rfl⟩ := Server.exec_moved he
      rcases List.mem_append.mp hmem with hmem | hmem
      · exact htrace e (hmoved.trace ▸ hmem) hstores
      · obtain rfl := List.mem_singleton.mp hmem
        exact hself.storing hstores
  · exact ⟨fun j op' p hj => (ih j op' p hj).kept rfl (List.prefix_refl _), htrace⟩
  -- A session is dropped: its transaction goes, and what it has proposed stays.
  · obtain rfl : q = _ := hask
    refine ⟨fun j op' p hj => ?_, htrace⟩
    rcases Machine.procs_set hj with ⟨rfl, heq⟩ | ⟨-, hj⟩
    · cases heq
      exact (ih i op _ hq).dropped.kept rfl (List.prefix_refl _)
    · exact (ih j op' p hj).kept rfl (List.prefix_refl _)
  · exact ⟨fun j op' p hj => (ih j op' p hj).kept rfl (List.prefix_refl _), htrace⟩

theorem Reachable.progress (h : Reachable c) {j : ℕ}
    {p : Option (Prog Stmt Stmt.Reply (Except StorageError Answer))}
    (hp : c.procs[j]? = some ⟨.checkRetention input, p⟩) :
    Progress c.shared ⟨j, .checkRetention input⟩ input p :=
  (h.conduct.1 j _ p hp).check input rfl

/-- A session that is over does nothing any more. -/
theorem Later.ended (h : Later c c') {j : ℕ} {op : Op}
    {p : Option (Prog Stmt Stmt.Reply (Except StorageError Answer))}
    (hp : c.procs[j]? = some ⟨op, p⟩) (hover : ∀ s k, p ≠ some (.ask s k)) :
    c'.procs[j]? = some ⟨op, p⟩ ∧
      c'.shared.eventsOf ⟨j, op⟩ = c.shared.eventsOf ⟨j, op⟩ := by
  refine h.reaches.induction (P := fun d => d.procs[j]? = some ⟨op, p⟩ ∧
    Server.eventsOf d.shared ⟨j, op⟩ = c.shared.eventsOf ⟨j, op⟩) ⟨hp, rfl⟩ ?_
  rintro c₁ l c₂ - ⟨hj, hevents⟩ hstep
  have hlt := (List.getElem?_eq_some_iff.mp hj).1
  obtain ⟨op', rfl⟩ | ⟨i, f, op', s, k, st, r, hi, he, rfl⟩ |
    ⟨i, q, hi, ⟨-, rfl⟩ | ⟨⟨s, k, hask⟩, rfl⟩⟩ | ⟨m, rfl⟩ := Machine.step_cases hstep
  · exact ⟨by rw [List.getElem?_append_left hlt]; exact hj, hevents⟩
  · have hne : i ≠ j := by
      rintro rfl
      cases hi.symm.trans hj
      exact hover s k rfl
    refine ⟨?_, (Server.eventsOf_exec_other he (Ne.symm hne)).trans hevents⟩
    rw [List.getElem?_set_ne hne]
    exact hj
  · exact ⟨hj, hevents⟩
  · have hne : i ≠ j := by
      rintro rfl
      cases hi.symm.trans hj
      exact hover s k hask
    refine ⟨?_, hevents⟩
    rw [List.getElem?_set_ne hne]
    exact hj
  · exact ⟨hj, hevents⟩

/-! ### Rows and proposals -/

/-- Every row of evidence goes back to a proposal that was carried out, and no id occurs twice. -/
structure Server.Recorded (srv : Server) : Prop where
  ids : (srv.decisions.map (·.decisionId)).Nodup
  proposed : ∀ row ∈ srv.decisions, ∃ e ∈ srv.trace, e.stmt = row.insert ∧ e.fate ≠ .failed
  stored : ∀ e ∈ srv.trace, e.fate ≠ .failed → ∀ row : DecisionRow, e.stmt = row.insert →
    ∃ row' ∈ srv.decisions, row'.decisionId = row.decisionId
  past : ∀ row ∈ srv.decisions, row.evaluatedAt ≤ srv.clock

/-- What a statement that is carried out does to the rows. -/
theorem Server.perform_decisions {srv srv' : Server} {s : Stmt} {r : s.Reply}
    (h : srv.perform i s = some (srv', r)) :
    ((∀ row : DecisionRow, s ≠ row.insert) ∧ srv'.decisions = srv.decisions) ∨
      ∃ row : DecisionRow, s = row.insert ∧ row.evaluatedAt = srv.clock ∧
        ((∃ row' ∈ srv.decisions, row'.decisionId = row.decisionId) ∧
            srv'.decisions = srv.decisions ∨
          (∀ row' ∈ srv.decisions, row'.decisionId ≠ row.decisionId) ∧
            srv'.decisions = srv.decisions ++ [row]) := by
  cases hs : s.storesDecision with
  | false =>
    refine .inl ⟨?_, ?_⟩
    · rintro row rfl
      cases hs
    · have hmoved := Server.perform_moved h
      cases hmoved with
      | decided => cases hs
      | _ => rfl
  -- `ON CONFLICT DO NOTHING`: the row is stored unless there is one with its id.
  | true =>
    obtain ⟨row, rfl, hnow⟩ := Stmt.exists_row hs srv.clock
    refine .inr ⟨row, rfl, hnow, ?_⟩
    simp only [DecisionRow.insert, Server.perform, Server.pool] at h
    split at h
    · next hany =>
      cases h
      obtain ⟨row', hrow', hid⟩ := List.any_eq_true.mp hany
      exact .inl ⟨⟨row', hrow', by simpa using hid⟩, rfl⟩
    · next hany =>
      cases h
      refine .inr ⟨fun row' hrow' hid => hany (List.any_eq_true.mpr ⟨row', hrow', ?_⟩), ?_⟩
      · simpa using hid
      · rw [← hnow]

omit [Backend] in
/-- A statement that adds no row and is no proposal that was carried out. -/
theorem Server.Recorded.noted {srv srv' : Server} (h : srv.Recorded) {e : Event}
    (hdecisions : srv'.decisions = srv.decisions) (htrace : srv'.trace = srv.trace ++ [e])
    (hclock : srv.clock ≤ srv'.clock)
    (he : e.fate ≠ .failed → ∀ row : DecisionRow, e.stmt = row.insert →
      ∃ row' ∈ srv.decisions, row'.decisionId = row.decisionId) : srv'.Recorded := by
  refine ⟨?_, ?_, ?_, ?_⟩
  · rw [hdecisions]
    exact h.ids
  · intro row hrow
    rw [hdecisions] at hrow
    obtain ⟨e', he', hstmt, hfate⟩ := h.proposed row hrow
    rw [htrace]
    exact ⟨e', List.mem_append_left _ he', hstmt, hfate⟩
  · intro e' he' hfate row hstmt
    rw [hdecisions]
    rw [htrace] at he'
    rcases List.mem_append.mp he' with he' | he'
    · exact h.stored e' he' hfate row hstmt
    · rw [List.mem_singleton.mp he'] at hfate hstmt
      exact he hfate row hstmt
  · intro row hrow
    rw [hdecisions] at hrow
    exact Nat.le_trans (h.past row hrow) hclock

omit [Backend] in
theorem DecisionRow.id_of_insert {row row' : DecisionRow} (h : row.insert = row'.insert) :
    row.decisionId = row'.decisionId := by
  unfold DecisionRow.insert at h
  cases row
  cases row'
  cases h
  rfl

/-- One statement keeps it so that every row of a decision is one of the proposals. -/
theorem Server.Recorded.exec {srv srv' : Server} (h : srv.Recorded) {s : Stmt} {f : Fate}
    {r : s.Reply} (he : srv.exec i s f = some (srv', r)) : srv'.Recorded := by
  by_cases hf : f = .failed
  · subst hf
    simp only [Server.exec, Option.some.injEq, Prod.mk.injEq] at he
    obtain ⟨rfl, -⟩ := he
    exact h.noted rfl rfl (Nat.le_refl _) fun hfate => absurd rfl hfate
  -- It is carried out, whether its reply arrives or not.
  obtain ⟨srv₁, r₁, hperform, rfl⟩ : ∃ srv₁ r₁, srv.perform i s = some (srv₁, r₁) ∧
      srv' = srv₁.note i s f srv.log.length := by
    cases f with
    | failed => exact absurd rfl hf
    | done =>
      obtain ⟨⟨srv₁, r₁⟩, hperform, heq⟩ := Option.map_eq_some_iff.mp he
      cases heq
      exact ⟨srv₁, _, hperform, rfl⟩
    | lost =>
      obtain ⟨⟨srv₁, r₁⟩, hperform, heq⟩ := Option.map_eq_some_iff.mp he
      cases heq
      exact ⟨srv₁, _, hperform, rfl⟩
  have hmoved := Server.perform_moved hperform
  have htrace : (srv₁.note i s f srv.log.length).trace =
      srv.trace ++ [⟨i, s, f, srv.log.length⟩] := congrArg (· ++ _) hmoved.trace
  have hclock : srv.clock ≤ srv₁.clock := Nat.le_of_eq hmoved.clock.symm
  rcases Server.perform_decisions hperform with ⟨hno, hdecisions⟩ |
    ⟨row, rfl, hnow, ⟨hold, hdecisions⟩ | ⟨hnew, hdecisions⟩⟩
  · exact h.noted hdecisions htrace hclock fun _ row hstmt => absurd hstmt (hno row)
  · refine h.noted hdecisions htrace hclock fun _ row' hstmt => ?_
    rw [← DecisionRow.id_of_insert hstmt]
    exact hold
  · have hmem : ∀ row', row' ∈ (srv₁.note i row.insert f srv.log.length).decisions ↔
        row' ∈ srv.decisions ∨ row' = row := by
      intro row'
      show row' ∈ srv₁.decisions ↔ _
      rw [hdecisions, List.mem_append, List.mem_singleton]
    refine ⟨?_, ?_, ?_, ?_⟩
    · show (srv₁.decisions.map _).Nodup
      rw [hdecisions, List.map_append, List.map_singleton]
      refine List.nodup_append.mpr ⟨h.ids, List.nodup_singleton _, ?_⟩
      intro id hid id' hid'
      obtain ⟨row', hrow', rfl⟩ := List.mem_map.mp hid
      rw [List.mem_singleton.mp hid']
      exact hnew row' hrow'
    · intro row' hrow'
      rw [htrace]
      rcases (hmem row').mp hrow' with hrow' | rfl
      · obtain ⟨e, he, hstmt, hfate⟩ := h.proposed row' hrow'
        exact ⟨e, List.mem_append_left _ he, hstmt, hfate⟩
      · exact ⟨_, List.mem_append_right _ List.mem_cons_self, rfl, hf⟩
    · intro e he hfate row' hstmt
      rw [htrace] at he
      rcases List.mem_append.mp he with he | he
      · obtain ⟨row₀, hrow₀, hid⟩ := h.stored e he hfate row' hstmt
        exact ⟨row₀, (hmem row₀).mpr (.inl hrow₀), hid⟩
      · rw [List.mem_singleton.mp he] at hstmt
        exact ⟨row, (hmem row).mpr (.inr rfl), DecisionRow.id_of_insert hstmt⟩
    · intro row' hrow'
      show row'.evaluatedAt ≤ srv₁.clock
      rw [hmoved.clock]
      rcases (hmem row').mp hrow' with hrow' | rfl
      · exact h.past row' hrow'
      · exact Nat.le_of_eq hnow

/-- **The rows are those that were proposed**, in every run. -/
theorem Reachable.recorded_rows (h : Reachable c) : c.shared.Recorded := by
  refine h.induction (P := fun c => Server.Recorded c.shared) ?_ ?_
  · exact ⟨List.nodup_nil, fun row hrow => absurd hrow List.not_mem_nil,
      fun e he => absurd he List.not_mem_nil, fun row hrow => absurd hrow List.not_mem_nil⟩
  intro c₁ l c₂ _ ih hstep
  obtain ⟨op, rfl⟩ | ⟨i, f, op, s, k, st, r, hp, he, rfl⟩ |
    ⟨i, p, hp, ⟨-, rfl⟩ | ⟨-, rfl⟩⟩ | ⟨m, rfl⟩ := Machine.step_cases hstep
  · exact ih
  · exact ih.exec he
  · exact ⟨ih.ids, ih.proposed, ih.stored, ih.past⟩
  · exact ⟨ih.ids, ih.proposed, ih.stored, ih.past⟩
  · refine ⟨ih.ids, ih.proposed, ih.stored, fun row hrow => ?_⟩
    exact Nat.le_trans (ih.past row hrow) (Nat.le_add_right _ m)

/-- **Every row is one that a check of the run has proposed.** -/
theorem Reachable.proposed (h : Reachable c) {row : DecisionRow} (hrow : row ∈ c.shared.decisions) :
    ∃ j input p n f m, c.procs[j]? = some ⟨.checkRetention input, p⟩ ∧ f ≠ .failed ∧
      c.shared.eventsOf ⟨j, .checkRetention input⟩ =
        [⟨⟨j, .checkRetention input⟩, input.query, .done, n⟩,
          ⟨⟨j, .checkRetention input⟩, input.insert (input.found (c.shared.asOf n)), f, m⟩] ∧
      row = guardRow input (input.found (c.shared.asOf n)) row.evaluatedAt := by
  obtain ⟨e, he, hstmt, hfate⟩ := h.recorded_rows.proposed row hrow
  have hstores : e.stmt.storesDecision = true := by
    rw [hstmt]
    rfl
  obtain ⟨input, hop⟩ := h.conduct.2 e he hstores
  obtain ⟨p, hp, hpop⟩ := h.owned.trace e he
  obtain ⟨⟨j, op⟩, s, f, m⟩ := e
  obtain ⟨op', p⟩ := p
  obtain rfl : op = .checkRetention input := hop
  obtain rfl : op' = .checkRetention input := hpop
  have hmem : (⟨⟨j, .checkRetention input⟩, s, f, m⟩ : Event) ∈
      c.shared.eventsOf ⟨j, .checkRetention input⟩ := List.mem_filter.mpr ⟨he, by simp⟩
  -- Only a check that has proposed its row has issued such a statement.
  have hprogress := h.progress hp
  cases hprogress with
  | asking events =>
    rw [events] at hmem
    cases hmem
  | storing seen events =>
    rw [events] at hmem
    cases List.mem_singleton.mp hmem
    cases hstores
  | aborted gone events =>
    rcases events with events | ⟨f', n, -, events⟩
    · rw [events] at hmem
      cases hmem
    · rw [events] at hmem
      cases List.mem_singleton.mp hmem
      cases hstores
  | @proposed n m' f' r seen events answer =>
    rw [events] at hmem
    rcases List.mem_cons.mp hmem with heq | hmem
    · cases heq
      cases hstores
    · cases List.mem_singleton.mp hmem
      refine ⟨j, input, _, n, _, _, hp, hfate, events, ?_⟩
      rw [← guardRow_insert input _ row.evaluatedAt] at hstmt
      obtain ⟨id, action, caller, hash, allowed, reason, holds, time⟩ := row
      unfold DecisionRow.insert at hstmt
      simp only [guardRow] at hstmt ⊢
      cases hstmt
      rfl

/-- Rows get the time at which they are stored. -/
theorem Later.evaluatedAt (h : Later c c') {row : DecisionRow}
    (hrow : row ∈ c'.shared.decisions) :
    row ∈ c.shared.decisions ∨ c.shared.clock ≤ row.evaluatedAt := by
  have hnew := h.reaches.shared (L := fun srv srv' : Server => srv.clock ≤ srv'.clock ∧
    ∀ row ∈ srv'.decisions, row ∈ srv.decisions ∨ srv.clock ≤ row.evaluatedAt) ?_ ?_ ?_ ?_ ?_
  · exact hnew.2 row hrow
  · exact fun srv => ⟨Nat.le_refl _, fun row hrow => .inl hrow⟩
  -- The property goes along with runs: it is transitive, and every kind of step has it.
  · rintro a b d ⟨hab, hrows⟩ ⟨hbd, hrows'⟩
    refine ⟨Nat.le_trans hab hbd, fun row hrow => ?_⟩
    rcases hrows' row hrow with hrow | htime
    · exact hrows row hrow
    · exact .inr (Nat.le_trans hab htime)
  · intro i s f srv srv' r he
    obtain ⟨srv₁, hmoved, rfl⟩ := Server.exec_moved he
    refine ⟨Nat.le_of_eq hmoved.clock.symm, fun row hrow => ?_⟩
    cases hmoved with
    | decided =>
      rcases List.mem_append.mp hrow with hrow | hrow
      · exact .inl hrow
      · rw [List.mem_singleton.mp hrow]
        exact .inr (Nat.le_refl _)
    | _ => exact .inl hrow
  · exact fun i srv => ⟨Nat.le_refl _, fun row hrow => .inl hrow⟩
  · exact fun m srv => ⟨Nat.le_add_right _ _, fun row hrow => .inl hrow⟩

end

end LegalHold
