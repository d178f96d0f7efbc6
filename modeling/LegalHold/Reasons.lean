import LegalHold.Matching

/-!
# Why an operation is refused

An operation that ends in a domain failure has found a reason for it in what was committed
when one of its statements ran: the receipt of another request, a hold that is there already,
is missing, released or at another revision, a scope that is there or is not.  What is carried
out has met none of these where its transaction was added to the log.

## Main definitions

* `Command.Refuses`, `Op.Refuses` — the reasons, in a given state.
* `Explained` — a domain failure has its reason in something the session has seen.

## Main results

* `program_explained` — every operation explains its domain failures.
* `refusals_exact` — **a refusal has its reason, and what is carried out has none**.
-/

namespace LegalHold

open Interleave

/-- The revision that a change expects; a new hold has none. -/
def Change.expectedRevision? : Change → Option Int
  | .create .. => none
  | .addScope _ revision => some revision
  | .removeScope _ revision => some revision
  | .release _ revision => some revision

/-- The scopes of the hold do not admit the change. -/
def Change.Clashes (db : Db) (holdId : String) : Change → Prop
  | .addScope scope _ => db.HasScope holdId scope
  | .removeScope scope _ => ¬ db.HasScope holdId scope
  | _ => False

/-- The tables have no hold with this id that belongs to the organization. -/
def Db.Lacks (db : Db) (organizationId holdId : String) : Prop :=
  ∀ row, db.hold? holdId = some row → row.organizationId ≠ organizationId

/-- The reasons for which a command is refused in a state of the tables. -/
inductive Command.Refuses (c : Command) (db : Db) : DomainFailure → Prop
  /-- Its key has been used for another request. -/
  | mismatched {row : CommandRow} (found : db.command? c.key = some row)
      (other : row.requestHash ≠ c.requestHash) : c.Refuses db .idempotencyConflict
  /-- The hold to create is there. -/
  | taken (new : c.change.expectedRevision? = none) (found : db.hold? c.holdId ≠ none) :
      c.Refuses db .idempotencyConflict
  | missing {revision : Int} (expects : c.change.expectedRevision? = some revision)
      (lacks : db.Lacks c.organizationId c.holdId) : c.Refuses db .notFound
  | released {revision : Int} {row : HoldRow} (expects : c.change.expectedRevision? = some revision)
      (found : db.hold? c.holdId = some row) (organization : row.organizationId = c.organizationId)
      (released : row.status ≠ .active) : c.Refuses db .holdReleased
  | outdated {revision : Int} {row : HoldRow} (expects : c.change.expectedRevision? = some revision)
      (found : db.hold? c.holdId = some row) (organization : row.organizationId = c.organizationId)
      (active : row.status = .active) (other : row.revision ≠ revision) :
      c.Refuses db .revisionConflict
  | clashing {revision : Int} {row : HoldRow} (expects : c.change.expectedRevision? = some revision)
      (expected : Expected c revision row db) (clashes : c.change.Clashes db c.holdId) :
      c.Refuses db .scopeConflict

/-- Why an operation is refused.  The holds of a page are there, and a check asks for none. -/
def Op.Refuses (op : Op) (db : Db) (failure : DomainFailure) : Prop :=
  match op with
  | .createHold input => input.command.Refuses db failure
  | .addScope input => (input.command true).Refuses db failure
  | .removeScope input => (input.command false).Refuses db failure
  | .releaseHold input => input.command.Refuses db failure
  | .getHold org hold => failure = .notFound ∧ db.Lacks org hold
  | .listActivity org hold _ _ => failure = .notFound ∧ db.Lacks org hold
  | .listHolds .. => False
  | .checkRetention _ => False

/-- If the session has met a domain failure, it has seen a state with a reason for it. -/
def Explained (i : Session Op) (F : Db → DomainFailure → Prop) (error : StorageError)
    (srv : Server) : Prop :=
  ∀ failure, error = .domain failure → ∃ e ∈ srv.eventsOf i, F (srv.asOf e.seen) failure

/-- The result is no failure of the domain: a value, or an error of the database or of a stored
value. -/
def NoDomain {α : Type} (r : Except StorageError α) : Prop :=
  ∀ failure, r ≠ .error (.domain failure)

/-- The result is no conflict of keys. -/
def NoConflict {α : Type} (r : Except StorageError α) : Prop :=
  r ≠ .error (.domain .idempotencyConflict)

section

variable [Backend] {i : Session Op} {c : Command} {t : Tx} {F : Db → DomainFailure → Prop}

/-! ### Failures without a reason to give -/

omit [Backend] in
theorem Explained.database {operation : String} {source : SqlError} {srv : Server} :
    Explained i F (.database operation source) srv := fun _ h => by cases h

omit [Backend] in
/-- A statement by itself meets no domain failure. -/
theorem issue_noDomain (operation : String) (s : Stmt) :
    (issue operation s).run.Leaves NoDomain := by
  intro r
  cases r with
  | ok rows => exact fun failure h => by cases h
  | error e => exact fun failure h => by cases h

/-- A program that meets no domain failure explains all that it meets. -/
theorem Triple.explained {α : Type} {P : Server → Prop} {x : Storage α} {R : α → Server → Prop}
    {E : StorageError → Server → Prop} (h : Triple discipline i P x.run (Ends R E))
    (hx : x.run.Leaves NoDomain) : Triple discipline i P x.run (Ends R (Explained i F)) := by
  refine (h.leaves hx).conseq (fun _ _ h => h) fun r srv _ hr => ?_
  cases r with
  | ok a => exact hr.1
  | error e => exact fun failure hfailure => absurd (congrArg Except.error hfailure) (hr.2 failure)

/-- One that meets a conflict at most, and does not return one. -/
theorem Triple.explained_of_onlyConflicts {P : Server → Prop} {x : Storage HoldView}
    (h : Triple discipline i P x.run fun r _ => OnlyConflicts r) (hx : x.run.Leaves NoConflict) :
    Triple discipline i P x.run (Ends (fun _ _ => True) (Explained i F)) := by
  refine (h.leaves hx).conseq (fun _ _ h => h) fun r srv _ hr => ?_
  cases r with
  | ok view => exact trivial
  | error e =>
    rintro failure rfl
    obtain rfl := hr.1 failure rfl
    exact absurd rfl hr.2

omit [Backend] in
theorem NoConflict.bind {α β : Type} {x : Storage α} {f : α → Storage β}
    (hx : x.run.Leaves NoConflict) (hf : ∀ a, (f a).run.Leaves NoConflict) :
    (x >>= f).run.Leaves NoConflict := by
  refine Prog.Leaves.bind hx fun r hr => ?_
  cases r with
  | ok a => exact hf a
  | error e =>
    intro h
    cases h
    exact hr rfl

omit [Backend] in
theorem issue_noConflict (operation : String) (s : Stmt) :
    (issue operation s).run.Leaves NoConflict := by
  intro r
  cases r with
  | ok rows => exact fun h => by cases h
  | error e => exact fun h => by cases h

theorem loadHoldTx_noConflict (org hold : String) :
    (loadHoldTx org hold).run.Leaves NoConflict := by
  refine NoConflict.bind (issue_noConflict _ _) fun row => ?_
  cases row with
  | none => exact fun h => by cases h
  | some row =>
    refine NoConflict.bind (issue_noConflict _ _) fun rows h => ?_
    obtain ⟨message, hmessage⟩ := holdView_error h
    cases hmessage

theorem conclude_noConflict (c : Command) (operation : String) :
    (c.conclude operation).run.Leaves NoConflict := by
  refine NoConflict.bind (issue_noConflict _ _) fun _ => ?_
  refine NoConflict.bind (loadHoldTx_noConflict _ _) fun view => ?_
  refine NoConflict.bind (issue_noConflict _ _) fun _ => ?_
  refine NoConflict.bind (issue_noConflict _ _) fun _ => ?_
  exact fun h => by cases h

/-- From a change of the hold to the commit. -/
theorem conclude_explained {operation : String} (hc : i.op.command? = some c)
    (ho : t.Owns c.holdId) :
    Triple discipline i (fun srv => Stage i c t srv ∧ Changes srv.db c t.startedAt t.writes)
      (c.conclude operation).run (Ends (fun _ _ => True) (Explained i F)) :=
  Triple.explained_of_onlyConflicts
    ((conclude_triple hc ho).conseq (fun _ _ h => h) fun _ _ _ h => h.2) (conclude_noConflict _ _)

/-- From a change of the scopes to the commit. -/
theorem advance_explained {operation : String} {revision : Int} {row : HoldRow} {w : Write}
    {G : Server → Prop} (hc : i.op.command? = some c) (ho : t.Owns c.holdId)
    (hwrites : t.writes = [w]) (hw : ∀ db : Db, (db.put w).hold? c.holdId = db.hold? c.holdId)
    (hG : ∀ srv srv', srv.tx? i = some t → Frame i srv srv' → G srv → G srv')
    (hchanges : ∀ srv : Server, G srv → srv.db.Open c revision row →
      Changes srv.db c t.startedAt [w, .updateHold row.advanced]) :
    Triple discipline i
      (fun srv => Stage i c t srv ∧ Expected c revision row srv.db ∧ G srv)
      (do
        issue "advance legal hold revision" (.query (.advanceRevision c.holdId))
        c.conclude operation : Storage HoldView).run
      (Ends (fun _ _ => True) (Explained i F)) := by
  have hcov : t.Covers (.advanceRevision c.holdId) := ho
  have hview : ∀ db : Db, (db.putAll t.writes).hold? c.holdId = db.hold? c.holdId := by
    rw [hwrites]
    exact hw
  refine Triple.run_bind (Triple.explained (update_triple ho hcov rfl
    (fun db seq rows h => ⟨h, rfl⟩) hview hG ?_) (issue_noDomain _ _)) fun _ => ?_
  · intro srv hg hexpected room
    rw [hwrites]
    exact hchanges srv hg (hexpected.open room)
  · exact Triple.of_exists fun t' => Triple.of_pure fun ho' => conclude_explained hc ho'

/-! ### What a statement has seen -/

/-- The session has issued a statement when the committed tables were `db`. -/
def Saw (i : Session Op) (db : Db) (srv : Server) : Prop :=
  ∃ e ∈ srv.eventsOf i, srv.asOf e.seen = db

omit [Backend] in
/-- The reason is in a state that has been seen. -/
theorem Saw.explained {db : Db} {srv : Server} {failure : DomainFailure} (h : Saw i db srv)
    (hreason : F db failure) : Explained i F (.domain failure) srv := by
  rintro _ ⟨⟩
  obtain ⟨e, he, rfl⟩ := h
  exact ⟨e, he, hreason⟩

/-- A statement that has been executed has seen what is committed. -/
theorem Server.Inv.saw {srv srv' : Server} (hinv : srv.Inv) {s : Stmt} (hlog : srv'.log = srv.log)
    (hevents : srv'.eventsOf i = srv.eventsOf i ++ [⟨i, s, .done, srv.log.length⟩]) :
    Saw i srv.db srv' := by
  refine ⟨_, by rw [hevents]; exact List.mem_append_right _ List.mem_cons_self, ?_⟩
  show srv'.asOf srv.log.length = srv.db
  rw [← hinv.asOf_length]
  exact Server.asOf_of_le (hlog ▸ List.prefix_refl _) (Nat.le_refl _)

/-- A statement that neither looks for a receipt nor proposes a hold, and what it has seen. -/
theorem Stage.issue_saw {G : Server → Prop} {q : Query} {operation : String}
    {R : q.Rows → Server → Prop}
    (hG : ∀ srv srv', srv.tx? i = some t → Frame i srv srv' → G srv → G srv')
    (hcov : t.Covers q) (hins : (Stmt.query q).insertsHold = false)
    (hR : ∀ (srv srv' : Server) rows, srv.Inv → G srv →
      (q.effect (srv.db.putAll t.writes) t.startedAt srv.seq).reply = .ok rows →
      Stage i c (t.extend (q.effect (srv.db.putAll t.writes) t.startedAt srv.seq)) srv' →
      srv'.db = srv.db → Saw i srv.db srv' → R rows srv') :
    Triple discipline i (fun srv => Stage i c t srv ∧ G srv)
      (LegalHold.issue operation (.query q)).run (Ends R (Explained i F)) := by
  refine Triple.issue ?_ ?_ ?_ fun _ _ _ => Explained.database
  · intro srv srv' hinv ⟨hstage, hg⟩ _ hframe
    exact ⟨hstage.frame hinv hframe, hG srv srv' hstage.tx hframe hg⟩
  · intro srv _ ⟨hstage, _⟩ t' ht'
    cases hstage.tx.symm.trans ht'
    exact hcov
  · intro srv srv' r hinv ⟨hstage, hg⟩ hperform _ hevents
    obtain ⟨-, rfl, rfl⟩ := Server.perform_query hstage.tx hperform
    have hnext := hstage.applied hinv (q.effect (srv.view t) t.startedAt srv.seq)
      (fun h => by rw [hins] at h; cases h)
    have hsaw : Saw i srv.db ((srv.applied t (q.effect (srv.view t) t.startedAt srv.seq)).note i
        (.query q) .done srv.log.length) := hinv.saw rfl hevents
    cases hr : (q.effect (srv.view t) t.startedAt srv.seq).reply with
    | ok rows => exact hR srv _ rows hinv hg hr hnext rfl hsaw
    | error e => exact Explained.database

/-! ### Mutations -/

/-- `replay` is refused for the receipt that it has read. -/
theorem replay_explained {seen : ℕ}
    (hF : ∀ db row, db.command? c.key = some row → row.requestHash ≠ c.requestHash →
      F db .idempotencyConflict) :
    Triple discipline i (Begun i [⟨i, .begin, .done, seen⟩])
      (replay c.caller c.actor c.change.operation c.idempotencyKey c.requestHash).run
      (Ends (fun (found : Option Json) srv =>
          found = none → ∃ now, Stage i c ⟨i, now, [], []⟩ srv) (Explained i F)) := by
  refine Triple.run_bind (R := fun (row : Option CommandRow) (srv : Server) => ∃ e now,
      srv.tx? i = some ⟨i, now, [], []⟩ ∧ Looked srv i e ∧ ¬ Taken srv i c ∧
        (srv.asOf e.seen).command? c.key = row) ?_ ?_
  · refine Triple.issue (fun srv srv' _ h _ hframe => h.frame hframe) (fun _ _ _ _ _ => trivial) ?_
      fun _ _ _ => Explained.database
    intro srv srv' r hinv hbegun hperform _ hevents
    obtain ⟨now, htx⟩ := hbegun.tx
    obtain ⟨-, rfl, rfl⟩ := Server.perform_query htx hperform
    rw [hbegun.events] at hevents
    obtain ⟨hlooked, htaken⟩ := looked_of_receipt hevents
    refine ⟨_, now, Server.tx?_setTx_self htx rfl, hlooked, htaken c, ?_⟩
    show (srv.asOf srv.log.length).command? c.key = _
    rw [hinv.asOf_length]
    rfl
  -- A receipt with another digest is the reason for a conflict of keys, and it was seen in a
  -- committed state.
  intro row
  cases row with
  | none =>
    refine Triple.ret fun srv _ h _ => ?_
    obtain ⟨e, now, htx, looked, untaken, found⟩ := h
    exact ⟨now, htx, rfl, ⟨e, looked, found⟩, untaken⟩
  | some row =>
    by_cases hhash : row.requestHash = c.requestHash
    · simp only [ne_eq, hhash, not_true_eq_false, if_false]
      exact Triple.ret fun srv _ _ h => by cases h
    · simp only [ne_eq, hhash, not_false_eq_true, if_true]
      refine Triple.ret fun srv _ h => ?_
      obtain ⟨e, now, -, looked, -, found⟩ := h
      exact Saw.explained ⟨e, (Server.receiptRead_mem looked.read).1, rfl⟩ (hF _ row found hhash)

/-- What every mutation starts with explains its failures: a receipt of another request is a
conflict of keys. -/
theorem start_explained {operation : String} {fresh : Storage HoldView}
    (hF : ∀ db row, db.command? c.key = some row → row.requestHash ≠ c.requestHash →
      F db .idempotencyConflict)
    (hfresh : ∀ now, Triple discipline i (Stage i c ⟨i, now, [], []⟩) fresh.run
      (Ends (fun _ _ => True) (Explained i F))) :
    Triple discipline i (discipline.fresh i)
      (do
        issue operation .begin
        match ← replay c.caller c.actor c.change.operation c.idempotencyKey c.requestHash with
        | some response => decodeResponse response
        | none => fresh : Storage HoldView).run (Ends (fun _ _ => True) (Explained i F)) := by
  have hbegin : Triple discipline i (discipline.fresh i) (issue operation .begin).run
      (Ends (fun _ srv => ∃ seen, Begun i ([] ++ [⟨i, .begin, .done, seen⟩]) srv)
        (Explained i F)) :=
    (begin_triple fun _ _ _ => Explained.database).conseq (fun _ _ h => ⟨h.1, h.2⟩)
      fun _ _ _ h => h
  refine Triple.run_bind hbegin fun _ => Triple.of_exists fun seen => ?_
  refine Triple.run_bind (replay_explained hF) fun found => ?_
  cases found with
  | some response =>
    refine Triple.ret fun srv _ _ => ?_
    cases hview : HoldView.fromValue response with
    | ok view => exact trivial
    | error e => exact fun failure h => by cases h
  | none => exact (Triple.of_exists hfresh).conseq (fun srv _ h => h rfl) fun _ _ _ h => h

/-- The row lock is refused for a hold that is not there. -/
theorem lockHold_explained {now : Time}
    (hF : ∀ db : Db, db.Lacks c.organizationId c.holdId → F db .notFound) :
    Triple discipline i (Stage i c ⟨i, now, [], []⟩) (lockHold c.organizationId c.holdId).run
      (Ends (fun (found : Status × Int) srv => ∃ locks row,
          (Tx.mk i now [] locks).Owns c.holdId ∧ Stage i c ⟨i, now, [], locks⟩ srv ∧
          srv.db.hold? c.holdId = some row ∧ row.organizationId = c.organizationId ∧
          found = (row.status, row.revision) ∧ Saw i srv.db srv)
        (Explained i F)) := by
  have hcov : (Tx.mk i now [] []).Covers (.lockHold c.organizationId c.holdId) := rfl
  refine Triple.run_bind (R := fun (found : Option (Status × Int)) (srv : Server) =>
      (found = none → srv.db.Lacks c.organizationId c.holdId) ∧
      (∀ status, found = some status → ∃ locks row, (Tx.mk i now [] locks).Owns c.holdId ∧
        Stage i c ⟨i, now, [], locks⟩ srv ∧ srv.db.hold? c.holdId = some row ∧
        row.organizationId = c.organizationId ∧ status = (row.status, row.revision)) ∧
      Saw i srv.db srv) ?_ ?_
  -- The lock is granted on the row as it was committed last, and this is what is looked at.
  · refine (Stage.issue_saw (G := fun _ => True) (fun _ _ _ _ _ => trivial) hcov rfl ?_).conseq
      (fun srv _ h => ⟨h, trivial⟩) fun _ _ _ h => h
    intro srv srv' found hinv _ hreply hstage hdb hsaw
    rw [hdb]
    simp only [Query.effect, Db.putAll_nil] at hreply hstage
    cases hrow : (srv.db.hold? c.holdId).filter (·.organizationId = c.organizationId) with
    | none =>
      simp only [hrow] at hreply
      cases hreply
      refine ⟨fun _ row hsome horg => ?_, fun _ h => (by cases h), hsaw⟩
      rw [hsome, Option.filter_some, if_pos (by simpa using horg)] at hrow
      cases hrow
    | some row =>
      simp only [hrow] at hreply hstage
      cases hreply
      obtain ⟨hsome, horg⟩ := Option.filter_eq_some_iff.mp hrow
      refine ⟨fun h => (by cases h), fun status h => ?_, hsaw⟩
      cases h
      exact ⟨_, row, .inl List.mem_cons_self, hstage, hsome, by simpa using horg, rfl⟩
  intro found
  cases found with
  | none => exact Triple.ret fun srv _ h => h.2.2.explained (hF _ (h.1 rfl))
  | some status =>
    refine Triple.ret fun srv _ h => ?_
    obtain ⟨locks, row, ho, hstage, hfound, horg, hstatus⟩ := h.2.1 status rfl
    exact ⟨locks, row, ho, hstage, hfound, horg, hstatus, h.2.2⟩

/-- The checks under the row lock are refused for what the locked row says. -/
theorem checks_explained {now : Time} {revision : Int} {rest : Storage HoldView}
    (hexpects : c.change.expectedRevision? = some revision)
    (hrest : ∀ locks row, (Tx.mk i now [] locks).Owns c.holdId → Triple discipline i
      (fun srv => Stage i c ⟨i, now, [], locks⟩ srv ∧ Expected c revision row srv.db)
      rest.run (Ends (fun _ _ => True) (Explained i c.Refuses))) :
    Triple discipline i (Stage i c ⟨i, now, [], []⟩)
      (do
        let (status, found) ← lockHold c.organizationId c.holdId
        if status ≠ .active then refuse .holdReleased
        else if found ≠ revision then refuse .revisionConflict
        else rest : Storage HoldView).run (Ends (fun _ _ => True) (Explained i c.Refuses)) := by
  refine Triple.run_bind (lockHold_explained fun db => .missing hexpects) fun found => ?_
  obtain ⟨status, rev⟩ := found
  refine Triple.of_exists fun locks => Triple.of_exists fun row => Triple.of_pure fun ho => ?_
  by_cases hstatus : status = .active
  · by_cases hrev : rev = revision
    · simp only [ne_eq, hstatus, hrev, not_true_eq_false, if_false]
      refine (hrest locks row ho).conseq ?_ fun _ _ _ h => h
      rintro srv - ⟨hstage, hfound, horg, heq, -⟩
      obtain ⟨hactive, hrevision⟩ := Prod.mk.inj heq
      exact ⟨hstage, hfound, horg, hactive.symm, hrevision.symm⟩
    · simp only [ne_eq, hstatus, hrev, not_true_eq_false, not_false_eq_true, if_false, if_true]
      refine Triple.ret fun srv _ h => ?_
      obtain ⟨-, hfound, horg, heq, hsaw⟩ := h
      obtain ⟨hactive, hrevision⟩ := Prod.mk.inj heq
      exact hsaw.explained (.outdated hexpects hfound horg hactive.symm (hrevision ▸ hrev))
  · simp only [ne_eq, hstatus, not_false_eq_true, if_true]
    refine Triple.ret fun srv _ h => ?_
    obtain ⟨-, hfound, horg, heq, hsaw⟩ := h
    obtain ⟨hreleased, -⟩ := Prod.mk.inj heq
    exact hsaw.explained (.released hexpects hfound horg (hreleased ▸ hstatus))

/-- A conflict of a new hold is for a receipt or for the hold. -/
theorem Outcome.explained {srv : Server} (hnew : c.change.expectedRevision? = none)
    (h : Outcome i c srv (.error (.domain .idempotencyConflict))) :
    Explained i c.Refuses (.domain .idempotencyConflict) srv := by
  generalize hr : (Except.error (.domain .idempotencyConflict) : Except StorageError HoldView) = r
    at h
  cases h with
  | faulted mem fate => cases hr
  | @replayed e row looked found same =>
    cases hview : HoldView.fromValue row.response with
    | ok view => rw [hview] at hr; cases hr
    | error message => rw [hview] at hr; cases hr
  | mismatched looked found other =>
    exact Saw.explained ⟨_, (Server.receiptRead_mem looked.read).1, rfl⟩ (.mismatched found other)
  | committed => cases hr
  | taken looked unseen taken =>
    obtain ⟨e, he, -, hfound⟩ := taken
    exact Saw.explained ⟨e, he, rfl⟩ (.taken hnew hfound)
  | refused looked unseen untaken other =>
    cases hr
    exact absurd rfl other

theorem createHold_explained {input : CreateHold} (hop : i.op = .createHold input) :
    Triple discipline i (discipline.fresh i) (createHold input).run
      (Ends (fun _ _ => True) (Explained i input.command.Refuses)) := by
  refine (createHold_triple hop).conseq (fun _ _ h => h) fun r srv _ h => ?_
  cases r with
  | ok view => exact trivial
  | error e =>
    rintro failure rfl
    obtain rfl := h.2 failure rfl
    exact h.1.explained rfl _ rfl

/-- An insert that reports no row has found one with the tuple. -/
theorem hasScope_of_insertScope {db : Db} {now : Time} {seq : Sequences} {h createdBy : String}
    {scope : Scope} {row : HoldRow} {changed : ℕ} (hrow : db.hold? h = some row)
    (hreply : ((Query.insertScope h scope createdBy).effect db now seq).reply = .ok changed)
    (hother : changed ≠ 1) : db.HasScope h scope := by
  by_contra habsent
  simp only [Query.effect, hrow, habsent, if_false] at hreply
  split at hreply
  · cases hreply
  · exact hother (Except.ok.inj hreply).symm

theorem addScope_explained {input : ScopeRequest} (hop : i.op = .addScope input) :
    Triple discipline i (discipline.fresh i)
      (mutateScope { input with operation := .addScope, add := true }).run
      (Ends (fun _ _ => True) (Explained i (input.command true).Refuses)) := by
  have hc : i.op.command? = some (input.command true) := by rw [hop]; rfl
  refine start_explained (c := input.command true) (fun db row => .mismatched) fun now => ?_
  refine checks_explained (c := input.command true) rfl fun locks row ho => ?_
  have hcov : (Tx.mk i now [] locks).Covers (.insertScope input.holdId input.scope input.actor) :=
    ho
  -- The `INSERT` says by the number of its rows whether the scope was there.
  refine Triple.run_bind (R := fun (changed : ℕ) (srv : Server) => ∃ t scopeRowId,
      (t.Owns input.holdId ∧ (changed = 1 → scopeRowId ≤ maxI64 ∧ t.writes =
        [.insertScope ⟨input.scope, scopeRowId, input.holdId, input.actor, t.startedAt⟩])) ∧
      Stage i (input.command true) t srv ∧
      Expected (input.command true) input.expectedRevision row srv.db ∧
      (changed = 1 → ¬ srv.db.HasScope input.holdId input.scope) ∧
      (changed ≠ 1 → Saw i srv.db srv ∧ srv.db.HasScope input.holdId input.scope)) ?_ ?_
  · refine Stage.issue_saw (fun srv srv' ht hframe h => h.frame ho ht hframe) hcov rfl ?_
    intro srv srv' changed hinv hexpected hreply hstage hdb hsaw
    have hsome : srv.db.hold? input.holdId = some row := hexpected.found
    rw [hdb]
    refine ⟨_, srv.seq.scopeRow, ⟨ho.extend _, fun hone => ?_⟩, hstage, hexpected, fun hone => ?_,
      fun hother => ⟨hsaw, ?_⟩⟩
    · subst hone
      obtain ⟨-, hdrawn, hwrites⟩ := insertScope_reply hsome hreply
      exact ⟨hdrawn, hwrites⟩
    · subst hone
      exact (insertScope_reply hsome hreply).1
    · exact hasScope_of_insertScope hsome hreply hother
  intro changed
  -- One row: the scope is new, and the rest cannot be refused.
  by_cases hone : changed = 1
  · subst hone
    simp only [ne_eq, not_true_eq_false, if_false, forall_const]
    refine Triple.of_exists fun t => Triple.of_exists fun scopeRowId => Triple.of_pure fun ht => ?_
    obtain ⟨ho', hdrawn, hwrites⟩ := ht
    refine (advance_explained (G := fun srv => ¬ srv.db.HasScope input.holdId input.scope) hc ho'
      hwrites (fun _ => rfl) ?_ ?_).conseq (fun srv _ h => ⟨h.1, h.2.1, h.2.2.1⟩) fun _ _ _ h => h
    · intro srv srv' ht hframe habsent
      unfold Db.HasScope
      rw [(hframe.hold t ht _ ho').2.1]
      exact habsent
    · exact fun srv habsent opened => .addScope rfl opened habsent hdrawn
  · simp only [ne_eq, hone, not_false_eq_true, if_true]
    refine Triple.ret fun srv _ h => ?_
    obtain ⟨t, scopeRowId, -, -, hexpected, -, hclash⟩ := h
    obtain ⟨hsaw, hhas⟩ := hclash trivial
    exact hsaw.explained (.clashing rfl hexpected hhas)

omit [Backend] in
/-- A tuple is there in one row at most, so a delete of no single row has found none. -/
theorem not_hasScope_of_length {db : Db} (hdb : db.Coherent) {h : String} {scope : Scope}
    (hother : ((db.scopesOf h).filter fun row => row.toScope = scope).length ≠ 1) :
    ¬ db.HasScope h scope := by
  rintro ⟨row, hrow, hscope⟩
  have hmem : row ∈ (db.scopesOf h).filter fun row => row.toScope = scope :=
    List.mem_filter.mpr ⟨hrow, by simpa using hscope⟩
  have hle : ((db.scopesOf h).filter fun row => row.toScope = scope).length ≤ 1 := by
    have hnodup := hdb.scopes_nodup h
    have hcount := List.nodup_iff_count_le_one.mp hnodup scope
    rw [List.count, List.countP_map, List.countP_eq_length_filter] at hcount
    refine le_trans (le_of_eq (congrArg List.length (List.filter_congr fun row _ => ?_))) hcount
    exact (beq_eq_decide row.toScope scope).symm
  have hpos := List.length_pos_of_mem hmem
  omega

theorem removeScope_explained {input : ScopeRequest} (hop : i.op = .removeScope input) :
    Triple discipline i (discipline.fresh i)
      (mutateScope { input with operation := .removeScope, add := false }).run
      (Ends (fun _ _ => True) (Explained i (input.command false).Refuses)) := by
  have hc : i.op.command? = some (input.command false) := by rw [hop]; rfl
  refine start_explained (c := input.command false) (fun db row => .mismatched) fun now => ?_
  refine checks_explained (c := input.command false) rfl fun locks row ho => ?_
  have hcov : (Tx.mk i now [] locks).Covers (.deleteScope input.holdId input.scope) := ho
  refine Triple.run_bind (R := fun (changed : ℕ) (srv : Server) => ∃ t,
      (t.Owns input.holdId ∧
        (changed = 1 → t.writes = [.deleteScope input.holdId input.scope])) ∧
      Stage i (input.command false) t srv ∧
      Expected (input.command false) input.expectedRevision row srv.db ∧
      ((srv.db.scopesOf input.holdId).filter fun row => row.toScope = input.scope).length =
        changed ∧ srv.db.Coherent ∧ Saw i srv.db srv) ?_ ?_
  · refine Stage.issue_saw (fun srv srv' ht hframe h => h.frame ho ht hframe) hcov rfl ?_
    intro srv srv' changed hinv hexpected hreply hstage hdb hsaw
    rw [hdb]
    obtain ⟨hlength, hwrites⟩ := deleteScope_reply hreply
    have hcoherent : srv.db.Coherent := by
      rw [← hinv.asOf_length]
      exact (hinv.chronicle.take _).coherent
    exact ⟨_, ⟨ho.extend _, hwrites⟩, hstage, hexpected, hlength, hcoherent, hsaw⟩
  intro changed
  by_cases hone : changed = 1
  · subst hone
    simp only [ne_eq, not_true_eq_false, if_false, forall_const]
    refine Triple.of_exists fun t => Triple.of_pure fun ht => ?_
    obtain ⟨ho', hwrites⟩ := ht
    refine (advance_explained (G := fun srv => ((srv.db.scopesOf input.holdId).filter
      fun row => row.toScope = input.scope).length = 1) hc ho' hwrites (fun _ => rfl) ?_
      ?_).conseq (fun srv _ h => ⟨h.1, h.2.1, h.2.2.1⟩) fun _ _ _ h => h
    · intro srv srv' ht hframe hpresent
      rw [(hframe.hold t ht _ ho').2.1]
      exact hpresent
    · exact fun srv hpresent opened => .removeScope rfl opened hpresent
  · simp only [ne_eq, hone, not_false_eq_true, if_true]
    refine Triple.ret fun srv _ h => ?_
    obtain ⟨t, -, -, hexpected, hlength, hcoherent, hsaw⟩ := h
    exact hsaw.explained (.clashing rfl hexpected
      (not_hasScope_of_length hcoherent fun h => hone (hlength.symm.trans h)))

theorem releaseHold_explained {input : ReleaseHold} (hop : i.op = .releaseHold input) :
    Triple discipline i (discipline.fresh i) (releaseHold input).run
      (Ends (fun _ _ => True) (Explained i input.command.Refuses)) := by
  have hc : i.op.command? = some input.command := by rw [hop]; rfl
  have hchange : input.command.change = .release input.reason input.expectedRevision := rfl
  refine start_explained (c := input.command) (fun db row => .mismatched) fun now => ?_
  refine checks_explained (c := input.command) rfl fun locks row ho => ?_
  have hcov : (Tx.mk i now [] locks).Covers
      (.releaseHold input.holdId input.actor input.reason) := ho
  refine Triple.run_bind ((Triple.explained (update_triple (F := fun _ => True) ho hcov rfl
    (fun db seq rows h => ⟨h, rfl⟩) (fun _ => rfl) (fun _ _ _ _ _ => trivial) ?_)
      (issue_noDomain _ _)).conseq (fun srv _ h => ⟨h.1, h.2, trivial⟩) fun _ _ _ h => h)
        fun _ => ?_
  · intro srv _ hexpected room
    exact .release hchange (hexpected.open room)
  · exact Triple.of_exists fun t' => Triple.of_pure fun ho' => conclude_explained hc ho'

/-! ### Reads -/

/-- The session has missed a hold, with a statement that has seen at least what `es` have. -/
def Missed (i : Session Op) (es : List Event) (org hold : String) (error : StorageError)
    (srv : Server) : Prop :=
  ∀ failure, error = .domain failure → failure = .notFound ∧
    ∃ e ∈ srv.eventsOf i, (∀ e' ∈ es, e'.seen ≤ e.seen) ∧ (srv.asOf e.seen).Lacks org hold

omit [Backend] in
/-- Whoever meets no domain failure has missed no hold. -/
theorem Missed.of_noDomain {es : List Event} {org hold : String} {error : StorageError}
    {srv : Server} (h : ∀ failure, error ≠ .domain failure) : Missed i es org hold error srv :=
  fun failure hfailure => absurd hfailure (h failure)

theorem Triple.missed {α : Type} {P : Server → Prop} {x : Storage α} {R : α → Server → Prop}
    {E : StorageError → Server → Prop} {es : List Event} {org hold : String}
    (h : Triple discipline i P x.run (Ends R E)) (hx : x.run.Leaves NoDomain) :
    Triple discipline i P x.run (Ends R (Missed i es org hold)) := by
  refine (h.leaves hx).conseq (fun _ _ h => h) fun r srv _ hr => ?_
  cases r with
  | ok a => exact hr.1
  | error e => exact .of_noDomain fun failure h => hr.2 failure (congrArg Except.error h)

/-- `get_hold` is refused for a hold that is not there. -/
theorem getHold_missed {es : List Event} {org hold : String} :
    Triple discipline i (Idle i es) (getHold org hold).run
      (Ends (fun _ srv => ∃ es', Idle i (es ++ es') srv) (Missed i es org hold)) := by
  have hbegin : Triple discipline i (Idle i es) (issue "begin read hold" .begin).run
      (Ends (fun _ srv => ∃ seen, Begun i (es ++ [⟨i, .begin, .done, seen⟩]) srv)
        (Missed i es org hold)) :=
    begin_triple fun _ _ _ => .of_noDomain fun _ h => by cases h
  refine Triple.run_bind hbegin fun _ => Triple.of_exists fun seen => ?_
  -- The first of the two statements decides whether the hold is found.
  have hload : Triple discipline i (Begun i (es ++ [⟨i, .begin, .done, seen⟩]))
      (loadHoldTx org hold).run
      (Ends (fun _ srv => ∃ es', Begun i (es ++ es') srv) (Missed i es org hold)) := by
    have hrow : ∀ now, (Tx.mk i now [] []).Covers (.selectHold org hold) := fun _ => trivial
    have hscopes : ∀ now, (Tx.mk i now [] []).Covers (.selectScopes hold) := fun _ => trivial
    refine Triple.run_bind (Triple.missed (Begun.issue (fun _ _ _ => ⟨rfl, rfl⟩) hrow)
      (issue_noDomain _ _)) fun row => ?_
    refine Triple.of_exists fun n => Triple.of_exists fun now => Triple.of_exists fun seq => ?_
    cases row with
    | none =>
      refine Triple.ret fun srv _ h => ?_
      obtain ⟨hbegun, hle, -, hreply⟩ := h
      have hnone : ((srv.asOf n).hold? hold).filter (·.organizationId = org) = none :=
        Except.ok.inj hreply
      rintro failure ⟨⟩
      refine ⟨rfl, ⟨i, .query (.selectHold org hold), .done, n⟩, ?_, fun e he =>
        hle e (List.mem_append_left _ he), fun row hsome horg => ?_⟩
      · rw [hbegun.events]
        simp
      · rw [hsome, Option.filter_some, if_pos (by simpa using horg)] at hnone
        cases hnone
    | some row =>
      refine Triple.run_bind ((Triple.missed (Begun.issue (fun _ _ _ => ⟨rfl, rfl⟩) hscopes)
        (issue_noDomain _ _)).conseq (fun _ _ h => h.1) fun _ _ _ h => h) fun rows => ?_
      refine Triple.ret fun srv _ h => ?_
      obtain ⟨m, now', seq', hbegun, -⟩ := h
      cases hv : holdView row rows with
      | ok view => exact ⟨_, by rw [List.append_assoc, List.append_assoc] at hbegun; exact hbegun⟩
      | error e =>
        obtain ⟨message, rfl⟩ := holdView_error hv
        exact .of_noDomain fun _ h => by cases h
  refine Triple.run_bind hload fun view => Triple.of_exists fun es' => ?_
  refine Triple.run_bind (Triple.missed commitRead_triple (issue_noDomain _ _)) fun _ => ?_
  refine Triple.ret fun srv _ h => ?_
  obtain ⟨e, -, hidle⟩ := h
  exact ⟨es' ++ [e], by rw [← List.append_assoc]; exact hidle⟩

/-- The loop of `list_holds` finds the holds that an earlier statement has listed. -/
theorem collect_explained {org : String} {e₀ : Event} {listed : List String} (ids : List String)
    (hids : ∀ id ∈ ids, id ∈ listed) :
    ∀ {es : List Event}, e₀ ∈ es → Triple discipline i
      (fun srv => Idle i es srv ∧ (e₀.seen ≤ srv.log.length ∧
        ∀ id ∈ listed, ¬ (srv.asOf e₀.seen).Lacks org id))
      (listHolds.collect org ids).run (Ends (fun _ _ => True) (Explained i F)) := by
  have hlasting : Lasting i fun srv => e₀.seen ≤ srv.log.length ∧
      ∀ id ∈ listed, ¬ (srv.asOf e₀.seen).Lacks org id :=
    Lasting.asOf fun db => ∀ id ∈ listed, ¬ db.Lacks org id
  induction ids with
  | nil =>
    intro es _
    exact Triple.ret fun _ _ _ => trivial
  | cons hold rest ih =>
    intro es he₀
    have hget : Triple discipline i (Idle i es) (getHold org hold).run
      (Ends (fun _ srv => ∃ es', Idle i (es ++ es') srv) (Missed i es org hold)) := getHold_missed
    refine Triple.run_bind (R := fun _ (srv : Server) => ∃ es', Idle i (es ++ es') srv ∧
      (e₀.seen ≤ srv.log.length ∧ ∀ id ∈ listed, ¬ (srv.asOf e₀.seen).Lacks org id))
      ((hlasting.triple hget).conseq (fun _ _ h => h) ?_) fun view => ?_
    · intro r srv hinv h
      cases r with
      | ok view =>
        obtain ⟨⟨es', hidle⟩, hlisted⟩ := h
        exact ⟨es', hidle, hlisted⟩
      | error e =>
        -- It was there when it was listed, so it is not missed afterwards.
        rintro failure rfl
        obtain ⟨-, e, -, hle, hlacks⟩ := h.1 failure rfl
        have hthere := h.2.2 hold (hids hold List.mem_cons_self)
        unfold Db.Lacks at hthere
        push Not at hthere
        obtain ⟨row, hrow, horg⟩ := hthere
        obtain ⟨row', hrow', horigin⟩ := hinv.hold?_mono (hle e₀ he₀) hrow
        exact absurd ((congrArg Prod.fst horigin).trans horg) (hlacks row' hrow')
    · refine Triple.of_exists fun es' => ?_
      refine Triple.run_bind (ih (fun id hid => hids id (List.mem_cons_of_mem _ hid))
        (List.mem_append_left _ he₀)) fun views => ?_
      exact Triple.ret fun _ _ _ => trivial

theorem listHolds_explained {org : String} {status : Option Status} {cursor : Option String}
    {limit : Int} :
    Triple discipline i (discipline.fresh i) (listHolds org status cursor limit).run
      (Ends (fun _ _ => True) (Explained i F)) := by
  have hready : ∀ srv : Server,
      srv.Ready i (.pool (.listHolds org status cursor (limit + 1))) := fun _ => trivial
  refine Triple.run_bind (Triple.explained ((Idle.issue (fun _ => rfl) hready).conseq
    (fun _ _ h => Idle.of_fresh h) fun _ _ _ h => h) (issue_noDomain _ _)) fun rows => ?_
  refine Triple.of_exists fun n => Triple.of_exists fun srv₁ => ?_
  have hmem : (⟨i, .pool (.listHolds org status cursor (limit + 1)), .done, n⟩ : Event) ∈
      [] ++ [⟨i, .pool (.listHolds org status cursor (limit + 1)), .done, n⟩] :=
    List.mem_singleton.mpr rfl
  have hlisted : ∀ id ∈ rows.take (if limit < 0 then 200 else limit.toNat), id ∈ rows :=
    fun id hid => List.mem_of_mem_take hid
  refine Triple.run_bind (R := fun _ _ => True) ((collect_explained _ hlisted hmem).conseq ?_
    fun _ _ _ h => h) fun views => Triple.ret fun _ _ _ => trivial
  rintro srv hinv ⟨hidle, -, hn, hdb, hreply⟩
  -- An id of the page has a row in the state that the page was read from, and rows of holds stay.
  refine ⟨hidle, hn, fun id hid hlacks => ?_⟩
  simp only [Server.pool] at hreply
  split at hreply
  · cases hreply
  · have hrows : Server.holdPage srv₁.db org status cursor (limit + 1) = rows :=
      Except.ok.inj hreply
    rw [← hrows] at hid
    have hmem := List.mem_of_mem_take hid
    simp only [List.mem_insertionSort, List.mem_map, List.mem_filter, decide_eq_true_eq] at hmem
    obtain ⟨row, ⟨hrow, horg, -⟩, rfl⟩ := hmem
    rw [hdb] at hrow
    have hcoherent := (hinv.chronicle.take n).coherent
    exact hlacks row (Db.hold?_of_mem hcoherent.holds_nodup hrow) horg

theorem listActivity_explained {org hold : String} {after limit : Int} :
    Triple discipline i (discipline.fresh i) (listActivity org hold after limit).run
      (Ends (fun _ _ => True)
        (Explained i fun db failure => failure = .notFound ∧ db.Lacks org hold)) := by
  have hready : ∀ srv : Server,
      srv.Ready i (.pool (.listActivity org hold after limit)) := fun _ => trivial
  have hget : Triple discipline i (discipline.fresh i) (getHold org hold).run
      (Ends (fun _ srv => ∃ es', Idle i ([] ++ es') srv) (Missed i [] org hold)) :=
    getHold_missed.conseq (fun _ _ h => Idle.of_fresh h) fun _ _ _ h => h
  refine Triple.run_bind (hget.mono_error fun e srv h failure hfailure => ?_) fun _ =>
    Triple.of_exists fun es => ?_
  · obtain ⟨hfailure, e, he, -, hlacks⟩ := h failure hfailure
    exact ⟨e, he, hfailure, hlacks⟩
  refine Triple.run_bind (Triple.explained
    (F := fun db failure => failure = .notFound ∧ db.Lacks org hold)
    (Idle.issue (fun _ => rfl) hready) (issue_noDomain _ _)) fun rows => ?_
  cases hm : rows.mapM activityView with
  | ok events => exact Triple.ret fun _ _ _ => trivial
  | error e =>
    refine Triple.ret fun _ _ _ failure hfailure => ?_
    -- Only the time of a row can be in the way.
    obtain ⟨row, -, hrow⟩ := mapM_eq_error hm
    subst hfailure
    unfold activityView formatTime at hrow
    cases htime : Backend.formatTime row.createdAt with
    | ok text => rw [htime] at hrow; cases hrow
    | error message => rw [htime] at hrow; cases hrow

theorem checkRetention_noDomain (input : RetentionCheck) :
    (checkRetention input).run.Leaves NoDomain := by
  refine (issue_noDomain _ _).bind fun r hr => ?_
  cases r with
  | error e => exact fun failure h => hr failure (by cases h; rfl)
  | ok rows =>
    refine (issue_noDomain _ _).bind fun r hr => ?_
    cases r with
    | error e => exact fun failure h => hr failure (by cases h; rfl)
    | ok _ => exact fun failure h => by cases h

/-! ### Every operation -/

theorem Explained.kept {error : StorageError} {srv srv' : Server} (h : Explained i F error srv)
    (hinv : srv.Inv) (hframe : Kept i srv srv') : Explained i F error srv' := by
  intro failure hfailure
  obtain ⟨e, he, hreason⟩ := h failure hfailure
  exact ⟨e, hframe.mem_eventsOf e he, by rw [hframe.asOf hinv he]; exact hreason⟩

/-- **Every operation explains its domain failures** by a reason that held in a committed state
which the session saw. -/
theorem program_explained (i : Session Op) :
    Triple discipline i (discipline.fresh i) (program i.op).run
      (Ends (fun _ _ => True) (Explained i i.op.Refuses)) := by
  have hmap : ∀ {α : Type} {x : Storage α} {g : α → Answer} {F : Db → DomainFailure → Prop},
      Triple discipline i (discipline.fresh i) x.run (Ends (fun _ _ => True) (Explained i F)) →
      Triple discipline i (discipline.fresh i) (g <$> x).run
        (Ends (fun _ _ => True) (Explained i F)) := fun h =>
    Triple.run_map (h.conseq (fun _ _ h => h) fun r srv _ hr => by cases r <;> exact hr)
  cases hop : i.op with
  | createHold input => exact hmap (createHold_explained hop)
  | addScope input => exact hmap (addScope_explained hop)
  | removeScope input => exact hmap (removeScope_explained hop)
  | releaseHold input => exact hmap (releaseHold_explained hop)
  | getHold org hold =>
    have hget : Triple discipline i (discipline.fresh i) (getHold org hold).run
        (Ends (fun _ srv => ∃ es', Idle i ([] ++ es') srv) (Missed i [] org hold)) :=
      getHold_missed.conseq (fun _ _ h => Idle.of_fresh h) fun _ _ _ h => h
    refine hmap (hget.conseq (fun _ _ h => h) fun r srv _ h => ?_)
    cases r with
    | ok view => exact trivial
    | error e =>
      intro failure hfailure
      obtain ⟨hnotFound, e, he, -, hlacks⟩ := h failure hfailure
      exact ⟨e, he, hnotFound, hlacks⟩
  | listHolds org status cursor limit => exact hmap listHolds_explained
  | listActivity org hold after limit => exact hmap listActivity_explained
  -- The guard has no domain failures.
  | checkRetention input =>
    have hcheck : Triple discipline i (discipline.fresh i) (checkRetention input).run
        (Ends (fun _ _ => True) fun _ _ => True) :=
      (checkRetention_triple hop).conseq (fun _ _ h => h) fun r _ _ _ => by cases r <;> trivial
    exact hmap (Triple.explained hcheck (checkRetention_noDomain input))

theorem Reachable.explained {c : Config} (h : Reachable c) {j : ℕ} {op : Op} {e : StorageError}
    (hr : Returned c j op (.error e)) : Explained ⟨j, op⟩ op.Refuses e c.shared := by
  have hsound : discipline.Sound fun i r srv =>
      Ends (fun _ _ => True) (Explained i i.op.Refuses) r srv := by
    refine .of_triple program_explained (fun i r srv srv' hinv h _ hframe => ?_)
      fun i r srv h hinv => ?_
    · cases r with
      | ok a => exact trivial
      | error e => exact Explained.kept h hinv hframe.toKept
    · cases r with
      | ok a => exact trivial
      | error e => exact Explained.kept h hinv (Kept.endTx i srv)
  exact (hsound.reaches (.init Server.Inv.init fun _ => ⟨rfl, rfl⟩) h).returned hr

/-! ### What is carried out -/

omit [Backend] in
/-- A change that expects a revision has found the hold open. -/
theorem Changes.opened {db : Db} {now : Time} {ws : List Write} (h : Changes db c now ws)
    {revision : Int} (hexpects : c.change.expectedRevision? = some revision) :
    (∃ row, db.Open c revision row) ∧ ¬ c.change.Clashes db c.holdId := by
  cases h with
  | create change absent =>
    rw [change] at hexpects
    cases hexpects
  | addScope change opened absent drawn =>
    rw [change] at hexpects ⊢
    cases hexpects
    exact ⟨⟨_, opened⟩, absent⟩
  | @removeScope scope revision row change opened present =>
    rw [change] at hexpects ⊢
    cases hexpects
    refine ⟨⟨_, opened⟩, fun habsent => habsent ?_⟩
    obtain ⟨row, hrow⟩ := List.exists_mem_of_length_pos (present ▸ Nat.one_pos)
    obtain ⟨hmem, hscope⟩ := List.mem_filter.mp hrow
    exact ⟨row, hmem, by simpa using hscope⟩
  | release change opened =>
    rw [change] at hexpects ⊢
    cases hexpects
    exact ⟨⟨_, opened⟩, id⟩

/-- There is nothing against what is carried out. -/
theorem Mutation.not_refused {db : Db} {ws : List Write} {activityId : Int} {view : HoldView}
    (h : Mutation db t c ws activityId view) (failure : DomainFailure) :
    ¬ c.Refuses db failure := by
  intro hrefuses
  cases hrefuses with
  | mismatched found other =>
    rw [h.unseen] at found
    cases found
  | taken new found =>
    cases h.changed with
    | create change absent => exact found absent
    | addScope change => rw [change] at new; cases new
    | removeScope change => rw [change] at new; cases new
    | release change => rw [change] at new; cases new
  | missing expects lacks =>
    obtain ⟨⟨row, opened⟩, -⟩ := h.changed.opened expects
    exact lacks row opened.found opened.organization
  | released expects found organization released =>
    obtain ⟨⟨row, opened⟩, -⟩ := h.changed.opened expects
    cases opened.found.symm.trans found
    exact released opened.active
  | outdated expects found organization active other =>
    obtain ⟨⟨row, opened⟩, -⟩ := h.changed.opened expects
    cases opened.found.symm.trans found
    exact other opened.revision
  | clashing expects expected clashes => exact (h.changed.opened expects).2 clashes

/-- **A refusal has its reason, and what is carried out has none**: in every run an operation
that has ended in a domain failure has seen a committed state with a reason for that very
failure, and where a mutation was added to the log there was no reason for any. -/
theorem refusals_exact {c : Config} (h : Reachable c) :
    (∀ (j : ℕ) (op : Op) (failure : DomainFailure),
      Returned c j op (.error (.domain failure)) →
        ∃ e ∈ c.shared.eventsOf ⟨j, op⟩, op.Refuses (c.shared.asOf e.seen) failure) ∧
      ∀ (n : ℕ) (cmd : Command) (view : HoldView), c.shared.Commit n cmd view →
        ∀ failure, ¬ cmd.Refuses (c.shared.asOf n) failure := by
  refine ⟨fun j op failure hr => h.explained hr failure rfl, fun n cmd view hc failure => ?_⟩
  obtain ⟨t, ws, activityId, -, hmutation, -⟩ := h.mutation hc
  exact hmutation.not_refused failure

end

namespace Sample

/-- A scope is added for a revision that the hold does not have. -/
def outdated : List Label := .start (create [1]) :: steps 0 8 ++ .start (add 7) :: steps 1 3

/-- The revision that it has seen is another one. -/
theorem outdated_refused : ∃ e ∈ (after outdated).shared.eventsOf ⟨1, add 7⟩, ∃ row,
    ((after outdated).shared.asOf e.seen).hold? "h" = some row ∧ row.revision ≠ 7 := by
  obtain ⟨e, he, hrefuses⟩ :=
    (refusals_exact (reachable_after outdated)).1 1 (add 7) .revisionConflict rfl
  generalize hdb : (after outdated).shared.asOf e.seen = db at hrefuses
  cases hrefuses with
  | outdated expects found organization active other =>
    cases expects
    exact ⟨e, he, _, hdb ▸ found, other⟩

end Sample

end LegalHold
