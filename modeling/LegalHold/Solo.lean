import LegalHold.Interleave.Alone
import LegalHold.Sessions

/-!
# Mutations that run alone

A mutating operation that runs alone on tables that allow it goes through, and
does what its committed transaction would have done.

## Main definitions

* `Solo` — the server while the only transaction is the session's own.
* `Finished` — the server after its commit.

## Main results

* `conclude_alone` — from a change of the hold to the commit.
* `mutation_alone` — **running alone reproduces a mutation**.
-/

namespace LegalHold

open Interleave

section

variable [Backend]

/-- The session's transaction, which has written `ws`, is the only one on the tables of
`base`. -/
structure Solo (i : Session Op) (base : Server) (ws : List Write) (seq : Sequences)
    (srv : Server) : Prop where
  txs : ∃ locks, srv.txs = [⟨i, base.clock, ws, locks⟩]
  db : srv.db = base.db
  clock : srv.clock = base.clock
  seq : srv.seq = seq

/-- The only transaction of the server has committed the writes `ws`, and nothing else has
changed. -/
structure Finished (base : Server) (ws : List Write) (seq : Sequences) (srv : Server) : Prop where
  txs : srv.txs = []
  db : srv.db = base.db.putAll ws
  clock : srv.clock = base.clock
  seq : srv.seq = seq

variable {i : Session Op} {base : Server} {ws : List Write} {seq : Sequences} {c : Command}

/-! ### Statements -/

/-- A statement that is carried out and does not fail. -/
theorem issue_alone {s : Stmt} {operation : String} {P : Server → Prop}
    {R : s.Rows → Server → Prop}
    (h : ∀ srv, P srv → ∃ srv' rows, srv.perform i s = some (srv', .ok rows) ∧
      R rows (srv'.note i s .done srv.log.length)) :
    Alone machine .done i P (issue operation s).run (Succeeds R) := by
  refine Alone.ask (R := fun r srv => ∃ rows, r = .ok rows ∧ R rows srv) ?_ fun r => ?_
  · intro srv hP
    obtain ⟨srv', rows, hperform, hr⟩ := h srv hP
    refine ⟨_, _, ?_, rows, rfl, hr⟩
    show (srv.perform i s).map _ = _
    rw [hperform]
    rfl
  · cases r with
    | ok rows =>
      refine Alone.ret fun srv hr => ?_
      obtain ⟨rows', heq, hr⟩ := hr
      cases heq
      exact hr
    | error e =>
      rintro srv ⟨rows, heq, -⟩
      cases heq

/-- A statement of the only transaction has nobody to wait for. -/
theorem Solo.issue {q : Query} {e : Effect q.Rows} {rows : q.Rows} {operation : String}
    (he : q.effect (base.db.putAll ws) base.clock seq = e) (hr : e.reply = .ok rows) :
    Alone machine .done i (Solo i base ws seq) (LegalHold.issue operation (.query q)).run
      (Succeeds fun rows' srv => rows' = rows ∧ Solo i base (ws ++ e.writes) e.seq srv) := by
  refine issue_alone fun srv hsolo => ?_
  obtain ⟨locks, htxs⟩ := hsolo.txs
  have htx : srv.tx? i = some ⟨i, base.clock, ws, locks⟩ := by simp [Server.tx?, htxs]
  have hview : srv.view ⟨i, base.clock, ws, locks⟩ = base.db.putAll ws := by
    unfold Server.view
    rw [hsolo.db]
  -- `blocks` looks at the transactions of other sessions only.
  have hblocks : srv.blocks i e.locks = false := by simp [Server.blocks, htxs]
  refine ⟨srv.applied ⟨i, base.clock, ws, locks⟩ e, rows, ?_, rfl, ⟨locks ++ e.locks, ?_⟩,
    hsolo.db, hsolo.clock, rfl⟩
  · simp only [Server.perform, htx, hview, hsolo.seq, he, hblocks, hr]
    rfl
  · simp [Server.note, Server.applied, Server.setTx, Tx.extend, htxs]

/-- The rule of a statement that only reads. -/
theorem Solo.read {q : Query} {rows : q.Rows} {operation : String}
    (he : q.effect (base.db.putAll ws) base.clock seq = { seq := seq, reply := .ok rows }) :
    Alone machine .done i (Solo i base ws seq) (LegalHold.issue operation (.query q)).run
      (Succeeds fun rows' srv => rows' = rows ∧ Solo i base ws seq srv) := by
  have hissue : Alone machine .done i (Solo i base ws seq)
      (LegalHold.issue operation (.query q)).run
      (Succeeds fun rows' srv => rows' = rows ∧ Solo i base (ws ++ []) seq srv) :=
    Solo.issue he rfl
  rwa [List.append_nil] at hissue

theorem begin_alone {operation : String} (htxs : base.txs = []) :
    Alone machine .done i (fun srv => srv = base) (issue operation .begin).run
      (Succeeds fun _ => Solo i base [] base.seq) := by
  refine issue_alone fun srv heq => ?_
  subst heq
  have htx : srv.tx? i = none := by simp [Server.tx?, htxs]
  refine ⟨{ srv with txs := ⟨i, srv.clock, [], []⟩ :: srv.txs }, (), ?_, ⟨[], ?_⟩, rfl, rfl, rfl⟩
  · simp only [Server.perform, htx]
  · simp [Server.note, htxs]

theorem commit_alone {operation : String} :
    Alone machine .done i (Solo i base ws seq) (issue operation .commit).run
      (Succeeds fun _ => Finished base ws seq) := by
  refine issue_alone fun srv hsolo => ?_
  obtain ⟨locks, htxs⟩ := hsolo.txs
  have htx : srv.tx? i = some ⟨i, base.clock, ws, locks⟩ := by simp [Server.tx?, htxs]
  refine ⟨srv.commitTx ⟨i, base.clock, ws, locks⟩, (), ?_, ?_, ?_, hsolo.clock, hsolo.seq⟩
  · simp only [Server.perform, htx]
  · simp [Server.note, Server.commitTx, Server.endTx, htxs]
  · simp [Server.note, Server.commitTx, hsolo.db]

/-! ### From the start to the receipt -/

theorem replay_alone (hunseen : base.db.command? c.key = none) :
    Alone machine .done i (Solo i base [] base.seq)
      (replay c.caller c.actor c.change.operation c.idempotencyKey c.requestHash).run
      (Succeeds fun found srv => found = none ∧ Solo i base [] base.seq srv) := by
  have he : (Query.selectCommand c.key).effect (base.db.putAll []) base.clock base.seq =
      { seq := base.seq, reply := .ok none } := by
    simp only [Query.effect, Db.putAll_nil, hunseen]
  refine Alone.run_bind (Solo.read he) fun row => Alone.of_pure fun hrow => ?_
  subst hrow
  exact Alone.ret fun srv hsolo => ⟨rfl, hsolo⟩

/-- **Every mutating operation starts the same** when it is alone: it begins, finds no receipt,
and goes on. -/
theorem start_alone {operation : String} {fresh : Storage HoldView} {R : HoldView → Server → Prop}
    (htxs : base.txs = []) (hunseen : base.db.command? c.key = none)
    (hfresh : Alone machine .done i (Solo i base [] base.seq) fresh.run (Succeeds R)) :
    Alone machine .done i (fun srv => srv = base)
      (do
        issue operation .begin
        match ← replay c.caller c.actor c.change.operation c.idempotencyKey c.requestHash with
        | some response => decodeResponse response
        | none => fresh : Storage HoldView).run
      (Succeeds R) := by
  refine Alone.run_bind (begin_alone htxs) fun _ => ?_
  refine Alone.run_bind (replay_alone hunseen) fun found => Alone.of_pure fun hfound => ?_
  subst hfound
  exact hfresh

/-- **The checks under the row lock** let a command pass that finds its hold open. -/
theorem checks_alone {revision : Int} {row : HoldRow} {rest : Storage HoldView}
    {R : HoldView → Server → Prop} (hopen : base.db.Open c revision row)
    (hrest : Alone machine .done i (Solo i base [] base.seq) rest.run (Succeeds R)) :
    Alone machine .done i (Solo i base [] base.seq)
      (do
        let (status, found) ← lockHold c.organizationId c.holdId
        if status ≠ .active then refuse .holdReleased
        else if found ≠ revision then refuse .revisionConflict
        else rest : Storage HoldView).run
      (Succeeds R) := by
  have hfound : (base.db.hold? c.holdId).filter (·.organizationId = c.organizationId) =
      some row := by
    rw [hopen.found, Option.filter_some, if_pos]
    simpa using hopen.organization
  have he : (Query.lockHold c.organizationId c.holdId).effect (base.db.putAll []) base.clock
      base.seq = { locks := [.row .forUpdate c.holdId], seq := base.seq,
                   reply := .ok (some (row.status, row.revision)) } := by
    simp only [Query.effect, Db.putAll_nil, hfound]
  have hlock : Alone machine .done i (Solo i base [] base.seq)
      (lockHold c.organizationId c.holdId).run
      (Succeeds fun found srv => found = (row.status, row.revision) ∧
        Solo i base [] base.seq srv) := by
    refine Alone.run_bind (Solo.issue he rfl) fun found => Alone.of_pure fun heq => ?_
    subst heq
    exact Alone.ret fun srv hsolo => ⟨rfl, hsolo⟩
  refine Alone.run_bind hlock fun found => Alone.of_pure fun heq => ?_
  subst heq
  simp only [ne_eq, hopen.active, hopen.revision, not_true_eq_false, if_false]
  exact hrest

/-! ### From a change to the commit -/

variable {view : HoldView}

/-- The sequences after a number was drawn for an activity row. -/
def Sequences.next (seq : Sequences) : Sequences := { seq with activity := seq.activity + 1 }

/-- The writes of a transaction that has made the changes `ws`. -/
def Command.writes (c : Command) (ws : List Write) (activityId : Int) (view : HoldView)
    (now : Time) : List Write :=
  ws ++ [.insertActivity (c.activity activityId now), .insertCommand (c.receipt view now)]

theorem loadHoldTx_alone {activityId : Int}
    (hload : (base.db.putAll ws).loadHold c.organizationId c.holdId = .ok view) :
    Alone machine .done i
      (Solo i base (ws ++ [.insertActivity (c.activity activityId base.clock)]) seq)
      (loadHoldTx c.organizationId c.holdId).run
      (Succeeds fun view' srv => view' = view ∧
        Solo i base (ws ++ [.insertActivity (c.activity activityId base.clock)]) seq srv) := by
  -- the activity row changes neither the hold nor its scopes
  obtain ⟨row, hrow, hview⟩ : ∃ row, ((base.db.putAll ws).hold? c.holdId).filter
      (·.organizationId = c.organizationId) = some row ∧
      holdView row ((base.db.putAll ws).sortedScopes c.holdId) = .ok view := by
    unfold Db.loadHold at hload
    split at hload
    · cases hload
    · next row hrow => exact ⟨row, hrow, hload⟩
  have hselect : (Query.selectHold c.organizationId c.holdId).effect
      (base.db.putAll (ws ++ [.insertActivity (c.activity activityId base.clock)])) base.clock
      seq = { seq := seq, reply := .ok (some row) } := by
    rw [Db.putAll_append]
    simp only [Query.effect, Db.putAll_cons, Db.putAll_nil, Db.hold?_insertActivity, hrow]
  refine Alone.run_bind (Solo.read hselect) fun found => Alone.of_pure fun hfound => ?_
  subst hfound
  have hscopes : (Query.selectScopes c.holdId).effect
      (base.db.putAll (ws ++ [.insertActivity (c.activity activityId base.clock)])) base.clock
      seq = { seq := seq, reply := .ok ((base.db.putAll ws).sortedScopes c.holdId) } := by
    rw [Db.putAll_append]
    rfl
  refine Alone.run_bind (Solo.read hscopes) fun rows => Alone.of_pure fun hrows => ?_
  subst hrows
  refine Alone.ret fun srv hsolo => ?_
  rw [hview]
  exact ⟨rfl, hsolo⟩

/-- **What all mutations share**, alone: a changed hold is concluded. -/
theorem conclude_alone {operation : String} (hunseen : base.db.command? c.key = none)
    (hchanged : Changes base.db c base.clock ws) (hroom : seq.activity ≤ maxI64)
    (hload : (base.db.putAll ws).loadHold c.organizationId c.holdId = .ok view) :
    Alone machine .done i (Solo i base ws seq) (c.conclude operation).run
      (Succeeds fun view' srv => view' = view ∧
        Finished base (c.writes ws seq.activity view base.clock) seq.next srv) := by
  obtain ⟨row, hrow⟩ := hchanged.exists_hold
  -- There is a hold to write an event for, and a number to draw for it.
  have happend : (Query.insertActivity c.organizationId c.holdId c.change.kind c.actor
      c.change.payload).effect (base.db.putAll ws) base.clock seq =
      { writes := [.insertActivity (c.activity seq.activity base.clock)],
        locks := [.row .keyShare c.holdId], seq := seq.next, reply := .ok () } := by
    simp only [Query.effect, hrow, Int.not_lt.mpr hroom, if_false]
    rfl
  refine Alone.run_bind (Solo.issue happend rfl) fun _ => Alone.of_pure fun _ => ?_
  refine Alone.run_bind (loadHoldTx_alone hload) fun view' => Alone.of_pure fun hview => ?_
  subst hview
  have hnone : (base.db.putAll
      (ws ++ [.insertActivity (c.activity seq.activity base.clock)])).command? c.key = none := by
    rw [Db.command?_putAll_of_ne, hunseen]
    intro w hw
    rcases List.mem_append.mp hw with hw | hw
    · rw [(hchanged.holdId hw).2]
      exact fun h => by cases h
    · rw [List.mem_singleton.mp hw]
      exact fun h => by cases h
  -- No receipt has come in between, and so this one is stored.
  have hstore : (Query.insertCommand c.key c.requestHash view'.toValue).effect
      (base.db.putAll (ws ++ [.insertActivity (c.activity seq.activity base.clock)])) base.clock
      seq.next =
      { writes := [.insertCommand (c.receipt view' base.clock)],
        locks := [.commandKey c.key], seq := seq.next, reply := .ok () } := by
    simp only [Query.effect, hnone]
    rfl
  refine Alone.run_bind (Solo.issue hstore rfl) fun _ => Alone.of_pure fun _ => ?_
  refine Alone.run_bind commit_alone fun _ => Alone.ret fun srv hfinished => ⟨rfl, ?_⟩
  rw [List.append_assoc] at hfinished
  exact hfinished

/-! ### The operations -/

omit [Backend] in
theorem updateHold_eq {db : Db} {h : String} {f : HoldRow → HoldRow} {row : HoldRow}
    (hrow : db.hold? h = some row) (hroom : (f row).revision ≤ maxI64) :
    updateHold db seq h f = { writes := [.updateHold (f row)], locks := [.row .noKeyUpdate h],
                              seq := seq, reply := .ok () } := by
  unfold updateHold
  rw [hrow]
  simp only [Int.not_lt.mpr hroom, if_false]

/-- From a change of the scopes to the commit. -/
theorem advance_alone {operation : String} {w : Write} {revision : Int} {row : HoldRow}
    (hunseen : base.db.command? c.key = none) (hopen : base.db.Open c revision row)
    (hw : ∀ db : Db, (db.put w).hold? c.holdId = db.hold? c.holdId)
    (hchanged : Changes base.db c base.clock [w, .updateHold row.advanced])
    (hroom : seq.activity ≤ maxI64)
    (hload : (base.db.putAll [w, .updateHold row.advanced]).loadHold c.organizationId c.holdId =
      .ok view) :
    Alone machine .done i (Solo i base [w] seq)
      (do
        issue "advance legal hold revision" (.query (.advanceRevision c.holdId))
        c.conclude operation : Storage HoldView).run
      (Succeeds fun view' srv => view' = view ∧ Finished base
        (c.writes [w, .updateHold row.advanced] seq.activity view base.clock) seq.next srv) := by
  have hrow : (base.db.putAll [w]).hold? c.holdId = some row := (hw base.db).trans hopen.found
  have he : (Query.advanceRevision c.holdId).effect (base.db.putAll [w]) base.clock seq =
      { writes := [.updateHold row.advanced], locks := [.row .noKeyUpdate c.holdId], seq := seq,
        reply := .ok () } := updateHold_eq hrow hopen.room
  refine Alone.run_bind (Solo.issue he rfl) fun _ => Alone.of_pure fun _ => ?_
  exact conclude_alone hunseen hchanged hroom hload

/-- The command can be carried out on the tables of `base`, by the changes `ws`. -/
structure Possible (base : Server) (c : Command) (ws : List Write) (view : HoldView) : Prop where
  unseen : base.db.command? c.key = none
  changed : Changes base.db c base.clock ws
  numbered : ∀ row, .insertScope row ∈ ws → row.scopeRowId = base.seq.scopeRow
  room : base.seq.activity ≤ maxI64
  view : (base.db.putAll ws).loadHold c.organizationId c.holdId = .ok view

/-- The server after the command was carried out with no other session in between. -/
structure Carried (base : Server) (c : Command) (ws : List Write) (view : HoldView)
    (srv : Server) : Prop where
  txs : srv.txs = []
  db : srv.db = base.db.putAll (c.writes ws base.seq.activity view base.clock)
  clock : srv.clock = base.clock
  activity : srv.seq.activity = base.seq.activity + 1
  scopeRow : srv.seq.scopeRow ≤ base.seq.scopeRow + 1

omit [Backend] in
theorem Finished.carried {srv : Server}
    (h : Finished base (c.writes ws base.seq.activity view base.clock) seq srv)
    (hactivity : seq.activity = base.seq.activity + 1)
    (hscopeRow : seq.scopeRow ≤ base.seq.scopeRow + 1) :
    Carried base c ws view srv where
  txs := h.txs
  db := h.db
  clock := h.clock
  activity := by rw [h.seq]; exact hactivity
  scopeRow := by rw [h.seq]; exact hscopeRow

theorem createHold_alone {input : CreateHold} (htxs : base.txs = [])
    (h : Possible base input.command ws view) :
    Alone machine .done i (fun srv => srv = base) (createHold input).run
      (Succeeds fun view' srv => view' = view ∧ Carried base input.command ws view srv) := by
  have hchange : input.command.change = .create input.title input.reason input.legalAuthority := rfl
  refine start_alone (c := input.command) htxs h.unseen ?_
  have hchanged := h.changed
  cases hchanged with
  | create change absent =>
    cases hchange.symm.trans change
    have he : (Query.insertHold input.holdId input.organizationId input.title input.reason
        input.legalAuthority input.actor).effect (base.db.putAll []) base.clock base.seq =
        { writes := [.insertHold (createdRow input.holdId input.organizationId input.title
            input.reason input.legalAuthority input.actor base.clock)],
          locks := [.holdKey input.holdId], seq := base.seq, reply := .ok (1 : ℕ) } := by
      have habsent : base.db.hold? input.holdId = none := absent
      simp only [Query.effect, Db.putAll_nil, habsent]
    refine Alone.run_bind (Solo.issue he rfl) fun inserted => Alone.of_pure fun hone => ?_
    subst hone
    simp only [ne_eq, not_true_eq_false, if_false]
    refine (conclude_alone (c := input.command) h.unseen h.changed h.room h.view).run_conseq
      fun view' srv hr => ⟨hr.1, hr.2.carried rfl ?_⟩
    exact Int.le_of_lt (Int.lt_succ _)
  | addScope change => cases hchange.symm.trans change
  | removeScope change => cases hchange.symm.trans change
  | release change => cases hchange.symm.trans change

theorem addScope_alone {input : ScopeRequest} (htxs : base.txs = [])
    (h : Possible base (input.command true) ws view) :
    Alone machine .done i (fun srv => srv = base)
      (mutateScope { input with operation := .addScope, add := true }).run
      (Succeeds fun view' srv => view' = view ∧
        Carried base (input.command true) ws view srv) := by
  have hchange : (input.command true).change = .addScope input.scope input.expectedRevision := rfl
  refine start_alone (c := input.command true) htxs h.unseen ?_
  have hchanged := h.changed
  cases hchanged with
  | @addScope scope revision scopeRowId row change opened absent drawn =>
    cases hchange.symm.trans change
    -- The row carries the number that the sequence hands out next.
    have hnumber : scopeRowId = base.seq.scopeRow := h.numbered _ List.mem_cons_self
    refine checks_alone (c := input.command true) opened ?_
    have he : (Query.insertScope input.holdId input.scope input.actor).effect (base.db.putAll [])
        base.clock base.seq =
        { writes := [.insertScope ⟨input.scope, scopeRowId, input.holdId, input.actor, base.clock⟩],
          locks := [.scopeKey input.holdId input.scope, .row .keyShare input.holdId],
          seq := { base.seq with scopeRow := base.seq.scopeRow + 1 }, reply := .ok (1 : ℕ) } := by
      have hfound : base.db.hold? input.holdId = some row := opened.found
      have hno : ¬ base.db.HasScope input.holdId input.scope := absent
      have hleft : ¬ maxI64 < base.seq.scopeRow := Int.not_lt.mpr (hnumber ▸ drawn)
      simp only [Query.effect, Db.putAll_nil, hleft, hno, hfound, if_false, hnumber]
    refine Alone.run_bind (Solo.issue he rfl) fun changed => Alone.of_pure fun hone => ?_
    subst hone
    simp only [ne_eq, not_true_eq_false, if_false]
    have hroom : ({ base.seq with scopeRow := base.seq.scopeRow + 1 } : Sequences).activity ≤
        maxI64 := h.room
    refine (advance_alone (c := input.command true) h.unseen opened (fun _ => rfl) h.changed
      hroom h.view).run_conseq fun view' srv hr => ⟨hr.1, hr.2.carried rfl ?_⟩
    exact Int.le_refl _
  | create change => cases hchange.symm.trans change
  | removeScope change => cases hchange.symm.trans change
  | release change => cases hchange.symm.trans change

theorem removeScope_alone {input : ScopeRequest} (htxs : base.txs = [])
    (h : Possible base (input.command false) ws view) :
    Alone machine .done i (fun srv => srv = base)
      (mutateScope { input with operation := .removeScope, add := false }).run
      (Succeeds fun view' srv => view' = view ∧
        Carried base (input.command false) ws view srv) := by
  have hchange : (input.command false).change = .removeScope input.scope input.expectedRevision :=
    rfl
  refine start_alone (c := input.command false) htxs h.unseen ?_
  have hchanged := h.changed
  cases hchanged with
  | @removeScope scope revision row change opened present =>
    cases hchange.symm.trans change
    refine checks_alone (c := input.command false) opened ?_
    have hpresent : ((base.db.scopesOf input.holdId).filter
        fun row => row.toScope = input.scope).length = 1 := present
    have hne :
        (base.db.scopesOf input.holdId).filter (fun row => row.toScope = input.scope) ≠ [] := by
      intro hnil
      rw [hnil] at hpresent
      cases hpresent
    have he : (Query.deleteScope input.holdId input.scope).effect (base.db.putAll []) base.clock
        base.seq = { writes := [.deleteScope input.holdId input.scope],
                     locks := [.scopeKey input.holdId input.scope], seq := base.seq,
                     reply := .ok (1 : ℕ) } := by
      simp only [Query.effect, Db.putAll_nil, hne, if_false, hpresent]
    refine Alone.run_bind (Solo.issue he rfl) fun changed => Alone.of_pure fun hone => ?_
    subst hone
    simp only [ne_eq, not_true_eq_false, if_false]
    refine (advance_alone (c := input.command false) h.unseen opened (fun _ => rfl) h.changed
      h.room h.view).run_conseq fun view' srv hr => ⟨hr.1, hr.2.carried rfl ?_⟩
    exact Int.le_of_lt (Int.lt_succ _)
  | create change => cases hchange.symm.trans change
  | addScope change => cases hchange.symm.trans change
  | release change => cases hchange.symm.trans change

theorem releaseHold_alone {input : ReleaseHold} (htxs : base.txs = [])
    (h : Possible base input.command ws view) :
    Alone machine .done i (fun srv => srv = base) (releaseHold input).run
      (Succeeds fun view' srv => view' = view ∧ Carried base input.command ws view srv) := by
  have hchange : input.command.change = .release input.reason input.expectedRevision := rfl
  refine start_alone (c := input.command) htxs h.unseen ?_
  have hchanged := h.changed
  cases hchanged with
  | @release reason revision row change opened =>
    cases hchange.symm.trans change
    refine checks_alone (c := input.command) opened ?_
    have he : (Query.releaseHold input.holdId input.actor input.reason).effect
        (base.db.putAll []) base.clock base.seq =
        { writes := [.updateHold (row.released input.actor input.reason base.clock)],
          locks := [.row .noKeyUpdate input.holdId], seq := base.seq, reply := .ok () } :=
      updateHold_eq opened.found opened.room
    refine Alone.run_bind (Solo.issue he rfl) fun _ => Alone.of_pure fun _ => ?_
    refine (conclude_alone (c := input.command) h.unseen h.changed h.room h.view).run_conseq
      fun view' srv hr => ⟨hr.1, hr.2.carried rfl ?_⟩
    exact Int.le_of_lt (Int.lt_succ _)
  | create change => cases hchange.symm.trans change
  | addScope change => cases hchange.symm.trans change
  | removeScope change => cases hchange.symm.trans change

/-- **A possible command is carried out**, whichever it is. -/
theorem program_alone (htxs : base.txs = []) (hcmd : i.op.command? = some c)
    (h : Possible base c ws view) :
    Alone machine .done i (fun srv => srv = base) (program i.op).run
      (Succeeds fun a srv => a = .hold view ∧ Carried base c ws view srv) := by
  obtain ⟨id, op⟩ := i
  have hmap : ∀ {x : Storage HoldView}, Alone machine .done ⟨id, op⟩ (fun srv => srv = base) x.run
      (Succeeds fun view' srv => view' = view ∧ Carried base c ws view srv) →
      Alone machine .done ⟨id, op⟩ (fun srv => srv = base) (Answer.hold <$> x).run
        (Succeeds fun a srv => a = .hold view ∧ Carried base c ws view srv) := fun hx =>
    Alone.run_map (hx.run_conseq fun view' srv hr => ⟨congrArg Answer.hold hr.1, hr.2⟩)
  cases op with
  | createHold input =>
    cases hcmd
    exact hmap (createHold_alone htxs h)
  | addScope input =>
    cases hcmd
    exact hmap (addScope_alone htxs h)
  | removeScope input =>
    cases hcmd
    exact hmap (removeScope_alone htxs h)
  | releaseHold input =>
    cases hcmd
    exact hmap (releaseHold_alone htxs h)
  | getHold => cases hcmd
  | listHolds => cases hcmd
  | listActivity => cases hcmd
  | checkRetention => cases hcmd

end

end LegalHold
