import LegalHold.Sessions

/-!
# The sessions that read

What the reading operations return, in terms of what was committed when each of
their statements ran.  A view comes out of two statements of one transaction,
and under READ COMMITTED each of them sees the commits of its own moment.

## Main definitions

* `ViewRead` — a view made of a hold row and of scopes, read one after the other.
* `Listed`, `ActivityRead`, `Checked` — a page of holds, a page of activity, and
  a guard decision.
* `Post` — what any operation can end in.

## Main results

* `returned_post` — **every session that has returned meets its `Post`**, in
  every reachable configuration.
-/

namespace LegalHold

open Interleave

section

variable [Backend]

/-! ### What is read -/

/-- The session has received the reply to each of its statements; none has failed or has been
lost. -/
def AllDone (srv : Server) (i : Session Op) : Prop := ∀ e ∈ srv.eventsOf i, e.fate = .done

/-- The view is made of the hold row read by `e₁` and the scopes read by `e₂`. -/
structure ViewRead (srv : Server) (i : Session Op) (organizationId holdId : String)
    (view : HoldView) (e₁ e₂ : Event) : Prop where
  rowMem : e₁ ∈ srv.eventsOf i
  rowStmt : e₁.stmt = .query (.selectHold organizationId holdId)
  scopesMem : e₂ ∈ srv.eventsOf i
  scopesStmt : e₂.stmt = .query (.selectScopes holdId)
  order : e₁.seen ≤ e₂.seen
  made : ∃ row, (srv.asOf e₁.seen).hold? holdId = some row ∧
    row.organizationId = organizationId ∧
    holdView row ((srv.asOf e₂.seen).sortedScopes holdId) = .ok view

/-- A page of holds: the ids from one statement, each view from its own two. -/
structure Listed (srv : Server) (i : Session Op) (organizationId : String)
    (status : Option Status) (cursor : Option String) (limit : Int) (views : List HoldView)
    (next : Option String) (e : Event) : Prop where
  mem : e ∈ srv.eventsOf i
  stmt : e.stmt = .pool (.listHolds organizationId status cursor (limit + 1))
  nonneg : 0 ≤ limit + 1
  ids : views.map (·.holdId) = (Server.holdPage (srv.asOf e.seen) organizationId status cursor
    (limit + 1)).take (if limit < 0 then 200 else limit.toNat)
  next : next = if limit < (Server.holdPage (srv.asOf e.seen) organizationId status cursor
    (limit + 1)).length then views.getLast?.map (·.holdId) else none
  views : ∀ v ∈ views, ∃ e₁ e₂, e.seen ≤ e₁.seen ∧ ViewRead srv i organizationId v.holdId v e₁ e₂

/-- A page of activity, of a hold that was there. -/
structure ActivityRead (srv : Server) (i : Session Op) (organizationId holdId : String)
    (after limit : Int) (events : List ActivityView) (next : Int) (e : Event) : Prop where
  mem : e ∈ srv.eventsOf i
  stmt : e.stmt = .pool (.listActivity organizationId holdId after limit)
  hold : ∃ row, (srv.asOf e.seen).hold? holdId = some row ∧ row.organizationId = organizationId
  nonneg : 0 ≤ limit
  rows : (Server.activityPage (srv.asOf e.seen) organizationId holdId after limit).mapM
    activityView = .ok events
  next : next = match events.getLast? with
    | none => after
    | some event => (parseI64 event.activityId).getD after

/-- A guard decision, from what was committed when its statement ran. -/
structure Checked (srv : Server) (i : Session Op) (input : RetentionCheck) (d : GuardDecision)
    (e : Event) : Prop where
  mem : e ∈ srv.eventsOf i
  stmt : e.stmt = .pool (.matchHolds input.scopeKind input.scopeId input.subject)
  decision : d = guardDecision input
    (Server.matching (srv.asOf e.seen) input.scopeKind input.scopeId input.subject)
  stored : ∃ row ∈ srv.decisions, row.decisionId = d.decisionId

theorem ViewRead.frame {srv srv' : Server} {i : Session Op} {org h : String} {view : HoldView}
    {e₁ e₂ : Event} (hv : ViewRead srv i org h view e₁ e₂) (hinv : srv.Inv)
    (hevents : ∀ e ∈ srv.eventsOf i, e ∈ srv'.eventsOf i) (hlog : srv.log <+: srv'.log) :
    ViewRead srv' i org h view e₁ e₂ := by
  obtain ⟨hm₁, hs₁, hm₂, hs₂, horder, row, hrow, horg, hmade⟩ := hv
  refine ⟨hevents _ hm₁, hs₁, hevents _ hm₂, hs₂, horder, row, ?_, horg, ?_⟩
  · rw [Server.asOf_of_le hlog (hinv.seen_le hm₁)]
    exact hrow
  · rw [Server.asOf_of_le hlog (hinv.seen_le hm₂)]
    exact hmade

omit [Backend] in
theorem Kept.mem_eventsOf {i : Session Op} {srv srv' : Server} (hframe : Kept i srv srv') :
    ∀ e ∈ srv.eventsOf i, e ∈ srv'.eventsOf i := by
  rw [hframe.events]
  exact fun _ he => he

/-- A view is of the hold whose row was read. -/
theorem holdView_holdId {row : HoldRow} {rows : List ScopeRow} {view : HoldView}
    (h : holdView row rows = .ok view) : view.holdId = row.holdId := by
  obtain ⟨scopes, createdAt, releasedAt, -, -, -, rfl⟩ := holdView_eq_ok.mp h
  rfl

/-- A view is of the organization whose row was read. -/
theorem holdView_organizationId {row : HoldRow} {rows : List ScopeRow} {view : HoldView}
    (h : holdView row rows = .ok view) : view.organizationId = row.organizationId := by
  obtain ⟨scopes, createdAt, releasedAt, -, -, -, rfl⟩ := holdView_eq_ok.mp h
  rfl

theorem ViewRead.target {srv : Server} {i : Session Op} {org hold : String} {view : HoldView}
    {e₁ e₂ : Event} (h : ViewRead srv i org hold view e₁ e₂) :
    view.organizationId = org ∧ view.holdId = hold := by
  obtain ⟨row, hrow, horg, hmade⟩ := h.made
  exact ⟨(holdView_organizationId hmade).trans horg,
    (holdView_holdId hmade).trans (Db.holdId_of_hold? hrow)⟩

/-! ### What lasts -/

variable {i : Session Op}

/-- An assertion about what session `i` has seen: more statements and more
commits do not change it. -/
def Lasting (i : Session Op) (F : Server → Prop) : Prop :=
  ∀ ⦃srv srv'⦄, srv.Inv → (∀ e ∈ srv.eventsOf i, e ∈ srv'.eventsOf i) →
    srv.log <+: srv'.log → F srv → F srv'

omit [Backend] in
theorem Server.note_mono {srv srv' : Server} {s : Stmt} {f : Fate} {seen : ℕ}
    (htrace : srv'.trace = srv.trace) (hlog : srv.log <+: srv'.log) :
    (∀ e ∈ srv.eventsOf i, e ∈ (srv'.note i s f seen).eventsOf i) ∧
      srv.log <+: (srv'.note i s f seen).log := by
  refine ⟨fun e he => ?_, hlog⟩
  rw [Server.eventsOf_note]
  unfold Server.eventsOf at he ⊢
  rw [htrace]
  exact List.mem_append_left _ he

/-- **What lasts is kept along with any triple.** -/
theorem Lasting.triple {α : Type} {P : Server → Prop} {p : Prog Stmt Stmt.Reply α}
    {Q : α → Server → Prop} {F : Server → Prop} (hF : Lasting i F)
    (h : Triple discipline i P p Q) :
    Triple discipline i (fun srv => P srv ∧ F srv) p fun a srv => Q a srv ∧ F srv := by
  refine Triple.frame ?_ ?_ h
  · intro srv srv' hinv hf _ hframe
    exact hF hinv hframe.mem_eventsOf hframe.log hf
  · intro srv s f srv' r hinv hexec hf
    obtain ⟨srv₁, hmoved, rfl⟩ := Server.exec_moved hexec
    obtain ⟨hevents, hlog⟩ := Server.note_mono hmoved.trace hmoved.log
    exact hF hinv hevents hlog hf

/-- What lasts for a session still holds at the end of a program, whether it has ended with a
value or with an error. -/
theorem Lasting.ends {α : Type} {P : Server → Prop} {x : Storage α} {R : α → Server → Prop}
    {E : StorageError → Server → Prop} {F : Server → Prop} (hF : Lasting i F)
    (h : Triple discipline i P x.run (Ends R E)) :
    Triple discipline i (fun srv => P srv ∧ F srv) x.run
      (Ends (fun a srv => R a srv ∧ F srv) E) := by
  refine (hF.triple h).conseq (fun _ _ h => h) fun r srv _ h => ?_
  cases r with
  | ok a => exact h
  | error e => exact h.1

/-- What the first `n` commits left behind lasts. -/
theorem Lasting.asOf {n : ℕ} (F : Db → Prop) :
    Lasting i fun srv => n ≤ srv.log.length ∧ F (srv.asOf n) := by
  rintro srv srv' _ _ hlog ⟨hn, hf⟩
  refine ⟨Nat.le_trans hn hlog.length_le, ?_⟩
  rw [Server.asOf_of_le hlog hn]
  exact hf

theorem ViewRead.lasting {org h : String} {view : HoldView} {e₁ e₂ : Event} :
    Lasting i fun srv => ViewRead srv i org h view e₁ e₂ :=
  fun _ _ hinv hevents hlog hv => hv.frame hinv hevents hlog

/-! ### The programs -/

/-- A statement that leaves its transaction as it is. -/
theorem Begun.issue {es : List Event} {operation : String} {q : Query}
    (hidle : ∀ db now seq, (q.effect db now seq).writes = [] ∧ (q.effect db now seq).locks = [])
    (hcov : ∀ now, (Tx.mk i now [] []).Covers q) :
    Triple discipline i (Begun i es) (LegalHold.issue operation (.query q)).run
      (Ends (fun rows srv => ∃ n now seq,
          Begun i (es ++ [⟨i, .query q, .done, n⟩]) srv ∧ (∀ e ∈ es, e.seen ≤ n) ∧
          n ≤ srv.log.length ∧ (q.effect (srv.asOf n) now seq).reply = .ok rows)
        fun _ _ => True) := by
  refine Triple.issue (fun srv srv' _ h _ hframe => h.frame hframe) ?_ ?_ (fun _ _ _ => trivial)
  · intro srv hinv hbegun t ht
    obtain ⟨now, htx⟩ := hbegun.tx
    cases htx.symm.trans ht
    exact hcov now
  · intro srv srv' r hinv hbegun hperform hinv' hevents
    obtain ⟨now, htx⟩ := hbegun.tx
    obtain ⟨-, rfl, rfl⟩ := Server.perform_query htx hperform
    cases hr : (q.effect (srv.view ⟨i, now, [], []⟩) now srv.seq).reply with
    | error e => exact trivial
    | ok rows =>
      obtain ⟨hwrites, hlocks⟩ := hidle (srv.view ⟨i, now, [], []⟩) now srv.seq
      refine ⟨srv.log.length, now, srv.seq, ⟨⟨now, ?_⟩, ?_⟩, ?_, Nat.le_refl _, ?_⟩
      · exact (Server.tx?_setTx_self htx rfl).trans
          (congrArg some (Tx.extend_idle _ hwrites hlocks))
      · rw [hevents, hbegun.events]
      · rw [← hbegun.events]
        exact fun e he => hinv.seen_le he
      · show (q.effect (srv.asOf srv.log.length) now srv.seq).reply = .ok rows
        rw [hinv.asOf_length]
        exact hr

/-- `load_hold_tx` for a reader: two statements, each with its own commits. -/
theorem readHold_triple {es : List Event} {organizationId holdId : String} :
    Triple discipline i (Begun i es) (loadHoldTx organizationId holdId).run
      (Ends (fun view srv => ∃ e₁ e₂, Begun i (es ++ [e₁, e₂]) srv ∧ e₁.fate = .done ∧
          e₂.fate = .done ∧ (∀ e ∈ es, e.seen ≤ e₁.seen) ∧
          ViewRead srv i organizationId holdId view e₁ e₂)
        fun _ _ => True) := by
  have hrow : ∀ now, (Tx.mk i now [] []).Covers (.selectHold organizationId holdId) :=
    fun _ => trivial
  have hscopes : ∀ now, (Tx.mk i now [] []).Covers (.selectScopes holdId) := fun _ => trivial
  -- the row
  refine Triple.run_bind (Begun.issue (fun _ _ _ => ⟨rfl, rfl⟩) hrow) fun row => ?_
  refine Triple.of_exists fun n => Triple.of_exists fun now => Triple.of_exists fun seq => ?_
  cases row with
  | none => exact Triple.ret fun _ _ _ => trivial
  | some row =>
    -- the scopes
    -- Commits may come between the two statements; what the first has seen lasts.
    have hfound : Lasting i fun srv => n ≤ srv.log.length ∧
        ((srv.asOf n).hold? holdId).filter (·.organizationId = organizationId) = some row :=
      Lasting.asOf fun db => (db.hold? holdId).filter (·.organizationId = organizationId) = some row
    rintro srv₀ hinv₀ ⟨hbegun₀, hes, hn, hreply₀⟩
    refine Triple.run_bind (hfound.ends (Begun.issue (fun _ _ _ => ⟨rfl, rfl⟩) hscopes))
      (fun rows => Triple.ret fun srv _ h => ?_) srv₀ hinv₀ ⟨hbegun₀, hn, Except.ok.inj hreply₀⟩
    obtain ⟨⟨m, now', seq', hbegun, hnm, -, hreply⟩, -, hrow⟩ := h
    have hle : n ≤ m := hnm ⟨i, .query (.selectHold organizationId holdId), .done, n⟩ (by simp)
    have hsorted : (srv.asOf m).sortedScopes holdId = rows := Except.ok.inj hreply
    obtain ⟨hsome, horg⟩ := Option.filter_eq_some_iff.mp hrow
    have hmade : holdView row rows = holdView row ((srv.asOf m).sortedScopes holdId) := by
      rw [hsorted]
    cases hv : holdView row rows with
    | error e => exact trivial
    | ok view =>
      have hbegun' := hbegun
      rw [List.append_assoc] at hbegun'
      refine ⟨_, _, hbegun', rfl, rfl, hes, ?_, rfl, ?_, rfl, hle, row, hsome,
        by simpa using horg, hmade.symm.trans hv⟩
      · rw [hbegun.events]
        simp
      · rw [hbegun.events]
        simp

omit [Backend] in
theorem Idle.of_fresh {srv : Server} (h : srv.tx? i = none ∧ srv.eventsOf i = []) :
    Idle i [] srv := ⟨h.1, h.2⟩

/-- The commit of a transaction that has only read. -/
theorem commitRead_triple {es : List Event} {operation : String} :
    Triple discipline i (Begun i es) (issue operation .commit).run
      (Ends (fun _ srv => ∃ e, e.fate = .done ∧ Idle i (es ++ [e]) srv) fun _ _ => True) := by
  refine Triple.issue (fun srv srv' _ h _ hframe => h.frame hframe) ?_ ?_ (fun _ _ _ => trivial)
  · intro srv hinv hbegun t ht
    obtain ⟨now, htx⟩ := hbegun.tx
    cases htx.symm.trans ht
    exact .inl rfl
  · intro srv srv' r hinv hbegun hperform hinv' hevents
    obtain ⟨now, htx⟩ := hbegun.tx
    simp only [Server.perform, htx] at hperform
    cases hperform
    exact ⟨_, rfl, Server.tx?_endTx_self srv i, by rw [hevents, hbegun.events]⟩

/-- **What `get_hold` returns**: a view made of what its two statements saw. -/
theorem getHold_triple {es : List Event} {organizationId holdId : String} :
    Triple discipline i (Idle i es) (getHold organizationId holdId).run
      (Ends (fun view srv => ∃ es', Idle i (es ++ es') srv ∧ (∀ e ∈ es', e.fate = .done) ∧
          ∃ e₁ e₂, (∀ e ∈ es, e.seen ≤ e₁.seen) ∧ ViewRead srv i organizationId holdId view e₁ e₂)
        fun _ _ => True) := by
  refine Triple.run_bind (begin_triple fun _ _ _ => trivial) fun _ => Triple.of_exists fun n => ?_
  refine Triple.run_bind readHold_triple fun view => ?_
  refine Triple.of_exists fun e₁ => Triple.of_exists fun e₂ => ?_
  rintro srv₀ hinv₀ ⟨hbegun, hd₁, hd₂, hes, hview⟩
  refine Triple.run_bind (ViewRead.lasting.ends commitRead_triple)
    (fun _ => Triple.ret fun srv _ h => ?_) srv₀ hinv₀ ⟨hbegun, hview⟩
  obtain ⟨⟨e, hd, hidle⟩, hview⟩ := h
  refine ⟨[⟨i, .begin, .done, n⟩, e₁, e₂, e], ?_, ?_, e₁, e₂, ?_, hview⟩
  · simpa using hidle
  · intro e' he'
    simp only [List.mem_cons, List.not_mem_nil, or_false] at he'
    rcases he' with rfl | rfl | rfl | rfl
    · rfl
    · exact hd₁
    · exact hd₂
    · exact hd
  · exact fun e' he' => hes e' (List.mem_append_left _ he')

/-- The loop of `list_holds` reads the listed holds one after the other. -/
theorem collect_triple {organizationId : String} (ids : List String) :
    ∀ {es : List Event}, Triple discipline i (Idle i es)
      (listHolds.collect organizationId ids).run
      (Ends (fun views srv => ∃ es', Idle i (es ++ es') srv ∧ (∀ e ∈ es', e.fate = .done) ∧
          views.map (·.holdId) = ids ∧ ∀ v ∈ views, ∃ e₁ e₂, (∀ e ∈ es, e.seen ≤ e₁.seen) ∧
            ViewRead srv i organizationId v.holdId v e₁ e₂)
        fun _ _ => True) := by
  induction ids with
  | nil =>
    intro es
    refine Triple.ret fun srv _ h => ⟨[], ?_, ?_, rfl, ?_⟩
    · rw [List.append_nil]
      exact h
    · intro e he
      cases he
    · intro v hv
      cases hv
  -- The first hold is read, and what was seen of it lasts while the others are.
  | cons holdId rest ih =>
    intro es
    refine Triple.run_bind getHold_triple fun view => Triple.of_exists fun es₁ => ?_
    rintro srv₀ hinv₀ ⟨hidle, hd₁, e₁, e₂, hes, hview⟩
    refine Triple.run_bind (ViewRead.lasting.ends ih) (fun views => Triple.ret fun srv _ h => ?_)
      srv₀ hinv₀ ⟨hidle, hview⟩
    obtain ⟨⟨es₂, hidle, hd₂, hids, hviews⟩, hview⟩ := h
    have hid : view.holdId = holdId := by
      obtain ⟨row, hrow, -, hmade⟩ := hview.made
      rw [holdView_holdId hmade]
      exact Db.holdId_of_hold? hrow
    refine ⟨es₁ ++ es₂, ?_, ?_, ?_, ?_⟩
    · rw [← List.append_assoc]
      exact hidle
    · exact List.forall_mem_append.mpr ⟨hd₁, hd₂⟩
    · rw [List.map_cons, hids, hid]
    · intro v hv
      rcases List.mem_cons.mp hv with rfl | hv
      · exact ⟨e₁, e₂, hes, by rw [hid]; exact hview⟩
      · obtain ⟨a, b, hes', hv'⟩ := hviews v hv
        exact ⟨a, b, fun e he => hes' e (List.mem_append_left _ he), hv'⟩

/-- A statement on the pool that only reads. -/
theorem Idle.issue {es : List Event} {operation : String} {q : PoolQuery}
    (hread : ∀ srv : Server, (srv.pool q).1 = srv)
    (hready : ∀ srv : Server, srv.Ready i (.pool q)) :
    Triple discipline i (Idle i es) (LegalHold.issue operation (.pool q)).run
      (Ends (fun rows srv => ∃ n, ∃ srv₀ : Server, Idle i (es ++ [⟨i, .pool q, .done, n⟩]) srv ∧
          (∀ e ∈ es, e.seen ≤ n) ∧ n ≤ srv.log.length ∧ srv₀.db = srv.asOf n ∧
          (srv₀.pool q).2 = .ok rows)
        fun _ _ => True) := by
  refine Triple.issue (fun srv srv' _ h _ hframe => h.frame hframe) (fun srv _ _ => hready srv) ?_
    (fun _ _ _ => trivial)
  intro srv srv' r hinv hidle hperform hinv' hevents
  have hpool : srv.pool q = (srv', r) := Option.some.inj hperform
  have hr : (srv.pool q).2 = r := by rw [hpool]
  have hsrv : srv = srv' := by rw [← hread srv, hpool]
  subst hsrv
  cases r with
  | error e => exact trivial
  | ok rows =>
    refine ⟨srv.log.length, srv, ⟨hidle.tx, by rw [hevents, hidle.events]⟩, ?_, Nat.le_refl _,
      hinv.asOf_length.symm, hr⟩
    rw [← hidle.events]
    exact fun e he => hinv.seen_le he

/-- **What `list_holds` returns**: a page of ids as one statement found them, and for each of them
the hold as a later transaction saw it. -/
theorem listHolds_triple {organizationId : String} {status : Option Status}
    {cursor : Option String} {limit : Int} :
    Triple discipline i (discipline.fresh i) (listHolds organizationId status cursor limit).run
      (Ends (fun page srv => AllDone srv i ∧
          ∃ e, Listed srv i organizationId status cursor limit page.1 page.2 e)
        fun _ _ => True) := by
  have hready : ∀ srv : Server,
      srv.Ready i (.pool (.listHolds organizationId status cursor (limit + 1))) := fun _ => trivial
  refine Triple.run_bind ((Idle.issue (fun _ => rfl) hready).conseq
    (fun _ _ h => Idle.of_fresh h) fun _ _ _ h => h) fun rows => ?_
  refine Triple.of_exists fun n => Triple.of_exists fun srv₁ => ?_
  rintro srv₀ hinv₀ ⟨hidle, -, hn, hdb, hreply⟩
  -- The ids were listed once, whatever is committed while the holds are read.
  have hpage : Lasting i fun srv => n ≤ srv.log.length ∧ srv.asOf n = srv₁.db :=
    Lasting.asOf fun db => db = srv₁.db
  refine Triple.run_bind (hpage.ends (collect_triple _))
    (fun views => Triple.ret fun srv _ h => ?_) srv₀ hinv₀ ⟨hidle, hn, hdb.symm⟩
  obtain ⟨⟨es', hidle, hd, hids, hviews⟩, -, hasOf⟩ := h
  simp only [Server.pool] at hreply
  split at hreply
  · cases hreply
  · next hnonneg =>
    have hrows := Except.ok.inj hreply
    rw [← hasOf] at hrows
    refine ⟨?_, ⟨i, .pool (.listHolds organizationId status cursor (limit + 1)), .done, n⟩,
      ?_, rfl, Int.not_lt.mp hnonneg, ?_, ?_, ?_⟩
    · intro e he
      rw [hidle.events, List.nil_append] at he
      rcases List.mem_append.mp he with he | he
      · rw [List.mem_singleton.mp he]
      · exact hd e he
    · rw [hidle.events]
      simp
    · rw [hids, hrows]
    · rw [hrows]
      simp only [decide_eq_true_eq]
    · intro v hv
      obtain ⟨e₁, e₂, hle, hview⟩ := hviews v hv
      exact ⟨e₁, e₂, hle _ (by simp), hview⟩

/-- A hold that was there is still there, in the same organization. -/
theorem Server.Inv.hold?_mono {srv : Server} (hinv : srv.Inv) {n m : ℕ} {h : String}
    {row : HoldRow} (hnm : n ≤ m) (hrow : (srv.asOf n).hold? h = some row) :
    ∃ row', (srv.asOf m).hold? h = some row' ∧ row'.origin = row.origin := by
  refine hinv.chronicle.preserves (P := fun db => ∃ row', db.hold? h = some row' ∧
    row'.origin = row.origin) hnm ⟨row, hrow, rfl⟩ ?_
  rintro db t c ws activityId view - hm ⟨row', hrow', horigin⟩
  obtain ⟨row'', hrow'', horigin'⟩ := hm.origin_eq hrow'
  exact ⟨row'', hrow'', horigin'.trans horigin⟩

/-- **What `list_activity` returns**: the page as one statement found it, after the hold had been
seen. -/
theorem listActivity_triple {organizationId holdId : String} {after limit : Int} :
    Triple discipline i (discipline.fresh i)
      (listActivity organizationId holdId after limit).run
      (Ends (fun page srv => AllDone srv i ∧
          ∃ e, ActivityRead srv i organizationId holdId after limit page.1 page.2 e)
        fun _ _ => True) := by
  have hready : ∀ srv : Server,
      srv.Ready i (.pool (.listActivity organizationId holdId after limit)) := fun _ => trivial
  refine Triple.run_bind (getHold_triple.conseq (fun _ _ h => Idle.of_fresh h) fun _ _ _ h => h)
    fun _ => Triple.of_exists fun es => ?_
  rintro srv₀ hinv₀ ⟨hidle, hd, e₁, e₂, -, hview⟩
  have hmem : e₁ ∈ [] ++ es := by
    rw [← hidle.events]
    exact hview.rowMem
  refine Triple.run_bind (ViewRead.lasting.ends (Idle.issue (fun _ => rfl) hready))
    (fun rows => ?_) srv₀ hinv₀ ⟨hidle, hview⟩
  cases hm : rows.mapM activityView with
  | error e => exact Triple.ret fun _ _ _ => trivial
  | ok events =>
    refine Triple.ret fun srv hinv h => ?_
    obtain ⟨⟨n, srv₁, hidle, hle, -, hdb, hreply⟩, hview⟩ := h
    simp only [Server.pool] at hreply
    split at hreply
    · cases hreply
    · next hnonneg =>
      have hrows := Except.ok.inj hreply
      rw [hdb] at hrows
      obtain ⟨row, hrow, horg, -⟩ := hview.made
      -- `get_hold` has found the hold, so it is there when the page is read.
      obtain ⟨row', hrow', horigin⟩ := hinv.hold?_mono (hle e₁ hmem) hrow
      refine ⟨?_, ⟨i, .pool (.listActivity organizationId holdId after limit), .done, n⟩, ?_, rfl,
        ⟨row', hrow', ?_⟩, Int.not_lt.mp hnonneg, ?_, rfl⟩
      · intro e he
        rw [hidle.events, List.nil_append] at he
        rcases List.mem_append.mp he with he | he
        · exact hd e he
        · rw [List.mem_singleton.mp he]
      · rw [hidle.events]
        simp
      · exact (congrArg Prod.fst horigin).trans horg
      · rw [hrows]
        exact hm

omit [Backend] in
theorem AllDone.snoc {srv' : Server} {es : List Event} {s : Stmt} {n : ℕ}
    (hes : ∀ e ∈ es, e.fate = .done) (hevents : srv'.eventsOf i = es ++ [⟨i, s, .done, n⟩]) :
    AllDone srv' i := by
  intro e he
  rw [hevents] at he
  rcases List.mem_append.mp he with he | he
  · exact hes e he
  · rw [List.mem_singleton.mp he]

/-- After `ON CONFLICT DO NOTHING` there is a row with the id, the one that was there or the new
one. -/
theorem Server.pool_insertDecision {srv srv' : Server} {id action caller : String}
    {hash : List UInt8} {allowed : Bool} {reason : Option String} {holds : Json}
    {r : Except SqlError Unit}
    (h : srv.pool (.insertDecision id action caller hash allowed reason holds) = (srv', r)) :
    srv'.log = srv.log ∧ ∃ row ∈ srv'.decisions, row.decisionId = id := by
  simp only [Server.pool] at h
  split at h
  · next hany =>
    cases h
    obtain ⟨row, hrow, hid⟩ := List.any_eq_true.mp hany
    exact ⟨rfl, row, hrow, by simpa using hid⟩
  · cases h
    exact ⟨rfl, _, List.mem_append_right _ List.mem_cons_self, rfl⟩

/-- **What `check_retention` returns**: a decision that is stored. -/
theorem checkRetention_triple {input : RetentionCheck} (hop : i.op = .checkRetention input) :
    Triple discipline i (discipline.fresh i) (checkRetention input).run
      (Ends (fun d srv => AllDone srv i ∧ ∃ e, Checked srv i input d e) fun _ _ => True) := by
  have hready : ∀ srv : Server, srv.Ready i
      (.pool (.matchHolds input.scopeKind input.scopeId input.subject)) := fun _ => trivial
  refine Triple.run_bind ((Idle.issue (fun _ => rfl) hready).conseq
    (fun _ _ h => Idle.of_fresh h) fun _ _ _ h => h) fun rows => ?_
  refine Triple.of_exists fun n => Triple.of_exists fun srv₁ => ?_
  refine Triple.run_bind (R := fun _ (srv : Server) => AllDone srv i ∧
    ∃ e, Checked srv i input (guardDecision input rows) e) ?_ fun _ => Triple.ret fun _ _ h => h
  -- The second statement: what the first one has seen is not changed by it.
  refine Triple.issue ?_ ?_ ?_ (fun _ _ _ => trivial)
  · rintro srv srv' hinv ⟨hidle, hle, hn, hdb, hreply⟩ _ hframe
    refine ⟨hidle.frame hframe, hle, Nat.le_trans hn hframe.log.length_le, ?_, hreply⟩
    rw [Server.asOf_of_le hframe.log hn]
    exact hdb
  · rintro srv hinv ⟨hidle, hle, hn, hdb, hreply⟩
    have hmem : (⟨i, .pool (.matchHolds input.scopeKind input.scopeId input.subject), .done, n⟩ :
        Event) ∈ srv.eventsOf i := by
      rw [hidle.events]
      simp
    refine ⟨_, (List.mem_filter.mp hmem).1, input, hop, rfl, ?_⟩
    have hrows :
        Server.matching (srv.asOf n) input.scopeKind input.scopeId input.subject = rows := by
      rw [← hdb]
      exact Except.ok.inj hreply
    rw [hrows]
    rfl
  · rintro srv srv' r hinv ⟨hidle, hle, hn, hdb, hreply⟩ hperform hinv' hevents
    obtain ⟨hlog, hstored⟩ := Server.pool_insertDecision (Option.some.inj hperform)
    cases r with
    | error e => exact trivial
    | ok rows' =>
      rw [hidle.events, List.nil_append] at hevents
      refine ⟨AllDone.snoc (by simp) hevents,
        ⟨i, .pool (.matchHolds input.scopeKind input.scopeId input.subject), .done, n⟩,
        by rw [hevents]; simp, rfl, ?_, hstored⟩
      have hasOf : ∀ s f m, (srv'.note i s f m).asOf n = srv.asOf n := fun s f m => by
        unfold Server.asOf Server.note
        rw [hlog]
      rw [hasOf, ← hdb, ← Except.ok.inj hreply]

/-! ### Every operation -/

/-- The views of holds that an operation has returned. -/
def Answer.views : Answer → List HoldView
  | .hold view => [view]
  | .holds views _ => views
  | _ => []

/-- What an operation that has returned `r` can have done, and what it can have seen. -/
def Post (i : Session Op) (r : Except StorageError Answer) (srv : Server) : Prop :=
  match i.op with
  | .createHold input => ∃ r', r = r'.map .hold ∧ Outcome i input.command srv r'
  | .addScope input => ∃ r', r = r'.map .hold ∧ Outcome i (input.command true) srv r'
  | .removeScope input => ∃ r', r = r'.map .hold ∧ Outcome i (input.command false) srv r'
  | .releaseHold input => ∃ r', r = r'.map .hold ∧ Outcome i input.command srv r'
  | .getHold org h => ∀ a, r = .ok a → AllDone srv i ∧
      ∃ view e₁ e₂, a = .hold view ∧ ViewRead srv i org h view e₁ e₂
  | .listHolds org status cursor limit => ∀ a, r = .ok a → AllDone srv i ∧
      ∃ views next e, a = .holds views next ∧ Listed srv i org status cursor limit views next e
  | .listActivity org h after limit => ∀ a, r = .ok a → AllDone srv i ∧
      ∃ events next e, a = .activity events next ∧
        ActivityRead srv i org h after limit events next e
  | .checkRetention input => ∀ a, r = .ok a → AllDone srv i ∧
      ∃ d e, a = .decision d ∧ Checked srv i input d e

omit [Backend] in
theorem AllDone.kept {srv srv' : Server} (h : AllDone srv i) (hframe : Kept i srv srv') :
    AllDone srv' i := by
  unfold AllDone
  rw [hframe.events]
  exact h

theorem Listed.kept {srv srv' : Server} {org : String} {status : Option Status}
    {cursor : Option String} {limit : Int} {views : List HoldView} {next : Option String}
    {e : Event} (h : Listed srv i org status cursor limit views next e) (hinv : srv.Inv)
    (hframe : Kept i srv srv') : Listed srv' i org status cursor limit views next e := by
  have hasOf := hframe.asOf hinv h.mem
  refine ⟨hframe.mem_eventsOf _ h.mem, h.stmt, h.nonneg, by rw [hasOf]; exact h.ids,
    by rw [hasOf]; exact h.next, fun v hv => ?_⟩
  obtain ⟨e₁, e₂, hle, hview⟩ := h.views v hv
  exact ⟨e₁, e₂, hle, hview.frame hinv hframe.mem_eventsOf hframe.log⟩

theorem ActivityRead.kept {srv srv' : Server} {org h : String} {after limit : Int}
    {events : List ActivityView} {next : Int} {e : Event}
    (ha : ActivityRead srv i org h after limit events next e) (hinv : srv.Inv)
    (hframe : Kept i srv srv') : ActivityRead srv' i org h after limit events next e := by
  have hasOf := hframe.asOf hinv ha.mem
  exact ⟨hframe.mem_eventsOf _ ha.mem, ha.stmt, by rw [hasOf]; exact ha.hold, ha.nonneg,
    by rw [hasOf]; exact ha.rows, ha.next⟩

theorem Checked.kept {srv srv' : Server} {input : RetentionCheck} {d : GuardDecision} {e : Event}
    (h : Checked srv i input d e) (hinv : srv.Inv) (hframe : Kept i srv srv') :
    Checked srv' i input d e := by
  obtain ⟨row, hrow, hid⟩ := h.stored
  exact ⟨hframe.mem_eventsOf _ h.mem, h.stmt, by rw [hframe.asOf hinv h.mem]; exact h.decision,
    row, hframe.decisions.subset hrow, hid⟩

/-- **Nobody can change what a session has ended in.** -/
theorem Post.kept {r : Except StorageError Answer} {srv srv' : Server} (h : Post i r srv)
    (hinv : srv.Inv) (hframe : Kept i srv srv') : Post i r srv' := by
  unfold Post at h ⊢
  have houtcome : ∀ {c : Command}, (∃ r', r = r'.map Answer.hold ∧ Outcome i c srv r') →
      ∃ r', r = r'.map Answer.hold ∧ Outcome i c srv' r' := by
    rintro c ⟨r', hr, ho⟩
    exact ⟨r', hr, ho.kept hinv hframe⟩
  cases hop : i.op with
  | createHold input => simp only [hop] at h ⊢; exact houtcome h
  | addScope input => simp only [hop] at h ⊢; exact houtcome h
  | removeScope input => simp only [hop] at h ⊢; exact houtcome h
  | releaseHold input => simp only [hop] at h ⊢; exact houtcome h
  | getHold org h' =>
    simp only [hop] at h ⊢
    intro a ha
    obtain ⟨hd, view, e₁, e₂, heq, hview⟩ := h a ha
    exact ⟨hd.kept hframe, view, e₁, e₂, heq, hview.frame hinv hframe.mem_eventsOf hframe.log⟩
  | listHolds org status cursor limit =>
    simp only [hop] at h ⊢
    intro a ha
    obtain ⟨hd, views, next, e, heq, hlisted⟩ := h a ha
    exact ⟨hd.kept hframe, views, next, e, heq, hlisted.kept hinv hframe⟩
  | listActivity org h' after limit =>
    simp only [hop] at h ⊢
    intro a ha
    obtain ⟨hd, events, next, e, heq, hread⟩ := h a ha
    exact ⟨hd.kept hframe, events, next, e, heq, hread.kept hinv hframe⟩
  | checkRetention input =>
    simp only [hop] at h ⊢
    intro a ha
    obtain ⟨hd, d, e, heq, hchecked⟩ := h a ha
    exact ⟨hd.kept hframe, d, e, heq, hchecked.kept hinv hframe⟩

/-- The program of every operation ends in its `Post`. -/
theorem program_triple (i : Session Op) :
    Triple discipline i (discipline.fresh i) (program i.op).run (Post i) := by
  -- A read promises something of what it returns, a mutation also of its errors.
  have hok : ∀ {α : Type} {x : Storage α} {g : α → Answer} {R : α → Server → Prop},
      Triple discipline i (discipline.fresh i) x.run (Ends R fun _ _ => True) →
      Triple discipline i (discipline.fresh i) (g <$> x).run
        fun r srv => ∀ a, r = .ok a → ∃ b, a = g b ∧ R b srv := by
    intro α x g R h
    refine Triple.run_map (h.conseq (fun _ _ h => h) fun r srv _ hr => ?_)
    cases r with
    | ok b =>
      intro a ha
      cases ha
      exact ⟨b, rfl, hr⟩
    | error e =>
      intro a ha
      cases ha
  have hmutation : ∀ {c : Command} {x : Storage HoldView},
      Triple discipline i (discipline.fresh i) x.run (fun r srv => Outcome i c srv r) →
      Triple discipline i (discipline.fresh i) (Answer.hold <$> x).run
        fun r srv => ∃ r', r = r'.map Answer.hold ∧ Outcome i c srv r' := fun h =>
    Triple.run_map (h.conseq (fun _ _ h => h) fun r srv _ hr => ⟨r, rfl, hr⟩)
  unfold Post
  cases hop : i.op with
  | createHold input =>
    exact hmutation ((createHold_triple hop).conseq (fun _ _ h => h) fun _ _ _ h => h.1)
  | addScope input => exact hmutation (addScope_triple hop)
  | removeScope input => exact hmutation (removeScope_triple hop)
  | releaseHold input => exact hmutation (releaseHold_triple hop)
  | getHold org h =>
    have hget : Triple discipline i (discipline.fresh i) (getHold org h).run _ :=
      getHold_triple.conseq (fun _ _ h => Idle.of_fresh h) fun _ _ _ h => h
    refine (hok hget).conseq (fun _ _ h => h) fun r srv _ h a ha => ?_
    obtain ⟨view, rfl, es, hidle, hd, e₁, e₂, -, hview⟩ := h a ha
    refine ⟨fun e he => hd e ?_, view, e₁, e₂, rfl, hview⟩
    rw [hidle.events] at he
    exact he
  | listHolds org status cursor limit =>
    refine (hok listHolds_triple).conseq (fun _ _ h => h) fun r srv _ h a ha => ?_
    obtain ⟨page, rfl, hd, e, hlisted⟩ := h a ha
    exact ⟨hd, page.1, page.2, e, rfl, hlisted⟩
  | listActivity org h after limit =>
    refine (hok listActivity_triple).conseq (fun _ _ h => h) fun r srv _ h a ha => ?_
    obtain ⟨page, rfl, hd, e, hread⟩ := h a ha
    exact ⟨hd, page.1, page.2, e, rfl, hread⟩
  | checkRetention input =>
    refine (hok (checkRetention_triple hop)).conseq (fun _ _ h => h) fun r srv _ h a ha => ?_
    obtain ⟨d, rfl, hd, e, hchecked⟩ := h a ha
    exact ⟨hd, d, e, rfl, hchecked⟩

/-- **The discipline is sound for all operations**: each keeps to it and ends in what is said of
its result. -/
theorem discipline_sound : discipline.Sound Post :=
  .of_triple program_triple (fun _ _ _ _ hinv h _ hframe => h.kept hinv hframe.toKept)
    fun i _ srv h hinv => h.kept hinv (Kept.endTx i srv)

theorem reachable_good {c : Config} (h : Reachable c) : discipline.Good Post c :=
  discipline_sound.reaches (.init Server.Inv.init fun _ => ⟨rfl, rfl⟩) h

/-- The invariant of the server holds in every reachable configuration. -/
theorem Reachable.inv {c : Config} (h : Reachable c) : c.shared.Inv := (reachable_good h).inv

/-- **Every session that has returned meets its `Post`.** -/
theorem returned_post {c : Config} (h : Reachable c) {i : ℕ} {op : Op}
    {r : Except StorageError Answer} (hr : Returned c i op r) : Post ⟨i, op⟩ r c.shared :=
  (reachable_good h).returned hr

end

end LegalHold
