import LegalHold.Interleave.Twin
import LegalHold.Serial

/-!
# Storage functions side by side

The same operation runs alone on two servers.  As long as the rows it looks at
differ in their stamps only, it does the same on both: its statements return the
same, it writes the same, and it ends in the same view or the same error, all of
it but for stamps.

## Main definitions

* `Effect.Twin` — two effects that differ in their stamps only.
* `Abreast` — the two sessions after the same statements of a transaction.
* `ChangedAlike` — the two servers after the same changes.

## Main results

* `Abreast.issue` — one statement of each transaction.
* `conclude_twin` — from a change of the hold to the commit.
-/

namespace LegalHold

open Interleave

section

variable [Backend]

/-! ### Statements -/

/-- What a statement does is the same in a transaction that sees `db` and in one that sees
`db'`, but for stamps; afterwards `N` relates what they see, and `T` the sequences. -/
inductive Effect.Twin {α β : Type} (R : α → β → Prop) (N : Db → Db → Prop)
    (T : Sequences → Sequences → Prop) (db db' : Db) (e : Effect α) (e' : Effect β) : Prop where
  | ok {a : α} {b : β} (reply : e.reply = .ok a) (reply' : e'.reply = .ok b) (rows : R a b)
      (writes : e'.writes.map Write.unstamped = e.writes.map Write.unstamped)
      (dated : ∀ w ∈ e.writes, w.Dated) (dated' : ∀ w ∈ e'.writes, w.Dated)
      (view : N (db.putAll e.writes) (db'.putAll e'.writes)) (seq : T e.seq e'.seq) :
      Effect.Twin R N T db db' e e'
  | error {error : SqlError} (reply : e.reply = .error error) (reply' : e'.reply = .error error) :
      Effect.Twin R N T db db' e e'

/-- The transaction of the session has written `ws`, while the rest of the server is that of
`base`. -/
structure Within (i : Session Op) (base : Server) (ws : List Write) (srv : Server) : Prop where
  tx : ∃ locks, srv.tx? i = some ⟨i, base.clock, ws, locks⟩
  db : srv.db = base.db
  clock : srv.clock = base.clock

/-- Both sessions are in their transactions, and these have written the same but for stamps; `N`
relates what they see, and `T` the sequences. -/
inductive Abreast (i j : Session Op) (base base' : Server) (N : Db → Db → Prop)
    (T : Sequences → Sequences → Prop) (srv srv' : Server) : Prop where
  | intro {ws ws' : List Write} (left : Within i base ws srv) (right : Within j base' ws' srv')
      (writes : ws'.map Write.unstamped = ws.map Write.unstamped)
      (dated : (base.db.putAll ws).Dated) (dated' : (base'.db.putAll ws').Dated)
      (view : N (base.db.putAll ws) (base'.db.putAll ws')) (seq : T srv.seq srv'.seq) :
      Abreast i j base base' N T srv srv'

/-- The same writes have been put in place on both servers, but for stamps. -/
def ChangedAlike (base base' srv srv' : Server) : Prop :=
  ∃ ws ws', srv.db = base.db.putAll ws ∧ srv'.db = base'.db.putAll ws' ∧
    ws'.map Write.unstamped = ws.map Write.unstamped

/-- Neither session is in a transaction; the tables are those of `base` and `base'`. -/
structure AtRest (i j : Session Op) (base base' srv srv' : Server) : Prop where
  tx : srv.tx? i = none
  tx' : srv'.tx? j = none
  db : srv.db = base.db
  db' : srv'.db = base'.db
  clock : srv.clock = base.clock
  clock' : srv'.clock = base'.clock
  seq : srv.seq = base.seq
  seq' : srv'.seq = base'.seq

variable {i j : Session Op} {base base' : Server} {N N' : Db → Db → Prop}
  {T T' : Sequences → Sequences → Prop}

omit [Backend] in
theorem ChangedAlike.unchanged {srv srv' : Server} (h : srv.db = base.db)
    (h' : srv'.db = base'.db) : ChangedAlike base base' srv srv' := ⟨[], [], h, h', rfl⟩

omit [Backend] in
theorem AtRest.changedAlike {srv srv' : Server} (h : AtRest i j base base' srv srv') :
    ChangedAlike base base' srv srv' := .unchanged h.db h.db'

theorem Abreast.changedAlike {srv srv' : Server}
    (h : Abreast i j base base' N T srv srv') : ChangedAlike base base' srv srv' := by
  obtain ⟨left, right, -, -, -, -, -⟩ := h
  exact .unchanged left.db right.db

/-- The rule of one statement of each of two sessions, on servers of their own. -/
theorem issue_twin {s s' : Stmt} {operation : String} {P : Server → Server → Prop}
    {R : s.Rows → s'.Rows → Server → Server → Prop} {E : Server → Server → Prop}
    (h : ∀ srv srv', P srv srv' → ∀ srv₁ r srv₁' r', srv.perform i s = some (srv₁, r) →
      srv'.perform j s' = some (srv₁', r') →
      Matched R E r r' (srv₁.note i s .done srv.log.length)
        (srv₁'.note j s' .done srv'.log.length)) :
    Twin machine .done i j P (issue operation s).run (issue operation s').run (Matched R E) := by
  refine Twin.ask (R := Matched R E) ?_ fun r r' => ?_
  · intro srv srv' hP srv₁ r srv₁' r' hexec hexec'
    obtain ⟨⟨srv₂, r₂⟩, hperform, heq⟩ := Option.map_eq_some_iff.mp hexec
    obtain ⟨⟨srv₂', r₂'⟩, hperform', heq'⟩ := Option.map_eq_some_iff.mp hexec'
    cases heq
    cases heq'
    exact h srv srv' hP srv₂ r srv₂' r' hperform hperform'
  · cases r with
    | ok rows =>
      cases r' with
      | ok rows' => exact Twin.ret fun _ _ hst => hst
      | error e' => exact fun _ _ hst => hst.elim
    | error e =>
      cases r' with
      | ok rows' => exact fun _ _ hst => hst.elim
      | error e' => exact Twin.ret fun _ _ hst => ⟨congrArg _ hst.1, hst.2⟩

/-- What a statement in a transaction does when it is carried out. -/
theorem Within.applied {ws : List Write} {srv srv₁ : Server} {q : Query}
    {r : Stmt.Reply (.query q)} (h : Within i base ws srv)
    (hperform : srv.perform i (.query q) = some (srv₁, r)) :
    ∃ e : Effect q.Rows, e = q.effect (base.db.putAll ws) base.clock srv.seq ∧ r = e.reply ∧
      srv₁.seq = e.seq ∧ Within i base (ws ++ e.writes) srv₁ := by
  obtain ⟨locks, htx⟩ := h.tx
  have hview : srv.view ⟨i, base.clock, ws, locks⟩ = base.db.putAll ws := by
    unfold Server.view
    rw [h.db]
  obtain ⟨-, rfl, hr⟩ := Server.perform_query htx hperform
  rw [hview] at hr ⊢
  exact ⟨_, rfl, hr, rfl, ⟨_, Server.tx?_setTx_self htx rfl⟩, h.db, h.clock⟩

/-- **One statement of each transaction** keeps the two abreast, when its effects are twins. -/
theorem Abreast.issue {q q' : Query} {operation : String} {R : q.Rows → q'.Rows → Prop}
    (heffect : ∀ db db' seq seq', db.Dated → db'.Dated → N db db' → T seq seq' →
      Effect.Twin R N' T' db db' (q.effect db base.clock seq) (q'.effect db' base'.clock seq')) :
    Twin machine .done i j (Abreast i j base base' N T)
      (LegalHold.issue operation (.query q)).run (LegalHold.issue operation (.query q')).run
      (Matched (fun rows rows' srv srv' => R rows rows' ∧ Abreast i j base base' N' T' srv srv')
        (ChangedAlike base base')) := by
  refine issue_twin fun srv srv' hst srv₁ r srv₁' r' hperform hperform' => ?_
  obtain ⟨left, right, writes, dated, dated', view, seq⟩ := hst
  rename_i ws ws'
  -- Each statement has the effect that the tables of its own server give it.
  obtain ⟨e, he, rfl, hseq, hleft⟩ := left.applied hperform
  obtain ⟨e', he', rfl, hseq', hright⟩ := right.applied hperform'
  have htwin := heffect _ _ srv.seq srv'.seq dated dated' view seq
  rw [← he, ← he'] at htwin
  cases htwin with
  | @ok a b reply reply' rows hwrites hdated hdated' hview hseqs =>
    rw [reply, reply']
    have hleft : Within i base (ws ++ e.writes)
        (srv₁.note i (.query q) .done srv.log.length) := ⟨hleft.tx, hleft.db, hleft.clock⟩
    have hright : Within j base' (ws' ++ e'.writes)
        (srv₁'.note j (.query q') .done srv'.log.length) := ⟨hright.tx, hright.db, hright.clock⟩
    refine ⟨rows, .intro hleft hright ?_ ?_ ?_ ?_ ?_⟩
    · rw [List.map_append, List.map_append, writes, hwrites]
    · rw [Db.putAll_append]
      exact Db.Dated.putAll hdated dated
    · rw [Db.putAll_append]
      exact Db.Dated.putAll hdated' dated'
    · rw [Db.putAll_append, Db.putAll_append]
      exact hview
    · show T' srv₁.seq srv₁'.seq
      rw [hseq, hseq']
      exact hseqs
  | error reply reply' =>
    rw [reply, reply']
    exact ⟨rfl, .unchanged hleft.db hright.db⟩

/-- The effects of a statement that only reads are twins. -/
theorem Effect.Twin.read {α β : Type} {R : α → β → Prop} {db db' : Db} {seq seq' : Sequences}
    {locks locks' : List Lock} {a : α} {b : β} (hrows : R a b) (hview : N db db')
    (hseq : T seq seq') :
    Effect.Twin R N T db db' { locks := locks, seq := seq, reply := .ok a }
      { locks := locks', seq := seq', reply := .ok b } :=
  .ok rfl rfl hrows rfl (fun w hw => by cases hw) (fun w hw => by cases hw) hview hseq

/-- The transactions of the two sessions have been opened, but have written nothing yet. -/
def Unwritten (base base' : Server) (db db' : Db) : Prop := db = base.db ∧ db' = base'.db

/-- The two transactions have drawn no number yet. -/
def Undrawn (base base' : Server) (seq seq' : Sequences) : Prop := seq = base.seq ∧ seq' = base'.seq

/-- Both sessions have begun their transactions, and written nothing. -/
abbrev Opened (i j : Session Op) (base base' : Server) : Server → Server → Prop :=
  Abreast i j base base' (Unwritten base base') (Undrawn base base')

theorem begin_twin {operation : String} (hdated : base.db.Dated) (hdated' : base'.db.Dated) :
    Twin machine .done i j (AtRest i j base base') (issue operation .begin).run
      (issue operation .begin).run
      (Matched (fun _ _ => Opened i j base base') (ChangedAlike base base')) := by
  have hbegin : ∀ {i : Session Op} {base srv srv₁ : Server} {r : Stmt.Reply .begin},
      srv.tx? i = none → srv.db = base.db → srv.clock = base.clock → srv.seq = base.seq →
      srv.perform i .begin = some (srv₁, r) →
      r = .ok () ∧ Within i base [] srv₁ ∧ srv₁.seq = base.seq := by
    intro i base srv srv₁ r htx hdb hclock hseq hperform
    simp only [Server.perform, htx, Option.some.injEq, Prod.mk.injEq] at hperform
    obtain ⟨rfl, rfl⟩ := hperform
    refine ⟨rfl, ⟨⟨[], ?_⟩, hdb, hclock⟩, hseq⟩
    simp [Server.tx?, hclock]
  refine issue_twin fun srv srv' hst srv₁ r srv₁' r' hperform hperform' => ?_
  obtain ⟨rfl, left, hseq⟩ := hbegin hst.tx hst.db hst.clock hst.seq hperform
  obtain ⟨rfl, right, hseq'⟩ := hbegin hst.tx' hst.db' hst.clock' hst.seq' hperform'
  exact .intro ⟨left.tx, left.db, left.clock⟩ ⟨right.tx, right.db, right.clock⟩ rfl hdated hdated'
    ⟨rfl, rfl⟩ ⟨hseq, hseq'⟩

/-- What a commit does: the writes are put in place, and the transaction is over. -/
theorem Within.commit {ws : List Write} {srv srv₁ : Server} {r : Stmt.Reply .commit}
    (h : Within i base ws srv) (hperform : srv.perform i .commit = some (srv₁, r)) :
    r = .ok () ∧ srv₁.db = base.db.putAll ws ∧ srv₁.tx? i = none ∧ srv₁.clock = base.clock ∧
      srv₁.seq = srv.seq := by
  obtain ⟨locks, htx⟩ := h.tx
  simp only [Server.perform, htx, Option.some.injEq, Prod.mk.injEq] at hperform
  obtain ⟨rfl, rfl⟩ := hperform
  refine ⟨rfl, ?_, Server.tx?_endTx_self srv i, h.clock, rfl⟩
  show srv.db.putAll ws = _
  rw [h.db]

theorem commit_twin {operation : String} :
    Twin machine .done i j (Abreast i j base base' N T) (issue operation .commit).run
      (issue operation .commit).run
      (Matched (fun _ _ => ChangedAlike base base') (ChangedAlike base base')) := by
  refine issue_twin fun srv srv' hst srv₁ r srv₁' r' hperform hperform' => ?_
  obtain ⟨left, right, writes, -, -, -, -⟩ := hst
  obtain ⟨rfl, hdb, -⟩ := left.commit hperform
  obtain ⟨rfl, hdb', -⟩ := right.commit hperform'
  exact ⟨_, _, hdb, hdb', writes⟩

/-- Transactions that have only read leave the servers as they were. -/
theorem commitRead_twin {operation : String} :
    Twin machine .done i j (Opened i j base base') (issue operation .commit).run
      (issue operation .commit).run
      (Matched (fun _ _ => AtRest i j base base') (ChangedAlike base base')) := by
  refine issue_twin fun srv srv' hst srv₁ r srv₁' r' hperform hperform' => ?_
  obtain ⟨left, right, -, -, -, ⟨hview, hview'⟩, ⟨hseq, hseq'⟩⟩ := hst
  obtain ⟨rfl, hdb, htx, hclock, hsame⟩ := left.commit hperform
  obtain ⟨rfl, hdb', htx', hclock', hsame'⟩ := right.commit hperform'
  exact ⟨htx, htx', hdb.trans hview, hdb'.trans hview', hclock, hclock', hsame.trans hseq,
    hsame'.trans hseq'⟩

/-! ### What the statements of a mutation do -/

omit [Backend] in
/-- What a command looks at is the same in both databases, up to timestamps and numbers. -/
structure Command.Alike (c : Command) (db db' : Db) : Prop extends db.Near db' c.holdId where
  command : db'.unstamped.command? c.key = db.unstamped.command? c.key

/-- The next activity number is there on both servers, or on neither. -/
def SameActivityRoom (seq seq' : Sequences) : Prop :=
  maxI64 < seq'.activity ↔ maxI64 < seq.activity

variable {c : Command} {db db' : Db} {seq seq' : Sequences} {now now' : Time}

omit [Backend] in
/-- Tables that are alike for a command stay so under writes that differ in their stamps only. -/
theorem Command.Alike.putAll (h : c.Alike db db') {ws ws' : List Write}
    (hws : ws'.map Write.unstamped = ws.map Write.unstamped) :
    c.Alike (db.putAll ws) (db'.putAll ws') where
  toNear := h.toNear.putAll hws
  command := by
    rw [Db.unstamped_putAll, Db.unstamped_putAll, hws]
    exact Db.command?_putAll_congr h.command

/-- A statement that writes one row, the same but for stamps. -/
theorem Command.Alike.write {α β : Type} {R : α → β → Prop} {a : α} {b : β} {w w' : Write}
    {locks locks' : List Lock} (h : c.Alike db db') (hsame : w'.unstamped = w.unstamped)
    (hw : w.Dated) (hw' : w'.Dated) (hrows : R a b) (hseq : T seq seq') :
    Effect.Twin R c.Alike T db db'
      { writes := [w], locks := locks, seq := seq, reply := .ok a }
      { writes := [w'], locks := locks', seq := seq', reply := .ok b } := by
  have hwrites : [w'].map Write.unstamped = [w].map Write.unstamped := congrArg (fun v => [v]) hsame
  refine .ok rfl rfl hrows hwrites ?_ ?_ (h.putAll hwrites) hseq
  · intro v hv
    rw [List.mem_singleton.mp hv]
    exact hw
  · intro v hv
    rw [List.mem_singleton.mp hv]
    exact hw'

theorem insertHold_effect (h : c.Alike db db') (habsent : db.hold? c.holdId = none)
    (hseq : T seq seq') (hnow : Formattable now) (hnow' : Formattable now')
    {org title reason authority createdBy : String} :
    Effect.Twin (fun a b : ℕ => a = 1 ∧ b = 1) c.Alike T db db'
      ((Query.insertHold c.holdId org title reason authority createdBy).effect db now seq)
      ((Query.insertHold c.holdId org title reason authority createdBy).effect db' now' seq') := by
  have habsent' := h.hold?_eq_none habsent
  simp only [Query.effect, habsent, habsent']
  have hnone : ∀ time ∈ (none : Option Time), Formattable time := fun time ht => by cases ht
  exact h.write rfl ⟨hnow, hnone⟩ ⟨hnow', hnone⟩ ⟨rfl, rfl⟩ hseq

theorem insertScope_effect (h : c.Alike db db')
    (hdrawn : maxI64 < seq'.scopeRow ↔ maxI64 < seq.scopeRow) (hroom : SameActivityRoom seq seq')
    (hnow : Formattable now) (hnow' : Formattable now') {scope : Scope} {createdBy : String} :
    Effect.Twin (fun a b : ℕ => b = a) c.Alike SameActivityRoom db db'
      ((Query.insertScope c.holdId scope createdBy).effect db now seq)
      ((Query.insertScope c.holdId scope createdBy).effect db' now' seq') := by
  simp only [Query.effect]
  by_cases hfull : maxI64 < seq.scopeRow
  · rw [if_pos hfull, if_pos (hdrawn.mpr hfull)]
    exact .error rfl rfl
  rw [if_neg hfull, if_neg (mt hdrawn.mp hfull)]
  by_cases hscope : db.HasScope c.holdId scope
  · rw [if_pos hscope, if_pos (h.hasScope_iff.mpr hscope)]
    exact .read rfl h hroom
  rw [if_neg hscope, if_neg (mt h.hasScope_iff.mp hscope)]
  cases hrow : db.hold? c.holdId with
  | none =>
    simp only [h.hold?_eq_none hrow]
    exact .error rfl rfl
  | some row =>
    obtain ⟨row', hrow', -⟩ := h.hold?_eq_some hrow
    simp only [hrow']
    exact h.write rfl hnow hnow' rfl hroom

theorem deleteScope_effect (h : c.Alike db db') (hseq : T seq seq') {scope : Scope} :
    Effect.Twin (fun a b : ℕ => b = a) c.Alike T db db'
      ((Query.deleteScope c.holdId scope).effect db now seq)
      ((Query.deleteScope c.holdId scope).effect db' now' seq') := by
  have hlength := h.length_filter scope
  simp only [Query.effect]
  by_cases hnil : (db.scopesOf c.holdId).filter (fun row => row.toScope = scope) = []
  · have hnil' : (db'.scopesOf c.holdId).filter (fun row => row.toScope = scope) = [] := by
      rw [hnil, List.length_nil] at hlength
      exact List.length_eq_zero_iff.mp hlength
    rw [if_pos hnil, if_pos hnil']
    exact .read rfl h hseq
  · have hne' : (db'.scopesOf c.holdId).filter (fun row => row.toScope = scope) ≠ [] := by
      intro hnil'
      rw [hnil', List.length_nil] at hlength
      exact hnil (List.length_eq_zero_iff.mp hlength.symm)
    rw [if_neg hnil, if_neg hne']
    exact h.write rfl trivial trivial hlength hseq

theorem updateHold_effect (h : c.Alike db db') (hseq : T seq seq') (hdb : db.Dated)
    (hdb' : db'.Dated) {f f' : HoldRow → HoldRow}
    (hf : ∀ {row row' : HoldRow}, row'.unstamped = row.unstamped →
      (f' row').unstamped = (f row).unstamped)
    (hdated : ∀ {row : HoldRow}, row.Dated → (f row).Dated)
    (hdated' : ∀ {row : HoldRow}, row.Dated → (f' row).Dated) :
    Effect.Twin (fun _ _ => True) c.Alike T db db' (updateHold db seq c.holdId f)
      (updateHold db' seq' c.holdId f') := by
  unfold updateHold
  cases hrow : db.hold? c.holdId with
  | none =>
    simp only [h.hold?_eq_none hrow]
    exact .read trivial h hseq
  | some row =>
    obtain ⟨row', hrow', hsame⟩ := h.hold?_eq_some hrow
    have hupdated := hf hsame
    obtain ⟨-, -, hrevision⟩ := HoldRow.eq_of_unstamped hupdated
    simp only [hrow', hrevision]
    by_cases hfull : maxI64 < (f row).revision
    · rw [if_pos hfull, if_pos hfull]
      exact .error rfl rfl
    rw [if_neg hfull, if_neg hfull]
    have hold := hdb.holds row (List.mem_of_find?_eq_some hrow)
    have hold' := hdb'.holds row' (List.mem_of_find?_eq_some hrow')
    exact h.write (congrArg Write.updateHold hupdated) (hdated hold) (hdated' hold') trivial hseq

theorem insertActivity_effect (h : c.Alike db db') (hroom : SameActivityRoom seq seq')
    {org actor : String} {kind : ActivityKind} {payload : Json} :
    Effect.Twin (fun _ _ => True) c.Alike (fun _ _ => True) db db'
      ((Query.insertActivity org c.holdId kind actor payload).effect db now seq)
      ((Query.insertActivity org c.holdId kind actor payload).effect db' now' seq') := by
  simp only [Query.effect]
  by_cases hfull : maxI64 < seq.activity
  · rw [if_pos hfull, if_pos (hroom.mpr hfull)]
    exact .error rfl rfl
  rw [if_neg hfull, if_neg (mt hroom.mp hfull)]
  cases hrow : db.hold? c.holdId with
  | none =>
    simp only [h.hold?_eq_none hrow]
    exact .error rfl rfl
  | some row =>
    obtain ⟨row', hrow', -⟩ := h.hold?_eq_some hrow
    simp only [hrow']
    exact h.write rfl trivial trivial trivial trivial

theorem insertCommand_effect (h : c.Alike db db') (hseq : T seq seq') {view view' : HoldView}
    (hview : view'.unstamped = view.unstamped) :
    Effect.Twin (fun _ _ => True) c.Alike T db db'
      ((Query.insertCommand c.key c.requestHash view.toValue).effect db now seq)
      ((Query.insertCommand c.key c.requestHash view'.toValue).effect db' now' seq') := by
  have hcommand := h.command
  simp only [Db.command?_unstamped] at hcommand
  simp only [Query.effect]
  cases hrow : db.command? c.key with
  | some row =>
    rw [hrow] at hcommand
    obtain ⟨row', hrow', -⟩ := Option.map_eq_some_iff.mp hcommand
    simp only [hrow']
    exact .error rfl rfl
  | none =>
    rw [hrow] at hcommand
    have hrow' := Option.map_eq_none_iff.mp hcommand
    simp only [hrow']
    have hreceipt : (Write.insertCommand (c.receipt view' now')).unstamped =
        (Write.insertCommand (c.receipt view now)).unstamped := by
      simp only [Write.unstamped, Command.receipt_unstamped, hview]
    exact h.write hreceipt trivial trivial trivial hseq

/-! ### From a change to the commit -/

/-- Both sessions end in the same view but for its timestamps, after the same changes. -/
def SameView (base base' : Server) (view view' : HoldView) (srv srv' : Server) : Prop :=
  view'.unstamped = view.unstamped ∧ ChangedAlike base base' srv srv'

/-- A view of a hold that differs in its stamps only. -/
theorem loadHoldTx_twin {org h : String} (hnear : ∀ {db db' : Db}, N db db' → db.Near db' h) :
    Twin machine .done i j (Abreast i j base base' N T) (loadHoldTx org h).run
      (loadHoldTx org h).run
      (Matched (fun view view' srv srv' => view'.unstamped = view.unstamped ∧
        Abreast i j base base' N T srv srv') (ChangedAlike base base')) := by
  -- The row is found on both sides or on neither.
  have hselect : ∀ db db' seq seq', db.Dated → db'.Dated → N db db' → T seq seq' →
      Effect.Twin (fun a b : Option HoldRow => (a = none ∧ b = none) ∨ ∃ row row', a = some row ∧
        b = some row' ∧ row'.unstamped = row.unstamped ∧ row.Dated ∧ row'.Dated) N T db db'
        ((Query.selectHold org h).effect db base.clock seq)
        ((Query.selectHold org h).effect db' base'.clock seq') := by
    intro db db' seq seq' hdb hdb' hN hseq
    refine .read ?_ hN hseq
    cases hrow : db.hold? h with
    | none => exact .inl ⟨rfl, by rw [(hnear hN).hold?_eq_none hrow]; rfl⟩
    | some row =>
      obtain ⟨row', hrow', hsame⟩ := (hnear hN).hold?_eq_some hrow
      obtain ⟨horg, -, -⟩ := HoldRow.eq_of_unstamped hsame
      rw [hrow', Option.filter_some, Option.filter_some, horg]
      split
      · exact .inr ⟨row, row', rfl, rfl, hsame, hdb.holds row (List.mem_of_find?_eq_some hrow),
          hdb'.holds row' (List.mem_of_find?_eq_some hrow')⟩
      · exact .inl ⟨rfl, rfl⟩
  refine Twin.run_bind (Abreast.issue hselect) fun found found' => Twin.of_pure fun hfound => ?_
  rcases hfound with ⟨rfl, rfl⟩ | ⟨row, row', rfl, rfl, hsame, hrow, hrow'⟩
  · exact Twin.ret fun _ _ hst => ⟨rfl, hst.changedAlike⟩
  -- The scopes are the same, in the same order, but for their stamps.
  have hscopes : ∀ db db' seq seq', db.Dated → db'.Dated → N db db' → T seq seq' →
      Effect.Twin (fun a b : List ScopeRow => b.map ScopeRow.unstamped = a.map ScopeRow.unstamped ∧
        (∀ s ∈ a, Formattable s.createdAt) ∧ ∀ s ∈ b, Formattable s.createdAt) N T db db'
        ((Query.selectScopes h).effect db base.clock seq)
        ((Query.selectScopes h).effect db' base'.clock seq') := by
    intro db db' seq seq' hdb hdb' hN hseq
    refine .read ⟨(hnear hN).sortedScopes_eq, ?_, ?_⟩ hN hseq
    · exact fun s hs => hdb.scopes s (Db.mem_sortedScopes.mp hs).1
    · exact fun s hs => hdb'.scopes s (Db.mem_sortedScopes.mp hs).1
  refine Twin.run_bind (Abreast.issue hscopes) fun rows rows' => Twin.of_pure fun hrows => ?_
  obtain ⟨hrows, hdated, hdated'⟩ := hrows
  obtain ⟨view, hview⟩ := holdView_of_dated hrow hdated
  obtain ⟨view', hview', hsameView⟩ := holdView_restamp hsame hrows hrow' hdated' hview
  refine Twin.ret fun srv srv' hst => ?_
  rw [hview, hview']
  exact ⟨hsameView, hst⟩

/-- **What all mutations share at their end**, side by side: the event, the view, the receipt and
the commit. -/
theorem conclude_twin {operation : String} :
    Twin machine .done i j (Abreast i j base base' c.Alike SameActivityRoom)
      (c.conclude operation).run (c.conclude operation).run
      (Matched (SameView base base') (ChangedAlike base base')) := by
  have happend : Twin machine .done i j (Abreast i j base base' c.Alike SameActivityRoom)
      (appendActivity c.organizationId c.holdId c.change.kind c.actor c.change.payload).run
      (appendActivity c.organizationId c.holdId c.change.kind c.actor c.change.payload).run
      (Matched
        (fun _ _ srv srv' => True ∧ Abreast i j base base' c.Alike (fun _ _ => True) srv srv')
        (ChangedAlike base base')) :=
    Abreast.issue fun db db' seq seq' _ _ hN hroom => insertActivity_effect hN hroom
  refine Twin.run_bind happend fun _ _ => Twin.of_pure fun _ => ?_
  refine Twin.run_bind (loadHoldTx_twin fun hN => hN.toNear) fun view view' =>
    Twin.of_pure fun hview => ?_
  have hstore : Twin machine .done i j (Abreast i j base base' c.Alike fun _ _ => True)
      (storeCommand c.caller c.actor c.change.operation c.idempotencyKey c.requestHash
        view.toValue).run
      (storeCommand c.caller c.actor c.change.operation c.idempotencyKey c.requestHash
        view'.toValue).run
      (Matched
        (fun _ _ srv srv' => True ∧ Abreast i j base base' c.Alike (fun _ _ => True) srv srv')
        (ChangedAlike base base')) :=
    Abreast.issue fun db db' seq seq' _ _ hN hseq => insertCommand_effect hN hseq hview
  refine Twin.run_bind hstore fun _ _ => Twin.of_pure fun _ => ?_
  refine Twin.run_bind commit_twin fun _ _ => ?_
  exact Twin.ret fun srv srv' hst => ⟨hview, hst⟩

/-! ### From the start to the checks -/

/-- What is already decided is the same on both servers. -/
theorem pureStep_twin {α : Type} {x : Except StorageError α} {P : Server → Server → Prop}
    (hP : ∀ srv srv', P srv srv' → ChangedAlike base base' srv srv') :
    Twin machine .done i j P (pureStep x).run (pureStep x).run
      (Matched (fun a a' srv srv' => a' = a ∧ x = .ok a ∧ P srv srv')
        (ChangedAlike base base')) := by
  refine Twin.ret fun srv srv' hst => ?_
  cases x with
  | ok a => exact ⟨rfl, rfl, hst⟩
  | error e => exact ⟨rfl, hP srv srv' hst⟩

theorem refuse_twin {α : Type} {failure : DomainFailure} {P : Server → Server → Prop}
    {R : α → α → Server → Server → Prop}
    (hP : ∀ srv srv', P srv srv' → ChangedAlike base base' srv srv') :
    Twin machine .done i j P (refuse (α := α) failure).run (refuse (α := α) failure).run
      (Matched R (ChangedAlike base base')) := Twin.ret fun srv srv' hst => ⟨rfl, hP srv srv' hst⟩

theorem replay_twin (hreceipt : base'.db.command? c.key = base.db.command? c.key) :
    Twin machine .done i j (Opened i j base base')
      (replay c.caller c.actor c.change.operation c.idempotencyKey c.requestHash).run
      (replay c.caller c.actor c.change.operation c.idempotencyKey c.requestHash).run
      (Matched (fun found found' srv srv' => (found' = found ∧
        (found = none → base.db.command? c.key = none)) ∧ Opened i j base base' srv srv')
        (ChangedAlike base base')) := by
  have hselect : ∀ db db' seq seq', db.Dated → db'.Dated → Unwritten base base' db db' →
      Undrawn base base' seq seq' →
      Effect.Twin (fun a b : Option CommandRow => b = a ∧ base.db.command? c.key = a)
        (Unwritten base base') (Undrawn base base') db db'
        ((Query.selectCommand c.key).effect db base.clock seq)
        ((Query.selectCommand c.key).effect db' base'.clock seq') := by
    rintro db db' seq seq' - - ⟨rfl, rfl⟩ hseq
    exact .read ⟨hreceipt, rfl⟩ ⟨rfl, rfl⟩ hseq
  refine Twin.run_bind (Abreast.issue hselect) fun row row' => Twin.of_pure fun hrow => ?_
  obtain ⟨rfl, hfound⟩ := hrow
  cases row' with
  | none => exact Twin.ret fun srv srv' hst => ⟨⟨rfl, fun _ => hfound⟩, hst⟩
  | some row =>
    by_cases hhash : row.requestHash ≠ c.requestHash
    · simp only [if_pos hhash]
      exact refuse_twin fun srv srv' hst => hst.changedAlike
    · simp only [if_neg hhash]
      exact Twin.ret fun srv srv' hst => ⟨⟨rfl, fun h => by cases h⟩, hst⟩

/-- **Every mutating operation starts the same**, side by side: a receipt answers both, and
without one both go on. -/
theorem start_twin {operation : String} {fresh : Storage HoldView} (hdated : base.db.Dated)
    (hdated' : base'.db.Dated) (hreceipt : base'.db.command? c.key = base.db.command? c.key)
    (hfresh : base.db.command? c.key = none →
      Twin machine .done i j (Opened i j base base') fresh.run fresh.run
        (Matched (SameView base base') (ChangedAlike base base'))) :
    let start : Storage HoldView := do
      issue operation .begin
      match ← replay c.caller c.actor c.change.operation c.idempotencyKey c.requestHash with
      | some response => decodeResponse response
      | none => fresh
    Twin machine .done i j (AtRest i j base base') start.run start.run
      (Matched (SameView base base') (ChangedAlike base base')) := by
  refine Twin.run_bind (begin_twin hdated hdated') fun _ _ => ?_
  refine Twin.run_bind (replay_twin hreceipt) fun found found' => Twin.of_pure fun hfound => ?_
  obtain ⟨rfl, hnone⟩ := hfound
  cases found' with
  | none => exact hfresh (hnone rfl)
  | some response =>
    refine (pureStep_twin fun srv srv' hst => hst.changedAlike).run_conseq ?_
    rintro view view' srv srv' ⟨rfl, -, hst⟩
    exact ⟨rfl, hst.changedAlike⟩

/-- What a command looks for is not there for its organization, on either server, though on
one of them another organization has a hold of that id. -/
structure Command.Foreign (c : Command) (db db' : Db) : Prop where
  hidden : (db.hold? c.holdId).filter (·.organizationId = c.organizationId) = none
  hidden' : (db'.hold? c.holdId).filter (·.organizationId = c.organizationId) = none
  taken : db.hold? c.holdId ≠ none ∨ db'.hold? c.holdId ≠ none

theorem lockHold_foreign (h : c.Foreign base.db base'.db) :
    Twin machine .done i j (Opened i j base base') (lockHold c.organizationId c.holdId).run
      (lockHold c.organizationId c.holdId).run
      (Matched (fun _ _ _ _ => False) (ChangedAlike base base')) := by
  have hlock : ∀ db db' seq seq', db.Dated → db'.Dated → Unwritten base base' db db' →
      Undrawn base base' seq seq' →
      Effect.Twin (fun a b : Option (Status × Int) => a = none ∧ b = none) (Unwritten base base')
        (Undrawn base base') db db'
        ((Query.lockHold c.organizationId c.holdId).effect db base.clock seq)
        ((Query.lockHold c.organizationId c.holdId).effect db' base'.clock seq') := by
    rintro db db' seq seq' - - ⟨rfl, rfl⟩ hseq
    simp only [Query.effect, h.hidden, h.hidden']
    exact .read ⟨rfl, rfl⟩ ⟨rfl, rfl⟩ hseq
  refine Twin.run_bind (Abreast.issue hlock) fun row row' => Twin.of_pure fun hrow => ?_
  obtain ⟨rfl, rfl⟩ := hrow
  exact refuse_twin fun srv srv' hst => hst.changedAlike

theorem lockHold_twin (h : c.Alike base.db base'.db) :
    Twin machine .done i j (Opened i j base base') (lockHold c.organizationId c.holdId).run
      (lockHold c.organizationId c.holdId).run
      (Matched (fun found found' srv srv' => found' = found ∧
        Abreast i j base base' c.Alike (Undrawn base base') srv srv')
        (ChangedAlike base base')) := by
  -- Status and revision are no stamps, and so both sides read the same.
  have hlock : ∀ db db' seq seq', db.Dated → db'.Dated → Unwritten base base' db db' →
      Undrawn base base' seq seq' →
      Effect.Twin (fun a b : Option (Status × Int) => b = a) c.Alike (Undrawn base base') db db'
        ((Query.lockHold c.organizationId c.holdId).effect db base.clock seq)
        ((Query.lockHold c.organizationId c.holdId).effect db' base'.clock seq') := by
    rintro db db' seq seq' - - ⟨rfl, rfl⟩ hseq
    simp only [Query.effect]
    cases hrow : base.db.hold? c.holdId with
    | none =>
      rw [h.hold?_eq_none hrow]
      exact .read rfl h hseq
    | some row =>
      obtain ⟨row', hrow', hsame⟩ := h.hold?_eq_some hrow
      obtain ⟨horg, hstatus, hrevision⟩ := HoldRow.eq_of_unstamped hsame
      rw [hrow', Option.filter_some, Option.filter_some, horg]
      by_cases hown : decide (row.organizationId = c.organizationId) = true
      · rw [if_pos hown, if_pos hown]
        exact .read (by rw [hstatus, hrevision]) h hseq
      · rw [if_neg hown, if_neg hown]
        exact .read rfl h hseq
  refine Twin.run_bind (Abreast.issue hlock) fun row row' => Twin.of_pure fun hrow => ?_
  subst hrow
  cases row' with
  | none => exact refuse_twin fun srv srv' hst => hst.changedAlike
  | some row => exact Twin.ret fun srv srv' hst => ⟨rfl, hst⟩

/-- **The checks under the row lock**, side by side. -/
theorem checks_twin {revision : Int} {rest : Storage HoldView}
    (h : c.Foreign base.db base'.db ∨ c.Alike base.db base'.db)
    (hrest : Twin machine .done i j (Abreast i j base base' c.Alike (Undrawn base base')) rest.run
      rest.run (Matched (SameView base base') (ChangedAlike base base'))) :
    let checked : Storage HoldView := do
      let (status, found) ← lockHold c.organizationId c.holdId
      if status ≠ .active then refuse .holdReleased
      else if found ≠ revision then refuse .revisionConflict
      else rest
    Twin machine .done i j (Opened i j base base') checked.run checked.run
      (Matched (SameView base base') (ChangedAlike base base')) := by
  rcases h with hforeign | halike
  · exact Twin.run_bind (lockHold_foreign hforeign) fun _ _ srv srv' hst => hst.elim
  · refine Twin.run_bind (lockHold_twin halike) fun found found' => Twin.of_pure fun hfound => ?_
    subst hfound
    obtain ⟨status, found⟩ := found'
    by_cases hstatus : status ≠ .active
    · simp only [if_pos hstatus]
      exact refuse_twin fun srv srv' hst => hst.changedAlike
    by_cases hrevision : found ≠ revision
    · simp only [if_neg hstatus, if_pos hrevision]
      exact refuse_twin fun srv srv' hst => hst.changedAlike
    · simp only [if_neg hstatus, if_neg hrevision]
      exact hrest

end

end LegalHold
