import LegalHold.Commits
import LegalHold.Interleave.Erasure
import LegalHold.Interleave.Protocol
import Mathlib.Data.List.Find

/-!
# Readers

The operations that only read: `get_hold`, `list_holds` and `list_activity`.  Although they open
transactions, these hold no locks and write nothing, so no other session can tell whether they
are there.

## Main definitions

* `Op.readOnly`, `Stmt.ReadOnly` — the operations, and the statements that they issue.
* `onlyReads` — the protocol of these statements.
* `Server.Bare` — a session has neither written nor locked anything.
* `readers` — the sessions of these operations, to be erased.

## Main results

* `program_readOnly` — the operations issue only such statements.
* `Server.exec_readOnly` — such a statement never waits.
* `readers_sound`, `readers_invisible` — **a run without its readers is a run**.
-/

namespace LegalHold

open Interleave

/-- The operation only reads: it is one of the three that show holds and events. -/
def Op.readOnly : Op → Bool
  | .getHold .. => true
  | .listHolds .. => true
  | .listActivity .. => true
  | _ => false

/-- A statement that only reads, and locks nothing. -/
def Query.ReadOnly : Query → Prop
  | .selectCommand _ => True
  | .selectHold .. => True
  | .selectScopes _ => True
  | _ => False

/-- A statement that by itself changes nothing and locks nothing. -/
def Stmt.ReadOnly : Stmt → Prop
  | .begin => True
  | .commit => True
  | .query q => q.ReadOnly
  | .pool (.insertDecision ..) => False
  | .pool _ => True

/-- The session has neither written nor locked anything. -/
def Server.Bare (i : Session Op) (srv : Server) : Prop :=
  ∀ t ∈ srv.txs, t.owner.id = i.id → t.writes = [] ∧ t.locks = []

section

variable [Backend]

/-- The protocol of sessions that issue only such statements. -/
@[reducible] def onlyReads : Protocol machine where
  Phase := Unit
  start := ()
  may _ := Stmt.ReadOnly
  next _ _ _ := ()
  inv _ := True
  holds _ _ _ := True

/-! ### What readers issue -/

theorem issue_readOnly {operation : String} {s : Stmt} (hs : s.ReadOnly) :
    onlyReads.Leads () (issue operation s) fun _ _ => True := by
  refine ⟨hs, fun r => ?_⟩
  cases r with
  | ok rows => exact fun _ _ => trivial
  | error e => exact fun _ _ => trivial

theorem loadHoldTx_readOnly {org h : String} :
    onlyReads.Leads () (loadHoldTx org h) fun _ _ => True := by
  refine (issue_readOnly (by trivial)).bind fun row _ _ => ?_
  cases row with
  | none => exact Protocol.Leads.ret fun _ _ => trivial
  | some row =>
    refine (issue_readOnly (by trivial)).bind fun rows _ _ => ?_
    exact Protocol.Leads.ret fun _ _ => trivial

theorem getHold_readOnly {org h : String} :
    onlyReads.Leads () (getHold org h) fun _ _ => True := by
  refine (issue_readOnly (by trivial)).bind fun _ _ _ => ?_
  refine loadHoldTx_readOnly.bind fun view _ _ => ?_
  refine (issue_readOnly (by trivial)).bind fun _ _ _ => ?_
  exact Protocol.Leads.ret fun _ _ => trivial

theorem collect_readOnly {org : String} (ids : List String) :
    onlyReads.Leads () (listHolds.collect org ids) fun _ _ => True := by
  induction ids with
  | nil => exact Protocol.Leads.ret fun _ _ => trivial
  | cons h rest ih =>
    refine getHold_readOnly.bind fun view _ _ => ?_
    refine ih.bind fun views _ _ => ?_
    exact Protocol.Leads.ret fun _ _ => trivial

/-- **Readers issue only statements that change nothing**, from the first to the last. -/
theorem program_readOnly {op : Op} (hop : op.readOnly = true) :
    onlyReads.Leads () (program op) fun _ _ => True := by
  cases op with
  | getHold org h => exact getHold_readOnly.map
  | listHolds org status cursor limit =>
    refine Protocol.Leads.map ((issue_readOnly (by trivial)).bind fun rows _ _ => ?_)
    refine (collect_readOnly _).bind fun views _ _ => ?_
    exact Protocol.Leads.ret fun _ _ => trivial
  | listActivity org h after limit =>
    refine Protocol.Leads.map (getHold_readOnly.bind fun view _ _ => ?_)
    refine (issue_readOnly (by trivial)).bind fun rows _ _ => ?_
    refine Protocol.Leads.bind (Q := fun _ _ => True) (Protocol.Leads.ret fun _ _ => trivial)
      fun events _ _ => ?_
    exact Protocol.Leads.ret fun _ _ => trivial
  | _ => cases hop

/-! ### What their statements do -/

theorem Query.ReadOnly.effect {q : Query} (hq : q.ReadOnly) (db : Db) (now : Time)
    (seq : Sequences) : (q.effect db now seq).writes = [] ∧ (q.effect db now seq).locks = [] ∧
      (q.effect db now seq).seq = seq := by
  cases q with
  | selectCommand key => exact ⟨rfl, rfl, rfl⟩
  | selectHold org h => exact ⟨rfl, rfl, rfl⟩
  | selectScopes h => exact ⟨rfl, rfl, rfl⟩
  | _ => cases hq

omit [Backend] in
theorem Server.blocks_nil (srv : Server) (i : Session Op) : srv.blocks i [] = false := by
  simp [blocks]

/-- **A statement that only reads never waits**, whatever locks are held. -/
theorem Server.exec_readOnly {s : Stmt} (hs : s.ReadOnly) (srv : Server) (i : Session Op)
    (f : Fate) : ∃ srv' r, srv.exec i s f = some (srv', r) := by
  have hperform : ∃ srv' r, srv.perform i s = some (srv', r) := by
    cases s with
    | begin =>
      cases ht : srv.tx? i with
      | none => exact ⟨_, _, by simp only [perform, ht]; rfl⟩
      | some t => exact ⟨_, _, by simp only [perform, ht]; rfl⟩
    | commit =>
      cases ht : srv.tx? i with
      | none => exact ⟨_, _, by simp only [perform, ht]; rfl⟩
      | some t => exact ⟨_, _, by simp only [perform, ht]; rfl⟩
    | query q =>
      cases ht : srv.tx? i with
      | none => exact ⟨_, _, by simp only [perform, ht]; rfl⟩
      | some t =>
        have hfree : ¬srv.blocks i (q.effect (srv.view t) t.startedAt srv.seq).locks = true := by
          rw [(Query.ReadOnly.effect hs _ _ _).2.1, blocks_nil]
          exact Bool.false_ne_true
        exact ⟨_, _, by simp only [perform, ht, if_neg hfree]; rfl⟩
    | pool q => exact ⟨_, _, rfl⟩
  obtain ⟨srv', r, hperform⟩ := hperform
  cases f with
  | done => exact ⟨_, _, by simp only [exec, hperform]; rfl⟩
  | failed => exact ⟨_, _, rfl⟩
  | lost => exact ⟨_, _, by simp only [exec, hperform]; rfl⟩

omit [Backend] in
/-- The transactions of others stay as they are. -/
theorem Server.mem_applied {srv : Server} {α : Type} {e : Effect α} {t t' : Tx}
    (h : t' ∈ (srv.applied t e).txs) :
    t' = t.extend e ∨ t' ∈ srv.txs ∧ t'.owner.id ≠ t.owner.id := mem_setTx h

/-- No statement brings in a transaction of another session. -/
theorem Server.Moved.mem_txs {srv srv' : Server} {i : Session Op} {s : Stmt}
    (h : srv.Moved i s srv') {t : Tx} (ht : t ∈ srv'.txs) (hne : t.owner.id ≠ i.id) :
    t ∈ srv.txs := by
  cases h with
  | same => exact ht
  | begun idle => exact (List.mem_cons.mp ht).resolve_left fun heq => hne (by rw [heq])
  | committed tx => exact (Server.mem_endTx ht).1
  | applied tx free =>
    rcases Server.mem_applied ht with rfl | ⟨ht, -⟩
    · exact absurd (Server.tx?_mem tx).2 hne
    · exact ht
  | decided => exact ht

/-- A session stays bare, with nothing written and nothing locked, by statements that only
read. -/
theorem Server.Moved.bare {srv srv' : Server} {i : Session Op} {s : Stmt} (hs : s.ReadOnly)
    (hbare : Bare i srv) (h : srv.Moved i s srv') : Bare i srv' := by
  intro t ht hid
  cases h with
  | same => exact hbare t ht hid
  | begun idle =>
    rcases List.mem_cons.mp ht with rfl | ht
    · exact ⟨rfl, rfl⟩
    · exact hbare t ht hid
  | committed tx => exact hbare t (Server.mem_endTx ht).1 hid
  | @applied t₀ q tx free =>
    obtain ⟨hmem, hid₀⟩ := Server.tx?_mem tx
    obtain ⟨hwrites, hlocks⟩ := hbare t₀ hmem hid₀
    obtain ⟨hw, hl, -⟩ := Query.ReadOnly.effect hs (srv.view t₀) t₀.startedAt srv.seq
    rcases Server.mem_applied ht with rfl | ⟨ht, -⟩
    · exact ⟨by rw [Tx.extend_writes, hwrites, hw]; rfl, by rw [Tx.extend_locks, hlocks, hl]; rfl⟩
    · exact hbare t ht hid
  | decided => cases hs

/-- What is said of readers along a run. -/
def reading : Assertion machine where
  inv _ := True
  proc i p srv := i.op.readOnly = true →
    srv.Bare i ∧ ∀ q, p = some q → onlyReads.Follows (fun _ _ => True) () q
  fresh i srv := srv.Bare i

theorem reading_stable : reading.Stable where
  start _ hfresh hop := by
    refine ⟨hfresh, fun q hq => ?_⟩
    cases hq
    exact Protocol.Follows.mono (fun _ _ _ => trivial) (program_readOnly hop)
  -- A reader makes statements that only read; what others do leaves its transaction alone.
  exec {i s k f srv srv' r} _ hp he := by
    obtain ⟨srv₁, hmoved, rfl⟩ := Server.exec_moved he
    refine ⟨trivial, fun hop => ?_, fun j hne => ?_⟩
    · obtain ⟨hbare, hfollows⟩ := hp hop
      obtain ⟨hs, hrest⟩ := hfollows _ rfl
      refine ⟨fun t ht => hmoved.bare hs hbare t ht, fun q hq => ?_⟩
      cases hq
      exact hrest r
    · have hbare : srv.Bare j → (srv₁.note i s f srv.log.length).Bare j := fun hj t ht hid =>
        hj t (hmoved.mem_txs ht (hid ▸ hne)) hid
      exact ⟨fun p hp hop => ⟨hbare (hp hop).1, (hp hop).2⟩, hbare⟩
  release {i srv} _ := by
    have hbare : ∀ j, srv.Bare j → (srv.endTx i).Bare j := fun j hj t ht =>
      hj t (Server.mem_endTx ht).1
    exact ⟨trivial, fun j _ => ⟨fun p hp hop => ⟨hbare j (hp hop).1, (hp hop).2⟩, hbare j⟩⟩
  released {i p srv} _ hp _ hop :=
    ⟨fun t ht => (hp hop).1 t (Server.mem_endTx ht).1, (hp hop).2⟩
  dropped {i s k srv} _ hp hop :=
    ⟨fun t ht => (hp hop).1 t (Server.mem_endTx ht).1, fun q hq => by cases hq⟩
  move _ := ⟨trivial, fun j => ⟨fun _ h => h, fun h => h⟩⟩

variable {c : Config}

theorem Reachable.reading_holds (h : Reachable c) : reading.Holds c :=
  reading_stable.reaches (.init trivial fun _ _ ht => absurd ht List.not_mem_nil) h

/-- **A reader has written and locked nothing** in any reachable configuration. -/
theorem Reachable.reader_bare (h : Reachable c) {t : Tx} (ht : t ∈ c.shared.txs)
    (hop : t.owner.op.readOnly = true) : t.writes = [] ∧ t.locks = [] := by
  obtain ⟨⟨op, p⟩, hp, heq⟩ := h.owned.tx t ht
  cases heq
  exact (h.reading_holds.procs t.owner.id t.owner.op p hp hop).1 t ht rfl

/-- The statement that a reader asks next changes nothing. -/
theorem Reachable.reader_asks (h : Reachable c) {i : ℕ} {op : Op} {s : Stmt}
    {k : s.Reply → Prog Stmt Stmt.Reply (Except StorageError Answer)}
    (hi : c.procs[i]? = some ⟨op, some (.ask s k)⟩) (hop : op.readOnly = true) : s.ReadOnly :=
  ((h.reading_holds.procs i op _ hi hop).2 _ rfl).1

/-- A transaction of a session of the run carries its operation. -/
theorem Reachable.owner_of_procs (h : Reachable c) {i : ℕ} {op : Op} {p}
    (hi : c.procs[i]? = some ⟨op, p⟩) {t : Tx} (ht : t ∈ c.shared.txs) (hid : t.owner.id = i) :
    t.owner = ⟨i, op⟩ := by
  have hknown : Config.Known c ⟨i, op⟩ := ⟨_, hi, rfl⟩
  exact (h.owned.tx t ht).eq hknown hid

end

/-! ### A server without its readers -/

namespace Server

/-- The server without the transactions and the statements of readers. -/
def withoutReaders (srv : Server) : Server :=
  { srv with
    txs := srv.txs.filter fun t => !t.owner.op.readOnly
    trace := srv.trace.filter fun e => !e.session.op.readOnly }

/-- The transactions of session `i` carry its operation, and readers are bare. -/
structure Sorted (i : Session Op) (srv : Server) : Prop where
  owner : ∀ t ∈ srv.txs, t.owner.id = i.id → t.owner = i
  bare : ∀ t ∈ srv.txs, t.owner.op.readOnly = true → t.writes = [] ∧ t.locks = []

variable {i : Session Op} {srv srv' : Server}

theorem withoutReaders_note_reader (hop : i.op.readOnly = true) (s : Stmt) (f : Fate) (seen : ℕ) :
    (srv.note i s f seen).withoutReaders = srv.withoutReaders := by
  simp [withoutReaders, note, hop]

theorem withoutReaders_note (hop : i.op.readOnly = false) (s : Stmt) (f : Fate) (seen : ℕ) :
    (srv.note i s f seen).withoutReaders = srv.withoutReaders.note i s f seen := by
  simp [withoutReaders, note, hop]

/-- The transaction of a reader is not there. -/
theorem withoutReaders_endTx_reader (h : srv.Sorted i) (hop : i.op.readOnly = true) :
    (srv.endTx i).withoutReaders = srv.withoutReaders := by
  have htxs : ((srv.endTx i).txs.filter fun t => !t.owner.op.readOnly) =
      srv.txs.filter fun t => !t.owner.op.readOnly := by
    refine List.filter_filter.trans (List.filter_congr fun t ht => ?_)
    by_cases hid : t.owner.id = i.id
    · simp [h.owner t ht hid, hop]
    · simp [hid]
  unfold withoutReaders
  rw [htxs]
  rfl

theorem withoutReaders_endTx (i : Session Op) (srv : Server) :
    srv.withoutReaders.endTx i = (srv.endTx i).withoutReaders := by
  have htxs : (srv.txs.filter fun t => !t.owner.op.readOnly).filter (fun t => t.owner.id ≠ i.id) =
      (srv.txs.filter fun t => t.owner.id ≠ i.id).filter fun t => !t.owner.op.readOnly := by
    rw [List.filter_filter, List.filter_filter]
    exact List.filter_congr fun t _ => Bool.and_comm _ _
  unfold withoutReaders endTx
  rw [htxs]

/-- A transaction that goes on is still of its session. -/
theorem filter_setTx {t : Tx} (h : srv.Sorted i) (ht : t.owner = i) :
    ((srv.setTx t).txs.filter fun t => !t.owner.op.readOnly) =
      (srv.txs.filter fun t => !t.owner.op.readOnly).map
        fun t' => if t'.owner.id = t.owner.id then t else t' := by
  unfold setTx
  rw [List.filter_map]
  refine congrArg _ (List.filter_congr fun t' ht' => ?_)
  show (!(if t'.owner.id = t.owner.id then t else t').owner.op.readOnly) = _
  by_cases hid : t'.owner.id = t.owner.id
  · rw [if_pos hid, ht, h.owner t' ht' (by rw [hid, ht])]
  · rw [if_neg hid]

/-- A transaction of a reader goes on, and is not there. -/
theorem withoutReaders_setTx_reader {t : Tx} (h : srv.Sorted i) (hop : i.op.readOnly = true)
    (ht : t.owner = i) : (srv.setTx t).withoutReaders = srv.withoutReaders := by
  have htxs : ((srv.setTx t).txs.filter fun t => !t.owner.op.readOnly) =
      srv.txs.filter fun t => !t.owner.op.readOnly := by
    rw [filter_setTx h ht]
    refine (List.map_congr_left fun t' ht' => ?_).trans (List.map_id _)
    obtain ⟨hmem, hshown⟩ := List.mem_filter.mp ht'
    refine if_neg fun hid => ?_
    rw [h.owner t' hmem (by rw [hid, ht]), hop] at hshown
    cases hshown
  unfold withoutReaders
  rw [htxs]
  rfl

theorem withoutReaders_setTx {t : Tx} (h : srv.Sorted i) (ht : t.owner = i) :
    srv.withoutReaders.setTx t = (srv.setTx t).withoutReaders := by
  unfold withoutReaders
  rw [filter_setTx h ht]
  rfl

/-- The server without readers sees the transaction of another session. -/
theorem tx?_withoutReaders (h : srv.Sorted i) (hop : i.op.readOnly = false) :
    srv.withoutReaders.tx? i = srv.tx? i := by
  unfold tx? withoutReaders
  rw [List.find?_filter]
  refine List.find?_congr fun t ht => ?_
  by_cases hid : t.owner.id = i.id
  · simp [h.owner t ht hid, hop]
  · simp [hid]

/-- Nobody waits for a reader: the same locks are blocked when there are none. -/
theorem blocks_withoutReaders (h : srv.Sorted i) (locks : List Lock) :
    srv.withoutReaders.blocks i locks = srv.blocks i locks := by
  unfold blocks withoutReaders
  rw [List.any_filter, Bool.eq_iff_iff, List.any_eq_true, List.any_eq_true]
  refine exists_congr fun t => and_congr_right fun ht => ?_
  cases hop : t.owner.op.readOnly with
  | false => simp
  | true => simp [(h.bare t ht hop).2]

variable [Backend]

/-- **What a reader does is not there** once readers are left out of the picture. -/
theorem Moved.withoutReaders_reader {s : Stmt} (h : srv.Sorted i) (hop : i.op.readOnly = true)
    (hs : s.ReadOnly) (hmoved : srv.Moved i s srv') :
    srv'.withoutReaders = srv.withoutReaders := by
  cases hmoved with
  | same => rfl
  | begun idle => simp [withoutReaders, hop]
  | @committed t tx =>
    obtain ⟨hmem, hid⟩ := tx?_mem tx
    have howner := h.owner t hmem hid
    obtain ⟨hwrites, -⟩ := h.bare t hmem (howner ▸ hop)
    have hcommit : srv.commitTx t = srv.endTx i := by
      unfold commitTx
      rw [hwrites, howner]
      rfl
    rw [hcommit, withoutReaders_endTx_reader h hop]
  | @applied t q tx free =>
    obtain ⟨hmem, hid⟩ := tx?_mem tx
    have howner := h.owner t hmem hid
    have hseq := (Query.ReadOnly.effect hs (srv.view t) t.startedAt srv.seq).2.2
    have happlied : srv.applied t (q.effect (srv.view t) t.startedAt srv.seq) =
        srv.setTx (t.extend (q.effect (srv.view t) t.startedAt srv.seq)) := by
      unfold Server.applied
      rw [hseq]
      rfl
    rw [happlied]
    exact withoutReaders_setTx_reader h hop howner
  | decided => cases hs

/-- **What others do can be done without readers.** -/
theorem perform_withoutReaders {s : Stmt} {r : s.Reply} (h : srv.Sorted i)
    (hop : i.op.readOnly = false) (hperform : srv.perform i s = some (srv', r)) :
    srv.withoutReaders.perform i s = some (srv'.withoutReaders, r) := by
  have htx := tx?_withoutReaders h hop
  cases s with
  | begin =>
    cases ht : srv.tx? i with
    | some t =>
      simp only [perform, ht] at hperform
      cases hperform
      simp only [perform, htx, ht]
    | none =>
      simp only [perform, ht] at hperform
      cases hperform
      simp only [perform, htx, ht]
      simp [withoutReaders, hop]
  | commit =>
    cases ht : srv.tx? i with
    | none =>
      simp only [perform, ht] at hperform
      cases hperform
      simp only [perform, htx, ht]
    | some t =>
      simp only [perform, ht] at hperform
      cases hperform
      simp only [perform, htx, ht]
      unfold commitTx
      rw [withoutReaders_endTx]
      rfl
  -- The view of a transaction, the sequences and the locks that block it are the same without
  -- readers.
  | query q =>
    cases ht : srv.tx? i with
    | none =>
      simp only [perform, ht] at hperform
      cases hperform
      simp only [perform, htx, ht]
    | some t =>
      obtain ⟨hmem, hid⟩ := tx?_mem ht
      obtain ⟨hfree, rfl, rfl⟩ := perform_query ht hperform
      have hview : srv.withoutReaders.view t = srv.view t := rfl
      have hseq : srv.withoutReaders.seq = srv.seq := rfl
      simp only [perform, htx, ht, hview, hseq, blocks_withoutReaders h, hfree,
        Bool.false_eq_true, if_false]
      have hset := withoutReaders_setTx (t := t.extend (q.effect (srv.view t) t.startedAt srv.seq))
        h (h.owner t hmem hid)
      let drawn (srv₁ : Server) : Server :=
        { srv₁ with seq := (q.effect (srv.view t) t.startedAt srv.seq).seq }
      exact congrArg some (Prod.ext (congrArg drawn hset) rfl)
  | pool q =>
    simp only [perform] at hperform ⊢
    cases q with
    -- The decisions that are there are the same too, and so is the conflict on the id.
    | insertDecision decisionId actionId caller hash allowed reasonCode holds =>
      have hdecisions : srv.withoutReaders.decisions = srv.decisions := rfl
      simp only [pool] at hperform ⊢
      rw [hdecisions]
      split at hperform
      · next hknown =>
        cases hperform
        rw [if_pos hknown]
        rfl
      · next hnew =>
        cases hperform
        rw [if_neg hnew]
        rfl
    | _ =>
      cases hperform
      rfl

theorem exec_withoutReaders {s : Stmt} {f : Fate} {r : s.Reply} (h : srv.Sorted i)
    (hop : i.op.readOnly = false) (hexec : srv.exec i s f = some (srv', r)) :
    srv.withoutReaders.exec i s f = some (srv'.withoutReaders, r) := by
  have hlog : srv.withoutReaders.log.length = srv.log.length := rfl
  cases f with
  | failed =>
    cases hexec
    simp only [exec, hlog, withoutReaders_note hop]
  | done =>
    obtain ⟨⟨srv₁, r₁⟩, hperform, heq⟩ := Option.map_eq_some_iff.mp hexec
    cases heq
    simp only [exec, perform_withoutReaders h hop hperform, Option.map_some, hlog,
      withoutReaders_note hop]
  | lost =>
    obtain ⟨⟨srv₁, r₁⟩, hperform, heq⟩ := Option.map_eq_some_iff.mp hexec
    cases heq
    simp only [exec, perform_withoutReaders h hop hperform, Option.map_some, hlog,
      withoutReaders_note hop]

end Server

/-! ### Runs without readers -/

section

variable [Backend] {c : Config}

/-- The erasure of readers: their sessions are hidden, and the server is seen without them. -/
@[reducible] def readers : Erasure machine where
  hidden := Op.readOnly
  erase := Server.withoutReaders

theorem Reachable.sorted (h : Reachable c) {i : ℕ} {op : Op} {p}
    (hi : c.procs[i]? = some ⟨op, p⟩) : c.shared.Sorted ⟨i, op⟩ :=
  ⟨fun _ ht hid => h.owner_of_procs hi ht hid, fun _ ht hop => h.reader_bare ht hop⟩

/-- **Nobody else can see a reader**: the erasure of readers is sound for reachable
configurations. -/
theorem readers_sound : readers.Sound Reachable where
  step h hstep := h.trans (Machine.Reaches.of_step hstep)
  hidden_exec h hi hop he := by
    obtain ⟨srv₁, hmoved, rfl⟩ := Server.exec_moved he
    refine (Server.withoutReaders_note_reader hop ..).trans ?_
    exact hmoved.withoutReaders_reader (h.sorted hi) hop (h.reader_asks hi hop)
  exec h hi hop he := Server.exec_withoutReaders (h.sorted hi) hop he
  hidden_release h hi hop := Server.withoutReaders_endTx_reader (h.sorted hi) hop
  release _ _ _ := Server.withoutReaders_endTx _ _
  move _ _ := rfl

/-- **Readers are invisible.**  The steps of readers can be left out of any run.  What remains is
a run to the same tables, decisions, sequences, clock and log, with the same open transactions
and statements of all other sessions, and each of these is where it was.  A reader never waits,
so that nobody can hold it up either. -/
theorem readers_invisible {ls : List Label} (hrun : Machine.run initial ls = some c) :
    (∃ c' : Config,
      Machine.run initial (ls.filter fun l => !readers.ofHidden c l) = some c' ∧
        c'.shared = c.shared.withoutReaders ∧ c'.procs.length = c.procs.length ∧
        ∀ (i : ℕ) (op : Op) (p : Option (Prog Stmt Stmt.Reply (Except StorageError Answer))),
          op.readOnly = false → c.procs[i]? = some ⟨op, p⟩ → c'.procs[i]? = some ⟨op, p⟩) ∧
      ∀ (i : ℕ) (op : Op) (s : Stmt)
        (k : s.Reply → Prog Stmt Stmt.Reply (Except StorageError Answer)) (f : Fate),
        op.readOnly = true → c.procs[i]? = some ⟨op, some (.ask s k)⟩ →
          ∃ d, Machine.step c (.step i f) = some d ∧
            d.shared.withoutReaders = c.shared.withoutReaders := by
  have hc : Reachable c := ⟨ls, hrun⟩
  constructor
  · refine ⟨readers.config c, readers_sound.run (Machine.Reaches.refl initial) hrun, rfl,
      List.length_map _, fun i op p hop hi => ?_⟩
    have hi' := Erasure.config_procs (E := readers) hi
    rwa [Erasure.proc_shown hop] at hi'
  · intro i op s k f hop hi
    obtain ⟨srv, r, he⟩ := Server.exec_readOnly (hc.reader_asks hi hop) c.shared ⟨i, op⟩ f
    refine ⟨⟨srv, c.procs.set i ⟨op, some (k r)⟩⟩, ?_, readers_sound.hidden_exec hc hi hop he⟩
    simp only [Machine.step, hi]
    exact Option.map_eq_some_iff.mpr ⟨_, he, rfl⟩

end

namespace Sample

/-- While the hold is read, `f` is put under it. -/
def watched : List Label :=
  .start (create [1]) :: steps 0 8 ++ .start (.getHold "org" "h") :: steps 1 2 ++
    .start (add 1) :: steps 2 10 ++ steps 1 1

/-- The run in which the hold is watched has a counterpart without the reader, in which the others
do the same. -/
theorem watched_invisible : ∃ c' : Config,
    Machine.run initial (.start (create [1]) :: steps 0 8 ++
      .start (.getHold "org" "h") :: .start (add 1) :: steps 2 10) = some c' ∧
      c'.shared = (after watched).shared.withoutReaders := by
  have hrun : Machine.run initial watched = some (after watched) := rfl
  obtain ⟨⟨c', hrun', hshared, -⟩, -⟩ := readers_invisible hrun
  have hlabels : (watched.filter fun l => !readers.ofHidden (after watched) l) =
      .start (create [1]) :: steps 0 8 ++
        .start (.getHold "org" "h") :: .start (add 1) :: steps 2 10 := rfl
  rw [hlabels] at hrun'
  exact ⟨c', hrun', hshared⟩

end Sample

end LegalHold
