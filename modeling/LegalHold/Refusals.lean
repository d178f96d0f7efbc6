import LegalHold.Constraints

/-!
# What the database refuses

A statement that is executed can still be refused.  The order in which an operation issues its
statements leaves few reasons for that: it is always in the transaction it needs to be in, and
it has its hold before it writes a row that refers to it.  What is left is the key of a receipt
that another session has stored in the meantime, numbers that have run out, and a page with a
negative limit.

## Main definitions

* `Tx.Rooted` — a transaction that has locked the key of a hold has inserted the hold.
* `steady` — the order of the locks, and the transaction at each point of it.

## Main results

* `Reachable.steady_kept` — a session is in the transaction that its next statement needs.
* `statement_refused` — **the reasons for which a statement can be refused**.
-/

namespace LegalHold

open Interleave

/-- A transaction that has locked the key of a hold has itself inserted the hold. -/
def Tx.Rooted (t : Tx) : Prop :=
  ∀ h, .holdKey h ∈ t.locks → ∃ row, .insertHold row ∈ t.writes ∧ row.holdId = h

section

variable [Backend] {srv srv' : Server} {i : Session Op}

/-- A statement that locks the key of a hold inserts the hold. -/
theorem Query.effect_rooted (q : Query) (db : Db) (now : Time) (seq : Sequences) {h : String}
    (hl : .holdKey h ∈ (q.effect db now seq).locks) :
    ∃ row, .insertHold row ∈ (q.effect db now seq).writes ∧ row.holdId = h := by
  have hupdate : ∀ (holdId : String) (f : HoldRow → HoldRow),
      .holdKey h ∉ (updateHold db seq holdId f).locks := by
    intro holdId f
    unfold updateHold
    split
    · exact List.not_mem_nil
    · split
      · exact List.not_mem_nil
      · simp
  cases q with
  | insertHold holdId org title reason authority createdBy =>
    simp only [Query.effect] at hl ⊢
    split at hl
    · exact (List.not_mem_nil hl).elim
    · cases List.mem_singleton.mp hl
      exact ⟨_, List.mem_singleton.mpr rfl, rfl⟩
  | lockHold org holdId =>
    simp only [Query.effect] at hl
    split at hl <;> simp at hl
  | insertScope holdId scope createdBy =>
    simp only [Query.effect] at hl
    split at hl
    · exact (List.not_mem_nil hl).elim
    · split at hl
      · exact (List.not_mem_nil hl).elim
      · split at hl <;> simp at hl
  | deleteScope holdId scope =>
    simp only [Query.effect] at hl
    split at hl <;> simp at hl
  | advanceRevision holdId => exact absurd hl (hupdate holdId _)
  | releaseHold holdId releasedBy reason => exact absurd hl (hupdate holdId _)
  | insertActivity org holdId kind actor payload =>
    simp only [Query.effect] at hl
    split at hl
    · exact (List.not_mem_nil hl).elim
    · split at hl <;> simp at hl
  | insertCommand key hash response =>
    simp only [Query.effect] at hl
    split at hl <;> simp at hl
  | _ => exact (List.not_mem_nil hl).elim

theorem Server.Moved.rooted {s : Stmt} (hmoved : srv.Moved i s srv')
    (h : ∀ t ∈ srv.txs, t.Rooted) : ∀ t ∈ srv'.txs, t.Rooted := by
  cases hmoved with
  | begun idle =>
    intro t ht
    rcases List.mem_cons.mp ht with rfl | ht
    · exact fun h' hl => (List.not_mem_nil hl).elim
    · exact h t ht
  | committed tx => exact fun t ht => h t (Server.mem_endTx ht).1
  | @applied t q tx free =>
    intro t' ht'
    rcases Server.mem_setTx ht' with rfl | ⟨ht', -⟩
    · intro h' hl
      rcases List.mem_append.mp hl with hl | hl
      · obtain ⟨row, hrow, hid⟩ := h t (Server.tx?_mem tx).1 h' hl
        exact ⟨row, List.mem_append_left _ hrow, hid⟩
      · obtain ⟨row, hrow, hid⟩ := Query.effect_rooted q _ _ _ hl
        exact ⟨row, List.mem_append_right _ hrow, hid⟩
    · exact h t' ht'
  | _ => exact h

theorem Reachable.rooted {c : Config} (h : Reachable c) : ∀ t ∈ c.shared.txs, t.Rooted := by
  refine h.induction (P := fun c : Config => ∀ t ∈ c.shared.txs, t.Rooted) nofun ?_
  intro c₁ l c₂ _ ih hstep
  obtain ⟨op, rfl⟩ | ⟨i, f, op, s, k, st, r, hp, he, rfl⟩ |
    ⟨i, p, hp, ⟨-, rfl⟩ | ⟨-, rfl⟩⟩ | ⟨m, rfl⟩ := Machine.step_cases hstep
  · exact ih
  · obtain ⟨srv₁, hmoved, rfl⟩ := Server.exec_moved he
    exact hmoved.rooted ih
  · exact fun t ht => ih t (Server.mem_endTx ht).1
  · exact fun t ht => ih t (Server.mem_endTx ht).1
  · exact ih

omit [Backend] in
/-- A hold that has been inserted is there. -/
theorem Db.hold?_putAll_of_insert {ws : List Write} {row : HoldRow}
    (h : .insertHold row ∈ ws) : ∀ db : Db, (db.putAll ws).hold? row.holdId ≠ none := by
  induction ws with
  | nil => exact (List.not_mem_nil h).elim
  | cons w ws ih =>
    intro db
    rcases List.mem_cons.mp h with rfl | h
    · have hnew : (db.put (.insertHold row)).hold? row.holdId ≠ none := by
        rw [Db.hold?_insertHold]
        cases db.hold? row.holdId <;> simp
      rw [Db.putAll_cons]
      exact Db.Keyed.hold?_putAll_ne_none hnew
    · exact ih h _

/-- **Who owns a hold sees it**: a transaction that holds the lock on a hold finds its row. -/
theorem Reachable.hold?_of_owns {c : Config} (h : Reachable c) {t : Tx} (ht : t ∈ c.shared.txs)
    {holdId : String} (howns : t.Owns holdId) : (c.shared.view t).hold? holdId ≠ none := by
  rcases howns with hrow | hkey
  · exact Db.Keyed.hold?_putAll_ne_none (h.inv.rowLock t ht holdId hrow)
  · obtain ⟨row, hrow, rfl⟩ := h.rooted t ht holdId hkey
    exact Db.hold?_putAll_of_insert hrow _

/-! ### The transaction of a session -/

/-- What a phase says of the session's transaction; also the last one is inside it. -/
structure Phase.Tells (φ : Phase) (i : Session Op) (srv : Server) : Prop where
  holds : φ.holds i srv
  inside : φ = .stored → ∃ t, srv.tx? i = some t

omit [Backend] in
theorem Phase.Tells.congr {φ : Phase} (htx : srv'.tx? i = srv.tx? i) (h : φ.Tells i srv) :
    φ.Tells i srv' where
  holds := Phase.holds_congr htx h.holds
  inside hstored := by
    obtain ⟨t, ht⟩ := h.inside hstored
    exact ⟨t, htx.trans ht⟩

/-- Once its receipt is stored a session is still in its transaction. -/
theorem Phase.stored_of_next {φ : Phase} {s : Stmt} {f : Fate} {r : s.Reply}
    (hφ : φ.holds i srv) (hmay : φ.may s) (hnext : φ.next s r = .stored)
    (h : srv.exec i s f = some (srv', r)) : ∃ t, srv'.tx? i = some t := by
  cases φ with
  | owning h' =>
    cases s with
    | query q =>
      obtain ⟨t, ht, -⟩ := hφ
      cases f with
      | done =>
        obtain ⟨⟨srv₁, r₁⟩, h₁, heq⟩ := Option.map_eq_some_iff.mp h
        cases heq
        obtain ⟨-, rfl, -⟩ := Server.perform_query ht h₁
        exact ⟨_, Server.tx?_setTx_self ht (Server.tx?_mem ht).2⟩
      -- After an error the phase would be another one.
      | failed =>
        simp only [Server.exec, Option.some.injEq, Prod.mk.injEq] at h
        rw [← h.2, Phase.next_error] at hnext
        cases hnext
      | lost =>
        obtain ⟨⟨srv₁, r₁⟩, -, heq⟩ := Option.map_eq_some_iff.mp h
        cases heq
        rw [Phase.next_error] at hnext
        cases hnext
    | _ => exact hmay.elim
  | stored =>
    cases s with
    | commit => cases r <;> cases hnext
    | _ => exact hmay.elim
  | begun =>
    cases r with
    | error e => cases hnext
    | ok rows =>
      cases s with
      | query q =>
        -- Before the hold is taken no receipt is stored.
        simp only [Phase.next] at hnext
        cases q with
        | insertHold h' org title reason authority createdBy =>
          simp only [Phase.opened] at hnext
          split at hnext <;> cases hnext
        | lockHold org h' =>
          simp only [Phase.opened] at hnext
          split at hnext <;> cases hnext
        | _ => cases hnext
      | commit => cases hnext
      | _ => exact hmay.elim
  | outside =>
    cases s with
    | begin => cases r <;> cases hnext
    | pool q => cases r <;> cases hnext
    | _ => exact hmay.elim
  | closed => exact hmay.elim

/-- The order of the locks, and the transaction at each point of it. -/
@[reducible] def steady : Protocol machine where
  Phase := Phase
  start := .outside
  may := Phase.may
  next := Phase.next
  inv srv := ∀ t ∈ srv.txs, t.Tidy
  holds := Phase.Tells

/-- A program that keeps to the order of the locks does so here. -/
theorem Phase.follows_steady {p : Prog Stmt Stmt.Reply (Except StorageError Answer)} :
    ∀ {φ : Phase}, lockOrder.Follows (fun _ _ => True) φ p →
      steady.Follows (fun _ _ => True) φ p := by
  induction p with
  | ret a => exact fun _ => trivial
  | ask s k ih => exact fun h => ⟨h.1, fun r => ih r (h.2 r)⟩

theorem steady_sound : steady.Sound where
  prog op := Phase.follows_steady (lockOrder_sound.prog op)
  exec {φ i s f srv srv' r} htidy hφ hmay h := by
    obtain ⟨htidy', hnext⟩ := lockOrder_sound.exec htidy hφ.holds hmay h
    exact ⟨htidy', hnext, fun heq => Phase.stored_of_next hφ.holds hmay heq h⟩
  other {φ j i s f srv srv' r} hne hφ h := by
    obtain ⟨srv₁, hmoved, rfl⟩ := Server.exec_moved h
    exact hφ.congr (hmoved.tx?_other hne)
  release {i srv} htidy :=
    ⟨(lockOrder_sound.release htidy).1, (lockOrder_sound.release htidy).2, nofun⟩
  release_other hne hφ := hφ.congr (Server.tx?_endTx_other hne)
  move htidy := htidy
  move_other {φ j m srv} hφ := by
    have htx : Server.tx? (machine.move m srv) j = Server.tx? srv j := rfl
    exact hφ.congr htx

variable {c : Config}

/-- **A session is in the transaction that its next statement needs.** -/
theorem Reachable.steady_kept (h : Reachable c) : steady.Kept c := by
  have hinitial : steady.Kept initial :=
    .init (fun t ht => absurd ht List.not_mem_nil) fun _ => ⟨rfl, nofun⟩
  exact steady_sound.reaches hinitial h

/-! ### Refusals -/

/-- The statement has no number for its row: the sequence from which it draws has none left, or
the hold that it updates has the last revision. -/
def Server.Exhausted (srv : Server) (db : Db) : Query → Prop
  | .insertActivity .. => maxI64 < srv.seq.activity
  | .insertScope .. => maxI64 < srv.seq.scopeRow
  | .advanceRevision holdId => ∃ row, db.hold? holdId = some row ∧ maxI64 ≤ row.revision
  | .releaseHold holdId .. => ∃ row, db.hold? holdId = some row ∧ maxI64 ≤ row.revision
  | _ => False

/-- Before the hold is taken no statement is refused. -/
theorem Query.opens_ok {q : Query} (hq : q.opens = true) (db : Db) (now : Time) (seq : Sequences) :
    ∃ rows, (q.effect db now seq).reply = .ok rows := by
  cases q with
  | insertHold holdId org title reason authority createdBy =>
    simp only [Query.effect]
    split <;> exact ⟨_, rfl⟩
  | lockHold org holdId =>
    simp only [Query.effect]
    split <;> exact ⟨_, rfl⟩
  | selectCommand key => exact ⟨_, rfl⟩
  | selectHold org holdId => exact ⟨_, rfl⟩
  | selectScopes holdId => exact ⟨_, rfl⟩
  | _ => cases hq

/-- When the hold has been taken, a statement that finds it is refused for a receipt that is there
already, or because there is no number left for its row. -/
theorem Query.within_error {q : Query} {h : String} (hq : q.within h) {db : Db} {now : Time}
    (hfound : db.hold? h ≠ none) {e : SqlError}
    (he : (q.effect db now srv.seq).reply = .error e) :
    (e = .uniqueViolation ∧ ∃ key hash response,
        q = .insertCommand key hash response ∧ db.command? key ≠ none) ∨
      (e = .outOfRange ∧ srv.Exhausted db q) := by
  -- An update is refused for the last revision only.
  have hupdate : ∀ f : HoldRow → HoldRow, (∀ row, (f row).revision = row.revision + 1) →
      (updateHold db srv.seq h f).reply = .error e →
      e = .outOfRange ∧ ∃ row, db.hold? h = some row ∧ maxI64 ≤ row.revision := by
    intro f hf he
    unfold updateHold at he
    split at he
    · cases he
    · next row hrow =>
      split at he
      · next hroom =>
        cases he
        rw [hf] at hroom
        exact ⟨rfl, row, hrow, by omega⟩
      · cases he
  cases q with
  | insertScope h' scope createdBy =>
    obtain rfl : h' = h := hq
    simp only [Query.effect] at he
    split at he
    · next hlimit =>
      cases he
      exact .inr ⟨rfl, hlimit⟩
    · split at he
      · cases he
      · split at he
        · next hnone => exact absurd hnone hfound
        · cases he
  | deleteScope h' scope =>
    simp only [Query.effect] at he
    split at he <;> cases he
  | advanceRevision h' =>
    obtain rfl : h' = h := hq
    exact .inr (hupdate _ (fun _ => rfl) he)
  | releaseHold h' releasedBy reason =>
    obtain rfl : h' = h := hq
    exact .inr (hupdate _ (fun _ => rfl) he)
  | insertActivity org h' kind actor payload =>
    obtain rfl : h' = h := hq
    simp only [Query.effect] at he
    split at he
    · next hlimit =>
      cases he
      exact .inr ⟨rfl, hlimit⟩
    · split at he
      · next hnone => exact absurd hnone hfound
      · cases he
  -- The primary key of the receipts is the one constraint that a statement can run into.
  | insertCommand key hash response =>
    simp only [Query.effect] at he
    split at he
    · next row hrow =>
      cases he
      exact .inl ⟨rfl, key, hash, response, rfl, by simp [hrow]⟩
    · cases he
  | selectHold org h' => cases he
  | selectScopes h' => cases he
  | _ => exact hq.elim

/-- The statement asks for a page with a negative limit. -/
def Stmt.Negative : Stmt → Prop
  | .pool (.listHolds _ _ _ limit) => limit < 0
  | .pool (.listActivity _ _ _ limit) => limit < 0
  | _ => False

theorem Server.pool_error {q : PoolQuery} {e : SqlError}
    (h : srv.pool q = (srv', .error e)) : e = .negativeLimit ∧ (Stmt.pool q).Negative := by
  cases q with
  | listHolds org status cursor limit =>
    simp only [Server.pool, Prod.mk.injEq] at h
    obtain ⟨-, h⟩ := h
    split at h
    · next hlimit =>
      cases h
      exact ⟨rfl, hlimit⟩
    · cases h
  | listActivity org holdId after limit =>
    simp only [Server.pool, Prod.mk.injEq] at h
    obtain ⟨-, h⟩ := h
    split at h
    · next hlimit =>
      cases h
      exact ⟨rfl, hlimit⟩
    · cases h
  | matchHolds kind id subject => cases h
  | insertDecision decisionId actionId caller hash allowed reasonCode holds =>
    simp only [Server.pool] at h
    split at h <;> cases h

/-- A session that has its hold has written no receipt yet. -/
theorem Reachable.command?_view (h : Reachable c) {t : Tx} (ht : t ∈ c.shared.txs)
    {holdId : String} (hlocks : ∀ l ∈ t.locks, l.holdId = some holdId) (key : CommandKey) :
    (c.shared.view t).command? key = c.shared.db.command? key := by
  refine Db.command?_putAll_of_ne (fun w hw hkey => ?_) _
  have hlock := (h.inv.guarded t ht w hw).2 key hkey
  cases hlocks _ hlock

/-- **The reasons for which a statement can be refused**: in every run, a statement that the
database executes for a session is refused only when it stores a receipt for a key that a
commit has taken meanwhile, when there is no number left for its own row (the sequence from
which it draws is used up, or the hold that it updates has the last revision), or when it asks
for a negative number of rows, which no valid request does.  It is never refused for a row that
it refers to, nor for being in no transaction or in a second one. -/
theorem statement_refused (h : Reachable c) {i : ℕ} {op : Op} {s : Stmt}
    {k : s.Reply → Prog Stmt Stmt.Reply (Except StorageError Answer)}
    (hi : c.procs[i]? = some ⟨op, some (.ask s k)⟩) {e : SqlError}
    (he : c.shared.perform ⟨i, op⟩ s = some (srv', .error e)) :
    (e = .uniqueViolation ∧ ∃ key hash response, s = .query (.insertCommand key hash response) ∧
        ∃ n cmd view, c.shared.Commit n cmd view ∧ cmd.key = key) ∨
      (e = .outOfRange ∧ ∃ q, s = .query q ∧ ∃ t ∈ c.shared.txs, t.owner.id = i ∧
        c.shared.Exhausted (c.shared.view t) q) ∨
      (e = .negativeLimit ∧ s.Negative) := by
  obtain ⟨φ, hφ, hmay, -⟩ := h.steady_kept.procs i op _ hi
  cases φ with
  | outside =>
    have hnone : c.shared.tx? ⟨i, op⟩ = none := hφ.holds
    cases s with
    | begin =>
      simp only [Server.perform, hnone] at he
      cases he
    | pool q => exact .inr (.inr (Server.pool_error (Option.some.inj he)))
    | _ => exact hmay.elim
  -- Before the hold is taken, no statement is refused.
  | begun =>
    obtain ⟨t, ht, -⟩ := hφ.holds
    cases s with
    | commit =>
      obtain ⟨hr, -⟩ := Phase.perform_commit h.lockOrder_kept.inv ht he
      cases hr
    | query q =>
      obtain ⟨-, -, hreply⟩ := Server.perform_query ht he
      obtain ⟨rows, hok⟩ := Query.opens_ok hmay (c.shared.view t) t.startedAt c.shared.seq
      rw [hok] at hreply
      cases hreply
    | _ => exact hmay.elim
  -- The transaction sees its hold; what is refused then is refused by `within_error`.
  | owning holdId =>
    obtain ⟨t, ht, howns, hlocks⟩ := hφ.holds
    obtain ⟨htm, hid⟩ := Server.tx?_mem ht
    cases s with
    | query q =>
      obtain ⟨-, -, hreply⟩ := Server.perform_query ht he
      rcases Query.within_error hmay (h.hold?_of_owns htm howns) hreply.symm with
        ⟨rfl, key, hash, response, rfl, hfound⟩ | ⟨rfl, hexhausted⟩
      · refine .inl ⟨rfl, key, hash, response, rfl, ?_⟩
        -- The session has written no receipt itself, so the one it runs into is a committed one.
        rw [h.command?_view htm hlocks, h.db_eq] at hfound
        obtain ⟨row, hrow⟩ := Option.ne_none_iff_exists'.mp hfound
        obtain ⟨n, -, cmd, view, -, hcommit, hkey, -⟩ :=
          (h.command?_iff (Nat.le_refl _)).mp hrow
        exact ⟨n, cmd, view, hcommit, hkey⟩
      · exact .inr (.inl ⟨rfl, q, rfl, t, htm, hid, hexhausted⟩)
    | _ => exact hmay.elim
  | stored =>
    obtain ⟨t, ht⟩ := hφ.inside rfl
    cases s with
    | commit =>
      obtain ⟨hr, -⟩ := Phase.perform_commit h.lockOrder_kept.inv ht he
      cases hr
    | _ => exact hmay.elim
  | closed => exact hmay.elim

end

namespace Sample

/-- Two holds are created under one key; the second session comes to its receipt when the first
has committed. -/
def clashing : List Label :=
  .start (create [1]) ::
    .start
      (.createHold ⟨"admin", "alice", "org", "k", "title", "reason", "court", "create", [1]⟩) ::
    steps 0 2 ++ steps 1 2 ++ steps 0 6 ++ steps 1 4

/-- The receipt of the later one of two creations is refused, for the commit of the earlier
one. -/
theorem clashing_refused : ∃ n cmd view, (after clashing).shared.Commit n cmd view ∧
    cmd.key = ⟨"admin", "alice", .createHold, "create"⟩ := by
  rcases statement_refused (reachable_after clashing) (i := 1) rfl rfl with
    ⟨-, key, hash, response, hs, n, cmd, view, hcommit, hkey⟩ | ⟨he, -⟩ | ⟨he, -⟩
  · cases hs
    exact ⟨n, cmd, view, hcommit, hkey⟩
  · cases he
  · cases he

end Sample

end LegalHold
