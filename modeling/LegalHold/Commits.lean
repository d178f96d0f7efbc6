import LegalHold.Plugin
import LegalHold.Reads

/-!
# The committed history of a run

The tables of a reachable configuration are what its commits have made of them,
one command after the other.  This module says so in the words the guarantees of
the service are stated in: the `n`-th commit, the command it carried out and the
view it answered with.

## Main definitions

* `Server.Commit` — the `n`-th commit of a run.
* `Later` — a configuration and one that is reached from it.

## Main results

* `Reachable.commit` — **every commit is a mutation** of what the commits before
  it left behind, and there is nothing else in the tables.
* `Reachable.key_unique`, `Reachable.command?_iff` — one receipt for each commit.
* `Later.commit`, `Later.seen` — commits stay, and later statements see them.
* `Reachable.owned` — who the sessions of a run are.
-/

namespace LegalHold

open Interleave

section

variable [Backend]

/-! ### Commits -/

/-- The `n`-th commit carried out `c`, and `view` is the hold as it left it. -/
def Server.Commit (srv : Server) (n : ℕ) (c : Command) (view : HoldView) : Prop :=
  ∃ t, srv.log[n]? = some t ∧ t.owner.op.command? = some c ∧
    (srv.asOf (n + 1)).loadHold c.organizationId c.holdId = .ok view

omit [Backend] in
theorem Server.asOf_succ {srv : Server} {n : ℕ} {t : Tx} (h : srv.log[n]? = some t) :
    srv.asOf (n + 1) = (srv.asOf n).putAll t.writes := by
  unfold asOf
  rw [List.take_add_one, h]
  exact replayLog_snoc _ _

variable {c : Config}

/-- The tables are what the commits have made of them. -/
theorem Reachable.db_eq (h : Reachable c) : c.shared.db = c.shared.asOf c.shared.log.length :=
  h.inv.asOf_length.symm

theorem Reachable.coherent (h : Reachable c) (n : ℕ) : (c.shared.asOf n).Coherent :=
  (h.inv.chronicle.take n).coherent

theorem Reachable.now_coherent (h : Reachable c) : c.shared.db.Coherent := by
  rw [h.db_eq]
  exact h.coherent _

/-- **Every commit is a mutation** of what was committed before it. -/
theorem Reachable.commit (h : Reachable c) {n : ℕ} {t : Tx} (hn : c.shared.log[n]? = some t) :
    ∃ cmd ws activityId view, Mutation (c.shared.asOf n) t cmd ws activityId view ∧
      c.shared.Commit n cmd view := by
  obtain ⟨cmd, ws, activityId, view, hm⟩ := h.inv.chronicle.atomic hn
  refine ⟨cmd, ws, activityId, view, hm, t, hn, hm.command, ?_⟩
  rw [Server.asOf_succ hn]
  exact hm.view

/-- What a commit is, in full: a mutation of the tables as they were before it, whose writes lead
to the tables after it. -/
theorem Reachable.mutation (h : Reachable c) {n : ℕ} {cmd : Command} {view : HoldView}
    (hc : c.shared.Commit n cmd view) :
    ∃ t ws activityId, c.shared.log[n]? = some t ∧
      Mutation (c.shared.asOf n) t cmd ws activityId view ∧
      c.shared.asOf (n + 1) = (c.shared.asOf n).putAll t.writes := by
  obtain ⟨t, hn, hcmd, hview⟩ := hc
  obtain ⟨cmd', ws, activityId, view', hm⟩ := h.inv.chronicle.atomic hn
  cases hcmd.symm.trans hm.command
  have hsucc := Server.asOf_succ hn
  have hview' := hm.view
  rw [hsucc] at hview
  cases hview.symm.trans hview'
  exact ⟨t, ws, activityId, hn, hm, hsucc⟩

theorem Server.commit_lt {srv : Server} {n : ℕ} {cmd : Command} {view : HoldView}
    (hc : srv.Commit n cmd view) : n < srv.log.length := by
  obtain ⟨t, hn, -⟩ := hc
  exact (List.getElem?_eq_some_iff.mp hn).1

/-- What the first `n` commits left behind and further commits keep is still
there later. -/
theorem Reachable.preserves {P : Db → Prop} (h : Reachable c) {n m : ℕ} (hnm : n ≤ m)
    (h0 : P (c.shared.asOf n))
    (hs : ∀ db t cmd ws activityId view, db.Coherent → Mutation db t cmd ws activityId view →
      P db → P (db.putAll t.writes)) : P (c.shared.asOf m) :=
  h.inv.chronicle.preserves hnm h0 hs

/-- Induction over the commits of a run from the `k`-th on. -/
theorem Reachable.commit_induction_from (h : Reachable c) {P : ℕ → Prop} {k : ℕ} (h0 : P k)
    (hs : ∀ n t cmd ws activityId view, k ≤ n → P n → c.shared.Commit n cmd view →
      Mutation (c.shared.asOf n) t cmd ws activityId view →
      c.shared.asOf (n + 1) = (c.shared.asOf n).putAll t.writes → P (n + 1)) :
    ∀ {m : ℕ}, k ≤ m → m ≤ c.shared.log.length → P m := by
  intro m hkm
  induction m, hkm using Nat.le_induction with
  | base => exact fun _ => h0
  | succ n hkn ih =>
    intro hn
    obtain ⟨cmd, ws, activityId, view, hm, hc⟩ := h.commit (List.getElem?_eq_getElem hn)
    exact hs n _ cmd ws activityId view hkn (ih (Nat.le_of_lt hn)) hc hm
      (Server.asOf_succ (List.getElem?_eq_getElem hn))

/-! ### Receipts -/

/-- A commit leaves its receipt for good: it is found under the key of the command in every later
state of the tables. -/
theorem Reachable.command?_of_commit (h : Reachable c) {n m : ℕ} {cmd : Command}
    {view : HoldView} (hc : c.shared.Commit n cmd view) (hnm : n < m) :
    ∃ now, (c.shared.asOf m).command? cmd.key = some (cmd.receipt view now) := by
  obtain ⟨t, ws, activityId, hn, hm, hsucc⟩ := h.mutation hc
  refine ⟨t.startedAt, h.preserves
    (P := fun db => db.command? cmd.key = some (cmd.receipt view t.startedAt)) hnm ?_ ?_⟩
  · rw [hsucc, hm.command?_eq, hm.unseen]
    simp
  · intro db t' cmd' ws' activityId' view' _ _ hfound
    exact Db.command?_putAll_of_some hfound

/-- **One commit for each key**: two commits whose commands have one key are the same commit. -/
theorem Reachable.key_unique (h : Reachable c) {n m : ℕ} {cmd cmd' : Command}
    {view view' : HoldView} (hn : c.shared.Commit n cmd view) (hm : c.shared.Commit m cmd' view')
    (hkey : cmd.key = cmd'.key) : n = m := by
  have hlt : ∀ {n m : ℕ} {cmd cmd' : Command} {view view' : HoldView},
      c.shared.Commit n cmd view → c.shared.Commit m cmd' view' → cmd.key = cmd'.key →
      ¬ n < m := by
    intro n m cmd cmd' view view' hn hm hkey hlt
    obtain ⟨now, hfound⟩ := h.command?_of_commit hn hlt
    obtain ⟨t, ws, activityId, -, hmut, -⟩ := h.mutation hm
    rw [hkey, hmut.unseen] at hfound
    cases hfound
  have h1 := hlt hn hm hkey
  have h2 := hlt hm hn hkey.symm
  omega

theorem Server.commit_unique {srv : Server} {n : ℕ} {cmd cmd' : Command}
    {view view' : HoldView} (h : srv.Commit n cmd view) (h' : srv.Commit n cmd' view') :
    cmd = cmd' ∧ view = view' := by
  obtain ⟨t, hn, hcmd, hview⟩ := h
  obtain ⟨t', hn', hcmd', hview'⟩ := h'
  cases hn.symm.trans hn'
  cases hcmd.symm.trans hcmd'
  cases hview.symm.trans hview'
  exact ⟨rfl, rfl⟩

/-- **A receipt is there when its commit is.** -/
theorem Reachable.command?_iff (h : Reachable c) {m : ℕ} (hm : m ≤ c.shared.log.length)
    {key : CommandKey} {row : CommandRow} :
    (c.shared.asOf m).command? key = some row ↔
      ∃ n < m, ∃ cmd view now, c.shared.Commit n cmd view ∧ cmd.key = key ∧
        row = cmd.receipt view now ∧
        ∃ t, c.shared.log[n]? = some t ∧ t.startedAt = now := by
  constructor
  · induction m with
    | zero =>
      intro hfound
      cases hfound
    | succ m ih =>
      intro hfound
      obtain ⟨t, ht⟩ : ∃ t, c.shared.log[m]? = some t := ⟨_, List.getElem?_eq_getElem hm⟩
      obtain ⟨cmd, ws, activityId, view, hmut, hcommit⟩ := h.commit ht
      rw [Server.asOf_succ ht, hmut.command?_eq] at hfound
      -- Either the receipt was there already, or the last of the commits left it.
      cases hold : (c.shared.asOf m).command? key with
      | some old =>
        rw [hold] at hfound
        cases hfound
        obtain ⟨n, hn, rest⟩ := ih (Nat.le_of_lt hm) hold
        exact ⟨n, Nat.lt_succ_of_lt hn, rest⟩
      | none =>
        rw [hold, Option.none_or] at hfound
        split at hfound
        · next hkey =>
          cases hfound
          exact ⟨m, Nat.lt_succ_self m, cmd, view, _, hcommit, hkey, rfl, t, ht, rfl⟩
        · cases hfound
  · rintro ⟨n, hn, cmd, view, now, hcommit, rfl, rfl, t, ht, rfl⟩
    obtain ⟨t', ws, activityId, ht', hmut, hsucc⟩ := h.mutation hcommit
    cases ht.symm.trans ht'
    refine h.preserves
      (P := fun db => db.command? cmd.key = some (cmd.receipt view t.startedAt)) hn ?_
      fun db t' cmd' ws' activityId' view' _ _ hfound => Db.command?_putAll_of_some hfound
    rw [hsucc, hmut.command?_eq, hmut.unseen]
    simp

/-! ### Later configurations -/

/-- What changes between two moments of a run: commits, decisions and statements
are added, and the statements see at least what was committed. -/
structure Grown (srv srv' : Server) : Prop where
  log : srv.log <+: srv'.log
  decisions : srv.decisions <+: srv'.decisions
  trace : ∃ new, srv'.trace = srv.trace ++ new ∧ ∀ e ∈ new, srv.log.length ≤ e.seen

omit [Backend] in
theorem Grown.refl (srv : Server) : Grown srv srv :=
  ⟨List.prefix_refl _, List.prefix_refl _, [], by simp, fun e he => by cases he⟩

omit [Backend] in
theorem Grown.trans {a b d : Server} (h : Grown a b) (h' : Grown b d) : Grown a d := by
  obtain ⟨new, htrace, hseen⟩ := h.trace
  obtain ⟨new', htrace', hseen'⟩ := h'.trace
  refine ⟨h.log.trans h'.log, h.decisions.trans h'.decisions, new ++ new', ?_, ?_⟩
  · rw [htrace', htrace, List.append_assoc]
  · refine List.forall_mem_append.mpr ⟨hseen, fun e he => ?_⟩
    exact Nat.le_trans h.log.length_le (hseen' e he)

theorem Server.Moved.decisions {srv srv' : Server} {i : Session Op} {s : Stmt}
    (h : srv.Moved i s srv') : srv.decisions <+: srv'.decisions := by
  cases h with
  | decided => exact List.prefix_append _ _
  | _ => exact List.prefix_refl _

/-- A statement leaves the clock as it is. -/
theorem Server.Moved.clock {srv srv' : Server} {i : Session Op} {s : Stmt}
    (h : srv.Moved i s srv') : srv'.clock = srv.clock := by
  cases h <;> rfl

theorem Server.exec_grown {srv srv' : Server} {i : Session Op} {s : Stmt} {f : Fate} {r : s.Reply}
    (h : srv.exec i s f = some (srv', r)) : Grown srv srv' := by
  obtain ⟨srv₁, hmoved, rfl⟩ := Server.exec_moved h
  refine ⟨hmoved.log, hmoved.decisions, [⟨i, s, f, srv.log.length⟩], ?_, ?_⟩
  · show srv₁.trace ++ _ = _
    rw [hmoved.trace]
  · intro e he
    rw [List.mem_singleton.mp he]

/-- The configuration `c'` comes after `c` in the same run, and `c` is itself reachable. -/
structure Later (c c' : Config) : Prop where
  before : Reachable c
  reaches : Machine.Reaches c c'

namespace Later

variable {c' : Config}

theorem reachable (h : Later c c') : Reachable c' := h.before.trans h.reaches

theorem grown (h : Later c c') : Grown c.shared c'.shared := by
  -- Rollbacks and the clock add nothing.
  have hrelease : ∀ (i : Session Op) (srv : Server), Grown srv (srv.endTx i) := fun _ _ =>
    ⟨List.prefix_refl _, List.prefix_refl _, [], (List.append_nil _).symm, fun e he => by cases he⟩
  have hmove : ∀ (ticks : ℕ) (srv : Server), Grown srv { srv with clock := srv.clock + ticks } :=
    fun _ _ => ⟨List.prefix_refl _, List.prefix_refl _, [], (List.append_nil _).symm,
      fun e he => by cases he⟩
  exact h.reaches.shared (L := Grown) Grown.refl Grown.trans Server.exec_grown hrelease hmove

theorem asOf (h : Later c c') {n : ℕ} (hn : n ≤ c.shared.log.length) :
    c'.shared.asOf n = c.shared.asOf n := Server.asOf_of_le h.grown.log hn

theorem log (h : Later c c') {n : ℕ} {t : Tx} (hn : c.shared.log[n]? = some t) :
    c'.shared.log[n]? = some t := by
  obtain ⟨more, hmore⟩ := h.grown.log
  rw [← hmore, List.getElem?_append_left (List.getElem?_eq_some_iff.mp hn).1]
  exact hn

/-- What has been committed stays committed, in its place and with its view. -/
theorem commit (h : Later c c') {n : ℕ} {cmd : Command} {view : HoldView}
    (hc : c.shared.Commit n cmd view) : c'.shared.Commit n cmd view := by
  have hlt := Server.commit_lt hc
  obtain ⟨t, hn, hcmd, hview⟩ := hc
  refine ⟨t, h.log hn, hcmd, ?_⟩
  rw [h.asOf hlt]
  exact hview

end Later

/-! ### Who the sessions are -/

/-- The session is one of those that the run has started, with the operation it was started
for. -/
def Config.Known (c : Config) (i : Session Op) : Prop :=
  ∃ p, c.procs[i.id]? = some p ∧ p.op = i.op

theorem Config.Known.mem_ops {i : Session Op} (h : Config.Known c i) :
    i.op ∈ c.procs.map (·.op) := by
  obtain ⟨p, hp, hop⟩ := h
  rw [← hop]
  exact List.mem_map_of_mem (List.mem_of_getElem? hp)

/-- Every transaction and every statement on record belongs to a session that the run has
started. -/
structure Owned (c : Config) : Prop where
  tx : ∀ t ∈ c.shared.txs, Config.Known c t.owner
  log : ∀ t ∈ c.shared.log, Config.Known c t.owner
  trace : ∀ e ∈ c.shared.trace, Config.Known c e.session

/-- A statement brings in no session but its own. -/
theorem Server.Moved.owners {srv srv' : Server} {i : Session Op} {s : Stmt}
    (h : srv.Moved i s srv') :
    (∀ t ∈ srv'.txs, t.owner = i ∨ ∃ t₀ ∈ srv.txs, t.owner = t₀.owner) ∧
      ∀ t ∈ srv'.log, t ∈ srv.log ∨ ∃ t₀ ∈ srv.txs, t.owner = t₀.owner := by
  cases h with
  | same => exact ⟨fun t ht => .inr ⟨t, ht, rfl⟩, fun t ht => .inl ht⟩
  | begun idle =>
    refine ⟨fun t ht => ?_, fun t ht => .inl ht⟩
    rcases List.mem_cons.mp ht with rfl | ht
    · exact .inl rfl
    · exact .inr ⟨t, ht, rfl⟩
  | committed tx =>
    refine ⟨fun t ht => .inr ⟨t, (Server.mem_endTx ht).1, rfl⟩, fun t ht => ?_⟩
    simp only [Server.commitTx] at ht
    split at ht
    · exact .inl ht
    · rcases List.mem_append.mp ht with ht | ht
      · exact .inl ht
      · rw [List.mem_singleton.mp ht]
        exact .inr ⟨_, (Server.tx?_mem tx).1, rfl⟩
  | applied tx free =>
    refine ⟨fun t ht => ?_, fun t ht => .inl ht⟩
    rcases Server.mem_setTx ht with rfl | ⟨ht, -⟩
    · exact .inr ⟨_, (Server.tx?_mem tx).1, rfl⟩
    · exact .inr ⟨t, ht, rfl⟩
  | decided => exact ⟨fun t ht => .inr ⟨t, ht, rfl⟩, fun t ht => .inl ht⟩

theorem Server.exec_owners {srv srv' : Server} {i : Session Op} {s : Stmt} {f : Fate}
    {r : s.Reply} (h : srv.exec i s f = some (srv', r)) :
    (∀ t ∈ srv'.txs, t.owner = i ∨ ∃ t₀ ∈ srv.txs, t.owner = t₀.owner) ∧
      (∀ t ∈ srv'.log, t ∈ srv.log ∨ ∃ t₀ ∈ srv.txs, t.owner = t₀.owner) ∧
      ∀ e ∈ srv'.trace, e ∈ srv.trace ∨ e.session = i := by
  obtain ⟨srv₁, hmoved, rfl⟩ := Server.exec_moved h
  obtain ⟨htxs, hlog⟩ := hmoved.owners
  refine ⟨htxs, hlog, fun e he => ?_⟩
  rcases List.mem_append.mp he with he | he
  · exact .inl (hmoved.trace ▸ he)
  · exact .inr (by rw [List.mem_singleton.mp he])

theorem Config.Known.later {c' : Config} {i : Session Op} (h : Config.Known c i)
    (hr : Machine.Reaches c c') : Config.Known c' i := by
  obtain ⟨p, hp, hop⟩ := h
  obtain ⟨p', hp', hop'⟩ := hr.op hp
  exact ⟨p', hp', hop'.trans hop⟩

/-- **Only sessions of the run have transactions, commits and statements.** -/
theorem Reachable.owned (h : Reachable c) : Owned c := by
  have hinitial : Owned initial :=
    ⟨fun t ht => absurd ht List.not_mem_nil, fun t ht => absurd ht List.not_mem_nil,
      fun e he => absurd he List.not_mem_nil⟩
  refine h.induction (P := Owned) hinitial ?_
  intro c₁ l c₂ _ ih hstep
  have hlater : ∀ {i}, Config.Known c₁ i → Config.Known c₂ i := fun hi =>
    hi.later (Machine.Reaches.of_step hstep)
  obtain ⟨op, rfl⟩ | ⟨i, f, op, s, k, st, r, hp, he, rfl⟩ | ⟨i, p, hp, hc⟩ | ⟨m, rfl⟩ :=
    Machine.step_cases hstep
  · exact ⟨fun t ht => hlater (ih.tx t ht), fun t ht => hlater (ih.log t ht),
      fun e he => hlater (ih.trace e he)⟩
  -- Whatever a statement adds belongs to the session that has made it.
  · obtain ⟨htxs, hlog, htrace⟩ := Server.exec_owners he
    have hself : Config.Known c₁ ⟨i, op⟩ := ⟨_, hp, rfl⟩
    refine ⟨fun t ht => ?_, fun t ht => ?_, fun e he => ?_⟩
    · rcases htxs t ht with heq | ⟨t₀, ht₀, heq⟩
      · exact heq ▸ hlater hself
      · exact heq ▸ hlater (ih.tx t₀ ht₀)
    · rcases hlog t ht with ht | ⟨t₀, ht₀, heq⟩
      · exact hlater (ih.log t ht)
      · exact heq ▸ hlater (ih.tx t₀ ht₀)
    · rcases htrace e he with he | heq
      · exact hlater (ih.trace e he)
      · exact heq ▸ hlater hself
  · have hshared : c₂.shared = c₁.shared.endTx ⟨i, p.op⟩ := by
      rcases hc with ⟨-, rfl⟩ | ⟨-, rfl⟩ <;> rfl
    refine ⟨fun t ht => ?_, fun t ht => ?_, fun e he => ?_⟩
    · rw [hshared] at ht
      exact hlater (ih.tx t (Server.mem_endTx ht).1)
    · rw [hshared] at ht
      exact hlater (ih.log t ht)
    · rw [hshared] at he
      exact hlater (ih.trace e he)
  · exact ⟨fun t ht => hlater (ih.tx t ht), fun t ht => hlater (ih.log t ht),
      fun e he => hlater (ih.trace e he)⟩

/-- A session that starts after `c` sees all that `c` has committed. -/
theorem Later.seen {c' : Config} (h : Later c c') {i : Session Op} (hi : c.procs.length ≤ i.id)
    {e : Event} (he : e ∈ c'.shared.eventsOf i) : c.shared.log.length ≤ e.seen := by
  obtain ⟨new, htrace, hseen⟩ := h.grown.trace
  obtain ⟨hmem, hid⟩ := List.mem_filter.mp he
  rw [htrace] at hmem
  rcases List.mem_append.mp hmem with hmem | hmem
  -- An older statement is of a session with a smaller number.
  · obtain ⟨p, hp, -⟩ := h.before.owned.trace e hmem
    have hid : e.session.id = i.id := by simpa using hid
    have hlt := (List.getElem?_eq_some_iff.mp hp).1
    omega
  · exact hseen e hmem

/-- A session is known by its number: two sessions of a run with one number are the same. -/
theorem Config.Known.eq {i j : Session Op} (hi : Config.Known c i) (hj : Config.Known c j)
    (hid : i.id = j.id) : i = j := by
  obtain ⟨p, hp, hop⟩ := hi
  obtain ⟨q, hq, hop'⟩ := hj
  rw [hid] at hp
  cases hp.symm.trans hq
  obtain ⟨id, op⟩ := i
  obtain ⟨id', op'⟩ := j
  simp only at hid hop hop'
  rw [hid, ← hop, ← hop']

/-- A commit is carried out by a session of the run. -/
theorem Reachable.owner_eq (h : Reachable c) {i : Session Op} (hi : Config.Known c i) {n : ℕ}
    {t : Tx} (hn : c.shared.log[n]? = some t) (hid : t.owner.id = i.id) : t.owner = i :=
  (h.owned.log t (List.mem_of_getElem? hn)).eq hi hid

/-- A statement of the trace that has the number of a known session is a statement of that
session. -/
theorem Reachable.session_eq (h : Reachable c) {i : Session Op} (hi : Config.Known c i)
    {e : Event} (he : e ∈ c.shared.eventsOf i) : e.session = i := by
  obtain ⟨hmem, hid⟩ := List.mem_filter.mp he
  exact (h.owned.trace e hmem).eq hi (by simpa using hid)

/-! ### Changes of the tables -/

/-- Only the commit of a transaction changes the tables. -/
theorem Server.Moved.db {srv srv' : Server} {i : Session Op} {s : Stmt} (h : srv.Moved i s srv') :
    srv'.db = srv.db ∨ ∃ t ∈ srv.txs, t.owner.id = i.id ∧ srv'.log = srv.log ++ [t] := by
  cases h with
  | @committed t tx =>
    by_cases hw : t.writes = []
    · refine .inl ?_
      simp [Server.commitTx, hw]
    · refine .inr ⟨t, (Server.tx?_mem tx).1, (Server.tx?_mem tx).2, ?_⟩
      simp [Server.commitTx, hw]
  | _ => exact .inl rfl

theorem Server.exec_db {srv srv' : Server} {i : Session Op} {s : Stmt} {f : Fate} {r : s.Reply}
    (h : srv.exec i s f = some (srv', r)) :
    srv'.db = srv.db ∨ ∃ t ∈ srv.txs, t.owner.id = i.id ∧ srv'.log = srv.log ++ [t] := by
  obtain ⟨srv₁, hmoved, rfl⟩ := Server.exec_moved h
  exact hmoved.db

/-- Session `i` has changed the committed tables by one of its steps on the way to `c`. -/
def Changed (c : Config) (i : Session Op) : Prop :=
  ∃ c₁ f c₂, Reachable c₁ ∧ Machine.step c₁ (.step i.id f) = some c₂ ∧
    c₂.shared.db ≠ c₁.shared.db ∧ Machine.Reaches c₂ c

/-- **Who has changed the tables has a commit.** -/
theorem Changed.commit {i : Session Op} (h : Changed c i) (hi : Config.Known c i) :
    ∃ (n : ℕ) (t : Tx), c.shared.log[n]? = some t ∧ t.owner = i := by
  obtain ⟨c₁, f, c₂, hc₁, hstep, hdb, hr⟩ := h
  have hlater : Later c₂ c := ⟨hc₁.trans (Machine.Reaches.of_step hstep), hr⟩
  simp only [Machine.step] at hstep
  split at hstep
  · next op s k hp =>
    obtain ⟨⟨srv, r⟩, he, rfl⟩ := Option.map_eq_some_iff.mp hstep
    rcases Server.exec_db he with heq | ⟨t, -, hid, hlog⟩
    · exact absurd heq hdb
    · have hn : srv.log[c₁.shared.log.length]? = some t := by simp [hlog]
      have hn' := hlater.log hn
      exact ⟨_, t, hn', hlater.reachable.owner_eq hi hn' hid⟩
  · cases hstep

/-! ### What mutating sessions have returned -/

/-- A session that has returned is one of the run. -/
theorem Config.known_of_returned {i : Session Op} {r : Except StorageError Answer}
    (h : Returned c i.id i.op r) : Config.Known c i := ⟨_, h, rfl⟩

/-- **A mutating session that has returned has its outcome.** -/
theorem Reachable.outcome (h : Reachable c) {i : Session Op} {cmd : Command}
    {r : Except StorageError Answer} (hr : Returned c i.id i.op r)
    (hcmd : i.op.command? = some cmd) :
    ∃ r', r = r'.map Answer.hold ∧ Outcome i cmd c.shared r' := by
  have hpost := returned_post h hr
  obtain ⟨id, op⟩ := i
  unfold Post at hpost
  cases op <;> cases hcmd <;> exact hpost

/-- **What is returned is the view of a commit.** -/
theorem Reachable.ok (h : Reachable c) {i : Session Op} {cmd : Command} {view : HoldView}
    (hr : Returned c i.id i.op (.ok (.hold view))) (hcmd : i.op.command? = some cmd) :
    ∃ n cmd₀, c.shared.Commit n cmd₀ view ∧ cmd₀.key = cmd.key ∧
      cmd₀.requestHash = cmd.requestHash := by
  obtain ⟨r', heq, hout⟩ := h.outcome hr hcmd
  cases r' with
  | error e => cases heq
  | ok view' =>
    cases heq
    generalize hout' : (Except.ok view : Except StorageError HoldView) = out at hout
    cases hout with
    -- The stored value decodes to the view that was encoded.
    | @replayed e row looked found same =>
      have hseen := h.inv.seen_le (Server.receiptRead_mem looked.read).1
      obtain ⟨n, -, cmd₀, view₀, now, hcommit, hkey, rfl, -⟩ := (h.command?_iff hseen).mp found
      have hview : HoldView.fromValue (cmd₀.receipt view₀ now).response = .ok view₀ :=
        HoldView.fromValue_toValue view₀
      rw [hview] at hout'
      cases hout'
      exact ⟨n, cmd₀, hcommit, hkey, same⟩
    | @committed e looked unseen untaken n t ws activityId view' logged owner mutation =>
      cases hout'
      refine ⟨n, cmd, ⟨t, logged, mutation.command, ?_⟩, rfl, rfl⟩
      rw [Server.asOf_succ logged]
      exact mutation.view
    | _ => cases hout'

end

end LegalHold
