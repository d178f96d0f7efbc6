import LegalHold.Commits

/-!
# When things are said to have happened

Every time that is stored is the time at which its transaction began, while the order of what
happened is the order of the commits.  A transaction that begins early and gets its lock late
puts an earlier time after a later one.  That is the only way for it to happen: for any two
times that are stored for a hold, it is enough that the two transactions that have stored them
began in the order of their commits, whatever the others did.

## Main definitions

* `Server.BeginsBefore` — one session began its transaction before another.
* `Db.Chronological` — the times stored for a hold are in order.
* `Server.StoredInTurn` — two times were stored by mutations committed in this order.
* `Server.TimedAsBegun` — any two times of a hold are in order if their transactions began so.

## Main results

* `Server.Clocked.startedAt_le` — who begins first has the smaller time.
* `Reachable.timeline` — every time of a hold was stored by one of its mutations, in their order.
* `timed_as_begun` — **the times of a hold are ordered as its transactions began**, pair by pair.
-/

namespace LegalHold

open Interleave Timeline

section

variable [Backend] {c : Config}

/-! ### When transactions began -/

/-- Every `BEGIN` of session `i` comes before every `BEGIN` of session `j`. -/
def Server.BeginsBefore (srv : Server) (i j : Session Op) : Prop :=
  ∀ (k k' : ℕ) (e e' : Event), srv.trace[k]? = some e → srv.trace[k']? = some e' →
    e.session = i → e'.session = j → e.stmt = .begin → e'.stmt = .begin → k < k'

/-- The statements with the times at which they ran: transactions began at one of them. -/
structure Server.Clocked (srv : Server) (stamped : List (Event × Time)) : Prop where
  trace : stamped.map Prod.fst = srv.trace
  sorted : stamped.Pairwise fun a b => a.2 ≤ b.2
  past : ∀ entry ∈ stamped, entry.2 ≤ srv.clock
  began : ∀ t, t ∈ srv.txs ∨ t ∈ srv.log →
    ∃ e, (e, t.startedAt) ∈ stamped ∧ e.session = t.owner ∧ e.stmt = .begin

/-- A transaction after a statement is one of those before it, or it begins. -/
theorem Server.Moved.began {srv srv' : Server} {i : Session Op} {s : Stmt}
    (h : srv.Moved i s srv') : ∀ t, t ∈ srv'.txs ∨ t ∈ srv'.log →
      (∃ t₀, (t₀ ∈ srv.txs ∨ t₀ ∈ srv.log) ∧ t.owner = t₀.owner ∧ t.startedAt = t₀.startedAt) ∨
        s = .begin ∧ t.owner = i ∧ t.startedAt = srv.clock := by
  intro t ht
  cases h with
  | same => exact .inl ⟨t, ht, rfl, rfl⟩
  | begun idle =>
    rcases ht with ht | ht
    · rcases List.mem_cons.mp ht with rfl | ht
      · exact .inr ⟨rfl, rfl, rfl⟩
      · exact .inl ⟨t, .inl ht, rfl, rfl⟩
    · exact .inl ⟨t, .inr ht, rfl, rfl⟩
  -- The transaction that commits was an open one, unless it has written nothing.
  | committed tx =>
    rcases ht with ht | ht
    · exact .inl ⟨t, .inl (Server.mem_endTx ht).1, rfl, rfl⟩
    · simp only [Server.commitTx] at ht
      split at ht
      · exact .inl ⟨t, .inr ht, rfl, rfl⟩
      · rcases List.mem_append.mp ht with ht | ht
        · exact .inl ⟨t, .inr ht, rfl, rfl⟩
        · rw [List.mem_singleton.mp ht]
          exact .inl ⟨_, .inl (Server.tx?_mem tx).1, rfl, rfl⟩
  | applied tx free =>
    rcases ht with ht | ht
    · rcases Server.mem_setTx ht with rfl | ⟨ht, -⟩
      · exact .inl ⟨_, .inl (Server.tx?_mem tx).1, rfl, rfl⟩
      · exact .inl ⟨t, .inl ht, rfl, rfl⟩
    · exact .inl ⟨t, .inr ht, rfl, rfl⟩
  | decided => exact .inl ⟨t, ht, rfl, rfl⟩

namespace Server.Clocked

variable {srv srv' : Server} {stamped : List (Event × Time)}

/-- A statement runs at the time of the clock. -/
theorem exec (h : srv.Clocked stamped) {i : Session Op} {s : Stmt} {f : Fate} {r : s.Reply}
    (he : srv.exec i s f = some (srv', r)) :
    srv'.Clocked (stamped ++ [(⟨i, s, f, srv.log.length⟩, srv.clock)]) := by
  obtain ⟨srv₁, hmoved, rfl⟩ := Server.exec_moved he
  refine ⟨?_, ?_, ?_, ?_⟩
  · rw [List.map_append, h.trace, ← hmoved.trace]
    rfl
  · refine List.pairwise_append.mpr ⟨h.sorted, List.pairwise_singleton _ _, ?_⟩
    intro a ha b hb
    rw [List.mem_singleton.mp hb]
    exact h.past a ha
  · intro entry hentry
    show entry.2 ≤ srv₁.clock
    rw [hmoved.clock]
    rcases List.mem_append.mp hentry with hentry | hentry
    · exact h.past entry hentry
    · rw [List.mem_singleton.mp hentry]
  · intro t ht
    rcases hmoved.began t ht with ⟨t₀, ht₀, howner, hstarted⟩ | ⟨rfl, howner, hstarted⟩
    · obtain ⟨e, hmem, hsession, hbegin⟩ := h.began t₀ ht₀
      rw [howner, hstarted]
      exact ⟨e, List.mem_append_left _ hmem, hsession, hbegin⟩
    · rw [howner, hstarted]
      exact ⟨_, List.mem_append_right _ List.mem_cons_self, rfl, rfl⟩

omit [Backend] in
theorem endTx (h : srv.Clocked stamped) (i : Session Op) : (srv.endTx i).Clocked stamped := by
  refine ⟨h.trace, h.sorted, h.past, ?_⟩
  rintro t (ht | ht)
  · exact h.began t (.inl (Server.mem_endTx ht).1)
  · exact h.began t (.inr ht)

omit [Backend] in
/-- The clock does not go back, so that all statements stay in the past. -/
theorem move (h : srv.Clocked stamped) (ticks : ℕ) :
    Server.Clocked { srv with clock := srv.clock + ticks } stamped := by
  refine ⟨h.trace, h.sorted, ?_, h.began⟩
  intro entry hentry
  exact Nat.le_trans (h.past entry hentry) (Nat.le_add_right _ _)

omit [Backend] in
/-- **Who begins first has the smaller time**: of two committed transactions the one that began
before the other has not the later time. -/
theorem startedAt_le (h : srv.Clocked stamped) {t t' : Tx} (ht : t ∈ srv.log) (ht' : t' ∈ srv.log)
    (hbegins : srv.BeginsBefore t.owner t'.owner) : t.startedAt ≤ t'.startedAt := by
  obtain ⟨e, hmem, hsession, hbegin⟩ := h.began t (.inr ht)
  obtain ⟨e', hmem', hsession', hbegin'⟩ := h.began t' (.inr ht')
  obtain ⟨k, hk⟩ := List.getElem?_of_mem hmem
  obtain ⟨k', hk'⟩ := List.getElem?_of_mem hmem'
  have htrace : ∀ {n : ℕ} {entry : Event × Time}, stamped[n]? = some entry →
      srv.trace[n]? = some entry.1 := by
    intro n entry hn
    rw [← h.trace, List.getElem?_map, hn]
    rfl
  have hlt := hbegins k k' e e' (htrace hk) (htrace hk') hsession hsession' hbegin hbegin'
  obtain ⟨hbound, heq⟩ := List.getElem?_eq_some_iff.mp hk
  obtain ⟨hbound', heq'⟩ := List.getElem?_eq_some_iff.mp hk'
  have hle := List.pairwise_iff_getElem.mp h.sorted k k' hbound hbound' hlt
  rw [heq, heq'] at hle
  exact hle

end Server.Clocked

/-- **In every run transactions began at the time of one of its statements.** -/
theorem Reachable.clocked (h : Reachable c) : ∃ stamped, c.shared.Clocked stamped := by
  refine h.induction (P := fun c => ∃ stamped, Server.Clocked c.shared stamped) ?_ ?_
  · refine ⟨[], rfl, List.Pairwise.nil, fun entry hentry => absurd hentry List.not_mem_nil, ?_⟩
    rintro t (ht | ht) <;> cases ht
  · rintro c₁ l c₂ _ ⟨stamped, ih⟩ hstep
    obtain ⟨op, rfl⟩ | ⟨i, f, op, s, k, st, r, hp, he, rfl⟩ | ⟨i, p, hp, hc⟩ | ⟨m, rfl⟩ :=
      Machine.step_cases hstep
    · exact ⟨stamped, ih⟩
    · exact ⟨_, ih.exec he⟩
    · rcases hc with ⟨-, rfl⟩ | ⟨-, rfl⟩ <;> exact ⟨stamped, ih.endTx _⟩
    · exact ⟨stamped, ih.move m⟩

/-! ### The times of a hold -/

/-- The times that are stored for a hold are in order: its activity in the order of the ids, its
scopes after its creation, and its release after both. -/
structure Db.Chronological (db : Db) (hold : String) : Prop where
  activity : (db.activityOf hold).Pairwise fun a b =>
    a.activityId < b.activityId ∧ a.createdAt ≤ b.createdAt
  scopes : ∀ row, db.hold? hold = some row → ∀ s ∈ db.scopesOf hold, row.createdAt ≤ s.createdAt
  released : ∀ row, db.hold? hold = some row → ∀ time ∈ row.releasedAt,
    row.createdAt ≤ time ∧ ∀ s ∈ db.scopesOf hold, s.createdAt ≤ time

/-- Two mutations of the hold are committed in this order. -/
def Server.CommitsBefore (srv : Server) (hold : String) (t t' : Tx) : Prop :=
  ∃ (n m : ℕ) (cmd cmd' : Command), n < m ∧ srv.log[n]? = some t ∧ srv.log[m]? = some t' ∧
    t.owner.op.command? = some cmd ∧ t'.owner.op.command? = some cmd' ∧
    cmd.holdId = hold ∧ cmd'.holdId = hold

/-- The transaction has inserted the row of the hold. -/
def Tx.Creates (hold : String) (t : Tx) : Prop :=
  ∃ row, .insertHold row ∈ t.writes ∧ row.holdId = hold

/-- The transaction has marked the hold as released at this time. -/
def Tx.Releases (hold : String) (time : Time) (t : Tx) : Prop :=
  ∃ row, .updateHold row ∈ t.writes ∧ row.holdId = hold ∧ row.releasedAt = some time

/-- Two times of a hold were stored by two mutations of it that were committed in this order,
each being the time at which its transaction began. -/
def Server.StoredInTurn (srv : Server) (hold : String) (stores stores' : Tx → Prop)
    (time time' : Time) : Prop :=
  ∃ t t', srv.CommitsBefore hold t t' ∧ stores t ∧ stores' t' ∧ t.startedAt = time ∧
    t'.startedAt = time'

/-- Two times of a hold were stored by two mutations of it that were committed in this order, and
they are in order if the first of the two transactions began before the second. -/
def Server.OrderedAsBegun (srv : Server) (hold : String) (stores stores' : Tx → Prop)
    (time time' : Time) : Prop :=
  ∃ t t', srv.CommitsBefore hold t t' ∧ stores t ∧ stores' t' ∧
    (srv.BeginsBefore t.owner t'.owner → time ≤ time')

/-- Any two times that are stored for a hold are in order if the transactions that have stored
them began in order. -/
structure Server.TimedAsBegun (srv : Server) (hold : String) : Prop where
  activity : (srv.db.activityOf hold).Pairwise fun a b => a.activityId < b.activityId ∧
    srv.OrderedAsBegun hold (.insertActivity a ∈ ·.writes) (.insertActivity b ∈ ·.writes)
      a.createdAt b.createdAt
  scopes : ∀ row, srv.db.hold? hold = some row → ∀ s ∈ srv.db.scopesOf hold,
    srv.OrderedAsBegun hold (Tx.Creates hold) (.insertScope s ∈ ·.writes) row.createdAt s.createdAt
  released : ∀ row, srv.db.hold? hold = some row → ∀ time ∈ row.releasedAt,
    srv.OrderedAsBegun hold (Tx.Creates hold) (Tx.Releases hold time) row.createdAt time ∧
      ∀ s ∈ srv.db.scopesOf hold,
        srv.OrderedAsBegun hold (.insertScope s ∈ ·.writes) (Tx.Releases hold time) s.createdAt time

/-- One of the first `m` commits is a mutation of the hold that has stored this time, at which
its transaction began. -/
def Server.StoredBy (srv : Server) (hold : String) (m : ℕ) (stores : Tx → Prop) (time : Time) :
    Prop :=
  ∃ (n : ℕ) (t : Tx) (cmd : Command), n < m ∧ srv.log[n]? = some t ∧
    t.owner.op.command? = some cmd ∧ cmd.holdId = hold ∧ stores t ∧ t.startedAt = time

section

variable {srv : Server} {hold : String} {stores stores' : Tx → Prop} {time time' : Time} {m : ℕ}

omit [Backend] in
/-- What one of the first commits has stored, it has stored when there are more of them. -/
theorem Server.StoredBy.mono {k : ℕ} (h : srv.StoredBy hold m stores time) (hmk : m ≤ k) :
    srv.StoredBy hold k stores time := by
  obtain ⟨n, t, cmd, hn, hrest⟩ := h
  exact ⟨n, t, cmd, by omega, hrest⟩

omit [Backend] in
/-- What the next commit stores comes after what those before it have stored. -/
theorem Server.StoredBy.inTurn (h : srv.StoredBy hold m stores time) {t : Tx} {cmd : Command}
    (hm : srv.log[m]? = some t) (hcmd : t.owner.op.command? = some cmd) (hhold : cmd.holdId = hold)
    (hstores : stores' t) : srv.StoredInTurn hold stores stores' time t.startedAt := by
  obtain ⟨n, t₀, cmd₀, hn, hlog, hcmd₀, hhold₀, hstores₀, htime⟩ := h
  exact ⟨t₀, t, ⟨n, m, cmd₀, cmd, hn, hlog, hm, hcmd₀, hcmd, hhold₀, hhold⟩, hstores₀, hstores,
    htime, rfl⟩

omit [Backend] in
/-- Times of transactions that began one after the other are in order. -/
theorem Server.Clocked.ordered {stamped : List (Event × Time)} (h : srv.Clocked stamped)
    (hstored : srv.StoredInTurn hold stores stores' time time') :
    srv.OrderedAsBegun hold stores stores' time time' := by
  obtain ⟨t, t', hcommits, hstores, hstores', rfl, rfl⟩ := hstored
  refine ⟨t, t', hcommits, hstores, hstores', fun hbegins => ?_⟩
  obtain ⟨n, m, cmd, cmd', -, hn, hm, -⟩ := hcommits
  exact h.startedAt_le (List.mem_of_getElem? hn) (List.mem_of_getElem? hm) hbegins

end

/-- Where the times in the rows of a hold come from, after the first `m` commits. -/
structure Server.Timeline (srv : Server) (hold : String) (m : ℕ) (db : Db) : Prop where
  reported : ∀ a ∈ db.activityOf hold,
    srv.StoredBy hold m (.insertActivity a ∈ ·.writes) a.createdAt
  activity : (db.activityOf hold).Pairwise fun a b =>
    srv.StoredInTurn hold (.insertActivity a ∈ ·.writes) (.insertActivity b ∈ ·.writes)
      a.createdAt b.createdAt
  created : ∀ row, db.hold? hold = some row → srv.StoredBy hold m (Tx.Creates hold) row.createdAt
  added : ∀ s ∈ db.scopesOf hold, srv.StoredBy hold m (.insertScope s ∈ ·.writes) s.createdAt
  scopes : ∀ row, db.hold? hold = some row → ∀ s ∈ db.scopesOf hold,
    srv.StoredInTurn hold (Tx.Creates hold) (.insertScope s ∈ ·.writes) row.createdAt s.createdAt
  unreleased : ∀ row, db.hold? hold = some row → row.status = .active → row.releasedAt = none
  released : ∀ row, db.hold? hold = some row → ∀ time ∈ row.releasedAt,
    srv.StoredInTurn hold (Tx.Creates hold) (Tx.Releases hold time) row.createdAt time ∧
      ∀ s ∈ db.scopesOf hold,
        srv.StoredInTurn hold (.insertScope s ∈ ·.writes) (Tx.Releases hold time) s.createdAt time

omit [Backend] in
/-- What a mutation of the hold does to its hold row and its scopes, as to their times. -/
theorem Server.Timeline.changed {srv : Server} {hold : String} {m : ℕ} {db : Db} {t : Tx}
    {cmd : Command} {ws : List Write} (h : srv.Timeline hold m db)
    (horphan : db.hold? hold = none → db.scopesOf hold = []) (hm : srv.log[m]? = some t)
    (hcmd : t.owner.op.command? = some cmd) (hhold : cmd.holdId = hold)
    (hws : ∀ w ∈ ws, w ∈ t.writes) (hchanged : Changes db cmd t.startedAt ws) :
    (∀ row, (db.putAll ws).hold? hold = some row →
      srv.StoredBy hold (m + 1) (Tx.Creates hold) row.createdAt) ∧
    (∀ s ∈ (db.putAll ws).scopesOf hold,
      srv.StoredBy hold (m + 1) (.insertScope s ∈ ·.writes) s.createdAt) ∧
    (∀ row, (db.putAll ws).hold? hold = some row → ∀ s ∈ (db.putAll ws).scopesOf hold,
      srv.StoredInTurn hold (Tx.Creates hold) (.insertScope s ∈ ·.writes) row.createdAt
        s.createdAt) ∧
    (∀ row, (db.putAll ws).hold? hold = some row → row.status = .active →
      row.releasedAt = none) ∧
    ∀ row, (db.putAll ws).hold? hold = some row → ∀ time ∈ row.releasedAt,
      srv.StoredInTurn hold (Tx.Creates hold) (Tx.Releases hold time) row.createdAt time ∧
        ∀ s ∈ (db.putAll ws).scopesOf hold, srv.StoredInTurn hold (.insertScope s ∈ ·.writes)
          (Tx.Releases hold time) s.createdAt time := by
  subst hhold
  have hnow : ∀ {stores : Tx → Prop}, stores t →
      srv.StoredBy cmd.holdId (m + 1) stores t.startedAt :=
    fun hstores => ⟨m, t, cmd, by omega, hm, hcmd, rfl, hstores, rfl⟩
  have hadded : ∀ s ∈ db.scopesOf cmd.holdId,
      srv.StoredBy cmd.holdId (m + 1) (.insertScope s ∈ ·.writes) s.createdAt :=
    fun s hs => (h.added s hs).mono (by omega)
  cases hchanged with
  | @create title reason legalAuthority change absent =>
    have hcreates : t.Creates cmd.holdId := ⟨_, hws _ List.mem_cons_self, rfl⟩
    have hnew : (db.putAll [.insertHold (createdRow cmd.holdId cmd.organizationId title reason
        legalAuthority cmd.actor t.startedAt)]).hold? cmd.holdId = some (createdRow cmd.holdId
        cmd.organizationId title reason legalAuthority cmd.actor t.startedAt) := by
      simp [absent, createdRow]
    have hnone : (db.putAll [.insertHold (createdRow cmd.holdId cmd.organizationId title reason
        legalAuthority cmd.actor t.startedAt)]).scopesOf cmd.holdId = [] := horphan absent
    rw [hnew, hnone]
    refine ⟨?_, fun s hs => (List.not_mem_nil hs).elim,
      fun row _ s hs => (List.not_mem_nil hs).elim, ?_, ?_⟩
    · rintro row ⟨⟩
      exact hnow hcreates
    · rintro row ⟨⟩ _
      rfl
    · rintro row ⟨⟩ time htime
      cases htime
  | @addScope scope revision scopeRowId old change opened absent drawn =>
    have hrow := Db.holdId_of_hold? opened.found
    have hopen := h.unreleased old opened.found opened.active
    have hinserts : .insertScope ⟨scope, scopeRowId, cmd.holdId, cmd.actor, t.startedAt⟩ ∈
        t.writes := hws _ List.mem_cons_self
    have hnew : (db.putAll [.insertScope ⟨scope, scopeRowId, cmd.holdId, cmd.actor, t.startedAt⟩,
        .updateHold old.advanced]).hold? cmd.holdId = some old.advanced := by
      have hid : old.advanced.holdId = cmd.holdId := hrow
      simp [hid, opened.found]
    have hscopes : (db.putAll [.insertScope ⟨scope, scopeRowId, cmd.holdId, cmd.actor,
        t.startedAt⟩, .updateHold old.advanced]).scopesOf cmd.holdId =
          db.scopesOf cmd.holdId ++ [⟨scope, scopeRowId, cmd.holdId, cmd.actor, t.startedAt⟩] := by
      simp
    rw [hnew, hscopes]
    refine ⟨?_, ?_, ?_, ?_, ?_⟩
    · rintro row ⟨⟩
      exact (h.created old opened.found).mono (by omega)
    · intro s hs
      rcases List.mem_append.mp hs with hs | hs
      · exact hadded s hs
      · obtain rfl := List.mem_singleton.mp hs
        exact hnow hinserts
    · rintro row ⟨⟩ s hs
      rcases List.mem_append.mp hs with hs | hs
      · exact h.scopes old opened.found s hs
      -- The hold was there before the scope was put on it.
      · obtain rfl := List.mem_singleton.mp hs
        exact (h.created old opened.found).inTurn hm hcmd rfl hinserts
    · rintro row ⟨⟩ _
      exact hopen
    · rintro row ⟨⟩ time htime
      cases hopen.symm.trans htime
  | @removeScope scope revision old change opened present =>
    have hrow := Db.holdId_of_hold? opened.found
    have hopen := h.unreleased old opened.found opened.active
    have hnew : (db.putAll [.deleteScope cmd.holdId scope, .updateHold old.advanced]).hold?
        cmd.holdId = some old.advanced := by
      have hid : old.advanced.holdId = cmd.holdId := hrow
      simp [hid, opened.found]
    have hscopes : ∀ s ∈ (db.putAll [.deleteScope cmd.holdId scope,
        .updateHold old.advanced]).scopesOf cmd.holdId, s ∈ db.scopesOf cmd.holdId := by
      intro s hs
      simp only [Db.putAll_cons, Db.putAll_nil, Db.scopesOf_updateHold, Db.scopesOf_deleteScope,
        if_true] at hs
      exact (List.mem_filter.mp hs).1
    rw [hnew]
    refine ⟨?_, fun s hs => hadded s (hscopes s hs), ?_, ?_, ?_⟩
    · rintro row ⟨⟩
      exact (h.created old opened.found).mono (by omega)
    · rintro row ⟨⟩ s hs
      exact h.scopes old opened.found s (hscopes s hs)
    · rintro row ⟨⟩ _
      exact hopen
    · rintro row ⟨⟩ time htime
      cases hopen.symm.trans htime
  | @release reason revision old change opened =>
    have hrow := Db.holdId_of_hold? opened.found
    have hid : (old.released cmd.actor reason t.startedAt).holdId = cmd.holdId := hrow
    have hreleases : t.Releases cmd.holdId t.startedAt := ⟨_, hws _ List.mem_cons_self, hid, rfl⟩
    have hnew : (db.putAll [.updateHold (old.released cmd.actor reason t.startedAt)]).hold?
        cmd.holdId = some (old.released cmd.actor reason t.startedAt) := by
      simp [hid, opened.found]
    have hscopes : (db.putAll [.updateHold (old.released cmd.actor reason t.startedAt)]).scopesOf
        cmd.holdId = db.scopesOf cmd.holdId := rfl
    rw [hnew, hscopes]
    refine ⟨?_, hadded, ?_, ?_, ?_⟩
    · rintro row ⟨⟩
      exact (h.created old opened.found).mono (by omega)
    · rintro row ⟨⟩ s hs
      exact h.scopes old opened.found s hs
    · rintro row ⟨⟩ hactive
      cases hactive
    -- Both the hold and its scopes were there before it was released.
    · rintro row ⟨⟩ time ⟨⟩
      exact ⟨(h.created old opened.found).inTurn hm hcmd rfl hreleases,
        fun s hs => (h.added s hs).inTurn hm hcmd rfl hreleases⟩

/-- **Every time of a hold was stored by one of its mutations**, and they were stored in the
order of the commits. -/
theorem Reachable.timeline (h : Reachable c) (hold : String) :
    c.shared.Timeline hold c.shared.log.length c.shared.db := by
  rw [h.db_eq]
  refine h.commit_induction_from (k := 0)
    (P := fun m => c.shared.Timeline hold m (c.shared.asOf m)) ?_ ?_ (Nat.zero_le _)
    (Nat.le_refl _)
  · have hempty : c.shared.asOf 0 = ({} : Db) := rfl
    rw [hempty]
    exact ⟨fun a ha => absurd ha List.not_mem_nil, List.Pairwise.nil, nofun,
      fun s hs => absurd hs List.not_mem_nil, nofun, nofun, nofun⟩
  · rintro n t cmd ws activityId view - ih hc hmut -
    obtain ⟨t', ws', activityId', hn, hm, hsucc⟩ := h.mutation hc
    have hcmd := hm.command
    rw [hsucc]
    by_cases hhold : hold = cmd.holdId
    · subst hhold
      obtain ⟨hrows, hscopeRows⟩ := hm.putAll_writes cmd.holdId
      have hinserts : .insertActivity (cmd.activity activityId' t'.startedAt) ∈ t'.writes := by
        rw [hm.writes]
        simp
      obtain ⟨hcreated, hadded, hscopes, hunreleased, hreleased⟩ := ih.changed
        ((h.coherent n).orphan cmd.holdId) hn hcmd rfl
        (fun w hw => by rw [hm.writes]; exact List.mem_append_left _ hw) hm.changed
      rw [← hrows] at hcreated hscopes hunreleased hreleased
      rw [← hscopeRows] at hadded hscopes hreleased
      refine ⟨?_, ?_, hcreated, hadded, hscopes, hunreleased, hreleased⟩
      · intro a ha
        rw [hm.activityOf_eq] at ha
        rcases List.mem_append.mp ha with ha | ha
        · exact (ih.reported a ha).mono (by omega)
        · obtain rfl := List.mem_singleton.mp ha
          exact ⟨n, t', cmd, by omega, hn, hcmd, rfl, hinserts, rfl⟩
      · rw [hm.activityOf_eq]
        refine List.pairwise_append.mpr ⟨ih.activity, List.pairwise_singleton _ _, ?_⟩
        intro a ha b hb
        obtain rfl := List.mem_singleton.mp hb
        exact (ih.reported a ha).inTurn hn hcmd rfl hinserts
    -- A mutation of another hold leaves the rows as they are.
    · obtain ⟨hrow, hscopes, hactivity⟩ := hm.other_hold hhold
      constructor
      · rw [hactivity]
        exact fun a ha => (ih.reported a ha).mono (by omega)
      · rw [hactivity]
        exact ih.activity
      · rw [hrow]
        exact fun row hr => (ih.created row hr).mono (by omega)
      · rw [hscopes]
        exact fun s hs => (ih.added s hs).mono (by omega)
      · rw [hrow, hscopes]
        exact ih.scopes
      · rw [hrow]
        exact ih.unreleased
      · rw [hrow, hscopes]
        exact ih.released

/-- **The times of a hold are ordered as its transactions began.**  For any two times that are
stored for a hold, in its activity, as the creation of it or of a scope, or as its release, the
transactions that have stored them were committed in the order that the timeline tells, and the
times are in that order if the first of these two transactions began before the second. -/
theorem timed_as_begun (h : Reachable c) (hold : String) : c.shared.TimedAsBegun hold := by
  obtain ⟨stamped, hclocked⟩ := h.clocked
  have htimeline := h.timeline hold
  constructor
  · refine ((h.now_coherent.ordered hold).and htimeline.activity).imp fun {a b} hab => ?_
    exact ⟨hab.1, hclocked.ordered hab.2⟩
  · exact fun row hrow s hs => hclocked.ordered (htimeline.scopes row hrow s hs)
  · intro row hrow time htime
    obtain ⟨hcreated, hscopes⟩ := htimeline.released row hrow time htime
    exact ⟨hclocked.ordered hcreated, fun s hs => hclocked.ordered (hscopes s hs)⟩

end

namespace Sample

/-- The transaction that adds a scope begins, and gets on when `h` has been created a second
later. -/
def early : List Label :=
  .start (add 1) :: steps 0 1 ++ [.move (1 : ℕ)] ++ .start (create [1]) :: steps 1 8 ++ steps 0 9

/-- The scope is said to have been added before the hold was created. -/
theorem timeline_can_be_disordered :
    ¬∀ {c : Config}, Reachable c → ∀ hold, c.shared.db.Chronological hold := by
  intro hclaim
  have hdisordered := (hclaim (reachable_after early) "h").scopes _ rfl _ List.mem_cons_self
  exact absurd hdisordered (by decide)

/-- The schedule goes on with a release of the hold, by a transaction that begins last. -/
def late : List Label := early ++ .start (release 2) :: steps 2 9

/-- The release is stored as later than the addition, whose time is too early for the hold: of
these two the transactions did begin in order. -/
theorem late_released : ∃ row time, (after late).shared.db.hold? "h" = some row ∧
    row.releasedAt = some time ∧ ∀ s ∈ (after late).shared.db.scopesOf "h", s.createdAt ≤ time := by
  have hreleased : ∃ row time, (after late).shared.db.hold? "h" = some row ∧
      row.releasedAt = some time := ⟨_, _, rfl, rfl⟩
  obtain ⟨row, time, hrow, htime⟩ := hreleased
  refine ⟨row, time, hrow, htime, fun s hs => ?_⟩
  obtain ⟨-, hscopes⟩ := (timed_as_begun (reachable_after late) "h").released row hrow time htime
  obtain ⟨t, t', ⟨n, m, cmd, cmd', hlt, hn, hm, -⟩, -, ⟨row', hrow', -, hat⟩, hle⟩ := hscopes s hs
  apply hle
  intro k k' e e' hk hk' hsession hsession' _ _
  -- The commits are of the sessions 1, 0 and 2, and that of session 0 releases nothing.
  have hlog : ∀ {n : ℕ} {t : Tx}, (after late).shared.log[n]? = some t →
      [1, 0, 2][n]? = some t.owner.id := by
    intro n t hn
    have howners : (after late).shared.log.map (·.owner.id) = [1, 0, 2] := rfl
    rw [← howners, List.getElem?_map, hn]
    rfl
  have hadded : m ≠ 1 := by
    have hkeeps : ((after late).shared.log[1]?.map fun t => t.writes.all fun w => match w with
        | .updateHold row => row.releasedAt.isNone
        | _ => true) = some true := rfl
    rintro rfl
    rw [hm, Option.map_some, Option.some.injEq, List.all_eq_true] at hkeeps
    have hnone : row'.releasedAt.isNone = true := hkeeps _ hrow'
    rw [hat] at hnone
    cases hnone
  -- All statements of session 2 come after those of the others.
  have htrace : ∀ {k : ℕ} {e : Event}, (after late).shared.trace[k]? = some e →
      ([0] ++ List.replicate 8 1 ++ List.replicate 9 0 ++ List.replicate 9 2)[k]? =
        some e.session.id := by
    intro k e hk
    have hids : (after late).shared.trace.map (·.session.id) =
        [0] ++ List.replicate 8 1 ++ List.replicate 9 0 ++ List.replicate 9 2 := rfl
    rw [← hids, List.getElem?_map, hk]
    rfl
  have ht := hlog hn
  have ht' := hlog hm
  have he := htrace hk
  have he' := htrace hk'
  rw [hsession] at he
  rw [hsession'] at he'
  grind

end Sample

end LegalHold
