import LegalHold.Ledger
import LegalHold.Solo
import LegalHold.Stamps
import Mathlib.Algebra.GroupWithZero.Nat
import Mathlib.Algebra.Order.BigOperators.Group.List

/-!
# Mutations one after the other

The committed mutations of a run, executed one at a time in the order of their
commits, leave the same tables behind and answer with the same views.  What may
differ are the stamps: a mutation that runs later is given a later timestamp, and
without the transactions that were rolled back there are no gaps in the numbers.

## Main definitions

* `Counted` — the numbers that have been drawn for activity rows.
* `Timely` — times at which the operations can run.
* `Replay` — the first commits of a run, executed one after the other.

## Main results

* `Reachable.room` — there are no more commits than numbers.
* `Replay.next` — **one more commit**.
* `Reachable.revision_taken` — every revision is taken once.
* `committed_serially` — **committed mutations are serializable**.
-/

namespace LegalHold

open Interleave

section

variable [Backend] {c : Config}

/-! ### Numbers -/

/-- The numbers that a write has drawn for activity rows. -/
def Write.draws : Write → ℕ
  | .insertActivity _ => 1
  | _ => 0

/-- How many numbers a transaction has drawn from the sequence of the activity. -/
def Tx.draws (t : Tx) : ℕ := (t.writes.map Write.draws).sum

/-- How many numbers some transactions have drawn together. -/
def drawn (txs : List Tx) : ℕ := (txs.map Tx.draws).sum

/-- Every activity row that was written has drawn a number of its own from the sequence. -/
structure Counted (srv : Server) : Prop where
  below : drawn srv.txs + drawn srv.log < srv.seq.activity
  room : srv.seq.activity ≤ maxI64 + 1

omit [Backend] in
theorem drawn_filter {txs : List Tx} {t : Tx} {p : Tx → Bool} (ht : t ∈ txs) (hp : p t = false) :
    drawn (txs.filter p) + t.draws ≤ drawn txs := by
  unfold drawn
  induction txs with
  | nil => cases ht
  | cons first rest ih =>
    have hrest : ((rest.filter p).map Tx.draws).sum ≤ (rest.map Tx.draws).sum :=
      List.Sublist.sum_le_sum (List.filter_sublist.map Tx.draws) fun _ _ => Nat.zero_le _
    rcases List.mem_cons.mp ht with rfl | ht
    · rw [List.filter_cons_of_neg (by simp [hp]), List.map_cons, List.sum_cons]
      omega
    · have := ih ht
      by_cases hfirst : p first = true
      · rw [List.filter_cons_of_pos hfirst, List.map_cons, List.map_cons, List.sum_cons,
          List.sum_cons]
        omega
      · rw [List.filter_cons_of_neg hfirst, List.map_cons, List.sum_cons]
        omega

omit [Backend] in
/-- Replacing a transaction by another version of it replaces the numbers that it has drawn. -/
theorem drawn_set {txs : List Tx} {t t' : Tx} (ht : t ∈ txs) (hid : t'.owner.id = t.owner.id)
    (howners : txs.Pairwise fun a b => a.owner.id ≠ b.owner.id) :
    drawn (txs.map fun a => if a.owner.id = t'.owner.id then t' else a) + t.draws =
      drawn txs + t'.draws := by
  unfold drawn
  induction txs with
  | nil => cases ht
  | cons first rest ih =>
    obtain ⟨hfirst, hrest⟩ := List.pairwise_cons.mp howners
    simp only [List.map_cons, List.sum_cons]
    rcases List.mem_cons.mp ht with rfl | ht
    · have hsame : rest.map (fun a => if a.owner.id = t'.owner.id then t' else a) = rest := by
        refine (List.map_congr_left fun a ha => ?_).trans (List.map_id rest)
        rw [if_neg (fun heq => hfirst a ha (hid ▸ heq).symm)]
        rfl
      rw [hsame, if_pos hid.symm]
      omega
    · have hne : first.owner.id ≠ t'.owner.id := by
        rw [hid]
        exact hfirst t ht
      have := ih ht hrest
      rw [if_neg hne]
      omega

/-- What a statement writes and what it draws. -/
theorem Query.effect_draws (db : Db) (now : Time) (seq : Sequences) (q : Query) :
    ((q.effect db now seq).writes.map Write.draws).sum + seq.activity ≤
        (q.effect db now seq).seq.activity ∧
      (seq.activity ≤ maxI64 + 1 → (q.effect db now seq).seq.activity ≤ maxI64 + 1) := by
  -- An update draws no number.
  have hupdate : ∀ (h : String) (f : HoldRow → HoldRow),
      ((updateHold db seq h f).writes.map Write.draws).sum = 0 ∧
        (updateHold db seq h f).seq = seq := by
    intro h f
    unfold updateHold
    split
    · exact ⟨rfl, rfl⟩
    · split <;> exact ⟨rfl, rfl⟩
  cases q with
  | advanceRevision h =>
    obtain ⟨hw, hs⟩ := hupdate h HoldRow.advanced
    simp only [Query.effect, hw, hs]
    exact ⟨by omega, id⟩
  | releaseHold h releasedBy reason =>
    obtain ⟨hw, hs⟩ := hupdate h (·.released releasedBy reason now)
    simp only [Query.effect, hw, hs]
    exact ⟨by omega, id⟩
  | insertActivity org h kind actor payload =>
    simp only [Query.effect]
    split
    · simp
    · next hroom =>
      split <;> simp [Write.draws] <;> omega
  | insertHold h org title reason authority createdBy =>
    simp only [Query.effect]
    split <;> simp [Write.draws]
  | lockHold org h =>
    simp only [Query.effect]
    split <;> simp
  | insertScope h scope createdBy =>
    simp only [Query.effect]
    split
    · simp
    · split
      · simp
      · split <;> simp [Write.draws]
  | deleteScope h scope =>
    simp only [Query.effect]
    split <;> simp [Write.draws]
  | insertCommand key hash response =>
    simp only [Query.effect]
    split <;> simp [Write.draws]
  | selectCommand key => simp [Query.effect]
  | selectHold org h => simp [Query.effect]
  | selectScopes h => simp [Query.effect]

omit [Backend] in
theorem drawn_append (txs txs' : List Tx) : drawn (txs ++ txs') = drawn txs + drawn txs' := by
  simp [drawn]

namespace Counted

variable {srv srv' : Server} {i : Session Op}

omit [Backend] in
/-- A transaction that ends takes its numbers with it. -/
theorem endTx (h : Counted srv) (i : Session Op) : Counted (srv.endTx i) := by
  have hsub : drawn (srv.endTx i).txs ≤ drawn srv.txs :=
    List.Sublist.sum_le_sum (List.filter_sublist.map Tx.draws) fun _ _ => Nat.zero_le _
  have hdrawn := h.below
  refine ⟨?_, h.room⟩
  show (drawn (srv.endTx i).txs : Int) + drawn srv.log < srv.seq.activity
  omega

theorem moved (h : Counted srv) (hinv : srv.Inv) {s : Stmt} (hmoved : srv.Moved i s srv') :
    Counted srv' := by
  have hdrawn := h.below
  cases hmoved with
  | same => exact h
  | begun idle =>
    refine ⟨?_, h.room⟩
    simpa [drawn, Tx.draws] using hdrawn
  | @committed t tx =>
    have htxs : drawn (srv.commitTx t).txs + t.draws ≤ drawn srv.txs :=
      drawn_filter (Server.tx?_mem tx).1 (by simp)
    have hlog : drawn (srv.commitTx t).log ≤ drawn srv.log + t.draws := by
      simp only [Server.commitTx]
      split
      · omega
      · rw [drawn_append]
        simp [drawn]
    refine ⟨?_, h.room⟩
    show (drawn (srv.commitTx t).txs : Int) + drawn (srv.commitTx t).log < srv.seq.activity
    omega
  | @applied t q tx free =>
    obtain ⟨hwrites, hroom⟩ := q.effect_draws (srv.view t) t.startedAt srv.seq
    generalize q.effect (srv.view t) t.startedAt srv.seq = e at hwrites hroom ⊢
    have htxs : drawn (srv.applied t e).txs + t.draws = drawn srv.txs + (t.extend e).draws :=
      drawn_set (Server.tx?_mem tx).1 rfl hinv.owners
    have hdraws : (t.extend e).draws = t.draws + (e.writes.map Write.draws).sum := by
      simp [Tx.draws]
    refine ⟨?_, hroom h.room⟩
    show (drawn (srv.applied t e).txs : Int) + drawn srv.log < e.seq.activity
    omega
  | decided => exact ⟨h.below, h.room⟩

theorem exec (h : Counted srv) (hinv : srv.Inv) {s : Stmt} {f : Fate} {r : s.Reply}
    (hexec : srv.exec i s f = some (srv', r)) : Counted srv' := by
  obtain ⟨srv₁, hmoved, rfl⟩ := Server.exec_moved hexec
  have hcounted := h.moved hinv hmoved
  exact ⟨hcounted.below, hcounted.room⟩

end Counted

theorem Reachable.counted (h : Reachable c) : Counted c.shared := by
  have hinitial : Counted initial.shared := ⟨Int.zero_lt_one, (by decide : (1 : Int) ≤ maxI64 + 1)⟩
  refine h.induction (P := fun c => Counted c.shared) hinitial ?_
  intro c₁ l c₂ hc₁ ih hstep
  obtain ⟨op, rfl⟩ | ⟨i, f, op, s, k, st, r, -, he, rfl⟩ |
    ⟨i, p, -, ⟨-, rfl⟩ | ⟨-, rfl⟩⟩ | ⟨m, rfl⟩ := Machine.step_cases hstep
  · exact ih
  · exact ih.exec (Reachable.inv hc₁) he
  · exact ih.endTx _
  · exact ih.endTx _
  · exact ⟨ih.below, ih.room⟩

/-- **There are no more commits than numbers**: the log is not longer than the sequence of the
activity allows. -/
theorem Reachable.room (h : Reachable c) : (c.shared.log.length : Int) ≤ maxI64 := by
  have hone : ∀ t ∈ c.shared.log, 1 ≤ t.draws := by
    intro t ht
    obtain ⟨n, hn⟩ := List.mem_iff_getElem?.mp ht
    obtain ⟨cmd, ws, activityId, view, hm, -⟩ := h.commit hn
    simp [Tx.draws, hm.writes, Write.draws]
  -- Every commit has drawn at least one number.
  have hlength : c.shared.log.length ≤ drawn c.shared.log := by
    have := List.card_nsmul_le_sum (c.shared.log.map Tx.draws) 1 (by simpa using hone)
    simpa [drawn] using this
  have hcounted := h.counted
  have hdrawn := hcounted.below
  have hroom := hcounted.room
  omega

/-! ### One after the other -/

/-- Operations one after the other, each of them alone and nothing failing; before each
of them some time passes. -/
def serially (s : Config) (serial : List (ℕ × Op)) : Option Config :=
  Machine.serially (M := machine) Fate.done s serial

theorem serially_append (s : Config) (l l' : List (ℕ × Op)) :
    serially s (l ++ l') = (serially s l).bind fun s' => serially s' l' :=
  Machine.serially_append s l l'

/-- **One after the other is one of the schedules.** -/
theorem reachable_serially {s : Config} {l : List (ℕ × Op)} (h : serially initial l = some s) :
    Reachable s := Machine.reaches_serially h

/-- The times at which operations run after these delays can be written out. -/
def Timely (ticks : List ℕ) : Prop :=
  ∀ n, 0 < n → n ≤ ticks.length → Formattable (ticks.take n).sum

/-- The first `n` commits of `srv`, executed one after the other, have led to `s`. -/
structure Replay (srv : Server) (n : ℕ) (s : Config) : Prop where
  procs : s.procs.length = n
  txs : s.shared.txs = []
  db : s.shared.db.unstamped = (srv.asOf n).unstamped
  dated : s.shared.db.Dated
  activity : s.shared.seq.activity = n + 1
  scopeRow : s.shared.seq.scopeRow ≤ n + 1
  answered : ∀ {m : ℕ} {t : Tx}, m < n → srv.log[m]? = some t → ∃ cmd view view',
    srv.Commit m cmd view ∧ Returned s m t.owner.op (.ok (.hold view')) ∧
    view'.unstamped = view.unstamped

theorem Replay.zero (srv : Server) : Replay srv 0 initial where
  procs := rfl
  txs := rfl
  db := rfl
  dated := Db.dated_empty
  activity := rfl
  scopeRow := Int.le_refl _
  answered h := absurd h (Nat.not_lt_zero _)

omit [Backend] in
/-- The activity row and the receipt of a mutation, made again. -/
theorem Command.writes_restamp {cmd : Command} {ws ws' : List Write} {view view' : HoldView}
    {activityId activityId' : Int} {now now' : Time}
    (hws : ws'.map Write.unstamped = ws.map Write.unstamped)
    (hview : view'.unstamped = view.unstamped) :
    (cmd.writes ws' activityId' view' now').map Write.unstamped =
      (cmd.writes ws activityId view now).map Write.unstamped := by
  unfold Command.writes
  rw [List.map_append, List.map_append, hws]
  simp only [List.map_cons, List.map_nil, Write.unstamped, Command.receipt_unstamped, hview]
  rfl

/-- A command that is possible when its turn comes, with no transaction open, is carried out. -/
theorem Possible.serially {s : Config} {base : Server} {ticks : ℕ} {op : Op} {cmd : Command}
    {ws : List Write} {view : HoldView} (h : Possible base cmd ws view)
    (hbase : base = { s.shared with clock := s.shared.clock + ticks }) (htxs : base.txs = [])
    (hcmd : op.command? = some cmd) :
    ∃ srv, LegalHold.serially s [(ticks, op)] =
        some ⟨srv, s.procs ++ [⟨op, some (.ret (.ok (.hold view)))⟩]⟩ ∧
      Carried base cmd ws view srv := by
  obtain ⟨srv, r, hrun, hr⟩ := program_alone (i := ⟨s.procs.length, op⟩) htxs hcmd h _ rfl
  cases r with
  | error e => exact hr.elim
  | ok a =>
    obtain ⟨rfl, hcarried⟩ := hr
    refine ⟨srv, Machine.serially_one ?_, hcarried⟩
    subst hbase
    exact hrun

/-- All writes of a command that is carried out on dated tables are dated. -/
theorem Carried.dated {base srv : Server} {cmd : Command} {ws : List Write} {view : HoldView}
    (h : Carried base cmd ws view srv) (hws : ∀ w ∈ ws, w.Dated) (hdb : base.db.Dated) :
    srv.db.Dated := by
  rw [h.db]
  refine Db.Dated.putAll (fun w hw => ?_) hdb
  unfold Command.writes at hw
  rcases List.mem_append.mp hw with hw | hw
  · exact hws w hw
  · simp only [List.mem_cons, List.not_mem_nil, or_false] at hw
    rcases hw with rfl | rfl <;> trivial

/-- The next command is possible once more, with the same changes and the same view. -/
theorem Replay.possible {n : ℕ} {s : Config} {t : Tx} (hs : Replay c.shared n s)
    (h : Reachable c) (hn : n < c.shared.log.length) {cmd : Command} {ws : List Write}
    {activityId : Int} {view : HoldView}
    (hm : Mutation (c.shared.asOf n) t cmd ws activityId view) {base : Server} {now : Time}
    (hdb : base.db = s.shared.db) (hseq : base.seq = s.shared.seq) (hclock : base.clock = now)
    (hnow : Formattable now) :
    ∃ ws' view', Possible base cmd ws' view' ∧ (∀ w ∈ ws', w.Dated) ∧
      ws'.map Write.unstamped = ws.map Write.unstamped ∧ view'.unstamped = view.unstamped := by
  have hroom := h.room
  have hactivity := hs.activity
  have hscopeRow := hs.scopeRow
  -- The writes are those of the commit, with the times and the numbers of this run.
  obtain ⟨ws', hchanged, hws, hnumbered⟩ := hm.changed.restamp (.of_unstamped hs.db _) now
    (n := s.shared.seq.scopeRow) (by omega)
  have hdated := hchanged.dated hs.dated hnow
  have hchanges : (s.shared.db.putAll ws').unstamped = ((c.shared.asOf n).putAll ws).unstamped := by
    rw [Db.unstamped_putAll, Db.unstamped_putAll, hs.db, hws]
  have hload : ((c.shared.asOf n).putAll ws).loadHold cmd.organizationId cmd.holdId = .ok view := by
    have hview := hm.view
    rw [hm.writes, Db.putAll_append] at hview
    exact hview
  obtain ⟨view', hload', hview⟩ := Db.loadHold_restamp (.of_unstamped hchanges _)
    (Db.Dated.putAll hdated hs.dated) hload
  refine ⟨ws', view', ⟨?_, ?_, ?_, ?_, ?_⟩, hdated, hws, hview⟩
  · rw [hdb]
    exact Db.command?_eq_none_restamp (congrArg (fun db : Db => db.command? cmd.key) hs.db)
      hm.unseen
  · rw [hdb, hclock]
    exact hchanged
  · rw [hseq]
    exact hnumbered
  · rw [hseq]
    omega
  · rw [hdb]
    exact hload'

/-- **One more commit**: run alone after those before it, the operation makes the same
changes and answers with the same view. -/
theorem Replay.next {n : ℕ} {s : Config} {t : Tx} (hs : Replay c.shared n s) (h : Reachable c)
    (hn : c.shared.log[n]? = some t) {ticks : ℕ} (hnow : Formattable (s.shared.clock + ticks)) :
    ∃ s', serially s [(ticks, t.owner.op)] = some s' ∧
      Replay c.shared (n + 1) s' ∧ s'.shared.clock = s.shared.clock + ticks := by
  obtain ⟨cmd, ws, activityId, view, hm, hcommit⟩ := h.commit hn
  have hlt : n < c.shared.log.length := (List.getElem?_eq_some_iff.mp hn).1
  -- The clock moves on, and then the operation of the commit runs alone.
  obtain ⟨base, hbase⟩ : ∃ base : Server, base = { s.shared with
      clock := s.shared.clock + ticks } := ⟨_, rfl⟩
  have hdb : base.db = s.shared.db := by rw [hbase]
  have hseq : base.seq = s.shared.seq := by rw [hbase]
  have hclock : base.clock = s.shared.clock + ticks := by rw [hbase]
  have htxs : base.txs = [] := by
    rw [hbase]
    exact hs.txs
  have hdated : base.db.Dated := by
    rw [hdb]
    exact hs.dated
  obtain ⟨ws', view', hpossible, hdates, hws, hview⟩ :=
    hs.possible h hlt hm hdb hseq hclock hnow
  obtain ⟨srv', hserially, hcarried⟩ := hpossible.serially hbase htxs hm.command
  refine ⟨_, hserially, ?_, hcarried.clock.trans hclock⟩
  refine ⟨?_, hcarried.txs, ?_, hcarried.dated hdates hdated, ?_, ?_, ?_⟩
  · simp [hs.procs]
  · show srv'.db.unstamped = _
    rw [hcarried.db, hdb, Server.asOf_succ hn, Db.unstamped_putAll, Db.unstamped_putAll, hs.db,
      hm.writes]
    congr 1
    exact Command.writes_restamp hws hview
  · show srv'.seq.activity = _
    rw [hcarried.activity, hseq, hs.activity]
    rfl
  · show srv'.seq.scopeRow ≤ _
    have hscopeRow := hs.scopeRow
    have hdrawn := hcarried.scopeRow
    rw [hseq] at hdrawn
    omega
  -- The earlier answers stay, and the last one is that of the commit but for its times.
  · intro m t' hm' hlog
    rcases Nat.lt_succ_iff_lt_or_eq.mp hm' with hm' | rfl
    · obtain ⟨cmd₀, view₀, view₁, hcommit₀, hreturned, hsame⟩ := hs.answered hm' hlog
      refine ⟨cmd₀, view₀, view₁, hcommit₀, ?_, hsame⟩
      have hlast : m < s.procs.length := by
        rw [hs.procs]
        exact hm'
      exact (List.getElem?_append_left hlast).trans hreturned
    · cases hn.symm.trans hlog
      refine ⟨cmd, view, view', hcommit, ?_, hview⟩
      have hlast := hs.procs
      show (s.procs ++ _)[m]? = _
      rw [List.getElem?_append_right (by omega), hlast, Nat.sub_self]
      rfl

/-- **All commits, one after the other**: the operations of the first `n` commits, run alone and
in their order, lead to the same tables but for what the database puts in itself. -/
theorem Reachable.replay (h : Reachable c) {n : ℕ} (hn : n ≤ c.shared.log.length) :
    ∀ {ticks : List ℕ}, ticks.length = n → Timely ticks → ∃ s,
      serially initial (ticks.zip ((c.shared.log.take n).map (·.owner.op))) = some s ∧
      Replay c.shared n s ∧ s.shared.clock = ticks.sum := by
  induction n with
  | zero =>
    intro ticks hlen _
    obtain rfl := List.length_eq_zero_iff.mp hlen
    exact ⟨initial, rfl, Replay.zero _, rfl⟩
  | succ n ih =>
    intro ticks hlen htimely
    -- The last delay is that of the last commit.
    obtain ⟨before, last, rfl⟩ := (List.eq_nil_or_concat ticks).resolve_left (by
      rintro rfl
      cases hlen)
    rw [List.concat_eq_append] at hlen htimely ⊢
    have hlen' : before.length = n := by simpa using hlen
    have htimely' : Timely before := by
      intro k hk hle
      have := htimely k hk (by rw [List.length_append]; omega)
      rwa [List.take_append_of_le_length hle] at this
    obtain ⟨s, hrun, hs, hclock⟩ := ih (by omega) hlen' htimely'
    obtain ⟨t, ht⟩ : ∃ t, c.shared.log[n]? = some t := ⟨_, List.getElem?_eq_getElem (by omega)⟩
    have hnow : Formattable (s.shared.clock + last) := by
      have := htimely (n + 1) (Nat.succ_pos n) (by omega)
      rw [List.take_of_length_le (by omega)] at this
      rw [hclock]
      simpa using this
    obtain ⟨s', hstep, hs', hclock'⟩ := hs.next h ht hnow
    refine ⟨s', ?_, hs', ?_⟩
    · rw [List.take_add_one, ht]
      show serially initial ((before ++ [last]).zip ((c.shared.log.take n ++ [t]).map _)) = _
      rw [List.map_append, List.zip_append (by simp; omega)]
      rw [serially_append, hrun]
      exact hstep
    · rw [hclock', hclock]
      simp

/-- There are times at which all of them can run. -/
theorem Reachable.timely (h : Reachable c) :
    ∃ ticks : List ℕ, ticks.length = c.shared.log.length ∧ Timely ticks := by
  cases hlog : c.shared.log with
  | nil => exact ⟨[], rfl, fun n hn hle => absurd hle (Nat.not_le.mpr hn)⟩
  | cons t rest =>
    -- all of them at the moment of the first commit, which has shown its own time
    refine ⟨t.startedAt :: List.replicate rest.length 0, by simp, fun n hn hle => ?_⟩
    have hfirst : c.shared.log[0]? = some t := by rw [hlog]; rfl
    obtain ⟨cmd, ws, activityId, view, hm, -⟩ := h.commit hfirst
    have hsum : ((t.startedAt :: List.replicate rest.length 0).take n).sum = t.startedAt := by
      obtain ⟨k, rfl⟩ := Nat.exists_eq_succ_of_ne_zero (Nat.pos_iff_ne_zero.mp hn)
      simp [List.take_replicate]
    rw [hsum]
    have hview := hm.view
    rcases hm.changed.hold? with
      ⟨-, title, reason, authority, -, hnew⟩ | ⟨old, revision, -, hopen, -⟩
    · obtain ⟨row, hrow, -, hmade⟩ := Db.loadHold_eq_ok.mp hview
      rw [(hm.putAll_writes cmd.holdId).1, hnew] at hrow
      cases hrow
      obtain ⟨scopes, createdAt, releasedAt, -, hc, -, -⟩ := holdView_eq_ok.mp hmade
      exact ⟨createdAt, hc⟩
    · have hfound := hopen.found
      cases hfound

/-! ### Revisions -/

/-- The revision a commit leaves behind, and shows. -/
theorem Reachable.revision_after (h : Reachable c) {n : ℕ} {cmd : Command} {view : HoldView}
    (hc : c.shared.Commit n cmd view) :
    ∃ row, (c.shared.asOf (n + 1)).hold? cmd.holdId = some row ∧
      row.revision = cmd.change.expectedRevision.getD 0 + 1 ∧
      view.revision = formatI64 row.revision := by
  obtain ⟨t, ws, activityId, hn, hm, hsucc⟩ := h.mutation hc
  obtain ⟨row, hrow, -, hmade⟩ := Db.loadHold_eq_ok.mp hm.view
  obtain ⟨scopes, createdAt, releasedAt, -, -, -, rfl⟩ := holdView_eq_ok.mp hmade
  rw [hsucc]
  refine ⟨row, hrow, ?_, rfl⟩
  rw [(hm.putAll_writes cmd.holdId).1] at hrow
  rcases hm.changed.hold? with ⟨-, title, reason, authority, hchange, hnew⟩ |
    ⟨old, revision, hrev, hopen, ⟨reason, -, hnew⟩ | ⟨-, hnew⟩⟩
  · cases hrow.symm.trans hnew
    rw [hchange]
    rfl
  · cases hrow.symm.trans hnew
    rw [hrev, ← hopen.revision]
    rfl
  · cases hrow.symm.trans hnew
    rw [hrev, ← hopen.revision]
    rfl

/-- **Every revision is taken once**: by one commit that expects it, and the hold is
created by one. -/
theorem Reachable.revision_taken (h : Reachable c) {n m : ℕ} {cmd cmd' : Command}
    {view view' : HoldView} (hn : c.shared.Commit n cmd view) (hm : c.shared.Commit m cmd' view')
    (hhold : cmd.holdId = cmd'.holdId)
    (hrev : cmd.change.expectedRevision = cmd'.change.expectedRevision) : n = m := by
  -- the later one would have found the revision that the earlier one has left behind
  have hlt : ∀ {n m : ℕ} {cmd cmd' : Command} {view view' : HoldView},
      c.shared.Commit n cmd view → c.shared.Commit m cmd' view' → cmd.holdId = cmd'.holdId →
      cmd.change.expectedRevision = cmd'.change.expectedRevision → ¬ n < m := by
    intro n m cmd cmd' view view' hn hm hhold hrev hlt
    obtain ⟨row, hrow, hafter, -⟩ := h.revision_after hn
    obtain ⟨row', hrow', hle, -⟩ := h.same_revision (Nat.succ_le_of_lt hlt) hrow
    obtain ⟨t, ws, activityId, -, hmut, -⟩ := h.mutation hm
    rw [hhold] at hrow'
    rcases hmut.changed.hold? with ⟨habsent, -⟩ | ⟨old, revision, hexpected, hopen, -⟩
    · rw [habsent] at hrow'
      cases hrow'
    · cases hrow'.symm.trans hopen.found
      have hrevision := hopen.revision
      rw [hrev, hexpected, Option.getD_some] at hafter
      omega
  rcases Nat.lt_trichotomy n m with hnm | heq | hnm
  · exact absurd hnm (hlt hn hm hhold hrev)
  · exact heq
  · exact absurd hnm (hlt hm hn hhold.symm hrev.symm)

/-- What the session of a commit has returned is the view of the commit. -/
theorem Reachable.returned_eq (h : Reachable c) {n : ℕ} {t : Tx} {cmd : Command}
    {view view' : HoldView} (hn : c.shared.log[n]? = some t) (hc : c.shared.Commit n cmd view)
    (hr : Returned c t.owner.id t.owner.op (.ok (.hold view'))) : view' = view := by
  obtain ⟨t', hn', hcmd, -⟩ := id hc
  cases hn.symm.trans hn'
  obtain ⟨m, cmd', hm, hkey, -⟩ := h.ok hr hcmd
  obtain rfl := h.key_unique hc hm hkey.symm
  exact (Server.commit_unique hm hc).2

/-- **Committed mutations are serializable and lose no update.**  The operations that
have committed, executed one at a time in the order of the commits, at any times
that can be written out, all go through; they leave the same tables behind, but for
stamps, and each of them answers with the view it has answered with.  Every revision
is taken by one commit at most, and is the one its answer shows. -/
theorem committed_serially (h : Reachable c) :
    (∃ ticks : List ℕ, ticks.length = c.shared.log.length ∧ Timely ticks) ∧
    (∀ {ticks : List ℕ}, ticks.length = c.shared.log.length → Timely ticks → ∃ s,
      serially initial (ticks.zip (c.shared.log.map (·.owner.op))) = some s ∧ Reachable s ∧
      s.shared.db.unstamped = c.shared.db.unstamped ∧
      ∀ {n : ℕ} {t : Tx}, c.shared.log[n]? = some t → ∃ cmd view view',
        c.shared.Commit n cmd view ∧ Returned s n t.owner.op (.ok (.hold view')) ∧
        view'.unstamped = view.unstamped ∧
        ∀ {v : HoldView}, Returned c t.owner.id t.owner.op (.ok (.hold v)) → v = view) ∧
    (∀ {n m : ℕ} {cmd cmd' : Command} {view view' : HoldView}, c.shared.Commit n cmd view →
      c.shared.Commit m cmd' view' → cmd.holdId = cmd'.holdId →
      cmd.change.expectedRevision = cmd'.change.expectedRevision → n = m) ∧
    ∀ {n : ℕ} {cmd : Command} {view : HoldView}, c.shared.Commit n cmd view →
      view.revision = formatI64 (cmd.change.expectedRevision.getD 0 + 1) := by
  refine ⟨h.timely, ?_, h.revision_taken, ?_⟩
  · intro ticks hlen htimely
    obtain ⟨s, hrun, hs, -⟩ := h.replay (Nat.le_refl _) hlen htimely
    -- What holds of the first commits holds of all of them.
    rw [List.take_length] at hrun
    refine ⟨s, hrun, reachable_serially hrun, ?_, fun {n t} hn => ?_⟩
    · rw [hs.db, h.db_eq]
    · obtain ⟨cmd, view, view', hc, hr, hsame⟩ :=
        hs.answered (List.getElem?_eq_some_iff.mp hn).1 hn
      exact ⟨cmd, view, view', hc, hr, hsame, h.returned_eq hn hc⟩
  · intro n cmd view hc
    obtain ⟨row, -, hrevision, hview⟩ := h.revision_after hc
    rw [hview, hrevision]

end

namespace Sample

/-- The hold is created; two sessions then go for its first revision, and the one that
began later gets it. -/
def racing : List Label :=
  .start (create [1]) :: steps 0 8 ++ .start (add 1) :: steps 1 2 ++
    .move (5 : ℕ) :: .start (release 1) :: steps 2 9 ++ steps 1 1

/-- Nothing but the winner runs again, and at another time. -/
theorem racing_serially :
    ∃ s, serially initial [(0, create [1]), (0, release 1)] = some s ∧
      s.shared.db.unstamped = (after racing).shared.db.unstamped := by
  have hreach : Reachable (after racing) := reachable_after racing
  have hlen : [0, 0].length = (after racing).shared.log.length := rfl
  have htimely : Timely [0, 0] := by
    intro n hn hle
    have hsum : ([0, 0].take n).sum = 0 := List.sum_eq_zero fun k hk => by
      have := List.mem_of_mem_take hk
      simpa using this
    rw [hsum]
    exact ⟨_, rfl⟩
  obtain ⟨s, hrun, -, hdb, -⟩ := (committed_serially hreach).2.1 hlen htimely
  exact ⟨s, hrun, hdb⟩

end Sample

end LegalHold
