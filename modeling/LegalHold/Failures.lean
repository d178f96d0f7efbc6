import LegalHold.Commits

/-!
# Mutations that fail

A mutating session that has returned an error without its commit being carried
out.  Whatever it did before that, in whichever order things failed, it did
inside its own transaction: its statements and its rollback leave the tables,
the log and the transactions of all other sessions alone, and only draw numbers
from the sequences.

## Main definitions

* `Untouched` — what a session leaves as it is for everybody else.

## Main results

* `Server.exec_untouched` — a statement leaves everything alone or commits.
* `failed_mutation` — **all or nothing**.
-/

namespace LegalHold

open Interleave

/-- Nothing has changed for the sessions other than `i`; numbers may have been drawn. -/
structure Untouched (i : ℕ) (srv srv' : Server) : Prop where
  db : srv'.db = srv.db
  log : srv'.log = srv.log
  clock : srv'.clock = srv.clock
  others : (srv'.txs.filter fun t => t.owner.id ≠ i) =
    srv.txs.filter fun t => t.owner.id ≠ i
  activity : srv.seq.activity ≤ srv'.seq.activity
  scopeRow : srv.seq.scopeRow ≤ srv'.seq.scopeRow

namespace Untouched

variable {i : ℕ} {srv srv' srv'' : Server}

theorem of_txs (h : (srv'.txs.filter fun t => t.owner.id ≠ i) =
    srv.txs.filter fun t => t.owner.id ≠ i) (hdb : srv'.db = srv.db) (hlog : srv'.log = srv.log)
    (hclock : srv'.clock = srv.clock) (hseq : srv'.seq = srv.seq) : Untouched i srv srv' :=
  ⟨hdb, hlog, hclock, h, by rw [hseq], by rw [hseq]⟩

theorem refl (i : ℕ) (srv : Server) : Untouched i srv srv := of_txs rfl rfl rfl rfl rfl

theorem trans (h : Untouched i srv srv') (h' : Untouched i srv' srv'') : Untouched i srv srv'' :=
  ⟨h'.db.trans h.db, h'.log.trans h.log, h'.clock.trans h.clock, h'.others.trans h.others,
    h.activity.trans h'.activity, h.scopeRow.trans h'.scopeRow⟩

/-- A rollback gives up the session's own transaction. -/
theorem endTx (i : Session Op) (srv : Server) : Untouched i.id srv (srv.endTx i) :=
  of_txs (by simp [Server.endTx, List.filter_filter]) rfl rfl rfl rfl

end Untouched

/-- Replacing a session's transaction leaves the others in place. -/
theorem Server.setTx_others (srv : Server) (t : Tx) :
    ((srv.setTx t).txs.filter fun t' => t'.owner.id ≠ t.owner.id) =
      srv.txs.filter fun t' => t'.owner.id ≠ t.owner.id := by
  unfold Server.setTx
  induction srv.txs with
  | nil => rfl
  | cons t' txs ih =>
    by_cases h : t'.owner.id = t.owner.id
    · simpa [h] using ih
    · simpa [h] using ih

section

variable [Backend]

/-- Numbers are drawn and never given back: no statement moves a sequence backwards. -/
theorem Query.effect_seq_le (q : Query) (db : Db) (now : Time) (seq : Sequences) :
    seq.activity ≤ (q.effect db now seq).seq.activity ∧
      seq.scopeRow ≤ (q.effect db now seq).seq.scopeRow := by
  have hupdate : ∀ h f, (updateHold db seq h f).seq = seq := by
    intro h f
    unfold updateHold
    split
    · rfl
    · split <;> rfl
  cases q with
  | insertHold h org title reason authority createdBy =>
    simp only [Query.effect]
    split <;> exact ⟨Int.le_refl _, Int.le_refl _⟩
  | lockHold org h =>
    simp only [Query.effect]
    split <;> exact ⟨Int.le_refl _, Int.le_refl _⟩
  | insertScope h scope createdBy =>
    simp only [Query.effect]
    split
    · exact ⟨Int.le_refl _, Int.le_refl _⟩
    · have hdrawn : seq.scopeRow ≤ seq.scopeRow + 1 := Int.le_of_lt (Int.lt_succ _)
      split
      · exact ⟨Int.le_refl _, hdrawn⟩
      · split <;> exact ⟨Int.le_refl _, hdrawn⟩
  | deleteScope h scope =>
    simp only [Query.effect]
    split <;> exact ⟨Int.le_refl _, Int.le_refl _⟩
  | advanceRevision h =>
    simp only [Query.effect, hupdate]
    exact ⟨Int.le_refl _, Int.le_refl _⟩
  | releaseHold h releasedBy reason =>
    simp only [Query.effect, hupdate]
    exact ⟨Int.le_refl _, Int.le_refl _⟩
  | insertActivity org h kind actor payload =>
    simp only [Query.effect]
    split
    · exact ⟨Int.le_refl _, Int.le_refl _⟩
    · have hdrawn : seq.activity ≤ seq.activity + 1 := Int.le_of_lt (Int.lt_succ _)
      split <;> exact ⟨hdrawn, Int.le_refl _⟩
  | insertCommand key hash response =>
    simp only [Query.effect]
    split <;> exact ⟨Int.le_refl _, Int.le_refl _⟩
  | selectCommand key => exact ⟨Int.le_refl _, Int.le_refl _⟩
  | selectHold org h => exact ⟨Int.le_refl _, Int.le_refl _⟩
  | selectScopes h => exact ⟨Int.le_refl _, Int.le_refl _⟩

variable {i : Session Op} {srv srv' : Server}

/-- **A statement leaves everything alone for the others, or it is a commit** of the
session's transaction. -/
theorem Server.Moved.untouched {s : Stmt} (h : srv.Moved i s srv') :
    Untouched i.id srv srv' ∨ ∃ t, t.owner.id = i.id ∧ srv'.log = srv.log ++ [t] := by
  cases h with
  | same => exact .inl (Untouched.refl i.id srv)
  | begun idle => exact .inl (.of_txs (by simp) rfl rfl rfl rfl)
  | @committed t tx =>
    have hid := (Server.tx?_mem tx).2
    by_cases hw : t.writes = []
    · refine .inl (.of_txs ?_ ?_ ?_ rfl rfl)
      · simp [Server.commitTx, Server.endTx, List.filter_filter, hid]
      · simp [Server.commitTx, hw]
      · simp [Server.commitTx, hw]
    · exact .inr ⟨t, hid, by simp [Server.commitTx, hw]⟩
  | @applied t q tx free =>
    have hid := (Server.tx?_mem tx).2
    obtain ⟨hactivity, hscope⟩ :=
      Query.effect_seq_le q (srv.view t) t.startedAt srv.seq
    have hothers := Server.setTx_others srv (t.extend (q.effect (srv.view t) t.startedAt srv.seq))
    rw [Tx.extend_owner, hid] at hothers
    exact .inl ⟨rfl, rfl, rfl, hothers, hactivity, hscope⟩
  | decided => exact .inl (.of_txs rfl rfl rfl rfl rfl)

theorem Server.exec_untouched {s : Stmt} {f : Fate} {r : s.Reply}
    (h : srv.exec i s f = some (srv', r)) :
    Untouched i.id srv srv' ∨ ∃ t, t.owner.id = i.id ∧ srv'.log = srv.log ++ [t] := by
  obtain ⟨srv₁, hmoved, rfl⟩ := Server.exec_moved h
  rcases hmoved.untouched with hsame | hcommit
  · exact .inl { hsame with }
  · exact .inr hcommit

variable {c c₀ : Config}

/-- The step is one of session `i`, which goes on or lets go of the server. -/
def IsOwn (i : ℕ) (l : Label) : Prop := l = .drop i ∨ ∃ f, l = .step i f

/-- Letting go of the server leaves everything alone for the others, and nothing open. -/
theorem drop_untouched {i : ℕ} {c₁ c₂ : Config} (hstep : Machine.step c₁ (.drop i) = some c₂) :
    Untouched i c₁.shared c₂.shared ∧ ∀ t ∈ c₂.shared.txs, t.owner.id ≠ i := by
  have hend : ∀ op, Untouched i c₁.shared (c₁.shared.endTx ⟨i, op⟩) ∧
      ∀ t ∈ (c₁.shared.endTx ⟨i, op⟩).txs, t.owner.id ≠ i := fun op =>
    ⟨Untouched.endTx ⟨i, op⟩ c₁.shared, fun t ht => (Server.mem_endTx ht).2⟩
  simp only [Machine.step] at hstep
  split at hstep
  · cases hstep
    exact hend _
  · cases hstep
    exact hend _
  · cases hstep

/-- A step of a session leaves everything alone for the others, or its commit is logged. -/
theorem step_untouched {i : ℕ} {c₁ c₂ : Config} {l : Label} (hl : IsOwn i l)
    (hstep : Machine.step c₁ l = some c₂) :
    Untouched i c₁.shared c₂.shared ∨
      ∃ t, t.owner.id = i ∧ c₂.shared.log = c₁.shared.log ++ [t] := by
  rcases hl with rfl | ⟨f, rfl⟩
  · exact .inl (drop_untouched hstep).1
  · simp only [Machine.step] at hstep
    split at hstep
    · next op s k hp =>
      obtain ⟨⟨srv, r⟩, he, rfl⟩ := Option.map_eq_some_iff.mp hstep
      exact Server.exec_untouched he
    · cases hstep

/-- Between two moments of a run the tables grow by what is committed in between, and by nothing
else. -/
theorem Later.db_eq (h : Later c₀ c) :
    c.shared.db = (c.shared.log.drop c₀.shared.log.length).foldl
      (fun db t => db.putAll t.writes) c₀.shared.db := by
  obtain ⟨more, hmore⟩ := h.grown.log
  rw [h.reachable.inv.db, h.before.inv.db, ← hmore, List.drop_left]
  exact List.foldl_append

/-- What the commits in between do not change is as it was. -/
theorem Later.preserves {α : Type} {g : Db → α} (h : Later c₀ c)
    (hs : ∀ n t cmd ws activityId view, c₀.shared.log.length ≤ n → c.shared.Commit n cmd view →
      Mutation (c.shared.asOf n) t cmd ws activityId view →
      g ((c.shared.asOf n).putAll t.writes) = g (c.shared.asOf n)) :
    g c.shared.db = g c₀.shared.db := by
  rw [h.reachable.db_eq, h.before.db_eq, ← h.asOf (Nat.le_refl _)]
  refine h.reachable.commit_induction_from (P := fun m => g (c.shared.asOf m) = _) rfl ?_
    h.grown.log.length_le (Nat.le_refl _)
  intro n t cmd ws activityId view hn ih hc hm hsucc
  rw [hsucc, hs n t cmd ws activityId view hn hc hm, ih]

/-- A session on its own, with whatever its statements turn out to be. -/
theorem run_untouched {i : ℕ} {c₁ c₂ : Config} {fs : List Fate}
    (hall : ∀ {d l d'}, Machine.Reaches c₁ d → IsOwn i l → Machine.step d l = some d' →
      Machine.Reaches d' c₂ → Untouched i d.shared d'.shared)
    (h : Machine.run c₁ (fs.map (.step i)) = some c₂) : Untouched i c₁.shared c₂.shared := by
  induction fs generalizing c₁ with
  | nil =>
    cases h
    exact Untouched.refl i _
  | cons f fs ih =>
    obtain ⟨d, hstep, hrest⟩ := Option.bind_eq_some_iff.mp h
    have hfirst := hall (Machine.Reaches.refl c₁) (.inr ⟨f, rfl⟩) hstep ⟨_, hrest⟩
    refine hfirst.trans (ih (fun hd => hall ((Machine.Reaches.of_step hstep).trans hd)) hrest)

/-- No step of a session without a commit has touched anything of the others. -/
theorem Reachable.own_untouched (h : Reachable c) {i : Session Op} (hknown : Config.Known c i)
    (hnot : ∀ t ∈ c.shared.log, t.owner ≠ i) {c₁ c₂ : Config} {l : Label} (hc₁ : Reachable c₁)
    (hl : IsOwn i.id l) (hstep : Machine.step c₁ l = some c₂) (hreach : Machine.Reaches c₂ c) :
    Untouched i.id c₁.shared c₂.shared := by
  rcases step_untouched hl hstep with hsame | ⟨t, hid, hlog⟩
  · exact hsame
  -- its commit would be in the log
  · have hlater : Later c₂ c := ⟨hc₁.trans (Machine.Reaches.of_step hstep), hreach⟩
    have hn := hlater.log (n := c₁.shared.log.length) (t := t) (by simp [hlog])
    exact absurd (h.owner_eq hknown hn hid) (hnot t (List.mem_of_getElem? hn))

/-- When it has been alone, everything is as before once it has let go. -/
theorem Reachable.alone_untouched (h : Reachable c) {i : Session Op} (hknown : Config.Known c i)
    (hnot : ∀ t ∈ c.shared.log, t.owner ≠ i) {c₀ c' : Config} {fs : List Fate}
    (hc₀ : Reachable c₀) (hi : i.id = c₀.procs.length)
    (hrun : Machine.run c₀ (.start i.op :: fs.map (.step i.id)) = some c)
    (hdrop : Machine.step c (.drop i.id) = some c') :
    c'.shared.db = c₀.shared.db ∧ c'.shared.log = c₀.shared.log ∧
      c'.shared.txs = c₀.shared.txs := by
  obtain ⟨c₁, hstart, hrest⟩ := Option.bind_eq_some_iff.mp hrun
  cases hstart
  have hc₁ : Reachable ⟨c₀.shared, c₀.procs ++ [⟨i.op, some (program i.op)⟩]⟩ :=
    hc₀.trans (Machine.Reaches.of_step (l := .start i.op) rfl)
  have hsame := run_untouched (fun hd => h.own_untouched hknown hnot (hc₁.trans hd)) hrest
  obtain ⟨hlast, hnone⟩ := drop_untouched hdrop
  have hall := hsame.trans hlast
  have hidle : ∀ t ∈ c₀.shared.txs, t.owner.id ≠ i.id := by
    have hfresh := ((reachable_good hc₀).fresh i (by omega)).1
    intro t ht
    simpa using List.find?_eq_none.mp hfresh t ht
  refine ⟨hall.db, hall.log, ?_⟩
  have hothers := hall.others
  rw [List.filter_eq_self.mpr (by simpa using hnone)] at hothers
  exact hothers.trans (List.filter_eq_self.mpr (by simpa using hidle))

/-- A key under which nobody commits keeps its receipt. -/
theorem Later.command?_eq (h : Later c₀ c) {key : CommandKey}
    (hkey : ∀ n cmd view, c₀.shared.log.length ≤ n → c.shared.Commit n cmd view →
      cmd.key ≠ key) : c.shared.db.command? key = c₀.shared.db.command? key := by
  refine h.preserves (g := fun db => db.command? key) ?_
  intro n t cmd ws activityId view hn hc hm
  show ((c.shared.asOf n).putAll t.writes).command? key = _
  rw [hm.command?_eq, if_neg (hkey n cmd view hn hc), Option.or_none]

/-- A hold to which nobody commits stays as it is. -/
theorem Later.hold_eq (h : Later c₀ c) {hold : String}
    (hhold : ∀ n cmd view, c₀.shared.log.length ≤ n → c.shared.Commit n cmd view →
      cmd.holdId ≠ hold) :
    c.shared.db.hold? hold = c₀.shared.db.hold? hold ∧
      c.shared.db.scopesOf hold = c₀.shared.db.scopesOf hold ∧
      c.shared.db.activityOf hold = c₀.shared.db.activityOf hold := by
  have hother : ∀ n t cmd ws activityId view, c₀.shared.log.length ≤ n →
      c.shared.Commit n cmd view → Mutation (c.shared.asOf n) t cmd ws activityId view → _ :=
    fun n t cmd ws activityId view hn hc hm => hm.other_hold (hhold n cmd view hn hc).symm
  refine ⟨h.preserves (g := fun db => db.hold? hold) ?_,
    h.preserves (g := fun db => db.scopesOf hold) ?_,
    h.preserves (g := fun db => db.activityOf hold) ?_⟩
  · exact fun n t cmd ws activityId view hn hc hm =>
      (hother n t cmd ws activityId view hn hc hm).1
  · exact fun n t cmd ws activityId view hn hc hm =>
      (hother n t cmd ws activityId view hn hc hm).2.1
  · exact fun n t cmd ws activityId view hn hc hm =>
      (hother n t cmd ws activityId view hn hc hm).2.2

/-- **All or nothing**: when a mutation has returned an error and its commit was not
carried out, no step of its session has changed anything for the others but for numbers
it has drawn, and had it been alone everything would be as before once it has let go;
the tables are what the commits of the others have made of them; so its key is free and
its hold as it was, unless another session has committed under that key or to that
hold. -/
theorem failed_mutation {i : Session Op} {cmd : Command} {e : StorageError} (h : Reachable c)
    (hr : Returned c i.id i.op (.error e)) (_ : i.op.command? = some cmd)
    (hnot : ∀ t ∈ c.shared.log, t.owner ≠ i) :
    (∀ {c₁ l c₂}, Reachable c₁ → IsOwn i.id l → Machine.step c₁ l = some c₂ →
      Machine.Reaches c₂ c → Untouched i.id c₁.shared c₂.shared) ∧
    (∀ {c₀ c' : Config} {fs : List Fate}, Reachable c₀ → i.id = c₀.procs.length →
      Machine.run c₀ (.start i.op :: fs.map (.step i.id)) = some c →
      Machine.step c (.drop i.id) = some c' →
      c'.shared.db = c₀.shared.db ∧ c'.shared.log = c₀.shared.log ∧
        c'.shared.txs = c₀.shared.txs) ∧
    (∀ {c₀}, Later c₀ c →
      c.shared.db = (c.shared.log.drop c₀.shared.log.length).foldl
        (fun db t => db.putAll t.writes) c₀.shared.db ∧
      ((∀ n cmd' view, c₀.shared.log.length ≤ n → c.shared.Commit n cmd' view →
        cmd'.key ≠ cmd.key) →
          c.shared.db.command? cmd.key = c₀.shared.db.command? cmd.key) ∧
      ((∀ n cmd' view, c₀.shared.log.length ≤ n → c.shared.Commit n cmd' view →
        cmd'.holdId ≠ cmd.holdId) →
          c.shared.db.hold? cmd.holdId = c₀.shared.db.hold? cmd.holdId ∧
          c.shared.db.scopesOf cmd.holdId = c₀.shared.db.scopesOf cmd.holdId ∧
          c.shared.db.activityOf cmd.holdId = c₀.shared.db.activityOf cmd.holdId)) ∧
    (c.shared.db.command? cmd.key = none ∨
      ∃ n t cmd' view, c.shared.log[n]? = some t ∧ t.owner ≠ i ∧
        c.shared.Commit n cmd' view ∧ cmd'.key = cmd.key) := by
  have hknown : Config.Known c i := Config.known_of_returned hr
  refine ⟨h.own_untouched hknown hnot, h.alone_untouched hknown hnot, fun hlater => ?_, ?_⟩
  · exact ⟨hlater.db_eq, hlater.command?_eq, hlater.hold_eq⟩
  -- A receipt with the key of the command was left by some commit, and not by this session.
  · cases hfound : c.shared.db.command? cmd.key with
    | none => exact .inl rfl
    | some row =>
      rw [h.db_eq] at hfound
      obtain ⟨n, -, cmd', view, now, hc, hkey, -, t, ht, -⟩ :=
        (h.command?_iff (Nat.le_refl _)).mp hfound
      exact .inr ⟨n, t, cmd', view, ht, hnot t (List.mem_of_getElem? ht), hc, hkey⟩

end

namespace Sample

/-- The hold `h` is about to be created, and the commit is rejected. -/
def rejected : List Label := .start (create [1]) :: steps 0 7 ++ [.step 0 .failed]

theorem rejected_all_or_nothing :
    ∃ e c', Returned (after rejected) 0 (create [1]) (.error e) ∧
      Machine.step (after rejected) (.drop 0) = some c' ∧ c'.shared.db = initial.shared.db ∧
      c'.shared.log = initial.shared.log ∧ c'.shared.txs = initial.shared.txs := by
  have hr : Returned (after rejected) 0 (create [1])
      (.error (.database "commit create hold" .connection)) := rfl
  obtain ⟨-, halone, -⟩ := failed_mutation (i := ⟨0, create [1]⟩) (reachable_after rejected) hr rfl
    (fun t ht => absurd ht List.not_mem_nil)
  have hrun : Machine.run initial (.start (create [1]) ::
      (List.replicate 7 Fate.done ++ [Fate.failed]).map (.step 0)) = some (after rejected) := rfl
  exact ⟨_, _, hr, rfl, halone (Machine.Reaches.refl initial) rfl hrun rfl⟩

end Sample

end LegalHold
