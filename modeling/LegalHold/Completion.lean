import LegalHold.Deadlock
import LegalHold.Interleave.Budget
import LegalHold.Interleave.Completion

/-!
# Every call comes to its end

No operation issues more statements than a number that its input tells, however its sessions
are interleaved and whatever the replies: there are no retries and no loops but the one over a
page of holds.  As waiting does not go round in circles, somebody can always go on; so a
database left to its sessions brings all of them to their end and is left with no open
transaction.

## Main definitions

* `Op.statements` — how many statements an operation issues at most.
* `Op.budget` — the same as a budget of the machine.

## Main results

* `statements_bounded` — **no session issues more statements**, and a run no more than all of
  its sessions together.
* `sessions_complete` — **every session can be brought to return**, with no transaction left.
-/

namespace LegalHold

open Interleave

/-- The most statements an operation can issue: those of a transaction, or one for the page and
those of `get_hold` for each hold on it. -/
def Op.statements : Op → ℕ
  | .createHold _ => 8
  | .addScope _ => 10
  | .removeScope _ => 10
  | .releaseHold _ => 9
  | .getHold .. => 4
  | .listHolds _ _ _ limit => 1 + (if limit < 0 then 200 else limit.toNat) * 4
  | .listActivity .. => 5
  | .checkRetention _ => 2

section

variable [Backend]

/-! ### Counting the statements of a program -/

omit [Backend] in
theorem issue_spends {operation : String} {s : Stmt} :
    Spends 1 (issue operation s) fun _ => True := by
  intro r
  cases r <;> exact fun _ _ => trivial

omit [Backend] in
theorem ret_spends {α : Type} {r : Except StorageError α} :
    Spends 0 (ExceptT.mk (.ret r) : Storage α) fun _ => True := Spends.ret fun _ _ => trivial

omit [Backend] in
theorem refuse_spends {α : Type} {failure : DomainFailure} {n : ℕ} :
    Spends n (refuse failure : Storage α) fun _ => True := Spends.ret fun _ _ => trivial

omit [Backend] in
theorem replay_spends {caller actor key : String} {operation : Operation} {hash : List UInt8} :
    Spends 1 (replay caller actor operation key hash) fun _ => True := by
  refine Spends.bind (n := 1) (m := 0) issue_spends fun row _ => ?_
  cases row with
  | none => exact ret_spends
  | some row =>
    dsimp only
    split <;> exact ret_spends

theorem loadHoldTx_spends {org h : String} : Spends 2 (loadHoldTx org h) fun _ => True := by
  refine Spends.bind (n := 1) (m := 1) issue_spends fun row _ => ?_
  cases row with
  | none => exact refuse_spends
  | some row => exact Spends.bind (n := 1) (m := 0) issue_spends fun rows _ => ret_spends

/-- The activity row, the view, the receipt and the commit. -/
theorem conclude_spends {c : Command} {operation : String} :
    Spends 5 (c.conclude operation) fun _ => True := by
  refine Spends.bind (n := 1) (m := 4) issue_spends fun _ _ => ?_
  refine Spends.bind (n := 2) (m := 2) loadHoldTx_spends fun view _ => ?_
  refine Spends.bind (n := 1) (m := 1) issue_spends fun _ _ => ?_
  exact Spends.bind (n := 1) (m := 0) issue_spends fun _ _ => ret_spends

omit [Backend] in
theorem start_spends {caller actor key operation : String} {op : Operation} {hash : List UInt8}
    {fresh : Storage HoldView} {n : ℕ} (hfresh : Spends n fresh fun _ => True) :
    Spends (2 + n) (do
      issue operation .begin
      match ← replay caller actor op key hash with
      | some response => decodeResponse response
      | none => fresh) fun _ => True := by
  rw [Nat.add_comm 2 n, Nat.add_comm n 2, Nat.add_assoc 1 1 n]
  refine Spends.bind (n := 1) (m := 1 + n) issue_spends fun _ _ => ?_
  refine Spends.bind (n := 1) (m := n) replay_spends fun response _ => ?_
  cases response with
  | some response => exact ret_spends.mono (Nat.zero_le n) fun _ _ => trivial
  | none => exact hfresh

omit [Backend] in
theorem checked_spends {org h : String} {revision : Int} {rest : Storage HoldView} {n : ℕ}
    (hrest : Spends n rest fun _ => True) :
    Spends (1 + n) (do
      let (status, found) ← lockHold org h
      if status ≠ .active then refuse .holdReleased
      else if found ≠ revision then refuse .revisionConflict
      else rest) fun _ => True := by
  have hlock : Spends 1 (lockHold org h) fun _ => True := by
    refine Spends.bind (n := 1) (m := 0) issue_spends fun (row : Option (Status × Int)) _ => ?_
    cases row with
    | none => exact refuse_spends
    | some row => exact ret_spends
  refine hlock.bind fun row _ => ?_
  dsimp only
  refine Spends.ite (fun _ => refuse_spends) fun _ => ?_
  exact Spends.ite (fun _ => refuse_spends) fun _ => hrest

omit [Backend] in
theorem changed_spends {change : Storage ℕ} {h : String} {rest : Storage HoldView} {n : ℕ}
    (hchange : Spends 1 change fun _ => True) (hrest : Spends n rest fun _ => True) :
    Spends (1 + (1 + n)) (do
      let changed ← change
      if changed ≠ 1 then refuse .scopeConflict
      else
        issue "advance legal hold revision" (.query (.advanceRevision h))
        rest) fun _ => True := by
  refine hchange.bind fun changed _ => ?_
  refine Spends.ite (fun _ => refuse_spends) fun _ => ?_
  exact Spends.bind (n := 1) (m := n) issue_spends fun _ _ => hrest

theorem getHold_spends {org h : String} : Spends 4 (getHold org h) fun _ => True := by
  refine Spends.bind (n := 1) (m := 3) issue_spends fun _ _ => ?_
  refine Spends.bind (n := 2) (m := 1) loadHoldTx_spends fun view _ => ?_
  exact Spends.bind (n := 1) (m := 0) issue_spends fun _ _ => ret_spends

theorem collect_spends {org : String} (ids : List String) :
    Spends (ids.length * 4) (listHolds.collect org ids) fun _ => True := by
  induction ids with
  | nil => exact ret_spends
  | cons h rest ih =>
    rw [List.length_cons, Nat.succ_mul, Nat.add_comm]
    refine Spends.bind (n := 4) (m := rest.length * 4) getHold_spends fun view _ => ?_
    exact Spends.bind (m := 0) ih fun views _ => ret_spends

/-- **An operation issues no more statements**, whatever the replies. -/
theorem program_spends (op : Op) : Spends op.statements (program op) fun _ => True := by
  cases op with
  | createHold input =>
    refine Spends.map (start_spends (n := 6) ?_)
    refine Spends.bind (n := 1) (m := 5) issue_spends fun (inserted : ℕ) _ => ?_
    exact Spends.ite (fun _ => refuse_spends) fun _ => conclude_spends (c := input.command)
  | addScope input =>
    refine Spends.map (start_spends (n := 8) (checked_spends (n := 7) ?_))
    exact changed_spends (n := 5) issue_spends (conclude_spends (c := input.command true))
  | removeScope input =>
    refine Spends.map (start_spends (n := 8) (checked_spends (n := 7) ?_))
    exact changed_spends (n := 5) issue_spends (conclude_spends (c := input.command false))
  | releaseHold input =>
    refine Spends.map (start_spends (n := 7) (checked_spends (n := 6) ?_))
    exact Spends.bind (n := 1) (m := 5) issue_spends fun _ _ =>
      conclude_spends (c := input.command)
  | getHold org h => exact Spends.map getHold_spends
  | listHolds org status cursor limit =>
    refine Spends.map ?_
    refine Spends.bind (n := 1) issue_spends fun (rows : List String) _ => ?_
    -- No more holds are read than fit on the page, however many ids were returned.
    have hpage : Spends ((if limit < 0 then 200 else limit.toNat) * 4)
        (listHolds.collect org (rows.take (if limit < 0 then 200 else limit.toNat)))
        fun _ => True := by
      refine (collect_spends _).mono (Nat.mul_le_mul_right 4 ?_) fun _ _ => trivial
      exact List.length_take_le _ _
    exact Spends.bind (m := 0) hpage fun views _ => ret_spends
  | listActivity org h after limit =>
    refine Spends.map ?_
    refine Spends.bind (n := 4) (m := 1) getHold_spends fun view _ => ?_
    refine Spends.bind (n := 1) (m := 0) issue_spends fun rows _ => ?_
    exact Spends.bind (n := 0) (m := 0) (Q := fun _ => True) ret_spends fun events _ =>
      ret_spends
  | checkRetention input =>
    refine Spends.map ?_
    refine Spends.bind (n := 1) (m := 1) issue_spends fun rows _ => ?_
    exact Spends.bind (n := 1) (m := 0) issue_spends fun _ _ => ret_spends

/-! ### The budget of a run -/

/-- A statement is noted for its own session only. -/
theorem Server.exec_spends {srv srv' : Server} {i : Session Op} {s : Stmt} {f : Fate}
    {r : s.Reply} (h : srv.exec i s f = some (srv', r)) (j : Session Op) :
    (srv'.eventsOf j).length = (srv.eventsOf j).length + if i.id = j.id then 1 else 0 := by
  obtain ⟨srv₁, hmoved, rfl⟩ := Server.exec_moved h
  unfold Server.eventsOf Server.note
  rw [hmoved.trace, List.filter_append, List.length_append, List.filter_singleton]
  by_cases hij : i.id = j.id <;> simp [hij]

/-- The bound on the statements of each operation, as a budget that a session spends with every
statement. -/
@[reducible] def budget : Budget machine where
  total := Op.statements
  spent i srv := (srv.eventsOf i).length
  prog op := Prog.Takes.mono (program_spends op) (Nat.le_refl _) fun _ _ => trivial
  exec {i _ _ _ _ _} he :=
    ⟨(Server.exec_spends he i).trans (congrArg _ (if_pos rfl)), fun j hj =>
      (Server.exec_spends he j).trans (congrArg _ (if_neg (Ne.symm hj)))⟩
  release _ _ _ := rfl
  move _ _ _ := rfl

variable {c d : Config}

theorem Reachable.budget_holds (h : Reachable c) : budget.assertion.Holds c :=
  Budget.reaches (fun _ => rfl) h

/-- **No session issues more statements than its operation may**, and a run issues no more than
all of its sessions together: nothing is retried, and whatever is returned by the database, the
loop over a page ends with the page. -/
theorem statements_bounded (h : Reachable c) :
    (∀ i op p, c.procs[i]? = some ⟨op, p⟩ →
      (c.shared.eventsOf ⟨i, op⟩).length ≤ op.statements) ∧
    c.shared.trace.length ≤
      ∑ i ∈ Finset.range c.procs.length, (c.procs[i]?).elim 0 fun p => p.op.statements := by
  have hbudget := h.budget_holds
  have hsession : ∀ i op p, c.procs[i]? = some ⟨op, p⟩ →
      (c.shared.eventsOf ⟨i, op⟩).length ≤ op.statements := by
    intro i op p hi
    obtain ⟨n, hn, -⟩ := hbudget.procs i op p hi
    exact Nat.le_trans (Nat.le_add_right _ n) hn
  refine ⟨hsession, ?_⟩
  -- Every statement is of one of the sessions.
  have hkeys : ∀ e ∈ c.shared.trace, e.session.id < c.procs.length := by
    intro e he
    obtain ⟨p, hp, -⟩ := h.owned.trace e he
    exact (List.getElem?_eq_some_iff.mp hp).1
  rw [length_eq_sum_filter hkeys]
  refine Finset.sum_le_sum fun i hi => ?_
  rw [List.getElem?_eq_getElem (Finset.mem_range.mp hi)]
  exact hsession i _ _ (List.getElem?_eq_getElem (Finset.mem_range.mp hi))

/-! ### Somebody can go on -/

omit [Backend] in
theorem Tx.rank_le (t : Tx) : t.rank ≤ 2 := by
  unfold Tx.rank
  split
  · omega
  · split <;> omega

omit [Backend] in
theorem Server.rank_le (srv : Server) (i : ℕ) : srv.rank i ≤ 2 := by
  unfold Server.rank
  cases srv.txs.find? fun t => t.owner.id = i with
  | none => exact Nat.zero_le 2
  | some t => exact t.rank_le

/-- Every open transaction belongs to a session that is still running and will end it. -/
def NoneAbandoned (c : Config) : Prop := ∀ t ∈ c.shared.txs, Running c t.owner.id

/-- **Somebody can go on**, when no transaction has been abandoned: whoever waits, waits for
somebody who has come further, and has a transaction. -/
theorem Reachable.somebody_goes_on (h : Reachable c) (hopen : NoneAbandoned c) {A : ℕ → Prop}
    (hA : ∀ t ∈ c.shared.txs, A t.owner.id) {i : ℕ} (hi : Running c i) (hiA : A i) :
    ∃ j d, A j ∧ Machine.step c (.step j .done) = some d := by
  -- By induction on how far the session could still come.
  induction hn : 2 - c.shared.rank i using Nat.strongRecOn generalizing i with
  | ind n ih =>
    subst hn
    cases hstep : Machine.step c (.step i .done) with
    | some d => exact ⟨i, d, hiA, hstep⟩
    | none =>
      obtain ⟨op, s, k, hp⟩ := hi
      obtain ⟨j, hwaits⟩ := (waits_iff hp).mp hstep
      have hrank := h.waits_rank hwaits
      have hle := c.shared.rank_le j
      obtain ⟨-, -, -, -, t, -, -, ht, rfl, -⟩ := hwaits
      exact ih _ (by omega) (hopen t ht) (hA t ht) rfl

omit [Backend] in
/-- A transaction fewer is open when one is given up. -/
theorem Server.endTx_lt {srv : Server} {t : Tx} (ht : t ∈ srv.txs) :
    (srv.endTx t.owner).txs.length < srv.txs.length := by
  refine Nat.lt_of_le_of_ne (List.length_filter_le _ _) fun heq => ?_
  have hall := List.length_filter_eq_length_iff.mp heq t ht
  simp at hall

/-- A session among some brings in no transaction of another. -/
theorem Config.owners_among {A : ℕ → Prop} (hA : ∀ t ∈ c.shared.txs, A t.owner.id) {j : ℕ}
    {f : Fate} (hj : A j) (hstep : Machine.step c (.step j f) = some d) :
    ∀ t ∈ d.shared.txs, A t.owner.id := by
  simp only [Machine.step] at hstep
  split at hstep
  · obtain ⟨⟨st, r⟩, he, rfl⟩ := Option.map_eq_some_iff.mp hstep
    intro t ht
    rcases (Server.exec_owners he).1 t ht with howner | ⟨t₀, ht₀, howner⟩
    · rw [howner]
      exact hj
    · rw [howner]
      exact hA t₀ ht₀
  · cases hstep

/-- **Sessions can be brought to their end**, and the database to where no transaction is open,
if all that have one are among them. -/
theorem Reachable.finishes (h : Reachable c) {A : ℕ → Prop}
    (hA : ∀ t ∈ c.shared.txs, A t.owner.id) :
    Finishes Fate.done (fun srv : Server => srv.txs = []) A c := by
  -- What goes down is what is left of the budgets, and then the number of open transactions.
  refine finishes_of_measure (M := machine)
    (I := fun c => Reachable c ∧ ∀ t ∈ c.shared.txs, A t.owner.id)
    (fun c => toLex (budget.left c, c.shared.txs.length)) ?_ ⟨h, hA⟩
  rintro c ⟨hc, hA⟩
  by_cases hopen : NoneAbandoned c
  · by_cases hrun : ∃ i, A i ∧ Running c i
    · obtain ⟨i, hiA, hi⟩ := hrun
      obtain ⟨j, d, hj, hstep⟩ := hc.somebody_goes_on hopen hA hi hiA
      refine .inr ⟨j, d, hj, .inl hstep, ⟨hc.trans (Machine.Reaches.of_step hstep), ?_⟩,
        Prod.Lex.left _ _ (Budget.left_step hc.budget_holds hstep)⟩
      exact Config.owners_among hA hj hstep
    · refine .inl ⟨fun i hiA hi => hrun ⟨i, hiA, hi⟩, ?_⟩
      exact List.eq_nil_iff_forall_not_mem.mpr fun t ht => hrun ⟨_, hA t ht, hopen t ht⟩
  -- An abandoned transaction is given up, without a statement.
  · unfold NoneAbandoned at hopen
    push Not at hopen
    obtain ⟨t, ht, hended⟩ := hopen
    obtain ⟨p, hp, hop⟩ := hc.owned.tx t ht
    have hdrop := step_drop_ended hp hended
    rw [hop] at hdrop
    refine .inr ⟨_, _, hA t ht, .inr ⟨hended, hdrop⟩, ⟨hc.trans (Machine.Reaches.of_step hdrop),
      fun t' ht' => hA t' (Server.mem_endTx ht').1⟩, ?_⟩
    have hleft : budget.left ⟨machine.release t.owner c.shared, c.procs⟩ = budget.left c :=
      Budget.left_drop rfl
    exact hleft ▸ Prod.Lex.right _ (Server.endTx_lt ht)

/-- **Every session can be brought to return.**  From any configuration that a run has led to,
with whatever sessions waiting for each other, however many statements have failed or sessions
been dropped: as long as some session has not returned, one of the statements to be issued can
be executed once the transactions of sessions that are gone have been given up; and so a
database left to its sessions gets all of them to return, and is left with no open
transaction. -/
theorem sessions_complete (h : Reachable c) :
    (NoneAbandoned c → (∃ i, Running c i) →
      ∃ j d, Machine.step c (.step j .done) = some d) ∧
    ∃ d, Settles Fate.done c d ∧ d.shared.txs = [] ∧
      ∀ i op p, c.procs[i]? = some ⟨op, some p⟩ → ∃ r, Returned d i op r := by
  constructor
  · rintro hopen ⟨i, hi⟩
    obtain ⟨j, d, -, hstep⟩ :=
      h.somebody_goes_on hopen (A := fun _ => True) (fun _ _ => trivial) hi trivial
    exact ⟨j, d, hstep⟩
  · obtain ⟨d, hsettles, hopen, hended⟩ :=
      (h.finishes (A := fun _ => True) fun _ _ => trivial).settles
    refine ⟨d, hsettles, hopen, fun i op p hi => ?_⟩
    obtain ⟨p', hp'⟩ := hsettles.kept hi
    exact returned_of_ended hp' (hended i trivial)

end

namespace Sample

/-- The session that holds the lock and the one that waits for it both return. -/
theorem contended_completes : ∃ d : Config, Settles Fate.done (after contended) d ∧
    (∃ r, Returned d 1 (add 1) r) ∧ ∃ r, Returned d 2 (release 1) r := by
  obtain ⟨d, hsettles, -, hall⟩ := (sessions_complete (reachable_after contended)).2
  exact ⟨d, hsettles, hall 1 _ _ rfl, hall 2 _ _ rfl⟩

/-- Nine statements are the most that a release takes. -/
theorem closing_bounded : ((after closing).shared.eventsOf ⟨2, release 2⟩).length ≤ 9 :=
  (statements_bounded (reachable_after closing)).1 2 _ _ rfl

end Sample

end LegalHold
