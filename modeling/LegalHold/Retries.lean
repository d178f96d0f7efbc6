import LegalHold.Commits

/-!
# Retries and duplicates

What an idempotency key is good for.  However often a command is attempted, and
whatever fails on the way, it is carried out once and answered with one view.
Two submissions at the same time are another matter: the receipt is looked for
before the hold is locked, and not again.

## Main results

* `mutations_apply_once` — **exactly once**: one attempt changes the tables, all
  that succeed return its view, and a request that differs is turned away.
* `duplicate_iff` — **when a duplicate is answered from the receipt**: exactly
  when it looks for it after the commit.
-/

namespace LegalHold

open Interleave

section

variable [Backend] {c : Config}

/-! ### Attempts one after the other -/

/-- Session `i` of the run is an attempt at the command `cmd`, whatever has become of it. -/
structure Attempt (c : Config) (i : Session Op) (cmd : Command) : Prop where
  known : Config.Known c i
  command : i.op.command? = some cmd

/-- A receipt that was found is the one of the key's commit. -/
theorem Reachable.found (h : Reachable c) {n m : ℕ} {cmd : Command} {view : HoldView}
    {row : CommandRow} (hc : c.shared.Commit n cmd view) (hm : m ≤ c.shared.log.length)
    (hrow : (c.shared.asOf m).command? cmd.key = some row) :
    n < m ∧ row.requestHash = cmd.requestHash ∧ row.response = view.toValue := by
  obtain ⟨n', hn', cmd', view', now, hc', hkey, rfl, -⟩ := (h.command?_iff hm).mp hrow
  obtain rfl := h.key_unique hc' hc hkey
  obtain ⟨rfl, rfl⟩ := Server.commit_unique hc' hc
  exact ⟨hn', rfl, rfl⟩

/-- A session that has committed under the key is the one that has. -/
theorem Reachable.owner_of_key (h : Reachable c) {n m : ℕ} {t t' : Tx} {cmd cmd' : Command}
    (hn : c.shared.log[n]? = some t) (hm : c.shared.log[m]? = some t')
    (hcmd : t.owner.op.command? = some cmd) (hcmd' : t'.owner.op.command? = some cmd')
    (hkey : cmd.key = cmd'.key) : t = t' := by
  obtain ⟨c₁, ws, activityId, view, -, hc₁⟩ := h.commit hn
  obtain ⟨c₂, ws', activityId', view', -, hc₂⟩ := h.commit hm
  obtain ⟨t₁, ht₁, hcmd₁, -⟩ := id hc₁
  obtain ⟨t₂, ht₂, hcmd₂, -⟩ := id hc₂
  cases ht₁.symm.trans hn
  cases ht₂.symm.trans hm
  cases hcmd₁.symm.trans hcmd
  cases hcmd₂.symm.trans hcmd'
  obtain rfl := h.key_unique hc₁ hc₂ hkey
  exact Option.some.inj (hn.symm.trans hm)

/-- A request that differs from the one committed before it began. -/
theorem Later.mismatched {c₀ : Config} (h : Later c₀ c) {n : ℕ} {cmd cmd' : Command}
    {view : HoldView} (hc : c₀.shared.Commit n cmd view) {i : Session Op}
    (hi : c₀.procs.length ≤ i.id) (hcmd' : i.op.command? = some cmd') (hkey : cmd'.key = cmd.key)
    (hhash : cmd'.requestHash ≠ cmd.requestHash) {r : Except StorageError Answer}
    (hr : Returned c i.id i.op r) :
    r = .error (.domain .idempotencyConflict) ∨
      (∃ e ∈ c.shared.eventsOf i, e.fate ≠ .done) ∧
        ∃ operation, r = .error (.database operation .connection) := by
  have hlast := h.commit hc
  have hlt := Server.commit_lt hc
  -- the session has looked after the commit, so it has found the receipt
  have hfound : ∀ e, Looked c.shared i e → ∃ row,
      (c.shared.asOf e.seen).command? cmd'.key = some row ∧
        row.requestHash = cmd.requestHash := by
    intro e looked
    have hmem := (Server.receiptRead_mem looked.read).1
    have hseen := h.seen hi hmem
    obtain ⟨now, hrow⟩ := h.reachable.command?_of_commit (m := e.seen) hlast (by omega)
    rw [← hkey] at hrow
    exact ⟨_, hrow, rfl⟩
  obtain ⟨r', rfl, hout⟩ := h.reachable.outcome hr hcmd'
  cases hout with
  | @faulted operation e mem fate => exact .inr ⟨⟨e, mem, fate⟩, operation, rfl⟩
  | replayed looked found same =>
    obtain ⟨row, hrow, hsame⟩ := hfound _ looked
    cases hrow.symm.trans found
    exact absurd (same.symm.trans hsame) hhash
  | mismatched looked found other => exact .inl rfl
  | committed looked unseen untaken logged owner mutation =>
    obtain ⟨row, hrow, -⟩ := hfound _ looked
    cases hrow.symm.trans unseen
  | taken looked unseen taken => exact .inl rfl
  | refused looked unseen untaken other =>
    obtain ⟨row, hrow, -⟩ := hfound _ looked
    cases hrow.symm.trans unseen

/-- **Exactly once**, whatever fails and however often a command is attempted.
An attempt that differs from the one carried out before it began is turned away
with a conflict, unless it meets a failure of its own. -/
theorem mutations_apply_once (h : Reachable c) :
    (∀ {i j : Session Op} {cmd cmd' : Command}, Attempt c i cmd → Attempt c j cmd' →
      cmd.key = cmd'.key → Changed c i → Changed c j → i = j) ∧
    (∀ {i : Session Op} {cmd : Command} {view : HoldView}, Attempt c i cmd →
      Returned c i.id i.op (.ok (.hold view)) → ∃ n cmd₀, c.shared.Commit n cmd₀ view ∧
        cmd₀.key = cmd.key ∧ cmd₀.requestHash = cmd.requestHash) ∧
    (∀ {i j : Session Op} {cmd cmd' : Command} {view view' : HoldView}, Attempt c i cmd →
      Attempt c j cmd' → cmd.key = cmd'.key → Returned c i.id i.op (.ok (.hold view)) →
      Returned c j.id j.op (.ok (.hold view')) → view = view') ∧
    ∀ {c₀ : Config} {n : ℕ} {cmd cmd' : Command} {view : HoldView} {i : Session Op},
      Later c₀ c → c₀.shared.Commit n cmd view → c₀.procs.length ≤ i.id → Attempt c i cmd' →
      cmd'.key = cmd.key → cmd'.requestHash ≠ cmd.requestHash →
      ¬ Changed c i ∧ ∀ r, Returned c i.id i.op r →
        r = .error (.domain .idempotencyConflict) ∨
          (∃ e ∈ c.shared.eventsOf i, e.fate ≠ .done) ∧
            ∃ operation, r = .error (.database operation .connection) := by
  refine ⟨?_, fun hi hr => h.ok hr hi.command, ?_, ?_⟩
  · intro i j cmd cmd' hi hj hkey hci hcj
    obtain ⟨n, t, hn, rfl⟩ := hci.commit hi.known
    obtain ⟨m, t', hm, rfl⟩ := hcj.commit hj.known
    rw [h.owner_of_key hn hm hi.command hj.command hkey]
  · intro i j cmd cmd' view view' hi hj hkey hr hr'
    obtain ⟨n, cmd₀, hc, hkey₀, -⟩ := h.ok hr hi.command
    obtain ⟨m, cmd₁, hc', hkey₁, -⟩ := h.ok hr' hj.command
    obtain rfl := h.key_unique hc hc' (hkey₀.trans (hkey.trans hkey₁.symm))
    exact (Server.commit_unique hc hc').2
  · intro c₀ n cmd cmd' view i hlater hc hid hi hkey hhash
    refine ⟨fun hchanged => ?_, fun r hr => hlater.mismatched hc hid hi.command hkey hhash hr⟩
    obtain ⟨m, t', hm, rfl⟩ := hchanged.commit hi.known
    obtain ⟨t, ht, hcmd, -⟩ := hc
    -- It would be the commit of the key, but it began only after that.
    have htt := h.owner_of_key (hlater.log ht) hm hcmd hi.command hkey.symm
    obtain ⟨p, hp, -⟩ := hlater.before.owned.log t (List.mem_of_getElem? ht)
    have hlt := (List.getElem?_eq_some_iff.mp hp).1
    rw [htt] at hlt
    omega

end

namespace Sample

/-- A hold is created, and then the request comes again with other contents. -/
def recreated : Config :=
  after (.start (create [1]) :: steps 0 8 ++ .start (create [2]) :: steps 1 2)

/-- The same run, except that the second attempt does not get through to the database. -/
def disconnected : Config :=
  after (.start (create [1]) :: steps 0 8 ++ [.start (create [2]), .step 1 .failed])

theorem recreated_later : Later (after (.start (create [1]) :: steps 0 8)) recreated :=
  ⟨reachable_after _, .start (create [2]) :: steps 1 2, rfl⟩

theorem disconnected_later : Later (after (.start (create [1]) :: steps 0 8)) disconnected :=
  ⟨reachable_after _, [.start (create [2]), .step 1 .failed], rfl⟩

theorem created_commit :
    ∃ cmd view, (create [1]).command? = some cmd ∧
      (after (.start (create [1]) :: steps 0 8)).shared.Commit 0 cmd view :=
  ⟨_, _, rfl, ⟨⟨0, create [1]⟩, 0, _, _⟩, rfl, rfl, rfl⟩

theorem recreated_unchanged : ¬ Changed recreated ⟨1, create [2]⟩ := by
  obtain ⟨cmd, view, hcmd, hc⟩ := created_commit
  cases hcmd
  have hattempt : Attempt recreated ⟨1, create [2]⟩ _ := ⟨⟨_, rfl, rfl⟩, rfl⟩
  exact ((mutations_apply_once recreated_later.reachable).2.2.2 recreated_later hc
    (Nat.le_of_eq rfl) hattempt rfl (by decide)).1

/-- An attempt with other contents is not always answered with a conflict: its
own statements can fail. -/
theorem mismatched_can_fail :
    ¬ ∀ (c₀ c : Config) (n : ℕ) (cmd cmd' : Command) (view : HoldView) (i : Session Op)
        (r : Except StorageError Answer), Later c₀ c → c₀.shared.Commit n cmd view →
      c₀.procs.length ≤ i.id → Attempt c i cmd' → cmd'.key = cmd.key →
      cmd'.requestHash ≠ cmd.requestHash → Returned c i.id i.op r →
      r = .error (.domain .idempotencyConflict) := by
  intro h
  obtain ⟨cmd, view, hcmd, hc⟩ := created_commit
  cases hcmd
  have hfailed : Returned disconnected 1 (create [2])
      (.error (.database "begin create hold" .connection)) := rfl
  have hattempt : Attempt disconnected ⟨1, create [2]⟩ _ := ⟨⟨_, rfl, rfl⟩, rfl⟩
  have hconflict := h _ disconnected 0 _ _ view ⟨1, create [2]⟩ _ disconnected_later hc
    (Nat.le_of_eq rfl) hattempt rfl (by decide) hfailed
  cases hconflict

end Sample

section

variable [Backend] {c : Config}

/-! ### Attempts at the same time -/

/-- **When a duplicate is answered as its receipt says**: exactly when it has
looked for the receipt after the commit.  A create request with another hash is
also turned away when it finds the hold in place. -/
theorem duplicate_iff (h : Reachable c) {n : ℕ} {cmd cmd' : Command} {view : HoldView} {t : Tx}
    {j : Session Op} {r : Except StorageError Answer} (hc : c.shared.Commit n cmd view)
    (ht : c.shared.log[n]? = some t) (hother : t.owner ≠ j) (hj : Attempt c j cmd')
    (hkey : cmd'.key = cmd.key) (hdone : AllDone c.shared j) (hr : Returned c j.id j.op r) :
    ∃ e, c.shared.receiptRead j = some e ∧
      (((cmd'.requestHash = cmd.requestHash → r = .ok (.hold view)) ∧
        (cmd'.requestHash ≠ cmd.requestHash → r = .error (.domain .idempotencyConflict))) ↔
      n < e.seen ∨ cmd'.requestHash ≠ cmd.requestHash ∧ Taken c.shared j cmd') := by
  have hseen : ∀ {e : Event}, Looked c.shared j e → e.seen ≤ c.shared.log.length :=
    fun looked => h.inv.seen_le (Server.receiptRead_mem looked.read).1
  have hfound : ∀ {e : Event} {row : CommandRow}, Looked c.shared j e →
      (c.shared.asOf e.seen).command? cmd'.key = some row →
      n < e.seen ∧ row.requestHash = cmd.requestHash ∧ row.response = view.toValue := by
    intro e row looked hrow
    rw [hkey] at hrow
    exact h.found hc (hseen looked) hrow
  -- a session that has found no receipt has looked before the commit
  have hmissed : ∀ {e : Event}, Looked c.shared j e →
      (c.shared.asOf e.seen).command? cmd'.key = none → ¬ n < e.seen := by
    intro e looked hnone hlt
    obtain ⟨now, hrow⟩ := h.command?_of_commit hc hlt
    rw [← hkey, hnone] at hrow
    cases hrow
  obtain ⟨r', rfl, hout⟩ := h.outcome hr hj.command
  cases hout with
  | faulted mem fate => exact absurd (hdone _ mem) fate
  | @replayed e row looked found same =>
    obtain ⟨hlt, hhash, hresponse⟩ := hfound looked found
    refine ⟨e, looked.read, fun _ => .inl hlt, fun _ => ⟨fun _ => ?_, fun hne => ?_⟩⟩
    · rw [hresponse, HoldView.fromValue_toValue]
      rfl
    · exact absurd (same.symm.trans hhash) hne
  | @mismatched e row looked found other =>
    obtain ⟨hlt, hhash, -⟩ := hfound looked found
    refine ⟨e, looked.read, fun _ => .inl hlt, fun _ => ⟨fun heq => ?_, fun _ => rfl⟩⟩
    exact absurd (hhash.trans heq.symm) other
  | @committed e looked unseen untaken m t' ws activityId view' logged owner mutation =>
    obtain ⟨t₁, ht₁, hcmd, -⟩ := hc
    cases ht₁.symm.trans ht
    -- Two commits under the key are one, and that one is of the other session.
    have htt := h.owner_of_key ht logged hcmd mutation.command hkey.symm
    rw [htt] at hother
    exact absurd owner hother
  | @taken e looked unseen taken =>
    refine ⟨e, looked.read, fun hright => .inr ⟨fun heq => ?_, taken⟩, fun hcond => ?_⟩
    · cases hright.1 heq
    · rcases hcond with hlt | ⟨hne, -⟩
      · exact absurd hlt (hmissed looked unseen)
      · exact ⟨fun heq => absurd heq hne, fun _ => rfl⟩
  | @refused e error looked unseen untaken other =>
    refine ⟨e, looked.read, fun hright => ?_, fun hcond => ?_⟩
    · by_cases heq : cmd'.requestHash = cmd.requestHash
      · cases hright.1 heq
      · have herror := hright.2 heq
        simp only [Except.map, Except.error.injEq] at herror
        exact absurd herror other
    · rcases hcond with hlt | ⟨-, htaken⟩
      · exact absurd hlt (hmissed looked unseen)
      · exact absurd htaken untaken

end

namespace Sample

/-- Two submissions of one request to add a scope to a hold at revision 1: the
second one looks for the receipt before the first one commits, and takes the lock
after it. -/
def submittedTwice : Config :=
  after (.start (create [1]) :: steps 0 8 ++ .start (add 1) :: .start (add 1) ::
    steps 2 2 ++ steps 1 10 ++ steps 2 1)

/-- The same run, except that the second attempt looks for the receipt after the commit of the
first. -/
def submittedAgain : Config :=
  after (.start (create [1]) :: steps 0 8 ++ .start (add 1) :: .start (add 1) ::
    steps 2 1 ++ steps 1 10 ++ steps 2 1)

theorem submittedTwice_commit :
    ∃ t cmd view, submittedTwice.shared.log[1]? = some t ∧ t.owner = ⟨1, add 1⟩ ∧
      (add 1).command? = some cmd ∧ submittedTwice.shared.Commit 1 cmd view :=
  ⟨⟨⟨1, add 1⟩, 0, _, _⟩, _, _, rfl, rfl, rfl, ⟨⟨1, add 1⟩, 0, _, _⟩, rfl, rfl, rfl⟩

theorem submittedAgain_commit :
    ∃ t cmd view, submittedAgain.shared.log[1]? = some t ∧ t.owner = ⟨1, add 1⟩ ∧
      (add 1).command? = some cmd ∧ submittedAgain.shared.Commit 1 cmd view :=
  ⟨⟨⟨1, add 1⟩, 0, _, _⟩, _, _, rfl, rfl, rfl, ⟨⟨1, add 1⟩, 0, _, _⟩, rfl, rfl, rfl⟩

theorem submittedAgain_replayed :
    ∃ cmd view, submittedAgain.shared.Commit 1 cmd view ∧
      Returned submittedAgain 2 (add 1) (.ok (.hold view)) := by
  obtain ⟨t, cmd, view, ht, howner, hcmd, hc⟩ := submittedAgain_commit
  cases hcmd
  have hother : t.owner ≠ ⟨2, add 1⟩ := by
    rw [howner]
    exact fun heq => absurd (congrArg Session.id heq) (by decide)
  have hreach : Reachable submittedAgain := reachable_after _
  have hdone : AllDone submittedAgain.shared ⟨2, add 1⟩ := all_done rfl
  obtain ⟨r, hr⟩ : ∃ r, Returned submittedAgain 2 (add 1) r := ⟨_, rfl⟩
  obtain ⟨e, hread, hiff⟩ := duplicate_iff hreach hc ht hother ⟨⟨_, rfl, rfl⟩, rfl⟩ rfl hdone hr
  have hseen : (submittedAgain.shared.receiptRead ⟨2, add 1⟩).map (·.seen) = some 2 := rfl
  rw [hread, Option.map_some, Option.some.injEq] at hseen
  have hlt : 1 < e.seen := by omega
  have hok := (hiff.mpr (.inl hlt)).1 rfl
  exact ⟨_, view, hc, hok ▸ hr⟩

/-- A duplicate is not always answered from the receipt. -/
theorem duplicate_can_be_refused :
    ¬ ∀ (c : Config) (n : ℕ) (cmd cmd' : Command) (view : HoldView) (t : Tx) (j : Session Op)
        (r : Except StorageError Answer), Reachable c → (∀ e ∈ c.shared.trace, e.fate = .done) →
      c.shared.Commit n cmd view → c.shared.log[n]? = some t → t.owner ≠ j → Attempt c j cmd' →
      cmd'.key = cmd.key → cmd'.requestHash = cmd.requestHash → Returned c j.id j.op r →
      r = .ok (.hold view) := by
  intro h
  obtain ⟨t, cmd, view, ht, howner, hcmd, hc⟩ := submittedTwice_commit
  cases hcmd
  have hother : t.owner ≠ ⟨2, add 1⟩ := by
    rw [howner]
    exact fun heq => absurd (congrArg Session.id heq) (by decide)
  have hdone : ∀ e ∈ submittedTwice.shared.trace, e.fate = .done := all_done rfl
  have hr : Returned submittedTwice 2 (add 1) (.error (.domain .revisionConflict)) := rfl
  have hok := h submittedTwice 1 _ _ view t ⟨2, add 1⟩ _ (reachable_after _) hdone hc ht hother
    ⟨⟨_, rfl, rfl⟩, rfl⟩ rfl rfl hr
  cases hok

end Sample

end LegalHold
