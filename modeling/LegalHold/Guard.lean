import LegalHold.Ledger

/-!
# The retention guard

The guard decides from the tables; what it should decide is a matter of history:
a request is blocked by a scope that was added and not removed since, on a hold
that was not released.  Both say the same, for whatever the sessions have done.

## Main definitions

* `Command.Adds`, `Command.Removes`, `Command.Releases` — commands as they matter
  to the guard.
* `Server.commands` — the commands carried out, in commit order.
* `Blocks` — the history of a hold blocks a request.

## Main results

* `Reachable.stands_iff` — a scope row is there when its addition still stands.
* `guard_exact` — **the guard denies exactly what history blocks**.
-/

namespace LegalHold

open Interleave Timeline

/-! ### Commands on a tuple -/

namespace Command

/-- The command puts the tuple under the hold. -/
def Adds (hold : String) (scope : Scope) (cmd : Command) : Prop :=
  cmd.holdId = hold ∧ ∃ revision, cmd.change = .addScope scope revision

/-- The command takes this very scope, with kind, id and subject, out of the hold. -/
def Removes (hold : String) (scope : Scope) (cmd : Command) : Prop :=
  cmd.holdId = hold ∧ ∃ revision, cmd.change = .removeScope scope revision

/-- The command releases this hold. -/
def Releases (hold : String) (cmd : Command) : Prop :=
  cmd.holdId = hold ∧ ∃ reason revision, cmd.change = .release reason revision

end Command

/-- The tuples that block a request: the one for its subject and the one for all
subjects. -/
def RetentionCheck.scopes (input : RetentionCheck) : List Scope :=
  [⟨input.scopeKind, input.scopeId, none⟩, ⟨input.scopeKind, input.scopeId, some input.subject⟩]

theorem RetentionCheck.mem_scopes {input : RetentionCheck} {scope : Scope} :
    scope ∈ input.scopes ↔ scope.scopeKind = input.scopeKind ∧ scope.scopeId = input.scopeId ∧
      (scope.subject = none ∨ scope.subject = some input.subject) := by
  obtain ⟨kind, id, subject⟩ := scope
  unfold scopes
  simp only [List.mem_cons, Scope.mk.injEq, List.not_mem_nil, or_false]
  tauto

/-- The commands that have been carried out, in the order of their commits. -/
def Server.commands (srv : Server) : List Command :=
  srv.log.filterMap fun t => t.owner.op.command?

/-- After these commands the hold blocks the request: one of the scopes that concern it has been
added and not been removed since, and the hold has not been released. -/
def Blocks (commands : List Command) (hold : String) (input : RetentionCheck) : Prop :=
  (∃ scope ∈ input.scopes,
    Stands (Command.Adds hold scope) (Command.Removes hold scope) commands) ∧
  ∀ cmd ∈ commands, ¬ cmd.Releases hold

section

variable [Backend] {c : Config}

/-! ### Rows and commands -/

/-- What a mutation makes of the presence of a tuple. -/
theorem Mutation.hasScope_iff {db : Db} {t : Tx} {cmd : Command} {ws : List Write}
    {activityId : Int} {view : HoldView} (h : Mutation db t cmd ws activityId view)
    {hold : String} {scope : Scope} :
    (db.putAll t.writes).HasScope hold scope ↔
      cmd.Adds hold scope ∨ db.HasScope hold scope ∧ ¬ cmd.Removes hold scope := by
  unfold Command.Adds Command.Removes
  -- A command is about one hold, and leaves the scopes of all others alone.
  by_cases hh : cmd.holdId = hold
  · subst hh
    unfold Db.HasScope
    rw [(h.putAll_writes cmd.holdId).2]
    cases h.changed with
    | create change absent => simp [change]
    | @addScope scope' revision scopeRowId row change opened absent drawn =>
      simp only [Db.putAll_cons, Db.putAll_nil, Db.scopesOf_updateHold, Db.scopesOf_insertScope,
        if_true, change, Change.addScope.injEq, true_and, exists_eq_right', reduceCtorEq,
        exists_false, not_false_eq_true, and_true, List.mem_append, List.mem_singleton]
      constructor
      · rintro ⟨row', hrow' | rfl, rfl⟩
        · exact .inr ⟨row', hrow', rfl⟩
        · exact .inl rfl
      · rintro (rfl | ⟨row', hrow', rfl⟩)
        · exact ⟨_, .inr rfl, rfl⟩
        · exact ⟨row', .inl hrow', rfl⟩
    | @removeScope scope' revision row change opened present =>
      simp only [Db.putAll_cons, Db.putAll_nil, Db.scopesOf_updateHold, Db.scopesOf_deleteScope,
        if_true, change, Change.removeScope.injEq, true_and, exists_eq_right', reduceCtorEq,
        exists_false, false_or, List.mem_filter, decide_eq_true_eq]
      constructor
      · rintro ⟨row', ⟨hrow', hne⟩, rfl⟩
        exact ⟨⟨row', hrow', rfl⟩, fun heq => hne heq.symm⟩
      · rintro ⟨⟨row', hrow', rfl⟩, hne⟩
        exact ⟨row', ⟨hrow', fun heq => hne heq.symm⟩, rfl⟩
    | release change opened => simp [change]
  · unfold Db.HasScope
    rw [(h.other_hold (Ne.symm hh)).2.1]
    simp [hh]

/-- What a mutation makes of the status of a hold. -/
theorem Mutation.released_iff {db : Db} {t : Tx} {cmd : Command} {ws : List Write}
    {activityId : Int} {view : HoldView} (h : Mutation db t cmd ws activityId view)
    {hold : String} :
    (∃ row, (db.putAll t.writes).hold? hold = some row ∧ row.status = .released) ↔
      (∃ row, db.hold? hold = some row ∧ row.status = .released) ∨ cmd.Releases hold := by
  unfold Command.Releases
  by_cases hh : cmd.holdId = hold
  · subst hh
    rw [(h.putAll_writes cmd.holdId).1]
    rcases h.changed.hold? with ⟨hnone, title, reason, authority, change, hnew⟩ |
      ⟨old, revision, hrev, opened, ⟨reason, change, hnew⟩ | ⟨hno, hnew⟩⟩
    · rw [hnew, hnone, change]
      simp [createdRow]
    · rw [hnew, opened.found, change]
      simp [HoldRow.released]
    · rw [hnew, opened.found]
      have hactive := opened.active
      -- `hno` is about the revision found; a release expects no other.
      have hother : ∀ reason revision', cmd.change ≠ .release reason revision' := by
        intro reason revision' heq
        rw [heq] at hrev
        cases hrev
        exact hno reason heq
      simp [HoldRow.advanced, hactive, hother]
  · rw [(h.other_hold (Ne.symm hh)).1]
    simp [hh]

theorem Reachable.commands_eq (h : Reachable c) :
    c.shared.commands.map some = c.shared.log.map fun t => t.owner.op.command? := by
  have hall : ∀ t ∈ c.shared.log, ∃ cmd, t.owner.op.command? = some cmd := by
    intro t ht
    obtain ⟨n, hn⟩ := List.getElem?_of_mem ht
    obtain ⟨cmd, ws, activityId, view, hm, -⟩ := h.commit hn
    exact ⟨cmd, hm.command⟩
  unfold Server.commands
  generalize c.shared.log = log at hall
  induction log with
  | nil => rfl
  | cons t log ih =>
    obtain ⟨cmd, hcmd⟩ := hall t List.mem_cons_self
    have hcons : (t :: log).filterMap (fun t => t.owner.op.command?) =
        cmd :: log.filterMap fun t => t.owner.op.command? := List.filterMap_cons_some hcmd
    rw [hcons, List.map_cons, List.map_cons, hcmd,
      ih fun t' ht' => hall t' (List.mem_cons_of_mem _ ht')]

/-- The commands carried out are those of the commits. -/
theorem Reachable.commands_iff (h : Reachable c) {n : ℕ} {cmd : Command} :
    c.shared.commands[n]? = some cmd ↔ ∃ view, c.shared.Commit n cmd view := by
  have hget := congrArg (·[n]?) h.commands_eq
  simp only [List.getElem?_map] at hget
  constructor
  · intro hn
    rw [hn, Option.map_some] at hget
    obtain ⟨t, ht, hcmd⟩ := Option.map_eq_some_iff.mp hget.symm
    obtain ⟨cmd', ws, activityId, view, hm, hc⟩ := h.commit ht
    cases hcmd.symm.trans hm.command
    exact ⟨view, hc⟩
  · rintro ⟨view, t, ht, hcmd, -⟩
    rw [ht, Option.map_some, hcmd] at hget
    obtain ⟨cmd', hcmd', heq⟩ := Option.map_eq_some_iff.mp hget
    cases heq
    exact hcmd'

/-- One more commit is one more command, at the end of those before it. -/
theorem Reachable.commands_take_succ (h : Reachable c) {n : ℕ} {cmd : Command} {view : HoldView}
    (hc : c.shared.Commit n cmd view) :
    c.shared.commands.take (n + 1) = c.shared.commands.take n ++ [cmd] := by
  rw [List.take_add_one, h.commands_iff.mpr ⟨view, hc⟩]
  rfl

/-- Induction over the commits of a run: what holds of the empty tables and is kept by every
mutation holds after every commit. -/
theorem Reachable.commit_induction (h : Reachable c) {P : ℕ → Prop} (h0 : P 0)
    (hs : ∀ n t cmd ws activityId view, P n → c.shared.Commit n cmd view →
      Mutation (c.shared.asOf n) t cmd ws activityId view →
      c.shared.asOf (n + 1) = (c.shared.asOf n).putAll t.writes → P (n + 1)) :
    ∀ {m : ℕ}, m ≤ c.shared.log.length → P m := fun hm =>
  h.commit_induction_from h0 (fun n t cmd ws activityId view _ => hs n t cmd ws activityId view)
    (Nat.zero_le _) hm

/-- **A scope row is there when its addition stands.** -/
theorem Reachable.stands_iff (h : Reachable c) {m : ℕ} (hm : m ≤ c.shared.log.length)
    {hold : String} {scope : Scope} :
    Stands (Command.Adds hold scope) (Command.Removes hold scope) (c.shared.commands.take m) ↔
      (c.shared.asOf m).HasScope hold scope := by
  refine h.commit_induction (P := fun m => Stands (Command.Adds hold scope)
    (Command.Removes hold scope) (c.shared.commands.take m) ↔
      (c.shared.asOf m).HasScope hold scope) ?_ ?_ hm
  · refine iff_of_false not_stands_nil ?_
    rintro ⟨row, hrow, -⟩
    cases hrow
  · intro n t cmd ws activityId view ih hc hmut hsucc
    rw [h.commands_take_succ hc, stands_snoc, ih, hsucc, hmut.hasScope_iff]

/-- **A hold is released when a release of it was carried out.** -/
theorem Reachable.released_iff (h : Reachable c) {m : ℕ} (hm : m ≤ c.shared.log.length)
    (hold : String) :
    (∃ cmd ∈ c.shared.commands.take m, cmd.Releases hold) ↔
      ∃ row, (c.shared.asOf m).hold? hold = some row ∧ row.status = .released := by
  refine h.commit_induction (P := fun m => (∃ cmd ∈ c.shared.commands.take m, cmd.Releases hold) ↔
    ∃ row, (c.shared.asOf m).hold? hold = some row ∧ row.status = .released) ?_ ?_ hm
  · constructor
    · rintro ⟨cmd, hcmd, -⟩
      cases hcmd
    · rintro ⟨row, hrow, -⟩
      cases hrow
  · intro n t cmd ws activityId view ih hc hmut hsucc
    rw [h.commands_take_succ hc, hsucc, hmut.released_iff, ← ih]
    simp [List.mem_append, or_and_right, exists_or]

/-! ### The guard's query -/

/-- The rows the guard joins are those of active holds with a blocking tuple. -/
theorem Server.mem_matching_iff {db : Db} (hdb : db.Coherent) {input : RetentionCheck}
    {hold : String} {revision : Int} :
    (hold, revision) ∈ matching db input.scopeKind input.scopeId input.subject ↔
      ∃ row, db.hold? hold = some row ∧ row.status = .active ∧ row.revision = revision ∧
        ∃ scope ∈ input.scopes, db.HasScope hold scope := by
  unfold matching
  rw [List.mem_insertionSort, List.mem_flatMap]
  constructor
  · rintro ⟨row, hrow, hmem⟩
    obtain ⟨s, hs, heq⟩ := List.mem_map.mp hmem
    cases heq
    simp only [List.mem_filter, decide_eq_true_eq] at hs
    obtain ⟨hs, hid, hactive, hscope⟩ := hs
    refine ⟨row, Db.hold?_of_mem hdb.holds_nodup hrow, hactive, rfl, s.toScope,
      RetentionCheck.mem_scopes.mpr hscope, s, ?_, rfl⟩
    exact List.mem_filter.mpr ⟨hs, by simpa using hid⟩
  · rintro ⟨row, hrow, hactive, rfl, scope, hscope, s, hs, rfl⟩
    have hid := Db.holdId_of_hold? hrow
    subst hid
    obtain ⟨hs, hsid⟩ := List.mem_filter.mp hs
    refine ⟨row, List.mem_of_find?_eq_some hrow, List.mem_map.mpr ⟨s, ?_, rfl⟩⟩
    simp only [List.mem_filter, decide_eq_true_eq] at hsid ⊢
    exact ⟨hs, hsid, hactive, RetentionCheck.mem_scopes.mp hscope⟩

/-- **The query finds what history blocks**: it finds some hold in the tables after a commit
exactly when some hold blocks the request by the commands up to there. -/
theorem Reachable.matching_iff (h : Reachable c) {m : ℕ} (hm : m ≤ c.shared.log.length)
    {input : RetentionCheck} :
    Server.matching (c.shared.asOf m) input.scopeKind input.scopeId input.subject ≠ [] ↔
      ∃ hold, Blocks (c.shared.commands.take m) hold input := by
  have hdb := h.coherent m
  have hblocks : ∀ {hold : String}, Blocks (c.shared.commands.take m) hold input ↔
      ∃ row, (c.shared.asOf m).hold? hold = some row ∧ row.status = .active ∧
        ∃ scope ∈ input.scopes, (c.shared.asOf m).HasScope hold scope := by
    intro hold
    have hreleased := h.released_iff hm hold
    unfold Blocks
    simp only [h.stands_iff hm]
    constructor
    · rintro ⟨⟨scope, hscope, hhas⟩, hnone⟩
      -- The foreign key: a scope row is there, so its hold is.
      cases hr : (c.shared.asOf m).hold? hold with
      | none =>
        obtain ⟨s, hs, -⟩ := hhas
        rw [hdb.orphan hold hr] at hs
        cases hs
      | some row =>
        refine ⟨row, rfl, ?_, scope, hscope, hhas⟩
        cases hs : row.status with
        | active => rfl
        | released =>
          obtain ⟨cmd, hcmd, hrel⟩ := hreleased.mpr ⟨row, hr, hs⟩
          exact absurd hrel (hnone cmd hcmd)
    · rintro ⟨row, hr, hactive, hscope⟩
      refine ⟨hscope, fun cmd hcmd hrel => ?_⟩
      obtain ⟨row', hr', hs⟩ := hreleased.mp ⟨cmd, hcmd, hrel⟩
      cases hr.symm.trans hr'
      rw [hactive] at hs
      cases hs
  constructor
  · intro hne
    obtain ⟨⟨hold, revision⟩, hmem⟩ := List.exists_mem_of_ne_nil _ hne
    obtain ⟨row, hr, hactive, -, hscope⟩ := (Server.mem_matching_iff hdb).mp hmem
    exact ⟨hold, hblocks.mpr ⟨row, hr, hactive, hscope⟩⟩
  · rintro ⟨hold, hb⟩
    obtain ⟨row, hr, hactive, hscope⟩ := hblocks.mp hb
    have hmem := (Server.mem_matching_iff hdb).mpr ⟨row, hr, hactive, rfl, hscope⟩
    exact List.ne_nil_of_mem hmem

/-! ### Decisions -/

/-- What the plugin sees to for its scope requests: each carries the digest of its
contents, and the digests of different contents differ. -/
structure Hashed (c : Config) : Prop where
  digest : ∀ {i : Session Op} {input : ScopeRequest}, Config.Known c i → i.op = .addScope input →
    input.requestHash = Backend.digest input.hashInput
  collisionFree : ∀ {i j : Session Op} {input input' : ScopeRequest}, Config.Known c i →
    Config.Known c j → i.op = .addScope input → j.op = .addScope input' →
    Backend.digest input.hashInput = Backend.digest input'.hashInput →
    input.hashInput = input'.hashInput

/-- An `add_scope` that has returned `Ok` has been committed, at this moment or when it was
carried out for the first time: the commit is the one of its key that has made the view. -/
theorem Reachable.added (h : Reachable c) (hashed : Hashed c) {i : Session Op}
    {input : ScopeRequest} (hop : i.op = .addScope input) {view : HoldView}
    (hr : Returned c i.id i.op (.ok (.hold view))) :
    ∃ n cmd, c.shared.Commit n cmd view ∧ cmd.key = (input.command true).key ∧
      cmd.Adds input.holdId input.scope := by
  have hcmd : i.op.command? = some (input.command true) := by rw [hop]; rfl
  obtain ⟨n, cmd, hc, hkey, hhash⟩ := h.ok hr hcmd
  obtain ⟨t, ht, howner, -⟩ := id hc
  -- the commit is of an `add_scope` too, and its contents have the same digest
  obtain ⟨input', hop', rfl⟩ : ∃ input', t.owner.op = .addScope input' ∧
      cmd = input'.command true := by
    have hoperation := congrArg CommandKey.operation hkey
    cases ho : t.owner.op with
    | addScope input' =>
      rw [ho] at howner
      cases howner
      exact ⟨input', rfl, rfl⟩
    | createHold input' => rw [ho] at howner; cases howner; cases hoperation
    | removeScope input' => rw [ho] at howner; cases howner; cases hoperation
    | releaseHold input' => rw [ho] at howner; cases howner; cases hoperation
    | _ => rw [ho] at howner; cases howner
  have hknown : Config.Known c t.owner := h.owned.log t (List.mem_of_getElem? ht)
  have hknown' : Config.Known c i := Config.known_of_returned hr
  have hdigest : Backend.digest input'.hashInput = Backend.digest input.hashInput := by
    rw [← hashed.digest hknown hop', ← hashed.digest hknown' hop]
    exact hhash
  obtain ⟨-, hhold, hscope⟩ :=
    ScopeRequest.hashInput_inj (hashed.collisionFree hknown hknown' hop' hop hdigest)
  exact ⟨n, _, hc, hkey, hhold, input'.expectedRevision, by rw [← hscope]; rfl⟩

/-- Nothing is added to a hold that has been released before. -/
theorem Reachable.not_released_of_adds (h : Reachable c) {n : ℕ} {cmd : Command}
    {view : HoldView} (hc : c.shared.Commit n cmd view) {hold : String} {scope : Scope}
    (hadds : cmd.Adds hold scope) : ∀ cmd' ∈ c.shared.commands.take n, ¬ cmd'.Releases hold := by
  intro cmd' hcmd' hrel
  have hlt := Server.commit_lt hc
  obtain ⟨row, hr, hs⟩ := (h.released_iff (Nat.le_of_lt hlt) _).mp ⟨cmd', hcmd', hrel⟩
  obtain ⟨t, ws, activityId, -, hm, -⟩ := h.mutation hc
  obtain ⟨rfl, revision, hchange⟩ := hadds
  rcases hm.changed.hold? with ⟨hnone, -⟩ | ⟨old, revision', -, opened, -⟩
  · rw [hr] at hnone
    cases hnone
  · cases hr.symm.trans opened.found
    rw [opened.active] at hs
    cases hs

/-- What a check has decided, from what history blocked when its query ran. -/
theorem Reachable.checked (h : Reachable c) {j : ℕ} {input : RetentionCheck} {d : GuardDecision}
    (hr : Returned c j (.checkRetention input) (.ok (.decision d))) :
    ∃ e ∈ c.shared.eventsOf ⟨j, .checkRetention input⟩,
      e.stmt = .pool (.matchHolds input.scopeKind input.scopeId input.subject) ∧
      (d.allowed = false ↔ ∃ hold, Blocks (c.shared.commands.take e.seen) hold input) := by
  obtain ⟨-, d', e, heq, hchecked⟩ := returned_post h hr _ rfl
  cases heq
  refine ⟨e, hchecked.mem, hchecked.stmt, ?_⟩
  rw [← h.matching_iff (h.inv.seen_le hchecked.mem), hchecked.decision]
  unfold guardDecision
  simp

/-- The history blocks the request by an addition that nothing has undone. -/
theorem Reachable.blocks_of_adds (h : Reachable c) {n k : ℕ} {cmd : Command} {view : HoldView}
    {hold : String} {scope : Scope} {input : RetentionCheck} (hc : c.shared.Commit n cmd view)
    (hadds : cmd.Adds hold scope) (hscope : scope ∈ input.scopes) (hnk : n < k)
    (hstands : ∀ {m : ℕ} {cmd' : Command}, n < m → m < k → c.shared.commands[m]? = some cmd' →
      ¬ cmd'.Removes hold scope ∧ ¬ cmd'.Releases hold) :
    Blocks (c.shared.commands.take k) hold input := by
  have htake : (c.shared.commands.take k)[n]? = some cmd := by
    rw [List.getElem?_take_of_lt hnk]
    exact h.commands_iff.mpr ⟨view, hc⟩
  have hafter : ∀ {m : ℕ} {cmd' : Command}, n < m →
      (c.shared.commands.take k)[m]? = some cmd' →
      ¬ cmd'.Removes hold scope ∧ ¬ cmd'.Releases hold := by
    intro m cmd' hnm hm
    have hlt : m < k := by
      have := (List.getElem?_eq_some_iff.mp hm).1
      rw [List.length_take] at this
      omega
    rw [List.getElem?_take_of_lt hlt] at hm
    exact hstands hnm hlt hm
  refine ⟨⟨scope, hscope, n, cmd, htake, hadds, fun m b hnm hm => (hafter hnm hm).1⟩,
    fun cmd' hmem hrel => ?_⟩
  obtain ⟨m, hm⟩ := List.getElem?_of_mem hmem
  -- A release before the addition is ruled out by the addition itself.
  rcases Nat.lt_trichotomy m n with hmn | rfl | hnm
  · refine h.not_released_of_adds hc hadds cmd' (List.mem_of_getElem? (i := m) ?_) hrel
    rw [List.getElem?_take_of_lt hmn]
    rw [List.getElem?_take_of_lt (by omega)] at hm
    exact hm
  · cases htake.symm.trans hm
    obtain ⟨-, revision, hchange⟩ := hadds
    obtain ⟨-, reason, revision', hchange'⟩ := hrel
    rw [hchange] at hchange'
    cases hchange'
  · exact (hafter hnm hm).2 hrel

/-- Removing one scope from a hold removes no other scope from it. -/
theorem Reachable.other_hasScope (h : Reachable c) {n : ℕ} {cmd : Command} {view : HoldView}
    {hold : String} {scope scope' : Scope} (hc : c.shared.Commit n cmd view)
    (hremoves : cmd.Removes hold scope) (hne : scope' ≠ scope) :
    (c.shared.asOf (n + 1)).HasScope hold scope' ↔ (c.shared.asOf n).HasScope hold scope' := by
  obtain ⟨t, ws, activityId, -, hm, hsucc⟩ := h.mutation hc
  rw [hsucc, hm.hasScope_iff]
  obtain ⟨-, revision, hchange⟩ := hremoves
  unfold Command.Adds Command.Removes
  rw [hchange]
  simp [Ne.symm hne]

/-- **The guard denies exactly what history blocks.**  Once an `add_scope` has returned `Ok`, a
check that is invoked afterwards is allowed only when a removal of that tuple or a release of
that hold has been committed after the very commit that has been acknowledged and before the
query of the guard has run; and removing one tuple removes no other. -/
theorem guard_exact (h : Reachable c) :
    (∀ {j : ℕ} {input : RetentionCheck} {d : GuardDecision},
      Returned c j (.checkRetention input) (.ok (.decision d)) →
      ∃ e ∈ c.shared.eventsOf ⟨j, .checkRetention input⟩,
        e.stmt = .pool (.matchHolds input.scopeKind input.scopeId input.subject) ∧
        (d.allowed = false ↔ ∃ hold, Blocks (c.shared.commands.take e.seen) hold input)) ∧
    (∀ {c₀ : Config} {i j : ℕ} {added : ScopeRequest} {view : HoldView} {input : RetentionCheck}
        {d : GuardDecision}, Later c₀ c → Hashed c₀ →
      Returned c₀ i (.addScope added) (.ok (.hold view)) → added.scope ∈ input.scopes →
      c₀.procs.length ≤ j → Returned c j (.checkRetention input) (.ok (.decision d)) →
      d.allowed = true → ∃ (n : ℕ) (cmd : Command), c₀.shared.Commit n cmd view ∧
        cmd.key = (added.command true).key ∧ cmd.Adds added.holdId added.scope ∧
        ∃ e ∈ c.shared.eventsOf ⟨j, .checkRetention input⟩,
          e.stmt = .pool (.matchHolds input.scopeKind input.scopeId input.subject) ∧
          ∃ (m : ℕ) (cmd' : Command), n < m ∧ m < e.seen ∧
            c.shared.commands[m]? = some cmd' ∧
            (cmd'.Removes added.holdId added.scope ∨ cmd'.Releases added.holdId)) ∧
    ∀ {n : ℕ} {cmd : Command} {view : HoldView} {hold : String} {scope scope' : Scope},
      c.shared.Commit n cmd view → cmd.Removes hold scope → scope' ≠ scope →
      ((c.shared.asOf (n + 1)).HasScope hold scope' ↔ (c.shared.asOf n).HasScope hold scope') := by
  refine ⟨fun hr => h.checked hr, ?_, fun hc hremoves hne => h.other_hasScope hc hremoves hne⟩
  intro c₀ i j added view input d hlater hashed hr hscope hj hcheck hallowed
  obtain ⟨n, cmd, hc, hkey, hadds⟩ := hlater.before.added hashed (i := ⟨i, .addScope added⟩) rfl hr
  obtain ⟨e, hmem, hstmt, hiff⟩ := h.checked hcheck
  refine ⟨n, cmd, hc, hkey, hadds, e, hmem, hstmt, ?_⟩
  have hseen : c₀.shared.log.length ≤ e.seen := hlater.seen hj hmem
  have hlt := Server.commit_lt hc
  -- Had the tuple not been removed nor the hold released since, the check had been denied.
  by_contra hnone
  push Not at hnone
  have hdenied : d.allowed = false := hiff.mpr ⟨added.holdId,
    h.blocks_of_adds (hlater.commit hc) hadds hscope (by omega) fun hnm hlt' hm =>
      hnone _ _ hnm hlt' hm⟩
  rw [hallowed] at hdenied
  cases hdenied

end

namespace Sample

/-- The guard is asked while `f` is under `h`. -/
def asked : Config := after (holding ++ .start (.checkRetention question) :: steps 2 2)

/-- The guard is asked after `f` has been taken out again. -/
def askedLater : Config :=
  after (holding ++ .start (remove 2) :: steps 2 10 ++
    .start (.checkRetention question) :: steps 3 2)

theorem askedLater_later : Later (after holding) askedLater :=
  ⟨reachable_after holding,
    .start (remove 2) :: steps 2 10 ++ .start (.checkRetention question) :: steps 3 2, rfl⟩

theorem holding_hashed : Hashed (after holding) := by
  have hknown : ∀ {i : Session Op} {input : ScopeRequest}, Config.Known (after holding) i →
      i.op = .addScope input → input = scopeRequest "add" 1 := by
    rintro ⟨id, op⟩ input ⟨p, hp, hop⟩ heq
    have hlt : id < (after holding).procs.length := (List.getElem?_eq_some_iff.mp hp).1
    have hlen : (after holding).procs.length = 2 := rfl
    have hcases : id = 0 ∨ id = 1 := by omega
    cases hop
    rcases hcases with rfl | rfl
    · cases hp
      cases heq
    · cases hp
      cases heq
      rfl
  constructor
  · intro i input hi hop
    rw [hknown hi hop]
    rfl
  · intro i j input input' hi hj hop hop' _
    rw [hknown hi hop, hknown hj hop']

theorem question_answered :
    (∃ (n : ℕ) (hold : String), Blocks (asked.shared.commands.take n) hold question) ∧
      ∃ (m : ℕ) (cmd : Command), askedLater.shared.commands[m]? = some cmd ∧
        (cmd.Removes "h" ⟨"file", "f", none⟩ ∨ cmd.Releases "h") := by
  obtain ⟨hdenied, -⟩ := guard_exact (c := asked) (reachable_after _)
  obtain ⟨-, hallowed, -⟩ := guard_exact askedLater_later.reachable
  constructor
  · have hr : ∃ d : GuardDecision, d.allowed = false ∧
        Returned asked 2 (.checkRetention question) (.ok (.decision d)) := ⟨_, rfl, rfl⟩
    obtain ⟨d, hd, hr⟩ := hr
    obtain ⟨e, -, -, hiff⟩ := hdenied hr
    obtain ⟨hold, hblocks⟩ := hiff.mp hd
    exact ⟨e.seen, hold, hblocks⟩
  · have hadded : ∃ view, Returned (after holding) 1 (add 1) (.ok (.hold view)) := ⟨_, rfl⟩
    have hr : ∃ d : GuardDecision, d.allowed = true ∧
        Returned askedLater 3 (.checkRetention question) (.ok (.decision d)) := ⟨_, rfl, rfl⟩
    obtain ⟨view, hadded⟩ := hadded
    obtain ⟨d, hd, hr⟩ := hr
    obtain ⟨n, cmd, -, -, -, e, -, -, m, cmd', -, -, hm, hcmd'⟩ :=
      hallowed askedLater_later holding_hashed hadded (by decide) (by decide) hr hd
    exact ⟨m, cmd', hm, hcmd'⟩

end Sample

end LegalHold
