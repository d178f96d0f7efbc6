import LegalHold.Commits

/-!
# The activity log

What the tables of a run say about one hold: the activity rows tell its events,
the events tell the hold, and after the release there are no more of them.

## Main results

* `Db.Coherent.revision_eq` — the revision counts the activity rows.
* `Reachable.same_revision` — one revision, one state of the hold.
* `activity_determines_hold` — **the activity log determines the hold**.
* `released_hold_unchanged` — **a released hold does not change any more**, and
  what a hold was created with never does.
-/

namespace LegalHold

open Interleave Timeline

section

variable [Backend] {c c' : Config}

/-! ### Events and rows -/

omit [Backend] in
theorem Db.Coherent.length_eventsOf {db : Db} (h : db.Coherent) (hold : String) :
    (db.eventsOf hold).length = (db.activityOf hold).length := by
  have := congrArg List.length (h.reported hold)
  simpa using this.symm

omit [Backend] in
/-- The `n`-th activity row reports the `n`-th event. -/
theorem Db.Coherent.event? {db : Db} (h : db.Coherent) {hold : String} {n : ℕ} {a : ActivityRow}
    (ha : (db.activityOf hold)[n]? = some a) :
    ∃ e, (db.eventsOf hold)[n]? = some e ∧ a.event? = some e := by
  have hget := congrArg (·[n]?) (h.reported hold)
  simp only [List.getElem?_map, ha, Option.map_some] at hget
  obtain ⟨e, he, heq⟩ := Option.map_eq_some_iff.mp hget.symm
  exact ⟨e, he, heq.symm⟩

omit [Backend] in
/-- **The revision counts the activity rows** of the hold. -/
theorem Db.Coherent.revision_eq {db : Db} (h : db.Coherent) {hold : String} {row : HoldRow}
    (hr : db.hold? hold = some row) : row.revision = (db.activityOf hold).length := by
  have hreplay := h.replayed hold
  rw [Db.record?_eq_some hr] at hreplay
  have hrev := Record.revision_eq (h.lawful hold) hreplay
  rw [h.length_eventsOf] at hrev
  exact hrev

omit [Backend] in
theorem Db.Coherent.revision_pos {db : Db} (h : db.Coherent) {hold : String} {row : HoldRow}
    (hr : db.hold? hold = some row) : 1 ≤ row.revision := by
  have hreplay := h.replayed hold
  rw [Db.record?_eq_some hr] at hreplay
  have hne : db.eventsOf hold ≠ [] := by
    intro hnil
    rw [(Record.replay_eq_none_iff (h.lawful hold)).mpr hnil] at hreplay
    cases hreplay
  have hpos := List.length_pos_iff.mpr hne
  rw [h.length_eventsOf] at hpos
  have hrev := h.revision_eq hr
  omega

omit [Backend] in
theorem ActivityRow.kind_of_event? {a : ActivityRow} {e : HoldEvent} (h : a.event? = some e) :
    (a.kind = .holdCreated ↔ ∃ title authority, e.what = .created title authority) ∧
    (a.kind = .holdReleased ↔ ∃ reason, e.what = .released reason) := by
  obtain ⟨what, hwhat, rfl⟩ := Option.map_eq_some_iff.mp h
  unfold ActivityRow.happening? at hwhat
  cases hk : a.kind with
  | holdCreated =>
    simp only [hk] at hwhat
    obtain ⟨title, -, hwhat⟩ := Option.bind_eq_some_iff.mp hwhat
    obtain ⟨title', -, hwhat⟩ := Option.bind_eq_some_iff.mp hwhat
    obtain ⟨authority, -, hwhat⟩ := Option.bind_eq_some_iff.mp hwhat
    obtain ⟨authority', -, hwhat⟩ := Option.bind_eq_some_iff.mp hwhat
    cases hwhat
    simp
  | scopeAdded =>
    simp only [hk] at hwhat
    obtain ⟨scope, -, rfl⟩ := Option.map_eq_some_iff.mp hwhat
    simp
  | scopeRemoved =>
    simp only [hk] at hwhat
    obtain ⟨scope, -, rfl⟩ := Option.map_eq_some_iff.mp hwhat
    simp
  | holdReleased =>
    simp only [hk] at hwhat
    obtain ⟨reason, -, hwhat⟩ := Option.bind_eq_some_iff.mp hwhat
    obtain ⟨reason', -, hwhat⟩ := Option.bind_eq_some_iff.mp hwhat
    cases hwhat
    simp

/-! ### Revisions -/

/-- A mutation leaves a hold alone or takes it to its next revision. -/
theorem Mutation.revision_cases {db : Db} {t : Tx} {cmd : Command} {ws : List Write}
    {activityId : Int} {view : HoldView} (h : Mutation db t cmd ws activityId view)
    {hold : String} {row : HoldRow} (hr : db.hold? hold = some row) :
    hold ≠ cmd.holdId ∧ (db.putAll t.writes).hold? hold = some row ∧
      (db.putAll t.writes).scopesOf hold = db.scopesOf hold ∨
    hold = cmd.holdId ∧ cmd.change.expectedRevision = some row.revision ∧
      ∃ row', (db.putAll t.writes).hold? hold = some row' ∧ row'.revision = row.revision + 1 := by
  by_cases hh : hold = cmd.holdId
  · subst hh
    refine .inr ⟨rfl, ?_⟩
    rw [(h.putAll_writes cmd.holdId).1]
    rcases h.changed.hold? with ⟨hnone, -⟩ |
      ⟨old, revision, hrev, opened, ⟨reason, -, hnew⟩ | ⟨-, hnew⟩⟩
    · rw [hr] at hnone
      cases hnone
    · cases hr.symm.trans opened.found
      exact ⟨by rw [hrev, opened.revision], _, hnew, rfl⟩
    · cases hr.symm.trans opened.found
      exact ⟨by rw [hrev, opened.revision], _, hnew, rfl⟩
  · obtain ⟨hhold, hscopes, -⟩ := h.other_hold hh
    exact .inl ⟨hh, hhold.trans hr, hscopes⟩

/-- **One revision, one state**: the revision of a hold never goes back, and as
long as it is the same nothing about the hold has changed. -/
theorem Reachable.same_revision (h : Reachable c) {n m : ℕ} (hnm : n ≤ m) {hold : String}
    {row : HoldRow} (hr : (c.shared.asOf n).hold? hold = some row) :
    ∃ row', (c.shared.asOf m).hold? hold = some row' ∧ row.revision ≤ row'.revision ∧
      (row'.revision = row.revision → row' = row ∧
        (c.shared.asOf m).scopesOf hold = (c.shared.asOf n).scopesOf hold) := by
  refine h.preserves (P := fun db => ∃ row', db.hold? hold = some row' ∧
    row.revision ≤ row'.revision ∧ (row'.revision = row.revision → row' = row ∧
      db.scopesOf hold = (c.shared.asOf n).scopesOf hold)) hnm
    ⟨row, hr, Int.le_refl _, fun _ => ⟨rfl, rfl⟩⟩ ?_
  rintro db t cmd ws activityId view - hm ⟨row', hr', hle, hsame⟩
  rcases hm.revision_cases hr' with ⟨-, hhold, hscopes⟩ | ⟨-, -, row'', hr'', hrev⟩
  · refine ⟨row', hhold, hle, fun heq => ?_⟩
    obtain ⟨hrow, hold⟩ := hsame heq
    exact ⟨hrow, hscopes.trans hold⟩
  -- A mutation of this hold has left the revision behind for good.
  · exact ⟨row'', hr'', by omega, fun heq => absurd heq (by omega)⟩

/-! ### The log determines the hold -/

/-- **The activity log determines the hold**: in every committed state its rows,
in the order of their numbers, begin with the creation, have no release but as the
last one, follow the law of a hold, and replaying them gives the stored row and
scopes. -/
theorem activity_determines_hold (h : Reachable c) {hold : String} {row : HoldRow}
    (hr : c.shared.db.hold? hold = some row) :
    (c.shared.db.activityOf hold).Pairwise (fun a b => a.activityId < b.activityId) ∧
    (c.shared.db.activityOf hold).map ActivityRow.event? =
      (c.shared.db.eventsOf hold).map some ∧
    (∀ {n : ℕ} {a : ActivityRow}, (c.shared.db.activityOf hold)[n]? = some a →
      (a.kind = .holdCreated ↔ n = 0) ∧
      (a.kind = .holdReleased → n + 1 = (c.shared.db.activityOf hold).length)) ∧
    row.revision = (c.shared.db.activityOf hold).length ∧ 1 ≤ row.revision ∧
    Record.law.replay (c.shared.db.eventsOf hold) =
      some (row.record (c.shared.db.scopesOf hold)) ∧
    ∀ {n : ℕ} {e : HoldEvent} {scope : Scope}, (c.shared.db.eventsOf hold)[n]? = some e →
      (e.what = .scopeAdded scope → ∃ r,
        Record.law.replay ((c.shared.db.eventsOf hold).take n) = some r ∧ ¬ r.Covers scope) ∧
      (e.what = .scopeRemoved scope → ∃ r,
        Record.law.replay ((c.shared.db.eventsOf hold).take n) = some r ∧ r.Covers scope) := by
  have hdb := h.now_coherent
  have hlaw := hdb.lawful hold
  have hreplay := hdb.replayed hold
  rw [Db.record?_eq_some hr] at hreplay
  have hrev := hdb.revision_eq hr
  refine ⟨hdb.ordered hold, hdb.reported hold, ?_, hrev, hdb.revision_pos hr, hreplay, ?_⟩
  · intro n a ha
    obtain ⟨e, he, hae⟩ := hdb.event? ha
    obtain ⟨hcreated, hreleased⟩ := ActivityRow.kind_of_event? hae
    refine ⟨hcreated.trans (Record.created_iff hlaw he), fun hk => ?_⟩
    obtain ⟨reason, hw⟩ := hreleased.mp hk
    rw [← hdb.length_eventsOf]
    exact Record.released_last hlaw he hw
  -- Every event was admitted by the record that those before it had left.
  · intro n e scope he
    have hadmits := hlaw n e he
    cases hprev : Record.law.replay ((c.shared.db.eventsOf hold).take n) with
    | none =>
      rw [hprev] at hadmits
      obtain ⟨title, authority, hw⟩ := hadmits
      constructor <;> intro hw' <;> rw [hw] at hw' <;> cases hw'
    | some r =>
      rw [hprev] at hadmits
      have hallows : r.Allows e.what := hadmits
      constructor <;> intro hw <;> rw [hw] at hallows
      · exact ⟨r, rfl, hallows.2⟩
      · exact ⟨r, rfl, hallows.2⟩

end

namespace Sample

theorem closing_log :
    ∃ row, (after closing).shared.db.hold? "h" = some row ∧ row.revision = 3 ∧
      Record.law.replay ((after closing).shared.db.eventsOf "h") =
        some (row.record ((after closing).shared.db.scopesOf "h")) :=
  ⟨_, rfl, rfl, (activity_determines_hold (reachable_after closing) rfl).2.2.2.2.2.1⟩

end Sample

section

variable [Backend] {c c' : Config}

/-! ### What does not change -/

/-- A released hold is left alone by every mutation. -/
theorem Mutation.released_unchanged {db : Db} {t : Tx} {cmd : Command} {ws : List Write}
    {activityId : Int} {view : HoldView} (h : Mutation db t cmd ws activityId view)
    {hold : String} {row : HoldRow} (hr : db.hold? hold = some row) (hs : row.status = .released) :
    (db.putAll t.writes).hold? hold = db.hold? hold ∧
      (db.putAll t.writes).scopesOf hold = db.scopesOf hold ∧
      (db.putAll t.writes).activityOf hold = db.activityOf hold := by
  refine h.other_hold fun heq => ?_
  subst heq
  rcases h.changed.hold? with ⟨hnone, -⟩ | ⟨old, revision, -, opened, -⟩
  · rw [hr] at hnone
    cases hnone
  · cases hr.symm.trans opened.found
    rw [opened.active] at hs
    cases hs

/-- **A released hold does not change any more**: not its row, not its scopes, not
its activity.  No hold is ever deleted or loses what it was created with, and the
columns of a release are there exactly when it is released. -/
theorem released_hold_unchanged (h : Later c c') {hold : String} {row : HoldRow}
    (hr : c.shared.db.hold? hold = some row) :
    (row.status = .released →
      c'.shared.db.hold? hold = some row ∧
      c'.shared.db.scopesOf hold = c.shared.db.scopesOf hold ∧
      c'.shared.db.activityOf hold = c.shared.db.activityOf hold) ∧
    (∃ row', c'.shared.db.hold? hold = some row' ∧ row'.origin = row.origin) ∧
    (row.status = .released ↔
      row.releasedBy ≠ none ∧ row.releasedAt ≠ none ∧ row.releaseReason ≠ none) ∧
    (row.status = .active →
      row.releasedBy = none ∧ row.releasedAt = none ∧ row.releaseReason = none) := by
  have hlen := h.grown.log.length_le
  have hdb : c'.shared.asOf c.shared.log.length = c.shared.db := by
    rw [h.asOf (Nat.le_refl _), ← h.before.db_eq]
  have hlast := h.reachable.db_eq
  refine ⟨fun hs => ?_, ?_, ?_⟩
  · rw [hlast]
    -- Every later commit has found the hold released, so it was of another one.
    refine h.reachable.preserves (P := fun db => db.hold? hold = some row ∧
      db.scopesOf hold = c.shared.db.scopesOf hold ∧
      db.activityOf hold = c.shared.db.activityOf hold) hlen (by rw [hdb]; exact ⟨hr, rfl, rfl⟩) ?_
    rintro db t cmd ws activityId view - hm ⟨hold', hscopes, hactivity⟩
    obtain ⟨h₁, h₂, h₃⟩ := hm.released_unchanged hold' hs
    exact ⟨h₁.trans hold', h₂.trans hscopes, h₃.trans hactivity⟩
  · rw [hlast]
    refine h.reachable.inv.hold?_mono hlen ?_
    rw [hdb]
    exact hr
  · have hcoherent : c.shared.db.Coherent := h.before.db_eq ▸ h.before.coherent _
    have hreplay := hcoherent.replayed hold
    rw [Db.record?_eq_some hr] at hreplay
    obtain ⟨hby, hat, hreason⟩ := Record.closed (hcoherent.lawful hold) hreplay
    simp only [HoldRow.record] at hby hat hreason
    cases hs : row.status with
    | released =>
      rw [hs] at hby hat hreason
      simp only [true_iff] at hby hat hreason
      simp [Option.isSome_iff_ne_none.mp hby, Option.isSome_iff_ne_none.mp hat,
        Option.isSome_iff_ne_none.mp hreason]
    | active =>
      rw [hs] at hby hat hreason
      simp only [reduceCtorEq, false_iff, Option.not_isSome_iff_eq_none] at hby hat hreason
      simp [hby, hat, hreason]

end

namespace Sample

/-- Somebody tries to take the scope out of the released hold, and is told that it is released. -/
def overtime : List Label := closing ++ .start (remove 2) :: steps 3 3

theorem overtime_later : Later (after closing) (after overtime) :=
  ⟨reachable_after closing, .start (remove 2) :: steps 3 3, rfl⟩

/-- The attempt has come as far as the status of the hold, and has changed nothing. -/
theorem overtime_unchanged :
    Returned (after overtime) 3 (remove 2) (.error (.domain .holdReleased)) ∧
      (after overtime).shared.db.scopesOf "h" = (after closing).shared.db.scopesOf "h" ∧
      (after overtime).shared.db.activityOf "h" = (after closing).shared.db.activityOf "h" :=
  ⟨rfl, ((released_hold_unchanged overtime_later rfl).1 rfl).2⟩

end Sample

end LegalHold
