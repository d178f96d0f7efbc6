import LegalHold.Filters
import LegalHold.Reasons
import LegalHold.Responses

/-!
# What a later answer shows

Answers do not go back in time.  Once a hold has been shown, by a read, a mutation or the
replay of one, whoever starts afterwards and reads the hold, or changes it, is shown a state
that is no older; in particular it sees what it has written itself.  Only a replay shows what
its receipt has kept.

## Main definitions

* `Server.ShowsSince` — a view of a hold that is no older than a given commit.
* `Config.Current` — a view that a session has read, or that its own commit has left.

## Main results

* `Reachable.showsSince`, `Later.showsSince` — what is shown, and since when.
* `answers_never_older` — **a later answer shows no older state**.
-/

namespace LegalHold

open Interleave

/-- The view shows the row of its hold after at least `lo` commits, with the scopes of that
moment or of a later one. -/
def Server.ShowsSince [Backend] (srv : Server) (lo : ℕ) (view : HoldView) : Prop :=
  ∃ n m row, lo ≤ n ∧ n ≤ m ∧ m ≤ srv.log.length ∧
    (srv.asOf n).hold? view.holdId = some row ∧
    holdView row ((srv.asOf m).sortedScopes view.holdId) = .ok view

section

variable [Backend] {c c' : Config}

/-- The session has read the view, or it is what its own commit has left behind. -/
def Config.Current (c : Config) (j : Session Op) (view : HoldView) : Prop :=
  (∃ org a, j.op.Reads org ∧ Returned c j.id j.op (.ok a) ∧ view ∈ a.views) ∨
    ∃ n t cmd, c.shared.Commit n cmd view ∧ c.shared.log[n]? = some t ∧ t.owner.id = j.id

theorem Server.Commit.showsSince {srv : Server} {n : ℕ} {cmd : Command} {view : HoldView}
    (hc : srv.Commit n cmd view) : srv.ShowsSince n view := by
  obtain ⟨-, row, hrow, hmade⟩ := hc.shows
  exact ⟨n + 1, n + 1, row, Nat.le_succ n, Nat.le_refl _, Server.commit_lt hc, hrow, hmade⟩

/-- A view that has been read is of the state of its first statement, or its scopes of a later
one. -/
theorem Reachable.read_shows (h : Reachable c) {j : Session Op} {org : String}
    {view : HoldView} {e₁ e₂ : Event}
    (hread : ViewRead c.shared j org view.holdId view e₁ e₂) :
    c.shared.ShowsSince e₁.seen view := by
  obtain ⟨row, hrow, -, hmade⟩ := hread.made
  exact ⟨e₁.seen, e₂.seen, row, Nat.le_refl _, hread.order, h.inv.seen_le hread.scopesMem,
    hrow, hmade⟩

theorem Server.ShowsSince.mono {srv : Server} {lo lo' : ℕ} {view : HoldView}
    (h : srv.ShowsSince lo view) (hle : lo' ≤ lo) : srv.ShowsSince lo' view := by
  obtain ⟨n, m, row, hn, rest⟩ := h
  exact ⟨n, m, row, Nat.le_trans hle hn, rest⟩

/-- Every view of an answer is of some state, also that of a replay. -/
theorem Reachable.showsSince (h : Reachable c) {i : ℕ} {op : Op} {a : Answer}
    (hr : Returned c i op (.ok a)) {view : HoldView} (hview : view ∈ a.views) :
    c.shared.ShowsSince 0 view := by
  -- What is read is shown as some committed state had it.
  have hread : ∀ {org : String}, op.Reads org → c.shared.ShowsSince 0 view := by
    intro org hop
    obtain ⟨e₁, e₂, hread⟩ := h.viewRead (i := ⟨i, op⟩) hop hr hview
    exact (h.read_shows hread).mono (Nat.zero_le _)
  -- What a mutation answers with is the hold right after its commit.
  have hmutated : ∀ {cmd : Command}, op.command? = some cmd → c.shared.ShowsSince 0 view := by
    intro cmd hcmd
    obtain ⟨r', heq, -⟩ := h.outcome (i := ⟨i, op⟩) hr hcmd
    cases r' with
    | error e => cases heq
    | ok view' =>
      cases heq
      obtain rfl := List.mem_singleton.mp hview
      obtain ⟨n, cmd₀, hc, -, -⟩ := h.ok (i := ⟨i, op⟩) hr hcmd
      exact hc.showsSince.mono (Nat.zero_le n)
  cases op with
  | createHold input => exact hmutated rfl
  | addScope input => exact hmutated rfl
  | removeScope input => exact hmutated rfl
  | releaseHold input => exact hmutated rfl
  | getHold org hold => exact hread (.inl ⟨hold, rfl⟩)
  | listHolds org status cursor limit => exact hread (.inr ⟨status, cursor, limit, rfl⟩)
  | listActivity org hold after limit =>
    obtain ⟨-, events, next, e, rfl, -⟩ := returned_post h hr a rfl
    cases hview
  | checkRetention input =>
    obtain ⟨-, d, e, rfl, -⟩ := returned_post h hr a rfl
    cases hview

/-- **A session is shown nothing from before its start**, unless it replays a receipt. -/
theorem Later.showsSince (h : Later c c') {j : Session Op} (hj : c.procs.length ≤ j.id)
    {view : HoldView} (hcurrent : Config.Current c' j view) :
    c'.shared.ShowsSince c.shared.log.length view := by
  rcases hcurrent with ⟨org, a, hop, hr, hview⟩ | ⟨n, t, cmd, hc, ht, hid⟩
  · obtain ⟨e₁, e₂, hread⟩ := h.reachable.viewRead hop hr hview
    exact (h.reachable.read_shows hread).mono (h.seen hj hread.rowMem)
  · refine hc.showsSince.mono (Nat.not_lt.mp fun hlt => ?_)
    -- A commit from before is of a session from before.
    obtain ⟨t₀, ht₀⟩ : ∃ t₀, c.shared.log[n]? = some t₀ := ⟨_, List.getElem?_eq_getElem hlt⟩
    cases (h.log ht₀).symm.trans ht
    obtain ⟨p, hp, -⟩ := h.before.owned.log t (List.mem_of_getElem? ht₀)
    have hlt := (List.getElem?_eq_some_iff.mp hp).1
    omega

/-- A released hold is left alone by all later commits. -/
theorem Reachable.released_kept (h : Reachable c) {n m : ℕ} (hnm : n ≤ m) {hold : String}
    {row : HoldRow} (hrow : (c.shared.asOf n).hold? hold = some row)
    (hreleased : row.status = .released) :
    (c.shared.asOf m).hold? hold = some row ∧
      (c.shared.asOf m).scopesOf hold = (c.shared.asOf n).scopesOf hold := by
  refine h.preserves (P := fun db => db.hold? hold = some row ∧
    db.scopesOf hold = (c.shared.asOf n).scopesOf hold) hnm ⟨hrow, rfl⟩ ?_
  rintro db t cmd ws activityId view - hm ⟨hfound, hscopes⟩
  obtain ⟨h₁, h₂, -⟩ := hm.released_unchanged hfound hreleased
  exact ⟨h₁.trans hfound, h₂.trans hscopes⟩

/-- The status and the revision that a view shows. -/
theorem holdView_shown {row : HoldRow} {rows : List ScopeRow} {view : HoldView}
    (h : holdView row rows = .ok view) :
    view.status = row.status.text ∧ view.revision = formatI64 row.revision := by
  obtain ⟨scopes, createdAt, releasedAt, -, -, -, rfl⟩ := holdView_eq_ok.mp h
  exact ⟨rfl, rfl⟩

/-- Two views of one row differ in their scopes at most. -/
theorem holdView_same_row {row : HoldRow} {rows rows' : List ScopeRow} {view view' : HoldView}
    (h : holdView row rows = .ok view) (h' : holdView row rows' = .ok view') :
    { view' with scopes := view.scopes } = view := by
  obtain ⟨scopes, createdAt, releasedAt, -, hc, hr, rfl⟩ := holdView_eq_ok.mp h
  obtain ⟨scopes', createdAt', releasedAt', -, hc', hr', rfl⟩ := holdView_eq_ok.mp h'
  cases hc.symm.trans hc'
  cases hr.symm.trans hr'
  rfl

/-- **A later answer shows no older state.**  When an answer has shown a hold, a session that
starts afterwards, reads the hold or changes it, and does not replay a receipt, is shown a
revision that is no smaller; at the same revision nothing but the scopes can differ, and a hold
that was shown released is shown just as it was.  Nor is the hold missed by anyone who asks for
it. -/
theorem answers_never_older (h : Later c c') {i : ℕ} {op : Op} {a : Answer}
    (hr : Returned c i op (.ok a)) {view : HoldView} (hview : view ∈ a.views)
    {j : Session Op} (hj : c.procs.length ≤ j.id) :
    (∀ view', Config.Current c' j view' → view'.holdId = view.holdId →
      ∃ r r' : Int, view.revision = formatI64 r ∧ view'.revision = formatI64 r' ∧ r ≤ r' ∧
        (r = r' → { view' with scopes := view.scopes } = view) ∧
        (view.status = Status.released.text → view' = view)) ∧
      (j.op = .getHold view.organizationId view.holdId →
        ¬ Returned c' j.id j.op (.error (.domain .notFound))) := by
  obtain ⟨n, m, row, -, hnm, hm, hrow, hmade⟩ := h.before.showsSince hr hview
  have hn : n ≤ c.shared.log.length := Nat.le_trans hnm hm
  rw [← h.asOf hn] at hrow
  rw [← h.asOf hm] at hmade
  refine ⟨fun view' hcurrent hid => ?_, fun hop hmissed => ?_⟩
  · obtain ⟨n', m', row', hn', hnm', hm', hrow', hmade'⟩ := h.showsSince hj hcurrent
    rw [hid] at hrow' hmade'
    have hle : n ≤ n' := Nat.le_trans hn hn'
    obtain ⟨row'', hrow'', hrevision, hsame⟩ := h.reachable.same_revision hle hrow
    cases hrow'.symm.trans hrow''
    refine ⟨row.revision, row'.revision, (holdView_shown hmade).2, (holdView_shown hmade').2,
      hrevision, fun heq => ?_, fun hstatus => ?_⟩
    · obtain ⟨rfl, -⟩ := hsame heq.symm
      exact holdView_same_row hmade hmade'
    · have hreleased : row.status = .released :=
        Status.text_injective ((holdView_shown hmade).1.symm.trans hstatus)
      obtain ⟨hkept, -⟩ := h.reachable.released_kept hle hrow hreleased
      cases hrow'.symm.trans hkept
      -- The scopes of both views are those that the hold was released with.
      have hscopes := (h.reachable.released_kept hnm hrow hreleased).2
      have hscopes' := (h.reachable.released_kept (Nat.le_trans hle hnm') hrow hreleased).2
      unfold Db.sortedScopes at hmade hmade'
      rw [hscopes] at hmade
      rw [hscopes'] at hmade'
      exact Except.ok.inj (hmade'.symm.trans hmade)
  · obtain ⟨id, op'⟩ := j
    cases hop
    obtain ⟨e, he, -, hlacks⟩ := h.reachable.explained hmissed .notFound rfl
    obtain ⟨row', hrow', horigin⟩ :=
      h.reachable.inv.hold?_mono (Nat.le_trans hn (h.seen hj he)) hrow
    have horg : row'.organizationId = row.organizationId := congrArg Prod.fst horigin
    exact hlacks row' hrow' (horg.trans (holdView_organizationId hmade).symm)

end

namespace Sample

/-- The hold is read after it has been released. -/
def closingRead : Config := after (closing ++ .start (.getHold "org" "h") :: steps 3 4)

theorem closingRead_later : Later (after closing) closingRead :=
  ⟨reachable_after closing, .start (.getHold "org" "h") :: steps 3 4, rfl⟩

/-- A hold that is read after its release looks as it did in the answer to the release. -/
theorem closingRead_same : ∃ view : HoldView,
    Returned (after closing) 2 (release 2) (.ok (.hold view)) ∧
      Returned closingRead 3 (.getHold "org" "h") (.ok (.hold view)) := by
  obtain ⟨view, hr, hid, hstatus⟩ : ∃ view : HoldView,
      Returned (after closing) 2 (release 2) (.ok (.hold view)) ∧ view.holdId = "h" ∧
        view.status = Status.released.text := ⟨_, rfl, rfl, rfl⟩
  obtain ⟨view', hr', hid'⟩ : ∃ view' : HoldView,
      Returned closingRead 3 (.getHold "org" "h") (.ok (.hold view')) ∧ view'.holdId = "h" :=
    ⟨_, rfl, rfl⟩
  have hcurrent : Config.Current closingRead ⟨3, .getHold "org" "h"⟩ view' :=
    .inl ⟨"org", _, .inl ⟨"h", rfl⟩, hr', List.mem_singleton.mpr rfl⟩
  have hstarted : (after closing).procs.length ≤ 3 := by decide
  obtain ⟨r, r', -, -, -, -, hreleased⟩ :=
    (answers_never_older closingRead_later hr (List.mem_singleton.mpr rfl) hstarted).1 view'
      hcurrent (hid'.trans hid.symm)
  obtain rfl := hreleased hstatus
  exact ⟨view', hr, hr'⟩

end Sample

end LegalHold
