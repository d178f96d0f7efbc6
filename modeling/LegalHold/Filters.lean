import LegalHold.Guard
import LegalHold.Listing

/-!
# Filtered listings

The filter of `list_holds` is a condition of the statement that selects the ids.
The holds are read afterwards, each in its own transaction, and their status is
not looked at again.  A hold that is released in between is answered with as it
is by then.

## Main definitions

* `ReleasedBetween` — a release of the hold is among the commits in between.

## Main results

* `filtered_listing` — **a filtered page has just what was asked for unless an
  active hold of it is released before it is read**.
-/

namespace LegalHold

open Interleave Timeline

section

variable [Backend] {c : Config}

/-- A release of the hold is among the commits from the `k`-th to before the `m`-th. -/
def ReleasedBetween (srv : Server) (k m : ℕ) (hold : String) : Prop :=
  ∃ n cmd view, k ≤ n ∧ n < m ∧ srv.Commit n cmd view ∧ cmd.Releases hold

/-- **A hold is released when it was, or a release has come in between.** -/
theorem Reachable.released_between (h : Reachable c) {k m : ℕ} (hkm : k ≤ m)
    (hm : m ≤ c.shared.log.length) {hold : String} :
    (∃ row, (c.shared.asOf m).hold? hold = some row ∧ row.status = .released) ↔
      (∃ row, (c.shared.asOf k).hold? hold = some row ∧ row.status = .released) ∨
        ReleasedBetween c.shared k m hold := by
  unfold ReleasedBetween
  -- By induction on the commits from `k` on.
  refine h.commit_induction_from (k := k) (P := fun m =>
    (∃ row, (c.shared.asOf m).hold? hold = some row ∧ row.status = .released) ↔
      (∃ row, (c.shared.asOf k).hold? hold = some row ∧ row.status = .released) ∨
        ∃ n cmd view, k ≤ n ∧ n < m ∧ c.shared.Commit n cmd view ∧ cmd.Releases hold) ?_ ?_ hkm hm
  · constructor
    · exact .inl
    · rintro (hrow | ⟨n, cmd, view, hkn, hnk, -⟩)
      · exact hrow
      · omega
  · intro n t cmd ws activityId view hkn ih hc hmut hsucc
    rw [hsucc, hmut.released_iff, ih, or_assoc]
    apply or_congr_right
    constructor
    · rintro (⟨n', cmd', view', hkn', hlt, hc', hrel⟩ | hrel)
      · exact ⟨n', cmd', view', hkn', by omega, hc', hrel⟩
      · exact ⟨n, cmd, view, hkn, by omega, hc, hrel⟩
    · rintro ⟨n', cmd', view', hkn', hlt, hc', hrel⟩
      rcases Nat.lt_succ_iff_lt_or_eq.mp hlt with hlt | rfl
      · exact .inl ⟨n', cmd', view', hkn', hlt, hc', hrel⟩
      · obtain ⟨rfl, -⟩ := Server.commit_unique hc hc'
        exact .inr hrel

/-- The ids of a page, from the tables its first statement has seen. -/
def pageIds (db : Db) (org : String) (status : Option Status) (cursor : Option String)
    (limit : Int) : List String :=
  (Server.holdPage db org status cursor (limit + 1)).take (if limit < 0 then 200 else limit.toNat)

theorem Db.Coherent.nodup_pageIds {db : Db} (h : db.Coherent) (org : String)
    (status : Option Status) (cursor : Option String) (limit : Int) :
    (pageIds db org status cursor limit).Nodup := by
  unfold pageIds
  rw [holdPage_eq]
  have hlog : Log place (cursorPlace cursor)
      (above place (db.matchingIds org status) (cursorPlace cursor)) :=
    log_above (h.nodup_matchingIds org status)
  have hnodup := hlog.increasing.imp fun {a b} hlt => show a ≠ b by
    rintro rfl
    exact lt_irrefl _ hlt
  exact (hnodup.sublist (List.take_sublist _ _)).sublist (List.take_sublist _ _)

/-- A hold that is listed on a page matches the filter, in the tables that the page was read
from. -/
theorem Db.Coherent.matches_of_mem_pageIds {db : Db} (h : db.Coherent) {org : String}
    {status : Option Status} {cursor : Option String} {limit : Int} {hold : String}
    (hmem : hold ∈ pageIds db org status cursor limit) : db.Matches org status hold := by
  unfold pageIds at hmem
  rw [holdPage_eq] at hmem
  have habove := List.mem_of_mem_take (List.mem_of_mem_take hmem)
  exact h.mem_matchingIds.mp (mem_above.mp habove).1

/-- A view tells the status of the row it was made of. -/
theorem holdView_status {row : HoldRow} {rows : List ScopeRow} {view : HoldView}
    (h : holdView row rows = .ok view) : view.status = row.status.text := by
  obtain ⟨scopes, createdAt, releasedAt, -, -, -, rfl⟩ := holdView_eq_ok.mp h
  rfl

omit [Backend] in
theorem Status.text_injective : Function.Injective Status.text := by
  intro s s' h
  cases s <;> cases s' <;> first | rfl | exact absurd h (by decide)

/-- **A hold read after it was selected** has the status asked for unless it was active, and was
released in between. -/
theorem ViewRead.status_iff (h : Reachable c) {i : Session Op} {org hold : String}
    {view : HoldView} {e₁ e₂ : Event} (hread : ViewRead c.shared i org hold view e₁ e₂) {k : ℕ}
    (hk : k ≤ e₁.seen) {s : Status}
    (hmatches : (c.shared.asOf k).Matches org (some s) hold) :
    view.status = s.text ↔ s = .released ∨ ¬ReleasedBetween c.shared k e₁.seen hold := by
  obtain ⟨row, hrow, -, hmade⟩ := hread.made
  have hreleased := @Reachable.released_between _ _ h _ _ hk (h.inv.seen_le hread.rowMem) hold
  obtain ⟨row₀, hrow₀, -, hs⟩ := hmatches
  have hs₀ : row₀.status = s := by simpa [eq_comm] using hs
  rw [holdView_status hmade, Status.text_injective.eq_iff]
  simp only [hrow, hrow₀, Option.some.injEq, exists_eq_left', hs₀] at hreleased
  cases s with
  | released => simpa using hreleased
  | active =>
    have hstatus : row.status = .active ↔ ¬row.status = .released := by
      cases row.status <;> simp
    rw [hstatus, hreleased]
    simp

/-- **A filtered page has just what was asked for unless an active hold of it is released before
it is read**: `e` is the statement that has selected the page, and `reads hold` the one that has
read the row of a hold of it. -/
theorem filtered_listing (h : Reachable c) {i : ℕ} {org : String} {s : Status}
    {cursor : Option String} {limit : Int} {views : List HoldView} {next : Option String}
    (hr : Returned c i (.listHolds org (some s) cursor limit) (.ok (.holds views next))) :
    ∃ e, ∃ reads : String → Event,
      e ∈ c.shared.eventsOf ⟨i, .listHolds org (some s) cursor limit⟩ ∧
      e.stmt = .pool (.listHolds org (some s) cursor (limit + 1)) ∧
      views.map (·.holdId) = pageIds (c.shared.asOf e.seen) org (some s) cursor limit ∧
      (∀ hold ∈ pageIds (c.shared.asOf e.seen) org (some s) cursor limit,
        reads hold ∈ c.shared.eventsOf ⟨i, .listHolds org (some s) cursor limit⟩ ∧
        (reads hold).stmt = .query (.selectHold org hold) ∧ e.seen ≤ (reads hold).seen) ∧
      ((∀ view ∈ views, view.status = s.text) ↔
        s = .released ∨ ∀ hold ∈ pageIds (c.shared.asOf e.seen) org (some s) cursor limit,
          ¬ReleasedBetween c.shared e.seen (reads hold).seen hold) := by
  obtain ⟨-, views', next', e, heq, hlisted⟩ := returned_post h hr _ rfl
  cases heq
  have hdb := h.coherent e.seen
  have hids : views.map (·.holdId) = pageIds (c.shared.asOf e.seen) org (some s) cursor limit :=
    hlisted.ids
  have hnodup : (views.map (·.holdId)).Nodup := by
    rw [hids]
    exact hdb.nodup_pageIds org (some s) cursor limit
  -- Each hold of the page is read once, so that its id tells the statement.
  have hread : ∀ hold, ∃ e₁, ∀ view ∈ views, view.holdId = hold → e.seen ≤ e₁.seen ∧
      ∃ e₂, ViewRead c.shared ⟨i, .listHolds org (some s) cursor limit⟩ org hold view e₁ e₂ := by
    intro hold
    by_cases hin : ∃ view ∈ views, view.holdId = hold
    · obtain ⟨view, hview, rfl⟩ := hin
      obtain ⟨e₁, e₂, hle, hviewed⟩ := hlisted.views view hview
      refine ⟨e₁, fun view' hview' heq => ?_⟩
      obtain rfl := List.inj_on_of_nodup_map hnodup hview' hview heq
      exact ⟨hle, e₂, hviewed⟩
    · exact ⟨e, fun view hview heq => absurd ⟨view, hview, heq⟩ hin⟩
  choose reads hreads using hread
  refine ⟨e, reads, hlisted.mem, hlisted.stmt, hids, ?_, ?_⟩
  · intro hold hhold
    rw [← hids] at hhold
    obtain ⟨view, hview, heq⟩ := List.mem_map.mp hhold
    obtain ⟨hle, e₂, hviewed⟩ := hreads hold view hview heq
    exact ⟨hviewed.rowMem, hviewed.rowStmt, hle⟩
  · have hstatus : ∀ view ∈ views, (view.status = s.text ↔
        s = .released ∨ ¬ReleasedBetween c.shared e.seen (reads view.holdId).seen view.holdId) := by
      intro view hview
      obtain ⟨hle, e₂, hviewed⟩ := hreads view.holdId view hview rfl
      apply hviewed.status_iff h hle
      apply hdb.matches_of_mem_pageIds
      rw [← hids]
      exact List.mem_map_of_mem hview
    rw [← hids, List.forall_mem_map]
    constructor
    · intro hall
      by_cases hs : s = .released
      · exact .inl hs
      · exact .inr fun view hview => ((hstatus view hview).mp (hall view hview)).resolve_left hs
    · intro hcond view hview
      exact (hstatus view hview).mpr (hcond.imp_right fun hnone => hnone view hview)

end

namespace Sample

/-- The active holds are listed, and `h` is released before it is read. -/
def overtaken : List Label :=
  holding ++ .start (.listHolds "org" (some .active) none 10) :: steps 2 1 ++
    .start (release 2) :: steps 3 9 ++ steps 2 4

/-- The list of active holds shows a released one. -/
theorem active_listing_shows_released :
    ¬∀ {c : Config} {i : ℕ} {org : String} {s : Status} {cursor : Option String} {limit : Int}
      {views : List HoldView} {next : Option String}, Reachable c →
      Returned c i (.listHolds org (some s) cursor limit) (.ok (.holds views next)) →
      ∀ view ∈ views, view.status = s.text := by
  intro hclaim
  obtain ⟨view, hr, hstatus⟩ : ∃ view : HoldView,
      Returned (after overtaken) 2 (.listHolds "org" (some .active) none 10)
        (.ok (.holds [view] none)) ∧ view.status = "released" := ⟨_, rfl, rfl⟩
  have hactive := hclaim (reachable_after overtaken) hr view List.mem_cons_self
  rw [hstatus] at hactive
  exact absurd hactive (by decide)

/-- A listing of active holds shows a hold that is released: the release comes between the page
and the hold. -/
theorem overtaken_listing :
    ∃ (e : Event) (reads : String → Event),
      ∃ hold ∈ pageIds ((after overtaken).shared.asOf e.seen) "org" (some .active) none 10,
        ReleasedBetween (after overtaken).shared e.seen (reads hold).seen hold := by
  obtain ⟨view, hr, hstatus⟩ : ∃ view : HoldView,
      Returned (after overtaken) 2 (.listHolds "org" (some .active) none 10)
        (.ok (.holds [view] none)) ∧ view.status = "released" := ⟨_, rfl, rfl⟩
  obtain ⟨e, reads, -, -, -, -, hiff⟩ := filtered_listing (reachable_after overtaken) hr
  refine ⟨e, reads, ?_⟩
  by_contra hnone
  push Not at hnone
  have hactive := hiff.mpr (.inr hnone) view List.mem_cons_self
  rw [hstatus] at hactive
  exact absurd hactive (by decide)

end Sample

end LegalHold
