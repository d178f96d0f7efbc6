import LegalHold.Ledger

/-!
# Views and snapshots

A view is read by two statements of one transaction, first the hold and then its
scopes, and under READ COMMITTED each of them sees what is committed when it
runs.  The revision of a hold goes up with every mutation, so it tells the states
of the hold apart, and with it whether a view is one of them.

## Main definitions

* `Db.listedScopes` — the scopes of a hold as a view lists them.

## Main results

* `view_is_snapshot_iff` — **when a view is a snapshot**: exactly when the second
  statement finds the scopes the first one would have found.
-/

namespace LegalHold

open Interleave

section

variable [Backend] {c : Config}

/-! ### Views -/

/-- The scopes of a hold as a view lists them. -/
def Db.listedScopes (db : Db) (h : String) : Except StorageError (List ScopeView) :=
  (db.sortedScopes h).mapM scopeView

/-- A view can be made of any scopes that look the same. -/
theorem holdView_congr {row : HoldRow} {rows rows' : List ScopeRow} {view : HoldView}
    (h : holdView row rows = .ok view) (hrows : rows'.mapM scopeView = rows.mapM scopeView) :
    holdView row rows' = .ok view := by
  obtain ⟨scopes, createdAt, releasedAt, hs, rest⟩ := holdView_eq_ok.mp h
  exact holdView_eq_ok.mpr ⟨scopes, createdAt, releasedAt, hrows.trans hs, rest⟩

/-- The operation is one whose views are read without a lock, for this organization. -/
def Op.Reads (organizationId : String) (op : Op) : Prop :=
  (∃ h, op = .getHold organizationId h) ∨
    ∃ status cursor limit, op = .listHolds organizationId status cursor limit

theorem Reachable.viewRead (h : Reachable c) {i : Session Op} {organizationId : String}
    (hop : i.op.Reads organizationId) {a : Answer} (hr : Returned c i.id i.op (.ok a))
    {view : HoldView} (hview : view ∈ a.views) :
    ∃ e₁ e₂, ViewRead c.shared i organizationId view.holdId view e₁ e₂ := by
  have hpost := returned_post h hr
  obtain ⟨id, op⟩ := i
  rcases hop with ⟨hold, heq⟩ | ⟨status, cursor, limit, heq⟩
  · cases heq
    obtain ⟨-, view', e₁, e₂, rfl, hread⟩ := hpost a rfl
    obtain rfl := List.mem_singleton.mp hview
    obtain ⟨row, hrow, -, hmade⟩ := hread.made
    rw [holdView_holdId hmade, Db.holdId_of_hold? hrow]
    exact ⟨e₁, e₂, hread⟩
  · cases heq
    obtain ⟨-, views, next, e, rfl, hlisted⟩ := hpost a rfl
    obtain ⟨e₁, e₂, -, hread⟩ := hlisted.views view hview
    exact ⟨e₁, e₂, hread⟩

/-- **When a view is a snapshot.**  A view that `get_hold` or `list_holds` returns is
the view of its hold in some committed state exactly when the statement that read
the scopes found them as they were when the hold row was read. -/
theorem view_is_snapshot_iff (h : Reachable c) {i : Session Op} {organizationId : String}
    (hop : i.op.Reads organizationId) {a : Answer} (hr : Returned c i.id i.op (.ok a))
    {view : HoldView} (hview : view ∈ a.views) :
    ∃ e₁ e₂, ViewRead c.shared i organizationId view.holdId view e₁ e₂ ∧
      ((∃ m ≤ c.shared.log.length,
        (c.shared.asOf m).loadHold organizationId view.holdId = .ok view) ↔
      (c.shared.asOf e₂.seen).listedScopes view.holdId =
        (c.shared.asOf e₁.seen).listedScopes view.holdId) := by
  obtain ⟨e₁, e₂, hread⟩ := h.viewRead hop hr hview
  obtain ⟨row, hrow, horg, hmade⟩ := hread.made
  refine ⟨e₁, e₂, hread, ?_, fun hsame => ?_⟩
  · rintro ⟨m, -, hload⟩
    obtain ⟨rowₘ, hfound, -, hmadeₘ⟩ := Db.loadHold_eq_ok.mp hload
    obtain ⟨scopes, createdAt, releasedAt, hs, -, -, hv⟩ := holdView_eq_ok.mp hmade
    obtain ⟨scopesₘ, createdAtₘ, releasedAtₘ, hsₘ, -, -, hvₘ⟩ := holdView_eq_ok.mp hmadeₘ
    -- both rows show the revision of the view, so they are of one state of the hold
    have htext : formatI64 rowₘ.revision = formatI64 row.revision := by
      rw [hv] at hvₘ
      exact (congrArg HoldView.revision hvₘ).symm
    have hscopes : scopesₘ = scopes := by
      rw [hv] at hvₘ
      exact (congrArg HoldView.scopes hvₘ).symm
    have hrev : rowₘ.revision = row.revision := formatI64_injective htext
    -- Whichever of the two states came first, nothing has changed between them.
    have hstate : (c.shared.asOf m).scopesOf view.holdId =
        (c.shared.asOf e₁.seen).scopesOf view.holdId := by
      rcases Nat.le_total e₁.seen m with hle | hle
      · obtain ⟨row', hrow', -, hone⟩ := h.same_revision hle hrow
        cases hfound.symm.trans hrow'
        exact (hone hrev).2
      · obtain ⟨row', hrow', -, hone⟩ := h.same_revision hle hfound
        cases hrow.symm.trans hrow'
        exact (hone hrev.symm).2.symm
    have hlisted : (c.shared.asOf m).listedScopes view.holdId =
        (c.shared.asOf e₁.seen).listedScopes view.holdId := by
      unfold Db.listedScopes Db.sortedScopes
      rw [hstate]
    rw [← hlisted]
    exact hs.trans (hscopes ▸ hsₘ.symm)
  -- The state in which the row was read, which lists the same scopes.
  · exact ⟨e₁.seen, h.inv.seen_le hread.rowMem,
      Db.loadHold_eq_ok.mpr ⟨row, hrow, horg, holdView_congr hmade hsame.symm⟩⟩

end

namespace Sample

/-- A scope is added while `get_hold` runs, between its two statements. -/
def torn : Config :=
  after (.start (create [1]) :: steps 0 8 ++ .start (.getHold "org" "h") :: steps 1 2 ++
    .start (add 1) :: steps 2 10 ++ steps 1 2)

/-- What `get_hold` returns then has never been there. -/
theorem torn_returned :
    ∃ view : HoldView, Returned torn 1 (.getHold "org" "h") (.ok (.hold view)) ∧
      view.holdId = "h" ∧
      ∀ m ≤ torn.shared.log.length, (torn.shared.asOf m).loadHold "org" "h" ≠ .ok view := by
  refine ⟨_, rfl, rfl, fun m hm hload => ?_⟩
  have hlen : torn.shared.log.length = 2 := rfl
  -- No hold, the hold without the scope at revision 1, and with it at revision 2.
  have hcases : m = 0 ∨ m = 1 ∨ m = 2 := by omega
  rcases hcases with rfl | rfl | rfl
  · cases hload
  · cases hload
  · cases hload

theorem torn_scopes :
    ∃ view e₁ e₂, ViewRead torn.shared ⟨1, .getHold "org" "h"⟩ "org" "h" view e₁ e₂ ∧
      (torn.shared.asOf e₂.seen).listedScopes "h" ≠
        (torn.shared.asOf e₁.seen).listedScopes "h" := by
  obtain ⟨view, hr, hid, hnone⟩ := torn_returned
  have hop : Op.Reads "org" (.getHold "org" "h") := .inl ⟨"h", rfl⟩
  have hview : view ∈ (Answer.hold view).views := List.mem_cons_self
  obtain ⟨e₁, e₂, hread, hiff⟩ := view_is_snapshot_iff (i := ⟨1, .getHold "org" "h"⟩)
    (reachable_after _) hop hr hview
  rw [hid] at hread hiff
  refine ⟨view, e₁, e₂, hread, fun hsame => ?_⟩
  obtain ⟨m, hm, hload⟩ := hiff.mpr hsame
  exact hnone m hm hload

/-- A view need not be that of any committed state. -/
theorem view_can_be_torn :
    ¬ ∀ (c : Config) (i : Session Op) (organizationId : String) (a : Answer) (view : HoldView),
      Reachable c → i.op.Reads organizationId → Returned c i.id i.op (.ok a) → view ∈ a.views →
      ∃ m ≤ c.shared.log.length,
        (c.shared.asOf m).loadHold organizationId view.holdId = .ok view := by
  intro h
  obtain ⟨view, hr, hid, hnone⟩ := torn_returned
  obtain ⟨m, hm, hload⟩ := h torn ⟨1, .getHold "org" "h"⟩ "org" _ view (reachable_after _)
    (.inl ⟨"h", rfl⟩) hr List.mem_cons_self
  rw [hid] at hload
  exact hnone m hm hload

end Sample

end LegalHold
