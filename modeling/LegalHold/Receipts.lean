import LegalHold.Ledger

/-!
# The receipts

A receipt holds the view a command was answered with.  It is written with the
activity row of the command, under its own key; the table has no column for the
hold, so which hold a receipt is of can only be told from the view in it.

## Main definitions

* `Record.view` — the view of a hold from its record.
* `Db.receiptsOf` — the receipts of a hold.
* `Receipted`, `Db.Receipts` — what a receipt has to do with the events.

## Main results

* `HoldRow.view_record` — the view of a hold is that of its record.
* `Mutation.receipts` — a mutation adds the receipt of its event.
* `receipts_match_revisions` — **one receipt for each revision**.
-/

namespace LegalHold

open Interleave Timeline

section

variable [Backend] {c : Config}

/-! ### Views from events -/

omit [Backend] in
/-- Scopes are told apart by what they are ordered by. -/
theorem Scope.sortKey_injective : Function.Injective Scope.sortKey := by
  rintro ⟨kind, id, subject⟩ ⟨kind', id', subject'⟩ h
  unfold Scope.sortKey at h
  simp only [EmbeddingLike.apply_eq_iff_eq, Prod.mk.injEq, Collated.mk.injEq] at h
  obtain ⟨rfl, hrest⟩ := h
  obtain ⟨hid, hsubject⟩ := Prod.mk.inj hrest
  cases hid
  have hmk : Function.Injective Collated.mk := fun a b hab => by cases hab; rfl
  rw [Option.map_injective hmk hsubject]

/-- The scopes of a record as a view lists them. -/
def Record.sortedScopes (r : Record) : List (Scope × Time) :=
  r.scopes.insertionSort fun a b => a.1.sortKey ≤ b.1.sortKey

/-- One scope with its time as it is shown. -/
def Scope.view (entry : Scope × Time) : Except StorageError ScopeView := do
  return { scopeKind := entry.1.scopeKind, scopeId := entry.1.scopeId, subject := entry.1.subject,
           createdAt := ← formatTime entry.2 }

/-- The view of a hold with this record.  The reason a hold was created for is in
its row only. -/
def Record.view (r : Record) (holdId reason : String) : Except StorageError HoldView := do
  let scopes ← r.sortedScopes.mapM Scope.view
  let createdAt ← formatTime r.createdAt
  let releasedAt ← r.releasedAt.mapM formatTime
  return {
    organizationId := r.organizationId
    holdId := holdId
    title := r.title
    reason := reason
    legalAuthority := r.legalAuthority
    status := r.status.text
    revision := formatI64 r.revision
    createdBy := r.createdBy
    createdAt := createdAt
    releasedBy := r.releasedBy
    releasedAt := releasedAt
    releaseReason := r.releaseReason
    scopes := scopes }

/-- **The view of a hold is that of its record.** -/
theorem HoldRow.view_record (row : HoldRow) (scopes : List ScopeRow) :
    holdView row (scopes.insertionSort fun a b => a.sortKey ≤ b.sortKey) =
      (row.record scopes).view row.holdId row.reason := by
  have hsort : (row.record scopes).sortedScopes =
      (scopes.insertionSort fun a b => a.sortKey ≤ b.sortKey).map fun s =>
        (s.toScope, s.createdAt) := by
    refine (List.map_insertionSort (r := fun a b : ScopeRow => a.sortKey ≤ b.sortKey)
      (s := fun a b : Scope × Time => a.1.sortKey ≤ b.1.sortKey) _ _ ?_).symm
    exact fun _ _ _ _ => Iff.rfl
  unfold holdView Record.view
  rw [hsort, List.mapM_map]
  rfl

/-- The scope that the view of a scope shows, without its time. -/
def ScopeView.scope (s : ScopeView) : Scope := ⟨s.scopeKind, s.scopeId, s.subject⟩

/-- The scopes of a view are in order, and there are no two alike. -/
theorem Record.view_sorted {r : Record} {holdId reason : String} {view : HoldView}
    (hr : (r.scopes.map Prod.fst).Nodup) (h : r.view holdId reason = .ok view) :
    view.scopes.Pairwise fun a b => a.scope.sortKey < b.scope.sortKey := by
  obtain ⟨scopes, hs, h⟩ := bind_eq_ok.mp h
  obtain ⟨createdAt, -, h⟩ := bind_eq_ok.mp h
  obtain ⟨releasedAt, -, h⟩ := bind_eq_ok.mp h
  cases h
  -- the listed tuples are those of the record, sorted, and sorted without repetition
  have hmap : scopes.map ScopeView.scope = r.sortedScopes.map Prod.fst := by
    refine map_eq_of_mapM (fun {entry s} he => ?_) hs
    obtain ⟨text, -, he⟩ := bind_eq_ok.mp he
    cases he
    rfl
  have hnodup : (r.sortedScopes.map Prod.fst).Nodup :=
    ((List.perm_insertionSort _ _).map Prod.fst).nodup_iff.mpr hr
  have htotal : Std.Total fun a b : Scope × Time => a.1.sortKey ≤ b.1.sortKey :=
    ⟨fun a b => le_total _ _⟩
  have htrans : IsTrans (Scope × Time) fun a b => a.1.sortKey ≤ b.1.sortKey :=
    ⟨fun a b d hab hbd => le_trans hab hbd⟩
  have hsorted : (r.sortedScopes.map Prod.fst).Pairwise fun a b => a.sortKey ≤ b.sortKey :=
    List.pairwise_map.mpr (List.pairwise_insertionSort _ _)
  have hstrict : (scopes.map ScopeView.scope).Pairwise fun a b => a.sortKey < b.sortKey := by
    rw [hmap]
    refine (hsorted.and hnodup).imp fun hab => lt_of_le_of_ne hab.1 fun heq => ?_
    exact hab.2 (Scope.sortKey_injective heq)
  exact (List.pairwise_map (f := ScopeView.scope)
    (R := fun a b => a.sortKey < b.sortKey)).mp hstrict

/-! ### Receipts -/

/-- The view that a receipt answers a repetition with, if its response can be read as one. -/
def CommandRow.view? (row : CommandRow) : Option HoldView :=
  (HoldView.fromValue row.response).toOption

/-- The receipts of a hold: those whose view is of it. -/
def Db.receiptsOf (db : Db) (h : String) : List CommandRow :=
  db.commands.filter fun row => row.view?.map (·.holdId) = some h

/-- The operation from which an event comes. -/
def Happening.operation : Happening → Operation
  | .created .. => .createHold
  | .scopeAdded _ => .addScope
  | .scopeRemoved _ => .removeScope
  | .released _ => .releaseHold

/-- The receipt of event number `k` of a hold: it shows the view that the events up
to this one tell, and the operation and the actor of the event. -/
def Receipted (db : Db) (h reason : String) (k : ℕ) (receipt : CommandRow) : Prop :=
  ∃ e r view, (db.eventsOf h)[k]? = some e ∧ receipt.view? = some view ∧ view.holdId = h ∧
    view.revision = formatI64 (k + 1) ∧
    Record.law.replay ((db.eventsOf h).take (k + 1)) = some r ∧ r.view h reason = .ok view ∧
    receipt.operation = e.what.operation ∧ receipt.actorSubject = e.actor

/-- More events do not change what the first ones tell. -/
theorem Receipted.mono {db db' : Db} {h reason : String} {k : ℕ} {receipt : CommandRow}
    (hr : Receipted db h reason k receipt) (hevents : db.eventsOf h <+: db'.eventsOf h) :
    Receipted db' h reason k receipt := by
  obtain ⟨e, r, view, he, hview, hid, hrev, hreplay, rest⟩ := hr
  obtain ⟨more, hmore⟩ := hevents
  have hlt := (List.getElem?_eq_some_iff.mp he).1
  refine ⟨e, r, view, ?_, hview, hid, hrev, ?_, rest⟩
  · rw [← hmore, List.getElem?_append_left hlt]
    exact he
  · rw [← hmore, List.take_append_of_le_length hlt]
    exact hreplay

/-- There is a receipt for each event of a hold, in the order of the events. -/
structure Db.Receipts (db : Db) : Prop where
  keys : (db.commands.map (·.toCommandKey)).Nodup
  length : ∀ h, (db.receiptsOf h).length = (db.activityOf h).length
  receipted : ∀ h row, db.hold? h = some row → ∀ k receipt, (db.receiptsOf h)[k]? = some receipt →
    Receipted db h row.reason k receipt

omit [Backend] in
theorem Command.view?_receipt (cmd : Command) (view : HoldView) (now : Time) :
    (cmd.receipt view now).view? = some view := by
  unfold CommandRow.view? Command.receipt
  rw [HoldView.fromValue_toValue]
  rfl

theorem Mutation.view_holdId {db : Db} {t : Tx} {cmd : Command} {ws : List Write}
    {activityId : Int} {view : HoldView} (h : Mutation db t cmd ws activityId view) :
    view.holdId = cmd.holdId := by
  obtain ⟨row, hrow, -, hmade⟩ := Db.loadHold_eq_ok.mp h.view
  rw [holdView_holdId hmade]
  exact Db.holdId_of_hold? hrow

/-- The view of a mutation is that of the record it leaves behind. -/
theorem Mutation.view_eq {db : Db} {t : Tx} {cmd : Command} {ws : List Write}
    {activityId : Int} {view : HoldView} (h : Mutation db t cmd ws activityId view)
    {row : HoldRow} (hr : (db.putAll t.writes).hold? cmd.holdId = some row) :
    (row.record ((db.putAll t.writes).scopesOf cmd.holdId)).view cmd.holdId row.reason =
      .ok view := by
  obtain ⟨row', hr', -, hmade⟩ := Db.loadHold_eq_ok.mp h.view
  cases hr.symm.trans hr'
  have hid := Db.holdId_of_hold? hr
  rw [← hid, ← HoldRow.view_record, ← hmade, hid]
  rfl

omit [Backend] in
theorem Change.operation_happening (change : Change) :
    change.happening.operation = change.operation := by
  cases change <;> rfl

theorem Mutation.receiptsOf_eq {db : Db} {t : Tx} {cmd : Command} {ws : List Write}
    {activityId : Int} {view : HoldView} (h : Mutation db t cmd ws activityId view)
    (hold : String) : (db.putAll t.writes).receiptsOf hold =
      db.receiptsOf hold ++ if cmd.holdId = hold then [cmd.receipt view t.startedAt] else [] := by
  unfold Db.receiptsOf
  rw [h.commands_eq, List.filter_append, List.filter_singleton, Command.view?_receipt,
    Option.map_some, h.view_holdId]
  simp

/-- The receipt of a mutation is that of its event. -/
theorem Mutation.receipted {db : Db} {t : Tx} {cmd : Command} {ws : List Write}
    {activityId : Int} {view : HoldView} (h : Mutation db t cmd ws activityId view)
    (hdb : db.Coherent) {row : HoldRow} (hr : (db.putAll t.writes).hold? cmd.holdId = some row) :
    Receipted (db.putAll t.writes) cmd.holdId row.reason (db.eventsOf cmd.holdId).length
      (cmd.receipt view t.startedAt) := by
  have hafter := h.coherent hdb
  have hreplay := hafter.replayed cmd.holdId
  rw [Db.record?_eq_some hr] at hreplay
  -- The mutation adds one event, and its receipt shows the hold with it.
  have hcount : ((db.putAll t.writes).eventsOf cmd.holdId).length =
      (db.eventsOf cmd.holdId).length + 1 := by
    rw [h.eventsOf_eq, List.length_append]
    rfl
  have hview := h.view_eq hr
  refine ⟨cmd.event t.startedAt, _, view, ?_, Command.view?_receipt _ _ _, h.view_holdId, ?_, ?_,
    hview, (Change.operation_happening cmd.change).symm, rfl⟩
  · rw [h.eventsOf_eq]
    simp
  · obtain ⟨scopes, -, hrest⟩ := bind_eq_ok.mp hview
    obtain ⟨createdAt, -, hrest⟩ := bind_eq_ok.mp hrest
    obtain ⟨releasedAt, -, hrest⟩ := bind_eq_ok.mp hrest
    cases hrest
    show formatI64 row.revision = _
    rw [hafter.revision_eq hr, ← hafter.length_eventsOf, hcount]
    rfl
  · rw [← hcount, List.take_length]
    exact hreplay

/-- A hold with events was there before, created for the same reason. -/
theorem Mutation.reason_eq {db : Db} {t : Tx} {cmd : Command} {ws : List Write}
    {activityId : Int} {view : HoldView} (h : Mutation db t cmd ws activityId view)
    (hdb : db.Coherent) {hold : String} (hne : db.eventsOf hold ≠ []) {row : HoldRow}
    (hr : (db.putAll t.writes).hold? hold = some row) :
    ∃ old, db.hold? hold = some old ∧ old.reason = row.reason := by
  cases hold? : db.hold? hold with
  | none =>
    have hreplay := hdb.replayed hold
    rw [Db.record?_eq_none hold?] at hreplay
    exact absurd ((Record.replay_eq_none_iff (hdb.lawful _)).mp hreplay) hne
  | some old =>
    obtain ⟨row', hr', horigin⟩ := h.origin_eq hold?
    cases hr.symm.trans hr'
    unfold HoldRow.origin at horigin
    simp only [Prod.mk.injEq] at horigin
    exact ⟨old, rfl, horigin.2.2.1.symm⟩

/-- **A mutation adds the receipt of its event.** -/
theorem Mutation.receipts {db : Db} {t : Tx} {cmd : Command} {ws : List Write}
    {activityId : Int} {view : HoldView} (h : Mutation db t cmd ws activityId view)
    (hdb : db.Coherent) (hrs : db.Receipts) : (db.putAll t.writes).Receipts where
  keys := by
    rw [h.commands_eq, List.map_append, List.map_cons, List.map_nil]
    refine List.nodup_append.mpr ⟨hrs.keys, List.nodup_singleton _, ?_⟩
    rintro key hkey _ hnew rfl
    obtain rfl := List.mem_singleton.mp hnew
    obtain ⟨row, hrow, heq⟩ := List.mem_map.mp hkey
    -- The receipt's primary key was free when it was stored.
    have hunseen := List.find?_eq_none.mp h.unseen row hrow
    simp only [decide_eq_true_eq] at hunseen
    exact hunseen heq
  length hold := by
    rw [h.receiptsOf_eq]
    by_cases hh : cmd.holdId = hold
    · subst hh
      rw [if_pos rfl, h.activityOf_eq, List.length_append, List.length_append, hrs.length]
      rfl
    · rw [if_neg hh, (h.other_hold (Ne.symm hh)).2.2, List.append_nil, hrs.length]
  receipted hold row hr k receipt hk := by
    have hlen : (db.receiptsOf hold).length = (db.eventsOf hold).length := by
      rw [hrs.length, hdb.length_eventsOf]
    rw [h.receiptsOf_eq] at hk
    rcases Nat.lt_or_ge k (db.receiptsOf hold).length with hlt | hge
    · -- an earlier receipt: its events are still the first ones
      rw [List.getElem?_append_left hlt] at hk
      have hne : db.eventsOf hold ≠ [] := List.length_pos_iff.mp (by omega)
      obtain ⟨old, hold?, hreason⟩ := h.reason_eq hdb hne hr
      rw [← hreason]
      exact (hrs.receipted hold old hold? k receipt hk).mono (h.eventsOf_mono hold)
    · -- the new one
      rw [List.getElem?_append_right hge] at hk
      by_cases hh : cmd.holdId = hold
      · subst hh
        rw [if_pos rfl] at hk
        have hlast := (List.getElem?_eq_some_iff.mp hk).1
        simp only [List.length_cons, List.length_nil] at hlast
        have hzero : k = (db.eventsOf cmd.holdId).length := by omega
        rw [hzero, hlen, Nat.sub_self] at hk
        cases hk
        rw [hzero]
        exact h.receipted hdb hr
      · rw [if_neg hh] at hk
        cases hk

theorem Db.receipts_empty : ({} : Db).Receipts where
  keys := List.nodup_nil
  length _ := rfl
  receipted _ _ hr := by cases hr

theorem Reachable.receipts (h : Reachable c) : c.shared.db.Receipts := by
  rw [h.db_eq]
  refine h.preserves (P := Db.Receipts) (Nat.zero_le _) Db.receipts_empty ?_
  intro db t cmd ws activityId view hdb hm hrs
  exact hm.receipts hdb hrs

/-- **One receipt for each revision**: as many as the hold has revisions, each with
the view that the events up to its revision tell, the scopes in order and none
twice. -/
theorem receipts_match_revisions (h : Reachable c) {hold : String} {row : HoldRow}
    (hr : c.shared.db.hold? hold = some row) :
    (c.shared.db.commands.map (·.toCommandKey)).Nodup ∧
    (c.shared.db.receiptsOf hold).length = row.revision ∧
    (∀ {r : Int}, 1 ≤ r → r ≤ row.revision → ∃! receipt, receipt ∈ c.shared.db.receiptsOf hold ∧
      ∃ view, receipt.view? = some view ∧ view.revision = formatI64 r) ∧
    ∀ {receipt : CommandRow}, receipt ∈ c.shared.db.receiptsOf hold → ∃ (r : ℕ) (e : HoldEvent)
      (record : Record) (view : HoldView), (r : Int) + 1 ≤ row.revision ∧
      (c.shared.db.eventsOf hold)[r]? = some e ∧
      Record.law.replay ((c.shared.db.eventsOf hold).take (r + 1)) = some record ∧
      receipt.view? = some view ∧ view.revision = formatI64 (r + 1) ∧
      record.view hold row.reason = .ok view ∧
      (view.scopes.Pairwise fun a b => a.scope.sortKey < b.scope.sortKey) ∧
      receipt.operation = e.what.operation ∧ receipt.actorSubject = e.actor := by
  have hdb := h.now_coherent
  have hrs := h.receipts
  have hrev := hdb.revision_eq hr
  have hlen := hrs.length hold
  refine ⟨hrs.keys, by omega, fun {r} h1 hn => ?_, fun {receipt} hmem => ?_⟩
  · -- revision `r` has receipt number `r - 1`, and the revision text tells the number
    obtain ⟨k, rfl⟩ : ∃ k : ℕ, r = k + 1 := ⟨(r - 1).toNat, by omega⟩
    have hlt : k < (c.shared.db.receiptsOf hold).length := by omega
    have hk := List.getElem?_eq_getElem hlt
    obtain ⟨e, record, view, -, hview, -, htext, -⟩ := hrs.receipted hold row hr k _ hk
    refine ⟨_, ⟨List.getElem_mem hlt, view, hview, htext⟩, ?_⟩
    rintro receipt ⟨hmem, view', hview', htext'⟩
    obtain ⟨k', hk'⟩ := List.getElem?_of_mem hmem
    obtain ⟨e', record', view₁, -, hview₁, -, htext₁, -⟩ := hrs.receipted hold row hr k' _ hk'
    cases hview'.symm.trans hview₁
    have heq := formatI64_injective (htext'.symm.trans htext₁)
    have hkk : k = k' := by omega
    subst hkk
    rw [hk] at hk'
    exact (Option.some.inj hk').symm
  -- Receipt number `k` goes with event number `k`, counted from zero.
  · obtain ⟨k, hk⟩ := List.getElem?_of_mem hmem
    have hlt := (List.getElem?_eq_some_iff.mp hk).1
    obtain ⟨e, record, view, he, hview, -, htext, hreplay, hrecord, hop, hactor⟩ :=
      hrs.receipted hold row hr k receipt hk
    have hnodup := Record.scopes_nodup ((hdb.lawful hold).take (k + 1)) hreplay
    exact ⟨k, e, record, view, by omega, he, hreplay, hview, htext, hrecord,
      Record.view_sorted hnodup hrecord, hop, hactor⟩

end

namespace Sample

theorem closing_receipt :
    ∃! receipt, receipt ∈ (after closing).shared.db.receiptsOf "h" ∧
      ∃ view, receipt.view? = some view ∧ view.revision = formatI64 2 :=
  (receipts_match_revisions (reachable_after closing) rfl).2.2.1 (by decide) (by decide)

end Sample

end LegalHold
