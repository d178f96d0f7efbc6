import LegalHold.Operation
import LegalHold.Timeline.Law

/-!
# What a hold is

A hold in its own terms, apart from tables and transactions: something that is
created once, covers scopes that come and go, and is released once, after which
nothing happens to it any more.  Its record is what its events say.

The activity rows are those events as they are stored; `ActivityRow.event?`
reads them back.

## Main definitions

* `HoldEvent`, `Record`, `Record.law` — the events, and the law of a hold.
* `ActivityRow.event?`, `Db.eventsOf` — the events an activity table tells.
* `Db.record?` — the hold the tables show.

## Main results

* `Record.created_iff`, `Record.released_last`, `Record.revision_eq` — a lawful
  history starts with the creation, ends with the release if there is one, and
  is as long as the revision says.
-/

namespace LegalHold

open Timeline

/-- What can happen to a hold in the course of its life, with the data that it brings. -/
inductive Happening where
  | created (title legalAuthority : String)
  | scopeAdded (scope : Scope)
  | scopeRemoved (scope : Scope)
  | released (reason : String)
  deriving DecidableEq, Repr

/-- Something that happened to a hold, with the organization, the actor and the time of it. -/
structure HoldEvent where
  organizationId : String
  actor : String
  time : Time
  what : Happening
  deriving DecidableEq, Repr

/-- A hold with its scopes, as far as the events of its history determine them. -/
structure Record where
  organizationId : String
  title : String
  legalAuthority : String
  status : Status
  revision : Int
  createdBy : String
  createdAt : Time
  releasedBy : Option String
  releasedAt : Option Time
  releaseReason : Option String
  /-- The scopes covered, each with the time it was added. -/
  scopes : List (Scope × Time)
  deriving DecidableEq, Repr

namespace Record

/-- The scope is one of those in the record. -/
def Covers (r : Record) (scope : Scope) : Prop := scope ∈ r.scopes.map Prod.fst

instance (r : Record) (scope : Scope) : Decidable (r.Covers scope) :=
  inferInstanceAs (Decidable (scope ∈ r.scopes.map Prod.fst))

/-- The record of a hold as it is created: active, at revision 1 and with no scope. -/
def created (e : HoldEvent) (title legalAuthority : String) : Record where
  organizationId := e.organizationId
  title := title
  legalAuthority := legalAuthority
  status := .active
  revision := 1
  createdBy := e.actor
  createdAt := e.time
  releasedBy := none
  releasedAt := none
  releaseReason := none
  scopes := []

/-- One more scope, if it is not there. -/
def insert (r : Record) (scope : Scope) (time : Time) : Record :=
  { r with
    revision := r.revision + 1
    scopes := if r.Covers scope then r.scopes else r.scopes ++ [(scope, time)] }

/-- The scope is taken out, if it is there. -/
def erase (r : Record) (scope : Scope) : Record :=
  { r with
    revision := r.revision + 1
    scopes := r.scopes.filter fun entry => entry.1 ≠ scope }

/-- The record of a hold that is closed, by whom, when and why. -/
def release (r : Record) (e : HoldEvent) (reason : String) : Record :=
  { r with
    status := .released
    revision := r.revision + 1
    releasedBy := some e.actor
    releasedAt := some e.time
    releaseReason := some reason }

/-- What an event makes of a hold, or of there being no hold yet. -/
def apply (r : Option Record) (e : HoldEvent) : Option Record :=
  match e.what with
  | .created title legalAuthority => some (created e title legalAuthority)
  | .scopeAdded scope => r.map (·.insert scope e.time)
  | .scopeRemoved scope => r.map (·.erase scope)
  | .released reason => r.map (·.release e reason)

/-- What may happen to a hold that is there; nothing may once it is released. -/
def Allows (r : Record) : Happening → Prop
  | .created .. => False
  | .scopeAdded scope => r.status = .active ∧ ¬ r.Covers scope
  | .scopeRemoved scope => r.status = .active ∧ r.Covers scope
  | .released _ => r.status = .active

/-- What may happen next: at first the creation, then what the hold allows. -/
def admits (r : Option Record) (e : HoldEvent) : Prop :=
  match r with
  | none => ∃ title legalAuthority, e.what = .created title legalAuthority
  | some r => r.Allows e.what

/-- The law of one hold: how events change its record, and which of them may come. -/
def law : Law (Option Record) HoldEvent := ⟨none, apply, admits⟩

/-! ### Lawful histories -/

/-- What may happen to an existing hold keeps it in existence, one revision
further. -/
theorem apply_some {r : Record} {e : HoldEvent} (h : r.Allows e.what) :
    ∃ r', apply (some r) e = some r' ∧ r'.revision = r.revision + 1 := by
  unfold apply
  cases hw : e.what with
  | created title legalAuthority =>
    rw [hw] at h
    exact h.elim
  | scopeAdded scope => exact ⟨_, rfl, rfl⟩
  | scopeRemoved scope => exact ⟨_, rfl, rfl⟩
  | released reason => exact ⟨_, rfl, rfl⟩

/-- A hold exists from its first event on. -/
theorem replay_eq_none_iff {es : List HoldEvent} (h : law.Lawful es) :
    law.replay es = none ↔ es = [] := by
  refine h.induction (P := fun es => law.replay es = none ↔ es = []) (by simp [law]) ?_
  intro es e _ _ he
  rw [Law.replay_snoc]
  simp only [List.append_eq_nil_iff, List.cons_ne_self, and_false, iff_false]
  cases hr : law.replay es with
  | none =>
    rw [hr] at he
    obtain ⟨title, authority, hw⟩ := he
    simp [law, apply, hw]
  | some r =>
    rw [hr] at he
    obtain ⟨r', hr', -⟩ := apply_some he
    show apply (some r) e ≠ none
    simp [hr']

/-- **The revision counts the events** of a lawful history. -/
theorem revision_eq {es : List HoldEvent} (h : law.Lawful es) {r : Record}
    (hr : law.replay es = some r) : r.revision = es.length := by
  refine h.induction (P := fun es => ∀ r, law.replay es = some r → r.revision = es.length)
    (by simp [law]) ?_ r hr
  intro es e hes ih he r hr
  rw [Law.replay_snoc] at hr
  cases hs : law.replay es with
  -- Nothing has happened yet: this is the creation, at revision 1.
  | none =>
    rw [hs] at he hr
    obtain ⟨title, authority, hw⟩ := he
    have hnil : es = [] := (replay_eq_none_iff hes).mp hs
    simp only [law, apply, hw, Option.some.injEq] at hr
    subst hr hnil
    rfl
  | some s =>
    rw [hs] at he hr
    obtain ⟨s', hs', hrev⟩ := apply_some he
    have : r = s' := Option.some.inj (hr.symm.trans hs')
    rw [this, hrev, ih s hs]
    simp

/-- **A history starts with the creation**, which does not come again. -/
theorem created_iff {es : List HoldEvent} (h : law.Lawful es) {n : ℕ} {e : HoldEvent}
    (hn : es[n]? = some e) : (∃ title authority, e.what = .created title authority) ↔ n = 0 := by
  have hadmits := h n e hn
  have hlt : n < es.length := (List.getElem?_eq_some_iff.mp hn).1
  cases hr : law.replay (es.take n) with
  | none =>
    rw [hr] at hadmits
    have hnil := (replay_eq_none_iff (h.take n)).mp hr
    have hlen : (es.take n).length = 0 := by rw [hnil]; rfl
    rw [List.length_take] at hlen
    exact ⟨fun _ => by omega, fun _ => hadmits⟩
  | some r =>
    rw [hr] at hadmits
    constructor
    · rintro ⟨title, authority, hw⟩
      have hf : r.Allows e.what := hadmits
      rw [hw] at hf
      exact hf.elim
    · rintro rfl
      simp [law] at hr

/-- A record that is released allows nothing more to happen. -/
theorem not_allows_of_released {r : Record} (h : r.status = .released) (w : Happening) :
    ¬ r.Allows w := by
  cases w <;> simp [Allows, h]

/-- **The release is the last event** of a lawful history. -/
theorem released_last {es : List HoldEvent} (h : law.Lawful es) {n : ℕ} {e : HoldEvent}
    {reason : String} (hn : es[n]? = some e) (hw : e.what = .released reason) :
    n + 1 = es.length := by
  have hlt : n < es.length := (List.getElem?_eq_some_iff.mp hn).1
  -- Otherwise the next event was admitted by a released record.
  by_contra hne
  obtain ⟨e', he'⟩ : ∃ e', es[n + 1]? = some e' := ⟨_, List.getElem?_eq_getElem (by omega)⟩
  have hadmits := h (n + 1) e' he'
  have htake : es.take (n + 1) = es.take n ++ [e] := by
    rw [List.take_add_one, hn]
    rfl
  rw [htake, Law.replay_snoc] at hadmits
  have hbefore := h n e hn
  cases hr : law.replay (es.take n) with
  | none =>
    rw [hr] at hbefore
    obtain ⟨title, authority, hc⟩ := hbefore
    rw [hw] at hc
    cases hc
  | some r =>
    rw [hr] at hadmits
    have : (law.apply (some r) e) = some (r.release e reason) := by simp [law, apply, hw]
    rw [this] at hadmits
    exact not_allows_of_released rfl _ hadmits

/-- The columns of a release are there exactly when there was one. -/
def Closed (r : Record) : Prop :=
  (r.status = .released ↔ r.releasedBy.isSome) ∧ (r.status = .released ↔ r.releasedAt.isSome) ∧
    (r.status = .released ↔ r.releaseReason.isSome)

theorem scopes_nodup {es : List HoldEvent} (h : law.Lawful es) {r : Record}
    (hr : law.replay es = some r) : (r.scopes.map Prod.fst).Nodup := by
  have := h.invariant (I := fun r => ∀ s, r = some s → (s.scopes.map Prod.fst).Nodup)
    (by simp [law]) ?_
  · exact this r hr
  intro r e hI he s hs
  cases hw : e.what with
  | created title authority =>
    simp only [law, apply, hw, Option.some.injEq] at hs
    subst hs
    simp [created]
  | scopeAdded scope =>
    simp only [law, apply, hw] at hs
    obtain ⟨r', rfl, rfl⟩ := Option.map_eq_some_iff.mp hs
    -- The law admits only scopes that are not covered yet.
    have hno : ¬ r'.Covers scope := by
      have : r'.Allows e.what := he
      rw [hw] at this
      exact this.2
    simp only [insert, if_neg hno, List.map_append, List.map_cons, List.map_nil]
    exact List.nodup_append.mpr ⟨hI r' rfl, by simp, fun a ha b hb => by
      simp only [List.mem_singleton] at hb
      subst hb
      rintro rfl
      exact hno ha⟩
  | scopeRemoved scope =>
    simp only [law, apply, hw] at hs
    obtain ⟨r', rfl, rfl⟩ := Option.map_eq_some_iff.mp hs
    exact (hI r' rfl).sublist (List.Sublist.map _ List.filter_sublist)
  | released reason =>
    simp only [law, apply, hw] at hs
    obtain ⟨r', rfl, rfl⟩ := Option.map_eq_some_iff.mp hs
    exact hI r' rfl

theorem closed {es : List HoldEvent} (h : law.Lawful es) {r : Record}
    (hr : law.replay es = some r) : r.Closed := by
  have := h.invariant (I := fun r => ∀ s, r = some s → s.Closed) (by simp [law]) ?_
  · exact this r hr
  intro r e hI he s hs
  cases hw : e.what with
  | created title authority =>
    simp only [law, apply, hw, Option.some.injEq] at hs
    subst hs
    simp [created, Closed]
  | scopeAdded scope =>
    simp only [law, apply, hw] at hs
    obtain ⟨r', rfl, rfl⟩ := Option.map_eq_some_iff.mp hs
    exact hI r' rfl
  | scopeRemoved scope =>
    simp only [law, apply, hw] at hs
    obtain ⟨r', rfl, rfl⟩ := Option.map_eq_some_iff.mp hs
    exact hI r' rfl
  | released reason =>
    simp only [law, apply, hw] at hs
    obtain ⟨r', rfl, rfl⟩ := Option.map_eq_some_iff.mp hs
    simp [release, Closed]

end Record

/-! ### The tables read as events -/

/-- The scope that the payload of an activity row names, if it names one. -/
def Scope.ofPayload (payload : Json) : Option Scope := do
  let scopeKind ← (← payload.field "scope_kind").asStr
  let scopeId ← (← payload.field "scope_id").asStr
  match ← payload.field "subject" with
  | .null => return ⟨scopeKind, scopeId, none⟩
  | .str subject => return ⟨scopeKind, scopeId, some subject⟩
  | _ => none

@[simp] theorem Scope.ofPayload_scopePayload (scope : Scope) :
    Scope.ofPayload (Change.payload.scopePayload scope) = some scope := by
  obtain ⟨kind, id, subject⟩ := scope
  cases subject <;> rfl

namespace ActivityRow

/-- What an activity row reports, by its kind and its payload. -/
def happening? (a : ActivityRow) : Option Happening :=
  match a.kind with
  | .holdCreated => do
    let title ← (← a.payload.field "title").asStr
    let legalAuthority ← (← a.payload.field "legal_authority").asStr
    return .created title legalAuthority
  | .scopeAdded => (Scope.ofPayload a.payload).map .scopeAdded
  | .scopeRemoved => (Scope.ofPayload a.payload).map .scopeRemoved
  | .holdReleased => do
    let reason ← (← a.payload.field "reason").asStr
    return .released reason

/-- An activity row as an event in the history of its hold. -/
def event? (a : ActivityRow) : Option HoldEvent :=
  a.happening?.map fun what => ⟨a.organizationId, a.actorSubject, a.createdAt, what⟩

end ActivityRow

/-- The events of a hold that its activity rows report. -/
def Db.eventsOf (db : Db) (h : String) : List HoldEvent :=
  (db.activityOf h).filterMap ActivityRow.event?

/-- A hold row and its scope rows as a record. -/
def HoldRow.record (row : HoldRow) (scopes : List ScopeRow) : Record where
  organizationId := row.organizationId
  title := row.title
  legalAuthority := row.legalAuthority
  status := row.status
  revision := row.revision
  createdBy := row.createdBy
  createdAt := row.createdAt
  releasedBy := row.releasedBy
  releasedAt := row.releasedAt
  releaseReason := row.releaseReason
  scopes := scopes.map fun s => (s.toScope, s.createdAt)

/-- The record of a hold that the tables show. -/
def Db.record? (db : Db) (h : String) : Option Record :=
  (db.hold? h).map fun row => row.record (db.scopesOf h)

end LegalHold
