import LegalHold.Interleave.Triple
import LegalHold.Locking

/-!
# The sessions that mutate

What a mutating session can end in, and the proof that its program ends there
whatever the other sessions do meanwhile: it met a failure, it was answered from
a receipt, it found another request under its key, or it went through and then
has either committed a mutation of the tables or left them alone.

The proof follows the program.  Up to the receipt a session holds nothing; from
there on `Stage` carries what it has found and written so far, and the part that
all mutations share, `Command.conclude`, is followed once.

## Main definitions

* `Outcome` — what a mutating session can end in.
* `OnlyConflicts` — no domain failure but a conflict of idempotency keys.
* `Stage` — a mutating session between its receipt and its end.

## Main results

* `conclude_triple` — from a change of the hold to the commit.
* `createHold_triple`, `addScope_triple`, `removeScope_triple`,
  `releaseHold_triple` — the outcome of the operations.
-/

namespace LegalHold

open Interleave

/-! ### Telling the statements of a session apart -/

/-- The statement by which `replay` looks for the receipt. -/
def Stmt.readsReceipt : Stmt → Bool
  | .query (.selectCommand _) => true
  | _ => false

/-- The statement by which `create_hold` proposes its hold. -/
def Stmt.insertsHold : Stmt → Bool
  | .query (.insertHold ..) => true
  | _ => false

/-- The statement by which a session has looked for its receipt. -/
def Server.receiptRead (srv : Server) (i : Session Op) : Option Event :=
  (srv.eventsOf i).find? fun e => e.stmt.readsReceipt

section

variable [Backend]

/-! ### Outcomes -/

/-- All statements of the session were carried out, and the one that looked for
its receipt was `e`. -/
structure Looked (srv : Server) (i : Session Op) (e : Event) : Prop where
  done : ∀ e' ∈ srv.eventsOf i, e'.fate = .done
  read : srv.receiptRead i = some e

/-- A hold of this id was there when the session proposed its own. -/
def Taken (srv : Server) (i : Session Op) (c : Command) : Prop :=
  ∃ e ∈ srv.eventsOf i, e.stmt.insertsHold = true ∧ (srv.asOf e.seen).hold? c.holdId ≠ none

/-- What the session `i` can end in when it carries out the command `c`, with what it has left
behind. -/
inductive Outcome (i : Session Op) (c : Command) (srv : Server) :
    Except StorageError HoldView → Prop where
  /-- A statement failed, or its reply was lost. -/
  | faulted {operation : String} {e : Event} (mem : e ∈ srv.eventsOf i) (fate : e.fate ≠ .done) :
      Outcome i c srv (.error (.database operation .connection))
  /-- A receipt of the same request was found. -/
  | replayed {e : Event} {row : CommandRow} (looked : Looked srv i e)
      (found : (srv.asOf e.seen).command? c.key = some row)
      (same : row.requestHash = c.requestHash) :
      Outcome i c srv ((HoldView.fromValue row.response).mapError .serialization)
  /-- A receipt of another request was found. -/
  | mismatched {e : Event} {row : CommandRow} (looked : Looked srv i e)
      (found : (srv.asOf e.seen).command? c.key = some row)
      (other : row.requestHash ≠ c.requestHash) :
      Outcome i c srv (.error (.domain .idempotencyConflict))
  /-- No receipt was found, and the mutation is committed. -/
  | committed {e : Event} (looked : Looked srv i e)
      (unseen : (srv.asOf e.seen).command? c.key = none) (untaken : ¬ Taken srv i c)
      {n : ℕ} {t : Tx} {ws : List Write} {activityId : Int} {view : HoldView}
      (logged : srv.log[n]? = some t) (owner : t.owner = i)
      (mutation : Mutation (srv.asOf n) t c ws activityId view) :
      Outcome i c srv (.ok view)
  /-- No receipt was found, but the hold to create was there. -/
  | taken {e : Event} (looked : Looked srv i e)
      (unseen : (srv.asOf e.seen).command? c.key = none) (taken : Taken srv i c) :
      Outcome i c srv (.error (.domain .idempotencyConflict))
  /-- No receipt was found, and the mutation was refused or went wrong. -/
  | refused {e : Event} {error : StorageError} (looked : Looked srv i e)
      (unseen : (srv.asOf e.seen).command? c.key = none) (untaken : ¬ Taken srv i c)
      (other : error ≠ .domain .idempotencyConflict) :
      Outcome i c srv (.error error)

/-- The statements of a session saw no more than there is. -/
theorem Server.Inv.seen_le {srv : Server} {i : Session Op} (hinv : srv.Inv) {e : Event}
    (he : e ∈ srv.eventsOf i) : e.seen ≤ srv.log.length :=
  hinv.seen e (List.mem_filter.mp he).1

omit [Backend] in
theorem Server.receiptRead_mem {srv : Server} {i : Session Op} {e : Event}
    (h : srv.receiptRead i = some e) : e ∈ srv.eventsOf i ∧ e.stmt.readsReceipt = true :=
  ⟨List.mem_of_find?_eq_some h, List.find?_some (p := fun e : Event => e.stmt.readsReceipt) h⟩

/-- What a session saw stays what it was. -/
theorem Kept.asOf {i : Session Op} {srv srv' : Server} (hinv : srv.Inv)
    (hframe : Kept i srv srv') {e : Event} (he : e ∈ srv.eventsOf i) :
    srv'.asOf e.seen = srv.asOf e.seen :=
  Server.asOf_of_le hframe.log (hinv.seen_le he)

omit [Backend] in
theorem Looked.kept {i : Session Op} {srv srv' : Server} {e : Event} (h : Looked srv i e)
    (hframe : Kept i srv srv') : Looked srv' i e where
  done := by rw [hframe.events]; exact h.done
  read := by unfold Server.receiptRead; rw [hframe.events]; exact h.read

theorem Looked.asOf {i : Session Op} {srv srv' : Server} {e : Event} (h : Looked srv i e)
    (hinv : srv.Inv) (hframe : Kept i srv srv') : srv'.asOf e.seen = srv.asOf e.seen :=
  hframe.asOf hinv (Server.receiptRead_mem h.read).1

theorem Kept.taken_iff {i : Session Op} {srv srv' : Server} {c : Command} (hinv : srv.Inv)
    (hframe : Kept i srv srv') : Taken srv' i c ↔ Taken srv i c := by
  unfold Taken
  rw [hframe.events]
  refine exists_congr fun e => and_congr_right fun he => ?_
  rw [hframe.asOf hinv he]

/-- **Nobody can change the outcome of a session.** -/
theorem Outcome.kept {i : Session Op} {c : Command} {srv srv' : Server}
    {r : Except StorageError HoldView} (h : Outcome i c srv r) (hinv : srv.Inv)
    (hframe : Kept i srv srv') : Outcome i c srv' r := by
  cases h with
  | faulted mem fate => exact .faulted (by rw [hframe.events]; exact mem) fate
  | replayed looked found same =>
    exact .replayed (looked.kept hframe) (by rw [looked.asOf hinv hframe]; exact found) same
  | mismatched looked found other =>
    exact .mismatched (looked.kept hframe) (by rw [looked.asOf hinv hframe]; exact found) other
  | @committed e looked unseen untaken n t ws activityId view logged owner mutation =>
    have hn : n < srv.log.length := (List.getElem?_eq_some_iff.mp logged).1
    have hlogged : srv'.log[n]? = some t := by
      obtain ⟨more, hmore⟩ := hframe.log
      rw [← hmore, List.getElem?_append_left hn]
      exact logged
    have hmutation : Mutation (srv'.asOf n) t c ws activityId view := by
      rw [Server.asOf_of_le hframe.log (Nat.le_of_lt hn)]
      exact mutation
    exact .committed (looked.kept hframe) (by rw [looked.asOf hinv hframe]; exact unseen)
      (by rw [hframe.taken_iff hinv]; exact untaken) hlogged owner hmutation
  | taken looked unseen taken =>
    exact .taken (looked.kept hframe) (by rw [looked.asOf hinv hframe]; exact unseen)
      (by rw [hframe.taken_iff hinv]; exact taken)
  | refused looked unseen untaken other =>
    exact .refused (looked.kept hframe) (by rw [looked.asOf hinv hframe]; exact unseen)
      (by rw [hframe.taken_iff hinv]; exact untaken) other

/-! ### Issuing a statement -/

omit [Backend] in
theorem Server.eventsOf_note (srv : Server) (i : Session Op) (s : Stmt) (f : Fate) (seen : ℕ) :
    (srv.note i s f seen).eventsOf i = srv.eventsOf i ++ [⟨i, s, f, seen⟩] := by
  simp [Server.eventsOf, Server.note, List.filter_append]

/-- One statement with its errors.  A failure leaves a trace that is not `done`;
otherwise the statement is carried out as it stands. -/
theorem Triple.issue {i : Session Op} {s : Stmt} {operation : String} {P : Server → Prop}
    {Q : Except StorageError s.Rows → Server → Prop} (hP : Stable discipline i P)
    (hready : ∀ srv, srv.Inv → P srv → srv.Ready i s)
    (hdone : ∀ srv srv' r, srv.Inv → P srv → srv.perform i s = some (srv', r) →
      (srv'.note i s .done srv.log.length).Inv →
      (srv'.note i s .done srv.log.length).eventsOf i =
        srv.eventsOf i ++ [⟨i, s, .done, srv.log.length⟩] →
      Q (r.mapError (.database operation)) (srv'.note i s .done srv.log.length))
    (hfault : ∀ srv', srv'.Inv → (∃ e ∈ srv'.eventsOf i, e.fate ≠ .done) →
      Q (.error (.database operation .connection)) srv') :
    Triple discipline i P (issue operation s).run Q := by
  refine Triple.ask hP fun srv f srv' r hinv hp hexec => ?_
  obtain ⟨hinv', hframe⟩ := Server.Inv.exec hinv (hready srv hinv hp) hexec
  refine ⟨hinv', hframe, ?_⟩
  have hlast : ∀ (srv₁ : Server) (f : Fate), f ≠ .done →
      ∃ e ∈ (srv₁.note i s f srv.log.length).eventsOf i, e.fate ≠ .done := by
    intro srv₁ f hf
    rw [Server.eventsOf_note]
    exact ⟨_, List.mem_append_right _ List.mem_cons_self, hf⟩
  -- The statement is carried out, fails, or is carried out with its reply lost; the trace tells
  -- which.
  cases f with
  | done =>
    obtain ⟨⟨srv₁, r₁⟩, h₁, heq⟩ := Option.map_eq_some_iff.mp hexec
    cases heq
    have hevents : (srv₁.note i s .done srv.log.length).eventsOf i =
        srv.eventsOf i ++ [⟨i, s, .done, srv.log.length⟩] := by
      rw [Server.eventsOf_note]
      unfold Server.eventsOf
      rw [(Server.perform_moved h₁).trace]
    have := hdone srv srv₁ r hinv hp h₁ hinv' hevents
    cases r with
    | ok rows => exact this
    | error e => exact this
  | failed =>
    simp only [machine, Server.exec, Option.some.injEq] at hexec
    cases hexec
    exact hfault _ hinv' (hlast _ _ (by decide))
  | lost =>
    obtain ⟨⟨srv₁, r₁⟩, h₁, heq⟩ := Option.map_eq_some_iff.mp hexec
    cases heq
    exact hfault _ hinv' (hlast _ _ (by decide))

/-- If this is a domain failure, it is an idempotency conflict. -/
def OnlyConflicts {α : Type} (r : Except StorageError α) : Prop :=
  ∀ failure, r = .error (.domain failure) → failure = .idempotencyConflict

omit [Backend] in
/-- A statement by itself fails in the database only. -/
theorem issue_leaves (operation : String) (s : Stmt) :
    (issue operation s).run.Leaves OnlyConflicts := by
  intro r
  cases r with
  | ok rows =>
    intro failure h
    cases h
  | error e =>
    intro failure h
    cases h

/-- The errors a program can return, besides where it ends. -/
theorem Triple.onlyConflicts {α : Type} {i : Session Op} {P : Server → Prop} {x : Storage α}
    {R : α → Server → Prop} {E : StorageError → Server → Prop}
    (h : Triple discipline i P x.run (Ends R E)) (hx : x.run.Leaves OnlyConflicts) :
    Triple discipline i P x.run (Ends R fun e srv => E e srv ∧
      OnlyConflicts (.error e : Except StorageError HoldView)) := by
  refine (h.leaves hx).conseq (fun _ _ h => h) fun r srv _ hr => ?_
  cases r with
  | ok a => exact hr.1
  | error e =>
    refine ⟨hr.1, fun failure hfailure => hr.2 failure ?_⟩
    cases hfailure
    rfl

/-! ### Between the receipt and the end -/

omit [Backend] in
/-- A session that has looked for its receipt has still done so when one more statement was
carried out. -/
theorem Looked.snoc {i : Session Op} {srv srv' : Server} {e e' : Event} (h : Looked srv i e)
    (hevents : srv'.eventsOf i = srv.eventsOf i ++ [e']) (hdone : e'.fate = .done) :
    Looked srv' i e where
  done a ha := by
    rw [hevents] at ha
    rcases List.mem_append.mp ha with ha | ha
    · exact h.done a ha
    · rw [List.mem_singleton.mp ha]
      exact hdone
  read := by
    have hread := h.read
    unfold Server.receiptRead at hread ⊢
    rw [hevents, List.find?_append, hread, Option.some_or]

/-- A statement that proposes no hold finds none taken. -/
theorem not_taken_snoc {i : Session Op} {srv srv' : Server} {c : Command} {e : Event}
    (hinv : srv.Inv) (h : ¬ Taken srv i c)
    (hevents : srv'.eventsOf i = srv.eventsOf i ++ [e]) (hlog : srv.log <+: srv'.log)
    (he : e.stmt.insertsHold = true → (srv'.asOf e.seen).hold? c.holdId = none) :
    ¬ Taken srv' i c := by
  rintro ⟨e', he', hins, htaken⟩
  rw [hevents] at he'
  rcases List.mem_append.mp he' with he' | he'
  · rw [Server.asOf_of_le hlog (hinv.seen_le he')] at htaken
    exact h ⟨e', he', hins, htaken⟩
  · obtain rfl := List.mem_singleton.mp he'
    exact htaken (he hins)

/-- A mutating session that has found no receipt, with `t` as its open transaction. -/
structure Stage (i : Session Op) (c : Command) (t : Tx) (srv : Server) : Prop where
  tx : srv.tx? i = some t
  owner : t.owner = i
  looked : ∃ e, Looked srv i e ∧ (srv.asOf e.seen).command? c.key = none
  untaken : ¬ Taken srv i c

namespace Stage

variable {i : Session Op} {c : Command} {t : Tx} {srv srv' : Server}

theorem frame (h : Stage i c t srv) (hinv : srv.Inv) (hframe : Frame i srv srv') :
    Stage i c t srv' where
  tx := hframe.tx.trans h.tx
  owner := h.owner
  looked := by
    obtain ⟨e, looked, unseen⟩ := h.looked
    exact ⟨e, looked.kept hframe.toKept, by rw [looked.asOf hinv hframe.toKept]; exact unseen⟩
  untaken := by
    rw [hframe.taken_iff hinv]
    exact h.untaken

/-- A session may end here with anything but an idempotency conflict. -/
theorem refused (h : Stage i c t srv) {error : StorageError}
    (hother : error ≠ .domain .idempotencyConflict) : Outcome i c srv (.error error) := by
  obtain ⟨e, looked, unseen⟩ := h.looked
  exact .refused looked unseen h.untaken hother

/-- The session after one more statement of its transaction. -/
theorem applied (h : Stage i c t srv) (hinv : srv.Inv) {q : Query} (e : Effect q.Rows)
    (hins : (Stmt.query q).insertsHold = true → srv.db.hold? c.holdId = none) :
    Stage i c (t.extend e)
      ((srv.applied t e).note i (.query q) .done srv.log.length) := by
  have hevents : ((srv.applied t e).note i (.query q) .done srv.log.length).eventsOf i =
      srv.eventsOf i ++ [⟨i, .query q, .done, srv.log.length⟩] := Server.eventsOf_note _ _ _ _ _
  refine ⟨?_, h.owner, ?_, ?_⟩
  · exact Server.tx?_setTx_self h.tx (by rw [Tx.extend_owner, h.owner])
  · obtain ⟨e', looked, unseen⟩ := h.looked
    exact ⟨e', looked.snoc hevents rfl, unseen⟩
  · refine not_taken_snoc hinv h.untaken hevents (List.prefix_refl _) fun hq => ?_
    show (srv.asOf srv.log.length).hold? c.holdId = none
    rw [hinv.asOf_length]
    exact hins hq

/-- A statement that neither looks for a receipt nor proposes a hold. -/
theorem issue {F : Server → Prop} {q : Query} {operation : String} {R : q.Rows → Server → Prop}
    (hF : ∀ srv srv', srv.tx? i = some t → Frame i srv srv' → F srv → F srv')
    (hcov : t.Covers q) (hins : (Stmt.query q).insertsHold = false)
    (hR : ∀ (srv srv' : Server) rows, srv.Inv → F srv →
      (q.effect (srv.db.putAll t.writes) t.startedAt srv.seq).reply = .ok rows →
      Stage i c (t.extend (q.effect (srv.db.putAll t.writes) t.startedAt srv.seq)) srv' →
      srv'.db = srv.db → R rows srv') :
    Triple discipline i (fun srv => Stage i c t srv ∧ F srv)
      (LegalHold.issue operation (.query q)).run
      (Ends R fun e srv => Outcome i c srv (.error e)) := by
  refine Triple.issue ?_ ?_ ?_ ?_
  · intro srv srv' hinv ⟨hstage, hf⟩ _ hframe
    exact ⟨hstage.frame hinv hframe, hF srv srv' hstage.tx hframe hf⟩
  · intro srv _ ⟨hstage, _⟩ t' ht'
    cases hstage.tx.symm.trans ht'
    exact hcov
  · intro srv srv' r hinv ⟨hstage, hf⟩ hperform _ _
    obtain ⟨-, rfl, rfl⟩ := Server.perform_query hstage.tx hperform
    have hnext := hstage.applied hinv (q.effect (srv.view t) t.startedAt srv.seq)
      (fun h => by rw [hins] at h; cases h)
    cases hr : (q.effect (srv.view t) t.startedAt srv.seq).reply with
    | ok rows => exact hR srv _ rows hinv hf hr hnext rfl
    | error e =>
      have hother : StorageError.database operation e ≠ .domain .idempotencyConflict := by simp
      exact hnext.refused hother
  · rintro srv' - ⟨e, he, hfate⟩
    exact Outcome.faulted he hfate

end Stage

/-! ### What all mutations share -/

/-- From a change of the hold to the commit. -/
def Command.conclude (c : Command) (operation : String) : Storage HoldView := do
  appendActivity c.organizationId c.holdId c.change.kind c.actor c.change.payload
  let view ← loadHoldTx c.organizationId c.holdId
  storeCommand c.caller c.actor c.change.operation c.idempotencyKey c.requestHash view.toValue
  issue operation .commit
  return view

/-- The transaction has changed its hold and has written the activity row for the change. -/
structure Noted (c : Command) (t : Tx) (ws : List Write) (activityId : Int) (db : Db) : Prop where
  owns : t.Owns c.holdId
  changed : Changes db c t.startedAt ws
  writes : t.writes = ws ++ [.insertActivity (c.activity activityId t.startedAt)]
  later : ∀ a ∈ db.activityOf c.holdId, a.activityId < activityId
  drawn : 0 < activityId ∧ activityId ≤ maxI64

omit [Backend] in
theorem Noted.frame {i : Session Op} {c : Command} {t : Tx} {ws : List Write} {activityId : Int}
    {srv srv' : Server} (h : Noted c t ws activityId srv.db) (ht : srv.tx? i = some t)
    (hframe : Frame i srv srv') : Noted c t ws activityId srv'.db := by
  obtain ⟨hhold, hscopes, hactivity⟩ := hframe.hold t ht c.holdId h.owns
  refine { h with changed := h.changed.congr hhold hscopes, later := ?_ }
  rw [hactivity]
  exact h.later

omit [Backend] in
/-- The hold is there for the transaction that has changed it. -/
theorem Noted.found {c : Command} {t : Tx} {ws : List Write} {activityId : Int} {db : Db}
    (h : Noted c t ws activityId db) :
    ((db.putAll t.writes).hold? c.holdId).filter (·.organizationId = c.organizationId) ≠ none := by
  obtain ⟨row, hrow, horg⟩ := h.changed.found
  rw [h.writes, Db.putAll_append]
  simp [hrow, horg]

theorem Mutation.frame {i : Session Op} {c : Command} {t : Tx} {ws : List Write}
    {activityId : Int} {view : HoldView} {srv srv' : Server}
    (h : Mutation srv.db t c ws activityId view) (ho : t.Owns c.holdId)
    (hk : .commandKey c.key ∈ t.locks) (ht : srv.tx? i = some t) (hframe : Frame i srv srv') :
    Mutation srv'.db t c ws activityId view := by
  obtain ⟨hhold, hscopes, hactivity⟩ := hframe.hold t ht c.holdId ho
  refine { h with unseen := ?_, changed := h.changed.congr hhold hscopes, later := ?_, view := ?_ }
  · rw [hframe.command t ht c.key hk]
    exact h.unseen
  · rw [hactivity]
    exact h.later
  · rw [Db.loadHold_putAll_congr hhold hscopes]
    exact h.view

variable {i : Session Op} {c : Command} {t : Tx} {ws : List Write} {activityId : Int}

/-- `append_activity` draws a number above those of all rows of the hold. -/
theorem appendActivity_triple (ho : t.Owns c.holdId) :
    Triple discipline i (fun srv => Stage i c t srv ∧ Changes srv.db c t.startedAt t.writes)
      (appendActivity c.organizationId c.holdId c.change.kind c.actor c.change.payload).run
      (Ends (fun _ srv => ∃ t' ws activityId, Stage i c t' srv ∧ Noted c t' ws activityId srv.db)
        fun e srv => Outcome i c srv (.error e)) := by
  have hcov : t.Covers (.insertActivity c.organizationId c.holdId c.change.kind c.actor
      c.change.payload) := ho
  refine Stage.issue ?_ hcov rfl ?_
  · intro srv srv' ht hframe hchanged
    obtain ⟨hhold, hscopes, -⟩ := hframe.hold t ht c.holdId ho
    exact hchanged.congr hhold hscopes
  · intro srv srv' rows hinv hchanged hreply hstage hdb
    refine ⟨_, t.writes, srv.seq.activity, hstage, ho.extend _, ?_, ?_, ?_, hinv.positive, ?_⟩
    · rw [hdb]
      exact hchanged
    · -- the row is the one the statement proposes, whatever the hold's row is
      simp only [Query.effect] at hreply ⊢
      split at hreply
      · cases hreply
      · next hroom =>
        rw [if_neg hroom]
        split at hreply
        · cases hreply
        · simp only [Tx.extend, Command.activity]
    · rw [hdb]
      intro a ha
      exact hinv.sequence a (List.mem_filter.mp ha).1
    · simp only [Query.effect] at hreply
      split at hreply
      · cases hreply
      · next hroom => exact Int.not_lt.mp hroom

omit [Backend] in
/-- A statement that writes nothing and locks nothing leaves its transaction as
it is. -/
theorem Tx.extend_idle {α : Type} (t : Tx) {e : Effect α} (hw : e.writes = [])
    (hl : e.locks = []) : t.extend e = t := by
  unfold Tx.extend
  rw [hw, hl, List.append_nil, List.append_nil]

/-- `load_hold_tx` under the hold's lock reads what the transaction has made of
the hold, and does not miss it. -/
theorem loadHoldTx_triple :
    Triple discipline i (fun srv => Stage i c t srv ∧ Noted c t ws activityId srv.db)
      (loadHoldTx c.organizationId c.holdId).run
      (Ends (fun view srv => Stage i c t srv ∧ Noted c t ws activityId srv.db ∧
          (srv.db.putAll t.writes).loadHold c.organizationId c.holdId = .ok view)
        fun e srv => Outcome i c srv (.error e) ∧
          OnlyConflicts (.error e : Except StorageError HoldView)) := by
  have hrow : t.Covers (.selectHold c.organizationId c.holdId) := trivial
  have hscopes : t.Covers (.selectScopes c.holdId) := trivial
  -- the row
  refine Triple.run_bind (R := fun (row : Option HoldRow) (srv : Server) => Stage i c t srv ∧
      Noted c t ws activityId srv.db ∧
      ((srv.db.putAll t.writes).hold? c.holdId).filter
        (·.organizationId = c.organizationId) = row) ?_ ?_
  · refine Triple.onlyConflicts (Stage.issue (fun srv srv' ht hframe h => h.frame ht hframe)
      hrow rfl ?_) (issue_leaves _ _)
    intro srv srv' row hinv hnoted hreply hstage hdb
    rw [Tx.extend_idle t rfl rfl] at hstage
    rw [hdb]
    exact ⟨hstage, hnoted, Except.ok.inj hreply⟩
  intro row
  cases row with
  | none =>
    exact Triple.ret fun srv _ h => absurd h.2.2 h.2.1.found
  | some row =>
    -- the scopes
    refine Triple.run_bind (R := fun (rows : List ScopeRow) (srv : Server) => Stage i c t srv ∧
        Noted c t ws activityId srv.db ∧
        (srv.db.putAll t.writes).loadHold c.organizationId c.holdId = holdView row rows) ?_ ?_
    · refine Triple.onlyConflicts (Stage.issue ?_ hscopes rfl ?_) (issue_leaves _ _)
      · rintro srv srv' ht hframe ⟨hnoted, hfound⟩
        refine ⟨hnoted.frame ht hframe, ?_⟩
        obtain ⟨hhold, -, -⟩ := hframe.hold t ht c.holdId hnoted.owns
        rw [Db.hold?_putAll_congr hhold]
        exact hfound
      · rintro srv srv' rows hinv ⟨hnoted, hfound⟩ hreply hstage hdb
        rw [Tx.extend_idle t rfl rfl] at hstage
        rw [hdb]
        refine ⟨hstage, hnoted, ?_⟩
        unfold Db.loadHold
        rw [hfound, ← Except.ok.inj hreply]
    intro rows
    refine Triple.ret fun srv _ h => ?_
    obtain ⟨hstage, hnoted, hload⟩ := h
    cases hv : holdView row rows with
    | ok view => exact ⟨hstage, hnoted, hload.trans hv⟩
    | error e =>
      obtain ⟨message, rfl⟩ := holdView_error hv
      refine ⟨hstage.refused (by simp), fun failure h => ?_⟩
      cases h

/-- Storing the receipt completes the mutation. -/
theorem storeCommand_triple {view : HoldView} (hc : i.op.command? = some c) :
    Triple discipline i
      (fun srv => Stage i c t srv ∧ Noted c t ws activityId srv.db ∧
        (srv.db.putAll t.writes).loadHold c.organizationId c.holdId = .ok view)
      (storeCommand c.caller c.actor c.change.operation c.idempotencyKey c.requestHash
        view.toValue).run
      (Ends (fun _ srv => ∃ t', (t'.Owns c.holdId ∧ .commandKey c.key ∈ t'.locks) ∧
          Stage i c t' srv ∧ Mutation srv.db t' c ws activityId view)
        fun e srv => Outcome i c srv (.error e)) := by
  have hcov : t.Covers (.insertCommand ⟨c.caller, c.actor, c.change.operation, c.idempotencyKey⟩
      c.requestHash view.toValue) := trivial
  refine Stage.issue ?_ hcov rfl ?_
  · rintro srv srv' ht hframe ⟨hnoted, hview⟩
    refine ⟨hnoted.frame ht hframe, ?_⟩
    obtain ⟨hhold, hscopes, -⟩ := hframe.hold t ht c.holdId hnoted.owns
    rw [Db.loadHold_putAll_congr hhold hscopes]
    exact hview
  · rintro srv srv' rows hinv ⟨hnoted, hview⟩ hreply hstage hdb
    cases hseen : (srv.db.putAll t.writes).command? c.key with
    | some row =>
      have hdup : (srv.db.putAll t.writes).command?
          ⟨c.caller, c.actor, c.change.operation, c.idempotencyKey⟩ = some row := hseen
      simp only [Query.effect, hdup] at hreply
      cases hreply
    | none =>
      have hnew : (srv.db.putAll t.writes).command?
          ⟨c.caller, c.actor, c.change.operation, c.idempotencyKey⟩ = none := hseen
      simp only [Query.effect, hnew] at hstage
      -- Not among the committed ones, since not among all that the transaction sees.
      have hunseen : srv.db.command? c.key = none := by
        cases hk : srv.db.command? c.key with
        | none => rfl
        | some row =>
          rw [Db.command?_putAll_of_some hk] at hseen
          cases hseen
      refine ⟨_, ⟨hnoted.owns.extend _, List.mem_append_right _ List.mem_cons_self⟩, hstage, ?_⟩
      rw [hdb]
      refine ⟨?_, hunseen, hnoted.changed, ?_, hnoted.later, hnoted.drawn, ?_⟩
      · have howner := hstage.owner
        rw [howner]
        exact hc
      · rw [Tx.extend_writes, hnoted.writes, List.append_assoc]
        rfl
      · rw [Tx.extend_writes, Db.putAll_append]
        exact hview

/-- The commit puts the mutation into the log. -/
theorem commit_triple {operation : String} {view : HoldView} (ho : t.Owns c.holdId)
    (hk : .commandKey c.key ∈ t.locks) :
    Triple discipline i
      (fun srv => Stage i c t srv ∧ Mutation srv.db t c ws activityId view)
      (issue operation .commit).run
      (Ends (fun _ srv => Outcome i c srv (.ok view))
        fun e srv => Outcome i c srv (.error e)) := by
  refine Triple.issue ?_ ?_ ?_ ?_
  · rintro srv srv' hinv ⟨hstage, hmutation⟩ hinv' hframe
    exact ⟨hstage.frame hinv hframe, hmutation.frame ho hk hstage.tx hframe⟩
  · rintro srv hinv ⟨hstage, hmutation⟩ t' ht'
    cases hstage.tx.symm.trans ht'
    exact .inr ⟨c, ws, activityId, view, hmutation⟩
  · rintro srv srv' r hinv ⟨hstage, hmutation⟩ hperform hinv' hevents
    simp only [Server.perform, hstage.tx] at hperform
    cases hperform
    -- A mutation has written something, so the commit is logged.
    have hne : t.writes.isEmpty = false := by
      rw [hmutation.writes]
      simp
    have hlog : ((srv.commitTx t).note i .commit .done srv.log.length).log = srv.log ++ [t] := by
      simp [Server.note, Server.commitTx, hne]
    have hprefix : srv.log <+: ((srv.commitTx t).note i .commit .done srv.log.length).log := by
      rw [hlog]
      exact List.prefix_append _ _
    -- The receipt was looked for before this commit, and what was read then stays.
    obtain ⟨e, looked, unseen⟩ := hstage.looked
    have hseen : e.seen ≤ srv.log.length := hinv.seen_le (Server.receiptRead_mem looked.read).1
    have hunseen : (((srv.commitTx t).note i .commit .done srv.log.length).asOf e.seen).command?
        c.key = none := by
      rw [Server.asOf_of_le hprefix hseen]
      exact unseen
    have hlogged : ((srv.commitTx t).note i .commit .done srv.log.length).log[srv.log.length]? =
        some t := by
      rw [hlog]
      simp
    have hmutation' : Mutation (((srv.commitTx t).note i .commit .done srv.log.length).asOf
        srv.log.length) t c ws activityId view := by
      rw [Server.asOf_of_le hprefix (Nat.le_refl _), hinv.asOf_length]
      exact hmutation
    exact Outcome.committed (looked.snoc hevents rfl) hunseen
      (not_taken_snoc hinv hstage.untaken hevents hprefix (by simp [Stmt.insertsHold]))
      hlogged hstage.owner hmutation'
  · rintro srv' - ⟨e, he, hfate⟩
    exact Outcome.faulted he hfate

/-- **What all mutations share**: a changed hold is concluded or left alone, and is
not missed on the way. -/
theorem conclude_triple {operation : String} (hc : i.op.command? = some c)
    (ho : t.Owns c.holdId) :
    Triple discipline i (fun srv => Stage i c t srv ∧ Changes srv.db c t.startedAt t.writes)
      (c.conclude operation).run fun r srv => Outcome i c srv r ∧ OnlyConflicts r := by
  refine Triple.run_bind (Triple.onlyConflicts (appendActivity_triple ho) (issue_leaves _ _))
    fun _ => ?_
  refine Triple.of_exists fun t₁ => Triple.of_exists fun ws => Triple.of_exists fun activityId => ?_
  refine Triple.run_bind loadHoldTx_triple fun view => ?_
  refine Triple.run_bind (Triple.onlyConflicts (storeCommand_triple hc) (issue_leaves _ _))
    fun _ => ?_
  refine Triple.of_exists fun t₂ => ?_
  refine Triple.of_pure fun hlocks => ?_
  refine Triple.run_bind (Triple.onlyConflicts (commit_triple hlocks.1 hlocks.2) (issue_leaves _ _))
    fun _ => ?_
  refine Triple.ret fun srv _ h => ⟨h, fun failure hfailure => ?_⟩
  cases hfailure

/-! ### From the start to the receipt -/

/-- The session holds no transaction, after the statements `es`. -/
structure Idle (i : Session Op) (es : List Event) (srv : Server) : Prop where
  tx : srv.tx? i = none
  events : srv.eventsOf i = es

/-- The session has a transaction that has done nothing, after the statements `es`. -/
structure Begun (i : Session Op) (es : List Event) (srv : Server) : Prop where
  tx : ∃ now, srv.tx? i = some ⟨i, now, [], []⟩
  events : srv.eventsOf i = es

omit [Backend] in
theorem Idle.frame {es : List Event} {srv srv' : Server} (h : Idle i es srv)
    (hframe : Frame i srv srv') : Idle i es srv' :=
  ⟨hframe.tx.trans h.tx, hframe.events.trans h.events⟩

omit [Backend] in
theorem Begun.frame {es : List Event} {srv srv' : Server} (h : Begun i es srv)
    (hframe : Frame i srv srv') : Begun i es srv' := by
  obtain ⟨now, htx⟩ := h.tx
  exact ⟨⟨now, hframe.tx.trans htx⟩, hframe.events.trans h.events⟩

/-- The rule of `begin`: the session is in a transaction that has done nothing yet, or it has no
connection. -/
theorem begin_triple {es : List Event} {operation : String} {E : StorageError → Server → Prop}
    (hE : ∀ srv, srv.Inv → (∃ e ∈ srv.eventsOf i, e.fate ≠ .done) →
      E (.database operation .connection) srv) :
    Triple discipline i (Idle i es) (issue operation .begin).run
      (Ends (fun _ srv => ∃ seen, Begun i (es ++ [⟨i, .begin, .done, seen⟩]) srv) E) := by
  refine Triple.issue (fun srv srv' _ h _ hframe => h.frame hframe) (fun _ _ _ => trivial) ?_ hE
  intro srv srv' r hinv hidle hperform hinv' hevents
  simp only [Server.perform, hidle.tx] at hperform
  cases hperform
  refine ⟨srv.log.length, ⟨srv.clock, ?_⟩, by rw [hevents, hidle.events]⟩
  simp [Server.tx?, Server.note]

omit [Backend] in
/-- When its two statements so far are `begin` and the query for the receipt, a session has looked
for its receipt, and has taken nothing. -/
theorem looked_of_receipt {srv : Server} {seen n : ℕ} {key : CommandKey}
    (hevents : srv.eventsOf i =
      [⟨i, .begin, .done, seen⟩] ++ [⟨i, .query (.selectCommand key), .done, n⟩]) :
    Looked srv i ⟨i, .query (.selectCommand key), .done, n⟩ ∧ ∀ c, ¬ Taken srv i c := by
  have hmem : ∀ e ∈ srv.eventsOf i, e.fate = .done ∧ e.stmt.insertsHold = false := by
    rw [hevents]
    intro e he
    simp only [List.cons_append, List.nil_append, List.mem_cons, List.not_mem_nil, or_false] at he
    rcases he with rfl | rfl
    · exact ⟨rfl, rfl⟩
    · exact ⟨rfl, rfl⟩
  refine ⟨⟨fun e he => (hmem e he).1, ?_⟩, fun c htaken => ?_⟩
  · unfold Server.receiptRead
    rw [hevents]
    rfl
  · obtain ⟨e, he, hins, -⟩ := htaken
    rw [(hmem e he).2] at hins
    cases hins

/-- `replay`: the session's receipt is looked for among what is committed. -/
theorem replay_triple {seen : ℕ} :
    Triple discipline i (Begun i [⟨i, .begin, .done, seen⟩])
      (replay c.caller c.actor c.change.operation c.idempotencyKey c.requestHash).run
      (Ends (fun (found : Option Json) srv =>
          (found = none → ∃ now, Stage i c ⟨i, now, [], []⟩ srv) ∧
          ∀ response, found = some response →
            Outcome i c srv ((HoldView.fromValue response).mapError .serialization))
        fun e srv => Outcome i c srv (.error e)) := by
  refine Triple.run_bind (R := fun (row : Option CommandRow) (srv : Server) =>
      ∃ e now, srv.tx? i = some ⟨i, now, [], []⟩ ∧ Looked srv i e ∧ ¬ Taken srv i c ∧
        (srv.asOf e.seen).command? c.key = row) ?_ ?_
  · refine Triple.issue (fun srv srv' _ h _ hframe => h.frame hframe) ?_ ?_ ?_
    · intro srv _ _ t _
      exact trivial
    · intro srv srv' r hinv hbegun hperform hinv' hevents
      obtain ⟨now, htx⟩ := hbegun.tx
      obtain ⟨-, rfl, rfl⟩ := Server.perform_query htx hperform
      rw [hbegun.events] at hevents
      obtain ⟨hlooked, htaken⟩ := looked_of_receipt hevents
      refine ⟨_, now, Server.tx?_setTx_self htx rfl, hlooked, htaken c, ?_⟩
      show (srv.asOf srv.log.length).command? c.key = _
      rw [hinv.asOf_length]
      rfl
    · rintro srv - ⟨e, he, hfate⟩
      exact Outcome.faulted he hfate
  intro row
  cases row with
  | none =>
    refine Triple.ret fun srv _ h => ?_
    obtain ⟨e, now, htx, looked, untaken, found⟩ := h
    exact ⟨fun _ => ⟨now, htx, rfl, ⟨e, looked, found⟩, untaken⟩, fun _ h => by cases h⟩
  | some row =>
    -- `stored_hash != request_hash`
    by_cases hhash : row.requestHash = c.requestHash
    · simp only [ne_eq, hhash, not_true_eq_false, if_false]
      refine Triple.ret fun srv _ h => ?_
      obtain ⟨e, now, -, looked, -, found⟩ := h
      refine ⟨fun h => (by cases h), fun response h => ?_⟩
      cases h
      exact .replayed looked found hhash
    · simp only [ne_eq, hhash, not_false_eq_true, if_true]
      refine Triple.ret fun srv _ h => ?_
      obtain ⟨e, now, -, looked, -, found⟩ := h
      exact Outcome.mismatched looked found hhash

omit [Backend] in
/-- Looking for the receipt ends in no other domain failure than a conflict. -/
theorem replay_leaves (caller actor : String) (operation : Operation) (idempotencyKey : String)
    (requestHash : List UInt8) :
    (replay caller actor operation idempotencyKey requestHash).run.Leaves OnlyConflicts := by
  refine (issue_leaves _ _).bind fun r hr => ?_
  cases r with
  | error e =>
    intro failure h
    cases h
    exact hr failure rfl
  | ok row =>
    cases row with
    | none =>
      intro failure h
      cases h
    | some row =>
      show Prog.Leaves _ (ite (row.requestHash ≠ requestHash) _ _ : Storage (Option Json)).run
      split
      · intro failure h
        cases h
        rfl
      · intro failure h
        cases h

/-- **Every mutating operation starts the same**: a transaction, the receipt,
and, when there is none, the part that is its own. -/
theorem start_triple {operation : String} {fresh : Storage HoldView}
    {Q : Except StorageError HoldView → Server → Prop}
    (hQ : ∀ r srv, Outcome i c srv r → OnlyConflicts r → Q r srv)
    (hfresh : ∀ now, Triple discipline i (Stage i c ⟨i, now, [], []⟩) fresh.run Q) :
    Triple discipline i (discipline.fresh i)
      (do
        issue operation .begin
        match ← replay c.caller c.actor c.change.operation c.idempotencyKey c.requestHash with
        -- The receipt answers, and a view that cannot be decoded is no domain failure.
        | some response => decodeResponse response
        | none => fresh : Storage HoldView).run Q := by
  have hbegin : Triple discipline i (Idle i []) (issue operation .begin).run
      (Ends (fun _ srv => ∃ seen, Begun i ([] ++ [⟨i, .begin, .done, seen⟩]) srv)
        fun e srv => Outcome i c srv (.error e)) := by
    refine begin_triple ?_
    rintro srv - ⟨e, he, hfate⟩
    exact Outcome.faulted he hfate
  have herror : ∀ e srv, Outcome i c srv (.error e) ∧ OnlyConflicts (.error e) →
      Q (.error e) srv := fun e srv h => hQ _ srv h.1 h.2
  have hbegin' := (Triple.onlyConflicts hbegin (issue_leaves _ _)).mono_error herror
  refine Triple.run_bind (hbegin'.conseq (fun srv _ h => ⟨h.1, h.2⟩) fun _ _ _ h => h) fun _ => ?_
  refine Triple.of_exists fun seen => ?_
  have hreplay := Triple.onlyConflicts (@replay_triple _ i c seen) (replay_leaves _ _ _ _ _)
  refine Triple.run_bind (hreplay.mono_error herror) fun found => ?_
  cases found with
  | some response =>
    refine Triple.ret fun srv _ h => hQ _ _ (h.2 response rfl) fun failure hfailure => ?_
    cases hview : HoldView.fromValue response with
    | ok view =>
      rw [hview] at hfailure
      cases hfailure
    | error e =>
      rw [hview] at hfailure
      cases hfailure
  | none =>
    refine (Triple.of_exists hfresh).conseq (fun srv _ h => h.1 rfl) fun _ _ _ h => h

/-! ### The operations -/

/-- `create_hold` proposes its hold: the key of a new one is locked, one that is
there ends the session. -/
theorem insertHold_triple {now : Time} {title reason legalAuthority : String}
    (hchange : c.change = .create title reason legalAuthority) :
    Triple discipline i (Stage i c ⟨i, now, [], []⟩)
      (issue "insert legal hold" (.query (.insertHold c.holdId c.organizationId title reason
        legalAuthority c.actor))).run
      (Ends (fun (inserted : ℕ) srv =>
          (inserted = 1 → ∃ t, t.Owns c.holdId ∧ Stage i c t srv ∧
            Changes srv.db c t.startedAt t.writes) ∧
          (inserted ≠ 1 → Outcome i c srv (.error (.domain .idempotencyConflict))))
        fun e srv => Outcome i c srv (.error e)) := by
  refine Triple.issue (fun srv srv' hinv h _ hframe => h.frame hinv hframe) ?_ ?_ ?_
  · intro srv _ hstage t ht
    cases hstage.tx.symm.trans ht
    exact rfl
  · intro srv srv' r hinv hstage hperform hinv' hevents
    obtain ⟨-, rfl, rfl⟩ := Server.perform_query hstage.tx hperform
    cases hold : srv.db.hold? c.holdId with
    | none =>
      have hnext := hstage.applied hinv ((Query.insertHold c.holdId c.organizationId title reason
        legalAuthority c.actor).effect (srv.view ⟨i, now, [], []⟩) now srv.seq) fun _ => hold
      have hview : (srv.view ⟨i, now, [], []⟩).hold? c.holdId = none := hold
      simp only [Query.effect, hview] at hnext ⊢
      refine ⟨fun _ => ⟨_, .inr (List.mem_append_right _ List.mem_cons_self), hnext, ?_⟩,
        fun h => absurd rfl h⟩
      exact .create hchange hold
    -- The id is taken, by a hold of whatever organization.
    | some row =>
      have hview : (srv.view ⟨i, now, [], []⟩).hold? c.holdId = some row := hold
      simp only [Query.effect, hview] at hevents ⊢
      refine ⟨fun h => (by cases h), fun _ => ?_⟩
      obtain ⟨e, looked, unseen⟩ := hstage.looked
      refine Outcome.taken (looked.snoc hevents rfl) unseen ?_
      refine ⟨_, by rw [hevents]; exact List.mem_append_right _ List.mem_cons_self, rfl, ?_⟩
      show (srv.asOf srv.log.length).hold? c.holdId ≠ none
      rw [hinv.asOf_length, hold]
      simp
  · rintro srv - ⟨e, he, hfate⟩
    exact Outcome.faulted he hfate

/-- **What `create_hold` can end in**: an outcome of its command, and no domain failure but a
conflict of keys. -/
theorem createHold_triple {input : CreateHold} (hop : i.op = .createHold input) :
    Triple discipline i (discipline.fresh i) (createHold input).run
      fun r srv => Outcome i input.command srv r ∧ OnlyConflicts r := by
  have hc : i.op.command? = some input.command := by rw [hop]; rfl
  refine start_triple (c := input.command) (fun _ _ h hr => ⟨h, hr⟩) fun now => ?_
  unfold createHold.fresh
  refine Triple.run_bind (Triple.onlyConflicts (insertHold_triple (c := input.command) rfl)
    (issue_leaves _ _)) fun inserted => ?_
  by_cases hone : inserted = 1
  · subst hone
    simp only [ne_eq, not_true_eq_false, if_false]
    refine (Triple.of_exists fun t => Triple.of_pure fun ho => ?_).conseq
      (fun srv _ h => h.1 trivial) fun _ _ _ h => h
    exact conclude_triple hc ho
  · simp only [ne_eq, hone, not_false_eq_true, if_true]
    refine Triple.ret fun srv _ h => ⟨h.2 trivial, fun failure hfailure => ?_⟩
    cases hfailure
    rfl

/-- The row lock of a mutation: its hold is found, and is its own until the end. -/
theorem lockHold_triple {now : Time} :
    Triple discipline i (Stage i c ⟨i, now, [], []⟩) (lockHold c.organizationId c.holdId).run
      (Ends (fun (found : Status × Int) srv => ∃ locks row,
          (Tx.mk i now [] locks).Owns c.holdId ∧ Stage i c ⟨i, now, [], locks⟩ srv ∧
          srv.db.hold? c.holdId = some row ∧ row.organizationId = c.organizationId ∧
          found = (row.status, row.revision))
        fun e srv => Outcome i c srv (.error e)) := by
  have hcov : (Tx.mk i now [] []).Covers (.lockHold c.organizationId c.holdId) := rfl
  refine Triple.run_bind (R := fun (row : Option (Status × Int)) (srv : Server) =>
      (row = none → ∃ t, Stage i c t srv) ∧ ∀ found, row = some found → ∃ locks row,
        (Tx.mk i now [] locks).Owns c.holdId ∧ Stage i c ⟨i, now, [], locks⟩ srv ∧
        srv.db.hold? c.holdId = some row ∧ row.organizationId = c.organizationId ∧
        found = (row.status, row.revision)) ?_ ?_
  -- The lock is granted, and the row is read as it is then.
  · refine (Stage.issue (F := fun _ => True) (fun _ _ _ _ _ => trivial) hcov rfl ?_).conseq
      (fun srv _ h => ⟨h, trivial⟩) fun _ _ _ h => h
    intro srv srv' found hinv _ hreply hstage hdb
    simp only [Query.effect, Db.putAll_nil] at hreply hstage
    cases hrow : (srv.db.hold? c.holdId).filter (·.organizationId = c.organizationId) with
    | none =>
      simp only [hrow] at hreply hstage
      cases hreply
      exact ⟨fun _ => ⟨_, hstage⟩, fun found h => by cases h⟩
    | some row =>
      simp only [hrow] at hreply hstage
      cases hreply
      obtain ⟨hsome, horg⟩ := Option.filter_eq_some_iff.mp hrow
      refine ⟨fun h => (by cases h), fun found h => ?_⟩
      cases h
      refine ⟨_, row, .inl List.mem_cons_self, hstage, ?_, by simpa using horg, rfl⟩
      rw [hdb]
      exact hsome
  intro row
  cases row with
  | none =>
    refine Triple.ret fun srv _ h => ?_
    obtain ⟨t, hstage⟩ := h.1 rfl
    exact hstage.refused (by simp)
  | some found => exact Triple.ret fun srv _ h => h.2 found rfl

/-- The hold is found as the command expects it. -/
structure Expected (c : Command) (revision : Int) (row : HoldRow) (db : Db) : Prop where
  found : db.hold? c.holdId = some row
  organization : row.organizationId = c.organizationId
  active : row.status = .active
  revision : row.revision = revision

omit [Backend] in
theorem Expected.frame {revision : Int} {row : HoldRow} {srv srv' : Server}
    (h : Expected c revision row srv.db) (ho : t.Owns c.holdId) (ht : srv.tx? i = some t)
    (hframe : Frame i srv srv') : Expected c revision row srv'.db :=
  { h with found := (hframe.hold t ht c.holdId ho).1.trans h.found }

omit [Backend] in
/-- With a revision left to take, the hold is open for the command. -/
theorem Expected.open {revision : Int} {row : HoldRow} {db : Db} (h : Expected c revision row db)
    (room : row.revision + 1 ≤ maxI64) : db.Open c revision row :=
  ⟨h.found, h.organization, h.active, h.revision, room⟩

/-- **The checks under the row lock**, shared by all mutations of a hold that is
there: whatever follows them finds the hold as expected. -/
theorem checks_triple {now : Time} {revision : Int} {rest : Storage HoldView}
    (hrest : ∀ locks row, (Tx.mk i now [] locks).Owns c.holdId → Triple discipline i
      (fun srv => Stage i c ⟨i, now, [], locks⟩ srv ∧ Expected c revision row srv.db)
      rest.run fun r srv => Outcome i c srv r) :
    Triple discipline i (Stage i c ⟨i, now, [], []⟩)
      (do
        let (status, found) ← lockHold c.organizationId c.holdId
        if status ≠ .active then refuse .holdReleased
        else if found ≠ revision then refuse .revisionConflict
        else rest : Storage HoldView).run
      fun r srv => Outcome i c srv r := by
  refine Triple.run_bind lockHold_triple fun found => ?_
  obtain ⟨status, rev⟩ := found
  refine Triple.of_exists fun locks => Triple.of_exists fun row => Triple.of_pure fun ho => ?_
  by_cases hstatus : status = .active
  · by_cases hrev : rev = revision
    · simp only [ne_eq, hstatus, hrev, not_true_eq_false, if_false]
      refine (hrest locks row ho).conseq ?_ fun _ _ _ h => h
      rintro srv - ⟨hstage, hfound, horg, heq⟩
      -- Status and revision are those of the row that is locked from here on.
      obtain ⟨hactive, hrevision⟩ := Prod.mk.inj heq
      exact ⟨hstage, hfound, horg, hactive.symm, hrevision.symm⟩
    · simp only [ne_eq, hstatus, hrev, not_true_eq_false, not_false_eq_true, if_false, if_true]
      exact Triple.ret fun srv _ h => h.1.refused (by simp)
  · simp only [ne_eq, hstatus, not_false_eq_true, if_true]
    exact Triple.ret fun srv _ h => h.1.refused (by simp)

omit [Backend] in
/-- An update that goes through has a revision left to take. -/
theorem updateHold_reply {db : Db} {seq : Sequences} {h : String} {f : HoldRow → HoldRow}
    {row : HoldRow} (hrow : db.hold? h = some row)
    (hreply : (updateHold db seq h f).reply = .ok ()) :
    (f row).revision ≤ maxI64 ∧ (updateHold db seq h f).writes = [.updateHold (f row)] := by
  unfold updateHold at hreply ⊢
  rw [hrow] at hreply ⊢
  by_cases hroom : maxI64 < (f row).revision
  · simp only [hroom, if_true] at hreply
    cases hreply
  · simp only [hroom, if_false]
    exact ⟨Int.not_lt.mp hroom, trivial⟩

/-- An update of the hold, after the writes of `t`, completes its change. -/
theorem update_triple {operation : String} {q : Query} {revision : Int} {row : HoldRow}
    {f : HoldRow → HoldRow} {F : Server → Prop} (ho : t.Owns c.holdId) (hcov : t.Covers q)
    (hins : (Stmt.query q).insertsHold = false)
    (hq : ∀ db seq rows, (q.effect db t.startedAt seq).reply = .ok rows →
      (updateHold db seq c.holdId f).reply = .ok () ∧
        (q.effect db t.startedAt seq).writes = (updateHold db seq c.holdId f).writes)
    (hview : ∀ db : Db, (db.putAll t.writes).hold? c.holdId = db.hold? c.holdId)
    (hF : ∀ srv srv', srv.tx? i = some t → Frame i srv srv' → F srv → F srv')
    (hchanges : ∀ srv, F srv → Expected c revision row srv.db → (f row).revision ≤ maxI64 →
      Changes srv.db c t.startedAt (t.writes ++ [.updateHold (f row)])) :
    Triple discipline i
      (fun srv => Stage i c t srv ∧ Expected c revision row srv.db ∧ F srv)
      (issue operation (.query q)).run
      (Ends (fun _ srv => ∃ t', t'.Owns c.holdId ∧ Stage i c t' srv ∧
          Changes srv.db c t'.startedAt t'.writes)
        fun e srv => Outcome i c srv (.error e)) := by
  refine Stage.issue ?_ hcov hins ?_
  · rintro srv srv' ht hframe ⟨hexpected, hf⟩
    exact ⟨hexpected.frame ho ht hframe, hF srv srv' ht hframe hf⟩
  · rintro srv srv' rows hinv ⟨hexpected, hf⟩ hreply hstage hdb
    have hrow : (srv.db.putAll t.writes).hold? c.holdId = some row :=
      (hview srv.db).trans hexpected.found
    obtain ⟨hreply', hwrites⟩ := hq _ _ _ hreply
    obtain ⟨room, hwrites'⟩ := updateHold_reply hrow hreply'
    refine ⟨_, ho.extend _, hstage, ?_⟩
    rw [hdb, Tx.extend_writes, hwrites, hwrites']
    exact hchanges srv hf hexpected room

/-- From a change of the scopes to the commit. -/
theorem advance_triple {operation : String} {revision : Int} {row : HoldRow} {w : Write}
    {F : Server → Prop} (hc : i.op.command? = some c) (ho : t.Owns c.holdId)
    (hwrites : t.writes = [w]) (hw : ∀ db : Db, (db.put w).hold? c.holdId = db.hold? c.holdId)
    (hF : ∀ srv srv', srv.tx? i = some t → Frame i srv srv' → F srv → F srv')
    (hchanges : ∀ srv : Server, F srv → srv.db.Open c revision row →
      Changes srv.db c t.startedAt [w, .updateHold row.advanced]) :
    Triple discipline i
      (fun srv => Stage i c t srv ∧ Expected c revision row srv.db ∧ F srv)
      (do
        issue "advance legal hold revision" (.query (.advanceRevision c.holdId))
        c.conclude operation : Storage HoldView).run
      fun r srv => Outcome i c srv r := by
  have hcov : t.Covers (.advanceRevision c.holdId) := ho
  have hview : ∀ db : Db, (db.putAll t.writes).hold? c.holdId = db.hold? c.holdId := by
    rw [hwrites]
    exact hw
  refine Triple.run_bind (update_triple ho hcov rfl (fun db seq rows h => ⟨h, rfl⟩) hview hF
    ?_) fun _ => ?_
  · intro srv hf hexpected room
    rw [hwrites]
    exact hchanges srv hf (hexpected.open room)
  · refine Triple.of_exists fun t' => Triple.of_pure fun ho' => ?_
    exact (conclude_triple hc ho').conseq (fun _ _ h => h) fun _ _ _ h => h.1

/-- An insert that reports a row has found none with the tuple. -/
theorem insertScope_reply {db : Db} {now : Time} {seq : Sequences} {h createdBy : String}
    {scope : Scope} {row : HoldRow} (hrow : db.hold? h = some row)
    (hreply : ((Query.insertScope h scope createdBy).effect db now seq).reply = .ok (1 : ℕ)) :
    ¬ db.HasScope h scope ∧ seq.scopeRow ≤ maxI64 ∧
      ((Query.insertScope h scope createdBy).effect db now seq).writes =
        [.insertScope ⟨scope, seq.scopeRow, h, createdBy, now⟩] := by
  by_cases hroom : maxI64 < seq.scopeRow
  · simp only [Query.effect, hroom, if_true] at hreply
    cases hreply
  · by_cases hhas : db.HasScope h scope
    · simp only [Query.effect, hroom, hhas, if_true, if_false] at hreply
      cases hreply
    · refine ⟨hhas, Int.not_lt.mp hroom, ?_⟩
      simp only [Query.effect, hroom, hhas, if_false, hrow]

/-- **What `add_scope` can end in**: an outcome of its command. -/
theorem addScope_triple {input : ScopeRequest} (hop : i.op = .addScope input) :
    Triple discipline i (discipline.fresh i)
      (mutateScope { input with operation := .addScope, add := true }).run
      fun r srv => Outcome i (input.command true) srv r := by
  have hc : i.op.command? = some (input.command true) := by rw [hop]; rfl
  have hchange : (input.command true).change = .addScope input.scope input.expectedRevision := rfl
  refine start_triple (c := input.command true) (fun _ _ h _ => h) fun now => ?_
  refine checks_triple (c := input.command true) fun locks row ho => ?_
  have hcov : (Tx.mk i now [] locks).Covers (.insertScope input.holdId input.scope input.actor) :=
    ho
  -- What is known after the `INSERT`, by the number of its rows.
  refine Triple.run_bind (R := fun (changed : ℕ) (srv : Server) => ∃ t scopeRowId,
      (t.Owns input.holdId ∧ (changed = 1 → scopeRowId ≤ maxI64 ∧ t.writes =
        [.insertScope ⟨input.scope, scopeRowId, input.holdId, input.actor, t.startedAt⟩])) ∧
      Stage i (input.command true) t srv ∧
      Expected (input.command true) input.expectedRevision row srv.db ∧
      (changed = 1 → ¬ srv.db.HasScope input.holdId input.scope)) ?_ ?_
  · refine Stage.issue (fun srv srv' ht hframe h => h.frame ho ht hframe) hcov rfl ?_
    intro srv srv' changed hinv hexpected hreply hstage hdb
    have hsome : srv.db.hold? input.holdId = some row := hexpected.found
    rw [hdb]
    refine ⟨_, srv.seq.scopeRow, ⟨ho.extend _, fun hone => ?_⟩, hstage, hexpected, fun hone => ?_⟩
    · subst hone
      obtain ⟨-, hdrawn, hwrites⟩ := insertScope_reply hsome hreply
      exact ⟨hdrawn, hwrites⟩
    · subst hone
      exact (insertScope_reply hsome hreply).1
  intro changed
  -- The scope was not there: the revision, the event and the receipt follow.
  by_cases hone : changed = 1
  · subst hone
    simp only [ne_eq, not_true_eq_false, if_false, forall_const]
    refine Triple.of_exists fun t => Triple.of_exists fun scopeRowId => Triple.of_pure fun ht => ?_
    obtain ⟨ho', hdrawn, hwrites⟩ := ht
    refine advance_triple hc ho' hwrites (fun _ => rfl) ?_ ?_
    · intro srv srv' ht hframe habsent
      unfold Db.HasScope
      rw [(hframe.hold t ht _ ho').2.1]
      exact habsent
    · exact fun srv habsent opened => .addScope hchange opened habsent hdrawn
  · simp only [ne_eq, hone, not_false_eq_true, if_true]
    refine Triple.ret fun srv _ h => ?_
    obtain ⟨t, scopeRowId, -, hstage, -⟩ := h
    exact hstage.refused (by simp)

/-- A delete reports the rows with the tuple. -/
theorem deleteScope_reply {db : Db} {now : Time} {seq : Sequences} {h : String} {scope : Scope}
    {changed : ℕ} (hreply : ((Query.deleteScope h scope).effect db now seq).reply = .ok changed) :
    ((db.scopesOf h).filter fun row => row.toScope = scope).length = changed ∧
      (changed = 1 → ((Query.deleteScope h scope).effect db now seq).writes =
        [.deleteScope h scope]) := by
  by_cases hnil : (db.scopesOf h).filter (fun row => row.toScope = scope) = []
  · simp only [Query.effect, hnil, if_true] at hreply
    cases hreply
    rw [hnil]
    exact ⟨rfl, fun hone => by cases hone⟩
  · simp only [Query.effect, hnil, if_false] at hreply ⊢
    exact ⟨Except.ok.inj hreply, fun _ => trivial⟩

/-- **What `remove_scope` can end in**: an outcome of its command. -/
theorem removeScope_triple {input : ScopeRequest} (hop : i.op = .removeScope input) :
    Triple discipline i (discipline.fresh i)
      (mutateScope { input with operation := .removeScope, add := false }).run
      fun r srv => Outcome i (input.command false) srv r := by
  have hc : i.op.command? = some (input.command false) := by rw [hop]; rfl
  have hchange : (input.command false).change = .removeScope input.scope input.expectedRevision :=
    rfl
  refine start_triple (c := input.command false) (fun _ _ h _ => h) fun now => ?_
  refine checks_triple (c := input.command false) fun locks row ho => ?_
  have hcov : (Tx.mk i now [] locks).Covers (.deleteScope input.holdId input.scope) := ho
  refine Triple.run_bind (R := fun (changed : ℕ) (srv : Server) => ∃ t,
      (t.Owns input.holdId ∧
        (changed = 1 → t.writes = [.deleteScope input.holdId input.scope])) ∧
      Stage i (input.command false) t srv ∧
      Expected (input.command false) input.expectedRevision row srv.db ∧
      ((srv.db.scopesOf input.holdId).filter fun row => row.toScope = input.scope).length =
        changed) ?_ ?_
  · refine Stage.issue (fun srv srv' ht hframe h => h.frame ho ht hframe) hcov rfl ?_
    intro srv srv' changed hinv hexpected hreply hstage hdb
    rw [hdb]
    obtain ⟨hlength, hwrites⟩ := deleteScope_reply hreply
    exact ⟨_, ⟨ho.extend _, hwrites⟩, hstage, hexpected, hlength⟩
  intro changed
  by_cases hone : changed = 1
  · subst hone
    simp only [ne_eq, not_true_eq_false, if_false, forall_const]
    refine Triple.of_exists fun t => Triple.of_pure fun ht => ?_
    obtain ⟨ho', hwrites⟩ := ht
    refine advance_triple hc ho' hwrites (fun _ => rfl) ?_ ?_
    · intro srv srv' ht hframe hpresent
      rw [(hframe.hold t ht _ ho').2.1]
      exact hpresent
    · exact fun srv hpresent opened => .removeScope hchange opened hpresent
  · simp only [ne_eq, hone, not_false_eq_true, if_true]
    refine Triple.ret fun srv _ h => ?_
    obtain ⟨t, -, hstage, -⟩ := h
    exact hstage.refused (by simp)

/-- **What `release_hold` can end in**: an outcome of its command. -/
theorem releaseHold_triple {input : ReleaseHold} (hop : i.op = .releaseHold input) :
    Triple discipline i (discipline.fresh i) (releaseHold input).run
      fun r srv => Outcome i input.command srv r := by
  have hc : i.op.command? = some input.command := by rw [hop]; rfl
  have hchange : input.command.change = .release input.reason input.expectedRevision := rfl
  refine start_triple (c := input.command) (fun _ _ h _ => h) fun now => ?_
  refine checks_triple (c := input.command) fun locks row ho => ?_
  have hcov : (Tx.mk i now [] locks).Covers
      (.releaseHold input.holdId input.actor input.reason) := ho
  refine Triple.run_bind ((update_triple (F := fun _ => True) ho hcov rfl
    (fun db seq rows h => ⟨h, rfl⟩) (fun _ => rfl) (fun _ _ _ _ _ => trivial) ?_).conseq
      (fun srv _ h => ⟨h.1, h.2, trivial⟩) fun _ _ _ h => h) fun _ => ?_
  · intro srv _ hexpected room
    exact .release hchange (hexpected.open room)
  · refine Triple.of_exists fun t' => Triple.of_pure fun ho' => ?_
    exact (conclude_triple hc ho').conseq (fun _ _ h => h) fun _ _ _ h => h.1

end

end LegalHold
