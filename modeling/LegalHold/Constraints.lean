import LegalHold.Checks
import LegalHold.LockOrder
import Mathlib.Data.List.Count
import Mathlib.Data.List.Flatten
import Mathlib.Data.List.Nodup

/-!
# The constraints of the schema

The constraints that `001_create_legal_holds.sql` declares hold of whatever any statement can
see: of the committed tables, and of these together with what an open transaction has written.
The statements take care of some of them themselves; the keys that are drawn from a sequence
are unique because nobody draws the same number twice; and what others commit goes together
with what a transaction has written, as no two of them write rows of one hold or one receipt.

## Main definitions

* `Db.Constrained` — the constraints.
* `Numbering`, `scopeNumbers`, `activityNumbers` — the keys drawn from a sequence.
* `Db.rowsOf` — the rows of one hold.

## Main results

* `Query.effect_keyed` — a statement keeps the constraints.
* `constraints_hold` — **the constraints hold of everything that can be seen**.
-/

namespace LegalHold

open Interleave

/-! ### Keys -/

/-- Values that tell the key are different when they are among those of each key. -/
theorem nodup_map_iff_filter {α β κ : Type} [DecidableEq κ] [DecidableEq β] {l : List α}
    {f : α → β} {key : α → κ} (keyOf : β → κ) (hkey : ∀ a, keyOf (f a) = key a) :
    (l.map f).Nodup ↔ ∀ k, ((l.filter fun a => key a = k).map f).Nodup := by
  constructor
  · exact fun h k => h.sublist (List.filter_sublist.map f)
  · intro h
    refine List.nodup_iff_count_le_one.mpr fun b => ?_
    have hb := List.nodup_iff_count_le_one.mp (h (keyOf b)) b
    -- Whatever is mapped to `b` has the key that `b` tells.
    rw [List.count_eq_countP, List.countP_map, List.countP_filter] at hb
    rw [List.count_eq_countP, List.countP_map]
    refine Nat.le_trans (Nat.le_of_eq (List.countP_congr fun a _ => ?_)) hb
    simp only [Function.comp_apply, beq_iff_eq, Bool.and_eq_true, decide_eq_true_eq]
    constructor
    · rintro rfl
      exact ⟨rfl, (hkey a).symm⟩
    · exact fun h => h.1

/-- The constraints of the migration that do not concern a key drawn from a sequence. -/
structure Db.Keyed (db : Db) : Prop where
  holds : (db.holds.map (·.holdId)).Nodup
  revision : ∀ row ∈ db.holds, 0 < row.revision ∧ row.revision ≤ maxI64
  scopes : (db.scopes.map fun row => (row.holdId, row.toScope)).Nodup
  scopeHold : ∀ row ∈ db.scopes, db.hold? row.holdId ≠ none
  commands : (db.commands.map (·.toCommandKey)).Nodup
  activityHold : ∀ row ∈ db.activity, db.hold? row.holdId ≠ none

/-- The constraints that the migration declares for the tables: keys, references, ranges and what
the columns of a row have to do with each other. -/
structure Db.Constrained (db : Db) : Prop extends db.Keyed where
  scopeRowId : (db.scopes.map (·.scopeRowId)).Nodup
  activityId : (db.activity.map (·.activityId)).Nodup

namespace Db.Keyed

variable {db : Db}

/-- A hold that is not found under its id is not there. -/
theorem hold?_eq_none_iff {h : String} : db.hold? h = none ↔ h ∉ db.holds.map (·.holdId) := by
  simp [Db.hold?, List.find?_eq_none]

/-- A hold that is there stays there under any write: no row of a hold is ever deleted. -/
theorem hold?_put_ne_none {w : Write} {h : String} (hfound : db.hold? h ≠ none) :
    (db.put w).hold? h ≠ none := by
  obtain ⟨row, hrow⟩ := Option.ne_none_iff_exists'.mp hfound
  cases w with
  | insertHold new => simp [hrow]
  | updateHold new =>
    rw [Db.hold?_updateHold, hrow]
    split <;> simp
  | _ => exact hfound

theorem hold?_putAll_ne_none {ws : List Write} {h : String} :
    ∀ {db : Db}, db.hold? h ≠ none → (db.putAll ws).hold? h ≠ none := by
  induction ws with
  | nil => exact fun hfound => hfound
  | cons w ws ih => exact fun hfound => ih (hold?_put_ne_none hfound)

theorem put_insertHold (h : db.Keyed) {row : HoldRow} (habsent : db.hold? row.holdId = none)
    (hrevision : 0 < row.revision ∧ row.revision ≤ maxI64) : (db.put (.insertHold row)).Keyed where
  holds := by
    simp only [Db.put, List.map_append, List.map_singleton]
    refine List.nodup_append.mpr ⟨h.holds, List.nodup_singleton _, fun a ha b hb => ?_⟩
    rw [List.mem_singleton.mp hb]
    rintro rfl
    exact hold?_eq_none_iff.mp habsent ha
  revision := by
    refine List.forall_mem_append.mpr ⟨h.revision, fun r hr => ?_⟩
    rw [List.mem_singleton.mp hr]
    exact hrevision
  scopes := h.scopes
  scopeHold r hr := hold?_put_ne_none (h.scopeHold r hr)
  commands := h.commands
  activityHold r hr := hold?_put_ne_none (h.activityHold r hr)

theorem put_updateHold (h : db.Keyed) {row : HoldRow}
    (hrevision : 0 < row.revision ∧ row.revision ≤ maxI64) :
    (db.put (.updateHold row)).Keyed := by
  -- No row is moved to another key.
  have hids : (db.put (.updateHold row)).holds.map (·.holdId) = db.holds.map (·.holdId) := by
    simp only [Db.put, List.map_map]
    refine List.map_congr_left fun old _ => ?_
    by_cases ho : old.holdId = row.holdId <;> simp [ho]
  refine ⟨hids ▸ h.holds, fun r hr => ?_, h.scopes, fun r hr => ?_, h.commands, fun r hr => ?_⟩
  · obtain ⟨old, hold, rfl⟩ := List.mem_map.mp hr
    split
    · exact hrevision
    · exact h.revision old hold
  · exact hold?_put_ne_none (h.scopeHold r hr)
  · exact hold?_put_ne_none (h.activityHold r hr)

theorem put_insertScope (h : db.Keyed) {row : ScopeRow} (hhold : db.hold? row.holdId ≠ none)
    (habsent : ¬ db.HasScope row.holdId row.toScope) :
    (db.put (.insertScope row)).Keyed where
  holds := h.holds
  revision := h.revision
  scopes := by
    simp only [Db.put, List.map_append, List.map_singleton]
    refine List.nodup_append.mpr ⟨h.scopes, List.nodup_singleton _, fun a ha b hb => ?_⟩
    rw [List.mem_singleton.mp hb]
    rintro rfl
    obtain ⟨old, hold, heq⟩ := List.mem_map.mp ha
    simp only [Prod.mk.injEq] at heq
    exact habsent ⟨old, List.mem_filter.mpr ⟨hold, by simpa using heq.1⟩, heq.2⟩
  scopeHold := by
    refine List.forall_mem_append.mpr ⟨h.scopeHold, fun r hr => ?_⟩
    rw [List.mem_singleton.mp hr]
    exact hhold
  commands := h.commands
  activityHold := h.activityHold

theorem put_deleteScope (h : db.Keyed) (holdId : String) (scope : Scope) :
    (db.put (.deleteScope holdId scope)).Keyed where
  holds := h.holds
  revision := h.revision
  scopes := h.scopes.sublist (List.filter_sublist.map _)
  scopeHold r hr := h.scopeHold r (List.mem_filter.mp hr).1
  commands := h.commands
  activityHold := h.activityHold

theorem put_insertCommand (h : db.Keyed) {row : CommandRow}
    (habsent : db.command? row.toCommandKey = none) : (db.put (.insertCommand row)).Keyed where
  holds := h.holds
  revision := h.revision
  scopes := h.scopes
  scopeHold := h.scopeHold
  commands := by
    simp only [Db.put, List.map_append, List.map_singleton]
    refine List.nodup_append.mpr ⟨h.commands, List.nodup_singleton _, fun a ha b hb => ?_⟩
    rw [List.mem_singleton.mp hb]
    rintro rfl
    obtain ⟨old, hold, heq⟩ := List.mem_map.mp ha
    have hnone := List.find?_eq_none.mp habsent old hold
    simp [heq] at hnone
  activityHold := h.activityHold

theorem put_insertActivity (h : db.Keyed) {row : ActivityRow}
    (hhold : db.hold? row.holdId ≠ none) : (db.put (.insertActivity row)).Keyed where
  holds := h.holds
  revision := h.revision
  scopes := h.scopes
  scopeHold := h.scopeHold
  commands := h.commands
  activityHold := by
    refine List.forall_mem_append.mpr ⟨h.activityHold, fun r hr => ?_⟩
    rw [List.mem_singleton.mp hr]
    exact hhold

end Db.Keyed

section

variable [Backend] {db : Db}

/-- **A statement keeps the constraints**, whatever tables it finds them in. -/
theorem Query.effect_keyed (h : db.Keyed) (q : Query) (now : Time) (seq : Sequences) :
    (db.putAll (q.effect db now seq).writes).Keyed := by
  -- The two updates advance the revision, and only as long as there is room.
  have hupdate : ∀ (holdId : String) (f : HoldRow → HoldRow),
      (∀ row, (f row).revision = row.revision + 1) →
        (db.putAll (updateHold db seq holdId f).writes).Keyed := by
    intro holdId f hf
    unfold updateHold
    split
    · exact h
    · next row hrow =>
      split
      · exact h
      · next hroom =>
        have hpos := (h.revision row (List.mem_of_find?_eq_some hrow)).1
        have hrev := hf row
        exact h.put_updateHold ⟨by omega, Int.not_lt.mp hroom⟩
  cases q with
  | insertHold holdId org title reason authority createdBy =>
    simp only [Query.effect]
    split
    · exact h
    · next hnone => exact h.put_insertHold hnone ⟨Int.one_pos, show (1 : Int) ≤ maxI64 by decide⟩
  | lockHold org holdId =>
    simp only [Query.effect]
    split <;> exact h
  | insertScope holdId scope createdBy =>
    simp only [Query.effect]
    split
    · exact h
    · split
      · exact h
      · next habsent =>
        split
        · exact h
        · next hrow => exact h.put_insertScope (by simp [hrow]) habsent
  | deleteScope holdId scope =>
    simp only [Query.effect]
    split
    · exact h
    · exact h.put_deleteScope holdId scope
  | advanceRevision holdId => exact hupdate holdId _ fun _ => rfl
  | releaseHold holdId releasedBy reason => exact hupdate holdId _ fun _ => rfl
  | insertActivity org holdId kind actor payload =>
    simp only [Query.effect]
    split
    · exact h
    · split
      · exact h
      · next hrow => exact h.put_insertActivity (by simp [hrow])
  | insertCommand key hash response =>
    simp only [Query.effect]
    split
    · exact h
    · next hnone => exact h.put_insertCommand hnone
  | _ => exact h

end

/-! ### The rows of one hold -/

namespace Db

variable {db db' : Db} {h : String} {ws : List Write}

/-- The rows that belong to one hold, taken as tables of their own. -/
def rowsOf (db : Db) (h : String) : Db where
  holds := db.holds.filter fun row => row.holdId = h
  scopes := db.scopesOf h
  activity := db.activityOf h

/-- An update keeps the ids, so that the rows of a hold are updated where they are. -/
theorem filter_updateHold (rows : List HoldRow) (row : HoldRow) (h : String) :
    (rows.map fun old => if old.holdId = row.holdId then row else old).filter
        (fun r => r.holdId = h) =
      (rows.filter fun r => r.holdId = h).map fun old =>
        if old.holdId = row.holdId then row else old := by
  rw [List.filter_map]
  refine congrArg _ (List.filter_congr fun old _ => ?_)
  by_cases ho : old.holdId = row.holdId <;> simp [ho]

/-- A write of a hold is one of its rows, and no other write is. -/
theorem rowsOf_put (db : Db) (w : Write) (h : String) :
    (db.put w).rowsOf h = if w.holdId = some h then (db.rowsOf h).put w else db.rowsOf h := by
  have hscopes : w.holdId ≠ some h → (db.put w).scopesOf h = db.scopesOf h := scopesOf_put_of_ne
  have hactivity : w.holdId ≠ some h → (db.put w).activityOf h = db.activityOf h :=
    activityOf_put_of_ne
  unfold rowsOf
  split
  · next heq =>
    cases w with
    | insertHold row => simp [put, scopesOf, activityOf, Option.some.inj heq]
    | updateHold row => simp [put, scopesOf, activityOf, filter_updateHold]
    | insertScope row => simp [put, scopesOf, activityOf, Option.some.inj heq]
    | deleteScope holdId scope =>
      simp only [put, scopesOf, activityOf, List.filter_filter, Bool.and_comm]
    | insertActivity row => simp [put, scopesOf, activityOf, Option.some.inj heq]
    | insertCommand row => cases heq
  · next hne =>
    rw [hscopes hne, hactivity hne]
    cases w with
    | insertHold row =>
      have hid : row.holdId ≠ h := fun heq => hne (congrArg some heq)
      simp [put, hid]
    | updateHold row =>
      have hid : row.holdId ≠ h := fun heq => hne (congrArg some heq)
      -- None of the rows of this hold is the one that is updated.
      have hsame : (db.put (.updateHold row)).holds.filter (fun r => r.holdId = h) =
          db.holds.filter fun r => r.holdId = h := by
        simp only [put, filter_updateHold]
        refine (List.map_congr_left (g := id) fun old hold => ?_).trans (List.map_id _)
        have hold : old.holdId = h := by simpa using (List.mem_filter.mp hold).2
        exact if_neg (hold ▸ Ne.symm hid)
      rw [hsame]
    | _ => rfl

/-- What writes make of the rows of a hold depends on those only. -/
theorem rowsOf_putAll_congr : ∀ {db db' : Db}, db.rowsOf h = db'.rowsOf h →
    (db.putAll ws).rowsOf h = (db'.putAll ws).rowsOf h := by
  induction ws with
  | nil => intro db db' heq; exact heq
  | cons w ws ih =>
    intro db db' heq
    refine ih ?_
    rw [rowsOf_put, rowsOf_put, heq]

/-- Writes of other holds change nothing about the rows of this one. -/
theorem rowsOf_putAll_of_ne (hws : ∀ w ∈ ws, w.holdId ≠ some h) (db : Db) :
    (db.putAll ws).rowsOf h = db.rowsOf h :=
  putAll_frame (·.rowsOf h) (fun w hw db => by rw [rowsOf_put, if_neg (hws w hw)]) db

/-- What each hold can tell of the constraints. -/
theorem keyed_iff : db.Keyed ↔
    (∀ h, (db.rowsOf h).Keyed) ∧ (db.commands.map (·.toCommandKey)).Nodup := by
  have hholds : (db.holds.map (·.holdId)).Nodup ↔
      ∀ h, ((db.rowsOf h).holds.map (·.holdId)).Nodup := nodup_map_iff_filter id fun _ => rfl
  have hscopes : (db.scopes.map fun row => (row.holdId, row.toScope)).Nodup ↔
      ∀ h, ((db.rowsOf h).scopes.map fun row => (row.holdId, row.toScope)).Nodup :=
    nodup_map_iff_filter Prod.fst fun _ => rfl
  have hfound : ∀ h, (db.rowsOf h).hold? h = db.hold? h := by
    intro h
    simp [rowsOf, Db.hold?, List.find?_filter]
  constructor
  · refine fun hdb => ⟨fun h => ?_, hdb.commands⟩
    refine ⟨hholds.mp hdb.holds h, fun row hrow => hdb.revision row (List.mem_filter.mp hrow).1,
      hscopes.mp hdb.scopes h, fun row hrow => ?_, List.nodup_nil, fun row hrow => ?_⟩
    · obtain ⟨hmem, hid⟩ := List.mem_filter.mp hrow
      obtain rfl : row.holdId = h := by simpa using hid
      rw [hfound]
      exact hdb.scopeHold row hmem
    · obtain ⟨hmem, hid⟩ := List.mem_filter.mp hrow
      obtain rfl : row.holdId = h := by simpa using hid
      rw [hfound]
      exact hdb.activityHold row hmem
  · rintro ⟨hall, hcommands⟩
    refine ⟨hholds.mpr fun h => (hall h).holds, fun row hrow => ?_,
      hscopes.mpr fun h => (hall h).scopes, fun row hrow => ?_, hcommands, fun row hrow => ?_⟩
    · exact (hall row.holdId).revision row (List.mem_filter.mpr ⟨hrow, by simp⟩)
    · rw [← hfound]
      exact (hall row.holdId).scopeHold row (List.mem_filter.mpr ⟨hrow, by simp⟩)
    · rw [← hfound]
      exact (hall row.holdId).activityHold row (List.mem_filter.mpr ⟨hrow, by simp⟩)

end Db

/-! ### Keys drawn from a sequence -/

/-- The write inserts a row whose primary key is drawn from a sequence. -/
def Write.numbered : Write → Bool
  | .insertScope _ => true
  | .insertActivity _ => true
  | _ => false

/-- What a statement draws: nothing, or a number for the row it inserts if it inserts one. -/
inductive Effect.Draws {α : Type} (seq : Sequences) (e : Effect α) : Prop where
  | nothing (same : e.seq = seq) (writes : ∀ w ∈ e.writes, w.numbered = false) : Draws seq e
  | scopeRow (drawn : e.seq = { seq with scopeRow := seq.scopeRow + 1 })
      (writes : e.writes = [] ∨
        ∃ row, e.writes = [.insertScope row] ∧ row.scopeRowId = seq.scopeRow) : Draws seq e
  | activity (drawn : e.seq = { seq with activity := seq.activity + 1 })
      (writes : e.writes = [] ∨
        ∃ row, e.writes = [.insertActivity row] ∧ row.activityId = seq.activity) : Draws seq e

theorem Effect.Draws.idle {α : Type} {seq : Sequences} {e : Effect α} (hs : e.seq = seq)
    (hw : e.writes = []) : e.Draws seq := .nothing hs (by simp [hw])

theorem updateHold_draws (db : Db) (seq : Sequences) (h : String) (f : HoldRow → HoldRow) :
    (updateHold db seq h f).Draws seq := by
  unfold updateHold
  split
  · exact .idle rfl rfl
  · split
    · exact .idle rfl rfl
    · exact .nothing rfl (by simp [Write.numbered])

section

variable [Backend]

theorem Query.effect_numbers (q : Query) (db : Db) (now : Time) (seq : Sequences) :
    (q.effect db now seq).Draws seq := by
  cases q with
  | insertHold h org title reason authority createdBy =>
    simp only [Query.effect]
    split
    · exact .idle rfl rfl
    · exact .nothing rfl (by simp [Write.numbered])
  | lockHold org h =>
    simp only [Query.effect]
    split <;> exact .idle rfl rfl
  | insertScope h scope createdBy =>
    simp only [Query.effect]
    split
    · exact .idle rfl rfl
    · split
      · exact .scopeRow rfl (.inl rfl)
      · split
        · exact .scopeRow rfl (.inl rfl)
        · exact .scopeRow rfl (.inr ⟨_, rfl, rfl⟩)
  | deleteScope h scope =>
    simp only [Query.effect]
    split
    · exact .idle rfl rfl
    · exact .nothing rfl (by simp [Write.numbered])
  | advanceRevision h => exact updateHold_draws db seq h _
  | releaseHold h releasedBy reason => exact updateHold_draws db seq h _
  | insertActivity org h kind actor payload =>
    simp only [Query.effect]
    split
    · exact .idle rfl rfl
    · split
      · exact .activity rfl (.inl rfl)
      · exact .activity rfl (.inr ⟨_, rfl, rfl⟩)
  | insertCommand key hash response =>
    simp only [Query.effect]
    split
    · exact .idle rfl rfl
    · exact .nothing rfl (by simp [Write.numbered])
  | _ => exact .idle rfl rfl

end

/-- A column whose values are drawn from a sequence: the next value, and where values of it are to
be found. -/
structure Numbering where
  /-- The next value. -/
  next : Sequences → Int
  /-- The values in the table. -/
  stored : Db → List Int
  /-- The value that a write brings in. -/
  written : Write → Option Int
  put : ∀ db w, (stored (db.put w)).Sublist (stored db ++ (written w).toList)
  /-- A statement draws at most one value, and uses no other. -/
  draw : ∀ {α : Type} {e : Effect α} {seq : Sequences}, e.Draws seq →
    (e.writes.filterMap written = [] ∧ next seq ≤ next e.seq) ∨
      (e.writes.filterMap written = [next seq] ∧ next e.seq = next seq + 1)

/-- `legal_hold_scopes.scope_row_id`, a `BIGSERIAL` column that draws from a sequence of its own. -/
def scopeNumbers : Numbering where
  next := (·.scopeRow)
  stored db := db.scopes.map (·.scopeRowId)
  written
    | .insertScope row => some row.scopeRowId
    | _ => none
  put db w := by
    cases w with
    | insertScope row => simp [Db.put]
    | deleteScope h scope => exact (List.filter_sublist.map _).trans (List.sublist_append_left _ _)
    | _ => exact List.sublist_append_left _ _
  draw {α e seq} h := by
    cases h with
    | nothing same writes =>
      refine .inl ⟨List.filterMap_eq_nil_iff.mpr fun w hw => ?_, by rw [same]⟩
      cases w with
      | insertScope row => cases writes _ hw
      | _ => rfl
    | scopeRow drawn writes =>
      rw [drawn]
      rcases writes with hw | ⟨row, hw, hid⟩
      · exact .inl ⟨by rw [hw]; rfl, Int.le_of_lt (Int.lt_succ _)⟩
      · exact .inr ⟨by rw [hw, ← hid]; rfl, rfl⟩
    | activity drawn writes =>
      rw [drawn]
      rcases writes with hw | ⟨row, hw, -⟩
      · exact .inl ⟨by rw [hw]; rfl, Int.le_refl _⟩
      · exact .inl ⟨by rw [hw]; rfl, Int.le_refl _⟩

/-- `legal_hold_activity.activity_id`, a `BIGSERIAL` column that draws from a sequence of its
own. -/
def activityNumbers : Numbering where
  next := (·.activity)
  stored db := db.activity.map (·.activityId)
  written
    | .insertActivity row => some row.activityId
    | _ => none
  put db w := by
    cases w with
    | insertActivity row => simp [Db.put]
    | _ => exact List.sublist_append_left _ _
  draw {α e seq} h := by
    cases h with
    | nothing same writes =>
      refine .inl ⟨List.filterMap_eq_nil_iff.mpr fun w hw => ?_, by rw [same]⟩
      cases w with
      | insertActivity row => cases writes _ hw
      | _ => rfl
    | scopeRow drawn writes =>
      rw [drawn]
      rcases writes with hw | ⟨row, hw, -⟩
      · exact .inl ⟨by rw [hw]; rfl, Int.le_refl _⟩
      · exact .inl ⟨by rw [hw]; rfl, Int.le_refl _⟩
    | activity drawn writes =>
      rw [drawn]
      rcases writes with hw | ⟨row, hw, hid⟩
      · exact .inl ⟨by rw [hw]; rfl, Int.le_of_lt (Int.lt_succ _)⟩
      · exact .inr ⟨by rw [hw, ← hid]; rfl, rfl⟩

/-! ### The transactions of a server -/

section

variable [Backend] {srv srv' : Server}

/-- The open transactions, with that of one session in its place. -/
theorem Server.Inv.split (hinv : srv.Inv) {i : Session Op} {t : Tx} (ht : srv.tx? i = some t) :
    ∃ l l', srv.txs = l ++ t :: l' ∧ (srv.endTx t.owner).txs = l ++ l' ∧
      ∀ t', t'.owner = t.owner → (srv.setTx t').txs = l ++ t' :: l' := by
  obtain ⟨l, l', htxs⟩ := List.append_of_mem (Server.tx?_mem ht).1
  have howners := hinv.owners
  rw [htxs, List.pairwise_append, List.pairwise_cons] at howners
  obtain ⟨-, ⟨hafter, -⟩, hbefore⟩ := howners
  have hl : ∀ t' ∈ l, t'.owner.id ≠ t.owner.id := fun t' h => hbefore t' h t List.mem_cons_self
  have hl' : ∀ t' ∈ l', t'.owner.id ≠ t.owner.id := fun t' h => (hafter t' h).symm
  refine ⟨l, l', htxs, ?_, fun t' howner => ?_⟩
  · simp only [Server.endTx, htxs, List.filter_append, ne_eq, not_true_eq_false, decide_false,
      Bool.false_eq_true, not_false_eq_true, List.filter_cons_of_neg]
    rw [List.filter_eq_self.mpr fun t' h => by simpa using hl t' h,
      List.filter_eq_self.mpr fun t' h => by simpa using hl' t' h]
  · simp only [Server.setTx, htxs, List.map_append, List.map_cons, howner, if_true]
    congr 1
    · exact (List.map_congr_left (g := id) fun t'' h => if_neg (hl t'' h)).trans (List.map_id _)
    · congr 1
      exact (List.map_congr_left (g := id) fun t'' h => if_neg (hl' t'' h)).trans (List.map_id _)

namespace Numbering

variable {N : Numbering}

/-- The values of the column that are in the table, with those that open transactions are about to
bring in. -/
def values (N : Numbering) (srv : Server) : List Int :=
  N.stored srv.db ++ srv.txs.flatMap fun t => t.writes.filterMap N.written

/-- No value of the sequence has been drawn twice, and all of them are below the next one. -/
structure Drawn (N : Numbering) (srv : Server) : Prop where
  nodup : (N.values srv).Nodup
  below : ∀ a ∈ N.values srv, a < N.next srv.seq

omit [Backend] in
theorem stored_putAll (ws : List Write) : ∀ db : Db,
    (N.stored (db.putAll ws)).Sublist (N.stored db ++ ws.filterMap N.written) := by
  induction ws with
  | nil => intro db; simp
  | cons w ws ih =>
    intro db
    refine (ih (db.put w)).trans ?_
    have happend := (N.put db w).append_right (ws.filterMap N.written)
    rw [List.append_assoc] at happend
    refine happend.trans ?_
    cases hw : N.written w <;> simp [hw]

omit [Backend] in
/-- Fewer values, in whatever order, have not been drawn twice either. -/
theorem Drawn.of_count_le (h : N.Drawn srv) (hseq : N.next srv.seq ≤ N.next srv'.seq)
    (hle : ∀ a, (N.values srv').count a ≤ (N.values srv).count a) : N.Drawn srv' where
  nodup := List.nodup_iff_count_le_one.mpr fun a =>
    Nat.le_trans (hle a) (List.nodup_iff_count_le_one.mp h.nodup a)
  below a ha := by
    refine Int.lt_of_lt_of_le (h.below a ?_) hseq
    exact List.count_pos_iff.mp (Nat.lt_of_lt_of_le (List.count_pos_iff.mpr ha) (hle a))

/-- A statement draws a new value or none. -/
theorem Drawn.applied (h : N.Drawn srv) (hinv : srv.Inv) {i : Session Op} {t : Tx}
    (ht : srv.tx? i = some t) {α : Type} {e : Effect α} (he : e.Draws srv.seq) :
    N.Drawn (srv.applied t e) := by
  obtain ⟨l, l', htxs, -, hset⟩ := hinv.split ht
  have hcount : ∀ a, (N.values (srv.applied t e)).count a =
      (N.values srv).count a + (e.writes.filterMap N.written).count a := by
    intro a
    have hset := hset (t.extend e) rfl
    simp only [values, Server.applied, Server.setTx] at hset ⊢
    rw [hset, htxs]
    simp only [List.flatMap_append, List.flatMap_cons, List.count_append, Tx.extend_writes,
      List.filterMap_append]
    omega
  rcases N.draw he with ⟨hnone, hle⟩ | ⟨hone, hnext⟩
  · refine h.of_count_le hle fun a => ?_
    rw [hcount, hnone]
    exact Nat.le_refl _
  -- The new value is beyond all the others.
  · have hnew : (N.values srv).count (N.next srv.seq) = 0 :=
      List.count_eq_zero.mpr fun hmem => Int.lt_irrefl _ (h.below _ hmem)
    have hone' : ∀ a, (e.writes.filterMap N.written).count a =
        if a = N.next srv.seq then 1 else 0 := by
      intro a
      rw [hone]
      by_cases ha : a = N.next srv.seq
      · simp [ha]
      · simp [ha, Ne.symm ha]
    constructor
    · refine List.nodup_iff_count_le_one.mpr fun a => ?_
      have hold := List.nodup_iff_count_le_one.mp h.nodup a
      rw [hcount, hone']
      split
      · next heq => rw [heq, hnew]
      · exact hold
    · intro a ha
      have hpos := List.count_pos_iff.mpr ha
      rw [hcount, hone'] at hpos
      show a < N.next e.seq
      rw [hnext]
      split at hpos
      · omega
      · have := h.below a (List.count_pos_iff.mp hpos)
        omega

/-- **No value is drawn twice**, whatever statement a session executes. -/
theorem Drawn.moved (h : N.Drawn srv) (hinv : srv.Inv) {i : Session Op} {s : Stmt}
    (hmoved : srv.Moved i s srv') : N.Drawn srv' := by
  cases hmoved with
  | same => exact h
  | begun idle => exact ⟨h.nodup, h.below⟩
  | @committed t tx =>
    obtain ⟨l, l', htxs, hend, -⟩ := hinv.split tx
    refine h.of_count_le (Int.le_refl _) fun a => ?_
    have hstored := (N.stored_putAll t.writes srv.db).count_le a
    rw [List.count_append] at hstored
    simp only [values, Server.commitTx] at hend ⊢
    rw [hend, htxs]
    simp only [List.flatMap_append, List.flatMap_cons, List.count_append]
    omega
  | applied tx free => exact h.applied hinv tx (Query.effect_numbers _ _ _ _)
  | decided => exact ⟨h.nodup, h.below⟩

omit [Backend] in
theorem Drawn.endTx (h : N.Drawn srv) (i : Session Op) : N.Drawn (srv.endTx i) := by
  refine h.of_count_le (Int.le_refl _) fun a => List.Sublist.count_le a ?_
  exact (List.Sublist.refl _).append (List.filter_sublist.flatMap _)

omit [Backend] in
/-- What a transaction sees has no value twice. -/
theorem Drawn.view (h : N.Drawn srv) {t : Tx} (ht : t ∈ srv.txs) :
    (N.stored (srv.view t)).Nodup := by
  obtain ⟨l, l', htxs⟩ := List.append_of_mem ht
  refine List.nodup_iff_count_le_one.mpr fun a => ?_
  have hone := List.nodup_iff_count_le_one.mp h.nodup a
  have hstored := (N.stored_putAll t.writes srv.db).count_le a
  simp only [values, htxs, List.flatMap_append, List.flatMap_cons, List.count_append]
    at hone hstored
  unfold Server.view
  omega

end Numbering

/-! ### What others commit -/

/-- The receipt that a write brings into the table, if it brings one. -/
def Write.receipt? : Write → Option CommandRow
  | .insertCommand row => some row
  | _ => none

omit [Backend] in
theorem Db.commands_putAll (ws : List Write) : ∀ db : Db,
    (db.putAll ws).commands = db.commands ++ ws.filterMap Write.receipt? := by
  induction ws with
  | nil => intro db; simp
  | cons w ws ih =>
    intro db
    rw [Db.putAll_cons, ih]
    cases w with
    | insertCommand row => exact List.append_assoc _ [row] _
    | _ => rfl

omit [Backend] in
/-- **What two transactions write goes together**, if it is about different holds and
receipts. -/
theorem Db.Keyed.together {db : Db} {ws ws' : List Write} (h : (db.putAll ws).Keyed)
    (h' : (db.putAll ws').Keyed)
    (hholds : ∀ w ∈ ws, ∀ w' ∈ ws', ∀ id, w'.holdId = some id → w.holdId ≠ some id)
    (hkeys : ∀ w ∈ ws, ∀ w' ∈ ws', ∀ k, w'.commandKey = some k → w.commandKey ≠ some k) :
    ((db.putAll ws).putAll ws').Keyed := by
  refine Db.keyed_iff.mpr ⟨fun id => ?_, ?_⟩
  · by_cases hmine : ∃ w' ∈ ws', w'.holdId = some id
    · obtain ⟨w', hw', hid⟩ := hmine
      have hother := Db.rowsOf_putAll_of_ne (fun w hw => hholds w hw w' hw' id hid) db
      rw [Db.rowsOf_putAll_congr hother]
      exact (Db.keyed_iff.mp h').1 id
    · push Not at hmine
      rw [Db.rowsOf_putAll_of_ne hmine]
      exact (Db.keyed_iff.mp h).1 id
  · have hold := h.commands
    have hnew := h'.commands
    simp only [Db.commands_putAll, List.map_append] at hold hnew ⊢
    refine List.nodup_append.mpr ⟨hold, (List.nodup_append.mp hnew).2.1, fun a ha b hb => ?_⟩
    rcases List.mem_append.mp ha with ha | ha
    · exact (List.nodup_append.mp hnew).2.2 a ha b hb
    -- Two receipts of one key would have been written under one lock.
    · obtain ⟨row, hrow, rfl⟩ := List.mem_map.mp ha
      obtain ⟨row', hrow', rfl⟩ := List.mem_map.mp hb
      obtain ⟨w, hw, hwrow⟩ := List.mem_filterMap.mp hrow
      obtain ⟨w', hw', hwrow'⟩ := List.mem_filterMap.mp hrow'
      have hkey : w.commandKey = some row.toCommandKey := by
        cases w <;> simp [Write.receipt?] at hwrow
        simp [Write.commandKey, hwrow]
      have hkey' : w'.commandKey = some row'.toCommandKey := by
        cases w' <;> simp [Write.receipt?] at hwrow'
        simp [Write.commandKey, hwrow']
      exact fun heq => hkeys w hw w' hw' _ hkey' (heq ▸ hkey)

/-! ### Along a run -/

/-- The constraints hold of the committed tables and of the tables that every open transaction
sees. -/
structure Server.Constrained (srv : Server) : Prop where
  keyed : srv.db.Keyed
  views : ∀ t ∈ srv.txs, (srv.view t).Keyed
  scopeRows : scopeNumbers.Drawn srv
  activities : activityNumbers.Drawn srv

namespace Server.Constrained

/-- **Whatever statement a session executes, the constraints are kept.** -/
theorem moved (h : srv.Constrained) (hinv : srv.Inv) {i : Session Op} {s : Stmt}
    (hmoved : srv.Moved i s srv') : srv'.Constrained := by
  refine ⟨?_, ?_, h.scopeRows.moved hinv hmoved, h.activities.moved hinv hmoved⟩
  · cases hmoved with
    | committed tx => exact h.views _ (Server.tx?_mem tx).1
    | _ => exact h.keyed
  · cases hmoved with
    | same => exact h.views
    | begun idle =>
      intro t ht
      rcases List.mem_cons.mp ht with rfl | ht
      · exact h.keyed
      · exact h.views t ht
    | @committed t tx =>
      intro t' ht'
      obtain ⟨htm, hid⟩ := Server.tx?_mem tx
      obtain ⟨htm', hne⟩ := Server.mem_endTx ht'
      -- What two transactions have written under their locks can be put together.
      refine Db.Keyed.together (h.views t htm) (h.views t' htm') ?_ ?_
      · intro w hw w' hw' id hwid
        have howns := (hinv.guarded t' htm' w' hw').1 id hwid
        exact hinv.holdId_ne htm htm' hne.symm howns w hw
      · intro w hw w' hw' k hwk
        have hlock := (hinv.guarded t' htm' w' hw').2 k hwk
        exact hinv.commandKey_ne htm htm' hne.symm hlock w hw
    | @applied t q tx free =>
      intro t' ht'
      rcases Server.mem_setTx ht' with rfl | ⟨ht', -⟩
      · show (srv.db.putAll (t.writes ++ _)).Keyed
        rw [Db.putAll_append]
        exact Query.effect_keyed (h.views t (Server.tx?_mem tx).1) q _ _
      · exact h.views t' ht'
    | decided => exact h.views

omit [Backend] in
theorem endTx (h : srv.Constrained) (i : Session Op) : (srv.endTx i).Constrained :=
  ⟨h.keyed, fun t ht => h.views t (Server.mem_endTx ht).1, h.scopeRows.endTx i,
    h.activities.endTx i⟩

end Server.Constrained

theorem Reachable.constrained {c : Config} (h : Reachable c) : c.shared.Constrained := by
  have hnone : ∀ N : Numbering, N.stored {} = [] → N.Drawn {} := by
    intro N hN
    have hvalues : N.values {} = [] := by simp [Numbering.values, hN]
    exact ⟨hvalues ▸ List.nodup_nil, fun a ha => by rw [hvalues] at ha; cases ha⟩
  have hinitial : Server.Constrained {} := by
    refine ⟨⟨List.nodup_nil, nofun, List.nodup_nil, nofun, List.nodup_nil, nofun⟩, nofun,
      hnone _ rfl, hnone _ rfl⟩
  refine h.induction (P := fun c : Config => c.shared.Constrained) hinitial ?_
  intro c₁ l c₂ hc₁ ih hstep
  have hc₁ : Reachable c₁ := hc₁
  obtain ⟨op, rfl⟩ | ⟨i, f, op, s, k, st, r, hp, he, rfl⟩ |
    ⟨i, p, hp, ⟨-, rfl⟩ | ⟨-, rfl⟩⟩ | ⟨m, rfl⟩ := Machine.step_cases hstep
  · exact ih
  · obtain ⟨srv₁, hmoved, rfl⟩ := Server.exec_moved he
    obtain ⟨hkeyed, hviews, hscopes, hactivities⟩ := ih.moved hc₁.inv hmoved
    exact ⟨hkeyed, hviews, ⟨hscopes.nodup, hscopes.below⟩,
      ⟨hactivities.nodup, hactivities.below⟩⟩
  · exact ih.endTx _
  · exact ih.endTx _
  · obtain ⟨hkeyed, hviews, hscopes, hactivities⟩ := ih
    exact ⟨hkeyed, hviews, ⟨hscopes.nodup, hscopes.below⟩,
      ⟨hactivities.nodup, hactivities.below⟩⟩

/-- **The constraints of the schema hold of everything that can be seen.**  In every run they
hold of the committed tables and of these with the writes of any open transaction, so that no
statement of any session meets with rows that break them: the keys are unique, also those that
are drawn from a sequence, scopes and activity belong to a hold, no hold has a scope twice,
`NULL` being equal to `NULL`, and revisions are positive and fit into a `BIGINT`. -/
theorem constraints_hold {c : Config} (h : Reachable c) :
    c.shared.db.Constrained ∧ (∀ t ∈ c.shared.txs, (c.shared.view t).Constrained) ∧
      (c.shared.decisions.map (·.decisionId)).Nodup := by
  obtain ⟨hkeyed, hviews, hscopes, hactivities⟩ := h.constrained
  refine ⟨⟨hkeyed, ?_, ?_⟩, fun t ht => ⟨hviews t ht, hscopes.view ht, hactivities.view ht⟩,
    h.recorded_rows.ids⟩
  · exact (List.nodup_append.mp hscopes.nodup).1
  · exact (List.nodup_append.mp hactivities.nodup).1

end

namespace Sample

/-- A request that has added its scope and its activity but has not committed. -/
def adding : List Label := .start (create [1]) :: steps 0 8 ++ .start (add 1) :: steps 1 6

/-- What the open transaction that adds a scope sees, its own writes included, satisfies the
constraints. -/
theorem adding_constrained : ∃ t ∈ (after adding).shared.txs, t.writes ≠ [] ∧
    ((after adding).shared.view t).Constrained :=
  ⟨_, List.mem_cons_self, by decide,
    (constraints_hold (reachable_after adding)).2.1 _ List.mem_cons_self⟩

end Sample

end LegalHold
