import LegalHold.Chronicle

/-!
# Rows without their stamps

Timestamps and sequence numbers are what a run gives to rows by itself: when a
transaction began, and which number it drew.  Two sets of tables that are equal
without them have the same holds, scopes, activity and receipts.

## Main definitions

* `HoldRow.unstamped` and its siblings, `Db.unstamped` — rows, views, writes and
  tables without stamps.
* `Db.Dated` — every timestamp in the tables can be written out.

## Main results

* `Db.unstamped_putAll` — writes that differ in their stamps only leave tables
  that differ in their stamps only.
* `Changes.restamp` — **a change can be made at any time**, with any free number.
* `Db.loadHold_restamp` — and the view of it differs in its timestamps only.
-/

namespace LegalHold

/-! ### Without stamps -/

/-- A row of a hold without the times that the database has put in. -/
def HoldRow.unstamped (row : HoldRow) : HoldRow :=
  { row with createdAt := 0, releasedAt := row.releasedAt.map fun _ => 0 }

/-- A row of a scope without its time and the number that the database has drawn for it. -/
def ScopeRow.unstamped (row : ScopeRow) : ScopeRow := { row with scopeRowId := 0, createdAt := 0 }

/-- A row of the activity without its time and the number that the database has drawn for it. -/
def ActivityRow.unstamped (row : ActivityRow) : ActivityRow :=
  { row with activityId := 0, createdAt := 0 }

/-- A scope as it is shown, without its time. -/
def ScopeView.unstamped (view : ScopeView) : ScopeView := { view with createdAt := "" }

/-- A hold as it is shown, without its times and those of its scopes. -/
def HoldView.unstamped (view : HoldView) : HoldView :=
  { view with
    createdAt := ""
    releasedAt := view.releasedAt.map fun _ => ""
    scopes := view.scopes.map ScopeView.unstamped }

/-- A receipt with the timestamps taken out of its view as well. -/
def CommandRow.unstamped (row : CommandRow) : CommandRow :=
  { row with
    response := match HoldView.fromValue row.response with
      | .ok view => view.unstamped.toValue
      | .error _ => row.response
    createdAt := 0 }

/-- A write without what the database itself puts into the row. -/
def Write.unstamped : Write → Write
  | .insertHold row => .insertHold row.unstamped
  | .updateHold row => .updateHold row.unstamped
  | .insertScope row => .insertScope row.unstamped
  | .deleteScope holdId scope => .deleteScope holdId scope
  | .insertCommand row => .insertCommand row.unstamped
  | .insertActivity row => .insertActivity row.unstamped

/-- The tables without times and drawn numbers: what is left is decided by the commands and their
order. -/
def Db.unstamped (db : Db) : Db where
  holds := db.holds.map HoldRow.unstamped
  scopes := db.scopes.map ScopeRow.unstamped
  commands := db.commands.map CommandRow.unstamped
  activity := db.activity.map ActivityRow.unstamped

namespace Db

theorem unstamped_put (db : Db) (w : Write) :
    (db.put w).unstamped = db.unstamped.put w.unstamped := by
  cases w with
  | insertHold row => simp [put, unstamped, Write.unstamped]
  | updateHold row =>
    simp only [put, unstamped, Write.unstamped, List.map_map]
    congr 1
    refine List.map_congr_left fun old _ => ?_
    simp only [Function.comp]
    split
    · next heq => rw [if_pos (show old.unstamped.holdId = row.unstamped.holdId from heq)]
    · next hne => rw [if_neg (show ¬ old.unstamped.holdId = row.unstamped.holdId from hne)]
  | insertScope row => simp [put, unstamped, Write.unstamped]
  | deleteScope h scope =>
    simp only [put, unstamped, Write.unstamped, List.filter_map]
    rfl
  | insertCommand row => simp [put, unstamped, Write.unstamped]
  | insertActivity row => simp [put, unstamped, Write.unstamped]

/-- **Writes that differ in their stamps only** leave tables that differ in their
stamps only. -/
theorem unstamped_putAll (ws : List Write) :
    ∀ db : Db, (db.putAll ws).unstamped = db.unstamped.putAll (ws.map Write.unstamped) := by
  induction ws with
  | nil => exact fun db => rfl
  | cons w ws ih =>
    intro db
    rw [putAll_cons, ih, unstamped_put]
    rfl

theorem hold?_unstamped (db : Db) (h : String) :
    db.unstamped.hold? h = (db.hold? h).map HoldRow.unstamped := List.find?_map ..

theorem scopesOf_unstamped (db : Db) (h : String) :
    db.unstamped.scopesOf h = (db.scopesOf h).map ScopeRow.unstamped := List.filter_map

theorem command?_unstamped (db : Db) (k : CommandKey) :
    db.unstamped.command? k = (db.command? k).map CommandRow.unstamped := List.find?_map ..

end Db

theorem Command.receipt_unstamped (c : Command) (view : HoldView) (now : Time) :
    (c.receipt view now).unstamped = ⟨c.key, c.requestHash, view.unstamped.toValue, 0⟩ := by
  simp only [Command.receipt, CommandRow.unstamped, HoldView.fromValue_toValue]

/-! ### Tables that differ in their stamps only -/

/-- What the two databases show of the hold `h` differs in timestamps and numbers only. -/
structure Db.Near (db db' : Db) (h : String) : Prop where
  hold : db'.unstamped.hold? h = db.unstamped.hold? h
  scopes : db'.unstamped.scopesOf h = db.unstamped.scopesOf h

theorem Db.command?_eq_none_restamp {db db' : Db} {k : CommandKey}
    (heq : db'.unstamped.command? k = db.unstamped.command? k) (hn : db.command? k = none) :
    db'.command? k = none := by
  simp only [Db.command?_unstamped, hn, Option.map_none] at heq
  exact Option.map_eq_none_iff.mp heq

namespace Db.Near

variable {db db' : Db} {h : String}

theorem of_unstamped (heq : db'.unstamped = db.unstamped) (h : String) : db.Near db' h :=
  ⟨congrArg (·.hold? h) heq, congrArg (·.scopesOf h) heq⟩

/-- Tables that are near each other stay so under writes that differ in their stamps only. -/
theorem putAll (hn : db.Near db' h) {ws ws' : List Write}
    (hws : ws'.map Write.unstamped = ws.map Write.unstamped) :
    (db.putAll ws).Near (db'.putAll ws') h := by
  constructor
  · rw [unstamped_putAll, unstamped_putAll, hws]
    exact hold?_putAll_congr hn.hold
  · rw [unstamped_putAll, unstamped_putAll, hws]
    exact scopesOf_putAll_congr hn.scopes

theorem hold?_eq_some (hn : db.Near db' h) {row : HoldRow} (hr : db.hold? h = some row) :
    ∃ row', db'.hold? h = some row' ∧ row'.unstamped = row.unstamped := by
  have hmap := hn.hold
  simp only [hold?_unstamped, hr, Option.map_some] at hmap
  exact Option.map_eq_some_iff.mp hmap

theorem hold?_eq_none (hn : db.Near db' h) (hnone : db.hold? h = none) : db'.hold? h = none := by
  have hmap := hn.hold
  simp only [hold?_unstamped, hnone, Option.map_none] at hmap
  exact Option.map_eq_none_iff.mp hmap

theorem toScopes_eq (hn : db.Near db' h) :
    (db'.scopesOf h).map (·.toScope) = (db.scopesOf h).map (·.toScope) := by
  have hmap := congrArg (fun rows => rows.map fun row : ScopeRow => row.toScope) hn.scopes
  simp only [scopesOf_unstamped, List.map_map] at hmap
  exact hmap

theorem hasScope_iff (hn : db.Near db' h) {scope : Scope} :
    db'.HasScope h scope ↔ db.HasScope h scope := by
  have hmem : ∀ {db : Db}, db.HasScope h scope ↔ scope ∈ (db.scopesOf h).map (·.toScope) := by
    intro db
    simp [Db.HasScope]
  rw [hmem, hmem, hn.toScopes_eq]

/-- The rows to delete are counted by their tuples, which carry no stamps. -/
theorem length_filter (hn : db.Near db' h) (scope : Scope) :
    ((db'.scopesOf h).filter fun row => row.toScope = scope).length =
      ((db.scopesOf h).filter fun row => row.toScope = scope).length := by
  have hcount : ∀ rows : List ScopeRow, (rows.filter fun row => row.toScope = scope).length =
      ((rows.map (·.toScope)).filter fun s => s = scope).length := by
    intro rows
    rw [List.filter_map, List.length_map]
    rfl
  rw [hcount, hcount, hn.toScopes_eq]

end Db.Near

section

variable {db db' : Db}

/-- What the checks under the row lock look at. -/
theorem HoldRow.eq_of_unstamped {row row' : HoldRow} (h : row'.unstamped = row.unstamped) :
    row'.organizationId = row.organizationId ∧ row'.status = row.status ∧
      row'.revision = row.revision := by
  have horg := congrArg HoldRow.organizationId h
  have hstatus := congrArg HoldRow.status h
  have hrev := congrArg HoldRow.revision h
  exact ⟨horg, hstatus, hrev⟩

theorem Db.Open.restamp {c : Command} {revision : Int} {row : HoldRow}
    (hn : db.Near db' c.holdId) (h : db.Open c revision row) :
    ∃ row', db'.Open c revision row' ∧ row'.unstamped = row.unstamped := by
  obtain ⟨row', hrow', hsame⟩ := hn.hold?_eq_some h.found
  obtain ⟨horg, hstatus, hrev⟩ := HoldRow.eq_of_unstamped hsame
  exact ⟨row', ⟨hrow', horg.trans h.organization, hstatus.trans h.active, hrev.trans h.revision,
    hrev ▸ h.room⟩, hsame⟩

theorem HoldRow.advanced_restamp {row row' : HoldRow} (h : row'.unstamped = row.unstamped) :
    row'.advanced.unstamped = row.advanced.unstamped := by
  have hadvanced : ∀ r : HoldRow, r.advanced.unstamped = r.unstamped.advanced := fun _ => rfl
  rw [hadvanced, hadvanced, h]

theorem HoldRow.released_restamp {row row' : HoldRow} (h : row'.unstamped = row.unstamped)
    (actor reason : String) (now now' : Time) :
    (row'.released actor reason now').unstamped = (row.released actor reason now).unstamped := by
  have hreleased : ∀ (r : HoldRow) (now : Time), (r.released actor reason now).unstamped =
      r.unstamped.released actor reason 0 := fun _ _ => rfl
  rw [hreleased, hreleased, h]

/-- **A change can be made at any time**, with any number for its scope row. -/
theorem Changes.restamp {c : Command} (hnear : db.Near db' c.holdId) {now : Time}
    {ws : List Write} (h : Changes db c now ws) (now' : Time) {n : Int} (hn : n ≤ maxI64) :
    ∃ ws', Changes db' c now' ws' ∧ ws'.map Write.unstamped = ws.map Write.unstamped ∧
      ∀ row, .insertScope row ∈ ws' → row.scopeRowId = n := by
  cases h with
  | create change absent =>
    exact ⟨_, .create change (hnear.hold?_eq_none absent), rfl, by simp⟩
  | @addScope scope revision scopeRowId row change opened absent drawn =>
    obtain ⟨row', opened', hsame⟩ := opened.restamp hnear
    refine ⟨_, .addScope change opened' (mt hnear.hasScope_iff.mp absent) hn, ?_, ?_⟩
    · simp only [List.map_cons, List.map_nil, Write.unstamped, HoldRow.advanced_restamp hsame]
      rfl
    · intro r hr
      simp only [List.mem_cons, Write.insertScope.injEq, reduceCtorEq, List.not_mem_nil,
        or_false] at hr
      rw [hr]
  | @removeScope scope revision row change opened present =>
    obtain ⟨row', opened', hsame⟩ := opened.restamp hnear
    refine ⟨_, .removeScope change opened' ?_, ?_, by simp⟩
    · rw [hnear.length_filter]
      exact present
    · simp only [List.map_cons, List.map_nil, Write.unstamped, HoldRow.advanced_restamp hsame]
  | release change opened =>
    obtain ⟨row', opened', hsame⟩ := opened.restamp hnear
    refine ⟨_, .release change opened', ?_, by simp⟩
    simp only [List.map_cons, List.map_nil, Write.unstamped,
      HoldRow.released_restamp hsame _ _ now now']

end

/-! ### Views -/

/-- What a view shows of a hold and its scopes, without timestamps. -/
def HoldRow.bareView (row : HoldRow) (rows : List ScopeRow) : HoldView where
  organizationId := row.organizationId
  holdId := row.holdId
  title := row.title
  reason := row.reason
  legalAuthority := row.legalAuthority
  status := row.status.text
  revision := formatI64 row.revision
  createdBy := row.createdBy
  createdAt := ""
  releasedBy := row.releasedBy
  releasedAt := row.releasedAt.map fun _ => ""
  releaseReason := row.releaseReason
  scopes := rows.map fun s => ⟨s.scopeKind, s.scopeId, s.subject, ""⟩

theorem HoldRow.bareView_unstamped (row : HoldRow) (rows : List ScopeRow) :
    row.unstamped.bareView (rows.map ScopeRow.unstamped) = row.bareView rows := by
  simp [bareView, unstamped, ScopeRow.unstamped, Function.comp_def]

section

variable [Backend]

/-- What rows are shown as depends on their stamps in the timestamps only. -/
theorem holdView_unstamped {row : HoldRow} {rows : List ScopeRow} {view : HoldView}
    (h : holdView row rows = .ok view) : view.unstamped = row.bareView rows := by
  obtain ⟨scopes, createdAt, releasedAt, hs, -, hr, rfl⟩ := holdView_eq_ok.mp h
  have hscopes : scopes.map ScopeView.unstamped =
      rows.map fun s => ⟨s.scopeKind, s.scopeId, s.subject, ""⟩ := by
    refine map_eq_of_mapM (f := scopeView) ?_ hs
    intro s v hv
    obtain ⟨text, -, hv⟩ := bind_eq_ok.mp hv
    cases hv
    rfl
  have hreleased : (releasedAt.map fun _ => "") = row.releasedAt.map fun _ => "" := by
    cases hrow : row.releasedAt with
    | none =>
      rw [hrow] at hr
      cases hr
      rfl
    | some time =>
      rw [hrow] at hr
      obtain ⟨text, -, hr⟩ := bind_eq_ok.mp hr
      cases hr
      rfl
  simp only [HoldView.unstamped, HoldRow.bareView, hscopes, hreleased]

/-- The timestamp is one that the formatting of the plugin can write out. -/
def Formattable (time : Time) : Prop := ∃ text, formatTime time = .ok text

/-- The times of a hold can be written out. -/
def HoldRow.Dated (row : HoldRow) : Prop :=
  Formattable row.createdAt ∧ ∀ time ∈ row.releasedAt, Formattable time

/-- Every timestamp that a view can show can be written out. -/
structure Db.Dated (db : Db) : Prop where
  holds : ∀ row ∈ db.holds, row.Dated
  scopes : ∀ row ∈ db.scopes, Formattable row.createdAt

theorem Db.dated_empty : ({} : Db).Dated := ⟨fun _ h => (by cases h), fun _ h => (by cases h)⟩

/-- The timestamps of a write can be written out. -/
def Write.Dated : Write → Prop
  | .insertHold row => row.Dated
  | .updateHold row => row.Dated
  | .insertScope row => Formattable row.createdAt
  | _ => True

theorem Db.Dated.put {db : Db} {w : Write} (h : db.Dated) (hw : w.Dated) : (db.put w).Dated := by
  cases w with
  | insertHold row =>
    refine ⟨fun r hr => ?_, h.scopes⟩
    rcases List.mem_append.mp hr with hr | hr
    · exact h.holds r hr
    · exact List.mem_singleton.mp hr ▸ hw
  | updateHold row =>
    refine ⟨fun r hr => ?_, h.scopes⟩
    obtain ⟨old, hold, rfl⟩ := List.mem_map.mp hr
    split
    · exact hw
    · exact h.holds old hold
  | insertScope row =>
    refine ⟨h.holds, fun r hr => ?_⟩
    rcases List.mem_append.mp hr with hr | hr
    · exact h.scopes r hr
    · exact List.mem_singleton.mp hr ▸ hw
  | deleteScope h' scope => exact ⟨h.holds, fun r hr => h.scopes r (List.mem_filter.mp hr).1⟩
  | insertCommand row => exact ⟨h.holds, h.scopes⟩
  | insertActivity row => exact ⟨h.holds, h.scopes⟩

theorem Db.Dated.putAll {ws : List Write} (hws : ∀ w ∈ ws, w.Dated) :
    ∀ {db : Db}, db.Dated → (db.putAll ws).Dated := by
  induction ws with
  | nil => exact fun h => h
  | cons w ws ih =>
    intro db h
    exact ih (fun w' hw' => hws w' (List.mem_cons_of_mem _ hw'))
      (h.put (hws w List.mem_cons_self))

/-- A change made at a time that can be written out. -/
theorem Changes.dated {db : Db} {c : Command} {now : Time} {ws : List Write}
    (h : Changes db c now ws) (hdb : db.Dated) (hnow : Formattable now) : ∀ w ∈ ws, w.Dated := by
  have hrow : ∀ {revision : Int} {row : HoldRow}, db.Open c revision row → row.Dated :=
    fun opened => hdb.holds _ (List.mem_of_find?_eq_some opened.found)
  cases h with
  | create change absent =>
    intro w hw
    rw [List.mem_singleton.mp hw]
    exact ⟨hnow, fun time ht => by cases ht⟩
  | addScope change opened absent drawn =>
    intro w hw
    simp only [List.mem_cons, List.not_mem_nil, or_false] at hw
    rcases hw with rfl | rfl
    · exact hnow
    · have hold := hrow opened
      exact hold
  | removeScope change opened present =>
    intro w hw
    simp only [List.mem_cons, List.not_mem_nil, or_false] at hw
    rcases hw with rfl | rfl
    · trivial
    · have hold := hrow opened
      exact hold
  | release change opened =>
    intro w hw
    rw [List.mem_singleton.mp hw]
    refine ⟨(hrow opened).1, fun time ht => ?_⟩
    cases ht
    exact hnow

omit [Backend] in
theorem mapM_isOk {ε α β : Type} {f : α → Except ε β} :
    ∀ {l : List α}, (∀ a ∈ l, ∃ b, f a = .ok b) → ∃ bs, l.mapM f = .ok bs := by
  intro l
  induction l with
  | nil => exact fun _ => ⟨[], rfl⟩
  | cons a l ih =>
    intro h
    obtain ⟨b, hb⟩ := h a List.mem_cons_self
    obtain ⟨bs, hbs⟩ := ih fun a' ha' => h a' (List.mem_cons_of_mem _ ha')
    refine ⟨b :: bs, ?_⟩
    rw [List.mapM_cons, hb, hbs]
    rfl

/-- A hold the rows of which can be written out can be shown. -/
theorem holdView_of_dated {row : HoldRow} {rows : List ScopeRow} (hrow : row.Dated)
    (hrows : ∀ s ∈ rows, Formattable s.createdAt) : ∃ view, holdView row rows = .ok view := by
  obtain ⟨⟨createdAt, hc⟩, hreleased⟩ := hrow
  obtain ⟨scopes, hs⟩ : ∃ scopes, rows.mapM scopeView = .ok scopes := by
    refine mapM_isOk fun s hs => ?_
    obtain ⟨text, ht⟩ := hrows s hs
    exact ⟨_, bind_eq_ok.mpr ⟨text, ht, rfl⟩⟩
  obtain ⟨releasedAt, hr⟩ : ∃ releasedAt, row.releasedAt.mapM formatTime = .ok releasedAt := by
    cases hrow : row.releasedAt with
    | none => exact ⟨none, rfl⟩
    | some time =>
      obtain ⟨text, ht⟩ := hreleased time hrow
      exact ⟨some text, bind_eq_ok.mpr ⟨text, ht, rfl⟩⟩
  exact ⟨_, holdView_eq_ok.mpr ⟨scopes, createdAt, releasedAt, hs, hc, hr, rfl⟩⟩

/-- Rows that differ in their stamps only are shown as views that do. -/
theorem holdView_restamp {row row' : HoldRow} {rows rows' : List ScopeRow} {view : HoldView}
    (hsame : row'.unstamped = row.unstamped)
    (hrows : rows'.map ScopeRow.unstamped = rows.map ScopeRow.unstamped) (hrow' : row'.Dated)
    (hrows' : ∀ s ∈ rows', Formattable s.createdAt) (hview : holdView row rows = .ok view) :
    ∃ view', holdView row' rows' = .ok view' ∧ view'.unstamped = view.unstamped := by
  obtain ⟨view', hview'⟩ := holdView_of_dated hrow' hrows'
  refine ⟨view', hview', ?_⟩
  rw [holdView_unstamped hview', holdView_unstamped hview, ← HoldRow.bareView_unstamped row',
    ← HoldRow.bareView_unstamped row, hsame, hrows]

/-- What can be shown can be written out. -/
theorem dated_of_holdView {row : HoldRow} {rows : List ScopeRow} {view : HoldView}
    (h : holdView row rows = .ok view) : row.Dated ∧ ∀ s ∈ rows, Formattable s.createdAt := by
  obtain ⟨scopes, createdAt, releasedAt, hs, hc, hr, rfl⟩ := holdView_eq_ok.mp h
  refine ⟨⟨⟨createdAt, hc⟩, fun time ht => ?_⟩, fun s hmem => ?_⟩
  · rw [Option.mem_def.mp ht] at hr
    obtain ⟨text, ht, -⟩ := bind_eq_ok.mp hr
    exact ⟨text, ht⟩
  · obtain ⟨v, -, hv⟩ := forall₂_mem_right (mapM_eq_ok hs).flip hmem
    obtain ⟨text, ht, -⟩ := bind_eq_ok.mp hv
    exact ⟨text, ht⟩

/-- A mutation has shown its hold, so that all of it can be written out. -/
theorem Mutation.dated {db : Db} {t : Tx} {cmd : Command} {ws : List Write} {activityId : Int}
    {view : HoldView} (h : Mutation db t cmd ws activityId view) (hdb : db.Coherent)
    (hdated : db.Dated) : (db.putAll t.writes).Dated := by
  have hcoherent := h.coherent hdb
  obtain ⟨row, hrow, hview⟩ : ∃ row, (db.putAll t.writes).hold? cmd.holdId = some row ∧
      holdView row ((db.putAll t.writes).sortedScopes cmd.holdId) = .ok view := by
    obtain ⟨row, hrow, -, hview⟩ := Db.loadHold_eq_ok.mp h.view
    exact ⟨row, hrow, hview⟩
  obtain ⟨hown, hscopes⟩ := dated_of_holdView hview
  constructor
  · intro r hr
    have hfound := Db.hold?_of_mem hcoherent.holds_nodup hr
    by_cases hid : r.holdId = cmd.holdId
    · rw [hid, hrow] at hfound
      exact Option.some.inj hfound ▸ hown
    · rw [(h.other_hold hid).1] at hfound
      exact hdated.holds r (List.mem_of_find?_eq_some hfound)
  · intro s hs
    by_cases hid : s.holdId = cmd.holdId
    · exact hscopes s (Db.mem_sortedScopes.mpr ⟨hs, hid⟩)
    · have hof : s ∈ (db.putAll t.writes).scopesOf s.holdId := by simpa [Db.scopesOf] using hs
      rw [(h.other_hold hid).2.1] at hof
      exact hdated.scopes s (List.mem_filter.mp hof).1

theorem Db.sortedScopes_unstamped (db : Db) (h : String) :
    db.unstamped.sortedScopes h = (db.sortedScopes h).map ScopeRow.unstamped := by
  unfold Db.sortedScopes
  rw [Db.scopesOf_unstamped]
  exact (List.map_insertionSort (fun a b : ScopeRow => a.sortKey ≤ b.sortKey)
    (fun a b : ScopeRow => a.sortKey ≤ b.sortKey) ScopeRow.unstamped (db.scopesOf h)
    fun _ _ _ _ => Iff.rfl).symm

theorem Db.Near.sortedScopes_eq {db db' : Db} {h : String} (hn : db.Near db' h) :
    (db'.sortedScopes h).map ScopeRow.unstamped = (db.sortedScopes h).map ScopeRow.unstamped := by
  rw [← Db.sortedScopes_unstamped, ← Db.sortedScopes_unstamped]
  unfold Db.sortedScopes
  rw [hn.scopes]

/-- **The same view, but for its timestamps**, from tables that are the same but for
their stamps. -/
theorem Db.loadHold_restamp {db db' : Db} {org h : String} {view : HoldView}
    (hnear : db.Near db' h) (hdb' : db'.Dated) (hload : db.loadHold org h = .ok view) :
    ∃ view', db'.loadHold org h = .ok view' ∧ view'.unstamped = view.unstamped := by
  obtain ⟨row, hfound, horg, hmade⟩ := Db.loadHold_eq_ok.mp hload
  obtain ⟨row', hfound', hsame⟩ := hnear.hold?_eq_some hfound
  obtain ⟨horg', -, -⟩ := HoldRow.eq_of_unstamped hsame
  -- Only a timestamp can fail, and all of these can be written out.
  obtain ⟨view', hview', hsameView⟩ := holdView_restamp hsame hnear.sortedScopes_eq
    (hdb'.holds row' (List.mem_of_find?_eq_some hfound'))
    (fun s hs => hdb'.scopes s (Db.mem_sortedScopes.mp hs).1) hmade
  exact ⟨view', Db.loadHold_eq_ok.mpr ⟨row', hfound', horg'.trans horg, hview'⟩, hsameView⟩

end

end LegalHold
