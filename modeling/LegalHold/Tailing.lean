import LegalHold.Commits
import LegalHold.Timeline.Cursor

/-!
# Following the activity of a hold

A client that asks for page after page of a hold's activity, handing back the
`next_cursor` it was given.  Activity is numbered by one sequence for all holds,
and numbers are drawn before the commit: transactions on different holds may
commit in another order than they drew their numbers in.  For each hold they do
not, and so the client misses nothing.

## Main definitions

* `Server.history` — the activity of a hold in the order of the commits.
* `Tailing` — a client, the pages it has got and the cursor it stands at.

## Main results

* `Reachable.history_eq` — the rows of a hold are its history.
* `Tailing.stands` — the cursor stands behind what has been read.
* `tailing_complete` — **no event is lost or repeated**.
-/

namespace LegalHold

open Interleave Timeline

/-! ### The history of a hold -/

/-- The row by which a write reports on the hold. -/
def Write.reports (hold : String) : Write → Option ActivityRow
  | .insertActivity row => if row.holdId = hold then some row else none
  | _ => none

/-- The activity rows of a hold that a log of transactions has written, commit by commit. -/
def historyOf (log : List Tx) (hold : String) : List ActivityRow :=
  log.flatMap fun t => t.writes.filterMap (Write.reports hold)

/-- The activity of a hold in the order of the commits. -/
def Server.history (srv : Server) (hold : String) : List ActivityRow := historyOf srv.log hold

theorem Db.activityOf_put (db : Db) (w : Write) (hold : String) :
    (db.put w).activityOf hold = db.activityOf hold ++ (w.reports hold).toList := by
  cases w with
  | insertActivity row =>
    rw [Db.activityOf_insertActivity]
    by_cases h : row.holdId = hold <;> simp [Write.reports, h]
  | _ => exact (List.append_nil _).symm

theorem Db.activityOf_putAll (ws : List Write) (hold : String) :
    ∀ db : Db, (db.putAll ws).activityOf hold =
      db.activityOf hold ++ ws.filterMap (Write.reports hold) := by
  induction ws with
  | nil => exact fun db => (List.append_nil _).symm
  | cons w ws ih =>
    intro db
    rw [Db.putAll_cons, ih, Db.activityOf_put, List.append_assoc]
    congr 1
    cases h : w.reports hold <;> simp [h]

/-- **The rows of a hold are its history.** -/
theorem activityOf_replayLog (log : List Tx) (hold : String) :
    (replayLog log).activityOf hold = historyOf log hold := by
  induction log using List.reverseRecOn with
  | nil => rfl
  | append_singleton log t ih =>
    rw [replayLog_snoc, Db.activityOf_putAll, ih]
    simp [historyOf]

theorem historyOf_mono {log log' : List Tx} (h : log <+: log') (hold : String) :
    historyOf log hold <+: historyOf log' hold := by
  obtain ⟨more, rfl⟩ := h
  unfold historyOf
  rw [List.flatMap_append]
  exact List.prefix_append _ _

/-! ### Pages -/

/-- The numbers of a hold's activity go up, and start above the first cursor. -/
theorem Db.Coherent.activity_log {db : Db} (h : db.Coherent) (hold : String) :
    Timeline.Log ActivityRow.activityId 0 (db.activityOf hold) :=
  ⟨h.ordered hold, fun a ha => (h.drawn hold a ha).1⟩

/-- A page is what is left of the hold's activity above the cursor. -/
theorem Db.Coherent.activityPage_eq {db : Db} (h : db.Coherent) {org hold : String}
    {row : HoldRow} (hr : db.hold? hold = some row) (horg : row.organizationId = org)
    (after limit : Int) :
    Server.activityPage db org hold after limit =
      ((db.activityOf hold).filter fun a => after < a.activityId).take limit.toNat := by
  have hfilter : (db.activity.filter fun a => a.organizationId = org ∧ a.holdId = hold ∧
      after < a.activityId) = (db.activityOf hold).filter fun a => after < a.activityId := by
    unfold Db.activityOf
    rw [List.filter_filter]
    refine List.filter_congr fun a ha => ?_
    -- The organization of the request is that of all rows of its hold.
    by_cases hh : a.holdId = hold
    · have : a.organizationId = org := by
        rw [← horg]
        exact h.organization hold row hr a (List.mem_filter.mpr ⟨ha, by simpa using hh⟩)
      simp [hh, this]
    · simp [hh]
  have hsorted : ((db.activityOf hold).filter fun a => after < a.activityId).Pairwise
      fun a b => a.activityId ≤ b.activityId :=
    ((h.ordered hold).filter _).imp fun hlt => Int.le_of_lt hlt
  unfold Server.activityPage
  rw [hfilter, hsorted.insertionSort_eq]

section

variable [Backend] {c c' : Config} {org hold : String}

/-- The rows of a hold that the table has, in the order in which they were stored, are its
history: the table is what the log of the commits replays to. -/
theorem Reachable.history_eq (h : Reachable c) (hold : String) :
    c.shared.db.activityOf hold = c.shared.history hold := by
  rw [h.db_eq]
  unfold Server.asOf
  rw [List.take_length]
  exact activityOf_replayLog _ _

/-! ### Clients -/

/-- A page that was asked for after `c` with this cursor, and was there by `c'`. -/
structure Page (org hold : String) (c : Config) (cursor : String) (c' : Config)
    (events : List ActivityView) (next : Int) (r : ListActivityRequest) (i : Session Op) :
    Prop where
  later : Later c c'
  organization : r.organizationId = org
  hold : r.holdId = hold
  cursor : r.after.getD "0" = cursor
  accepted : r.op? = some i.op
  started : c.procs.length ≤ i.id
  answered : Returned c' i.id i.op (.ok (.activity events next))

/-- A client that follows `next_cursor` from `"0"`: the pages it has got so far, and the
cursor it goes on with. -/
inductive Tailing (org hold : String) : Config → List (List ActivityView) → String → Prop where
  | start {c : Config} (reached : Reachable c) : Tailing org hold c [] "0"
  | page {c c' : Config} {pages : List (List ActivityView)} {cursor : String}
      {events : List ActivityView} {next : Int} {r : ListActivityRequest} {i : Session Op}
      (before : Tailing org hold c pages cursor)
      (got : Page org hold c cursor c' events next r i) :
      Tailing org hold c' (pages ++ [events]) (ListActivityResponse.of events next).nextCursor

/-- The cursor stands behind exactly those entries of the log that the pages show. -/
structure Stands (log : List ActivityRow) (pages : List (List ActivityView)) (cursor : String)
    (k : ℕ) (after : Int) : Prop where
  behind : Behind ActivityRow.activityId 0 log k after
  shown : (log.take k).mapM activityView = .ok pages.flatten
  cursor : cursor = formatI64 after
  nonneg : 0 ≤ after
  le : after ≤ maxI64

/-- A cursor stands where it is while the activity of the hold grows behind it. -/
theorem Stands.grow {log log' : List ActivityRow} {pages : List (List ActivityView)}
    {cursor : String} {k : ℕ} {after : Int} (h : Stands log pages cursor k after)
    (hl : log <+: log') : Stands log' pages cursor k after := by
  refine { h with behind := h.behind.grow hl, shown := ?_ }
  obtain ⟨more, rfl⟩ := hl
  rw [List.take_append_of_le_length h.behind.le]
  exact h.shown

/-- The cursor of a client is understood as the number at which it stands. -/
theorem Stands.parse {log : List ActivityRow} {pages : List (List ActivityView)}
    {cursor : String} {k : ℕ} {after : Int} (h : Stands log pages cursor k after) :
    parseI64 cursor = some after := by
  rw [h.cursor]
  exact parseI64_formatI64 h.nonneg h.le

/-- What the session of a page has read, and what the cursor it returns is. -/
theorem activityRead_next {srv : Server} {i : Session Op} {after limit : Int}
    {events : List ActivityView} {next : Int} {e : Event} {page : List ActivityRow}
    (h : ActivityRead srv i org hold after limit events next e)
    (hpage : page = Server.activityPage (srv.asOf e.seen) org hold after limit)
    (hdrawn : ∀ a ∈ page, 0 < a.activityId ∧ a.activityId ≤ maxI64) :
    next = nextCursor ActivityRow.activityId after page := by
  -- `next` is parsed from the text of the last event.
  have hids : events.map (·.activityId) = page.map fun a => formatI64 a.activityId := by
    refine map_eq_of_mapM (f := activityView) ?_ (hpage ▸ h.rows)
    intro a b hab
    obtain ⟨text, -, hab⟩ := bind_eq_ok.mp hab
    cases hab
    rfl
  have hlast := congrArg List.getLast? hids
  rw [List.getLast?_map, List.getLast?_map] at hlast
  rw [h.next]
  unfold nextCursor
  cases hp : page.getLast? with
  | none =>
    rw [hp] at hlast
    rw [Option.map_eq_none_iff.mp hlast]
    rfl
  | some a =>
    rw [hp] at hlast
    obtain ⟨event, hevent, hid⟩ := Option.map_eq_some_iff.mp hlast
    obtain ⟨h0, h1⟩ := hdrawn a (List.mem_of_getLast? hp)
    rw [hevent]
    show (parseI64 event.activityId).getD after = a.activityId
    rw [hid, parseI64_formatI64 (Int.le_of_lt h0) h1]
    rfl

/-! ### Page after page -/

/-- Commits between two moments of a run only add to a hold's activity. -/
theorem Later.history (h : Later c c') (hold : String) :
    c.shared.history hold <+: c'.shared.history hold := historyOf_mono h.grown.log hold

/-- **One page**: it goes on where the pages before it ended, in the hold's activity as
it was committed when the page's statement ran. -/
theorem Page.stands {pages : List (List ActivityView)} {cursor : String} {k : ℕ} {after : Int}
    {events : List ActivityView} {next : Int} {r : ListActivityRequest} {i : Session Op}
    (got : Page org hold c cursor c' events next r i)
    (h : Stands (c.shared.history hold) pages cursor k after) :
    ∃ e ∈ c'.shared.eventsOf i, ∃ log page : List ActivityRow,
      e.stmt = .pool (.listActivity org hold after r.limit) ∧
      log = historyOf (c'.shared.log.take e.seen) hold ∧ log <+: c'.shared.history hold ∧
      Timeline.Log ActivityRow.activityId 0 log ∧ Stands log pages cursor k after ∧
      page = (log.drop k).take r.limit.toNat ∧ page.mapM activityView = .ok events ∧
      next = nextCursor ActivityRow.activityId after page ∧
      Stands log (pages ++ [events]) (ListActivityResponse.of events next).nextCursor
        (k + page.length) next := by
  obtain ⟨-, after', hparse, -, hop⟩ := ListActivityRequest.op?_eq_some.mp got.accepted
  rw [got.cursor, h.parse] at hparse
  cases hparse
  rw [got.organization, got.hold] at hop
  have hpost := returned_post got.later.reachable got.answered
  obtain ⟨id, op⟩ := i
  simp only at hop
  subst hop
  unfold Post at hpost
  obtain ⟨-, events', next', e, heq, hread⟩ := hpost _ rfl
  cases heq
  -- the statement has seen what was committed when the page was asked for
  have hseen : c.shared.log.length ≤ e.seen := got.later.seen got.started hread.mem
  have hdb := got.later.reachable.coherent e.seen
  have hlog : (c'.shared.asOf e.seen).activityOf hold =
      historyOf (c'.shared.log.take e.seen) hold := activityOf_replayLog _ _
  have hbefore : c.shared.history hold <+: historyOf (c'.shared.log.take e.seen) hold := by
    refine historyOf_mono ?_ hold
    rw [List.prefix_take_iff]
    exact ⟨got.later.grown.log, hseen⟩
  obtain ⟨row, hrow, horg⟩ := hread.hold
  have hstands := h.grow hbefore
  have hincreasing := hdb.activity_log hold
  have hpage : ((historyOf (c'.shared.log.take e.seen) hold).drop k).take r.limit.toNat =
      Server.activityPage (c'.shared.asOf e.seen) org hold after r.limit := by
    rw [hdb.activityPage_eq hrow horg, hlog]
    rw [hlog] at hincreasing
    rw [hstands.behind.filter_eq hincreasing]
  rw [hlog] at hincreasing
  have hdrawn : ∀ a ∈ ((historyOf (c'.shared.log.take e.seen) hold).drop k).take r.limit.toNat,
      0 < a.activityId ∧ a.activityId ≤ maxI64 := by
    intro a ha
    refine hdb.drawn hold a ?_
    rw [hlog]
    exact List.mem_of_mem_drop (List.mem_of_mem_take ha)
  have hnext := activityRead_next hread hpage hdrawn
  -- The next cursor is the last one or the number of a row: it can be parsed again.
  have hrange : 0 ≤ next ∧ next ≤ maxI64 := by
    rw [hnext]
    rcases nextCursor_mem after _ with heq | ⟨a, ha, heq⟩
    · rw [heq]
      exact ⟨h.nonneg, h.le⟩
    · rw [heq]
      exact ⟨Int.le_of_lt (hdrawn a ha).1, (hdrawn a ha).2⟩
  have hrows := hread.rows
  rw [← hpage] at hrows
  obtain ⟨hbehind, htake⟩ := hstands.behind.page r.limit.toNat
  rw [← hnext] at hbehind
  refine ⟨e, hread.mem, _, _, hread.stmt, rfl, historyOf_mono (List.take_prefix _ _) hold,
    hincreasing, hstands, rfl, hrows, hnext, hbehind, ?_, rfl, hrange.1, hrange.2⟩
  rw [← htake, List.mapM_append, hstands.shown, hrows, List.flatten_append]
  simp [pure, Except.pure, bind, Except.bind]

/-- **The cursor stands behind what the client has got**, in every run. -/
theorem Tailing.stands {pages : List (List ActivityView)} {cursor : String}
    (h : Tailing org hold c pages cursor) :
    ∃ k after, Stands (c.shared.history hold) pages cursor k after := by
  -- On the pages: the cursor is put forward by a page and stays put while others commit.
  induction h with
  | start reached =>
    refine ⟨0, 0, ⟨Nat.zero_le _, rfl⟩, rfl, by decide, Int.le_refl 0, by decide⟩
  | page before got ih =>
    obtain ⟨k, after, hstands⟩ := ih
    obtain ⟨e, -, log, page, -, -, hlog, -, -, -, -, -, hnew⟩ := got.stands hstands
    exact ⟨_, _, hnew.grow hlog⟩

/-- **No event is lost or repeated** by a client that follows `next_cursor`, whatever
page sizes it asks for and whatever commits in between: at any time, what it has got
is the beginning of the hold's activity in the order of the commits.  Its cursor is
always accepted, and goes up with every page that is not empty; an empty page means
that it has got every event committed before the page was read. -/
theorem tailing_complete {pages : List (List ActivityView)} {cursor : String}
    (h : Tailing org hold c pages cursor) :
    (∀ {c' : Config}, Later c c' → ∃ rows, rows <+: c'.shared.history hold ∧
      rows.mapM activityView = .ok pages.flatten) ∧
    (∀ {r : ListActivityRequest}, r.after = some cursor → validId r.organizationId = true →
      validId r.holdId = true → 1 ≤ r.limit → r.limit ≤ maxPageSize → ∃ after,
        parseI64 cursor = some after ∧
        r.op? = some (.listActivity r.organizationId r.holdId after r.limit)) ∧
    ∀ {c' : Config} {events : List ActivityView} {next : Int} {r : ListActivityRequest}
      {i : Session Op}, Page org hold c cursor c' events next r i → ∃ after,
        parseI64 cursor = some after ∧
        parseI64 (ListActivityResponse.of events next).nextCursor = some next ∧
        (events ≠ [] → after < next) ∧
        (events = [] → ∃ e ∈ c'.shared.eventsOf i,
          e.stmt = .pool (.listActivity org hold after r.limit) ∧
          (historyOf (c'.shared.log.take e.seen) hold).mapM activityView = .ok pages.flatten) := by
  obtain ⟨k, after, hstands⟩ := h.stands
  refine ⟨?_, ?_, ?_⟩
  · intro c' hlater
    have hgrown := hlater.history hold
    exact ⟨_, List.take_prefix k _, (hstands.grow hgrown).shown⟩
  · intro r hcursor horg hhold hlow hhigh
    refine ⟨after, hstands.parse, ListActivityRequest.op?_eq_some.mpr
      ⟨⟨horg, hhold, hlow, hhigh⟩, after, ?_, hstands.nonneg, rfl⟩⟩
    rw [hcursor]
    exact hstands.parse
  · intro c' events next r i got
    obtain ⟨e, he, log, page, hstmt, hlog, -, hincreasing, hread, hpage, hrows, hnext, hnew⟩ :=
      got.stands hstands
    obtain ⟨⟨-, -, hlow, -⟩, -⟩ := ListActivityRequest.op?_eq_some.mp got.accepted
    -- A page is empty exactly when no row was behind the cursor.
    have hempty : events = [] ↔ page = [] := by
      rw [← List.length_eq_zero_iff, ← List.length_eq_zero_iff, (mapM_eq_ok hrows).length_eq]
    refine ⟨after, hstands.parse, hnew.parse, fun hne => ?_, fun hnil => ⟨e, he, hstmt, ?_⟩⟩
    · rw [hnext, hpage]
      refine hread.behind.lt_next hincreasing ?_
      rw [← hpage]
      exact fun hp => hne (hempty.mpr hp)
    -- The limit is positive, so that an empty page means an empty rest.
    · have hrest : log.drop k = [] := by
        have hp := hpage.symm.trans (hempty.mp hnil)
        rcases List.take_eq_nil_iff.mp hp with hzero | hrest
        · omega
        · exact hrest
      have hall := List.take_append_drop k log
      rw [hrest, List.append_nil] at hall
      rw [← hlog, ← hall]
      exact hread.shown

end

namespace Sample

/-- A request for one event of the hold `h`. -/
def oneAfter (cursor : Option String) : ListActivityRequest := ⟨"org", "h", cursor, 1⟩

/-- A client gets its first event, and then the hold is released. -/
def firstPage : List Label :=
  holding ++ .start (.listActivity "org" "h" 0 1) :: steps 2 5 ++ .start (release 2) :: steps 3 9

/-- The client goes on, and gets the page behind the first one. -/
def secondPage : List Label := firstPage ++ .start (.listActivity "org" "h" 1 1) :: steps 4 5

theorem followed :
    ∃ pages, Tailing "org" "h" (after secondPage) pages "2" ∧
      pages.flatten.map (·.activityId) = ["1", "2"] := by
  have hfirst : ∃ a : ActivityView, a.activityId = "1" ∧
      Page "org" "h" initial "0" (after firstPage) [a] 1 (oneAfter none)
        ⟨2, .listActivity "org" "h" 0 1⟩ :=
    ⟨_, rfl, ⟨Machine.Reaches.refl _, firstPage, rfl⟩, rfl, rfl, rfl, rfl, Nat.zero_le _, rfl⟩
  obtain ⟨a, ha, hfirst⟩ := hfirst
  have hlater : Later (after firstPage) (after secondPage) :=
    ⟨reachable_after _, .start (.listActivity "org" "h" 1 1) :: steps 4 5, rfl⟩
  have hsecond : ∃ b : ActivityView, b.activityId = "2" ∧
      Page "org" "h" (after firstPage) "1" (after secondPage) [b] 2 (oneAfter (some "1"))
        ⟨4, .listActivity "org" "h" 1 1⟩ :=
    ⟨_, rfl, hlater, rfl, rfl, rfl, rfl, by decide, rfl⟩
  obtain ⟨b, hb, hsecond⟩ := hsecond
  refine ⟨_, ((Tailing.start (Machine.Reaches.refl _)).page hfirst).page hsecond, ?_⟩
  simp [ha, hb]

theorem followed_complete :
    ∃ (pages : List (List ActivityView)) (rows : List ActivityRow),
      pages.flatten.map (·.activityId) = ["1", "2"] ∧
      rows <+: (after secondPage).shared.db.activityOf "h" ∧
      rows.mapM activityView = .ok pages.flatten := by
  obtain ⟨pages, h, hids⟩ := followed
  have hself : Later (after secondPage) (after secondPage) :=
    ⟨reachable_after _, Machine.Reaches.refl _⟩
  obtain ⟨rows, hrows, hshown⟩ := (tailing_complete h).1 hself
  rw [← (reachable_after secondPage).history_eq "h"] at hrows
  exact ⟨pages, rows, hids, hrows, hshown⟩

end Sample

end LegalHold
