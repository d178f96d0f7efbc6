import LegalHold.Requests
import LegalHold.Commits
import LegalHold.Handlers
import LegalHold.Timeline.Keyset

/-!
# Following a listing of holds

`list_holds` selects a page of hold ids above a cursor in one statement, looks
one further than the page to see whether there are more, and then reads each
hold by itself.  Meanwhile holds are created and released.  A client that
follows `next_cursor` from the first page to the last makes a keyset traversal
of whatever matches at each of the statements.

## Main definitions

* `Db.matchingIds`, `Db.Matches` — the holds of an organization under a filter.
* `HoldsPage`, `Listing` — a client that follows `next_cursor`.

## Main results

* `Listing.traversal` — **the pages are a keyset traversal**.
* `listing_complete` — no hold is repeated, and none that matches all along is
  missed.
-/

namespace LegalHold

open Interleave Timeline

section

variable [Backend]

/-! ### A page as a keyset page -/

/-- The ids of an organization's holds under a filter, in physical order. -/
def Db.matchingIds (db : Db) (organizationId : String) (status : Option Status) : List String :=
  (db.holds.filter fun h => h.organizationId = organizationId ∧
    (status = none ∨ status = some h.status)).map (·.holdId)

/-- The hold exists, belongs to the organization and satisfies the filter of the listing. -/
def Db.Matches (db : Db) (organizationId : String) (status : Option Status) (hold : String) :
    Prop :=
  ∃ row, db.hold? hold = some row ∧ row.organizationId = organizationId ∧
    (status = none ∨ status = some row.status)

/-- The place of a hold id in the order of the database, above the place of no cursor. -/
def place (holdId : String) : WithBot Collated := (⟨holdId⟩ : Collated)

/-- The place in the order of holds at which a cursor stands; without a cursor that is before all
of them. -/
def cursorPlace (cursor : Option String) : WithBot Collated := cursor.elim ⊥ place

theorem place_le_place {a b : String} : place a ≤ place b ↔ (⟨a⟩ : Collated) ≤ ⟨b⟩ :=
  WithBot.coe_le_coe

theorem place_lt_place {a b : String} : place a < place b ↔ (⟨a⟩ : Collated) < ⟨b⟩ :=
  WithBot.coe_lt_coe

omit [Backend] in
theorem place_injective : Function.Injective place := by
  intro a b h
  exact congrArg Collated.text (WithBot.coe_injective h)

theorem cursorPlace_lt {cursor : Option String} {holdId : String} :
    cursorPlace cursor < place holdId ↔ ∀ c ∈ cursor, (⟨c⟩ : Collated) < ⟨holdId⟩ := by
  cases cursor with
  | none => simp [cursorPlace, place]
  | some c => simp [cursorPlace, place_lt_place]

/-- **A page of ids is a keyset page.** -/
theorem holdPage_eq (db : Db) (org : String) (status : Option Status) (cursor : Option String)
    (limit : Int) : Server.holdPage db org status cursor limit =
      (above place (db.matchingIds org status) (cursorPlace cursor)).take limit.toNat := by
  have hfilter : (db.holds.filter fun h => h.organizationId = org ∧
      (status = none ∨ status = some h.status) ∧
      (∀ c ∈ cursor, (⟨c⟩ : Collated) < ⟨h.holdId⟩)).map (·.holdId) =
      (db.matchingIds org status).filter fun id => cursorPlace cursor < place id := by
    unfold Db.matchingIds
    rw [List.filter_map, List.filter_filter]
    congr 2
    funext h
    simp only [Function.comp_apply, cursorPlace_lt, ← Bool.decide_and, decide_eq_decide]
    tauto
  unfold Server.holdPage above
  rw [hfilter]
  simp only [place_le_place]

omit [Backend] in
theorem Db.Coherent.mem_matchingIds {db : Db} (h : db.Coherent) {org : String}
    {status : Option Status} {hold : String} :
    hold ∈ db.matchingIds org status ↔ db.Matches org status hold := by
  unfold Db.matchingIds Db.Matches
  simp only [List.mem_map, List.mem_filter, decide_eq_true_eq]
  constructor
  · rintro ⟨row, ⟨hmem, horg, hstatus⟩, rfl⟩
    exact ⟨row, Db.hold?_of_mem h.holds_nodup hmem, horg, hstatus⟩
  · rintro ⟨row, hrow, horg, hstatus⟩
    exact ⟨row, ⟨List.mem_of_find?_eq_some hrow, horg, hstatus⟩, Db.holdId_of_hold? hrow⟩

omit [Backend] in
theorem Db.Coherent.nodup_matchingIds {db : Db} (h : db.Coherent) (org : String)
    (status : Option Status) : ((db.matchingIds org status).map place).Nodup := by
  apply List.Nodup.map place_injective
  exact h.holds_nodup.sublist (List.filter_sublist.map _)

/-- **What a session has listed is a keyset page** of what matched at its first statement. -/
theorem Listed.isPage {srv : Server} {i : Session Op} {org : String} {status : Option Status}
    {cursor : Option String} {limit : Int} {views : List HoldView} {next : Option String}
    {e : Event} (h : Listed srv i org status cursor limit views next e) (hlimit : 1 ≤ limit) :
    IsPage place ((srv.asOf e.seen).matchingIds org status) (cursorPlace cursor) limit.toNat
      (views.map (·.holdId)) (next.map place) := by
  have hids := h.ids
  have hnext := h.next
  rw [holdPage_eq, if_neg (by omega), List.take_take, Nat.min_eq_left (by omega)] at hids
  rw [holdPage_eq, List.length_take] at hnext
  refine ⟨hids, ?_⟩
  by_cases hmore : limit.toNat < (above place ((srv.asOf e.seen).matchingIds org status)
      (cursorPlace cursor)).length
  -- There are more, so that the page is full and has a last hold.
  · rw [if_pos (by omega)] at hnext
    rw [if_pos hmore, hnext]
    cases hlast : views.getLast? with
    | some view => simp [nextCursor, List.getLast?_map, hlast]
    | none =>
      have hlength := congrArg List.length hids
      rw [List.getLast?_eq_none_iff.mp hlast, List.length_take] at hlength
      simp only [List.map_nil, List.length_nil] at hlength
      omega
  · rw [if_neg (by omega)] at hnext
    rw [if_neg hmore, hnext]
    rfl

/-! ### Clients -/

/-- A page as the client has got it: the session that answered, what it was asked and the
response. -/
structure HoldsPage where
  session : ℕ
  request : ListHoldsRequest
  response : ListHoldsResponse

/-- The session that has read a page. -/
def HoldsPage.owner (p : HoldsPage) : Session Op :=
  ⟨p.session, .listHolds p.request.organizationId p.request.status p.request.cursor p.request.limit⟩

/-- The statement by which the page was selected. -/
def HoldsPage.Selected (p : HoldsPage) (c : Config) (e : Event) : Prop :=
  e ∈ c.shared.eventsOf p.owner ∧ e.stmt = .pool (.listHolds p.request.organizationId
    p.request.status p.request.cursor (p.request.limit + 1))

/-- The page was asked for with this cursor, by a valid request, and has been answered. -/
structure HoldsPage.Got (c : Config) (org : String) (status : Option Status)
    (cursor : Option String) (p : HoldsPage) : Prop where
  organization : p.request.organizationId = org
  status : p.request.status = status
  cursor : p.request.cursor = cursor
  accepted : p.request.op? = some p.owner.op
  answered : Returned c p.session p.owner.op (.ok (.holds p.response.holds p.response.nextCursor))

/-- A client that follows `next_cursor` from no cursor on: the pages it has got, and the cursor
it goes on with. -/
inductive Listing (c : Config) (org : String) (status : Option Status) :
    List HoldsPage → Option String → Prop where
  | first {p : HoldsPage} (got : p.Got c org status none) :
      Listing c org status [p] p.response.nextCursor
  | page {pages : List HoldsPage} {p : HoldsPage} {cursor : String}
      (before : Listing c org status pages (some cursor)) (got : p.Got c org status (some cursor)) :
      Listing c org status (pages ++ [p]) p.response.nextCursor

/-- The holds that a client has seen, in the order of the pages and within each page. -/
def listed (pages : List HoldsPage) : List HoldView := pages.flatMap (·.response.holds)

variable {c : Config} {org : String} {status : Option Status} {cursor : Option String}

/-- The page as it was read from the holds that matched at its statement. -/
structure HoldsPage.ReadAs (c : Config) (org : String) (status : Option Status) (p : HoldsPage)
    (r : Reading String) : Prop where
  ids : r.page = p.response.holds.map (·.holdId)
  limit : r.limit = p.request.limit.toNat
  positive : 1 ≤ p.request.limit
  selected : ∃ e, p.Selected c e ∧ r.stored = (c.shared.asOf e.seen).matchingIds org status
  organization : ∀ view ∈ p.response.holds, view.organizationId = org

/-- A page that was got has been read. -/
theorem HoldsPage.Got.readAs {p : HoldsPage} (h : Reachable c) (got : p.Got c org status cursor) :
    ∃ r, p.ReadAs c org status r ∧ IsPage place r.stored (cursorPlace cursor) r.limit r.page
      (p.response.nextCursor.map place) := by
  obtain ⟨⟨-, hlow, -, -⟩, -⟩ := ListHoldsRequest.op?_eq_some.mp got.accepted
  obtain ⟨-, views, next, e, heq, hlisted⟩ := returned_post h got.answered _ rfl
  cases heq
  have hpage := hlisted.isPage hlow
  rw [got.organization, got.status, got.cursor] at hpage
  refine ⟨⟨_, _, _⟩, ⟨rfl, rfl, hlow, ⟨e, ⟨hlisted.mem, hlisted.stmt⟩, rfl⟩, ?_⟩, hpage⟩
  intro view hview
  obtain ⟨e₁, e₂, -, hread⟩ := hlisted.views view hview
  exact hread.target.1.trans got.organization

/-- Every page of a listing was got with some cursor. -/
theorem Listing.got {pages : List HoldsPage} (hl : Listing c org status pages cursor) :
    ∀ p ∈ pages, ∃ cursor, p.Got c org status cursor := by
  induction hl with
  | first got =>
    intro p hp
    rw [List.mem_singleton.mp hp]
    exact ⟨_, got⟩
  | page before got ih =>
    intro p hp
    rcases List.mem_append.mp hp with hp | hp
    · exact ih p hp
    · rw [List.mem_singleton.mp hp]
      exact ⟨_, got⟩

/-- **The pages are a keyset traversal** of the holds that match at their statements. -/
theorem Listing.traversal {pages : List HoldsPage} (h : Reachable c)
    (hl : Listing c org status pages cursor) :
    ∃ rs, List.Forall₂ (HoldsPage.ReadAs c org status) pages rs ∧
      Traversal place ⊥ rs (cursor.map place) := by
  induction hl with
  | first got =>
    obtain ⟨r, hr, hpage⟩ := got.readAs h
    exact ⟨[r], .cons hr .nil, .first hpage⟩
  | page before got ih =>
    obtain ⟨rs, hrs, htraversal⟩ := ih
    obtain ⟨r, hr, hpage⟩ := got.readAs h
    exact ⟨rs ++ [r], List.rel_append hrs (.cons hr .nil), .page htraversal hpage⟩

/-- The keys it reads are the ids of the holds listed. -/
theorem flatMap_readAs {pages : List HoldsPage} {rs : List (Reading String)}
    (h : List.Forall₂ (HoldsPage.ReadAs c org status) pages rs) :
    rs.flatMap (·.page) = (listed pages).map (·.holdId) := by
  unfold listed
  induction h with
  | nil => rfl
  | cons hr _ ih => rw [List.flatMap_cons, List.flatMap_cons, List.map_append, ih, hr.ids]

theorem HoldsPage.ReadAs.proper {p : HoldsPage} {r : Reading String} (h : Reachable c)
    (hr : p.ReadAs c org status r) : r.Proper place := by
  obtain ⟨e, -, hstored⟩ := hr.selected
  have hpositive := hr.positive
  constructor
  · rw [hstored]
    exact (h.coherent _).nodup_matchingIds org status
  · rw [hr.limit]
    omega

/-! ### Cursors are accepted -/

/-- A hold that is asked for to be created has a valid id. -/
theorem Op.Issued.validId_holdId {op : Op} (h : op.Issued) {cmd : Command}
    (hcmd : op.command? = some cmd) {title reason authority : String}
    (hcreate : cmd.change = .create title reason authority) : validId cmd.holdId = true := by
  obtain ⟨v, hv⟩ := h.hashed hcmd
  cases op with
  | createHold i =>
    obtain ⟨r, caller, actor, hinput, -⟩ := hv
    obtain ⟨⟨-, hvalid, -⟩, rfl⟩ := CreateHoldRequest.input?_eq_some.mp hinput
    cases hcmd
    exact hvalid
  | _ => cases hcmd <;> cases hcreate

/-- **Every hold has a valid id**, when the operations of the run were asked for. -/
theorem Reachable.validId_hold (h : Reachable c)
    (hissued : ∀ {i : Session Op}, Config.Known c i → i.op.Issued) {n : ℕ}
    (hn : n ≤ c.shared.log.length) {hold : String} {row : HoldRow}
    (hrow : (c.shared.asOf n).hold? hold = some row) : validId hold = true := by
  revert hold row
  refine h.commit_induction_from (k := 0) (P := fun m => ∀ {hold row},
    (c.shared.asOf m).hold? hold = some row → validId hold = true) ?_ ?_ (Nat.zero_le n) hn
  · intro hold row hrow
    cases hrow
  · intro n t cmd ws activityId view _ ih hc hm hsucc hold row hrow
    rw [hsucc] at hrow
    by_cases hne : hold = cmd.holdId
    · subst hne
      rcases hm.changed.hold? with ⟨-, title, reason, authority, hcreate, -⟩ |
        ⟨old, revision, -, opened, -⟩
      -- The hold was created, or it was there.
      · obtain ⟨t', ht', hcmd, -⟩ := hc
        exact (hissued (h.owned.log t' (List.mem_of_getElem? ht'))).validId_holdId hcmd hcreate
      · exact ih opened.found
    · rw [(hm.other_hold hne).1] at hrow
      exact ih hrow

/-! ### The whole listing -/

namespace Listing

variable {pages : List HoldsPage}

theorem proper (h : Reachable c) {rs : List (Reading String)}
    (hrs : List.Forall₂ (HoldsPage.ReadAs c org status) pages rs) : ∀ r ∈ rs, r.Proper place := by
  intro r hr
  obtain ⟨p, -, hread⟩ := forall₂_mem_right hrs hr
  exact hread.proper h

theorem increasing (h : Reachable c) (hl : Listing c org status pages cursor) :
    ((listed pages).map (·.holdId)).Pairwise fun a b => place a < place b := by
  obtain ⟨rs, hrs, htraversal⟩ := hl.traversal h
  rw [← flatMap_readAs hrs]
  exact htraversal.increasing (proper h hrs)

theorem organization (h : Reachable c) (hl : Listing c org status pages cursor) {view : HoldView}
    (hview : view ∈ listed pages) : view.organizationId = org := by
  obtain ⟨p, hp, hview⟩ := List.mem_flatMap.mp hview
  obtain ⟨cursor, got⟩ := hl.got p hp
  obtain ⟨r, hread, -⟩ := got.readAs h
  exact hread.organization view hview

/-- What has matched at every statement of a listing that came to its end is listed once. -/
theorem once (h : Reachable c) (hl : Listing c org status pages none) {hold : String}
    (hmatches : ∀ p ∈ pages, ∀ e, p.Selected c e →
      (c.shared.asOf e.seen).Matches org status hold) :
    ((listed pages).map (·.holdId)).count hold = 1 := by
  obtain ⟨rs, hrs, htraversal⟩ := hl.traversal h
  have hmem : hold ∈ (listed pages).map (·.holdId) := by
    rw [← flatMap_readAs hrs]
    apply htraversal.complete (proper h hrs)
    · intro r hr
      obtain ⟨p, hp, hread⟩ := forall₂_mem_right hrs hr
      obtain ⟨e, hselected, hstored⟩ := hread.selected
      rw [hstored]
      exact (h.coherent _).mem_matchingIds.mpr (hmatches p hp e hselected)
    · exact WithBot.bot_lt_coe _
    · intro b hb
      cases hb
  apply List.count_eq_one_of_mem _ hmem
  exact (hl.increasing h).imp fun hlt heq => by
    rw [heq] at hlt
    exact lt_irrefl _ hlt

/-- A cursor is a valid id, and its page is full. -/
theorem next_valid (h : Reachable c)
    (hissued : ∀ {i : Session Op}, Config.Known c i → i.op.Issued)
    (hl : Listing c org status pages cursor) {p : HoldsPage} (hp : p ∈ pages) {next : String}
    (hnext : next ∈ p.response.nextCursor) :
    validId next = true ∧ (p.response.holds.length : Int) = p.request.limit := by
  obtain ⟨cursor, got⟩ := hl.got p hp
  obtain ⟨r, hread, hpage⟩ := got.readAs h
  have hnext' : place next ∈ p.response.nextCursor.map place := by
    rw [Option.mem_def.mp hnext]
    rfl
  obtain ⟨e, hselected, hstored⟩ := hread.selected
  have hpositive := hread.positive
  have hlimit := hread.limit
  constructor
  · obtain ⟨hold, hhold, heq⟩ := hpage.next_mem (by omega) hnext'
    obtain rfl := place_injective heq
    have hmem := (hpage.mem hhold).1
    rw [hstored, (h.coherent _).mem_matchingIds] at hmem
    obtain ⟨row, hrow, -⟩ := hmem
    exact h.validId_hold hissued (h.inv.seen_le hselected.1) hrow
  · have hlength := hpage.length_eq hnext'
    rw [hread.ids, List.length_map] at hlength
    omega

/-- When nothing changes in between, there are as many pages as it takes. -/
theorem length_eq (h : Reachable c) (hl : Listing c org status pages none) {limit : ℕ}
    {ids : List String}
    (hstill : ∀ p ∈ pages, p.request.limit = limit ∧
      ∀ e, p.Selected c e → (c.shared.asOf e.seen).matchingIds org status = ids) :
    pages.length = max 1 ((ids.length + limit - 1) / limit) := by
  obtain ⟨rs, hrs, htraversal⟩ := hl.traversal h
  have hsame : Traversal.Still ids limit rs := by
    intro r hr
    obtain ⟨p, hp, hread⟩ := forall₂_mem_right hrs hr
    obtain ⟨e, hselected, hstored⟩ := hread.selected
    obtain ⟨hlimit, hids⟩ := hstill p hp
    constructor
    · rw [hstored, hids e hselected]
    · have := hread.limit
      omega
  have hall : ids.countP (fun id => (⊥ : WithBot Collated) < place id) = ids.length := by
    rw [List.countP_eq_length]
    intro id _
    exact decide_eq_true (WithBot.bot_lt_coe _)
  have hlength := htraversal.length_eq (proper h hrs) hsame
  rw [hall] at hlength
  rw [hrs.length_eq, hlength]

end Listing

/-- **A listing is complete and repeats nothing.**  The ids of the holds listed go up, and are
of the organization.  When the listing has come to its end, a hold that matched at each of its
statements is listed once.  Cursors are valid, and pages that have one are full.  When the
statements have all seen the same holds, there are as many pages as it takes to list those that
match, and one if there are none. -/
theorem listing_complete (h : Reachable c)
    (hissued : ∀ {i : Session Op}, Config.Known c i → i.op.Issued) {pages : List HoldsPage}
    (hl : Listing c org status pages cursor) :
    ((listed pages).Pairwise fun v w => (⟨v.holdId⟩ : Collated) < ⟨w.holdId⟩) ∧
    (∀ view ∈ listed pages, view.organizationId = org) ∧
    (cursor = none → ∀ {hold : String},
      (∀ p ∈ pages, ∀ e, p.Selected c e → (c.shared.asOf e.seen).Matches org status hold) →
      ((listed pages).map (·.holdId)).count hold = 1) ∧
    (∀ p ∈ pages, ∀ next ∈ p.response.nextCursor, validId next = true ∧
      (p.response.holds.length : Int) = p.request.limit) ∧
    (cursor = none → ∀ {limit : ℕ} {ids : List String},
      (∀ p ∈ pages, p.request.limit = limit ∧
        ∀ e, p.Selected c e → (c.shared.asOf e.seen).matchingIds org status = ids) →
      pages.length = max 1 ((ids.length + limit - 1) / limit)) := by
  refine ⟨?_, fun view hview => hl.organization h hview, ?_, ?_, ?_⟩
  · exact (List.pairwise_map.mp (hl.increasing h)).imp place_lt_place.mp
  · rintro rfl hold hmatches
    exact hl.once h hmatches
  · exact fun p hp next hnext => hl.next_valid h hissued hp hnext
  · rintro rfl limit ids hstill
    exact hl.length_eq h hstill

end

namespace Sample.Requests

/-- The holds `h` and `k` are created, and the active ones listed one by one. -/
def oneByOne : List Label :=
  .start (issued (.createHold (createRequest "h" "create"))) ::
      List.replicate 8 (.step 0 .done) ++
    .start (issued (.createHold (createRequest "k" "another"))) ::
      List.replicate 8 (.step 1 .done) ++
    .start (issued (.listHolds ⟨none, 1, "org", some .active⟩)) ::
      List.replicate 5 (.step 2 .done) ++
    .start (issued (.listHolds ⟨some "h", 1, "org", some .active⟩)) ::
      List.replicate 5 (.step 3 .done)

theorem issued_oneByOne {i : Session Op} (hi : Config.Known (after oneByOne) i) :
    i.op.Issued := by
  have hmem : i.op ∈ [AdminRequest.createHold (createRequest "h" "create"),
      .createHold (createRequest "k" "another"), .listHolds ⟨none, 1, "org", some .active⟩,
      .listHolds ⟨some "h", 1, "org", some .active⟩].map issued := hi.mem_ops
  obtain ⟨r, hr, heq⟩ := List.mem_map.mp hmem
  refine .inl ⟨r, "admin", "alice", ?_⟩
  rw [← heq]
  simp only [List.mem_cons, List.not_mem_nil, or_false] at hr
  rcases hr with rfl | rfl | rfl | rfl <;> rfl

/-- A page of one active hold, as a session has got it. -/
def onePage (session : ℕ) (cursor : Option String) (view : HoldView) (next : Option String) :
    HoldsPage := ⟨session, ⟨cursor, 1, "org", some .active⟩, ⟨[view], next⟩⟩

/-- The pages are selected when both holds are there. -/
theorem seen_oneByOne {p : HoldsPage} {e : Event} (h : p.Selected (after oneByOne) e)
    (hp : 2 ≤ p.session) : e.seen = 2 := by
  have hall : (after oneByOne).shared.trace.all
      (fun e => e.session.id < 2 ∨ e.seen = 2) = true := rfl
  obtain ⟨hmem, hid⟩ := List.mem_filter.mp h.1
  have hsession : e.session.id = p.session := of_decide_eq_true hid
  have hseen := List.all_eq_true.mp hall e hmem
  simp only [decide_eq_true_eq] at hseen
  omega

/-- Both holds are listed once, in two pages of one hold each. -/
theorem oneByOne_complete :
    ∃ pages, Listing (after oneByOne) "org" (some .active) pages none ∧
      ((listed pages).map (·.holdId)).count "h" = 1 ∧
      ((listed pages).map (·.holdId)).count "k" = 1 := by
  have hpages : ∃ v w,
      (onePage 2 none v (some "h")).Got (after oneByOne) "org" (some .active) none ∧
      (onePage 3 (some "h") w none).Got (after oneByOne) "org" (some .active) (some "h") :=
    ⟨_, _, ⟨rfl, rfl, rfl, rfl, rfl⟩, rfl, rfl, rfl, rfl, rfl⟩
  obtain ⟨v, w, hfirst, hsecond⟩ := hpages
  have hl := (Listing.first hfirst).page hsecond
  obtain ⟨-, -, hcomplete, -⟩ := listing_complete (reachable_after oneByOne) issued_oneByOne hl
  have hsessions : ∀ p ∈ [onePage 2 none v (some "h")] ++ [onePage 3 (some "h") w none],
      2 ≤ p.session := by simp [onePage]
  refine ⟨_, hl, hcomplete rfl ?_, hcomplete rfl ?_⟩
  · intro p hp e he
    rw [seen_oneByOne he (hsessions p hp)]
    exact ⟨_, rfl, rfl, .inr rfl⟩
  · intro p hp e he
    rw [seen_oneByOne he (hsessions p hp)]
    exact ⟨_, rfl, rfl, .inr rfl⟩

end Sample.Requests

end LegalHold
