import LegalHold.Audit
import LegalHold.Relational.Join
import LegalHold.Requests

/-!
# What a check has matched

The guard joins holds with their scopes.  A hold can cover a request twice, by a scope
for all subjects and by one for the subject asked about, and is then found twice.  So
the list that is hashed and stored has every matching hold exactly once only when no
hold covers the request twice.  How often a hold is found is settled by its revision:
the id of a decision tells the set of holds that were found, and depends on nothing else.

## Main definitions

* `Db.Exact` — every matching hold once, in the order of the ids, and no other.
* `Db.CoversTwice` — what keeps the query from that.

## Main results

* `matching_exact_iff` — **when the stored list is exact**.
* `decision_ids_faithful` — **what a decision id tells**.
-/

namespace LegalHold

open Interleave

/-! ### The query as a join -/

/-- The hold and the scope row are joined by the query of a check, for this request. -/
def RetentionCheck.joins (input : RetentionCheck) (h : HoldRow) (s : ScopeRow) : Bool :=
  s.holdId = h.holdId ∧ h.status = .active ∧ s.scopeKind = input.scopeKind ∧
    s.scopeId = input.scopeId ∧ (s.subject = none ∨ s.subject = some input.subject)

/-- The pairs that the query of a check joins, before they are put in an order. -/
def RetentionCheck.joined (input : RetentionCheck) (db : Db) : List (String × Int) :=
  Relational.join db.holds db.scopes input.joins fun h => (h.holdId, h.revision)

/-- The hold covers the request by a scope for all subjects and by one for its subject. -/
def Db.CoversTwice (db : Db) (input : RetentionCheck) (hold : String) : Prop :=
  (∃ row, db.hold? hold = some row ∧ row.status = .active) ∧
    ∀ scope ∈ input.scopes, db.HasScope hold scope

section

variable [Backend] {c : Config} {db : Db} {input : RetentionCheck}

/-- The rows have each active hold that covers the request once, with its revision, in the
order of the ids, and nothing else. -/
structure Db.Exact (db : Db) (input : RetentionCheck) (rows : List (String × Int)) : Prop where
  increasing : rows.Pairwise fun a b => (⟨a.1⟩ : Collated) < ⟨b.1⟩
  mem_iff : ∀ hold revision, (hold, revision) ∈ rows ↔
    ∃ row, db.hold? hold = some row ∧ row.status = .active ∧ row.revision = revision ∧
      ∃ scope ∈ input.scopes, db.HasScope hold scope

theorem RetentionCheck.found_perm (input : RetentionCheck) (db : Db) :
    (input.found db).Perm (input.joined db) := List.perm_insertionSort _ _

theorem RetentionCheck.found_sorted (input : RetentionCheck) (db : Db) :
    (input.found db).Pairwise fun a b => (⟨a.1⟩ : Collated) ≤ ⟨b.1⟩ :=
  haveI : Std.Total fun a b : String × Int => (⟨a.1⟩ : Collated) ≤ ⟨b.1⟩ :=
    ⟨fun a b => le_total (⟨a.1⟩ : Collated) ⟨b.1⟩⟩
  haveI : IsTrans (String × Int) fun a b => (⟨a.1⟩ : Collated) ≤ ⟨b.1⟩ :=
    ⟨fun _ _ _ hab hbc => le_trans hab hbc⟩
  List.pairwise_insertionSort _ _

/-- A hold that is found, once or more often, is found with one revision. -/
theorem Db.Coherent.found_ties (hdb : db.Coherent) :
    ∀ a ∈ input.found db, ∀ b ∈ input.found db,
      (⟨a.1⟩ : Collated) = ⟨b.1⟩ → a = b := by
  rintro ⟨hold, revision⟩ ha ⟨hold', revision'⟩ hb heq
  obtain rfl : hold = hold' := congrArg Collated.text heq
  obtain ⟨row, hrow, -, rfl, -⟩ := (Server.mem_matching_iff hdb).mp ha
  obtain ⟨row', hrow', -, rfl, -⟩ := (Server.mem_matching_iff hdb).mp hb
  cases hrow.symm.trans hrow'
  rfl

omit [Backend] in
theorem Db.Coherent.scopes_nodup (hdb : db.Coherent) (hold : String) :
    ((db.scopesOf hold).map (·.toScope)).Nodup := by
  cases hr : db.hold? hold with
  | none =>
    rw [hdb.orphan hold hr]
    exact List.nodup_nil
  | some row =>
    have hreplay := hdb.replayed hold
    rw [Db.record?_eq_some hr] at hreplay
    have hnodup := Record.scopes_nodup (hdb.lawful hold) hreplay
    simpa [HoldRow.record, Function.comp_def] using hnodup

omit [Backend] in
/-- The columns that the query selects tell the holds apart. -/
theorem Db.Coherent.selected_nodup (hdb : db.Coherent) :
    (db.holds.map fun h => (h.holdId, h.revision)).Nodup := by
  have hids := hdb.holds_nodup
  refine List.Nodup.of_map Prod.fst ?_
  simpa [Function.comp_def] using hids

omit [Backend] in
/-- The partners of an active hold are its scopes among those of the request. -/
theorem RetentionCheck.partners_eq {row : HoldRow} (hactive : row.status = .active) :
    db.scopes.filter (input.joins row) =
      (db.scopesOf row.holdId).filter fun s => s.toScope ∈ input.scopes := by
  unfold Db.scopesOf
  rw [List.filter_filter]
  refine List.filter_congr fun s _ => ?_
  unfold RetentionCheck.joins
  rw [Bool.eq_iff_iff]
  simp only [hactive, true_and, decide_eq_true_eq, Bool.and_eq_true, RetentionCheck.mem_scopes]
  tauto

omit [Backend] in
/-- A hold has one partner at most unless it covers the request twice. -/
theorem Db.Coherent.partners_le_one_iff (hdb : db.Coherent) :
    (∀ row ∈ db.holds, (db.scopes.filter (input.joins row)).length ≤ 1) ↔
      ∀ hold, ¬ db.CoversTwice input hold := by
  have hone : ∀ {row : HoldRow}, row.status = .active →
      ((db.scopes.filter (input.joins row)).length ≤ 1 ↔
        ¬ ∀ scope ∈ input.scopes, db.HasScope row.holdId scope) := by
    intro row hactive
    have hlen : (db.scopes.filter (input.joins row)).length =
        (((db.scopesOf row.holdId).map (·.toScope)).filter fun s => s ∈ input.scopes).length := by
      rw [RetentionCheck.partners_eq hactive, List.filter_map, List.length_map]
      rfl
    have hhas : ∀ {scope : Scope}, db.HasScope row.holdId scope ↔
        scope ∈ (db.scopesOf row.holdId).map (·.toScope) := List.mem_map.symm
    have hpair := Relational.length_filter_pair_le_one (hdb.scopes_nodup row.holdId)
      (a := ⟨input.scopeKind, input.scopeId, none⟩)
      (b := ⟨input.scopeKind, input.scopeId, some input.subject⟩) (by simp)
    rw [hlen]
    refine hpair.trans (not_congr ?_)
    simp only [RetentionCheck.scopes, List.forall_mem_cons, hhas, List.not_mem_nil, false_implies,
      implies_true, and_true]
  constructor
  · rintro hle hold ⟨⟨row, hrow, hactive⟩, hboth⟩
    have hid := Db.holdId_of_hold? hrow
    subst hid
    exact (hone hactive).mp (hle row (List.mem_of_find?_eq_some hrow)) hboth
  · intro hno row hrow
    cases hs : row.status with
    | active =>
      refine (hone hs).mpr fun hboth => hno row.holdId ⟨⟨row, ?_, hs⟩, hboth⟩
      exact Db.hold?_of_mem hdb.holds_nodup hrow
    -- A released hold has none.
    | released =>
      have hnone : db.scopes.filter (input.joins row) = [] := by
        refine List.filter_eq_nil_iff.mpr fun s _ => ?_
        simp [RetentionCheck.joins, hs]
      rw [hnone]
      exact Nat.zero_le 1

/-- **The query is exact when no hold covers the request twice.** -/
theorem Db.Coherent.exact_iff (hdb : db.Coherent) :
    db.Exact input (input.found db) ↔ ∀ hold, ¬ db.CoversTwice input hold := by
  have hincreasing : db.Exact input (input.found db) ↔
      (input.found db).Pairwise fun a b => (⟨a.1⟩ : Collated) < ⟨b.1⟩ :=
    ⟨fun h => h.increasing, fun h => ⟨h, fun _ _ => Server.mem_matching_iff hdb⟩⟩
  have hnodup : (input.found db).Nodup ↔ (input.joined db).Nodup :=
    (input.found_perm db).nodup_iff
  rw [hincreasing, Relational.pairwise_lt_iff hdb.found_ties (input.found_sorted db), hnodup]
  exact (Relational.nodup_join_iff hdb.selected_nodup).trans hdb.partners_le_one_iff

/-- **When the stored list is exact.**  In every state and for every request the rows found
are exact if and only if no active hold covers the request both for all subjects and for
its own; they are what is hashed and stored. -/
theorem matching_exact_iff (h : Reachable c) :
    (∀ input : RetentionCheck, ∃ rows,
      (c.shared.pool (.matchHolds input.scopeKind input.scopeId input.subject)).2 = .ok rows ∧
      (c.shared.db.Exact input rows ↔ ∀ hold, ¬ c.shared.db.CoversTwice input hold)) ∧
    ∀ row ∈ c.shared.decisions, ∃ input n rows,
      row = guardRow input rows row.evaluatedAt ∧ rows = input.found (c.shared.asOf n) ∧
      ((c.shared.asOf n).Exact input rows ↔
        ∀ hold, ¬ (c.shared.asOf n).CoversTwice input hold) := by
  refine ⟨fun input => ⟨_, rfl, h.now_coherent.exact_iff⟩, fun row hrow => ?_⟩
  obtain ⟨j, input, p, n, f, m, -, -, -, heq⟩ := h.proposed hrow
  exact ⟨input, n, _, heq, rfl, (h.coherent n).exact_iff⟩

end

namespace Sample.Twofold

/-- SHA-256 of the request to put `f` under `h` for Bob, and of the evidence of a check that finds
`h` twice. -/
def digest : Json → List UInt8
  | .obj [("organization_id", .str "org"), ("hold_id", .str "h"), ("scope_kind", .str "file"),
      ("scope_id", .str "f"), ("subject", .str "bob"), ("expected_revision", .str "2"),
      ("idempotency_key", .str "narrow")] =>
    [218, 236, 107, 122, 149, 117, 37, 206, 66, 20, 110, 128, 242, 195, 132, 168, 21, 118, 221,
      231, 168, 91, 22, 192, 169, 233, 230, 81, 38, 216, 176, 76]
  | .obj [("caller", .str "retention"), ("action_id", .str "a"), ("scope_kind", .str "file"),
      ("scope_id", .str "f"), ("subject", .str "bob"), ("mode", .str "delete"),
      ("reason", .str "cleanup"), ("matching_holds", .arr
        [.obj [("hold_id", .str "h"), ("revision", .str "3")],
          .obj [("hold_id", .str "h"), ("revision", .str "3")]])] =>
    [238, 131, 76, 26, 229, 106, 27, 150, 206, 89, 188, 135, 197, 223, 44, 249, 244, 17, 62, 105,
      31, 126, 124, 63, 242, 39, 79, 146, 141, 252, 185, 240]
  | v => requestDigest v

/-- The backend in which the values of this run have their real digests. -/
scoped instance twofold : Backend := { backend with digest := digest }

/-- The hold `h` is created and put on `f`, at first for all subjects. -/
def widely : List Label :=
  .start (issued (.createHold (createRequest "h" "create"))) ::
      List.replicate 8 (.step 0 .done) ++
    .start (issued (.addScope ⟨"org", "h", "file", "f", none, "1", "add"⟩)) ::
      List.replicate 10 (.step 1 .done)

/-- The schedule goes on: the hold is put on `f` for Bob, and the guard is asked about Bob. -/
def twofoldly : List Label :=
  widely ++ .start (issued (.addScope ⟨"org", "h", "file", "f", some "bob", "2", "narrow"⟩)) ::
      List.replicate 10 (.step 2 .done) ++
    .start (.checkRetention question) :: List.replicate 2 (.step 3 .done)

/-- A hold that covers the request twice is listed twice. -/
theorem listed_twice :
    Reachable (after twofoldly) ∧
      (after twofoldly).shared.decisions.map (·.matchingHolds) =
        [matchingHolds [("h", 3), ("h", 3)]] ∧
      question.found (after twofoldly).shared.db = [("h", 3), ("h", 3)] ∧
      ¬ (after twofoldly).shared.db.Exact question [("h", 3), ("h", 3)] := by
  refine ⟨reachable_after _, rfl, rfl, fun hexact => ?_⟩
  have hlt := List.rel_of_pairwise_cons hexact.increasing List.mem_cons_self
  exact lt_irrefl _ hlt

/-- Held for all subjects only, it is listed once. -/
theorem listed_once :
    (after widely).shared.db.Exact question (question.found (after widely).shared.db) := by
  obtain ⟨rows, hrows, hiff⟩ := (matching_exact_iff (reachable_after widely)).1 question
  obtain rfl : question.found (after widely).shared.db = rows := Except.ok.inj hrows
  refine hiff.mpr ?_
  rintro hold ⟨-, hboth⟩
  obtain ⟨row, hrow, hscope⟩ := hboth _ (List.mem_cons_of_mem _ List.mem_cons_self)
  have hall : (after widely).shared.db.scopes.all (fun row => row.subject = none) = true := rfl
  have hnone := List.all_eq_true.mp hall row (List.mem_filter.mp hrow).1
  rw [hscope] at hnone
  cases of_decide_eq_true hnone

end Sample.Twofold

section

variable [Backend] {c : Config} {db : Db} {input : RetentionCheck}

/-! ### What settles the rows -/

/-- A hold is found once for each of its scopes among those of the request. -/
theorem Db.Coherent.count_found (hdb : db.Coherent) {hold : String} {row : HoldRow}
    (hrow : db.hold? hold = some row) (hactive : row.status = .active) :
    (input.found db).count (hold, row.revision) =
      ((db.scopesOf hold).filter fun s => s.toScope ∈ input.scopes).length := by
  obtain rfl := Db.holdId_of_hold? hrow
  rw [(input.found_perm db).count_eq]
  refine (Relational.count_join hdb.selected_nodup (List.mem_of_find?_eq_some hrow)).trans ?_
  rw [RetentionCheck.partners_eq hactive]

/-- **The set of holds found settles the rows**: at two moments of a run a hold has the same
revision only with the same scopes. -/
theorem Reachable.found_eq (h : Reachable c) {n m : ℕ}
    (hset : ∀ entry, entry ∈ input.found (c.shared.asOf n) ↔
      entry ∈ input.found (c.shared.asOf m)) :
    input.found (c.shared.asOf n) = input.found (c.shared.asOf m) := by
  -- One of the two moments is the earlier one.
  wlog hnm : n ≤ m generalizing n m
  · exact (this (fun entry => (hset entry).symm) (Nat.le_of_not_le hnm)).symm
  have hdb := h.coherent n
  have hdb' := h.coherent m
  refine Relational.eq_of_perm_of_ties ?_ hdb'.found_ties (input.found_sorted _)
    (input.found_sorted _)
  refine List.perm_iff_count.mpr fun entry => ?_
  by_cases hmem : entry ∈ input.found (c.shared.asOf n)
  · obtain ⟨hold, revision⟩ := entry
    obtain ⟨row, hrow, hactive, rfl, -⟩ := (Server.mem_matching_iff hdb).mp hmem
    obtain ⟨row', hrow', hactive', hrev, -⟩ := (Server.mem_matching_iff hdb').mp ((hset _).mp hmem)
    obtain ⟨row'', hrow'', -, hsame⟩ := h.same_revision hnm hrow
    cases hrow'.symm.trans hrow''
    have hcount : (input.found (c.shared.asOf m)).count (_, row'.revision) = _ :=
      hdb'.count_found hrow' hactive'
    rw [hrev] at hcount
    rw [hdb.count_found hrow hactive, hcount, (hsame hrev).2]
  · rw [List.count_eq_zero.mpr hmem, List.count_eq_zero.mpr fun hmem' => hmem ((hset _).mpr hmem')]

/-- **The physical order does not matter**: whatever order the tables are in, and whatever the
database does with rows of the same hold, the rows are those found. -/
theorem Db.Coherent.found_of_perm (hdb : db.Coherent) {db' : Db} {rows : List (String × Int)}
    (hholds : db'.holds.Perm db.holds) (hscopes : db'.scopes.Perm db.scopes)
    (hrows : rows.Perm (input.joined db'))
    (hsorted : rows.Pairwise fun a b => (⟨a.1⟩ : Collated) ≤ ⟨b.1⟩) : rows = input.found db := by
  have hjoined : (input.joined db').Perm (input.joined db) := Relational.join_perm hholds hscopes
  exact Relational.eq_of_perm_of_ties (hrows.trans (hjoined.trans (input.found_perm db).symm))
    hdb.found_ties (input.found_sorted db) hsorted

/-! ### Decision ids -/

omit [Backend] in
/-- The evidence tells the request and the rows. -/
theorem evidence_injective {input' : RetentionCheck} {rows rows' : List (String × Int)}
    (h : evidence input rows = evidence input' rows') : input = input' ∧ rows = rows' := by
  have hrows := matchingHolds_injective (evidence_matchingHolds h)
  unfold evidence at h
  simp only [Json.obj.injEq, List.cons.injEq, Prod.mk.injEq, true_and, and_true,
    Json.str.injEq] at h
  obtain ⟨hcaller, haction, hkind, hid, hsubject, hmode, hreason, -⟩ := h
  cases input
  cases input'
  simp only at hcaller haction hkind hid hsubject hmode hreason
  subst hcaller haction hkind hid hsubject hmode hreason
  exact ⟨rfl, hrows⟩

/-- What a check that has returned a decision has found. -/
theorem Reachable.evaluated (h : Reachable c) {i : ℕ} {d : GuardDecision}
    (hr : Returned c i (.checkRetention input) (.ok (.decision d))) :
    ∃ n ≤ c.shared.log.length, d = guardDecision input (input.found (c.shared.asOf n)) ∧
      (⟨⟨i, .checkRetention input⟩, input.query, .done, n⟩ : Event) ∈ c.shared.trace := by
  have hprogress := h.progress hr
  cases hprogress with
  | aborted gone events =>
    obtain ⟨e, he⟩ := gone _ rfl
    cases he
  | @proposed n m f r seen events answer =>
    rcases answer with ⟨-, heq⟩ | ⟨-, e, heq⟩
    · cases heq
      refine ⟨n, seen, rfl, ?_⟩
      have hmem : (⟨⟨i, .checkRetention input⟩, input.query, .done, n⟩ : Event) ∈
          c.shared.eventsOf ⟨i, .checkRetention input⟩ := by
        rw [events]
        exact List.mem_cons_self
      exact (List.mem_filter.mp hmem).1
    · cases heq

/-- **What a decision id tells.**  Two evaluations of a run, each at the moment its query ran,
have returned the same id exactly when the requests are the same and so are the sets of holds
found, with their revisions; then they have decided the same.  The physical order of tables and
rows has no part in it. -/
theorem decision_ids_faithful (h : Reachable c) (hfree : CollisionFree c.shared) {i j : ℕ}
    {input' : RetentionCheck} {d d' : GuardDecision}
    (hr : Returned c i (.checkRetention input) (.ok (.decision d)))
    (hr' : Returned c j (.checkRetention input') (.ok (.decision d'))) :
    ∃ n ≤ c.shared.log.length, ∃ m ≤ c.shared.log.length,
      (⟨⟨i, .checkRetention input⟩, input.query, .done, n⟩ : Event) ∈ c.shared.trace ∧
      (⟨⟨j, .checkRetention input'⟩, input'.query, .done, m⟩ : Event) ∈ c.shared.trace ∧
      (d.decisionId = d'.decisionId ↔ input = input' ∧ ∀ entry,
        entry ∈ input.found (c.shared.asOf n) ↔ entry ∈ input'.found (c.shared.asOf m)) ∧
      (d.decisionId = d'.decisionId → d.allowed = d'.allowed ∧ d.reasonCode = d'.reasonCode) ∧
      ∀ {db : Db} {rows : List (String × Int)}, db.holds.Perm (c.shared.asOf n).holds →
        db.scopes.Perm (c.shared.asOf n).scopes → rows.Perm (input.joined db) →
        rows.Pairwise (fun a b => (⟨a.1⟩ : Collated) ≤ ⟨b.1⟩) →
        (guardDecision input rows).decisionId = d.decisionId := by
  obtain ⟨n, hn, rfl, hquery⟩ := h.evaluated hr
  obtain ⟨m, hm, rfl, hquery'⟩ := h.evaluated hr'
  -- Equal ids come from equal digests, and these from equal evidence.
  have hid : ∀ {rows rows' : List (String × Int)},
      c.shared.Hashes (evidence input rows) → c.shared.Hashes (evidence input' rows') →
      (guardDecision input rows).decisionId = (guardDecision input' rows').decisionId →
      input = input' ∧ rows = rows' := fun hv hv' heq =>
    evidence_injective (hfree hv hv' (decisionId_injective heq))
  have hhashes := hid ⟨_, hquery, input, rfl, rfl, rfl⟩ ⟨_, hquery', input', rfl, rfl, rfl⟩
  refine ⟨n, hn, m, hm, hquery, hquery', ⟨fun heq => ?_, ?_⟩, fun heq => ?_, ?_⟩
  · obtain ⟨rfl, hrows⟩ := hhashes heq
    have hfound : input.found (c.shared.asOf n) = input.found (c.shared.asOf m) := hrows
    exact ⟨rfl, fun entry => by rw [hfound]⟩
  · rintro ⟨rfl, hset⟩
    rw [h.found_eq hset]
  · obtain ⟨rfl, hrows⟩ := hhashes heq
    have hfound : input.found (c.shared.asOf n) = input.found (c.shared.asOf m) := hrows
    rw [hfound]
    exact ⟨rfl, rfl⟩
  -- The query has one result for each set of rows, in whatever order they are stored.
  · intro db rows hholds hscopes hrows hsorted
    rw [(h.coherent n).found_of_perm hholds hscopes hrows hsorted]

end

namespace Sample

/-- The first and the third evaluation have the same id, for they have found the same. -/
theorem unheldAgain_faithful :
    ∃ n m, (⟨⟨1, .checkRetention question⟩, question.query, .done, n⟩ : Event) ∈
        (after unheldAgain).shared.trace ∧
      (⟨⟨5, .checkRetention question⟩, question.query, .done, m⟩ : Event) ∈
        (after unheldAgain).shared.trace ∧
      ∀ entry, entry ∈ question.found ((after unheldAgain).shared.asOf n) ↔
        entry ∈ question.found ((after unheldAgain).shared.asOf m) := by
  have hr : Returned (after unheldAgain) 1 (.checkRetention question)
      (.ok (.decision (guardDecision question []))) := rfl
  have hr' : Returned (after unheldAgain) 5 (.checkRetention question)
      (.ok (.decision (guardDecision question []))) := rfl
  obtain ⟨n, -, m, -, hquery, hquery', hiff, -⟩ :=
    decision_ids_faithful (reachable_after unheldAgain) (collisionFree_of rfl) hr hr'
  exact ⟨n, m, hquery, hquery', (hiff.mp rfl).2⟩

end Sample

end LegalHold
