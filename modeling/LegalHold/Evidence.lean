import LegalHold.Guard

/-!
# The evidence of the guard

Every decision of the guard is stored before it is returned, under an id that is
the digest of what it was made from.  A decision whose id is there already is not
stored again: as long as digests do not collide, what is there says the same.

## Main definitions

* `Server.Hashes`, `CollisionFree` — what has been hashed, and that no two
  different values of it have the same digest.

## Main results

* `evidence_matchingHolds` — the evidence tells the holds that matched.
* `Reachable.eventsOf_mono` — a recorded revision names the same events later on.
* `guard_evidence_durable` — **a returned decision is on record**, the record does
  not change, and it can be checked against the activity of the holds it names.
-/

namespace LegalHold

open Interleave Timeline

/-! ### What identifies a decision -/

theorem matchingHolds_eq_nil {rows : List (String × Int)} :
    matchingHolds rows = .arr [] ↔ rows = [] := by
  unfold matchingHolds
  simp

theorem isEmpty_of_matchingHolds {rows rows' : List (String × Int)}
    (h : matchingHolds rows = matchingHolds rows') : rows.isEmpty = rows'.isEmpty := by
  have hiff : rows = [] ↔ rows' = [] := by
    rw [← matchingHolds_eq_nil, ← matchingHolds_eq_nil, h]
  rw [Bool.eq_iff_iff, List.isEmpty_iff, List.isEmpty_iff, hiff]

/-- The evidence that is hashed tells which holds have matched: two evaluations with one evidence
list the same holds. -/
theorem evidence_matchingHolds {input input' : RetentionCheck} {rows rows' : List (String × Int)}
    (h : evidence input rows = evidence input' rows') :
    matchingHolds rows = matchingHolds rows' := by
  unfold evidence at h
  simp only [Json.obj.injEq, List.cons.injEq, Prod.mk.injEq, true_and, and_true] at h
  obtain ⟨-, -, -, -, -, -, -, h⟩ := h
  exact h

/-- The id of a decision tells the digest. -/
theorem decisionId_injective {x y : List UInt8} (h : decisionId x = decisionId y) : x = y :=
  hexEncode_injective ((String.append_right_inj "guard:").mp h)

section

variable [Backend] {c c' : Config}

/-- A check of the run has hashed this value. -/
def Server.Hashes (srv : Server) (v : Json) : Prop :=
  ∃ e ∈ srv.trace, ∃ input, e.session.op = .checkRetention input ∧
    e.stmt = .pool (.matchHolds input.scopeKind input.scopeId input.subject) ∧
    v = evidence input
      (Server.matching (srv.asOf e.seen) input.scopeKind input.scopeId input.subject)

/-- No two values hashed in the run have the same digest. -/
def CollisionFree (srv : Server) : Prop :=
  ∀ {v v' : Json}, srv.Hashes v → srv.Hashes v' → Backend.digest v = Backend.digest v' → v = v'

/-- A row of a decision says the same three times: it allows, it lists no hold, and it gives no
reason. -/
theorem guardRow_consistent (input : RetentionCheck) (rows : List (String × Int)) (now : Time) :
    ((guardRow input rows now).allowed = true ↔ (guardRow input rows now).matchingHolds = .arr []) ∧
      ((guardRow input rows now).matchingHolds = .arr [] ↔
        (guardRow input rows now).reasonCode = none) := by
  unfold guardRow guardDecision
  simp only [matchingHolds_eq_nil]
  cases rows with
  | nil => simp
  | cons first rest => simp

/-- Every stored row of a decision was computed by a check from holds that matched in a committed
state. -/
theorem Reachable.justified (h : Reachable c) {row : DecisionRow}
    (hrow : row ∈ c.shared.decisions) : c.shared.Justifies row := h.inv.decisions row hrow

/-- A hold's first events stay its first events. -/
theorem Reachable.eventsOf_mono (h : Reachable c) {n m : ℕ} (hnm : n ≤ m) (hold : String) :
    (c.shared.asOf n).eventsOf hold <+: (c.shared.asOf m).eventsOf hold := by
  refine h.preserves (P := fun db => (c.shared.asOf n).eventsOf hold <+: db.eventsOf hold) hnm
    (List.prefix_refl _) ?_
  intro db t cmd ws activityId view _ hm hle
  exact hle.trans (hm.eventsOf_mono hold)

/-- **A recorded revision can be checked later on**: that many events of the hold
still tell the hold the guard has found. -/
theorem Reachable.recorded (h : Reachable c) {m : ℕ} (hm : m ≤ c.shared.log.length)
    {input : RetentionCheck} {hold : String} {revision : Int}
    (hmem : (hold, revision) ∈
      Server.matching (c.shared.asOf m) input.scopeKind input.scopeId input.subject) :
    ∃ (k : ℕ) (r : Record), revision = k ∧ k ≤ (c.shared.db.eventsOf hold).length ∧
      Record.law.replay ((c.shared.db.eventsOf hold).take k) = some r ∧ r.status = .active ∧
      ∃ scope ∈ input.scopes, r.Covers scope := by
  have hdb := h.coherent m
  obtain ⟨row, hr, hactive, rfl, scope, hscope, hhas⟩ := (Server.mem_matching_iff hdb).mp hmem
  have hrev := hdb.revision_eq hr
  rw [← hdb.length_eventsOf] at hrev
  have hreplay := hdb.replayed hold
  rw [Db.record?_eq_some hr] at hreplay
  -- The revision counts the events there were, and those are still the first ones.
  obtain ⟨more, hmore⟩ := h.eventsOf_mono hm hold
  rw [← h.db_eq] at hmore
  refine ⟨_, _, hrev, ?_, ?_, hactive, scope, hscope, HoldRow.covers_record.mpr hhas⟩
  · rw [← hmore, List.length_append]
    omega
  · rw [← hmore, List.take_left']
    · exact hreplay
    · rfl

/-- **The evidence of the guard is durable.**  A decision is returned only when a row under its
id is stored that says the same of the holds which the query of the check has found, stored rows
stay, each of them is consistent in itself, and the revisions it names are states of the holds
that did match. -/
theorem guard_evidence_durable (h : Reachable c) (hfree : CollisionFree c.shared) :
    (∀ {j : ℕ} {input : RetentionCheck} {d : GuardDecision},
      Returned c j (.checkRetention input) (.ok (.decision d)) →
      AllDone c.shared ⟨j, .checkRetention input⟩ ∧
      ∃ e ∈ c.shared.eventsOf ⟨j, .checkRetention input⟩,
        e.stmt = .pool (.matchHolds input.scopeKind input.scopeId input.subject) ∧ ∃ rows,
        rows = Server.matching (c.shared.asOf e.seen) input.scopeKind input.scopeId
          input.subject ∧
        d = guardDecision input rows ∧
        ∃ row ∈ c.shared.decisions, row.decisionId = d.decisionId ∧ row.allowed = d.allowed ∧
          row.reasonCode = d.reasonCode ∧ row.matchingHolds = matchingHolds rows) ∧
    (∀ {c' : Config}, Later c c' → c.shared.decisions <+: c'.shared.decisions) ∧
    (∀ row ∈ c.shared.decisions, (row.allowed = true ↔ row.matchingHolds = .arr []) ∧
      (row.matchingHolds = .arr [] ↔ row.reasonCode = none)) ∧
    ∀ row ∈ c.shared.decisions, ∃ e ∈ c.shared.trace, ∃ input rows,
      e.session.op = .checkRetention input ∧
      e.stmt = .pool (.matchHolds input.scopeKind input.scopeId input.subject) ∧
      rows = Server.matching (c.shared.asOf e.seen) input.scopeKind input.scopeId input.subject ∧
      row = guardRow input rows row.evaluatedAt ∧
      ∀ entry ∈ rows, ∃ (k : ℕ) (r : Record), entry.2 = k ∧
        k ≤ (c.shared.db.eventsOf entry.1).length ∧
        Record.law.replay ((c.shared.db.eventsOf entry.1).take k) = some r ∧
        r.status = .active ∧ ∃ scope ∈ input.scopes, r.Covers scope := by
  refine ⟨?_, fun hlater => hlater.grown.decisions, ?_, ?_⟩
  · intro j input d hr
    obtain ⟨hdone, d', e, heq, hchecked⟩ := returned_post h hr _ rfl
    cases heq
    refine ⟨hdone, e, hchecked.mem, hchecked.stmt, _, rfl, hchecked.decision, ?_⟩
    -- `ON CONFLICT DO NOTHING` may have met a row that another check has stored.
    obtain ⟨row, hrow, hid⟩ := hchecked.stored
    obtain ⟨e', he', input', hop', hstmt', heq'⟩ := h.justified hrow
    -- equal ids are equal digests, and those are of equal evidence
    have hhash : c.shared.Hashes (evidence input
        (Server.matching (c.shared.asOf e.seen) input.scopeKind input.scopeId input.subject)) :=
      ⟨e, (List.mem_filter.mp hchecked.mem).1, input,
        congrArg Session.op (h.session_eq (Config.known_of_returned hr) hchecked.mem),
        hchecked.stmt, rfl⟩
    have hhash' : c.shared.Hashes (evidence input' (Server.matching (c.shared.asOf e'.seen)
        input'.scopeKind input'.scopeId input'.subject)) :=
      ⟨e', he', input', hop', hstmt', rfl⟩
    have hdigest := decisionId_injective ((congrArg DecisionRow.decisionId heq').symm.trans
      (hid.trans (congrArg GuardDecision.decisionId hchecked.decision)))
    have hmatching := evidence_matchingHolds (hfree hhash' hhash hdigest)
    have hempty := isEmpty_of_matchingHolds hmatching
    refine ⟨row, hrow, hid, ?_, ?_, ?_⟩
    · rw [heq', hchecked.decision]
      exact hempty
    · rw [heq', hchecked.decision]
      unfold guardRow guardDecision
      rw [hempty]
    · rw [heq']
      exact hmatching
  · intro row hrow
    obtain ⟨e, he, input, -, -, heq⟩ := h.justified hrow
    rw [heq]
    exact guardRow_consistent input _ _
  · intro row hrow
    obtain ⟨e, he, input, hop, hstmt, heq⟩ := h.justified hrow
    refine ⟨e, he, input, _, hop, hstmt, rfl, heq, fun entry hentry => ?_⟩
    exact h.recorded (h.inv.seen e he) hentry

end

namespace Sample

/-- The guard is asked twice while `f` is under `h`, and once more after `f` has been taken out. -/
def askedAgain : Config :=
  after (holding ++ .start (.checkRetention question) :: steps 2 2 ++
    .start (.checkRetention question) :: steps 3 2 ++ .start (remove 2) :: steps 4 10 ++
    .start (.checkRetention question) :: steps 5 2)

/-- The evidence of the first two evaluations is the same, and that of the third has another
digest. -/
theorem askedAgain_collisionFree : CollisionFree askedAgain.shared := by
  have htwo : ∀ {v : Json}, Server.Hashes askedAgain.shared v →
      v = evidence question [("h", 2)] ∨ v = evidence question [] := by
    rintro v ⟨e, he, input, hop, -, rfl⟩
    have hall : (Server.trace askedAgain.shared).all (fun e => match e.session.op with
        | .checkRetention input => decide (input = question ∧ (e.seen = 2 ∨ e.seen = 3))
        | _ => true) = true := rfl
    have hthis := List.all_eq_true.mp hall e he
    rw [hop] at hthis
    obtain ⟨rfl, hseen | hseen⟩ := of_decide_eq_true hthis
    · rw [hseen]
      exact .inl rfl
    · rw [hseen]
      exact .inr rfl
  intro v v' hv hv' hdigest
  rcases htwo hv with rfl | rfl <;> rcases htwo hv' with rfl | rfl
  · rfl
  · exact absurd hdigest (by decide)
  · exact absurd hdigest (by decide)
  · rfl

/-- The second decision is on record, in the row that the first evaluation has stored, and so is
the third in a row of its own. -/
theorem askedAgain_recorded :
    (Server.decisions askedAgain.shared).length = 2 ∧
      (∃ row ∈ Server.decisions askedAgain.shared, row.allowed = false ∧
        row.matchingHolds = matchingHolds [("h", 2)]) ∧
      ∃ row ∈ Server.decisions askedAgain.shared, row.allowed = true ∧
        row.matchingHolds = .arr [] := by
  obtain ⟨hstored, -, hconsistent, -⟩ :=
    guard_evidence_durable (c := askedAgain) (reachable_after _) askedAgain_collisionFree
  refine ⟨rfl, ?_, ?_⟩
  · have hr : ∃ d : GuardDecision, d.allowed = false ∧
        Returned askedAgain 3 (.checkRetention question) (.ok (.decision d)) := ⟨_, rfl, rfl⟩
    obtain ⟨d, hd, hr⟩ := hr
    obtain ⟨-, e, he, -, rows, hrows, -, row, hrow, -, hallowed, -, hmatching⟩ := hstored hr
    have hseen : e.seen = 2 := by
      have hall : (Server.eventsOf askedAgain.shared ⟨3, .checkRetention question⟩).all
          (fun e => decide (e.seen = 2)) = true := rfl
      exact of_decide_eq_true (List.all_eq_true.mp hall e he)
    refine ⟨row, hrow, hallowed.trans hd, ?_⟩
    rw [hmatching, hrows, hseen]
    rfl
  · have hr : ∃ d : GuardDecision, d.allowed = true ∧
        Returned askedAgain 5 (.checkRetention question) (.ok (.decision d)) := ⟨_, rfl, rfl⟩
    obtain ⟨d, hd, hr⟩ := hr
    obtain ⟨-, -, -, -, -, -, -, row, hrow, -, hallowed, -⟩ := hstored hr
    have hrowAllowed : row.allowed = true := hallowed.trans hd
    exact ⟨row, hrow, hrowAllowed, (hconsistent row hrow).1.mp hrowAllowed⟩

end Sample

end LegalHold
