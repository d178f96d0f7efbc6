import LegalHold.Evidence
import LegalHold.Tenants

/-!
# Who governs a guard decision

The guard looks for holds by the tuple of their scopes, and an organization may
put any tuple under a hold of its own, also one that names another organization.
So what one organization does can block what another wants to delete.  It can do
so through its own holds only: what the holds of the others match is not
changed.

## Main definitions

* `Server.Matches` — what the guard finds in a committed state, hold by hold.
* `CommitsOf` — the commits in between are of one organization.

## Main results

* `Reachable.other_matches` — commits of an organization do not change what the
  holds of others match.
* `governed_by_own_holds` — **an organization changes a guard decision through
  its own holds only**.
-/

namespace LegalHold

open Interleave

section

variable [Backend] {c : Config}

/-- An active hold of the organization `org` matches the question in the state after the first
`m` commits, at this revision. -/
def Server.Matches (srv : Server) (m : ℕ) (input : RetentionCheck) (org hold : String)
    (revision : Int) : Prop :=
  (hold, revision) ∈
      Server.matching (srv.asOf m) input.scopeKind input.scopeId input.subject ∧
    ∃ row, (srv.asOf m).hold? hold = some row ∧ row.organizationId = org

/-- The commits from the `k`-th to before the `m`-th are of the organization `org`. -/
def CommitsOf (srv : Server) (org : String) (k m : ℕ) : Prop :=
  ∀ n cmd view, k ≤ n → n < m → srv.Commit n cmd view → cmd.organizationId = org

/-- **Commits of an organization leave the holds of others as they are.** -/
theorem Reachable.other_holds (h : Reachable c) {org : String} {k m : ℕ} (hkm : k ≤ m)
    (hm : m ≤ c.shared.log.length) (hof : CommitsOf c.shared org k m) {hold : String}
    {row : HoldRow} (hrow : (c.shared.asOf k).hold? hold = some row ∨
      (c.shared.asOf m).hold? hold = some row) (horg : row.organizationId ≠ org) :
    (c.shared.asOf m).hold? hold = (c.shared.asOf k).hold? hold ∧
      (c.shared.asOf m).scopesOf hold = (c.shared.asOf k).scopesOf hold := by
  revert hof hrow
  refine h.commit_induction_from (k := k) (P := fun m => CommitsOf c.shared org k m →
    ((c.shared.asOf k).hold? hold = some row ∨ (c.shared.asOf m).hold? hold = some row) →
    (c.shared.asOf m).hold? hold = (c.shared.asOf k).hold? hold ∧
      (c.shared.asOf m).scopesOf hold = (c.shared.asOf k).scopesOf hold) ?_ ?_ hkm hm
  · intro _ _
    exact ⟨rfl, rfl⟩
  · intro n t cmd ws activityId view hkn ih hc hmut hsucc hof hrow
    have hcmd := hof n cmd view hkn (Nat.lt_succ_self n) hc
    have hbefore : CommitsOf c.shared org k n := fun n' cmd' view' hk hlt =>
      hof n' cmd' view' hk (Nat.lt_succ_of_lt hlt)
    rw [hsucc] at hrow ⊢
    rw [← hcmd] at horg
    -- The row is there before the commit or after it, and in both cases it belongs to another
    -- organization.
    rcases hrow with hrow | hrow
    · obtain ⟨hhold, hscopes⟩ := ih hbefore (.inl hrow)
      have hsame := hmut.other_organization (.inl (hhold.trans hrow)) horg
      exact ⟨hsame.1.trans hhold, hsame.2.1.trans hscopes⟩
    · have hsame := hmut.other_organization (.inr hrow) horg
      obtain ⟨hhold, hscopes⟩ := ih hbefore (.inr (hsame.1.symm.trans hrow))
      exact ⟨hsame.1.trans hhold, hsame.2.1.trans hscopes⟩

/-- **Commits of one organization do not change what holds of another match**, for any check. -/
theorem Reachable.other_matches (h : Reachable c) {org other : String} {k m : ℕ} (hkm : k ≤ m)
    (hm : m ≤ c.shared.log.length) (hof : CommitsOf c.shared org k m) (hne : other ≠ org)
    {input : RetentionCheck} {hold : String} {revision : Int} :
    c.shared.Matches m input other hold revision ↔
      c.shared.Matches k input other hold revision := by
  unfold Server.Matches
  rw [Server.mem_matching_iff (h.coherent m), Server.mem_matching_iff (h.coherent k)]
  constructor
  · rintro ⟨hmatch, row, hrow, rfl⟩
    obtain ⟨hhold, hscopes⟩ := h.other_holds hkm hm hof (.inr hrow) hne
    rw [hhold] at hmatch hrow
    unfold Db.HasScope at hmatch ⊢
    rw [hscopes] at hmatch
    exact ⟨hmatch, row, hrow, rfl⟩
  · rintro ⟨hmatch, row, hrow, rfl⟩
    obtain ⟨hhold, hscopes⟩ := h.other_holds hkm hm hof (.inl hrow) hne
    rw [← hhold] at hmatch hrow
    unfold Db.HasScope at hmatch ⊢
    rw [← hscopes] at hmatch
    exact ⟨hmatch, row, hrow, rfl⟩

/-- The query finds nothing exactly when no hold of any organization matches. -/
theorem Reachable.matching_eq_nil_iff (h : Reachable c) {m : ℕ} {input : RetentionCheck} :
    Server.matching (c.shared.asOf m) input.scopeKind input.scopeId input.subject = [] ↔
      ∀ org hold revision, ¬c.shared.Matches m input org hold revision := by
  unfold Server.Matches
  constructor
  · rintro hnil org hold revision ⟨hmem, -⟩
    rw [hnil] at hmem
    cases hmem
  · intro hnone
    rw [List.eq_nil_iff_forall_not_mem]
    rintro ⟨hold, revision⟩ hmem
    obtain ⟨row, hrow, -⟩ := (Server.mem_matching_iff (h.coherent m)).mp hmem
    exact hnone row.organizationId hold revision ⟨hmem, row, hrow, rfl⟩

/-- **An organization changes a guard decision through its own holds only.**  Of two evaluations
of the same tuple with only its commits between their queries, what the holds of other
organizations match is the same; so when the second allows what the first has denied, or denies
what it has allowed, a hold of the organization itself matched for one of them. -/
theorem governed_by_own_holds (h : Reachable c) {j j' : ℕ} {input input' : RetentionCheck}
    {d d' : GuardDecision} (hr : Returned c j (.checkRetention input) (.ok (.decision d)))
    (hr' : Returned c j' (.checkRetention input') (.ok (.decision d')))
    (hkind : input'.scopeKind = input.scopeKind) (hid : input'.scopeId = input.scopeId)
    (hsubject : input'.subject = input.subject) :
    ∃ e ∈ c.shared.eventsOf ⟨j, .checkRetention input⟩,
      ∃ e' ∈ c.shared.eventsOf ⟨j', .checkRetention input'⟩,
      e.stmt = .pool (.matchHolds input.scopeKind input.scopeId input.subject) ∧
      e'.stmt = .pool (.matchHolds input.scopeKind input.scopeId input.subject) ∧
      ∀ org, e.seen ≤ e'.seen → CommitsOf c.shared org e.seen e'.seen →
        (∀ other hold revision, other ≠ org →
          (c.shared.Matches e'.seen input other hold revision ↔
            c.shared.Matches e.seen input other hold revision)) ∧
        (d'.allowed ≠ d.allowed → ∃ hold revision,
          c.shared.Matches e.seen input org hold revision ∨
            c.shared.Matches e'.seen input org hold revision) := by
  obtain ⟨-, d₁, e, heq, hchecked⟩ := returned_post h hr _ rfl
  cases heq
  obtain ⟨-, d₂, e', heq, hchecked'⟩ := returned_post h hr' _ rfl
  cases heq
  have hstmt' := hchecked'.stmt
  have hdecision' := hchecked'.decision
  rw [hkind, hid, hsubject] at hstmt' hdecision'
  refine ⟨e, hchecked.mem, e', hchecked'.mem, hchecked.stmt, hstmt', ?_⟩
  intro org hle hof
  have hseen := h.inv.seen_le hchecked'.mem
  have hothers : ∀ other hold revision, other ≠ org →
      (c.shared.Matches e'.seen input other hold revision ↔
        c.shared.Matches e.seen input other hold revision) :=
    fun other hold revision hne => h.other_matches hle hseen hof hne
  refine ⟨hothers, fun hchanged => ?_⟩
  -- Were it not for its own holds, both would match nothing or both something.
  by_contra hown
  push Not at hown
  refine hchanged ?_
  have hsame : ∀ other hold revision, c.shared.Matches e'.seen input other hold revision ↔
      c.shared.Matches e.seen input other hold revision := by
    intro other hold revision
    by_cases hne : other = org
    · rw [hne]
      exact iff_of_false (hown hold revision).2 (hown hold revision).1
    · exact hothers other hold revision hne
  rw [hchecked.decision, hdecision']
  unfold guardDecision
  rw [Bool.eq_iff_iff, List.isEmpty_iff, List.isEmpty_iff, h.matching_eq_nil_iff,
    h.matching_eq_nil_iff]
  simp only [hsame]

end

namespace Sample.Foreign

/-- SHA-256 of the request to put the organization `other` under `h`, and of the evidence of a
check for it that no hold and that one matches. -/
def digest : Json → List UInt8
  | .obj [("organization_id", .str "org"), ("hold_id", .str "h"),
      ("scope_kind", .str "organization"), ("scope_id", .str "other"), ("subject", .null),
      ("expected_revision", .str "1"), ("idempotency_key", .str "add")] =>
    [30, 10, 33, 9, 121, 70, 76, 179, 105, 254, 196, 96, 157, 119, 223, 171, 84, 165, 13, 234,
      167, 210, 123, 161, 40, 196, 201, 185, 48, 236, 52, 164]
  | .obj [("caller", .str "retention"), ("action_id", .str "a"),
      ("scope_kind", .str "organization"), ("scope_id", .str "other"), ("subject", .str "bob"),
      ("mode", .str "delete"), ("reason", .str "cleanup"), ("matching_holds", .arr [])] =>
    [56, 253, 37, 3, 83, 139, 189, 150, 130, 23, 42, 123, 218, 57, 226, 53, 2, 44, 242, 12, 144,
      212, 192, 107, 1, 157, 194, 194, 49, 236, 176, 197]
  | .obj [("caller", .str "retention"), ("action_id", .str "a"),
      ("scope_kind", .str "organization"), ("scope_id", .str "other"), ("subject", .str "bob"),
      ("mode", .str "delete"), ("reason", .str "cleanup"),
      ("matching_holds", .arr [.obj [("hold_id", .str "h"), ("revision", .str "2")]])] =>
    [241, 23, 222, 128, 182, 237, 170, 75, 217, 100, 183, 112, 201, 224, 105, 108, 75, 118, 20,
      157, 151, 16, 75, 109, 197, 74, 173, 48, 169, 118, 125, 105]
  | v => requestDigest v

/-- The backend in which the values of this run have their real digests. -/
scoped instance foreign : Backend := { backend with digest := digest }

/-- May data of the organization `other` be deleted? -/
def question : RetentionCheck :=
  ⟨"retention", "a", "organization", "other", "bob", "delete", "cleanup"⟩

/-- The organization `org` creates a hold, and the guard is asked about `other`. -/
def before : List Label :=
  .start (issued (.createHold (createRequest "h" "create"))) ::
      List.replicate 8 (.step 0 .done) ++
    .start (.checkRetention question) :: List.replicate 2 (.step 1 .done)

/-- The organization puts `other` under its hold, and the guard is asked again. -/
def meddling : List Label :=
  .start (issued (.addScope ⟨"org", "h", "organization", "other", none, "1", "add"⟩)) ::
      List.replicate 10 (.step 2 .done) ++
    .start (.checkRetention question) :: List.replicate 2 (.step 3 .done)

/-- All commits of the run are of the organization `org`. -/
theorem commitsOf_org (k m : ℕ) : CommitsOf (after (before ++ meddling)).shared "org" k m := by
  rintro n cmd view - - ⟨t, hn, hcmd, -⟩
  have horgs : (after (before ++ meddling)).shared.log.map
      (fun t => t.owner.op.command?.map (·.organizationId)) = [some "org", some "org"] := rfl
  have hmem := List.mem_map_of_mem
    (f := fun t : Tx => t.owner.op.command?.map (·.organizationId)) (List.mem_of_getElem? hn)
  rw [horgs, hcmd] at hmem
  simpa using hmem

/-- The first check has seen one commit, the second has seen two. -/
theorem seen_meddling {e : Event} (he : e ∈ (after (before ++ meddling)).shared.trace) :
    (e.session.id = 1 → e.seen = 1) ∧ (e.session.id = 3 → e.seen = 2) := by
  have hall : (after (before ++ meddling)).shared.trace.all (fun e =>
      (e.session.id = 1 → e.seen = 1) ∧ (e.session.id = 3 → e.seen = 2)) = true := rfl
  exact of_decide_eq_true (List.all_eq_true.mp hall e he)

/-- The second check has seen what the first has seen, and more. -/
theorem seen_meddling_le {e e' : Event}
    (he : e ∈ (after (before ++ meddling)).shared.eventsOf ⟨1, .checkRetention question⟩)
    (he' : e' ∈ (after (before ++ meddling)).shared.eventsOf ⟨3, .checkRetention question⟩) :
    e.seen ≤ e'.seen := by
  obtain ⟨hmem, hid⟩ := List.mem_filter.mp he
  obtain ⟨hmem', hid'⟩ := List.mem_filter.mp he'
  have hseen := (seen_meddling hmem).1 (of_decide_eq_true hid)
  have hseen' := (seen_meddling hmem').2 (of_decide_eq_true hid')
  omega

/-- The commands of one organization can change what the guard decides about another, although
whatever is committed between the query of the first evaluation and that of the second is
theirs. -/
theorem decision_can_be_changed_by_others :
    ¬∀ {c : Config} {org other : String} {j j' : ℕ} {input : RetentionCheck}
      {d d' : GuardDecision}, Reachable c → org ≠ other → input.scopeKind = "organization" →
      input.scopeId = other → Returned c j (.checkRetention input) (.ok (.decision d)) →
      Returned c j' (.checkRetention input) (.ok (.decision d')) →
      (∀ e ∈ c.shared.eventsOf ⟨j, .checkRetention input⟩,
        ∀ e' ∈ c.shared.eventsOf ⟨j', .checkRetention input⟩,
          e.seen ≤ e'.seen ∧ CommitsOf c.shared org e.seen e'.seen) →
      d'.allowed = d.allowed := by
  intro hclaim
  have hr : Returned (after (before ++ meddling)) 1 (.checkRetention question)
      (.ok (.decision ⟨true, _, none⟩)) := rfl
  have hr' : Returned (after (before ++ meddling)) 3 (.checkRetention question)
      (.ok (.decision ⟨false, _, some "active_legal_hold"⟩)) := rfl
  have hsame := hclaim (reachable_after (before ++ meddling)) (show "org" ≠ "other" by decide)
    (by rfl) (by rfl) hr hr'
    fun e he e' he' => ⟨seen_meddling_le he he', commitsOf_org _ _⟩
  cases hsame

/-- What has matched is a hold of the organization `org` itself, whose commits have changed the
decision. -/
theorem meddling_through_own_hold :
    ∃ (m : ℕ) (hold : String) (revision : Int),
      (after (before ++ meddling)).shared.Matches m question "org" hold revision := by
  have hr : Returned (after (before ++ meddling)) 1 (.checkRetention question)
      (.ok (.decision ⟨true, _, none⟩)) := rfl
  have hr' : Returned (after (before ++ meddling)) 3 (.checkRetention question)
      (.ok (.decision ⟨false, _, some "active_legal_hold"⟩)) := rfl
  obtain ⟨e, he, e', he', -, -, hgoverned⟩ :=
    governed_by_own_holds (reachable_after (before ++ meddling)) hr hr' rfl rfl rfl
  obtain ⟨hold, revision, hmatches | hmatches⟩ :=
    (hgoverned "org" (seen_meddling_le he he') (commitsOf_org _ _)).2 (by decide)
  · exact ⟨_, _, _, hmatches⟩
  · exact ⟨_, _, _, hmatches⟩

end Sample.Foreign

end LegalHold
