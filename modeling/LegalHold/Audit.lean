import LegalHold.Checks
import LegalHold.Evidence
import LegalHold.Timeline.Firsts

/-!
# The newest evidence

A caller has one action evaluated again and again, with the same request and at later
and later times, while holds come and go.  The row of an evaluation is stored under
the digest of what was found, and not stored again when the same holds are found
another time.  So the newest row is that of the last set of holds that was new; it is
the row of the last decision only as long as that set has not been found before.

## Main definitions

* `Evaluation`, `Turn`, `Evaluated` — evaluations of one action, one after the other.
* `storedSets` — what was found, evaluation by evaluation.
* `Server.Newest`, `DecisionRow.Carries` — the newest row, and what it should say.

## Main results

* `Evaluated.once` — the rows of the action are there once for each set found.
* `newest_evidence` — **exactly when the newest row carries the last decision**.
-/

namespace LegalHold

open Interleave Timeline

theorem matchingHolds_injective : Function.Injective matchingHolds := by
  intro rows rows' h
  have hmaps := Json.arr.inj h
  refine List.map_injective_iff.mpr ?_ hmaps
  rintro ⟨hold, revision⟩ ⟨hold', revision'⟩ heq
  simp only [Json.obj.injEq, List.cons.injEq, Prod.mk.injEq, Json.str.injEq, true_and,
    and_true] at heq
  obtain ⟨rfl, hrevision⟩ := heq
  rw [formatI64_injective hrevision]

/-- The evidence tells who has asked about what. -/
theorem evidence_action {input input' : RetentionCheck} {rows rows' : List (String × Int)}
    (h : evidence input rows = evidence input' rows') :
    input.caller = input'.caller ∧ input.actionId = input'.actionId := by
  unfold evidence at h
  simp only [Json.obj.injEq, List.cons.injEq, Prod.mk.injEq, true_and, and_true,
    Json.str.injEq] at h
  exact ⟨h.1, h.2.1⟩

/-! ### Evaluations of one action -/

/-- What comes of an evaluation of the guard: which holds its query has found, when it began, and
what it has answered. -/
structure Evaluation where
  /-- The holds it has found, with their revisions. -/
  found : List (String × Int)
  /-- Whether its `INSERT` was carried out. -/
  stored : Bool
  /-- What it has returned, if it has returned a decision. -/
  decision : Option GuardDecision

/-- The sets of holds that were to be stored, in the order of the evaluations. -/
def storedSets (es : List Evaluation) : List (List (String × Int)) :=
  (es.filter (·.stored)).map (·.found)

/-- The evaluation that has returned its decision last. -/
def lastReturned (es : List Evaluation) : Option Evaluation :=
  (es.filter (·.decision.isSome)).getLast?

/-- The other request is made by the same caller for the same action, so that both find the same
evidence. -/
def RetentionCheck.SameAction (input input' : RetentionCheck) : Prop :=
  input'.caller = input.caller ∧ input'.actionId = input.actionId

/-- The rows of evidence that an auditor finds for the caller and the action of a request. -/
def Server.evidenceFor (srv : Server) (input : RetentionCheck) : List DecisionRow :=
  srv.decisions.filter fun row =>
    row.callerInstance = input.caller ∧ row.actionId = input.actionId

/-- The row is the one with the greatest `evaluated_at` among those for the action of the
request. -/
structure Server.Newest (srv : Server) (input : RetentionCheck) (row : DecisionRow) : Prop where
  mem : row ∈ srv.evidenceFor input
  last : ∀ row' ∈ srv.evidenceFor input, row' = row ∨ row'.evaluatedAt < row.evaluatedAt

/-- The row says the same as the decision `d` that has been made from the holds `found`. -/
def DecisionRow.Carries (row : DecisionRow) (d : GuardDecision) (found : List (String × Int)) :
    Prop :=
  row.allowed = d.allowed ∧ row.reasonCode = d.reasonCode ∧
    row.matchingHolds = LegalHold.matchingHolds found

section

variable [Backend] {c c' : Config} {input : RetentionCheck} {es : List Evaluation}
  {ev : Evaluation} {j : ℕ}

/-- An evaluation that was started after `c`, at a later time, and is over in `c'`; the action is
not evaluated by anybody else meanwhile. -/
structure Turn (input : RetentionCheck) (c c' : Config) (j : ℕ) (ev : Evaluation) : Prop where
  started : ∃ c₁, Later c c₁ ∧ c.shared.clock < c₁.shared.clock ∧ c₁.procs.length ≤ j ∧ Later c₁ c'
  ended : ∃ p, c'.procs[j]? = some ⟨.checkRetention input, p⟩ ∧ ∀ s k, p ≠ some (.ask s k)
  alone : ∀ {j' : ℕ} {input' : RetentionCheck}, Config.Known c' ⟨j', .checkRetention input'⟩ →
    input.SameAction input' → Config.Known c ⟨j', .checkRetention input'⟩ ∨ j' = j
  found : ∀ e ∈ c'.shared.eventsOf ⟨j, .checkRetention input⟩, e.stmt = input.query →
    ev.found = input.found (c'.shared.asOf e.seen)
  stored : ev.stored = true ↔ ∃ e ∈ c'.shared.eventsOf ⟨j, .checkRetention input⟩,
    e.stmt.storesDecision = true ∧ e.fate ≠ .failed
  decision : ∀ d, ev.decision = some d ↔
    Returned c' j (.checkRetention input) (.ok (.decision d))

/-- The evaluations of an action up to a moment of a run, each of them over before the next one
starts.  Whatever else the sessions of the run do, they do it at any time. -/
inductive Evaluated (input : RetentionCheck) : Config → List Evaluation → Prop where
  | start {c : Config} (reached : Reachable c)
      (unasked : ∀ {j' : ℕ} {input' : RetentionCheck},
        Config.Known c ⟨j', .checkRetention input'⟩ → ¬ input.SameAction input') :
      Evaluated input c []
  | turn {c c' : Config} {es : List Evaluation} {j : ℕ} {ev : Evaluation}
      (before : Evaluated input c es) (turn : Turn input c c' j ev) :
      Evaluated input c' (es ++ [ev])
  | idle {c c' : Config} {es : List Evaluation} (before : Evaluated input c es) (later : Later c c')
      (unasked : ∀ {j' : ℕ} {input' : RetentionCheck},
        Config.Known c' ⟨j', .checkRetention input'⟩ → input.SameAction input' →
          Config.Known c ⟨j', .checkRetention input'⟩) : Evaluated input c' es

theorem Turn.later (h : Turn input c c' j ev) : Later c c' := by
  obtain ⟨c₁, hlater, -, -, hlater'⟩ := h.started
  exact ⟨hlater.before, hlater.reaches.trans hlater'.reaches⟩

/-- The checks of the action have all been made with the one request, and are over. -/
def Settled (input : RetentionCheck) (c : Config) : Prop :=
  ∀ (j : ℕ) (input' : RetentionCheck), Config.Known c ⟨j, .checkRetention input'⟩ →
    input.SameAction input' → input' = input ∧
      ∃ p, c.procs[j]? = some ⟨.checkRetention input, p⟩ ∧ ∀ s k, p ≠ some (.ask s k)

theorem Settled.later (h : Settled input c) (hlater : Later c c')
    (hunasked : ∀ {j' : ℕ} {input' : RetentionCheck},
      Config.Known c' ⟨j', .checkRetention input'⟩ → input.SameAction input' →
        Config.Known c ⟨j', .checkRetention input'⟩ ∨
          input' = input ∧ ∃ p, c'.procs[j']? = some ⟨.checkRetention input, p⟩ ∧
            ∀ s k, p ≠ some (.ask s k)) : Settled input c' := by
  intro j input' hknown hsame
  rcases hunasked hknown hsame with hknown | hthis
  · obtain ⟨rfl, p, hp, hover⟩ := h j input' hknown hsame
    exact ⟨rfl, p, (hlater.ended hp hover).1, hover⟩
  · exact hthis

theorem Evaluated.settled (h : Evaluated input c es) : Reachable c ∧ Settled input c := by
  induction h with
  | start reached unasked =>
    exact ⟨reached, fun j' input' hknown hsame => absurd hsame (unasked hknown)⟩
  | turn before turn ih =>
    refine ⟨turn.later.reachable, ih.2.later turn.later ?_⟩
    intro j' input' hknown hsame
    refine (turn.alone hknown hsame).imp_right ?_
    rintro rfl
    obtain ⟨p, hp, hover⟩ := turn.ended
    obtain ⟨q, hq, hop⟩ := hknown
    cases hp.symm.trans hq
    cases hop
    exact ⟨rfl, p, hp, hover⟩
  | idle before later unasked ih =>
    exact ⟨later.reachable, ih.2.later later fun hknown hsame => .inl (unasked hknown hsame)⟩

/-! ### One turn -/

/-- The row is one that the check of session `j` has proposed to the table of decisions. -/
def Server.ProposedBy (srv : Server) (j : ℕ) (input : RetentionCheck) (row : DecisionRow) : Prop :=
  ∃ e ∈ srv.eventsOf ⟨j, .checkRetention input⟩, e.stmt = row.insert ∧ e.fate ≠ .failed

/-- What is proposed by a check that was over before was there before. -/
theorem Later.mem_of_proposedBy (h : Later c c') {row : DecisionRow}
    (hrow : row ∈ c'.shared.decisions) (hby : c'.shared.ProposedBy j input row)
    {p : Option (Prog Stmt Stmt.Reply (Except StorageError Answer))}
    (hp : c.procs[j]? = some ⟨.checkRetention input, p⟩) (hover : ∀ s k, p ≠ some (.ask s k)) :
    row ∈ c.shared.decisions := by
  obtain ⟨e, he, hstmt, hfate⟩ := hby
  rw [(h.ended hp hover).2] at he
  obtain ⟨row', hrow', hid⟩ :=
    h.before.recorded_rows.stored e (List.mem_filter.mp he).1 hfate row hstmt
  have hids := h.reachable.recorded_rows.ids
  rw [← List.inj_on_of_nodup_map hids (h.grown.decisions.subset hrow') hrow hid]
  exact hrow'

/-- Every row of the action is proposed by a check of the action. -/
theorem Reachable.proposedBy (h : Reachable c) {row : DecisionRow}
    (hrow : row ∈ c.shared.evidenceFor input) :
    row ∈ c.shared.decisions ∧ ∃ j input', Config.Known c ⟨j, .checkRetention input'⟩ ∧
      input.SameAction input' ∧ c.shared.ProposedBy j input' row ∧
      ∃ e ∈ c.shared.eventsOf ⟨j, .checkRetention input'⟩, e.stmt = input'.query ∧
        row = guardRow input' (input'.found (c.shared.asOf e.seen)) row.evaluatedAt := by
  obtain ⟨hrow, habout⟩ := List.mem_filter.mp hrow
  obtain ⟨j, input', p, n, f, m, hp, hfate, hevents, heq⟩ := h.proposed hrow
  have hinsert : row.insert = input'.insert (input'.found (c.shared.asOf n)) := by
    rw [heq]
    rfl
  rw [heq] at habout
  have hsame := of_decide_eq_true habout
  refine ⟨hrow, j, input', ⟨_, hp, rfl⟩, hsame, ?_, ?_⟩
  · unfold Server.ProposedBy
    rw [hevents, hinsert]
    exact ⟨_, List.mem_cons_of_mem _ List.mem_cons_self, rfl, hfate⟩
  · rw [hevents]
    exact ⟨_, List.mem_cons_self, rfl, heq⟩

namespace Turn

/-- **A new row is that of the turn.** -/
theorem new_row (h : Turn input c c' j ev) (hsettled : Settled input c) {row : DecisionRow}
    (hrow : row ∈ c'.shared.evidenceFor input) (hnew : row ∉ c.shared.decisions) :
    ev.stored = true ∧ row = guardRow input ev.found row.evaluatedAt ∧
      c.shared.clock < row.evaluatedAt := by
  -- A check that `c` knows has proposed nothing since.
  have hold : ∀ {d : Config} {j' : ℕ} {input' : RetentionCheck}, Later c d →
      row ∈ d.shared.decisions → Config.Known c ⟨j', .checkRetention input'⟩ →
      input.SameAction input' → ¬ d.shared.ProposedBy j' input' row := by
    intro d j' input' hlater hmem hknown hsame hby
    obtain ⟨rfl, p, hp, hover⟩ := hsettled j' input' hknown hsame
    exact hnew (hlater.mem_of_proposedBy hmem hby hp hover)
  obtain ⟨hmem, j', input', hknown, hsame, hby, e, he, hquery, heq⟩ :=
    h.later.reachable.proposedBy hrow
  rcases h.alone hknown hsame with hknown' | rfl
  · exact absurd hby (hold h.later hmem hknown' hsame)
  obtain ⟨p, hp, -⟩ := h.ended
  obtain ⟨q, hq, hop⟩ := hknown
  cases hp.symm.trans hq
  cases hop
  refine ⟨?_, ?_, ?_⟩
  · obtain ⟨e', he', hstmt, hfate⟩ := hby
    rw [h.stored]
    refine ⟨e', he', ?_, hfate⟩
    rw [hstmt]
    rfl
  · rw [h.found e he hquery]
    exact heq
  · obtain ⟨c₁, hlater, hclock, hstart, hlater'⟩ := h.started
    rcases hlater'.evaluatedAt hmem with hmem₁ | htime
    -- Before the turn has started, nobody can have proposed its row.
    · have habout : row ∈ c₁.shared.evidenceFor input :=
        List.mem_filter.mpr ⟨hmem₁, (List.mem_filter.mp hrow).2⟩
      obtain ⟨-, j', input', hknown, hsame, hby, -⟩ := hlater'.before.proposedBy habout
      have hlt : j' < c₁.procs.length := by
        obtain ⟨q, hq, -⟩ := hknown
        exact (List.getElem?_eq_some_iff.mp hq).1
      rcases h.alone (hknown.later hlater'.reaches) hsame with hknown' | rfl
      · exact absurd hby (hold hlater hmem₁ hknown' hsame)
      · omega
    · exact Nat.lt_of_lt_of_le hclock htime

/-- What the turn has proposed is there under its id, and what it has returned is what it has
proposed. -/
theorem proposal (h : Turn input c c' j ev) :
    (ev.stored = true → (∃ row ∈ c'.shared.decisions,
        row.decisionId = (guardDecision input ev.found).decisionId) ∧
      c'.shared.Hashes (evidence input ev.found)) ∧
    ∀ d, ev.decision = some d → ev.stored = true ∧ d = guardDecision input ev.found := by
  obtain ⟨p, hp, hover⟩ := h.ended
  have hreach := h.later.reachable
  have hprogress := hreach.progress hp
  cases hprogress with
  | asking events => exact absurd rfl (hover _ _)
  | storing seen events => exact absurd rfl (hover _ _)
  -- It has proposed nothing, or the proposal has failed: nothing was to be stored.
  | aborted gone events =>
    refine ⟨fun hstored => ?_, fun d hd => ?_⟩
    · obtain ⟨e, he, hstores, -⟩ := h.stored.mp hstored
      rcases events with events | ⟨f, n, -, events⟩
      · rw [events] at he
        cases he
      · rw [events] at he
        cases List.mem_singleton.mp he
        cases hstores
    · have hr := (h.decision d).mp hd
      cases hp.symm.trans hr
      obtain ⟨e, heq⟩ := gone _ rfl
      cases heq
  -- Its query has found what the evaluation says, and the row was proposed from that.
  | @proposed n m f r seen events answer =>
    have hquery : (⟨⟨j, .checkRetention input⟩, input.query, .done, n⟩ : Event) ∈
        c'.shared.eventsOf ⟨j, .checkRetention input⟩ := by
      rw [events]
      exact List.mem_cons_self
    rw [h.found _ hquery rfl]
    refine ⟨fun hstored => ⟨?_, ?_⟩, fun d hd => ?_⟩
    · obtain ⟨e, he, hstores, hfate⟩ := h.stored.mp hstored
      have hmem := (List.mem_filter.mp he).1
      rw [events] at he
      rcases List.mem_cons.mp he with rfl | he
      · cases hstores
      · cases List.mem_singleton.mp he
        exact hreach.recorded_rows.stored _ hmem hfate
          (guardRow input (input.found (c'.shared.asOf n)) 0) rfl
    · exact ⟨_, (List.mem_filter.mp hquery).1, input, rfl, rfl, rfl⟩
    · have hr := (h.decision d).mp hd
      cases hp.symm.trans hr
      rcases answer with ⟨rfl, heq⟩ | ⟨-, e, heq⟩
      · cases heq
        refine ⟨h.stored.mpr ?_, rfl⟩
        rw [events]
        exact ⟨_, List.mem_cons_of_mem _ List.mem_cons_self, rfl, fun hf => by cases hf⟩
      · cases heq

end Turn

/-! ### All turns -/

/-- A stored row that has the id of a decision says who has asked about what, and what was
found. -/
theorem Reachable.of_decisionId (h : Reachable c) (hfree : CollisionFree c.shared)
    {row : DecisionRow} (hrow : row ∈ c.shared.decisions) {rows : List (String × Int)}
    (hhash : c.shared.Hashes (evidence input rows))
    (hid : row.decisionId = (guardDecision input rows).decisionId) :
    row ∈ c.shared.evidenceFor input ∧ row.matchingHolds = matchingHolds rows := by
  obtain ⟨e, he, input', hop, hstmt, heq⟩ := h.justified hrow
  rw [heq] at hid
  have hevidence := hfree ⟨e, he, input', hop, hstmt, rfl⟩ hhash (decisionId_injective hid)
  obtain ⟨hcaller, haction⟩ := evidence_action hevidence
  refine ⟨List.mem_filter.mpr ⟨hrow, decide_eq_true ?_⟩, ?_⟩
  · rw [heq]
    exact ⟨hcaller, haction⟩
  · rw [heq]
    exact evidence_matchingHolds hevidence

/-- A value that has been hashed for evidence has been hashed in every later configuration too. -/
theorem Later.hashes (h : Later c c') {v : Json} (hv : c.shared.Hashes v) :
    c'.shared.Hashes v := by
  obtain ⟨e, he, input, hop, hstmt, rfl⟩ := hv
  obtain ⟨new, htrace, -⟩ := h.grown.trace
  refine ⟨e, ?_, input, hop, hstmt, ?_⟩
  · rw [htrace]
    exact List.mem_append_left _ he
  · rw [h.asOf (h.before.inv.seen e he)]

theorem Later.collisionFree (h : Later c c') (hfree : CollisionFree c'.shared) :
    CollisionFree c.shared := fun hv hv' => hfree (h.hashes hv) (h.hashes hv')

/-- The rows for an action are there as long as the run goes on. -/
theorem Later.evidenceFor (h : Later c c') (input : RetentionCheck) :
    ∃ new, c'.shared.evidenceFor input = c.shared.evidenceFor input ++ new ∧
      ∀ row ∈ new, row ∉ c.shared.decisions := by
  obtain ⟨more, hmore⟩ := h.grown.decisions
  refine ⟨more.filter fun row => row.callerInstance = input.caller ∧ row.actionId = input.actionId,
    ?_, ?_⟩
  · unfold Server.evidenceFor
    rw [← hmore, List.filter_append]
  · intro row hrow hold
    have hids := h.reachable.recorded_rows.ids
    rw [← hmore, List.map_append] at hids
    exact (List.nodup_append.mp hids).2.2 _ (List.mem_map_of_mem hold) _
      (List.mem_map_of_mem (List.mem_filter.mp hrow).1) rfl

omit [Backend] in
theorem storedSets_snoc (es : List Evaluation) (ev : Evaluation) :
    storedSets (es ++ [ev]) = storedSets es ++ if ev.stored then [ev.found] else [] := by
  unfold storedSets
  rw [List.filter_append, List.map_append]
  cases h : ev.stored <;> simp [h]

omit [Backend] in
theorem eq_singleton {α : Type} {l : List α} {a : α} (hmem : a ∈ l) (hall : ∀ b ∈ l, b = a)
    (hnodup : l.Nodup) : l = [a] := by
  have hreplicate := List.eq_replicate_of_mem hall
  rw [hreplicate, List.nodup_replicate] at hnodup
  have hpos := List.length_pos_of_mem hmem
  have hone : l.length = 1 := by omega
  rw [hreplicate, hone]
  rfl

/-- **One more turn**: a set that is new gets a row at a later time, and any other gets none. -/
theorem Turn.once (h : Turn input c c' j ev) (hsettled : Settled input c)
    (hfree : CollisionFree c'.shared)
    (honce : Once DecisionRow.matchingHolds DecisionRow.evaluatedAt
      ((storedSets es).map matchingHolds) (c.shared.evidenceFor input)) :
    Once DecisionRow.matchingHolds DecisionRow.evaluatedAt
      ((storedSets (es ++ [ev])).map matchingHolds) (c'.shared.evidenceFor input) := by
  have hlater := h.later
  have hids := hlater.reachable.recorded_rows.ids
  obtain ⟨new, heq, hnew⟩ := hlater.evidenceFor input
  have habout : ∀ row ∈ new, row ∈ c'.shared.evidenceFor input := by
    intro row hrow
    rw [heq]
    exact List.mem_append_right _ hrow
  have hthis : ∀ row ∈ new, ev.stored = true ∧ row = guardRow input ev.found row.evaluatedAt ∧
      c.shared.clock < row.evaluatedAt := fun row hrow =>
    h.new_row hsettled (habout row hrow) (hnew row hrow)
  rw [heq, storedSets_snoc]
  by_cases hstored : ev.stored = true
  · obtain ⟨⟨r, hr, hrid⟩, hhash⟩ := h.proposal.1 hstored
    obtain ⟨hrabout, hrkey⟩ := hlater.reachable.of_decisionId hfree hr hhash hrid
    -- All rows that are new have one id, and so there is one at most.
    have hsame : ∀ row ∈ new, row = r := by
      intro row hrow
      refine List.inj_on_of_nodup_map hids (List.mem_filter.mp (habout row hrow)).1 hr ?_
      rw [hrid, (hthis row hrow).2.1]
      rfl
    rw [if_pos hstored, List.map_append, List.map_singleton]
    by_cases hfound : matchingHolds ev.found ∈ (storedSets es).map matchingHolds
    · -- The set has a row already, under the same id.
      have hold : r ∈ c.shared.decisions := by
        obtain ⟨r₀, hr₀, hkey⟩ := (honce.keys _).mpr hfound
        obtain ⟨hmem, j₀, input', hknown, haction, -, e, he, -, hr₀eq⟩ :=
          hlater.before.proposedBy hr₀
        obtain ⟨rfl, -⟩ := hsettled j₀ input' hknown haction
        have hsets : input'.found (c.shared.asOf e.seen) = ev.found := by
          refine matchingHolds_injective ?_
          rw [← hkey, hr₀eq]
          rfl
        have hid : r₀.decisionId = r.decisionId := by
          rw [hrid, hr₀eq, hsets]
          rfl
        rw [← List.inj_on_of_nodup_map hids (hlater.grown.decisions.subset hmem) hr hid]
        exact hmem
      have hnil : new = [] := by
        rw [List.eq_nil_iff_forall_not_mem]
        intro row hrow
        apply hnew row hrow
        rw [hsame row hrow]
        exact hold
      rw [hnil, List.append_nil]
      exact honce.again hfound
    -- The set is new, and the row for it is later than all others.
    · have hrnew : r ∈ new := by
        rw [heq] at hrabout
        rcases List.mem_append.mp hrabout with hmem | hmem
        · exact absurd ((honce.keys _).mp ⟨r, hmem, hrkey⟩) hfound
        · exact hmem
      have hnodup : (c'.shared.evidenceFor input).Nodup := (List.Nodup.of_map _ hids).filter _
      rw [heq] at hnodup
      rw [eq_singleton hrnew hsame (List.nodup_append.mp hnodup).2.1, ← hrkey]
      refine honce.add (by rw [hrkey]; exact hfound) ?_
      intro row hrow
      have hpast := hlater.before.recorded_rows.past row (List.mem_filter.mp hrow).1
      exact Nat.lt_of_le_of_lt hpast (hthis r hrnew).2.2
  -- Nothing was to be stored, and so nothing was.
  · have hnil : new = [] := by
      rw [List.eq_nil_iff_forall_not_mem]
      intro row hrow
      exact hstored (hthis row hrow).1
    rw [hnil, if_neg hstored, List.append_nil, List.append_nil]
    exact honce

/-- **The rows of the action are there once for each set that was found.** -/
theorem Evaluated.once (h : Evaluated input c es) (hfree : CollisionFree c.shared) :
    Once DecisionRow.matchingHolds DecisionRow.evaluatedAt
      ((storedSets es).map matchingHolds) (c.shared.evidenceFor input) := by
  induction h with
  -- A row would have been proposed by a check of the same action, and there was none.
  | @start c reached unasked =>
    have hnil : c.shared.evidenceFor input = [] := by
      rw [List.eq_nil_iff_forall_not_mem]
      intro row hrow
      obtain ⟨-, j, input', hknown, hsame, -⟩ := reached.proposedBy hrow
      exact unasked hknown hsame
    rw [hnil]
    exact Once.nil
  | turn before turn ih =>
    exact turn.once before.settled.2 hfree (ih (turn.later.collisionFree hfree))
  -- What is there at the end was there before: all checks that could propose a row are over.
  | @idle c c' es before later unasked ih =>
    obtain ⟨new, heq, hnew⟩ := later.evidenceFor input
    have hnil : new = [] := by
      rw [List.eq_nil_iff_forall_not_mem]
      intro row hrow
      have habout : row ∈ c'.shared.evidenceFor input := by
        rw [heq]
        exact List.mem_append_right _ hrow
      obtain ⟨hmem, j, input', hknown, hsame, hby, -⟩ := later.reachable.proposedBy habout
      obtain ⟨rfl, p, hp, hover⟩ := before.settled.2 j input' (unasked hknown hsame) hsame
      exact hnew row hrow (later.mem_of_proposedBy hmem hby hp hover)
    rw [heq, hnil, List.append_nil]
    exact ih (later.collisionFree hfree)

/-- What an evaluation has returned was made from what it has found, and stored. -/
theorem Evaluated.decided (h : Evaluated input c es) (hev : ev ∈ es) {d : GuardDecision}
    (hd : ev.decision = some d) : ev.stored = true ∧ d = guardDecision input ev.found := by
  induction h with
  | start reached unasked => cases hev
  | turn before turn ih =>
    rcases List.mem_append.mp hev with hev | hev
    · exact ih hev
    · obtain rfl := List.mem_singleton.mp hev
      exact turn.proposal.2 d hd
  | idle before later unasked ih => exact ih hev

/-- **When the newest row carries the last decision**: exactly when the set of holds that decision
was made from is the last one that was new among the sets to be stored.  Then nothing has been
found since it came up that had not been found before; otherwise the newest row is that of a set
which has come up in between. -/
theorem newest_evidence (h : Evaluated input c es) (hfree : CollisionFree c.shared)
    {d : GuardDecision} (hlast : lastReturned es = some ev) (hd : ev.decision = some d) :
    ∃ row, c.shared.Newest input row ∧
      (row.Carries d ev.found ↔ LastNew (storedSets es) ev.found) := by
  have hev : ev ∈ es := (List.mem_filter.mp (List.mem_of_getLast? hlast)).1
  obtain ⟨hstored, hdecision⟩ := h.decided hev hd
  have hne : (storedSets es).map matchingHolds ≠ [] := by
    refine List.ne_nil_of_mem (a := matchingHolds ev.found) (List.mem_map_of_mem ?_)
    exact List.mem_map_of_mem (List.mem_filter.mpr ⟨hev, hstored⟩)
  -- The newest row is for the set that was the last to be new.
  obtain ⟨row, hrow, hnewest, hkey⟩ := (h.once hfree).newest_entry hne
  refine ⟨row, ⟨hrow, hnewest⟩, ?_⟩
  rw [← lastNew_map_iff matchingHolds_injective, ← hkey]
  constructor
  · exact fun hcarries => hcarries.2.2
  -- Its other columns are those of the decision, as all of them are computed from the set.
  · intro hfound
    obtain ⟨e, -, input', -, -, heq⟩ := h.settled.1.justified (List.mem_filter.mp hrow).1
    have hrows : matchingHolds (Server.matching (c.shared.asOf e.seen) input'.scopeKind
        input'.scopeId input'.subject) = matchingHolds ev.found := by
      rw [← hfound, heq]
      rfl
    have hempty := isEmpty_of_matchingHolds hrows
    refine ⟨?_, ?_, hfound⟩
    · rw [heq, hdecision]
      exact hempty
    · rw [heq, hdecision]
      unfold guardRow guardDecision
      rw [hempty]

end

namespace Sample

/-- After another second of the clock a session does one operation, from beginning to end. -/
def round (schedule : List Label) (i n : ℕ) (op : Op) : List Label :=
  schedule ++ .move (1 : ℕ) :: .start op :: steps i n

/-- The schedule goes on with one more check, which runs up to its decision. -/
def ask (schedule : List Label) (i : ℕ) : List Label :=
  schedule ++ .start (.checkRetention question) :: steps i 2

/-- The guard is asked the question when `h` is there and `f` is not under it yet. -/
def unheld : List Label := ask (round [] 0 8 (create [1])) 1

/-- The guard is asked the question again when `f` has been put under `h`. -/
def held : List Label := ask (round unheld 2 10 (add 1)) 3

/-- The guard is asked once more when the hold has been released, and there is no hold again. -/
def unheldAgain : List Label := ask (round held 4 9 (release 2)) 5

/-- An evaluation of the question that has gone well and has found these holds. -/
def evaluation (found : List (String × Int)) : Evaluation :=
  ⟨found, true, some (guardDecision question found)⟩

theorem later_after (schedule more : List Label)
    (h : (machine).run initial schedule = some (after schedule))
    (h' : (machine).run initial (schedule ++ more) = some (after (schedule ++ more))) :
    Later (after schedule) (after (schedule ++ more)) := by
  refine ⟨reachable_after schedule, more, ?_⟩
  rw [Machine.run_append, h] at h'
  exact h'

/-- A turn in which session `i` does something and session `i + 1` is the evaluation. -/
theorem turn_of {c c₁ c' : Config} {i : ℕ} {found : List (String × Int)} (hlater : Later c c₁)
    (hlater' : Later c₁ c') (hclock : c.shared.clock < c₁.shared.clock)
    (hprocs : c.procs.length = i) (hprocs₁ : c₁.procs.length = i + 1)
    (hprocs' : c'.procs.length = i + 2)
    (hother : ∀ input, (c'.procs[i]?).map (·.op) ≠ some (.checkRetention input))
    (hreturned : Returned c' (i + 1) (.checkRetention question)
      (.ok (.decision (guardDecision question found))))
    (hfound : (Server.eventsOf c'.shared ⟨i + 1, .checkRetention question⟩).all
      (fun e => question.found (Server.asOf c'.shared e.seen) = found) = true)
    (hstored : (Server.eventsOf c'.shared ⟨i + 1, .checkRetention question⟩).any
      (fun e => e.stmt.storesDecision && e.fate ≠ .failed) = true) :
    Turn question c c' (i + 1) (evaluation found) := by
  refine ⟨⟨c₁, hlater, hclock, by omega, hlater'⟩, ⟨_, hreturned, fun s k h => by cases h⟩,
    ?_, ?_, ?_, ?_⟩
  · rintro j' input' ⟨p, hp, hop⟩ -
    have hlt := (List.getElem?_eq_some_iff.mp hp).1
    by_cases hj' : j' < i
    · obtain ⟨q, hq⟩ : ∃ q, c.procs[j']? = some q := ⟨_, List.getElem?_eq_getElem (by omega)⟩
      obtain ⟨p', hp', hop'⟩ := (hlater.reaches.trans hlater'.reaches).op hq
      cases hp.symm.trans hp'
      exact .inl ⟨q, hq, hop'.symm.trans hop⟩
    · right
      have hne : j' ≠ i := by
        rintro rfl
        apply hother input'
        rw [hp]
        exact congrArg some hop
      simp only at hlt
      omega
  · intro e he _
    exact (of_decide_eq_true (List.all_eq_true.mp hfound e he)).symm
  · refine iff_of_true rfl ?_
    obtain ⟨e, he, hboth⟩ := List.any_eq_true.mp hstored
    simp only [Bool.and_eq_true, decide_eq_true_eq] at hboth
    exact ⟨e, he, hboth.1, hboth.2⟩
  · intro d
    constructor
    · intro hd
      cases hd
      exact hreturned
    · intro hr
      cases hreturned.symm.trans hr
      rfl

theorem evaluated_unheld : Evaluated question (after unheld) [evaluation []] := by
  refine (Evaluated.start (c := after []) (reachable_after []) ?_).turn
    (turn_of (later_after [] _ rfl rfl) (later_after (round [] 0 8 (create [1])) _ rfl rfl)
      (by decide) rfl rfl rfl (fun input h => by cases h) rfl rfl rfl)
  rintro j' input' ⟨p, hp, -⟩
  cases hp

theorem evaluated_held :
    Evaluated question (after held) [evaluation [], evaluation [("h", 2)]] :=
  evaluated_unheld.turn
    (turn_of (later_after unheld _ rfl rfl) (later_after (round unheld 2 10 (add 1)) _ rfl rfl)
      (by decide) rfl rfl rfl (fun input h => by cases h) rfl rfl rfl)

theorem evaluated_unheldAgain :
    Evaluated question (after unheldAgain)
      [evaluation [], evaluation [("h", 2)], evaluation []] :=
  evaluated_held.turn
    (turn_of (later_after held _ rfl rfl) (later_after (round held 4 9 (release 2)) _ rfl rfl)
      (by decide) rfl rfl rfl (fun input h => by cases h) rfl rfl rfl)

/-- The sets that are hashed in these runs have different digests. -/
theorem collisionFree_of {c : Config} (hall : (Server.trace c.shared).all (fun e =>
    match e.session.op with
    | .checkRetention input => decide (input = question ∧
      (question.found (Server.asOf c.shared e.seen) = [] ∨
        question.found (Server.asOf c.shared e.seen) = [("h", 2)]))
    | _ => true) = true) : CollisionFree c.shared := by
  have hcases : ∀ {v : Json}, Server.Hashes c.shared v →
      v = evidence question [] ∨ v = evidence question [("h", 2)] := by
    rintro v ⟨e, he, input, hop, -, rfl⟩
    have hthis := List.all_eq_true.mp hall e he
    rw [hop] at hthis
    obtain ⟨rfl, hfound⟩ := of_decide_eq_true hthis
    exact hfound.imp (congrArg (evidence question)) (congrArg (evidence question))
  have hne : Backend.digest (evidence question []) ≠
      Backend.digest (evidence question [("h", 2)]) := by decide
  intro v v' hv hv' hdigest
  rcases hcases hv with rfl | rfl <;> rcases hcases hv' with rfl | rfl
  · rfl
  · exact absurd hdigest hne
  · exact absurd hdigest.symm hne
  · rfl

/-- The third evaluation has found nothing, like the first, and allows the deletion; the newest
row is the one of the second and says that it was denied. -/
theorem newest_evidence_can_be_outdated :
    ¬∀ {input : RetentionCheck} {c : Config} {es : List Evaluation} {ev : Evaluation}
      {d : GuardDecision}, Evaluated input c es → CollisionFree c.shared →
      lastReturned es = some ev → ev.decision = some d →
      ∃ row, c.shared.Newest input row ∧ row.Carries d ev.found := by
  intro hclaim
  obtain ⟨row, hnewest, hallowed, -⟩ :=
    hclaim evaluated_unheldAgain (collisionFree_of rfl) rfl rfl
  have hfirst : ((after unheldAgain).shared.evidenceFor question).all
      (fun row => !row.allowed || row.evaluatedAt = 1) = true := rfl
  have hsecond : ∃ row' ∈ (after unheldAgain).shared.evidenceFor question,
      row'.evaluatedAt = 2 := ⟨_, List.mem_cons_of_mem _ List.mem_cons_self, rfl⟩
  obtain ⟨row', hrow', htime'⟩ := hsecond
  have htime : row.evaluatedAt = 1 := by
    have hthis := List.all_eq_true.mp hfirst row hnewest.mem
    rw [show row.allowed = true from hallowed] at hthis
    simpa using hthis
  rcases hnewest.last row' hrow' with rfl | hlt
  · cases htime.symm.trans htime'
  · rw [htime, htime'] at hlt
    exact absurd hlt (by decide)

/-- The newest row for the question is the row of its denial, in a run where an evaluation that
allowed it came first. -/
theorem held_newest :
    ∃ row, (after held).shared.Newest question row ∧ row.allowed = false := by
  obtain ⟨row, hnewest, hiff⟩ :=
    newest_evidence evaluated_held (collisionFree_of rfl) rfl rfl
  refine ⟨row, hnewest, (hiff.mpr ?_).1⟩
  exact ⟨[[]], [], rfl, by decide, fun y hy => by cases hy⟩

end Sample

end LegalHold
