import LegalHold.Twins

/-!
# The operations side by side

What an administrative operation answers and changes on two servers, each of the
seven followed through both of its runs at once.

## Main definitions

* `Command.Comparable` — what two servers must have in common for a command.
* `Answer.unstamped` — an answer without the timestamps of its views.

## Main results

* `createHold_twin`, `addScope_twin`, `removeScope_twin`, `releaseHold_twin` —
  **the mutations**.
* `getHold_twin`, `listHolds_twin`, `listActivity_twin` — **the reads**.
-/

namespace LegalHold

open Interleave

section

variable [Backend]

/-! ### Mutations -/

/-- All that a command can tell two servers apart by is the same on both, but for stamps. -/
structure Command.Comparable (c : Command) (base base' : Server) : Prop where
  dated : base.db.Dated
  dated' : base'.db.Dated
  time : Formattable base.clock
  time' : Formattable base'.clock
  activity : SameActivityRoom base.seq base'.seq
  receipt : base'.db.command? c.key = base.db.command? c.key
  target : c.Foreign base.db base'.db ∨ c.Alike base.db base'.db

variable {i j : Session Op} {base base' : Server} {c : Command}

/-- A hold is proposed under an id that is taken on both servers. -/
theorem insertHold_taken {org title reason authority createdBy operation : String}
    (htaken : base.db.hold? c.holdId ≠ none) (htaken' : base'.db.hold? c.holdId ≠ none) :
    Twin machine .done i j (Opened i j base base')
      (issue operation
        (.query (.insertHold c.holdId org title reason authority createdBy))).run
      (issue operation
        (.query (.insertHold c.holdId org title reason authority createdBy))).run
      (Matched (fun (a b : ℕ) srv srv' => (a = 0 ∧ b = 0) ∧ Opened i j base base' srv srv')
        (ChangedAlike base base')) := by
  obtain ⟨row, hrow⟩ := Option.ne_none_iff_exists'.mp htaken
  obtain ⟨row', hrow'⟩ := Option.ne_none_iff_exists'.mp htaken'
  refine Abreast.issue fun db db' seq seq' _ _ hN hseq => ?_
  obtain ⟨rfl, rfl⟩ := hN
  simp only [Query.effect, hrow, hrow']
  exact .read ⟨rfl, rfl⟩ ⟨rfl, rfl⟩ hseq

/-- What is not taken on one server is not taken on the other. -/
theorem createHold_twin {input : CreateHold} (h : input.command.Comparable base base')
    (hid : base.db.command? input.command.key = none →
      (base'.db.hold? input.holdId = none ↔ base.db.hold? input.holdId = none)) :
    Twin machine .done i j (AtRest i j base base') (createHold input).run (createHold input).run
      (Matched (SameView base base') (ChangedAlike base base')) := by
  refine start_twin (c := input.command) h.dated h.dated' h.receipt fun hunseen => ?_
  have hsame := hid hunseen
  by_cases habsent : base.db.hold? input.holdId = none
  -- With no hold of that id on either server, there is nothing foreign about it.
  · have halike : input.command.Alike base.db base'.db := by
      rcases h.target with hforeign | halike
      · rcases hforeign.taken with htaken | htaken
        · exact absurd habsent htaken
        · exact absurd (hsame.mpr habsent) htaken
      · exact halike
    have hinsert : Twin machine .done i j (Opened i j base base')
        (issue "insert legal hold" (.query (.insertHold input.holdId input.organizationId
          input.title input.reason input.legalAuthority input.actor))).run
        (issue "insert legal hold" (.query (.insertHold input.holdId input.organizationId
          input.title input.reason input.legalAuthority input.actor))).run
        (Matched (fun (a b : ℕ) srv srv' => (a = 1 ∧ b = 1) ∧
          Abreast i j base base' input.command.Alike SameActivityRoom srv srv')
          (ChangedAlike base base')) := by
      refine Abreast.issue fun db db' seq seq' _ _ hN hseq => ?_
      obtain ⟨rfl, rfl⟩ := hN
      obtain ⟨rfl, rfl⟩ := hseq
      exact insertHold_effect halike habsent h.activity h.time h.time'
    refine Twin.run_bind hinsert fun inserted inserted' => Twin.of_pure fun hone => ?_
    obtain ⟨rfl, rfl⟩ := hone
    simp only [ne_eq, not_true_eq_false, if_false]
    exact conclude_twin (c := input.command)
  · have htaken : base'.db.hold? input.holdId ≠ none := mt hsame.mp habsent
    refine Twin.run_bind (insertHold_taken (c := input.command) habsent htaken)
      fun inserted inserted' => Twin.of_pure fun hzero => ?_
    obtain ⟨rfl, rfl⟩ := hzero
    exact refuse_twin fun srv srv' hst => hst.changedAlike

/-- From a change of the scopes to the commit. -/
theorem advance_twin {operation : String} :
    let rest : Storage HoldView := do
      issue "advance legal hold revision" (.query (.advanceRevision c.holdId))
      c.conclude operation
    Twin machine .done i j (Abreast i j base base' c.Alike SameActivityRoom) rest.run rest.run
      (Matched (SameView base base') (ChangedAlike base base')) := by
  have hadvance : Twin machine .done i j (Abreast i j base base' c.Alike SameActivityRoom)
      (issue "advance legal hold revision" (.query (.advanceRevision c.holdId))).run
      (issue "advance legal hold revision" (.query (.advanceRevision c.holdId))).run
      (Matched (fun _ _ srv srv' => True ∧
        Abreast i j base base' c.Alike SameActivityRoom srv srv') (ChangedAlike base base')) :=
    Abreast.issue fun db db' seq seq' hdb hdb' hN hseq =>
      updateHold_effect hN hseq hdb hdb' HoldRow.advanced_restamp (fun h => h) fun h => h
  exact Twin.run_bind hadvance fun _ _ => Twin.of_pure fun _ => conclude_twin

/-- From the statement that changes the scopes to the commit. -/
theorem changeScope_twin {change : Storage ℕ} {operation : String}
    (h : Twin machine .done i j (Abreast i j base base' c.Alike (Undrawn base base')) change.run
      change.run (Matched (fun changed changed' srv srv' => changed' = changed ∧
        Abreast i j base base' c.Alike SameActivityRoom srv srv') (ChangedAlike base base'))) :
    let rest : Storage HoldView := do
      let changed ← change
      if changed ≠ 1 then refuse .scopeConflict
      else
        issue "advance legal hold revision" (.query (.advanceRevision c.holdId))
        c.conclude operation
    Twin machine .done i j (Abreast i j base base' c.Alike (Undrawn base base')) rest.run rest.run
      (Matched (SameView base base') (ChangedAlike base base')) := by
  refine Twin.run_bind h fun changed changed' => Twin.of_pure fun hchanged => ?_
  subst hchanged
  by_cases hone : changed' ≠ 1
  · simp only [if_pos hone]
    exact refuse_twin fun srv srv' hst => hst.changedAlike
  · simp only [if_neg hone]
    exact advance_twin

theorem addScope_twin {input : ScopeRequest} (h : (input.command true).Comparable base base')
    (hdrawn : maxI64 < base'.seq.scopeRow ↔ maxI64 < base.seq.scopeRow) :
    Twin machine .done i j (AtRest i j base base')
      (mutateScope { input with operation := .addScope, add := true }).run
      (mutateScope { input with operation := .addScope, add := true }).run
      (Matched (SameView base base') (ChangedAlike base base')) := by
  refine start_twin (c := input.command true) h.dated h.dated' h.receipt fun _ => ?_
  refine checks_twin (c := input.command true) h.target ?_
  refine changeScope_twin (c := input.command true) ?_
  refine Abreast.issue (q := .insertScope input.holdId input.scope input.actor)
    fun db db' seq seq' _ _ hN hseq => ?_
  obtain ⟨rfl, rfl⟩ := hseq
  exact insertScope_effect hN hdrawn h.activity h.time h.time'

theorem removeScope_twin {input : ScopeRequest}
    (h : (input.command false).Comparable base base') :
    Twin machine .done i j (AtRest i j base base')
      (mutateScope { input with operation := .removeScope, add := false }).run
      (mutateScope { input with operation := .removeScope, add := false }).run
      (Matched (SameView base base') (ChangedAlike base base')) := by
  refine start_twin (c := input.command false) h.dated h.dated' h.receipt fun _ => ?_
  refine checks_twin (c := input.command false) h.target ?_
  refine changeScope_twin (c := input.command false) ?_
  refine Abreast.issue (q := .deleteScope input.holdId input.scope)
    fun db db' seq seq' _ _ hN hseq => ?_
  obtain ⟨rfl, rfl⟩ := hseq
  exact deleteScope_effect hN h.activity

theorem releaseHold_twin {input : ReleaseHold} (h : input.command.Comparable base base') :
    Twin machine .done i j (AtRest i j base base') (releaseHold input).run
      (releaseHold input).run (Matched (SameView base base') (ChangedAlike base base')) := by
  refine start_twin (c := input.command) h.dated h.dated' h.receipt fun _ => ?_
  refine checks_twin (c := input.command) h.target ?_
  have hrelease : Twin machine .done i j
      (Abreast i j base base' input.command.Alike (Undrawn base base'))
      (issue "release legal hold"
        (.query (.releaseHold input.holdId input.actor input.reason))).run
      (issue "release legal hold"
        (.query (.releaseHold input.holdId input.actor input.reason))).run
      (Matched (fun _ _ srv srv' => True ∧
        Abreast i j base base' input.command.Alike SameActivityRoom srv srv')
        (ChangedAlike base base')) := by
    refine Abreast.issue fun db db' seq seq' hdb hdb' hN hseq => ?_
    obtain ⟨rfl, rfl⟩ := hseq
    have hdated : ∀ {now : Time}, Formattable now → ∀ {row : HoldRow}, row.Dated →
        (row.released input.actor input.reason now).Dated := by
      intro now hnow row hrow
      refine ⟨hrow.1, fun time ht => ?_⟩
      cases ht
      exact hnow
    exact updateHold_effect hN h.activity hdb hdb'
      (fun hsame => HoldRow.released_restamp hsame _ _ _ _) (hdated h.time) (hdated h.time')
  exact Twin.run_bind hrelease fun _ _ => Twin.of_pure fun _ => conclude_twin (c := input.command)

/-! ### Reads -/

/-- What an organization sees of a hold is the same in both tables, but for stamps. -/
def Db.SeenAlike (org h : String) (db db' : Db) : Prop :=
  ((db.hold? h).filter (·.organizationId = org) = none ∧
    (db'.hold? h).filter (·.organizationId = org) = none) ∨ db.Near db' h

/-- A hold that is not there for the organization. -/
theorem loadHoldTx_hidden {org h : String}
    (hnone : (base.db.hold? h).filter (·.organizationId = org) = none)
    (hnone' : (base'.db.hold? h).filter (·.organizationId = org) = none) :
    Twin machine .done i j (Opened i j base base') (loadHoldTx org h).run (loadHoldTx org h).run
      (Matched (fun _ _ _ _ => False) (ChangedAlike base base')) := by
  have hselect : ∀ db db' seq seq', db.Dated → db'.Dated → Unwritten base base' db db' →
      Undrawn base base' seq seq' →
      Effect.Twin (fun a b : Option HoldRow => a = none ∧ b = none) (Unwritten base base')
        (Undrawn base base') db db' ((Query.selectHold org h).effect db base.clock seq)
        ((Query.selectHold org h).effect db' base'.clock seq') := by
    rintro db db' seq seq' - - ⟨rfl, rfl⟩ hseq
    exact .read ⟨hnone, hnone'⟩ ⟨rfl, rfl⟩ hseq
  refine Twin.run_bind (Abreast.issue hselect) fun row row' => Twin.of_pure fun hrow => ?_
  obtain ⟨rfl, rfl⟩ := hrow
  exact refuse_twin fun srv srv' hst => hst.changedAlike

theorem getHold_twin {org h : String} (hdated : base.db.Dated) (hdated' : base'.db.Dated)
    (hseen : Db.SeenAlike org h base.db base'.db) :
    Twin machine .done i j (AtRest i j base base') (getHold org h).run (getHold org h).run
      (Matched (fun view view' srv srv' => view'.unstamped = view.unstamped ∧
        AtRest i j base base' srv srv') (ChangedAlike base base')) := by
  refine Twin.run_bind (begin_twin hdated hdated') fun _ _ => ?_
  rcases hseen with ⟨hnone, hnone'⟩ | hnear
  · exact Twin.run_bind (loadHoldTx_hidden hnone hnone') fun _ _ srv srv' hst => hst.elim
  · have hload : Twin machine .done i j (Opened i j base base') (loadHoldTx org h).run
        (loadHoldTx org h).run (Matched (fun view view' srv srv' =>
          view'.unstamped = view.unstamped ∧ Opened i j base base' srv srv')
          (ChangedAlike base base')) := by
      refine loadHoldTx_twin ?_
      rintro db db' ⟨rfl, rfl⟩
      exact hnear
    refine Twin.run_bind hload fun view view' => Twin.of_pure fun hview => ?_
    refine Twin.run_bind commitRead_twin fun _ _ => ?_
    exact Twin.ret fun srv srv' hst => ⟨hview, hst⟩

/-- The loop of `list_holds`, by induction on the ids that are left. -/
theorem collect_twin {org : String} (hdated : base.db.Dated) (hdated' : base'.db.Dated)
    (ids : List String) (hseen : ∀ h ∈ ids, Db.SeenAlike org h base.db base'.db) :
    Twin machine .done i j (AtRest i j base base') (listHolds.collect org ids).run
      (listHolds.collect org ids).run
      (Matched (fun views views' srv srv' =>
        views'.map HoldView.unstamped = views.map HoldView.unstamped ∧
          AtRest i j base base' srv srv') (ChangedAlike base base')) := by
  induction ids with
  | nil => exact Twin.ret fun srv srv' hst => ⟨rfl, hst⟩
  | cons h rest ih =>
    have hfirst := getHold_twin (i := i) (j := j) hdated hdated' (hseen h List.mem_cons_self)
    refine Twin.run_bind hfirst fun view view' => Twin.of_pure fun hview => ?_
    have hrest := ih fun h' hh' => hseen h' (List.mem_cons_of_mem _ hh')
    refine Twin.run_bind hrest fun views views' => Twin.of_pure fun hviews => ?_
    refine Twin.ret fun srv srv' hst => ⟨?_, hst⟩
    rw [List.map_cons, List.map_cons, hview, hviews]

/-- A statement on the pool that only reads, and reads the same on both servers. -/
theorem readPool_twin {q : PoolQuery} {operation : String} (reply : Except SqlError q.Rows)
    (h : ∀ {srv : Server}, srv.db = base.db → srv.pool q = (srv, reply))
    (h' : ∀ {srv : Server}, srv.db = base'.db → srv.pool q = (srv, reply)) :
    Twin machine .done i j (AtRest i j base base') (issue operation (.pool q)).run
      (issue operation (.pool q)).run
      (Matched (fun rows rows' srv srv' => (rows' = rows ∧ reply = .ok rows) ∧
        AtRest i j base base' srv srv') (ChangedAlike base base')) := by
  refine issue_twin fun srv srv' hst srv₁ r srv₁' r' hperform hperform' => ?_
  simp only [Server.perform, h hst.db] at hperform
  simp only [Server.perform, h' hst.db'] at hperform'
  cases hperform
  cases hperform'
  have hnoted : AtRest i j base base' (srv.note i (.pool q) .done srv.log.length)
      (srv'.note j (.pool q) .done srv'.log.length) :=
    ⟨hst.tx, hst.tx', hst.db, hst.db', hst.clock, hst.clock', hst.seq, hst.seq'⟩
  cases reply with
  | ok rows => exact ⟨⟨rfl, rfl⟩, hnoted⟩
  | error e => exact ⟨rfl, hnoted.changedAlike⟩

theorem listHolds_twin {org : String} {status : Option Status} {cursor : Option String}
    {limit : Int} (hdated : base.db.Dated) (hdated' : base'.db.Dated)
    (hpage : Server.holdPage base'.db org status cursor (limit + 1) =
      Server.holdPage base.db org status cursor (limit + 1))
    (hseen : ∀ h ∈ Server.holdPage base.db org status cursor (limit + 1),
      Db.SeenAlike org h base.db base'.db) :
    Twin machine .done i j (AtRest i j base base') (listHolds org status cursor limit).run
      (listHolds org status cursor limit).run
      (Matched (fun page page' srv srv' =>
        (page'.1.map HoldView.unstamped = page.1.map HoldView.unstamped ∧ page'.2 = page.2) ∧
          AtRest i j base base' srv srv') (ChangedAlike base base')) := by
  have hlist : Twin machine .done i j (AtRest i j base base')
      (issue "list legal holds" (.pool (.listHolds org status cursor (limit + 1)))).run
      (issue "list legal holds" (.pool (.listHolds org status cursor (limit + 1)))).run
      (Matched (fun (rows rows' : List String) srv srv' => (rows' = rows ∧
        rows ⊆ Server.holdPage base.db org status cursor (limit + 1)) ∧
        AtRest i j base base' srv srv') (ChangedAlike base base')) := by
    refine (readPool_twin (q := .listHolds org status cursor (limit + 1))
      (if limit + 1 < 0 then .error .negativeLimit
        else .ok (Server.holdPage base.db org status cursor (limit + 1)))
      (fun hdb => ?_) fun hdb => ?_).run_conseq ?_
    · simp only [Server.pool, hdb]
    · simp only [Server.pool, hdb, hpage]
    · rintro rows rows' srv srv' ⟨⟨rfl, hrows⟩, hst⟩
      refine ⟨⟨rfl, ?_⟩, hst⟩
      split at hrows
      · cases hrows
      · cases hrows
        exact List.Subset.refl _
  refine Twin.run_bind hlist fun rows rows' => Twin.of_pure fun hrows => ?_
  obtain ⟨rfl, hsub⟩ := hrows
  refine Twin.run_bind (collect_twin hdated hdated' _ fun h hh => ?_) fun views views' =>
    Twin.of_pure fun hviews => ?_
  · exact hseen h (hsub (List.mem_of_mem_take hh))
  · refine Twin.ret fun srv srv' hst => ⟨⟨hviews, ?_⟩, hst⟩
    -- The cursor is the id of the last view, which carries no stamps.
    have hlast := congrArg (fun vs => vs.getLast?.map (·.holdId)) hviews
    simp only [List.getLast?_map, Option.map_map] at hlast
    have hids : ∀ vs : List HoldView, vs.getLast?.map ((·.holdId) ∘ HoldView.unstamped) =
        vs.getLast?.map (·.holdId) := fun vs => rfl
    rw [hids, hids] at hlast
    simp only [hlast]

theorem listActivity_twin {org h : String} {after limit : Int} (hdated : base.db.Dated)
    (hdated' : base'.db.Dated) (hseen : Db.SeenAlike org h base.db base'.db)
    (hpage : Server.activityPage base'.db org h after limit =
      Server.activityPage base.db org h after limit) :
    Twin machine .done i j (AtRest i j base base') (listActivity org h after limit).run
      (listActivity org h after limit).run
      (Matched (fun page page' srv srv' => page' = page ∧ AtRest i j base base' srv srv')
        (ChangedAlike base base')) := by
  refine Twin.run_bind (getHold_twin hdated hdated' hseen) fun _ _ => Twin.of_pure fun _ => ?_
  have hlist : Twin machine .done i j (AtRest i j base base')
      (issue "list legal hold activity" (.pool (.listActivity org h after limit))).run
      (issue "list legal hold activity" (.pool (.listActivity org h after limit))).run
      (Matched (fun (rows rows' : List ActivityRow) srv srv' => rows' = rows ∧
        AtRest i j base base' srv srv') (ChangedAlike base base')) := by
    refine (readPool_twin (q := .listActivity org h after limit)
      (if limit < 0 then .error .negativeLimit
        else .ok (Server.activityPage base.db org h after limit))
      (fun hdb => ?_) fun hdb => ?_).run_conseq ?_
    · simp only [Server.pool, hdb]
    · simp only [Server.pool, hdb, hpage]
    · rintro rows rows' srv srv' ⟨⟨rfl, -⟩, hst⟩
      exact ⟨rfl, hst⟩
  refine Twin.run_bind hlist fun rows rows' => Twin.of_pure fun hrows => ?_
  subst hrows
  refine Twin.run_bind (pureStep_twin fun srv srv' hst => hst.changedAlike) fun events events' => ?_
  refine Twin.ret fun srv srv' hst => ?_
  obtain ⟨rfl, -, hst⟩ := hst
  exact ⟨rfl, hst⟩

end

end LegalHold
