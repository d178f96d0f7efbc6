import LegalHold.Authorization
import LegalHold.Contract
import LegalHold.Serial
import LegalHold.Snapshots

/-!
# Responses and their schema

A hold of a response has a status and a revision that its schema allows, and all of its
members.  Only the number of its scopes is not kept within the bound of the schema: nothing
limits how many are added.

## Main definitions

* `HoldView.Fits` — the schema accepts the hold.
* `Server.Overfull` — a commit that adds a scope to a hold that has as many as the schema
  allows.

## Main results

* `HoldView.fits_iff` — what the schema asks of a hold.
* `Reachable.scopes_length_le` — without such a commit no hold has too many scopes.
* `responses_fit` — **without such a commit every hold of every response fits**, and the
  response to such a commit does not.
-/

namespace LegalHold

open Interleave JsonSchema

/-! ### What the schema asks of a hold -/

/-- The published schema of a hold response accepts the view when it is serialized. -/
def HoldView.Fits (view : HoldView) : Prop := holdResponseSchema.accepts view.toValue = true

theorem ScopeView.fits (scope : ScopeView) : holdScopeSchema.accepts scope.toValue = true := by
  refine (Schema.accepts_record_iff (by decide)).mpr ⟨_, rfl, ?_⟩
  simp [plainText_accepts, nullableText_accepts, dateTime_accepts]

/-- The schema of a hold asks for at most 1000 scopes. -/
theorem scopes_accepts_iff {scopes : List ScopeView} :
    (Schema.listOf { types := [.array], maxItems := some 1000 } holdScopeSchema).accepts
      (Json.arr (scopes.map ScopeView.toValue)) = true ↔ scopes.length ≤ 1000 := by
  simp [Schema.accepts_listOf_iff, Keywords.accepts, View.is, ScopeView.fits]

/-- **What the schema asks of a hold**: one of the two statuses, a positive revision, and no more
than 1000 scopes. -/
theorem HoldView.fits_iff {view : HoldView} :
    view.Fits ↔ (view.status = "active" ∨ view.status = "released") ∧
      (∃ n : ℕ, 0 < n ∧ view.revision = formatI64 n) ∧ view.scopes.length ≤ 1000 := by
  unfold Fits holdResponseSchema
  rw [Schema.accepts_record_iff (by decide)]
  simp only [toValue, view_obj, View.object.injEq, exists_eq_left', List.forall_mem_cons,
    List.exists_mem_cons_iff]
  simp [plainText_accepts, nullableText_accepts, dateTime_accepts, statusText_accepts_iff,
    positiveDecimal_accepts_iff, scopes_accepts_iff]

section

variable [Backend]

/-- A view fits when there are not too many rows. -/
theorem holdView_fits_iff {row : HoldRow} {rows : List ScopeRow} {view : HoldView}
    (h : holdView row rows = .ok view) (hrev : 1 ≤ row.revision) :
    view.Fits ↔ rows.length ≤ 1000 := by
  obtain ⟨scopes, createdAt, releasedAt, hscopes, -, -, rfl⟩ := holdView_eq_ok.mp h
  have hstatus : row.status.text = "active" ∨ row.status.text = "released" := by
    cases row.status <;> simp [Status.text]
  have hrevision : ∃ n : ℕ, 0 < n ∧ formatI64 row.revision = formatI64 n :=
    ⟨row.revision.toNat, by omega, by rw [Int.toNat_of_nonneg (by omega)]⟩
  rw [HoldView.fits_iff, (mapM_eq_ok hscopes).length_eq]
  exact ⟨fun hfits => hfits.2.2, fun hle => ⟨hstatus, hrevision, hle⟩⟩

/-! ### The scopes of a hold along a run -/

/-- The `n`-th commit adds a scope to a hold that has as many as the schema allows. -/
def Server.Overfull (srv : Server) (n : ℕ) : Prop :=
  ∃ cmd view scope revision, srv.Commit n cmd view ∧ cmd.change = .addScope scope revision ∧
    1000 ≤ ((srv.asOf n).scopesOf cmd.holdId).length

/-- A mutation adds one scope to its hold, or none to any hold. -/
theorem Mutation.length_scopesOf {db : Db} {t : Tx} {cmd : Command} {ws : List Write}
    {activityId : Int} {view : HoldView} (h : Mutation db t cmd ws activityId view) :
    ((∃ scope revision, cmd.change = .addScope scope revision) ∧
      ((db.putAll t.writes).scopesOf cmd.holdId).length =
        (db.scopesOf cmd.holdId).length + 1) ∨
    ((∀ scope revision, cmd.change ≠ .addScope scope revision) ∧
      ((db.putAll t.writes).scopesOf cmd.holdId).length ≤ (db.scopesOf cmd.holdId).length) := by
  rw [(h.putAll_writes cmd.holdId).2]
  cases h.changed with
  | create change absent => exact .inr ⟨by simp [change], by simp⟩
  | addScope change opened absent drawn => exact .inl ⟨⟨_, _, change⟩, by simp⟩
  | removeScope change opened present =>
    refine .inr ⟨by simp [change], ?_⟩
    simp only [Db.putAll_cons, Db.putAll_nil, Db.scopesOf_updateHold, Db.scopesOf_deleteScope,
      if_true]
    exact List.length_filter_le _ _
  | release change opened => exact .inr ⟨by simp [change], by simp⟩

variable {c : Config}

/-- **Without such a commit no hold has too many scopes.** -/
theorem Reachable.scopes_length_le (h : Reachable c) (hfew : ∀ n, ¬c.shared.Overfull n) {m : ℕ}
    (hm : m ≤ c.shared.log.length) (hold : String) :
    ((c.shared.asOf m).scopesOf hold).length ≤ 1000 := by
  refine h.commit_induction_from (k := 0)
    (P := fun m => ∀ hold, ((c.shared.asOf m).scopesOf hold).length ≤ 1000) ?_ ?_
    (Nat.zero_le m) hm hold
  · exact fun hold => Nat.zero_le _
  · intro n t cmd ws activityId view _ ih hc hmut hsucc hold
    rw [hsucc]
    by_cases hhold : hold = cmd.holdId
    · subst hhold
      have hle := ih cmd.holdId
      rcases hmut.length_scopesOf with ⟨⟨scope, revision, hadd⟩, hlen⟩ | ⟨-, hlen⟩
      · have hroom : ((c.shared.asOf n).scopesOf cmd.holdId).length < 1000 :=
          Nat.lt_of_not_le fun hfull => hfew n ⟨cmd, view, scope, revision, hc, hadd, hfull⟩
        omega
      · omega
    · rw [(hmut.other_hold hhold).2.1]
      exact ih hold

/-! ### The holds of a response -/

/-- The view is made of the row and the scopes of its hold in committed states. -/
def Server.Shows (srv : Server) (view : HoldView) : Prop :=
  ∃ n m row, n ≤ srv.log.length ∧ m ≤ srv.log.length ∧
    (srv.asOf n).hold? view.holdId = some row ∧
    holdView row ((srv.asOf m).sortedScopes view.holdId) = .ok view

/-- A commit has answered with the hold as it was right after the commit. -/
theorem Server.Commit.shows {srv : Server} {n : ℕ} {cmd : Command} {view : HoldView}
    (hc : srv.Commit n cmd view) : view.holdId = cmd.holdId ∧
      ∃ row, (srv.asOf (n + 1)).hold? view.holdId = some row ∧
        holdView row ((srv.asOf (n + 1)).sortedScopes view.holdId) = .ok view := by
  obtain ⟨t, -, -, hload⟩ := hc
  obtain ⟨row, hfound, -, hmade⟩ := Db.loadHold_eq_ok.mp hload
  have hid : view.holdId = cmd.holdId :=
    (holdView_holdId hmade).trans (Db.holdId_of_hold? hfound)
  rw [hid]
  exact ⟨rfl, row, hfound, hmade⟩

/-- **Every hold that is returned** shows committed states. -/
theorem Reachable.shows (h : Reachable c) {i : ℕ} {op : Op} {a : Answer}
    (hr : Returned c i op (.ok a)) {view : HoldView} (hview : view ∈ a.views) :
    c.shared.Shows view := by
  have hread : ∀ {org : String}, op.Reads org → c.shared.Shows view := fun hop => by
    obtain ⟨e₁, e₂, hread⟩ := h.viewRead (i := ⟨i, op⟩) hop hr hview
    obtain ⟨row, hrow, -, hmade⟩ := hread.made
    exact ⟨e₁.seen, e₂.seen, row, h.inv.seen_le hread.rowMem, h.inv.seen_le hread.scopesMem, hrow,
      hmade⟩
  have hmutated : ∀ {cmd : Command}, op.command? = some cmd → c.shared.Shows view :=
      fun {cmd} hcmd => by
    obtain ⟨r', heq, -⟩ := h.outcome (i := ⟨i, op⟩) hr hcmd
    cases r' with
    | error e => cases heq
    | ok view' =>
      cases heq
      obtain rfl := List.mem_singleton.mp hview
      obtain ⟨n, cmd₀, hc, -, -⟩ := h.ok (i := ⟨i, op⟩) hr hcmd
      obtain ⟨-, row, hrow, hmade⟩ := hc.shows
      exact ⟨n + 1, n + 1, row, Server.commit_lt hc, Server.commit_lt hc, hrow, hmade⟩
  cases op with
  | createHold input => exact hmutated rfl
  | addScope input => exact hmutated rfl
  | removeScope input => exact hmutated rfl
  | releaseHold input => exact hmutated rfl
  | getHold org hold => exact hread (.inl ⟨hold, rfl⟩)
  | listHolds org status cursor limit => exact hread (.inr ⟨status, cursor, limit, rfl⟩)
  | listActivity org hold after limit =>
    obtain ⟨-, events, next, e, rfl, -⟩ := returned_post h hr a rfl
    cases hview
  | checkRetention input =>
    obtain ⟨-, d, e, rfl, -⟩ := returned_post h hr a rfl
    cases hview

/-- The holds that are in a response. -/
def Response.views : Response → List HoldView
  | .hold view => [view]
  | .holds response => response.holds
  | .activity _ => []

omit [Backend] in
theorem Answer.views_response? {a : Answer} {response : Response}
    (h : a.response? = some response) : response.views = a.views := by
  cases a <;> cases h <;> rfl

/-- **Every hold of every response fits its schema** as long as no scope is added to a hold that
has as many as the schema allows; the response to such an addition does not fit. -/
theorem responses_fit {Ctx : Type} (p : Plugin Ctx) (h : Reachable c) :
    ((∀ n, ¬c.shared.Overfull n) → ∀ {i : ℕ} {op : Op} {a : Answer} {response : Response},
      Returned c i op (.ok a) → p.respond a = .ok response →
        ∀ view ∈ response.views, view.Fits) ∧
    ∀ {n : ℕ} {t : Tx} {a : Answer} {response : Response}, c.shared.Overfull n →
      c.shared.log[n]? = some t → Returned c t.owner.id t.owner.op (.ok a) →
      p.respond a = .ok response → ∃ view ∈ response.views, ¬view.Fits := by
  constructor
  · intro hfew i op a response hr hresponse view hview
    rw [Answer.views_response? (Plugin.respond_eq_ok hresponse)] at hview
    obtain ⟨n, m, row, hn, hm, hrow, hmade⟩ := h.shows hr hview
    rw [holdView_fits_iff hmade ((h.coherent n).revision_pos hrow), Db.sortedScopes,
      List.length_insertionSort]
    exact h.scopes_length_le hfew hm view.holdId
  · rintro n t a response ⟨cmd, view, scope, revision, hc, hadd, hfull⟩ hn hr hresponse
    have hcmd : t.owner.op.command? = some cmd := by
      obtain ⟨t', hn', hcmd, -⟩ := hc
      cases hn.symm.trans hn'
      exact hcmd
    -- the session has answered with the view of its commit
    obtain ⟨r', heq, -⟩ := h.outcome hr hcmd
    cases r' with
    | error e => cases heq
    | ok view' =>
      cases heq
      obtain ⟨n', cmd', hc', hkey, -⟩ := h.ok hr hcmd
      obtain rfl := h.key_unique hc' hc hkey
      obtain ⟨rfl, rfl⟩ := Server.commit_unique hc' hc
      refine ⟨view', ?_, ?_⟩
      · rw [Answer.views_response? (Plugin.respond_eq_ok hresponse)]
        exact List.mem_singleton_self view'
      · obtain ⟨hid, row, hrow, hmade⟩ := hc'.shows
        rw [holdView_fits_iff hmade ((h.coherent _).revision_pos hrow), Db.sortedScopes,
          List.length_insertionSort, hid]
        obtain ⟨t', ws, activityId, -, hmut, hsucc⟩ := h.mutation hc'
        rw [hsucc]
        rcases hmut.length_scopesOf with ⟨-, hlen⟩ | ⟨hno, -⟩
        · omega
        · exact absurd hadd (hno scope revision)

/-! ### Filling a hold -/

/-- A command that is possible when no transaction is open is carried out. -/
theorem Reachable.carry (h : Reachable c) (htxs : c.shared.txs = []) {op : Op} {cmd : Command}
    {ws : List Write} {view : HoldView} (hcmd : op.command? = some cmd)
    (hp : Possible c.shared cmd ws view) :
    ∃ c', Reachable c' ∧ Returned c' c.procs.length op (.ok (.hold view)) ∧
      Carried c.shared cmd ws view c'.shared := by
  obtain ⟨srv, hserially, hcarried⟩ : ∃ srv, serially c [(0, op)] =
      some ⟨srv, c.procs ++ [⟨op, some (.ret (.ok (.hold view)))⟩]⟩ ∧
      Carried c.shared cmd ws view srv := hp.serially rfl htxs hcmd
  exact ⟨_, h.trans (Machine.reaches_serially hserially), List.getElem?_concat_length, hcarried⟩

/-- What is written on dated tables can be shown. -/
theorem exists_view {db : Db} {row : HoldRow} {org hold : String} (hdb : db.Dated)
    (hrow : db.hold? hold = some row) (horg : row.organizationId = org) :
    ∃ view, db.loadHold org hold = .ok view ∧ view.scopes.length = (db.scopesOf hold).length := by
  have hscopes : ∀ s ∈ db.sortedScopes hold, Formattable s.createdAt := fun s hs =>
    hdb.scopes s (Db.mem_sortedScopes.mp hs).1
  obtain ⟨view, hview⟩ := holdView_of_dated (hdb.holds row (List.mem_of_find?_eq_some hrow)) hscopes
  refine ⟨view, Db.loadHold_eq_ok.mpr ⟨row, hrow, horg, hview⟩, ?_⟩
  obtain ⟨scopes, createdAt, releasedAt, hs, -, -, rfl⟩ := holdView_eq_ok.mp hview
  rw [← (mapM_eq_ok hs).length_eq, Db.sortedScopes, List.length_insertionSort]

end

namespace Sample.Filling

variable [Backend]

/-- A request to put the file with the number `k` under `h`, the `k`-th addition. -/
def addition (k : ℕ) : MutateScopeRequest :=
  ⟨"org", "h", "file", formatI64 k, none, formatI64 (k + 1), formatI64 k⟩

/-- The input of the storage for the addition that comes as number `k`. -/
def additionInput (k : ℕ) : ScopeRequest :=
  let input : ScopeRequest :=
    ⟨"admin", "alice", "org", "h", "file", formatI64 k, none, k + 1, formatI64 k, []⟩
  { input with requestHash := Backend.digest input.hashInput }

omit [Backend] in
theorem utf8ByteSize_of_digits {cs : List Char} (h : ∀ c ∈ cs, c.isDigit = true) :
    (String.ofList cs).utf8ByteSize = cs.length := by
  induction cs with
  | nil => rfl
  | cons c cs ih =>
    have hone : c.utf8Size = 1 := by
      obtain ⟨-, hhigh⟩ := Char.isDigit_iff_toNat.mp (h c List.mem_cons_self)
      refine Char.utf8Size_eq_one_iff.mpr (UInt32.le_iff_toNat_le.mpr ?_)
      exact Nat.le_trans hhigh (by decide)
    have happ : String.ofList (c :: cs) = String.singleton c ++ String.ofList cs := by
      rw [← String.toList_inj]
      simp
    rw [happ, String.utf8ByteSize_append, String.utf8ByteSize_singleton, hone,
      ih fun d hd => h d (List.mem_cons_of_mem c hd), List.length_cons, Nat.add_comm]

omit [Backend] in
/-- The text of a number with at most nine digits is a valid text. -/
theorem validText_formatI64 {k maxBytes : ℕ} (hk : k < 10 ^ 9) (hmax : 9 ≤ maxBytes) :
    validText (formatI64 k) maxBytes false = true := by
  have hlist := toList_formatI64_natCast k
  have hdigits : ∀ c ∈ Nat.toDigits 10 k, c.isDigit = true := fun c hc =>
    Nat.isDigit_of_mem_toDigits (by decide) (by decide) hc
  have hplain : ∀ c : Char, c.isDigit = true → isControl c = false ∧ isWhitespace c = false := by
    intro c hc
    obtain ⟨hlt, hchar⟩ := digitChar_of_isDigit hc
    have hall : ∀ n < 10, isControl (Nat.digitChar n) = false ∧
        isWhitespace (Nat.digitChar n) = false := by decide
    rw [← hchar]
    exact hall _ hlt
  have hsize : (formatI64 k).utf8ByteSize ≤ maxBytes := by
    have htext : formatI64 k = String.ofList (Nat.toDigits 10 k) := by
      rw [← String.toList_inj, hlist, String.toList_ofList]
    rw [htext, utf8ByteSize_of_digits hdigits]
    exact ((Nat.length_toDigits_le_iff (by decide) (by decide)).mpr hk).trans hmax
  obtain ⟨c, cs, hcons⟩ := List.exists_cons_of_ne_nil (Nat.toDigits_ne_nil (n := k) (b := 10))
  have hblank : (formatI64 k).toList.all isWhitespace = false := by
    rw [hlist, hcons, List.all_cons, (hplain c (hdigits c (hcons ▸ List.mem_cons_self))).2]
    rfl
  have hcontrol : (formatI64 k).toList.any isControl = false := by
    rw [hlist, List.any_eq_false]
    intro c hc
    rw [(hplain c (hdigits c hc)).1]
    exact Bool.false_ne_true
  simp [validText, hsize, hblank, hcontrol]

/-- The addition that comes as number `k` is a valid request. -/
theorem addition_valid {k : ℕ} (hk : k < 10 ^ 9) :
    (AdminRequest.addScope (addition k)).op? "admin" "alice" =
      some (.addScope (additionInput k)) := by
  have hrevision : parseRevision (formatI64 (k + 1)) = some ((k : Int) + 1) := by
    have hbound : ((k : Int) + 1) ≤ maxI64 := by
      unfold maxI64
      omega
    unfold parseRevision
    rw [parseI64_formatI64 (by omega) hbound, Option.filter_some, if_pos (by simp)]
  have hid : validId (formatI64 k) = true := validText_formatI64 hk (by decide)
  have hkey : validIdempotencyKey (formatI64 k) = true := validText_formatI64 hk (by decide)
  have horg : validId "org" = true := by decide
  have hhold : validId "h" = true := by decide
  have hkind : validText "file" 128 false = true := by decide
  simp [AdminRequest.op?, MutateScopeRequest.input?, addition, hrevision, hid, hkey, horg, hhold,
    hkind]
  rfl

/-- The state after `n` additions, and all that the next one needs. -/
structure Filled (n : ℕ) (c : Config) : Prop where
  reachable : Reachable c
  txs : c.shared.txs = []
  dated : c.shared.db.Dated
  clock : c.shared.clock = 0
  activity : c.shared.seq.activity ≤ n + 2
  scopeRow : c.shared.seq.scopeRow ≤ n + 2
  hold : ∃ row, c.shared.db.hold? "h" = some row ∧ row.organizationId = "org" ∧
    row.status = .active ∧ row.revision = n + 1
  count : (c.shared.db.scopesOf "h").length = n
  absent : ∀ k ≥ n, ¬ c.shared.db.HasScope "h" (additionInput k).scope
  unseen : ∀ k ≥ n, c.shared.db.command? ((additionInput k).command true).key = none

/-- The hold is created, with no scope yet. -/
theorem filled_zero (hzero : Formattable 0) : ∃ c, Filled 0 c := by
  obtain ⟨input, hinput⟩ : ∃ input : CreateHold, input = ⟨"admin", "alice", "org", "h", "title",
      "reason", "court", "create", Backend.digest (createRequest "h" "create").hashInput⟩ :=
    ⟨_, rfl⟩
  obtain ⟨row, hrow⟩ : ∃ row, row = createdRow "h" "org" "title" "reason" "court" "alice" 0 :=
    ⟨_, rfl⟩
  have hchanged : Changes initial.shared.db input.command initial.shared.clock
      [.insertHold row] := by
    subst hinput hrow
    exact .create rfl rfl
  have hws := hchanged.dated Db.dated_empty hzero
  have hafter : (initial.shared.db.putAll [.insertHold row]).hold? "h" = some row := by
    subst hrow
    rfl
  have horg : row.organizationId = "org" := by rw [hrow]; rfl
  obtain ⟨view, hload, -⟩ := exists_view (Db.Dated.putAll hws Db.dated_empty) hafter horg
  -- The creation can be carried out on the empty tables.
  have hpossible : Possible initial.shared input.command [.insertHold row] view := by
    refine ⟨rfl, hchanged, fun row' hrow' => ?_, show (1 : Int) ≤ maxI64 by decide, ?_⟩
    · simp at hrow'
    · subst hinput
      exact hload
  have hstart : Reachable initial := Machine.Reaches.refl initial
  have hcommand : (Op.createHold input).command? = some input.command := rfl
  obtain ⟨c, hc, -, hcarried⟩ := hstart.carry rfl hcommand hpossible
  have hdb : c.shared.db = initial.shared.db.putAll (input.command.writes [.insertHold row]
      initial.shared.seq.activity view initial.shared.clock) := hcarried.db
  refine ⟨c, hc, hcarried.txs, hcarried.dated hws Db.dated_empty, hcarried.clock, ?_, ?_, ?_, ?_,
    ?_, ?_⟩
  · exact Int.le_of_eq hcarried.activity
  · exact hcarried.scopeRow
  · refine ⟨row, ?_, horg, ?_, ?_⟩
    · rw [hdb]
      exact hafter
    · rw [hrow]
      rfl
    · rw [hrow]
      rfl
  · rw [hdb]
    rfl
  · rintro k - ⟨s, hs, -⟩
    rw [hdb] at hs
    cases hs
  · intro k _
    rw [hdb, hinput]
    rfl

/-- Different additions put different files under the hold, under different keys. -/
theorem scope_injective {n k : ℕ} (h : (additionInput n).scope = (additionInput k).scope) :
    n = k := by
  have htext : formatI64 n = formatI64 k := congrArg Scope.scopeId h
  have hnk := formatI64_injective htext
  omega

theorem key_injective {n k : ℕ}
    (h : ((additionInput n).command true).key = ((additionInput k).command true).key) :
    n = k := by
  have htext : formatI64 n = formatI64 k := congrArg CommandKey.idempotencyKey h
  have hnk := formatI64_injective htext
  omega

/-- The row that the next addition inserts. -/
def added (n : ℕ) (c : Config) : ScopeRow :=
  ⟨(additionInput n).scope, c.shared.seq.scopeRow, "h", "alice", 0⟩

/-- The next addition is possible, and its response shows one more scope. -/
theorem Filled.possible (hzero : Formattable 0) {n : ℕ} {c : Config} (h : Filled n c)
    (hn : n < 10 ^ 9) {row : HoldRow} {cmd : Command} (hcmd : cmd = (additionInput n).command true)
    (hopen : c.shared.db.Open cmd (n + 1) row) :
    ∃ view, view.scopes.length = n + 1 ∧
      (∀ w ∈ [Write.insertScope (added n c), .updateHold row.advanced], w.Dated) ∧
      Possible c.shared cmd [.insertScope (added n c), .updateHold row.advanced] view := by
  have hmax : (10 ^ 9 : ℕ) < maxI64 := by decide
  obtain ⟨hrow, horg, -, hrevision, -⟩ := id hopen
  have hscopeRow := h.scopeRow
  have hactivity := h.activity
  -- The scope is not there, and there is room for its number.
  have hchanged : Changes c.shared.db cmd c.shared.clock
      [.insertScope (added n c), .updateHold row.advanced] := by
    subst hcmd
    rw [h.clock]
    exact .addScope rfl hopen (h.absent n (Nat.le_refl n)) (by omega)
  have hws := hchanged.dated h.dated (by rw [h.clock]; exact hzero)
  have hhold : cmd.holdId = "h" := by rw [hcmd]; rfl
  have hid : row.advanced.holdId = "h" :=
    show row.holdId = "h" from (Db.holdId_of_hold? hrow).trans hhold
  have hafter : (c.shared.db.putAll
      [.insertScope (added n c), .updateHold row.advanced]).hold? "h" = some row.advanced := by
    rw [hhold] at hrow
    simp [hrow, hid]
  obtain ⟨view, hload, hlen⟩ := exists_view (Db.Dated.putAll hws h.dated) hafter horg
  refine ⟨view, ?_, hws, ?_, hchanged, ?_, by omega, ?_⟩
  · rw [hlen]
    simp [added, h.count]
  · subst hcmd
    exact h.unseen n (Nat.le_refl n)
  · intro row' hrow'
    simp only [List.mem_cons, Write.insertScope.injEq, reduceCtorEq, List.not_mem_nil,
      or_false] at hrow'
    rw [hrow', added]
  · subst hcmd
    exact hload

/-- **One more scope**, and the response that shows it. -/
theorem Filled.next (hzero : Formattable 0) {n : ℕ} {c : Config} (h : Filled n c)
    (hn : n < 10 ^ 9) :
    ∃ c' view, Filled (n + 1) c' ∧ view.scopes.length = n + 1 ∧
      Returned c' c.procs.length (.addScope (additionInput n)) (.ok (.hold view)) := by
  obtain ⟨row, hrow, horg, hactive, hrevision⟩ := h.hold
  have hmax : (10 ^ 9 : ℕ) < maxI64 := by decide
  obtain ⟨cmd, hcmd⟩ : ∃ cmd, cmd = (additionInput n).command true := ⟨_, rfl⟩
  have hopen : c.shared.db.Open cmd (n + 1) row := by
    subst hcmd
    exact ⟨hrow, horg, hactive, hrevision, by omega⟩
  have hcommand : (Op.addScope (additionInput n)).command? = some cmd := by
    rw [hcmd]
    rfl
  obtain ⟨view, hcount, hws, hpossible⟩ := h.possible hzero hn hcmd hopen
  -- The addition is run by a session of its own, from beginning to end.
  obtain ⟨c', hc', hr, hcarried⟩ := h.reachable.carry h.txs hcommand hpossible
  have hdb : c'.shared.db =
      (c.shared.db.putAll [.insertScope (added n c), .updateHold row.advanced]).putAll
      [.insertActivity (cmd.activity c.shared.seq.activity c.shared.clock),
        .insertCommand (cmd.receipt view c.shared.clock)] := by
    rw [hcarried.db, Command.writes, Db.putAll_append]
  have hscopes : c'.shared.db.scopesOf "h" = c.shared.db.scopesOf "h" ++ [added n c] := by
    rw [hdb]
    simp [added]
  refine ⟨c', view, ?_, hcount, hr⟩
  refine ⟨hc', hcarried.txs, hcarried.dated hws h.dated, hcarried.clock.trans h.clock, ?_, ?_, ?_,
    ?_, ?_, ?_⟩
  · have hactivity := h.activity
    rw [hcarried.activity]
    push_cast
    omega
  · have hscopeRow := h.scopeRow
    have hle := hcarried.scopeRow
    push_cast
    omega
  · refine ⟨row.advanced, ?_, horg, hactive, ?_⟩
    · have hid : row.advanced.holdId = "h" := show row.holdId = "h" from Db.holdId_of_hold? hrow
      rw [hdb]
      simp [hrow, hid]
    · show row.revision + 1 = _
      push_cast
      omega
  · rw [hscopes, List.length_append, h.count, List.length_singleton]
  -- The scopes and the keys of later additions are others than those used so far.
  · rintro k hk ⟨s, hs, heq⟩
    rw [hscopes] at hs
    rcases List.mem_append.mp hs with hs | hs
    · exact h.absent k (by omega) ⟨s, hs, heq⟩
    · rw [List.mem_singleton.mp hs] at heq
      obtain rfl := scope_injective heq
      omega
  · intro k hk
    have hnone : c.shared.db.command? ((additionInput k).command true).key = none :=
      h.unseen k (by omega)
    have hother : (cmd.receipt view c.shared.clock).toCommandKey ≠
        ((additionInput k).command true).key := by
      subst hcmd
      intro heq
      obtain rfl := key_injective heq
      omega
    simp only [hdb, Db.putAll_cons, Db.putAll_nil, Db.command?_insertCommand]
    exact Option.or_eq_none_iff.mpr ⟨hnone, if_neg hother⟩

/-- **Nothing limits the number of scopes**: a hold can be filled with any number of them. -/
theorem exists_filled (hzero : Formattable 0) {n : ℕ} (hn : n ≤ 10 ^ 9) : ∃ c, Filled n c := by
  induction n with
  | zero => exact filled_zero hzero
  | succ n ih =>
    obtain ⟨c, hc⟩ := ih (by omega)
    obtain ⟨c', -, hc', -⟩ := hc.next hzero (by omega)
    exact ⟨c', hc'⟩

end Sample.Filling

namespace Sample

/-- The plugin reads every text as a timestamp. -/
theorem plugin_wireHold {view : HoldView} (h : view.status = "active" ∨ view.status = "released") :
    plugin.wireHold view = .ok view := by
  have hforM : ∀ l : List ScopeView,
      (l.forM fun scope => plugin.timestamp scope.createdAt) = .ok () := by
    intro l
    induction l with
    | nil => rfl
    | cons scope l ih => exact ih
  refine bind_eq_ok.mpr ⟨(), rfl, bind_eq_ok.mpr ⟨(), ?_, ?_⟩⟩
  · cases view.releasedAt <;> rfl
  · exact bind_eq_ok.mpr ⟨(), hforM view.scopes, if_pos h⟩

/-- **After 1001 additions** to one hold, each a valid request, the response to the last one does
not fit its schema. -/
theorem overfull_response :
    ∃ (c : Config) (i : ℕ) (op : Op) (view : HoldView),
      (AdminRequest.addScope (Filling.addition 1000)).op? "admin" "alice" = some op ∧
      Reachable c ∧ Returned c i op (.ok (.hold view)) ∧
      plugin.respond (.hold view) = .ok (.hold view) ∧ ¬view.Fits := by
  have hzero : Formattable 0 := ⟨_, rfl⟩
  obtain ⟨c, hc⟩ := Filling.exists_filled hzero (n := 1000) (by decide)
  obtain ⟨c', view, hc', hlen, hr⟩ := hc.next hzero (by decide)
  refine ⟨c', _, _, view, Filling.addition_valid (by decide), hc'.reachable, hr, ?_, ?_⟩
  · obtain ⟨n, m, row, -, -, -, hmade⟩ := hc'.reachable.shows hr (List.mem_singleton_self view)
    obtain ⟨scopes, createdAt, releasedAt, -, -, -, hview⟩ := holdView_eq_ok.mp hmade
    have hstatus : view.status = "active" ∨ view.status = "released" := by
      rw [hview]
      cases row.status <;> simp [Status.text]
    show Response.hold <$> Plugin.wireCast plugin.wireHold view = _
    rw [Plugin.wireCast_eq_ok.mpr (plugin_wireHold hstatus)]
    rfl
  · rw [HoldView.fits_iff, hlen]
    rintro ⟨-, -, hle⟩
    exact absurd hle (by decide)

/-- The hold with its one scope fits the schema. -/
theorem holding_fits :
    ∃ view, Returned (after holding) 1 (add 1) (.ok (.hold view)) ∧ view.Fits := by
  have hreach : Reachable (after holding) := reachable_after holding
  have hlog : (after holding).shared.log.length = 2 := rfl
  have hnone : ((after holding).shared.asOf 0).scopes = [] ∧
      ((after holding).shared.asOf 1).scopes = [] := ⟨rfl, rfl⟩
  have hfew : ∀ n, ¬ (after holding).shared.Overfull n := by
    rintro n ⟨cmd, view, scope, revision, hc, -, hfull⟩
    have hlt := Server.commit_lt hc
    have hscopes : ((after holding).shared.asOf n).scopes = [] := by
      obtain rfl | rfl : n = 0 ∨ n = 1 := by omega
      · exact hnone.1
      · exact hnone.2
    unfold Db.scopesOf at hfull
    rw [hscopes] at hfull
    exact absurd hfull (Nat.not_succ_le_zero 999)
  have hr : Returned (after holding) 1 (add 1) (.ok (.hold _)) := rfl
  exact ⟨_, hr, (responses_fit plugin hreach).1 hfew hr rfl _ (List.mem_singleton_self _)⟩

end Sample

end LegalHold
