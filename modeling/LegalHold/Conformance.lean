import LegalHold.Agents
import LegalHold.DomainErrors
import LegalHold.Responses

/-!
# Answers and the published contract

The contract publishes a schema for the response to each of the seven operations and one for
their errors.  Whatever an instance answers is serialized as something that the schema of its
operation accepts, but for a hold that has got too many scopes: the bounds on pages are kept by
the bound on page sizes, and cursors and numbers of events are never negative.

## Main definitions

* `AdminRequest.responseSchema`, `legalHoldErrorSchema` — the schemas.
* `Response.Bounded` — no hold of the response has more scopes than the schema allows.

## Main results

* `HoldView.response_accepts_iff`, `ActivityView.response_accepts_iff` — what the schemas ask
  of a hold and of an event.
* `answers_conform` — **what an instance answers conforms to the contract** exactly when no hold
  of it has too many scopes.
-/

namespace LegalHold

open Interleave JsonSchema

/-! ### The schemas -/

/-- The schema of an object that may have any members. -/
def anyObject : Schema := .leaf { types := [.object] }

/-- `HoldActivity` in `list-activity-response.schema.json`. -/
def holdActivitySchema : Schema :=
  .record
    [("activity_id", positiveDecimal), ("kind", plainText), ("actor_subject", plainText),
      ("payload", anyObject), ("created_at", dateTime)]
    ["activity_id", "kind", "actor_subject", "payload", "created_at"]

/-- `list-activity-response.schema.json`: a page of at most 500 events, and the cursor behind
it. -/
def listActivityResponseSchema : Schema :=
  .record
    [("events", .listOf { types := [.array], maxItems := some 500 } holdActivitySchema),
      ("next_cursor", decimal)]
    ["events", "next_cursor"]

/-- `list-holds-response.schema.json`: a page of holds, and the cursor of the next page if there
is one. -/
def listHoldsResponseSchema : Schema :=
  .record
    [("holds", .listOf { types := [.array], maxItems := some 200 } holdResponseSchema),
      ("next_cursor", nullableText)]
    ["holds", "next_cursor"]

/-- `legal-hold-error.schema.json`: one of the constants, which are different from each other. -/
def legalHoldErrorSchema : Schema :=
  .leaf
    { enumeration := some ["invalid_request", "unauthenticated", "forbidden", "not_found",
        "revision_conflict", "idempotency_conflict", "scope_conflict", "hold_released"] }

/-- The schema that the contract publishes for the response to a request. -/
def AdminRequest.responseSchema : AdminRequest → Schema
  | .createHold _ | .getHold _ | .addScope _ | .removeScope _ | .releaseHold _ =>
    holdResponseSchema
  | .listHolds _ => listHoldsResponseSchema
  | .listActivity _ => listActivityResponseSchema

/-! ### What they ask for -/

theorem ScopeView.response_accepts (s : ScopeView) :
    holdScopeSchema.accepts s.response = true := by
  refine (Schema.accepts_record_iff (by decide)).mpr ⟨_, rfl, ?_⟩
  simp [plainText_accepts, nullableText_accepts, dateTime_accepts]

/-- A hold is written with its members in another order, which does not matter. -/
theorem HoldView.response_accepts_iff {view : HoldView} :
    holdResponseSchema.accepts view.response = true ↔ view.Fits := by
  have hscopes : (Schema.listOf { types := [.array], maxItems := some 1000 }
      holdScopeSchema).accepts (Json.arr (view.scopes.map ScopeView.response)) = true ↔
      view.scopes.length ≤ 1000 := by
    simp [Schema.accepts_listOf_iff, Keywords.accepts, View.is, ScopeView.response_accepts]
  rw [HoldView.fits_iff]
  unfold holdResponseSchema
  rw [Schema.accepts_record_iff (by decide)]
  simp only [response, view_obj, View.object.injEq, exists_eq_left', List.forall_mem_cons,
    List.exists_mem_cons_iff]
  simp [plainText_accepts, nullableText_accepts, dateTime_accepts, statusText_accepts_iff,
    positiveDecimal_accepts_iff, hscopes]
  tauto

theorem anyObject_accepts_iff {v : Json} :
    anyObject.accepts v = true ↔ ∃ members, v = .obj members := by
  cases v <;> simp [anyObject, Schema.accepts_leaf_iff, Keywords.accepts, View.is, Value.view]

/-- The payload of an event has been collected, and is an object all the same. -/
theorem anyObject_accepts_ofBTreeMap {v : Json} :
    anyObject.accepts v.ofBTreeMap = true ↔ ∃ members, v = .obj members := by
  rw [anyObject_accepts_iff]
  cases v <;> simp [Json.ofBTreeMap]

/-- **What the schema asks of an event**: a positive number without leading zeros, and an object
for its payload. -/
theorem ActivityView.response_accepts_iff {a : ActivityView} :
    holdActivitySchema.accepts a.response = true ↔
      (∃ n : ℕ, 0 < n ∧ a.activityId = formatI64 n) ∧ ∃ members, a.payload = .obj members := by
  unfold holdActivitySchema
  rw [Schema.accepts_record_iff (by decide)]
  simp only [response, view_obj, View.object.injEq, exists_eq_left', List.forall_mem_cons,
    List.exists_mem_cons_iff]
  simp [plainText_accepts, dateTime_accepts, positiveDecimal_accepts_iff,
    anyObject_accepts_ofBTreeMap]

theorem listHoldsResponse_accepts_iff {r : ListHoldsResponse} :
    listHoldsResponseSchema.accepts (Response.holds r).toValue = true ↔
      r.holds.length ≤ 200 ∧ ∀ view ∈ r.holds, view.Fits := by
  unfold listHoldsResponseSchema
  rw [Schema.accepts_record_iff (by decide)]
  simp only [Response.toValue, view_obj, View.object.injEq, exists_eq_left', List.forall_mem_cons,
    List.exists_mem_cons_iff]
  simp [Schema.accepts_listOf_iff, Keywords.accepts, View.is, nullableText_accepts,
    HoldView.response_accepts_iff]

theorem listActivityResponse_accepts_iff {r : ListActivityResponse} :
    listActivityResponseSchema.accepts (Response.activity r).toValue = true ↔
      (r.events.length ≤ 500 ∧
        ∀ event ∈ r.events, holdActivitySchema.accepts event.response = true) ∧
      decimal.accepts (Json.str r.nextCursor) = true := by
  unfold listActivityResponseSchema
  rw [Schema.accepts_record_iff (by decide)]
  simp only [Response.toValue, view_obj, View.object.injEq, exists_eq_left', List.forall_mem_cons,
    List.exists_mem_cons_iff]
  simp [Schema.accepts_listOf_iff, Keywords.accepts, View.is]

/-- The text of a number that is not negative has digits only. -/
theorem decimal_accepts_formatI64 {n : Int} (hn : 0 ≤ n) :
    decimal.accepts (Json.str (formatI64 n)) = true := by
  obtain ⟨m, rfl⟩ := Int.eq_ofNat_of_zero_le hn
  rw [decimal_accepts_iff, toList_formatI64_natCast]
  exact ⟨Nat.toDigits_ne_nil, fun c hc =>
    Nat.isDigit_of_mem_toDigits (by decide) (by decide) hc⟩

/-- What is read of the text of a number that is not negative is not negative. -/
theorem parseI64_nonneg {n : ℕ} {m : Int} (h : parseI64 (formatI64 n) = some m) : 0 ≤ m := by
  have hdigits : parseDigits (formatI64 n).toList = some n := by
    rw [toList_formatI64_natCast, parseDigits_toDigits]
  rw [parseI64_of_digits hdigits] at h
  split at h
  · cases h
    exact Int.natCast_nonneg n
  · cases h

/-- The schema of errors accepts every error that the operations declare: its code is one of the
constants. -/
theorem legalHoldErrorSchema_accepts (e : DomainError) :
    legalHoldErrorSchema.accepts (OperationError.known e).serialize = true := by
  cases e <;>
    simp [legalHoldErrorSchema, OperationError.serialize, DomainError.code,
      Schema.accepts_leaf_iff, Keywords.accepts, View.among]

/-! ### What a run returns -/

/-- No hold that the response shows has more scopes than the published schema allows. -/
def Response.Bounded (response : Response) : Prop :=
  ∀ view ∈ response.views, view.scopes.length ≤ 1000

/-- An answer conforms to the contract; of failures of the runtime that says nothing. -/
def AdminRequest.Conforms (r : AdminRequest) : Except PluginError Response → Prop
  | .ok response => r.responseSchema.accepts response.toValue = true
  | .error (.domain e) => legalHoldErrorSchema.accepts (OperationError.known e).serialize = true
  | .error (.runtime _) => True

theorem AdminRequest.conforms_error (r : AdminRequest) (e : PluginError) :
    r.Conforms (.error e) := by
  cases e with
  | domain e => exact legalHoldErrorSchema_accepts e
  | runtime failure => trivial

/-- A list that has been cast to itself has been so item by item. -/
theorem cast_of_mapM {α : Type} {cast : α → Except String α}
    (hsame : ∀ {a b}, cast a = .ok b → b = a) {l l' : List α} (h : l.mapM cast = .ok l') :
    ∀ a ∈ l, cast a = .ok a := by
  intro a ha
  obtain ⟨b, -, hb⟩ := forall₂_mem_right (mapM_eq_ok h).flip ha
  have hb : cast a = .ok b := hb
  obtain rfl := hsame hb
  exact hb

/-- An event that is sent has an object for its payload. -/
theorem Plugin.payload_of_respond {Ctx : Type} {p : Plugin Ctx} {events : List ActivityView}
    {next : Int} {response : Response} (h : p.respond (.activity events next) = .ok response)
    {event : ActivityView} (hevent : event ∈ events) : ∃ members, event.payload = .obj members := by
  obtain ⟨events', hcast, -⟩ := map_eq_ok.mp h
  replace hcast := cast_of_mapM wireEvent_eq_ok (wireCast_eq_ok.mp hcast) event hevent
  obtain ⟨-, -, hcast⟩ := bind_eq_ok.mp hcast
  split at hcast
  · next members hpayload => exact ⟨members, hpayload⟩
  · cases hcast

section

variable [Backend] {c : Config}

/-- A hold that is returned is not refused but for the number of its scopes. -/
theorem Reachable.fits_iff (h : Reachable c) {i : ℕ} {op : Op} {a : Answer}
    (hr : Returned c i op (.ok a)) {view : HoldView} (hview : view ∈ a.views) :
    view.Fits ↔ view.scopes.length ≤ 1000 := by
  obtain ⟨n, m, row, -, -, hrow, hmade⟩ := h.shows hr hview
  rw [holdView_fits_iff hmade ((h.coherent n).revision_pos hrow)]
  obtain ⟨scopes, createdAt, releasedAt, hscopes, -, -, rfl⟩ := holdView_eq_ok.mp hmade
  rw [(mapM_eq_ok hscopes).length_eq]

/-- A page of holds is no longer than it has been asked to be. -/
theorem Listed.length_le {srv : Server} {i : Session Op} {org : String} {status : Option Status}
    {cursor : Option String} {limit : Int} {views : List HoldView} {next : Option String}
    {e : Event} (h : Listed srv i org status cursor limit views next e) (hlimit : 0 ≤ limit) :
    (views.length : Int) ≤ limit := by
  have hlength := congrArg List.length h.ids
  rw [List.length_map, if_neg (by omega)] at hlength
  have htake := List.length_take_le limit.toNat
    (Server.holdPage (srv.asOf e.seen) org status cursor (limit + 1))
  omega

/-- A page of activity keeps to its bounds. -/
theorem ActivityRead.bounds {srv : Server} {i : Session Op} {org hold : String}
    {after limit : Int} {events : List ActivityView} {next : Int} {e : Event}
    (h : ActivityRead srv i org hold after limit events next e) (hafter : 0 ≤ after) :
    (events.length : Int) ≤ limit ∧
      (∀ event ∈ events, ∃ n : ℕ, 0 < n ∧ event.activityId = formatI64 n) ∧ 0 ≤ next := by
  have hids : ∀ event ∈ events, ∃ n : ℕ, 0 < n ∧ event.activityId = formatI64 n := by
    intro event hevent
    obtain ⟨row, hrow, hmade⟩ := mem_of_mapM h.rows hevent
    obtain ⟨createdAt, -, hview⟩ := map_eq_ok.mp hmade
    -- The rows of a page are behind the cursor, which is not negative.
    have hlater : after < row.activityId := by
      have hmem := (List.mem_insertionSort _).mp (List.mem_of_mem_take hrow)
      exact (of_decide_eq_true (List.mem_filter.mp hmem).2).2.2
    refine ⟨row.activityId.toNat, by omega, ?_⟩
    rw [Int.toNat_of_nonneg (by omega), ← hview]
  refine ⟨?_, hids, ?_⟩
  · have htake := List.length_take_le limit.toNat
      (((srv.asOf e.seen).activity.filter fun a => a.organizationId = org ∧ a.holdId = hold ∧
        after < a.activityId).insertionSort fun a b => a.activityId ≤ b.activityId)
    have hnonneg := h.nonneg
    have hlength : _ = events.length := (mapM_eq_ok h.rows).length_eq
    unfold Server.activityPage at hlength
    omega
  · rw [h.next]
    cases hlast : events.getLast? with
    | none => exact hafter
    | some event =>
      obtain ⟨n, -, hid⟩ := hids event (List.mem_of_getLast? hlast)
      dsimp only
      rw [hid]
      cases hparse : parseI64 (formatI64 n) with
      | none => exact hafter
      | some m => exact parseI64_nonneg hparse

/-- A response with one hold conforms to the schema exactly when the hold has not too many
scopes. -/
theorem Reachable.hold_conforms (h : Reachable c) {i : ℕ} {op : Op} {view : HoldView}
    (hr : Returned c i op (.ok (.hold view))) :
    holdResponseSchema.accepts (Response.hold view).toValue = true ↔
      (Response.hold view).Bounded := by
  have hfits := h.fits_iff hr (List.mem_singleton_self view)
  have hbounded : (Response.hold view).Bounded ↔ view.scopes.length ≤ 1000 := by
    simp [Response.Bounded, Response.views]
  exact HoldView.response_accepts_iff.trans (hfits.trans hbounded.symm)

/-- **A response conforms** to the schema of its request exactly when no hold has too many
scopes. -/
theorem Reachable.conforms {Ctx : Type} {p : Plugin Ctx} (h : Reachable c) {r : AdminRequest}
    {caller actor : String} {op : Op} (hop : r.op? caller actor = some op) {i : ℕ} {a : Answer}
    (hr : Returned c i op (.ok a)) {response : Response} (hresponse : p.respond a = .ok response) :
    r.responseSchema.accepts response.toValue = true ↔ response.Bounded := by
  -- The four operations that mutate answer with one hold.
  have hmutated : ∀ {cmd : Command}, op.command? = some cmd →
      (holdResponseSchema.accepts response.toValue = true ↔ response.Bounded) := by
    intro cmd hcmd
    obtain ⟨r', heq, -⟩ := h.outcome (i := ⟨i, op⟩) hr hcmd
    cases r' with
    | error e => cases heq
    | ok view =>
      cases heq
      cases Plugin.respond_eq_ok hresponse
      exact h.hold_conforms hr
  cases r with
  | createHold r =>
    obtain ⟨input, -, rfl⟩ := Option.map_eq_some_iff.mp hop
    exact hmutated rfl
  | addScope r =>
    obtain ⟨input, -, rfl⟩ := Option.map_eq_some_iff.mp hop
    exact hmutated rfl
  | removeScope r =>
    obtain ⟨input, -, rfl⟩ := Option.map_eq_some_iff.mp hop
    exact hmutated rfl
  | releaseHold r =>
    obtain ⟨input, -, rfl⟩ := Option.map_eq_some_iff.mp hop
    exact hmutated rfl
  | getHold r =>
    obtain rfl := GetHoldRequest.op?_eq_some hop
    obtain ⟨-, view, e₁, e₂, rfl, -⟩ := returned_post h hr a rfl
    cases Plugin.respond_eq_ok hresponse
    exact h.hold_conforms hr
  -- The page bound of the schema is that of the request.
  | listHolds r =>
    obtain ⟨⟨-, hlow, hhigh, -⟩, rfl⟩ := ListHoldsRequest.op?_eq_some.mp hop
    obtain ⟨-, views, next, e, rfl, hlisted⟩ := returned_post h hr a rfl
    cases Plugin.respond_eq_ok hresponse
    have hlength := hlisted.length_le (by omega)
    unfold maxPageSize at hhigh
    refine listHoldsResponse_accepts_iff.trans ⟨fun hall view hview => ?_, fun hall => ?_⟩
    · exact (h.fits_iff hr hview).mp (hall.2 view hview)
    · exact ⟨by dsimp only; omega, fun view hview => (h.fits_iff hr hview).mpr (hall view hview)⟩
  -- There are no holds in the response, and all bounds of the schema are kept.
  | listActivity r =>
    obtain ⟨⟨-, -, hlow, hhigh⟩, after, -, hafter, rfl⟩ := ListActivityRequest.op?_eq_some.mp hop
    obtain ⟨-, events, next, e, rfl, hread⟩ := returned_post h hr a rfl
    cases Plugin.respond_eq_ok hresponse
    obtain ⟨hlength, hids, hnext⟩ := hread.bounds hafter
    unfold maxPageSize at hhigh
    refine listActivityResponse_accepts_iff.trans ⟨fun _ view hview => ?_, fun _ => ?_⟩
    · cases hview
    · refine ⟨⟨by show events.length ≤ 500; omega, fun event hevent => ?_⟩,
        decimal_accepts_formatI64 hnext⟩
      exact ActivityView.response_accepts_iff.mpr
        ⟨hids event hevent, Plugin.payload_of_respond hresponse hevent⟩

/-- Without a commit that adds a scope to a hold with as many as the schema allows, no hold that is
returned has too many. -/
theorem Reachable.bounded (h : Reachable c) (hfew : ∀ n, ¬ c.shared.Overfull n) {i : ℕ} {op : Op}
    {a : Answer} (hr : Returned c i op (.ok a)) {view : HoldView} (hview : view ∈ a.views) :
    view.scopes.length ≤ 1000 := by
  obtain ⟨n, m, row, -, hm, hrow, hmade⟩ := h.shows hr hview
  rw [← h.fits_iff hr hview, holdView_fits_iff hmade ((h.coherent n).revision_pos hrow),
    Db.sortedScopes, List.length_insertionSort]
  exact h.scopes_length_le hfew hm view.holdId

/-! ### What an instance answers -/

/-- **What an instance answers conforms to the contract.**  In every run of an instance, with any
calls, activations and deactivations, the answer to an administrative request is serialized as
something that the schema of its operation accepts, or the schema of errors, exactly when no
hold in it has more than 1000 scopes; and none has, unless a commit has added a scope to a hold
that had as many.  A runtime failure has no schema, and is taken to conform. -/
theorem answers_conform {Ctx : Type} (inst : Instance Ctx) {c : inst.Config}
    (h : inst.Reachable c) {i : ℕ} {ctx : Ctx} {r : AdminRequest}
    {x : Except PluginError Response}
    (hi : c.procs[i]? = some ⟨.legalHold ctx r, some (.ret (.legalHold x))⟩) :
    (r.Conforms x ↔ ∀ response, x = .ok response → response.Bounded) ∧
      ((∀ n, ¬ c.shared.2.Overfull n) → r.Conforms x) := by
  obtain ⟨c', hc', hproj⟩ := h.projects
  -- An error conforms, and there are no holds in it.
  have herror : ∀ e : PluginError, (r.Conforms (.error e) ↔ ∀ response,
      (Except.error e : Except PluginError Response) = .ok response → response.Bounded) ∧
      ((∀ n, ¬ c.shared.2.Overfull n) → r.Conforms (.error e)) := by
    intro e
    have hconforms := r.conforms_error e
    exact ⟨⟨fun _ => nofun, fun _ => hconforms⟩, fun _ => hconforms⟩
  rcases Instance.Reachable.calls hproj hi with ⟨-, hanswer⟩ | ⟨op, q, hasked, hq, hanswer⟩
  -- It has been answered at the gate.
  · rcases hanswer _ rfl with ⟨e, heq⟩ | ⟨e, heq⟩
    · cases heq
      exact herror e
    · cases heq
  -- Its session has returned.
  · obtain ⟨caller, actor, -, hop⟩ := Plugin.asked_legalHold.mp hasked
    obtain ⟨result, rfl, heq⟩ := hanswer _ rfl
    cases result with
    | error e =>
      cases heq
      exact herror _
    | ok a =>
      obtain rfl : x = inst.plugin.respond a := by
        cases heq
        rfl
      cases hresponse : inst.plugin.respond a with
      | error e => exact herror e
      | ok response =>
        have hconforms : r.Conforms (.ok response) ↔ response.Bounded :=
          hc'.conforms hop hq hresponse
        refine ⟨⟨fun h response' hx => ?_, fun h => hconforms.mpr (h response rfl)⟩,
          fun hfew => hconforms.mpr fun view hview => ?_⟩
        · cases hx
          exact hconforms.mp h
        · rw [Answer.views_response? (Plugin.respond_eq_ok hresponse)] at hview
          refine hc'.bounded ?_ hq hview
          rw [hproj.shared]
          exact hfew

end

namespace Sample

/-- The call by which Alice asks for the activity of her hold at the desk. -/
def deskReport : PluginCall (String × String) :=
  .legalHold ("console", "alice") (.listActivity ⟨"org", "h", none, 10⟩)

/-- The report is asked for at the desk and runs to its answer. -/
def deskReporting : List desk.front.machine.Label :=
  .start deskReport :: List.replicate 6 (.step 2 .done)

/-- The configuration in which the report that was asked for at the desk has been answered. -/
def deskTold : desk.Config := (Machine.run deskAfter deskReporting).getD deskAfter

set_option maxRecDepth 8000 in
theorem deskTold_reachable : desk.Reachable deskTold :=
  desk_reachable.trans ⟨deskReporting, rfl⟩

set_option maxRecDepth 8000 in
/-- The one event of its activity is what the contract says. -/
theorem report_conforms : ∃ r : ListActivityResponse, r.events.length = 1 ∧
    deskTold.procs[2]? = some ⟨deskReport, some (.ret (.legalHold (.ok (.activity r))))⟩ ∧
    listActivityResponseSchema.accepts (Response.activity r).toValue = true := by
  refine ⟨_, ?_, rfl, (answers_conform desk deskTold_reachable (i := 2) rfl).1.mpr ?_⟩
  · rfl
  · rintro response hx view hview
    cases hx
    cases hview

end Sample

end LegalHold
