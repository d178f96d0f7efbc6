import LegalHold.Handlers
import LegalHold.Reads

/-!
# What the plugin answers

An authorized request is answered by the plugin itself when it is invalid or there is no
database.  Otherwise a session carries out the operation it asks for, and what the session
ends in becomes the answer.

## Main definitions

* `Plugin.Answers` — what a request can be answered with.

## Main results

* `createHold_onlyConflicts` — a new hold is not missed by the session that creates it.
* `Plugin.answers_invalid_iff` — **a request is answered as invalid exactly when it asks
  for nothing**.
-/

namespace LegalHold

open Interleave

variable [Backend]

/-- `create_hold` meets no other domain failure than a conflict: the hold it has inserted is
there when it is read back. -/
theorem createHold_onlyConflicts {c : Config} (h : Reachable c) {i : ℕ} {input : CreateHold}
    {r : Except StorageError Answer} (hr : Returned c i (.createHold input) r) :
    OnlyConflicts r := by
  have hsound : discipline.Sound fun i r _ =>
      ∀ input, i.op = .createHold input → OnlyConflicts r := by
    refine .of_triple (fun i => ?_) (fun _ _ _ _ _ h _ _ => h) fun _ _ _ h _ => h
    cases hop : i.op with
    | createHold input =>
      refine Triple.run_map ((createHold_triple hop).conseq (fun _ _ h => h) fun r srv _ h => ?_)
      intro _ _ failure hfailure
      cases r with
      | ok view => cases hfailure
      | error e =>
        cases hfailure
        exact h.2 failure rfl
    | _ =>
      have htriple := program_triple i
      rw [hop] at htriple
      refine htriple.conseq (fun _ _ h => h) fun r srv _ _ input hcreate => ?_
      cases hcreate
  exact (hsound.reaches (.init Server.Inv.init fun _ => ⟨rfl, rfl⟩) h).returned hr input rfl

/-- Every operation has something to ask of the database. -/
theorem program_ask (op : Op) : ∃ s k, (program op).run = .ask s k := by
  cases op <;> exact ⟨_, _, rfl⟩

namespace Plugin

variable {Ctx : Type}

/-- What a request can be answered with: what its handler settles by itself, or what becomes
of a session that has carried out its operation (`handle_authorized`). -/
inductive Answers (p : Plugin Ctx) (ctx : Ctx) (r : AdminRequest) :
    Except PluginError Response → Prop where
  | settled {x : Except PluginError Response} (ret : (p.handle ctx r).run = .ret x) :
    p.Answers ctx r x
  | returned {caller actor : String} {op : Op} {c : Config} {i : ℕ}
      {x : Except StorageError Answer}
      (authorized : p.authorizeAdmin ctx r.operation r.organizationId r.permission =
        .ok (caller, actor))
      (asked : r.op? caller actor = some op) (prepared : p.prepared = true)
      (reachable : Reachable c) (returned : Returned c i op x) :
    p.Answers ctx r (x.mapError (mapStorageError r.mapDomain) >>= p.respond)

variable {p : Plugin Ctx} {ctx : Ctx} {r : AdminRequest}

omit [Backend] in
/-- A response that cannot be made is no error of the request. -/
theorem respond_ne_domain {a : Answer} {e : DomainError} : p.respond a ≠ .error (.domain e) := by
  have hcast : ∀ {α β : Type} {cast : α → Except String α} {f : α → β} {a : α},
      f <$> wireCast cast a ≠ .error (.domain e) := by
    intro α β cast f a h
    unfold wireCast at h
    cases hcast : cast a with
    | ok a' =>
      rw [hcast] at h
      cases h
    | error message =>
      rw [hcast] at h
      cases h
  cases a with
  | hold view => exact hcast
  | holds views next => exact hcast
  | activity events next => exact hcast
  | decision d =>
    intro h
    cases h

/-- What a session ends in does not make its request invalid. -/
theorem returned_ne_invalid {caller actor : String} {op : Op} {c : Config} {i : ℕ}
    {x : Except StorageError Answer} (hasked : r.op? caller actor = some op) (hc : Reachable c)
    (hx : Returned c i op x) :
    x.mapError (mapStorageError r.mapDomain) >>= p.respond ≠
      .error (.domain .invalidRequest) := by
  intro h
  cases x with
  | ok a => exact respond_ne_domain h
  | error e =>
    cases e with
    | domain failure =>
      have hmapped : r.mapDomain failure = .invalidRequest :=
        PluginError.domain.inj (Except.error.inj h)
      cases r with
      -- Other failures than a conflict would be reported as an invalid request.
      | createHold r =>
        obtain ⟨input, -, rfl⟩ := Option.map_eq_some_iff.mp hasked
        obtain rfl := createHold_onlyConflicts hc hx failure rfl
        cases hmapped
      | _ => cases failure <;> cases hmapped
    | _ => cases h

/-- **A request is answered as invalid exactly when it asks for nothing.** -/
theorem answers_invalid_iff {caller actor : String} {x : Except PluginError Response}
    (hauth : p.authorizeAdmin ctx r.operation r.organizationId r.permission = .ok (caller, actor))
    (h : p.Answers ctx r x) :
    x = .error (.domain .invalidRequest) ↔ r.op? caller actor = none := by
  cases h with
  -- The handler has settled the answer: a valid request would have asked the database.
  | @settled x hret =>
    cases hop : r.op? caller actor with
    | none =>
      rw [handle_invalid hauth hop] at hret
      cases hret
      exact ⟨fun _ => rfl, fun _ => rfl⟩
    | some op =>
      refine ⟨fun hx => ?_, fun hnone => by cases hnone⟩
      subst hx
      cases hp : p.prepared with
      | false =>
        rw [handle_unprepared hauth hop hp] at hret
        cases hret
      | true =>
        rw [handle_authorized hauth hop hp] at hret
        obtain ⟨s, k, hask⟩ := program_ask op
        rw [hask] at hret
        cases hret
  -- The answer comes from the storage, which has no failure that is mapped to this error.
  | @returned caller' actor' op c i x hauth' hasked hp hc hx =>
    cases hauth.symm.trans hauth'
    rw [hasked]
    exact ⟨fun h => absurd h (returned_ne_invalid hasked hc hx), fun h => by cases h⟩

end Plugin

end LegalHold
