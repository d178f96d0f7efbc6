import LegalHold.Handlers
import LegalHold.Service

/-!
# Fail-closed authorization

An administrative operation is carried out for a configured caller whose
assertion names a valid subject for just this operation, when the subject is a
member of the organization of the request and holds the permission of the
operation there.  In every other case the answer is an error that was settled
before anything was asked of the database.

## Main definitions

* `Plugin.Authorized` — what the gate of an administrative operation demands.
* `Plugin.GuardCaller` — what the gate of the retention guard demands.

## Main results

* `Plugin.authorizeAdmin_eq_ok_iff` — the gate lets pass what it demands, nothing
  else.
* `fail_closed` — **without it the answer is one error, and the storage neither
  changes nor has a say in it**.
-/

namespace LegalHold

open Interleave

variable {Ctx : Type}

namespace Plugin

variable {p : Plugin Ctx} {ctx : Ctx} {operation organizationId permission caller actor : String}

/-- What an invocation must prove for an administrative operation: a configured caller, and a
subject that is a member of the organization and holds the permission there. -/
structure Authorized (p : Plugin Ctx) (ctx : Ctx) (operation organizationId permission : String)
    (caller actor : String) : Prop where
  called : p.callerInstance ctx = some caller
  configured : caller ∈ p.config.adminCallers
  /-- The assertion is for this capability and this operation. -/
  asserted : ∃ verifier,
    p.fromPublicKeyBase64 p.config.authIssuer p.config.authAssertionPublicKey = .ok verifier ∧
      verifier ctx "lenso.legal-hold@1" operation = .ok actor
  valid : validId actor = true
  member : p.checkMembership ctx organizationId actor = .ok true
  permitted : p.checkPermission ctx actor "organization" organizationId permission = .ok true

/-- The invocation comes from a caller instance that is configured for the retention guard. -/
def GuardCaller (p : Plugin Ctx) (ctx : Ctx) : Prop :=
  ∃ caller ∈ p.config.guardCallers, p.callerInstance ctx = some caller

/-! ### The gates -/

theorem allowedCaller_eq_some_iff {allowed : List String} :
    p.allowedCaller ctx allowed = some caller ↔
      p.callerInstance ctx = some caller ∧ caller ∈ allowed := by
  simp only [allowedCaller, Option.bind_eq_some_iff, Option.ite_none_right_eq_some,
    List.any_eq_true, decide_eq_true_eq, Option.some.injEq]
  constructor
  · rintro ⟨_, hcaller, ⟨_, hmem, rfl⟩, rfl⟩
    exact ⟨hcaller, hmem⟩
  · rintro ⟨hcaller, hmem⟩
    exact ⟨caller, hcaller, ⟨caller, hmem, rfl⟩, rfl⟩

theorem authenticatedSubject_eq_ok_iff :
    p.authenticatedSubject ctx operation = .ok actor ↔
      (∃ verifier, p.fromPublicKeyBase64 p.config.authIssuer p.config.authAssertionPublicKey =
        .ok verifier ∧ verifier ctx "lenso.legal-hold@1" operation = .ok actor) ∧
      validId actor = true := by
  unfold authenticatedSubject
  constructor
  · intro h
    obtain ⟨verifier, hverifier, h⟩ := bind_eq_ok.mp h
    obtain ⟨subject, hsubject, h⟩ := bind_eq_ok.mp h
    split at h
    · next hvalid =>
      cases h
      exact ⟨⟨verifier, mapError_eq_ok.mp (mapError_eq_ok.mp hverifier), hsubject⟩, hvalid⟩
    · cases h
  · rintro ⟨⟨verifier, hverifier, hsubject⟩, hvalid⟩
    exact bind_eq_ok.mpr ⟨verifier, mapError_eq_ok.mpr (mapError_eq_ok.mpr hverifier),
      bind_eq_ok.mpr ⟨actor, hsubject, if_pos hvalid⟩⟩

theorem queried_eq_ok_iff {rejected : String} {answer : Except InvocationError Bool} {b : Bool} :
    queried rejected answer = .ok b ↔ answer = .ok b := by
  match answer with
  | .ok _ => simp [queried]
  | .error (.domain _) => simp [queried]
  | .error (.runtime _) => simp [queried]

theorem elim_eq_ok_iff {ε α : Type} {x : Option α} {e : ε} {a : α} :
    x.elim (.error e) .ok = Except.ok a ↔ x = some a := by
  cases x <;> simp

theorem gate_eq_ok_iff {ε α : Type} {b : Bool} {e : ε} {x : Except ε α} {a : α} :
    (if !b then .error e else x) = .ok a ↔ b = true ∧ x = .ok a := by
  cases b <;> simp

/-- **The gate lets pass what it demands, nothing else.** -/
theorem authorizeAdmin_eq_ok_iff :
    p.authorizeAdmin ctx operation organizationId permission = .ok (caller, actor) ↔
      p.Authorized ctx operation organizationId permission caller actor := by
  simp only [authorizeAdmin, bind_eq_ok, elim_eq_ok_iff, mapError_eq_ok, gate_eq_ok_iff,
    allowedCaller_eq_some_iff, authenticatedSubject_eq_ok_iff, queried_eq_ok_iff,
    Except.ok.injEq, Prod.mk.injEq]
  constructor
  · rintro ⟨_, ⟨hcalled, hconfigured⟩, _, ⟨hasserted, hvalid⟩, _, hmember, rfl, _, hpermitted,
      rfl, rfl, rfl⟩
    exact ⟨hcalled, hconfigured, hasserted, hvalid, hmember, hpermitted⟩
  · intro h
    exact ⟨caller, ⟨h.called, h.configured⟩, actor, ⟨h.asserted, h.valid⟩, true, h.member, rfl,
      true, h.permitted, rfl, rfl, rfl⟩

/-- A call that is not authorized fails at the gate. -/
theorem authorizeAdmin_error
    (h : ¬∃ caller actor, p.Authorized ctx operation organizationId permission caller actor) :
    ∃ failure, p.authorizeAdmin ctx operation organizationId permission = .error failure := by
  cases hgate : p.authorizeAdmin ctx operation organizationId permission with
  | error failure => exact ⟨failure, rfl⟩
  | ok who => exact absurd ⟨who.1, who.2, authorizeAdmin_eq_ok_iff.mp hgate⟩ h

variable [Backend]

/-- The guard asks nothing of the database for another caller. -/
theorem checkRetention_forbidden {request : CheckRetentionRequest} (h : ¬p.GuardCaller ctx) :
    (p.checkRetention ctx request).run = .ret (.error (.domain .forbidden)) := by
  have hnone : p.allowedCaller ctx p.config.guardCallers = none := by
    refine Option.eq_none_iff_forall_ne_some.mpr fun caller hcaller => h ?_
    obtain ⟨hcalled, hmem⟩ := allowedCaller_eq_some_iff.mp hcaller
    exact ⟨caller, hmem, hcalled⟩
  unfold checkRetention
  rw [hnone]
  rfl

end Plugin

/-! ### Fail-closed authorization -/

variable [Backend]

/-- A handler that has settled its answer leaves every server as it is. -/
theorem runAlone_settled {α : Type} {x : Handler α} {e : PluginError}
    (h : x.run = .ret (.error e)) (i : Session Op) (f : Fate) (srv : Server) :
    Machine.runAlone (M := machine) f i x.run srv = some (srv, .error e) := by
  rw [h]
  rfl

/-- **Authorization fails closed.**  An administrative operation that is not authorized, for
whatever reason, answers with one error, and so does the retention guard for a caller that is not
configured for it: they issue no statement, so that every storage state gives the same error and
is left as it was. -/
theorem fail_closed (p : Plugin Ctx) (ctx : Ctx) :
    (∀ r : AdminRequest,
      (¬∃ caller actor, p.Authorized ctx r.operation r.organizationId r.permission caller actor) →
      ∃ e : PluginError, (p.handle ctx r).run = .ret (.error e) ∧
        ∀ (i : Session Op) (f : Fate) (srv : Server),
          Machine.runAlone (M := machine) f i (p.handle ctx r).run srv = some (srv, .error e)) ∧
    ∀ request : CheckRetentionRequest, ¬p.GuardCaller ctx →
      (p.checkRetention ctx request).run = .ret (.error (.domain .forbidden)) ∧
        ∀ (i : Session Op) (f : Fate) (srv : Server),
          Machine.runAlone (M := machine) f i (p.checkRetention ctx request).run srv =
            some (srv, .error (.domain .forbidden)) := by
  refine ⟨fun r h => ?_, fun request h => ?_⟩
  · obtain ⟨failure, hfailure⟩ := Plugin.authorizeAdmin_error h
    have hrun := Plugin.handle_unauthorized hfailure
    exact ⟨mapAuthorization failure, hrun, runAlone_settled hrun⟩
  · have hrun : (p.checkRetention ctx request).run = .ret (.error (.domain .forbidden)) :=
      Plugin.checkRetention_forbidden h
    exact ⟨hrun, runAlone_settled hrun⟩

namespace Sample

/-- A plugin for the console and the retention service.  An invocation is a caller and the subject
of an assertion for any operation; everybody is a member and may read. -/
def plugin : Plugin (String × String) where
  config := ⟨"issuer", "key", ["console"], ["retention"]⟩
  prepared := true
  callerInstance ctx := some ctx.1
  fromPublicKeyBase64 _ _ := .ok fun ctx _ _ => .ok ctx.2
  checkMembership _ _ _ := .ok true
  checkPermission _ _ _ _ permission := .ok (permission = legalHoldRead)
  timestamp _ := .ok ()

/-- Alice is a reader, and the console is not the retention service. -/
theorem reader_fails_closed :
    (∃ e : PluginError, ∀ srv : Server,
      Machine.runAlone (M := machine) .done ⟨0, release 2⟩
        (plugin.handle ("console", "alice")
          (.releaseHold ⟨"2", "h", "release", "org", "over"⟩)).run srv = some (srv, .error e)) ∧
    ∀ srv : Server,
      Machine.runAlone (M := machine) .done ⟨0, .checkRetention question⟩
        (plugin.checkRetention ("console", "alice")
          ⟨"a", .delete, "cleanup", "f", "file", "bob"⟩).run srv =
        some (srv, .error (.domain .forbidden)) := by
  obtain ⟨hadmin, hguard⟩ := fail_closed plugin ("console", "alice")
  refine ⟨?_, fun srv => ?_⟩
  · obtain ⟨e, -, hrun⟩ := hadmin (.releaseHold ⟨"2", "h", "release", "org", "over"⟩) <| by
      rintro ⟨caller, actor, h⟩
      exact absurd h.permitted (by simp [plugin, legalHoldRead, AdminRequest.permission])
    exact ⟨e, hrun _ _⟩
  · refine (hguard _ ?_).2 _ _ srv
    rintro ⟨caller, hmem, hcalled⟩
    cases hcalled
    exact absurd hmem (by decide)

end Sample

end LegalHold
