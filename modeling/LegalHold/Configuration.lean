import LegalHold.Authorization
import Mathlib.Data.List.Nodup

/-!
# The configuration

What a configuration has to be for the plugin to run with it.  The checks are made one after
the other and the first that fails is reported; callers are taken in one by one, each of them
being looked up among those before it.

## Main definitions

* `validIdentifier`, `validateCallers` — the checks of names.
* `Configuration`, `Configuration.validate` — a configuration, and its validation.
* `LegalHoldConfigError.Applies` — what an error complains of, without the code that finds it.

## Main results

* `validateCallers_eq_ok_iff` — callers are accepted by what they are, not by their order.
* `Configuration.validateConfig_eq_ok_iff` — **a configuration is accepted when no error
  applies to it**, from which an instance knows that its callers have valid names.
-/

namespace LegalHold

/-- `MAX_CALLERS`, the bound on each of the two lists of callers. -/
def maxCallers : ℕ := 64

/-- `valid_identifier`: a text that is not empty, has no control characters and no white space,
and is no longer than so many bytes. -/
def validIdentifier (value : String) (maxBytes : ℕ) : Bool :=
  validText value maxBytes false && !value.toList.any isWhitespace

/-- The loop of `validate_callers`, which refuses a caller that is no identifier or that it has
seen before. -/
def validateCallers.loop (unique : List String) : List String → Except Unit Unit
  | [] => .ok ()
  | caller :: rest =>
    if !validIdentifier caller 256 || unique.contains caller then .error ()
    else validateCallers.loop (caller :: unique) rest

/-- `validate_callers`: from one to `MAX_CALLERS` callers, which are valid and differ from each
other. -/
def validateCallers (callers : List String) : Except Unit Unit :=
  if callers.isEmpty || maxCallers < callers.length then .error ()
  else validateCallers.loop [] callers

/-- `LegalHoldConfig`, with the fields that the handlers do not use. -/
structure Configuration extends LegalHoldConfig where
  schema : String
  databaseUrlSecret : String

/-- The complaints about a configuration, one for each rule that `validate` enforces. -/
inductive LegalHoldConfigError where
  | invalidSchema
  | invalidSecretReference
  | invalidAuthIssuer
  | invalidAuthPublicKey
  | invalidAdminCallers
  | invalidGuardCallers
  deriving DecidableEq, Repr

/-- The text by which a complaint about a configuration is shown. -/
def LegalHoldConfigError.message : LegalHoldConfigError → String
  | .invalidSchema => "invalid owned PostgreSQL schema"
  | .invalidSecretReference => "invalid database URL secret reference"
  | .invalidAuthIssuer => "invalid Auth issuer"
  | .invalidAuthPublicKey => "invalid Auth assertion public key"
  | .invalidAdminCallers => "admin_callers must contain unique exact Instance keys"
  | .invalidGuardCallers => "guard_callers must contain unique exact Instance keys"

namespace Configuration

variable {Ctx SchemaPlan : Type} (schemaPlan : String → Except String SchemaPlan)
  (fromPublicKeyBase64 : (issuer publicKey : String) → Except Unit (Verifier Ctx))

/-- `LegalHoldConfig::validate`: the checks of all fields, one after the other.  The plan and the
verifier that are made on the way are thrown away, and made again when they are needed. -/
def validate (config : Configuration) : Except LegalHoldConfigError Unit := do
  let _ ← (schemaPlan config.schema).mapError fun _ => LegalHoldConfigError.invalidSchema
  if !validIdentifier config.databaseUrlSecret 256 then .error .invalidSecretReference
  else if !validIdentifier config.authIssuer 256 then .error .invalidAuthIssuer
  else
    let _ ← (fromPublicKeyBase64 config.authIssuer config.authAssertionPublicKey).mapError
      fun _ => LegalHoldConfigError.invalidAuthPublicKey
    (validateCallers config.adminCallers).mapError fun _ => .invalidAdminCallers
    (validateCallers config.guardCallers).mapError fun _ => .invalidGuardCallers

/-- `validate_config`, which the framework runs before it makes an instance. -/
def validateConfig (config : Configuration) : Except RuntimeFailure Unit :=
  (config.validate schemaPlan fromPublicKeyBase64).mapError fun error =>
    .invalidResolvedPlan ("Legal Hold configuration is invalid: " ++ error.message)

end Configuration

/-! ### Callers -/

/-- The loop accepts callers that are valid, different from each other and from those seen. -/
theorem validateCallers.loop_eq_ok_iff {callers unique : List String} :
    validateCallers.loop unique callers = .ok () ↔
      (∀ caller ∈ callers, validIdentifier caller 256 = true) ∧ callers.Nodup ∧
        ∀ caller ∈ callers, caller ∉ unique := by
  induction callers generalizing unique with
  | nil => simp [loop]
  | cons caller rest ih =>
    unfold loop
    split
    · next h =>
      simp only [reduceCtorEq, false_iff, not_and]
      intro hvalid _ hnew
      simp [hvalid caller List.mem_cons_self, hnew caller List.mem_cons_self] at h
    · next h =>
      simp only [Bool.or_eq_true, Bool.not_eq_true', List.contains_iff_mem, not_or,
        Bool.not_eq_false] at h
      rw [ih, List.forall_mem_cons, List.forall_mem_cons, List.nodup_cons]
      constructor
      · rintro ⟨hall, hnodup, hrest⟩
        refine ⟨⟨h.1, hall⟩, ⟨fun hmem => ?_, hnodup⟩, h.2, fun d hd hseen => ?_⟩
        · exact hrest caller hmem List.mem_cons_self
        · exact hrest d hd (List.mem_cons_of_mem caller hseen)
      · rintro ⟨⟨-, hall⟩, ⟨hmem, hnodup⟩, -, hrest⟩
        refine ⟨hall, hnodup, fun d hd hseen => ?_⟩
        rcases List.mem_cons.mp hseen with rfl | hseen
        · exact hmem hd
        · exact hrest d hd hseen

/-- **Callers are accepted by what they are**: from one to sixty-four valid names, none of
them twice. -/
theorem validateCallers_eq_ok_iff {callers : List String} :
    validateCallers callers = .ok () ↔ callers ≠ [] ∧ callers.length ≤ maxCallers ∧
      (∀ caller ∈ callers, validIdentifier caller 256 = true) ∧ callers.Nodup := by
  unfold validateCallers
  split
  · next h =>
    simp only [Bool.or_eq_true, List.isEmpty_iff, decide_eq_true_eq] at h
    simp only [reduceCtorEq, false_iff, not_and]
    intro hne hlength
    exact absurd hlength (by simpa using h.resolve_left hne)
  · next h =>
    simp only [Bool.or_eq_true, List.isEmpty_iff, decide_eq_true_eq, not_or, Nat.not_lt] at h
    simp only [validateCallers.loop_eq_ok_iff, List.not_mem_nil, not_false_eq_true, implies_true,
      and_true, h.2, ne_eq, h.1, true_and]

/-! ### Complaints -/

/-- A list of callers is not acceptable: it is empty, too long, names a caller twice or has an
entry that is no identifier. -/
def BadCallers (callers : List String) : Prop :=
  callers = [] ∨ maxCallers < callers.length ∨
    (∃ caller ∈ callers, validIdentifier caller 256 = false) ∨ ¬ callers.Nodup

/-- Callers are accepted when there is nothing bad about them. -/
theorem validateCallers_eq_ok_iff_not_bad {callers : List String} :
    validateCallers callers = .ok () ↔ ¬ BadCallers callers := by
  rw [validateCallers_eq_ok_iff]
  simp [BadCallers]

/-- A computation has a value when it has no error. -/
theorem exists_eq_ok_iff {ε α : Type} {x : Except ε α} :
    (∃ a, x = .ok a) ↔ ¬ ∃ e, x = .error e := by
  cases x <;> simp

namespace LegalHoldConfigError

/-- The rule that an error complains of is violated by the configuration. -/
def Applies {Ctx SchemaPlan : Type} (schemaPlan : String → Except String SchemaPlan)
    (fromPublicKeyBase64 : (issuer publicKey : String) → Except Unit (Verifier Ctx))
    (config : Configuration) : LegalHoldConfigError → Prop
  | .invalidSchema => ∃ e, schemaPlan config.schema = .error e
  | .invalidSecretReference => validIdentifier config.databaseUrlSecret 256 = false
  | .invalidAuthIssuer => validIdentifier config.authIssuer 256 = false
  | .invalidAuthPublicKey =>
    ∃ e, fromPublicKeyBase64 config.authIssuer config.authAssertionPublicKey = .error e
  | .invalidAdminCallers => BadCallers config.adminCallers
  | .invalidGuardCallers => BadCallers config.guardCallers

end LegalHoldConfigError

namespace Configuration

open LegalHoldConfigError

variable {Ctx SchemaPlan : Type} {schemaPlan : String → Except String SchemaPlan}
  {fromPublicKeyBase64 : (issuer publicKey : String) → Except Unit (Verifier Ctx)}
  {config : Configuration}

/-- **A configuration is accepted when there is nothing to complain of.**  The checks are made
one after the other, and each of them passes exactly when its own complaint does not apply. -/
theorem validate_eq_ok_iff : config.validate schemaPlan fromPublicKeyBase64 = .ok () ↔
    ∀ e : LegalHoldConfigError, ¬ e.Applies schemaPlan fromPublicKeyBase64 config := by
  have hchecks : config.validate schemaPlan fromPublicKeyBase64 = .ok () ↔
      (∃ plan, schemaPlan config.schema = .ok plan) ∧
        validIdentifier config.databaseUrlSecret 256 = true ∧
        validIdentifier config.authIssuer 256 = true ∧
        (∃ verifier, fromPublicKeyBase64 config.authIssuer config.authAssertionPublicKey =
          .ok verifier) ∧
        validateCallers config.adminCallers = .ok () ∧
        validateCallers config.guardCallers = .ok () := by
    unfold validate
    cases validIdentifier config.databaseUrlSecret 256 <;>
      cases validIdentifier config.authIssuer 256 <;>
      simp [bind_eq_ok, mapError_eq_ok, Unique.exists_iff]
  rw [hchecks, exists_eq_ok_iff, exists_eq_ok_iff, validateCallers_eq_ok_iff_not_bad,
    validateCallers_eq_ok_iff_not_bad]
  constructor
  · rintro ⟨hschema, hsecret, hissuer, hkey, hadmin, hguard⟩ e
    cases e with
    | invalidSchema => exact hschema
    | invalidSecretReference => simp [Applies, hsecret]
    | invalidAuthIssuer => simp [Applies, hissuer]
    | invalidAuthPublicKey => exact hkey
    | invalidAdminCallers => exact hadmin
    | invalidGuardCallers => exact hguard
  · intro h
    refine ⟨h .invalidSchema, ?_, ?_, h .invalidAuthPublicKey, h .invalidAdminCallers,
      h .invalidGuardCallers⟩
    · simpa [Applies] using h .invalidSecretReference
    · simpa [Applies] using h .invalidAuthIssuer

/-- **The framework accepts a configuration that no error applies to**, and no other. -/
theorem validateConfig_eq_ok_iff : config.validateConfig schemaPlan fromPublicKeyBase64 = .ok () ↔
    ∀ e : LegalHoldConfigError, ¬ e.Applies schemaPlan fromPublicKeyBase64 config := by
  rw [← validate_eq_ok_iff]
  exact mapError_eq_ok

end Configuration

end LegalHold
