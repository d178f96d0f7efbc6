import LegalHold.Contract
import LegalHold.Handlers

/-!
# Fingerprints of commands

A repeated request is known by its digest.  For the scope operations the digest is taken
of what has been parsed, for the others of the request as it came: so a revision that is
spelled another way is the same command to `add_scope` and `remove_scope`, and another
one to `release_hold`.

## Main definitions

* `LegalHoldRequest.hashInput?`, `LegalHoldRequest.command?` — the value whose digest a
  mutation carries, and the command that it denotes.
* `LegalHoldRequest.Respelled` — two requests for the same release.

## Main results

* `fingerprint_iff` — **when the digest is that of the command**.
-/

namespace LegalHold

/-- `hash_input` of a scope request that has been parsed. -/
def MutateScopeRequest.hashInput? (r : MutateScopeRequest) : Option Json :=
  (parseRevision r.expectedRevision).map fun expectedRevision =>
    .obj [("organization_id", .str r.organizationId), ("hold_id", .str r.holdId),
      ("scope_kind", .str r.scopeKind), ("scope_id", .str r.scopeId),
      ("subject", Json.ofOption r.subject),
      ("expected_revision", .str (formatI64 expectedRevision)),
      ("idempotency_key", .str r.idempotencyKey)]

/-- The value whose digest becomes the request hash. -/
def LegalHoldRequest.hashInput? : LegalHoldRequest → Option Json
  | .createHold r => some r.hashInput
  | .addScope r | .removeScope r => r.mutateScope.hashInput?
  | .releaseHold r => some r.hashInput
  | .getHold _ | .listActivity _ | .listHolds _ => none

/-- What a command asks for, its digest left out. -/
def Command.unhashed (cmd : Command) : Command := { cmd with requestHash := [] }

/-- Two requests to release the same hold for the same reason, which spell one expected revision
in two ways. -/
def LegalHoldRequest.Respelled : LegalHoldRequest → LegalHoldRequest → Prop
  | .releaseHold r, .releaseHold r' =>
    { r with expectedRevision := r'.expectedRevision } = r' ∧
      parseRevision r.expectedRevision = parseRevision r'.expectedRevision ∧
      r.expectedRevision ≠ r'.expectedRevision
  | _, _ => False

section

variable [Backend]

/-- The command that a request denotes once it has passed validation. -/
def LegalHoldRequest.command? (r : LegalHoldRequest) (caller actor : String) : Option Command :=
  (r.admin.op? caller actor).bind Op.command?

variable {caller actor : String} {cmd cmd' : Command}

/-- A digest is that of the command when both tell the same. -/
theorem fingerprint_of_hashInput {v v' : Json} (hv : cmd.requestHash = Backend.digest v)
    (hv' : cmd'.requestHash = Backend.digest v')
    (hfree : Backend.digest v = Backend.digest v' → v = v')
    (hsame : v = v' ↔ cmd.unhashed = cmd'.unhashed) :
    cmd.requestHash = cmd'.requestHash ↔ cmd.unhashed = cmd'.unhashed := by
  rw [← hsame, hv, hv']
  exact ⟨hfree, fun heq => heq ▸ rfl⟩

/-- A create request is digested as it came, and denotes a command of its own. -/
theorem CreateHoldRequest.fingerprint {r r' : CreateHoldRequest} {i i' : CreateHold}
    (h : r.input? caller actor = some i) (h' : r'.input? caller actor = some i')
    (hfree : Backend.digest r.hashInput = Backend.digest r'.hashInput →
      r.hashInput = r'.hashInput) :
    i.command.requestHash = i'.command.requestHash ↔
      i.command.unhashed = i'.command.unhashed := by
  obtain ⟨-, rfl⟩ := CreateHoldRequest.input?_eq_some.mp h
  obtain ⟨-, rfl⟩ := CreateHoldRequest.input?_eq_some.mp h'
  refine fingerprint_of_hashInput rfl rfl hfree ?_
  obtain ⟨hold, key, authority, org, reason, title⟩ := r
  obtain ⟨hold', key', authority', org', reason', title'⟩ := r'
  constructor
  · intro heq
    unfold hashInput at heq
    simp only [Json.obj.injEq, List.cons.injEq, Prod.mk.injEq, Json.str.injEq, true_and,
      and_true] at heq
    obtain ⟨rfl, rfl, rfl, rfl, rfl, rfl⟩ := heq
    rfl
  · intro heq
    cases heq
    rfl

omit [Backend] in
/-- The hash input of a scope request tells all that is to be done. -/
theorem ScopeRequest.hashInput_eq_iff {i i' : ScopeRequest} (hcaller : i.caller = i'.caller)
    (hactor : i.actor = i'.actor) (add : Bool) :
    i.hashInput = i'.hashInput ↔ (i.command add).unhashed = (i'.command add).unhashed := by
  obtain ⟨caller, actor, org, hold, kind, id, subject, revision, key, hash⟩ := i
  obtain ⟨caller', actor', org', hold', kind', id', subject', revision', key', hash'⟩ := i'
  obtain rfl : caller = caller' := hcaller
  obtain rfl : actor = actor' := hactor
  constructor
  · intro h
    unfold hashInput at h
    simp only [Json.obj.injEq, List.cons.injEq, Prod.mk.injEq, Json.str.injEq, true_and,
      and_true, Json.ofOption_injective.eq_iff, formatI64_injective.eq_iff] at h
    obtain ⟨rfl, rfl, rfl, rfl, rfl, rfl, rfl⟩ := h
    rfl
  · intro h
    cases add <;> cases h <;> rfl

/-- A scope request is parsed before its digest is taken. -/
theorem MutateScopeRequest.fingerprint {r r' : MutateScopeRequest} {i i' : ScopeRequest}
    (h : r.input? caller actor = some i) (h' : r'.input? caller actor = some i')
    (hfree : ∀ v ∈ r.hashInput?, ∀ v' ∈ r'.hashInput?,
      Backend.digest v = Backend.digest v' → v = v') (add : Bool) :
    (i.command add).requestHash = (i'.command add).requestHash ↔
      (i.command add).unhashed = (i'.command add).unhashed := by
  have hinput : ∀ {r : MutateScopeRequest} {i : ScopeRequest}, r.input? caller actor = some i →
      r.hashInput? = some i.hashInput := by
    intro r i h
    obtain ⟨revision, hrevision, h⟩ := Option.bind_eq_some_iff.mp h
    split at h
    · cases h
    · cases h
      exact Option.map_eq_some_iff.mpr ⟨revision, hrevision, rfl⟩
  obtain ⟨hcaller, hactor, -⟩ := MutateScopeRequest.input?_eq_some h
  obtain ⟨hcaller', hactor', -⟩ := MutateScopeRequest.input?_eq_some h'
  exact fingerprint_of_hashInput (MutateScopeRequest.requestHash_eq h)
    (MutateScopeRequest.requestHash_eq h') (hfree _ (hinput h) _ (hinput h'))
    (ScopeRequest.hashInput_eq_iff (hcaller.trans hcaller'.symm) (hactor.trans hactor'.symm) add)

omit [Backend] in
theorem ReleaseHoldRequest.hashInput_injective : Function.Injective hashInput := by
  rintro ⟨expected, hold, key, org, reason⟩ ⟨expected', hold', key', org', reason'⟩ h
  unfold hashInput at h
  simp only [Json.obj.injEq, List.cons.injEq, Prod.mk.injEq, Json.str.injEq, true_and,
    and_true] at h
  obtain ⟨rfl, rfl, rfl, rfl, rfl⟩ := h
  rfl

/-- A release request is digested as it came, its revision in the spelling it came in. -/
theorem ReleaseHoldRequest.fingerprint {r r' : ReleaseHoldRequest} {i i' : ReleaseHold}
    (h : r.input? caller actor = some i) (h' : r'.input? caller actor = some i')
    (hfree : Backend.digest r.hashInput = Backend.digest r'.hashInput →
      r.hashInput = r'.hashInput) :
    (i.requestHash = i'.requestHash ↔ i.command.unhashed = i'.command.unhashed) ↔
      ¬ (LegalHoldRequest.releaseHold r).Respelled (.releaseHold r') := by
  obtain ⟨revision, hrevision, rfl⟩ := ReleaseHoldRequest.input?_eq_some h
  obtain ⟨revision', hrevision', rfl⟩ := ReleaseHoldRequest.input?_eq_some h'
  have hhash : Backend.digest r.hashInput = Backend.digest r'.hashInput ↔ r = r' :=
    ⟨fun heq => hashInput_injective (hfree heq), fun heq => heq ▸ rfl⟩
  show (Backend.digest r.hashInput = Backend.digest r'.hashInput ↔ _) ↔ _
  rw [hhash]
  -- The commands agree when the requests do, but for the spelling of the revision.
  have hcommand : (ReleaseHold.command ⟨caller, actor, r.organizationId, r.holdId, revision,
        r.reason, r.idempotencyKey, Backend.digest r.hashInput⟩).unhashed =
      (ReleaseHold.command ⟨caller, actor, r'.organizationId, r'.holdId, revision', r'.reason,
        r'.idempotencyKey, Backend.digest r'.hashInput⟩).unhashed ↔
      { r with expectedRevision := r'.expectedRevision } = r' ∧
        parseRevision r.expectedRevision = parseRevision r'.expectedRevision := by
    rw [hrevision, hrevision']
    obtain ⟨expected, hold, key, org, reason⟩ := r
    obtain ⟨expected', hold', key', org', reason'⟩ := r'
    constructor
    · intro heq
      cases heq
      exact ⟨rfl, rfl⟩
    · rintro ⟨heq, hrev⟩
      cases heq
      cases hrev
      rfl
  rw [hcommand]
  constructor
  · rintro hiff ⟨hrest, hparse, hne⟩
    exact hne (congrArg _ (hiff.mpr ⟨hrest, hparse⟩))
  · intro hno
    refine ⟨fun heq => heq ▸ ⟨rfl, rfl⟩, fun ⟨hrest, hparse⟩ => ?_⟩
    have htext : r.expectedRevision = r'.expectedRevision :=
      not_not.mp fun hne => hno ⟨hrest, hparse, hne⟩
    rw [← hrest, ← htext]

/-- **When the digest is that of the command.**  For two valid requests to one operation, in
the name of the same caller and actor, the digests are the same exactly when the commands are;
but for requests for the same release that spell the revision it is to have in two ways. -/
theorem fingerprint_iff {r r' : LegalHoldRequest} (hop : r.admin.operation = r'.admin.operation)
    (h : r.command? caller actor = some cmd) (h' : r'.command? caller actor = some cmd')
    (hfree : ∀ v ∈ r.hashInput?, ∀ v' ∈ r'.hashInput?,
      Backend.digest v = Backend.digest v' → v = v') :
    (cmd.requestHash = cmd'.requestHash ↔ cmd.unhashed = cmd'.unhashed) ↔ ¬ r.Respelled r' := by
  obtain ⟨op, hr, hcmd⟩ := Option.bind_eq_some_iff.mp h
  obtain ⟨op', hr', hcmd'⟩ := Option.bind_eq_some_iff.mp h'
  cases r with
  | createHold r =>
    cases r' with
    | createHold r' =>
      obtain ⟨i, hi, rfl⟩ := Option.map_eq_some_iff.mp hr
      obtain ⟨i', hi', rfl⟩ := Option.map_eq_some_iff.mp hr'
      cases hcmd
      cases hcmd'
      exact iff_of_true (CreateHoldRequest.fingerprint hi hi' (hfree _ rfl _ rfl)) not_false
    | _ => simp [LegalHoldRequest.admin, AdminRequest.operation] at hop
  | addScope r =>
    cases r' with
    | addScope r' =>
      obtain ⟨i, hi, rfl⟩ := Option.map_eq_some_iff.mp hr
      obtain ⟨i', hi', rfl⟩ := Option.map_eq_some_iff.mp hr'
      cases hcmd
      cases hcmd'
      exact iff_of_true (MutateScopeRequest.fingerprint hi hi' hfree true) not_false
    | _ => simp [LegalHoldRequest.admin, AdminRequest.operation] at hop
  | removeScope r =>
    cases r' with
    | removeScope r' =>
      obtain ⟨i, hi, rfl⟩ := Option.map_eq_some_iff.mp hr
      obtain ⟨i', hi', rfl⟩ := Option.map_eq_some_iff.mp hr'
      cases hcmd
      cases hcmd'
      exact iff_of_true (MutateScopeRequest.fingerprint hi hi' hfree false) not_false
    | _ => simp [LegalHoldRequest.admin, AdminRequest.operation] at hop
  | releaseHold r =>
    cases r' with
    | releaseHold r' =>
      obtain ⟨i, hi, rfl⟩ := Option.map_eq_some_iff.mp hr
      obtain ⟨i', hi', rfl⟩ := Option.map_eq_some_iff.mp hr'
      cases hcmd
      cases hcmd'
      exact ReleaseHoldRequest.fingerprint hi hi' (hfree _ rfl _ rfl)
    | _ => simp [LegalHoldRequest.admin, AdminRequest.operation] at hop
  -- a read is no command
  | getHold r =>
    rw [GetHoldRequest.op?_eq_some hr] at hcmd
    cases hcmd
  | listHolds r =>
    rw [(ListHoldsRequest.op?_eq_some.mp hr).2] at hcmd
    cases hcmd
  | listActivity r =>
    obtain ⟨-, after, -, -, rfl⟩ := ListActivityRequest.op?_eq_some.mp hr
    cases hcmd

end

namespace Sample.Spelling

/-- The SHA-256 of two requests to release `h`, which differ in the spelling of the revision. -/
def digest : Json → List UInt8
  | .obj [("expected_revision", .str "1"), ("hold_id", .str "h"),
      ("idempotency_key", .str "release"), ("organization_id", .str "org"),
      ("reason", .str "over")] =>
    [251, 213, 133, 12, 178, 43, 28, 214, 210, 16, 191, 169, 75, 67, 176, 34, 10, 70, 104, 194, 157,
      98, 115, 0, 180, 138, 160, 21, 152, 81, 145, 239]
  | .obj [("expected_revision", .str "01"), ("hold_id", .str "h"),
      ("idempotency_key", .str "release"), ("organization_id", .str "org"),
      ("reason", .str "over")] =>
    [53, 9, 151, 173, 216, 17, 37, 153, 221, 174, 25, 61, 11, 230, 84, 222, 226, 22, 194, 148, 173,
      187, 57, 68, 13, 82, 216, 98, 199, 242, 97, 92]
  | v => requestDigest v

/-- The backend in which the two spellings have their real digests. -/
scoped instance spelling : Backend := { backend with digest := digest }

/-- A request to release `h` at its first revision. -/
def released (expectedRevision : String) : ReleaseHoldRequest :=
  ⟨expectedRevision, "h", "release", "org", "over"⟩

/-- The schedule in which `h` is created and released, and the release is tried again in another
spelling. -/
def retried : List Label :=
  .start (issued (.createHold (createRequest "h" "create"))) ::
      List.replicate 8 (.step 0 .done) ++
    .start (issued (.releaseHold (released "1"))) :: List.replicate 9 (.step 1 .done) ++
    .start (issued (.releaseHold (released "01"))) :: List.replicate 2 (.step 2 .done)

/-- **A release in another spelling** is the same command and has another digest: the retry is
refused. -/
theorem respelled_release_refused :
    (∃ cmd cmd', (LegalHoldRequest.releaseHold (released "1")).command? "admin" "alice" = some cmd ∧
      (LegalHoldRequest.releaseHold (released "01")).command? "admin" "alice" = some cmd' ∧
      cmd.unhashed = cmd'.unhashed ∧ cmd.requestHash ≠ cmd'.requestHash) ∧
    (∃ view, Returned (after retried) 1 (issued (.releaseHold (released "1"))) (.ok (.hold view))) ∧
    Returned (after retried) 2 (issued (.releaseHold (released "01")))
      (.error (.domain .idempotencyConflict)) :=
  ⟨⟨_, _, rfl, rfl, rfl, by decide⟩, ⟨_, rfl⟩, rfl⟩

/-- A request to put `f` under `h`, for a subject or for none. -/
def added (expectedRevision : String) (subject : OptionalValue String) : AddScopeRequest :=
  ⟨expectedRevision, "h", "add", "org", "f", "file", subject⟩

/-- An addition in another spelling has the same digest. -/
theorem respelled_addition :
    ∃ cmd cmd', (LegalHoldRequest.addScope (added "1" none)).command? "admin" "alice" = some cmd ∧
      (LegalHoldRequest.addScope (added "+01" (some none))).command? "admin" "alice" = some cmd' ∧
      cmd.requestHash = cmd'.requestHash := by
  have h : (LegalHoldRequest.addScope (added "1" none)).command? "admin" "alice" = some _ := rfl
  have h' : (LegalHoldRequest.addScope (added "+01" (some none))).command? "admin" "alice" =
      some _ := rfl
  refine ⟨_, _, h, h', ((fingerprint_iff rfl h h' ?_).mpr not_false).mpr rfl⟩
  rintro v hv v' hv' -
  exact Option.some.inj (hv.symm.trans hv')

end Sample.Spelling

end LegalHold
