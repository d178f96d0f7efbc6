import LegalHold.AgentTools

/-!
# Domain errors on the wire

The errors of the seven operations as the generated code writes and reads them.  An error that
is declared is its code; one that is not is an object with a code, perhaps a payload, and
whatever else its sender has put beside them, which a reader keeps.

## Main definitions

* `UnknownDomainError`, `OperationError` — the errors of an operation.
* `OperationError.serialize`, `OperationError.deserialize` — the generated serializer and
  deserializer, the same for each operation.
* `OperationError.Plain` — nothing stands beside the code and the payload under their names.

## Main results

* `domain_errors_survive` — **what is read again is what has been written**, but for members
  that hide the code or the payload; and it does not matter to the agent tools.
-/

namespace LegalHold

open Std (ExtTreeMap compare_self)

/-! ### Maps and the lists of their entries -/

section

variable {β : Type} {k : String}

/-- The entries of one map, put into another. -/
theorem getElem?_insertMany_toList (m t : ExtTreeMap String β) :
    (t.insertMany m.toList)[k]? = m[k]?.or t[k]? := by
  cases hk : m[k]? with
  | some v =>
    exact ExtTreeMap.getElem?_insertMany_list_of_mem compare_self ExtTreeMap.distinct_keys_toList
      (ExtTreeMap.mem_toList_iff_getElem?_eq_some.mpr hk)
  | none =>
    refine ExtTreeMap.getElem?_insertMany_list_of_contains_eq_false ?_
    rw [List.contains_eq_any_beq, List.any_eq_false]
    intro k' hk' heq
    obtain rfl := beq_iff_eq.mp heq
    obtain ⟨⟨name, v⟩, hmem, rfl⟩ := List.mem_map.mp hk'
    cases hk.symm.trans (ExtTreeMap.mem_toList_iff_getElem?_eq_some.mp hmem)

/-- Of the entries with one key the last one counts. -/
theorem getElem?_ofList {entries : List (String × β)} : (ExtTreeMap.ofList entries)[k]? =
    (entries.reverse.find? fun entry => entry.1 == k).map Prod.snd := by
  rw [ExtTreeMap.ofList_eq_insertMany_empty, ExtTreeMap.getElem?_insertMany_list,
    List.findSomeRev?_eq_findSome?_reverse, ExtTreeMap.getElem?_empty, Option.or_none]
  induction entries.reverse with
  | nil => rfl
  | cons entry entries ih =>
    rw [List.findSome?_cons, List.find?_cons, ih]
    by_cases heq : entry.1 = k
    · simp [heq]
    · simp [beq_false_of_ne heq, heq]

end

/-! ### Errors -/

/-- An error that the contract does not declare, with all that has been received of it. -/
structure UnknownDomainError where
  code : String
  payload : Option Json
  extra : ExtTreeMap String Json

/-- The error of an operation: that of each has the same declared codes. -/
inductive OperationError where
  | known (error : DomainError)
  | unknown (error : UnknownDomainError)

/-- The code of a declared error, which is all that is written of it. -/
def DomainError.code : DomainError → String
  | .forbidden => "forbidden"
  | .holdReleased => "hold_released"
  | .idempotencyConflict => "idempotency_conflict"
  | .invalidRequest => "invalid_request"
  | .notFound => "not_found"
  | .revisionConflict => "revision_conflict"
  | .scopeConflict => "scope_conflict"
  | .unauthenticated => "unauthenticated"

/-- The reasons why no error of an operation can be read from a value. -/
inductive ReadError where
  | missingCode
  | got (other : Json)

/-- The text of the reason, where `display` is how a value is shown in it. -/
def ReadError.text (display : Json → String) : ReadError → String
  | .missingCode => "Domain Error object is missing a string code"
  | .got other => "Domain Error must be a string or object, got " ++ display other

namespace OperationError

/-- The error that a code on its own stands for: a declared one, or one that is not known. -/
def ofCode (code : String) : OperationError :=
  match code with
  | "forbidden" => .known .forbidden
  | "hold_released" => .known .holdReleased
  | "idempotency_conflict" => .known .idempotencyConflict
  | "invalid_request" => .known .invalidRequest
  | "not_found" => .known .notFound
  | "revision_conflict" => .known .revisionConflict
  | "scope_conflict" => .known .scopeConflict
  | "unauthenticated" => .known .unauthenticated
  | _ => .unknown ⟨code, none, ∅⟩

/-- The members that an unknown error is written with: its code, its payload if there is one, and
the rest. -/
def entries (u : UnknownDomainError) : List (String × Json) :=
  ("code", .str u.code) :: (u.payload.map fun payload => ("payload", payload)).toList ++
    u.extra.toList

/-- The serializer: a known error is its code, and one that is not known is what has been received
of it. -/
def serialize : OperationError → Json
  | .known e => .str e.code
  | .unknown u => .obj (entries u)

/-- An object is collected before it is looked into, so that of the members of one name the last
one counts. -/
def deserialize : Json → Except ReadError OperationError
  | .str code => .ok (ofCode code)
  | .obj members =>
    let object := ExtTreeMap.ofList members
    match object["code"]?.bind Json.asStr with
    | none => .error .missingCode
    | some code =>
      let object := object.erase "code"
      .ok (.unknown ⟨code, object["payload"]?, object.erase "payload"⟩)
  | other => .error (.got other)

/-- What the agent tools make of an error that they have received. -/
def toolError : OperationError → ExecuteError
  | .known e => (LegalHoldError.known e).toolError
  | .unknown u => (LegalHoldError.unknown u.code).toolError

/-- Beside the code and the payload nothing stands under their names. -/
def Plain : OperationError → Prop
  | .known _ => True
  | .unknown u => "code" ∉ u.extra ∧ "payload" ∉ u.extra

/-! ### What a reader makes of an error -/

theorem ofCode_code (e : DomainError) : ofCode e.code = .known e := by
  cases e <;> rfl

/-- A code on its own has nothing beside it. -/
theorem plain_ofCode (code : String) : (ofCode code).Plain := by
  unfold ofCode
  split
  all_goals first
    | trivial
    | exact ⟨ExtTreeMap.not_mem_empty, ExtTreeMap.not_mem_empty⟩

/-- What a reader finds under a name: what stands beside the code and the payload comes first. -/
theorem getElem?_entries (u : UnknownDomainError) {k : String} :
    (ExtTreeMap.ofList (entries u))[k]? = u.extra[k]?.or
      ((if "payload" = k then u.payload else none).or
        (if "code" = k then some (.str u.code) else none)) := by
  obtain ⟨code, payload, extra⟩ := u
  cases payload with
  | none =>
    show (ExtTreeMap.ofList (("code", Json.str code) :: extra.toList))[k]? = _
    rw [ExtTreeMap.ofList_cons, getElem?_insertMany_toList, ExtTreeMap.getElem?_insert]
    simp only [Std.compare_eq_iff_eq, ExtTreeMap.getElem?_empty, ite_self, Option.none_or]
  | some payload =>
    show (ExtTreeMap.ofList (("code", Json.str code) :: ("payload", payload) ::
      extra.toList))[k]? = _
    rw [ExtTreeMap.ofList_cons, ExtTreeMap.insertMany_cons, getElem?_insertMany_toList,
      ExtTreeMap.getElem?_insert, ExtTreeMap.getElem?_insert]
    simp only [Std.compare_eq_iff_eq, ExtTreeMap.getElem?_empty]
    by_cases hk : "payload" = k
    · simp only [hk, if_true, Option.some_or]
    · simp only [hk, if_false, Option.none_or]

theorem deserialize_obj_eq_ok {members : List (String × Json)} {e : OperationError} :
    deserialize (.obj members) = .ok e ↔ ∃ code,
      (ExtTreeMap.ofList members)["code"]?.bind Json.asStr = some code ∧
        e = .unknown ⟨code, ((ExtTreeMap.ofList members).erase "code")["payload"]?,
          ((ExtTreeMap.ofList members).erase "code").erase "payload"⟩ := by
  cases hcode : (ExtTreeMap.ofList members)["code"]?.bind Json.asStr with
  | none => simp [deserialize, hcode]
  | some code => simp [deserialize, hcode, eq_comm]

/-- **A plain error is read again** from what it is written as, with all that it carries. -/
theorem deserialize_serialize {e : OperationError} (h : e.Plain) :
    deserialize e.serialize = .ok e := by
  cases e with
  | known e => exact congrArg Except.ok (ofCode_code e)
  | unknown u =>
    obtain ⟨hcode, hpayload⟩ := h
    replace hcode : u.extra["code"]? = none := ExtTreeMap.getElem?_eq_none hcode
    replace hpayload : u.extra["payload"]? = none := ExtTreeMap.getElem?_eq_none hpayload
    -- The code and the payload are found first, and what is left over is what was extra.
    have hfirst : (ExtTreeMap.ofList (entries u))["code"]? = some (Json.str u.code) := by
      rw [getElem?_entries, hcode]
      simp
    have hsecond : ((ExtTreeMap.ofList (entries u)).erase "code")["payload"]? = u.payload := by
      rw [ExtTreeMap.getElem?_erase, if_neg (by decide), getElem?_entries, hpayload]
      simp
    have hrest : ((ExtTreeMap.ofList (entries u)).erase "code").erase "payload" = u.extra := by
      refine ExtTreeMap.ext_getElem? fun k => ?_
      rw [ExtTreeMap.getElem?_erase, ExtTreeMap.getElem?_erase, getElem?_entries]
      simp only [Std.compare_eq_iff_eq]
      by_cases hp : "payload" = k
      · rw [if_pos hp, ← hp, hpayload]
      by_cases hc : "code" = k
      · rw [if_neg hp, if_pos hc, ← hc, hcode]
      · simp [hp, hc]
    refine deserialize_obj_eq_ok.mpr ⟨u.code, by rw [hfirst]; rfl, ?_⟩
    rw [hsecond, hrest]

/-- **What is read is plain**: an error that comes out of a value can be written and read
again. -/
theorem plain_of_deserialize {v : Json} {e : OperationError} (h : deserialize v = .ok e) :
    e.Plain := by
  cases v with
  | str code =>
    cases h
    exact plain_ofCode code
  | obj members =>
    obtain ⟨code, -, rfl⟩ := deserialize_obj_eq_ok.mp h
    simp [Plain]
  | _ => cases h

/-- An object cannot be read exactly when its code is no text. -/
theorem deserialize_missingCode_iff {v : Json} : deserialize v = .error .missingCode ↔
    ∃ members, v = .obj members ∧ ∀ code,
      (members.reverse.find? fun m => m.1 == "code").map Prod.snd ≠ some (.str code) := by
  cases v with
  | obj members =>
    have hread : deserialize (.obj members) = .error .missingCode ↔
        (ExtTreeMap.ofList members)["code"]?.bind Json.asStr = none := by
      cases hcode : (ExtTreeMap.ofList members)["code"]?.bind Json.asStr with
      | none => simp [deserialize, hcode]
      | some code => simp [deserialize, hcode]
    rw [hread, getElem?_ofList, Option.bind_eq_none_iff]
    constructor
    · intro hnone
      refine ⟨members, rfl, fun code hcode => ?_⟩
      cases hnone _ hcode
    · rintro ⟨members', heq, hnone⟩ v hv
      cases heq
      cases v with
      | str code => exact absurd hv (hnone code)
      | _ => rfl
  | _ =>
    constructor
    · intro h
      cases h
    · rintro ⟨members, heq, -⟩
      cases heq

/-- Of other values only texts can be read. -/
theorem deserialize_got_iff {v other : Json} : deserialize v = .error (.got other) ↔
    v = other ∧ (∀ code, v ≠ .str code) ∧ ∀ members, v ≠ .obj members := by
  cases v with
  | str code => simp [deserialize]
  | obj members =>
    cases hcode : (ExtTreeMap.ofList members)["code"]?.bind Json.asStr with
    | none => simp [deserialize, hcode]
    | some code => simp [deserialize, hcode]
  | _ => simp [deserialize]

/-- The agent tools make the same of it. -/
theorem toolError_deserialize {e e' : OperationError} (h : deserialize e.serialize = .ok e') :
    e'.toolError = e.toolError := by
  cases e with
  | known e =>
    cases (congrArg Except.ok (ofCode_code e)).symm.trans h
    rfl
  | unknown u =>
    obtain ⟨code, -, rfl⟩ := deserialize_obj_eq_ok.mp h
    rfl

end OperationError

/-- **Errors survive the wire.**  An error is read again as it has been written exactly when it is
plain, as all declared ones are, and as is every error that has been read, from whatever sender.
All that cannot be read are the objects whose last code is no text and the values that are
neither objects nor texts.  And whatever is read of an error, the agent tools make the same of
it. -/
theorem domain_errors_survive :
    (∀ e : OperationError, OperationError.deserialize e.serialize = .ok e ↔ e.Plain) ∧
    (∀ v e, OperationError.deserialize v = .ok e →
      OperationError.deserialize e.serialize = .ok e) ∧
    (∀ v, OperationError.deserialize v = .error .missingCode ↔ ∃ members, v = .obj members ∧
      ∀ code, (members.reverse.find? fun m => m.1 == "code").map Prod.snd ≠ some (.str code)) ∧
    (∀ v other, OperationError.deserialize v = .error (.got other) ↔
      v = other ∧ (∀ code, v ≠ .str code) ∧ ∀ members, v ≠ .obj members) ∧
    ∀ e e' : OperationError, OperationError.deserialize e.serialize = .ok e' →
      e'.toolError = e.toolError := by
  refine ⟨fun e => ⟨OperationError.plain_of_deserialize, OperationError.deserialize_serialize⟩,
    fun v e h => ?_, fun v => OperationError.deserialize_missingCode_iff,
    fun v other => OperationError.deserialize_got_iff,
    fun e e' h => OperationError.toolError_deserialize h⟩
  exact OperationError.deserialize_serialize (OperationError.plain_of_deserialize h)

end LegalHold
