import LegalHold.Answers
import LegalHold.Authorization
import LegalHold.Contract

/-!
# Validation and the published contract

The contract bounds the texts of a request in characters, the plugin in bytes; the contract
describes decimals by patterns, the plugin reads them as integers; and each has its own
largest page.  Both are brought down to the fields of a request, where they are compared.

## Main definitions

* `LegalHoldRequest.Violates` — a request that the contract does not allow.
* `CheckedField`, `LegalHoldRequest.fields` — the fields that both look at.
* `CheckedField.Barred`, `CheckedField.Lenient`, `CheckedField.Strict` — the fields refused by
  both, by the contract only, by the plugin only.

## Main results

* `LegalHoldRequest.violates_iff`, `LegalHoldRequest.op?_eq_none_iff` — what either refuses
  is a field that it refuses.
* `validation_agrees_iff` — **when the plugin answers as the contract says**.
-/

namespace LegalHold

open JsonSchema Interleave

/-! ### What the contract does not allow -/

/-- The texts in a value, with their names. -/
def Json.texts : Json → List (String × String)
  | .obj members => members.filterMap fun
    | (name, .str text) => some (name, text)
    | _ => none
  | _ => []

/-- The decimal does not fit into an `i64`. -/
def ExceedsI64 (decimal : String) : Prop :=
  ∃ n ∈ parseDigits decimal.toList, maxI64 < (n : Int)

/-- A text on which the schema puts no bound. -/
def Unbounded (k : Keywords) : Prop :=
  k.maxLength.isNone = true ∧ k.pattern.isNone = true ∧ k.enumeration.isNone = true

/-- A decimal that is too large, or a text without a bound of its own that is too long. -/
def TooLarge (property : Schema) (text : String) : Prop :=
  (property.keywords.pattern.isSome = true ∧ ExceedsI64 text) ∨
    (Unbounded property.keywords ∧ 512 < text.utf8ByteSize)

/-- The request is one that the published contract does not allow. -/
def LegalHoldRequest.Violates (r : LegalHoldRequest) : Prop :=
  r.schema.accepts r.toValue = false ∨
    ∃ t ∈ r.toValue.texts, ∃ property ∈ r.schema.property? t.1, TooLarge property t.2

/-- A text with something to see in it, and nothing that cannot be seen. -/
structure Clean (s : String) : Prop where
  nonblank : s.toList.all isWhitespace = false
  printable : s.toList.any isControl = false

/-- All texts of the request are free of the control characters that the plugin refuses. -/
def LegalHoldRequest.Clean (r : LegalHoldRequest) : Prop :=
  ∀ t ∈ r.toValue.texts, LegalHold.Clean t.2

/-! ### Fields -/

/-- A field of a request that the contract and the plugin both look at, with its bounds. -/
inductive CheckedField where
  /-- A text with a bound in characters and one in bytes. -/
  | bounded (value : String) (maxLength maxBytes : ℕ)
  /-- A text that the schema does not bound. -/
  | unbounded (value : String)
  | revision (value : String)
  | after (value : String)
  /-- A page size, with the `maximum` of the schema. -/
  | limit (value maximum : Int)

namespace CheckedField

/-- The contract allows what the field holds. -/
def Allowed : CheckedField → Prop
  | .bounded value maxLength _ => value.length ≤ maxLength
  | .unbounded value => value.utf8ByteSize ≤ 512
  | .revision value => positiveDecimal.accepts (Json.str value) = true ∧ ¬ExceedsI64 value
  | .after value => decimal.accepts (Json.str value) = true ∧ ¬ExceedsI64 value
  | .limit value maximum => 1 ≤ value ∧ value ≤ maximum

/-- The plugin takes what the field holds. -/
def Taken : CheckedField → Prop
  | .bounded value _ maxBytes => validText value maxBytes false = true
  | .unbounded value => validId value = true
  | .revision value => ∃ n, parseI64 value = some n ∧ 0 < n
  | .after value => ∃ n, parseI64 value = some n ∧ 0 ≤ n
  | .limit value _ => 1 ≤ value ∧ value ≤ maxPageSize

/-- Too much in characters and in bytes, no decimal in range, or no page size. -/
def Barred : CheckedField → Prop
  | .bounded value maxLength maxBytes =>
    maxLength < value.length ∧ maxBytes < value.utf8ByteSize
  | .unbounded value => 512 < value.utf8ByteSize
  | .revision value => ∀ n, parseI64 value = some n → n ≤ 0
  | .after value => ∀ n, parseI64 value = some n → n < 0
  | .limit value maximum => value < 1 ∨ (maximum < value ∧ maxPageSize < value)

/-- Too many characters in few enough bytes, or a decimal in range that is written with a
sign or a leading zero where the pattern has none. -/
def Lenient : CheckedField → Prop
  | .bounded value maxLength maxBytes =>
    maxLength < value.length ∧ value.utf8ByteSize ≤ maxBytes
  | .unbounded _ => False
  | .revision value => (∃ n, parseI64 value = some n ∧ 0 < n) ∧
    (value.toList.head? = some '+' ∨ value.toList.head? = some '0')
  | .after value => (∃ n, parseI64 value = some n ∧ 0 ≤ n) ∧
    (value.toList.head? = some '+' ∨ value.toList.head? = some '-')
  | .limit value maximum => 1 ≤ value ∧ maximum < value ∧ value ≤ maxPageSize

/-- Few enough characters in too many bytes, or a page of the contract that is larger than
the plugin's largest. -/
def Strict : CheckedField → Prop
  | .bounded value maxLength maxBytes =>
    value.length ≤ maxLength ∧ maxBytes < value.utf8ByteSize
  | .limit value maximum => maxPageSize < value ∧ value ≤ maximum
  | _ => False

end CheckedField

/-- The fields of a request to change a scope. -/
def AddScopeRequest.fields (r : AddScopeRequest) : List CheckedField :=
  [.unbounded r.organizationId, .unbounded r.holdId, .bounded r.scopeKind 64 128,
    .bounded r.scopeId 256 512, .revision r.expectedRevision,
    .bounded r.idempotencyKey 200 200] ++
    r.subject.join.toList.map fun subject => .bounded subject 256 512

/-- The fields of a request that contract or plugin have something to say about. -/
def LegalHoldRequest.fields : LegalHoldRequest → List CheckedField
  | .addScope r | .removeScope r => r.fields
  | .createHold r =>
    [.bounded r.organizationId 256 512, .bounded r.holdId 256 512, .bounded r.title 300 1000,
      .bounded r.reason 4000 20000, .bounded r.legalAuthority 1000 1000,
      .bounded r.idempotencyKey 200 200]
  | .getHold r => [.unbounded r.organizationId, .unbounded r.holdId]
  | .listActivity r =>
    [.unbounded r.organizationId, .unbounded r.holdId] ++ r.after.toList.map .after ++
      [.limit r.limit 500]
  | .listHolds r =>
    [.unbounded r.organizationId] ++ r.cursor.toList.map .unbounded ++ [.limit r.limit 200]
  | .releaseHold r =>
    [.unbounded r.organizationId, .unbounded r.holdId, .revision r.expectedRevision,
      .bounded r.reason 4000 20000, .bounded r.idempotencyKey 200 200]

/-! ### One field -/

theorem validText_iff {s : String} (h : Clean s) {n : ℕ} :
    validText s n false = true ↔ s.utf8ByteSize ≤ n := by
  simp [validText, h.nonblank, h.printable]

theorem exceedsI64_iff {s : String} {n : ℕ} (h : parseDigits s.toList = some n) :
    ExceedsI64 s ↔ maxI64 < (n : Int) := by
  simp [ExceedsI64, h]

namespace CheckedField

variable {s : String}

/-- **The decimals of the first pattern in range** are those that the plugin takes, but for a
sign or a leading zero. -/
theorem allowed_revision_iff : (revision s).Allowed ↔
    (revision s).Taken ∧ ¬(s.toList.head? = some '+' ∨ s.toList.head? = some '0') := by
  rw [not_or]
  constructor
  -- The pattern begins with a digit that is not zero.
  · rintro ⟨hpattern, hrange⟩
    obtain ⟨c, cs, heq, ⟨hdigit, hne⟩, -⟩ := positiveDecimal_accepts.mp hpattern
    obtain ⟨n, hn, rfl⟩ := positiveDecimal_accepts_iff.mp hpattern
    have hdigits : parseDigits (formatI64 n).toList = some n := by
      rw [toList_formatI64_natCast, parseDigits_toDigits]
    rw [exceedsI64_iff hdigits, Int.not_lt] at hrange
    refine ⟨⟨n, parseI64_formatI64 (by omega) hrange, by omega⟩, ?_, ?_⟩
    · rw [heq, List.head?_cons]
      rintro ⟨⟩
      exact absurd hdigit (by decide)
    · rw [heq, List.head?_cons]
      rintro ⟨⟩
      exact hne rfl
  · rintro ⟨⟨n, hparse, hpos⟩, hplus, hzero⟩
    -- A number that is positive has no minus sign, and without the other two it is written in
    -- digits.
    have hminus : s.toList.head? ≠ some '-' := fun h =>
      absurd (parseI64_nonpos hparse h) (Int.not_le.mpr hpos)
    obtain ⟨m, hm, rfl, hrange⟩ := digits_of_parseI64 hparse hplus hminus
    obtain ⟨⟨hne, hdigits⟩, -⟩ := parseDigits_eq_some.mp hm
    obtain ⟨c, cs, heq⟩ := List.exists_cons_of_ne_nil hne
    rw [heq] at hdigits hzero
    refine ⟨positiveDecimal_accepts.mpr ⟨c, cs, heq, ⟨?_, ?_⟩, ?_⟩, ?_⟩
    · exact hdigits c List.mem_cons_self
    · rintro rfl
      exact hzero rfl
    · exact fun d hd => hdigits d (List.mem_cons_of_mem c hd)
    · rw [exceedsI64_iff hm, Int.not_lt]
      exact hrange

/-- What the pattern of a cursor allows: all that the plugin takes, but for a sign in front. -/
theorem allowed_after_iff : (after s).Allowed ↔
    (after s).Taken ∧ ¬(s.toList.head? = some '+' ∨ s.toList.head? = some '-') := by
  rw [not_or]
  constructor
  · rintro ⟨hpattern, hrange⟩
    have hdigits := decimal_accepts_iff.mp hpattern
    have hparse := parseDigits_eq_some.mpr ⟨hdigits, rfl⟩
    rw [exceedsI64_iff hparse, Int.not_lt] at hrange
    refine ⟨⟨_, (parseI64_of_digits hparse).trans (if_pos hrange), by omega⟩, ?_, ?_⟩
    · exact head_ne_of_digits hdigits.2 rfl
    · exact head_ne_of_digits hdigits.2 rfl
  · rintro ⟨⟨n, hparse, -⟩, hplus, hminus⟩
    obtain ⟨m, hm, rfl, hrange⟩ := digits_of_parseI64 hparse hplus hminus
    refine ⟨decimal_accepts_iff.mpr (parseDigits_eq_some.mp hm).1, ?_⟩
    rw [exceedsI64_iff hm, Int.not_lt]
    exact hrange

/-- A field whose text is clean, if it is checked as a text. -/
def Clean : CheckedField → Prop
  | .bounded value _ _ | .unbounded value => LegalHold.Clean value
  | _ => True

variable {f : CheckedField}

/-- **Refused by the contract only**: the field is taken by the plugin and not allowed. -/
theorem lenient_iff (h : f.Clean) : f.Lenient ↔ f.Taken ∧ ¬f.Allowed := by
  cases f with
  | bounded value maxLength maxBytes =>
    simp only [Lenient, Taken, Allowed, validText_iff h]
    omega
  | unbounded value => simp [Lenient, Taken, Allowed, validId, maxIdBytes, validText_iff h]
  | revision value =>
    rw [allowed_revision_iff, not_and, not_not]
    exact ⟨fun h => ⟨h.1, fun _ => h.2⟩, fun h => ⟨h.1, h.2 h.1⟩⟩
  | after value =>
    rw [allowed_after_iff, not_and, not_not]
    exact ⟨fun h => ⟨h.1, fun _ => h.2⟩, fun h => ⟨h.1, h.2 h.1⟩⟩
  | limit value maximum =>
    simp only [Lenient, Taken, Allowed]
    omega

/-- **Refused by the plugin only**: the field is allowed and not taken. -/
theorem strict_iff (h : f.Clean) : f.Strict ↔ ¬f.Taken ∧ f.Allowed := by
  cases f with
  | bounded value maxLength maxBytes =>
    simp only [Strict, Taken, Allowed, validText_iff h]
    omega
  | unbounded value => simp [Strict, Taken, Allowed, validId, maxIdBytes, validText_iff h]
  | revision value =>
    rw [allowed_revision_iff]
    exact ⟨False.elim, fun h => h.1 h.2.1⟩
  | after value =>
    rw [allowed_after_iff]
    exact ⟨False.elim, fun h => h.1 h.2.1⟩
  | limit value maximum =>
    simp only [Strict, Taken, Allowed]
    unfold maxPageSize
    omega

/-- **Refused by both**: the field is neither taken nor allowed. -/
theorem barred_iff (h : f.Clean) : f.Barred ↔ ¬f.Taken ∧ ¬f.Allowed := by
  cases f with
  | bounded value maxLength maxBytes =>
    simp only [Barred, Taken, Allowed, validText_iff h]
    omega
  | unbounded value => simp [Barred, Taken, Allowed, validId, maxIdBytes, validText_iff h]
  | revision value =>
    have hbarred : (revision value).Barred ↔ ¬(revision value).Taken := by
      simp only [Barred, Taken, not_exists, not_and, Int.not_lt]
    rw [hbarred, allowed_revision_iff]
    exact ⟨fun h => ⟨h, fun h' => h h'.1⟩, And.left⟩
  | after value =>
    have hbarred : (after value).Barred ↔ ¬(after value).Taken := by
      simp only [Barred, Taken, not_exists, not_and, Int.not_le]
    rw [hbarred, allowed_after_iff]
    exact ⟨fun h => ⟨h, fun h' => h h'.1⟩, And.left⟩
  | limit value maximum =>
    simp only [Barred, Taken, Allowed]
    unfold maxPageSize
    omega

end CheckedField

/-! ### One member -/

/-- The property allows the value, and numbers are in the range of the plugin. -/
structure InBounds (property : Schema) (v : Json) : Prop where
  accepted : property.accepts v = true
  small : ∀ text, v = .str text → ¬TooLarge property text

theorem inBounds_str_iff {property : Schema} {s : String} :
    InBounds property (.str s) ↔ property.accepts (Json.str s) = true ∧ ¬TooLarge property s := by
  refine ⟨fun h => ⟨h.accepted, h.small s rfl⟩, fun h => ⟨h.1, fun text heq => ?_⟩⟩
  cases heq
  exact h.2

@[simp] theorem plainText_inBounds_iff {s : String} :
    InBounds plainText (.str s) ↔ s.utf8ByteSize ≤ 512 := by
  have hlarge : TooLarge plainText s ↔ 512 < s.utf8ByteSize := by
    simp [TooLarge, Unbounded, plainText, Schema.leaf, Schema.keywords]
  rw [inBounds_str_iff, hlarge, Nat.not_lt]
  exact and_iff_right (plainText_accepts s)

theorem Clean.length_pos {s : String} (h : Clean s) : 1 ≤ s.length := by
  refine Nat.one_le_iff_ne_zero.mpr fun hzero => ?_
  have hnil : s.toList = [] := List.length_eq_zero_iff.mp hzero
  have hblank := h.nonblank
  rw [hnil] at hblank
  cases hblank

@[simp] theorem boundedText_inBounds_iff {s : String} (h : Clean s) {maxLength : ℕ} :
    InBounds (boundedText maxLength) (.str s) ↔ s.length ≤ maxLength := by
  have hlarge : ¬TooLarge (boundedText maxLength) s := by
    simp [TooLarge, Unbounded, boundedText, Schema.leaf, Schema.keywords]
  rw [inBounds_str_iff, and_iff_left hlarge, boundedText_accepts_iff]
  exact and_iff_right h.length_pos

@[simp] theorem positiveDecimal_inBounds_iff {s : String} :
    InBounds positiveDecimal (.str s) ↔
      positiveDecimal.accepts (Json.str s) = true ∧ ¬ExceedsI64 s := by
  have hlarge : TooLarge positiveDecimal s ↔ ExceedsI64 s := by
    simp [TooLarge, Unbounded, positiveDecimal, Schema.leaf, Schema.keywords]
  rw [inBounds_str_iff, hlarge]

@[simp] theorem decimal_inBounds_iff {s : String} :
    InBounds decimal (.str s) ↔ decimal.accepts (Json.str s) = true ∧ ¬ExceedsI64 s := by
  have hlarge : TooLarge decimal s ↔ ExceedsI64 s := by
    simp [TooLarge, Unbounded, decimal, Schema.leaf, Schema.keywords]
  rw [inBounds_str_iff, hlarge]

@[simp] theorem pageSize_inBounds_iff {maximum n : Int} :
    InBounds (pageSize maximum) (.num n) ↔ 1 ≤ n ∧ n ≤ maximum := by
  constructor
  · exact fun h => pageSize_accepts_iff.mp h.accepted
  · exact fun h => ⟨pageSize_accepts_iff.mpr h, fun text heq => by cases heq⟩

@[simp] theorem statusText_inBounds (status : Status) : InBounds statusText (.str status.text) := by
  have hlarge : ¬TooLarge statusText status.text := by
    simp [TooLarge, Unbounded, statusText, Schema.leaf, Schema.keywords]
  rw [inBounds_str_iff, and_iff_left hlarge, statusText_accepts_iff]
  cases status
  · exact .inl rfl
  · exact .inr rfl

@[simp] theorem subjectText_inBounds_iff {s : String} :
    InBounds subjectText (.str s) ↔ s.length ≤ 256 := by
  have hlarge : ¬TooLarge subjectText s := by
    simp [TooLarge, Unbounded, subjectText, Schema.leaf, Schema.keywords]
  rw [inBounds_str_iff, and_iff_left hlarge]
  simp [subjectText, Schema.accepts_leaf_iff, Keywords.accepts, View.is]

@[simp] theorem subjectText_inBounds_null : InBounds subjectText .null := by
  refine ⟨?_, fun text heq => by cases heq⟩
  simp [subjectText, Schema.accepts_leaf_iff, Keywords.accepts, View.is]

/-! ### One request -/

theorem mem_texts {members : List (String × Json)} {t : String × String} :
    t ∈ (Json.obj members).texts ↔ (t.1, Json.str t.2) ∈ members := by
  obtain ⟨name, text⟩ := t
  simp only [Json.texts, List.mem_filterMap, Prod.exists]
  constructor
  · rintro ⟨name', v, hmem, heq⟩
    cases v with
    | str text' =>
      cases heq
      exact hmem
    | _ => cases heq
  · exact fun hmem => ⟨_, _, hmem, rfl⟩

/-- **A request is allowed when each of its members is.** -/
theorem not_violates_iff {r : LegalHoldRequest} {properties : List (String × Schema)}
    {required : List String} {members : List (String × Json)}
    (hschema : r.schema = .record properties required) (hvalue : r.toValue = .obj members)
    (hnodup : (properties.map Prod.fst).Nodup)
    (hrequired : ∀ name ∈ required, ∃ m ∈ members, m.1 = name) :
    ¬r.Violates ↔
      ∀ m ∈ members, ∃ property ∈ (Schema.record properties required).property? m.1,
        InBounds property m.2 := by
  have haccepts : (Schema.record properties required).accepts (Json.obj members) = true ↔
      ∀ m ∈ members, ∃ property ∈ (Schema.record properties required).property? m.1,
        property.accepts m.2 = true := by
    rw [Schema.accepts_record_iff_property hnodup]
    simp only [view_obj, View.object.injEq, exists_eq_left']
    exact and_iff_right hrequired
  unfold LegalHoldRequest.Violates
  rw [hschema, hvalue, not_or, Bool.not_eq_false, haccepts]
  constructor
  · rintro ⟨haccepted, hsmall⟩ m hm
    obtain ⟨property, hproperty, hvalue⟩ := haccepted m hm
    refine ⟨property, hproperty, hvalue, fun text htext hlarge => hsmall ?_⟩
    exact ⟨(m.1, text), mem_texts.mpr (by rw [← htext]; exact hm), property, hproperty, hlarge⟩
  · intro hbounds
    refine ⟨fun m hm => ?_, ?_⟩
    · obtain ⟨property, hproperty, hin⟩ := hbounds m hm
      exact ⟨property, hproperty, hin.accepted⟩
    · rintro ⟨t, ht, property, hproperty, hlarge⟩
      obtain ⟨property', hproperty', hin⟩ := hbounds _ (mem_texts.mp ht)
      cases hproperty.symm.trans hproperty'
      exact hin.small _ rfl hlarge

theorem AddScopeRequest.clean_fields {r : AddScopeRequest}
    (h : ∀ t ∈ r.toValue.texts, LegalHold.Clean t.2) : ∀ f ∈ r.fields, f.Clean := by
  obtain ⟨expectedRevision, holdId, idempotencyKey, organizationId, scopeId, scopeKind,
    subject⟩ := r
  rcases subject with _ | _ | subject
  all_goals
    simp [AddScopeRequest.toValue, Json.texts, member?, Json.ofOption] at h
    simp [fields, CheckedField.Clean, h]

/-- The texts that are checked are texts of the request. -/
theorem LegalHoldRequest.Clean.fields {r : LegalHoldRequest} (h : r.Clean) :
    ∀ f ∈ r.fields, f.Clean := by
  cases r with
  | addScope r => exact r.clean_fields h
  | removeScope r => exact AddScopeRequest.clean_fields h
  | createHold r =>
    simp [LegalHoldRequest.Clean, toValue, CreateHoldRequest.hashInput, Json.texts] at h
    simp [LegalHoldRequest.fields, CheckedField.Clean, h]
  | getHold r =>
    simp [LegalHoldRequest.Clean, toValue, GetHoldRequest.toValue, Json.texts] at h
    simp [LegalHoldRequest.fields, CheckedField.Clean, h]
  | listActivity r =>
    obtain ⟨organizationId, holdId, after, limit⟩ := r
    cases after
    all_goals
      simp [LegalHoldRequest.Clean, toValue, ListActivityRequest.toValue, Json.texts, member?] at h
      simp [LegalHoldRequest.fields, CheckedField.Clean, h]
  | listHolds r =>
    obtain ⟨cursor, limit, organizationId, status⟩ := r
    cases cursor <;> cases status
    all_goals
      simp [LegalHoldRequest.Clean, toValue, ListHoldsRequest.toValue, Json.texts, member?] at h
      simp [LegalHoldRequest.fields, CheckedField.Clean, h]
  | releaseHold r =>
    simp [LegalHoldRequest.Clean, toValue, ReleaseHoldRequest.hashInput, Json.texts] at h
    simp [LegalHoldRequest.fields, CheckedField.Clean, h]

/-- What the contract allows of a request to change a scope. -/
theorem AddScopeRequest.inBounds_iff {r : AddScopeRequest} (h : ∀ f ∈ r.fields, f.Clean)
    {members : List (String × Json)} (hvalue : r.toValue = .obj members) :
    (∀ m ∈ members, ∃ property ∈ mutateScopeRequestSchema.property? m.1, InBounds property m.2) ↔
      ∀ f ∈ r.fields, f.Allowed := by
  obtain ⟨expectedRevision, holdId, idempotencyKey, organizationId, scopeId, scopeKind,
    subject⟩ := r
  rcases subject with _ | _ | subject
  all_goals
    cases hvalue
    simp [fields, CheckedField.Clean] at h
    simp [mutateScopeRequestSchema, member?, Json.ofOption, fields, CheckedField.Allowed, h]
    tauto

/-- **What the contract does not allow is a field that it does not allow.** -/
theorem LegalHoldRequest.violates_iff {r : LegalHoldRequest} (h : r.Clean) :
    r.Violates ↔ ∃ f ∈ r.fields, ¬f.Allowed := by
  suffices hall : ¬r.Violates ↔ ∀ f ∈ r.fields, f.Allowed by
    rw [← not_iff_not, hall]
    simp
  have hclean := h.fields
  cases r with
  | addScope r =>
    rw [not_violates_iff (r := .addScope r) rfl rfl (by decide) (by simp)]
    exact AddScopeRequest.inBounds_iff hclean rfl
  | removeScope r =>
    rw [not_violates_iff (r := .removeScope r) rfl rfl (by decide) (by simp)]
    exact AddScopeRequest.inBounds_iff hclean rfl
  | createHold r =>
    rw [not_violates_iff (r := .createHold r) rfl rfl (by decide) (by simp)]
    simp [fields, CheckedField.Clean] at hclean
    simp [fields, CheckedField.Allowed, hclean]
    tauto
  | getHold r =>
    rw [not_violates_iff (r := .getHold r) rfl rfl (by decide) (by simp)]
    simp [fields, CheckedField.Allowed]
    tauto
  | listActivity r =>
    obtain ⟨organizationId, holdId, after, limit⟩ := r
    cases after
    all_goals
      rw [not_violates_iff (r := .listActivity _) rfl rfl (by decide) (by simp [member?])]
      simp [member?, fields, CheckedField.Allowed]
      tauto
  | listHolds r =>
    obtain ⟨cursor, limit, organizationId, status⟩ := r
    cases cursor <;> cases status
    all_goals
      rw [not_violates_iff (r := .listHolds _) rfl rfl (by decide) (by simp [member?])]
      simp [member?, fields, CheckedField.Allowed]
      tauto
  | releaseHold r =>
    rw [not_violates_iff (r := .releaseHold r) rfl rfl (by decide) (by simp)]
    simp [fields, CheckedField.Clean] at hclean
    simp [fields, CheckedField.Allowed, hclean]
    tauto

/-- A request asks for no operation exactly when the plugin does not take one of its fields. -/
theorem LegalHoldRequest.op?_eq_none_iff [Backend] {r : LegalHoldRequest} {caller actor : String} :
    r.admin.op? caller actor = none ↔ ∃ f ∈ r.fields, ¬f.Taken := by
  suffices hall : r.admin.op? caller actor ≠ none ↔ ∀ f ∈ r.fields, f.Taken by
    rw [← not_iff_not, ← ne_eq, hall]
    simp
  have hscope : ∀ r : AddScopeRequest, r.mutateScope.input? caller actor ≠ none ↔
      ∀ f ∈ r.fields, f.Taken := by
    intro r
    rw [MutateScopeRequest.input?_ne_none_iff]
    simp [AddScopeRequest.fields, AddScopeRequest.mutateScope, CheckedField.Taken,
      validId, validIdempotencyKey, maxIdBytes, maxIdempotencyBytes]
    tauto
  cases r with
  | addScope r => simpa [admin, AdminRequest.op?, fields] using hscope r
  | removeScope r => simpa [admin, AdminRequest.op?, fields] using hscope r
  | createHold r =>
    simp [admin, AdminRequest.op?, CreateHoldRequest.input?, fields, CheckedField.Taken, validId,
      validIdempotencyKey, maxIdBytes, maxShortTextBytes, maxReasonBytes, maxIdempotencyBytes]
  | getHold r =>
    simp [admin, AdminRequest.op?, GetHoldRequest.op?, GetHoldRequest.valid, fields,
      CheckedField.Taken]
  | listActivity r =>
    obtain ⟨organizationId, holdId, after, limit⟩ := r
    have hzero : parseI64 "0" = some 0 := by decide
    cases after <;> simp [admin, AdminRequest.op?, ListActivityRequest.op?,
      ListActivityRequest.cursor, fields, CheckedField.Taken, hzero]
    tauto
  | listHolds r =>
    obtain ⟨cursor, limit, organizationId, status⟩ := r
    cases cursor <;> simp [admin, AdminRequest.op?, ListHoldsRequest.op?,
      ListHoldsRequest.valid, fields, CheckedField.Taken]
    tauto
  | releaseHold r =>
    have hop : (AdminRequest.releaseHold r).op? caller actor ≠ none ↔
        r.input? caller actor ≠ none := by simp [AdminRequest.op?]
    show (AdminRequest.releaseHold r).op? caller actor ≠ none ↔ _
    rw [hop, ReleaseHoldRequest.input?_ne_none_iff]
    simp [fields, CheckedField.Taken, validId, validIdempotencyKey, maxIdBytes, maxReasonBytes,
      maxIdempotencyBytes]
    tauto

/-! ### Where they differ -/

/-- Two lists of objections agree on whether there is any when there is a common one, or one
of each kind, or none. -/
theorem exists_not_congr_iff {α : Type} {l : List α} {P Q : α → Prop} :
    ((∃ a ∈ l, ¬P a) ↔ ∃ a ∈ l, ¬Q a) ↔
      (∃ a ∈ l, ¬P a ∧ ¬Q a) ∨ ((∃ a ∈ l, P a ∧ ¬Q a) ↔ ∃ a ∈ l, ¬P a ∧ Q a) := by
  have hsplit : ∀ P Q : α → Prop, (∃ a ∈ l, ¬P a) ↔
      (∃ a ∈ l, ¬P a ∧ ¬Q a) ∨ ∃ a ∈ l, ¬P a ∧ Q a := by
    intro P Q
    rw [← exists_or]
    refine exists_congr fun a => ?_
    by_cases hQ : Q a <;> simp [hQ]
  have hcomm : (∃ a ∈ l, ¬Q a ∧ ¬P a) ↔ ∃ a ∈ l, ¬P a ∧ ¬Q a := by simp only [and_comm]
  have hcomm' : (∃ a ∈ l, ¬Q a ∧ P a) ↔ ∃ a ∈ l, P a ∧ ¬Q a := by simp only [and_comm]
  rw [hsplit P Q, hsplit Q P, hcomm, hcomm']
  by_cases hboth : ∃ a ∈ l, ¬P a ∧ ¬Q a
  · simp only [hboth, true_or]
  · simp only [hboth, false_or]
    exact iff_comm

/-- **When the plugin answers as the contract says.**  An authorized request with clean texts
is answered as invalid exactly when the contract does not allow it, if both refuse one of its
fields, or if there is a field that only the contract refuses just when there is one that
only the plugin refuses. -/
theorem validation_agrees_iff [Backend] {Ctx : Type} {p : Plugin Ctx} {ctx : Ctx}
    {r : LegalHoldRequest} {caller actor : String}
    (hauth : p.Authorized ctx r.admin.operation r.admin.organizationId r.admin.permission
      caller actor)
    (hclean : r.Clean) {x : Except PluginError Response} (hx : p.Answers ctx r.admin x) :
    (x = .error (.domain .invalidRequest) ↔ r.Violates) ↔
      (∃ f ∈ r.fields, f.Barred) ∨ ((∃ f ∈ r.fields, f.Lenient) ↔ ∃ f ∈ r.fields, f.Strict) := by
  have hfields := hclean.fields
  have hbarred : (∃ f ∈ r.fields, f.Barred) ↔ ∃ f ∈ r.fields, ¬f.Taken ∧ ¬f.Allowed :=
    exists_congr fun f => and_congr_right fun hf => CheckedField.barred_iff (hfields f hf)
  have hlenient : (∃ f ∈ r.fields, f.Lenient) ↔ ∃ f ∈ r.fields, f.Taken ∧ ¬f.Allowed :=
    exists_congr fun f => and_congr_right fun hf => CheckedField.lenient_iff (hfields f hf)
  have hstrict : (∃ f ∈ r.fields, f.Strict) ↔ ∃ f ∈ r.fields, ¬f.Taken ∧ f.Allowed :=
    exists_congr fun f => and_congr_right fun hf => CheckedField.strict_iff (hfields f hf)
  rw [Plugin.answers_invalid_iff (Plugin.authorizeAdmin_eq_ok_iff.mpr hauth) hx,
    LegalHoldRequest.op?_eq_none_iff, LegalHoldRequest.violates_iff hclean, hbarred, hlenient,
    hstrict]
  exact exists_not_congr_iff

namespace Sample

/-- A request for a page of the activity of `h`. -/
def page (limit : Int) : LegalHoldRequest := .listActivity ⟨"org", "h", none, limit⟩

theorem page_authorized (limit : Int) :
    plugin.Authorized ("console", "alice") (page limit).admin.operation
      (page limit).admin.organizationId (page limit).admin.permission "console" "alice" where
  called := rfl
  configured := by decide
  asserted := ⟨_, rfl, rfl⟩
  valid := by decide
  member := rfl
  permitted := rfl

theorem page_clean (limit : Int) : (page limit).Clean := by
  have hlist : (page limit).toValue.texts = [("hold_id", "h"), ("organization_id", "org")] := rfl
  intro t ht
  rw [hlist, List.mem_pair] at ht
  rcases ht with rfl | rfl
  · exact ⟨by decide, by decide⟩
  · exact ⟨by decide, by decide⟩

/-- The plugin asks nothing of the database for an invalid page. -/
theorem page_invalid {limit : Int} (h : (page limit).admin.op? "console" "alice" = none) :
    plugin.Answers ("console", "alice") (page limit).admin (.error (.domain .invalidRequest)) :=
  .settled (Plugin.handle_invalid (Plugin.authorizeAdmin_eq_ok_iff.mpr (page_authorized limit)) h)

/-- A page of no events is allowed by neither. -/
theorem empty_page_agrees :
    (Except.error (.domain .invalidRequest) : Except PluginError Response) =
      .error (.domain .invalidRequest) ↔ (page 0).Violates :=
  (validation_agrees_iff (page_authorized 0) (page_clean 0) (page_invalid rfl)).mpr
    (.inl ⟨.limit 0 500, by simp [page, LegalHoldRequest.fields], .inl (by decide)⟩)

/-- A page of 500 events is allowed by the contract, and invalid to the plugin. -/
theorem full_page_refused :
    plugin.Authorized ("console", "alice") (page 500).admin.operation
        (page 500).admin.organizationId (page 500).admin.permission "console" "alice" ∧
      (page 500).Clean ∧
      plugin.Answers ("console", "alice") (page 500).admin (.error (.domain .invalidRequest)) ∧
      ¬(page 500).Violates := by
  refine ⟨page_authorized 500, page_clean 500, page_invalid rfl, ?_⟩
  rw [LegalHoldRequest.violates_iff (page_clean 500)]
  have horg : "org".utf8ByteSize ≤ 512 := by decide
  have hhold : "h".utf8ByteSize ≤ 512 := by decide
  simp [page, LegalHoldRequest.fields, CheckedField.Allowed, horg, hhold]

end Sample

end LegalHold
