import Mathlib.Data.List.Basic
import Mathlib.Data.Nat.Notation

/-!
# Wire values: JSON, decimal integers and hexadecimal digests

What crosses the boundary of the storage layer as text: JSON values, 64-bit
integers written in decimal (revisions, activity cursors) and digests written in
hexadecimal.

## Main definitions

* `Json`, `Json.field` — a JSON value and the member of an object.
* `formatI64`, `parseI64` — `to_string` and `str::parse` of an `i64`.
* `hexEncode` — `hex::encode`.

## Main results

* `parseI64_formatI64` — a formatted integer parses back to itself.
* `parseI64_of_digits`, `digits_of_parseI64` — the decimals without a sign that parse.
* `formatI64_injective`, `hexEncode_injective`.
-/

namespace LegalHold

/-! ### JSON -/

/-- A JSON value; an object is the list of its members. -/
inductive Json where
  | null
  | bool (b : Bool)
  | num (n : Int)
  /-- The number `mantissa * 10 ^ exponent`, when it is not written as an integer. -/
  | float (mantissa exponent : Int)
  | str (s : String)
  | arr (items : List Json)
  | obj (members : List (String × Json))
  deriving Inhabited

namespace Json

/-- The member of an object that has this name; of several the first. -/
def field (name : String) : Json → Option Json
  | .obj members => (members.find? fun m => m.1 == name).map Prod.snd
  | _ => none

/-- The text of a value that is a string. -/
def asStr : Json → Option String
  | .str s => some s
  | _ => none

/-- An optional text as a value, which is `null` when there is none. -/
def ofOption : Option String → Json
  | none => .null
  | some s => .str s

@[simp] theorem asStr_str (s : String) : (Json.str s).asStr = some s := rfl

theorem ofOption_injective : Function.Injective ofOption := by
  intro a b h
  cases a with
  | none => cases b with
    | none => rfl
    | some b => cases h
  | some a => cases b with
    | none => cases h
    | some b => cases h; rfl

end Json

/-! ### Decimal integers -/

/-- `i64::MAX`, the last revision and the last number of a sequence. -/
def maxI64 : Int := 9223372036854775807

/-- `i64::MIN`, which no value of the plugin comes near. -/
def minI64 : Int := -9223372036854775808

/-- `to_string` of an `i64`, without leading zeros. -/
def formatI64 (n : Int) : String := n.repr

/-- A run of decimal digits that is not empty, as a number. -/
def parseDigits (cs : List Char) : Option ℕ :=
  if cs = [] ∨ ¬ cs.all Char.isDigit then none else some (Nat.ofDigitChars 10 cs 0)

/-- `str::parse::<i64>`: an optional sign, at least one digit, no overflow. -/
def parseI64 (s : String) : Option Int :=
  let value : Option Int :=
    match s.toList with
    | '-' :: cs => (parseDigits cs).map fun n : ℕ => -(n : Int)
    | '+' :: cs => (parseDigits cs).map fun n : ℕ => (n : Int)
    | cs => (parseDigits cs).map fun n : ℕ => (n : Int)
  value.filter fun n => decide (minI64 ≤ n ∧ n ≤ maxI64)

theorem parseDigits_toDigits (n : ℕ) : parseDigits (Nat.toDigits 10 n) = some n := by
  have hall : (Nat.toDigits 10 n).all Char.isDigit = true :=
    List.all_eq_true.mpr fun c hc => Nat.isDigit_of_mem_toDigits (by decide) (by decide) hc
  unfold parseDigits
  rw [if_neg (by simp [Nat.toDigits_ne_nil, hall]), Nat.ofDigitChars_ten_toDigits]

theorem toList_formatI64_natCast (n : ℕ) : (formatI64 n).toList = Nat.toDigits 10 n := by
  unfold formatI64
  rw [Int.repr_eq_if, if_pos (by omega), Int.toNat_natCast, Nat.toList_repr]

theorem toList_formatI64_negSucc (n : ℕ) :
    (formatI64 (Int.negSucc n)).toList = '-' :: Nat.toDigits 10 (n + 1) := by
  have hneg : ¬ (0 : Int) ≤ Int.negSucc n := by omega
  have habs : (-Int.negSucc n).toNat = n + 1 := by omega
  unfold formatI64
  rw [Int.repr_eq_if, if_neg hneg, habs, String.toList_append, Nat.toList_repr]
  rfl

/-- A digit is the text of its value. -/
theorem digitChar_of_isDigit {d : Char} (h : d.isDigit) :
    d.toNat - '0'.toNat < 10 ∧ Nat.digitChar (d.toNat - '0'.toNat) = d := by
  obtain ⟨hlow, hhigh⟩ := Char.isDigit_iff_toNat.mp h
  have hbound : d.toNat - '0'.toNat < 10 := by
    have h9 : '9'.toNat = 57 := rfl
    have h0 : '0'.toNat = 48 := rfl
    omega
  refine ⟨hbound, ?_⟩
  have hvalue := Nat.toNat_digitChar_sub_48_of_lt_ten hbound
  have hdigit : (Nat.digitChar (d.toNat - '0'.toNat)).isDigit = true := by
    rw [Nat.isDigit_digitChar]
    exact decide_eq_true hbound
  obtain ⟨hlow', -⟩ := Char.isDigit_iff_toNat.mp hdigit
  have h0 : '0'.toNat = 48 := rfl
  refine Char.toNat_inj.mp ?_
  omega

/-- Digits after a number are the number followed by them. -/
theorem toDigits_ofDigitChars_pos {cs : List Char} (hcs : ∀ d ∈ cs, d.isDigit) {n : ℕ}
    (hn : 0 < n) : Nat.toDigits 10 (Nat.ofDigitChars 10 cs n) = Nat.toDigits 10 n ++ cs := by
  induction cs generalizing n with
  | nil => rw [Nat.ofDigitChars_nil, List.append_nil]
  | cons d cs ih =>
    obtain ⟨hlt, hchar⟩ := digitChar_of_isDigit (hcs d List.mem_cons_self)
    rw [Nat.ofDigitChars_cons, ih (fun d' hd' => hcs d' (List.mem_cons_of_mem d hd')) (by omega),
      ← Nat.toDigits_append_toDigits (by decide) hn hlt, Nat.toDigits_of_lt_base hlt, hchar,
      List.append_assoc]
    rfl

/-- **A decimal without leading zeros is the text of its value.** -/
theorem toDigits_ofDigitChars {c : Char} {cs : List Char} (hc : c.isDigit) (hne : c ≠ '0')
    (hcs : ∀ d ∈ cs, d.isDigit) : Nat.toDigits 10 (Nat.ofDigitChars 10 (c :: cs) 0) = c :: cs := by
  obtain ⟨hlt, hchar⟩ := digitChar_of_isDigit hc
  have hpos : 0 < c.toNat - '0'.toNat := by
    refine Nat.pos_of_ne_zero fun h => hne ?_
    rw [← hchar, h]
    rfl
  rw [Nat.ofDigitChars_cons, Nat.mul_zero, Nat.zero_add, toDigits_ofDigitChars_pos hcs hpos,
    Nat.toDigits_of_lt_base hlt, hchar]
  rfl

/-- The text of a positive number has no leading zeros. -/
theorem toDigits_head_ne_zero {n : ℕ} (hn : 0 < n) :
    ∃ c cs, Nat.toDigits 10 n = c :: cs ∧ c ≠ '0' := by
  induction n using Nat.strongRecOn with
  | _ n ih =>
    by_cases hlt : n < 10
    · refine ⟨_, [], Nat.toDigits_of_lt_base hlt, ?_⟩
      have hall : ∀ n < 10, 0 < n → Nat.digitChar n ≠ '0' := by decide
      exact hall n hlt hn
    · obtain ⟨c, cs, heq, hne⟩ := ih (n / 10) (by omega) (by omega)
      refine ⟨c, cs ++ [Nat.digitChar (n % 10)], ?_, hne⟩
      rw [Nat.toDigits_of_base_le (by decide) (by omega), heq, List.cons_append]

/-- The first digit of a formatted natural number is no sign. -/
theorem toDigits_ne_sign {n : ℕ} {c : Char} {cs : List Char} (h : Nat.toDigits 10 n = c :: cs) :
    c ≠ '-' ∧ c ≠ '+' := by
  have hc : c.isDigit := by
    refine Nat.isDigit_of_mem_toDigits (b := 10) (n := n) (by decide) (by decide) ?_
    rw [h]
    exact List.mem_cons_self
  constructor
  · rintro rfl
    exact absurd hc (by decide)
  · rintro rfl
    exact absurd hc (by decide)

theorem parseDigits_eq_some {cs : List Char} {n : ℕ} :
    parseDigits cs = some n ↔
      (cs ≠ [] ∧ ∀ c ∈ cs, c.isDigit = true) ∧ Nat.ofDigitChars 10 cs 0 = n := by
  unfold parseDigits
  by_cases h : cs = [] ∨ ¬ cs.all Char.isDigit
  · rw [if_pos h]
    simp only [List.all_eq_true] at h
    simp only [reduceCtorEq, false_iff, not_and]
    exact fun hdigits => absurd hdigits.2 (h.resolve_left hdigits.1)
  · rw [if_neg h]
    simp only [List.all_eq_true, not_or, not_not] at h
    rw [Option.some.injEq, and_iff_right h]

/-- A text that does not start with a sign is read as its digits. -/
theorem parseI64_unsigned {s : String} (hplus : s.toList.head? ≠ some '+')
    (hminus : s.toList.head? ≠ some '-') :
    parseI64 s = ((parseDigits s.toList).map fun n : ℕ => (n : Int)).filter
      fun n => decide (minI64 ≤ n ∧ n ≤ maxI64) := by
  unfold parseI64
  -- Neither branch for a sign is taken.
  split
  · next cs heq => exact absurd (by rw [heq]; rfl) hminus
  · next cs heq => exact absurd (by rw [heq]; rfl) hplus
  · rfl

/-- A text of digits does not begin with a sign. -/
theorem head_ne_of_digits {cs : List Char} (h : ∀ c ∈ cs, c.isDigit = true) {sign : Char}
    (hsign : sign.isDigit = false) : cs.head? ≠ some sign := by
  intro hhead
  rw [h sign (List.mem_of_mem_head? hhead)] at hsign
  cases hsign

/-- A text of digits is read unless its number is too large. -/
theorem parseI64_of_digits {s : String} {n : ℕ} (h : parseDigits s.toList = some n) :
    parseI64 s = if (n : Int) ≤ maxI64 then some (n : Int) else none := by
  have hdigits := (parseDigits_eq_some.mp h).1.2
  have hlow : minI64 ≤ (n : Int) := by
    unfold minI64
    omega
  rw [parseI64_unsigned (head_ne_of_digits hdigits rfl) (head_ne_of_digits hdigits rfl), h,
    Option.map_some, Option.filter_some]
  simp only [hlow, true_and, decide_eq_true_eq]

/-- A number that was read without a sign was written in digits. -/
theorem digits_of_parseI64 {s : String} {n : Int} (h : parseI64 s = some n)
    (hplus : s.toList.head? ≠ some '+') (hminus : s.toList.head? ≠ some '-') :
    ∃ m : ℕ, parseDigits s.toList = some m ∧ n = m ∧ n ≤ maxI64 := by
  rw [parseI64_unsigned hplus hminus] at h
  obtain ⟨hvalue, hrange⟩ := Option.filter_eq_some_iff.mp h
  obtain ⟨m, hm, rfl⟩ := Option.map_eq_some_iff.mp hvalue
  exact ⟨m, hm, rfl, (of_decide_eq_true hrange).2⟩

/-- What is read after a minus sign is not positive. -/
theorem parseI64_nonpos {s : String} {n : Int} (h : parseI64 s = some n)
    (hminus : s.toList.head? = some '-') : n ≤ 0 := by
  obtain ⟨cs, hcs⟩ := List.head?_eq_some_iff.mp hminus
  unfold parseI64 at h
  rw [hcs] at h
  obtain ⟨hvalue, -⟩ := Option.filter_eq_some_iff.mp h
  obtain ⟨m, -, rfl⟩ := Option.map_eq_some_iff.mp hvalue
  omega

/-- **A formatted integer parses back to itself**, here for what is ever
formatted: the non-negative ones. -/
theorem parseI64_formatI64 {n : Int} (h0 : 0 ≤ n) (h1 : n ≤ maxI64) :
    parseI64 (formatI64 n) = some n := by
  obtain ⟨m, rfl⟩ := Int.eq_ofNat_of_zero_le h0
  have hdigits : parseDigits (formatI64 m).toList = some m := by
    rw [toList_formatI64_natCast, parseDigits_toDigits]
  rw [parseI64_of_digits hdigits, if_pos h1]

/-- `to_string` of an `i64` loses nothing. -/
theorem formatI64_injective : Function.Injective formatI64 := by
  -- Only a negative integer starts with a sign.
  have hdigits : ∀ {m n : ℕ}, Nat.toDigits 10 m = Nat.toDigits 10 n → m = n := by
    intro m n h
    have hv : (some m : Option ℕ) = some n := by
      rw [← parseDigits_toDigits m, ← parseDigits_toDigits n, h]
    exact Option.some.inj hv
  have hsign : ∀ {m n : ℕ}, Nat.toDigits 10 m ≠ '-' :: Nat.toDigits 10 n := fun h =>
    (toDigits_ne_sign h).1 rfl
  intro a b h
  have hd := congrArg String.toList h
  cases a with
  | ofNat m =>
    cases b with
    | ofNat n =>
      rw [Int.ofNat_eq_natCast, Int.ofNat_eq_natCast, toList_formatI64_natCast,
        toList_formatI64_natCast] at hd
      rw [hdigits hd]
    | negSucc n =>
      rw [Int.ofNat_eq_natCast, toList_formatI64_natCast, toList_formatI64_negSucc] at hd
      exact absurd hd hsign
  | negSucc m =>
    cases b with
    | ofNat n =>
      rw [Int.ofNat_eq_natCast, toList_formatI64_natCast, toList_formatI64_negSucc] at hd
      exact absurd hd.symm hsign
    | negSucc n =>
      rw [toList_formatI64_negSucc, toList_formatI64_negSucc] at hd
      have hmn := hdigits (List.cons.inj hd).2
      rw [Nat.succ.inj hmn]

/-! ### Hexadecimal -/

/-- The two hexadecimal digits of a byte. -/
def hexByte (b : UInt8) : List Char := [Nat.digitChar (b.toNat / 16), Nat.digitChar (b.toNat % 16)]

/-- `hex::encode`: two digits for every byte. -/
def hexEncode (bytes : List UInt8) : String := String.ofList (bytes.flatMap hexByte)

theorem digitChar_injective : ∀ a < 16, ∀ b < 16, Nat.digitChar a = Nat.digitChar b → a = b := by
  decide

theorem hexByte_injective {a b : UInt8} (h : hexByte a = hexByte b) : a = b := by
  unfold hexByte at h
  have ha := a.toNat_lt
  have hb := b.toNat_lt
  simp only [List.cons.injEq, and_true] at h
  have h1 := digitChar_injective _ (by omega) _ (by omega) h.1
  have h2 := digitChar_injective _ (by omega) _ (by omega) h.2
  exact UInt8.toNat_inj.mp (by omega)

/-- Different byte strings have different hexadecimal texts. -/
theorem hexEncode_injective {x y : List UInt8} (h : hexEncode x = hexEncode y) : x = y := by
  have hl : x.flatMap hexByte = y.flatMap hexByte := String.ofList_injective h
  clear h
  induction x generalizing y with
  | nil =>
    cases y with
    | nil => rfl
    | cons b y => simp [hexByte] at hl
  | cons a x ih =>
    cases y with
    | nil => simp [hexByte] at hl
    | cons b y =>
      simp only [List.flatMap_cons] at hl
      -- Every byte takes two digits, so the encodings split at the same place.
      obtain ⟨hab, hxy⟩ := List.append_inj hl (by simp [hexByte])
      rw [hexByte_injective hab, ih hxy]

end LegalHold
