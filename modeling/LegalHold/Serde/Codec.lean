import LegalHold.Serde.Struct

/-!
# Derived serializers

What the serializer that is derived for a structure makes of it: an object with a member for
each field, in the order in which the fields are declared, but for those that are left out.
The deserializer reads it back, and just as well when its members stand in another order and
have others among them.

The library fixes neither the values nor what is written for a field.

## Main definitions

* `Codec` — a declared field, with what is written for it.
* `serialize` — the members that are written for a structure.
* `Valids` — what the fields of a structure can hold.

## Main results

* `visitMap_serialize` — **what has been written is read**, in any order and among others.
* `deserialize_valids` — what is read can be written.
-/

namespace Serde

open JsonSchema

/-- A declared field together with the value that is written for it, and what of it survives. -/
structure Codec (V : Type) extends Field V where
  /-- What it can hold. -/
  Valid : Content → Prop
  /-- The value that is written, unless the member is left out. -/
  write : Content → Option V
  read_write : ∀ {content v}, Valid content → write content = some v → read v = some content
  missing_write : ∀ {content}, Valid content → write content = none → missing = some content
  valid_read : ∀ {v content}, read v = some content → Valid content
  valid_missing : ∀ {content}, missing = some content → Valid content
  valid_omitted : ∀ {content}, omitted = some content → Valid content

variable {V : Type}

/-- The member that is written for a field. -/
def Codec.member (c : Codec V) (content : c.Content) : List (String × V) :=
  ((c.write content).map fun v => (c.name, v)).toList

/-- The members that are written for a structure. -/
def serialize : (cs : List (Codec V)) → Contents (cs.map Codec.toField) → List (String × V)
  | [], _ => []
  | c :: cs, (content, contents) => c.member content ++ serialize cs contents

/-- All fields hold what they can hold. -/
def Valids : (cs : List (Codec V)) → Contents (cs.map Codec.toField) → Prop
  | [], _ => True
  | c :: cs, (content, contents) => c.Valid content ∧ Valids cs contents

/-- The member of each field is in the object as it is written. -/
def Written (members : List (String × V)) :
    (cs : List (Codec V)) → Contents (cs.map Codec.toField) → Prop
  | [], _ => True
  | c :: cs, (content, contents) =>
    c.occurrences members = c.member content ∧ Written members cs contents

/-- The members of an object that the fields are named after. -/
def declared (cs : List (Codec V)) (members : List (String × V)) : List (String × V) :=
  members.filter fun m => m.1 ∈ cs.map fun c => c.name

/-! ### What has been written is read -/

namespace Codec

variable {c : Codec V} {content : c.Content}

theorem name_of_mem_member {m : String × V} (h : m ∈ c.member content) : m.1 = c.name := by
  unfold member at h
  obtain ⟨v, -, rfl⟩ := Option.map_eq_some_iff.mp (Option.mem_toList.mp h)
  rfl

/-- What is written for a field is read from it. -/
theorem visitMap_member {members : List (String × V)} (hvalid : c.Valid content)
    (h : c.occurrences members = c.member content) : c.visitMap members = some content := by
  unfold Field.visitMap
  rw [h, member]
  cases hwrite : c.write content with
  | none => exact c.missing_write hvalid hwrite
  | some v => exact c.read_write hvalid hwrite

/-- There is one member at most, so its place does not matter. -/
theorem eq_member_of_perm {members : List (String × V)} (h : members.Perm (c.member content)) :
    members = c.member content := by
  unfold member at h ⊢
  cases hwrite : c.write content with
  | none =>
    rw [hwrite] at h
    exact h.eq_nil
  | some v =>
    rw [hwrite] at h
    exact List.perm_singleton.mp h

theorem occurrences_member : c.occurrences (c.member content) = c.member content :=
  List.filter_eq_self.mpr fun _ hm => beq_iff_eq.mpr (name_of_mem_member hm)

end Codec

/-- Every member of a structure is written for one of its fields. -/
theorem mem_serialize {cs : List (Codec V)} {contents : Contents (cs.map Codec.toField)}
    {m : String × V} (h : m ∈ serialize cs contents) :
    ∃ c ∈ cs, ∃ content, c.write content = some m.2 ∧ m.1 = c.name := by
  induction cs with
  | nil => cases h
  | cons c cs ih =>
    obtain ⟨content, contents⟩ := contents
    rcases List.mem_append.mp h with h | h
    · refine ⟨c, List.mem_cons_self, content, ?_, Codec.name_of_mem_member h⟩
      obtain ⟨v, hwrite, rfl⟩ := Option.map_eq_some_iff.mp (Option.mem_toList.mp h)
      exact hwrite
    · obtain ⟨c', hc', hm⟩ := ih h
      exact ⟨c', List.mem_cons_of_mem c hc', hm⟩

/-- A field that is never left out has its member. -/
theorem exists_mem_serialize {cs : List (Codec V)} (contents : Contents (cs.map Codec.toField))
    {c : Codec V} (hc : c ∈ cs) (hwrite : ∀ content, ∃ v, c.write content = some v) :
    ∃ m ∈ serialize cs contents, m.1 = c.name := by
  induction cs with
  | nil => cases hc
  | cons c' cs ih =>
    obtain ⟨content, contents⟩ := contents
    rcases List.mem_cons.mp hc with rfl | hc
    · obtain ⟨v, hv⟩ := hwrite content
      refine ⟨(c.name, v), List.mem_append_left _ ?_, rfl⟩
      unfold Codec.member
      rw [hv]
      exact List.mem_singleton_self _
    · obtain ⟨m, hm, hname⟩ := ih contents hc
      exact ⟨m, List.mem_append_right _ hm, hname⟩

/-- The members that are written are named after the fields. -/
theorem name_of_mem_serialize {cs : List (Codec V)} {contents : Contents (cs.map Codec.toField)}
    {m : String × V} (h : m ∈ serialize cs contents) : m.1 ∈ cs.map fun c => c.name := by
  obtain ⟨c, hc, -, -, hname⟩ := mem_serialize h
  exact List.mem_map.mpr ⟨c, hc, hname.symm⟩

/-- A field of another name has no member among them. -/
theorem occurrences_serialize {cs : List (Codec V)} {contents : Contents (cs.map Codec.toField)}
    {f : Field V} (h : f.name ∉ cs.map fun c => c.name) :
    f.occurrences (serialize cs contents) = [] := by
  refine List.filter_eq_nil_iff.mpr fun m hm heq => h ?_
  rw [← beq_iff_eq.mp heq]
  exact name_of_mem_serialize hm

/-- **The members of a structure are in an object** in which they stand in any order and among
others. -/
theorem written_of_perm {cs : List (Codec V)} {contents : Contents (cs.map Codec.toField)}
    {members : List (String × V)} (hnodup : (cs.map fun c => c.name).Nodup)
    (h : (declared cs members).Perm (serialize cs contents)) : Written members cs contents := by
  induction cs with
  | nil => trivial
  | cons c cs ih =>
    obtain ⟨content, contents⟩ := contents
    obtain ⟨hname, hnodup⟩ := List.nodup_cons.mp hnodup
    replace hname : c.name ∉ cs.map fun c => c.name := hname
    constructor
    -- Only the first field has members of its name.
    · have hperm : (c.occurrences (declared (c :: cs) members)).Perm
          (c.occurrences (c.member content ++ serialize cs contents)) :=
        h.filter fun m : String × V => m.1 == c.name
      have hright : c.occurrences (c.member content ++ serialize cs contents) =
          c.member content := by
        refine (List.filter_append _ _).trans ?_
        have hrest : c.occurrences (serialize cs contents) = [] := occurrences_serialize hname
        exact (congrArg₂ (· ++ ·) Codec.occurrences_member hrest).trans (List.append_nil _)
      have hleft : c.occurrences (declared (c :: cs) members) = c.occurrences members := by
        refine (List.filter_filter ..).trans (List.filter_congr fun m _ => ?_)
        by_cases heq : m.1 = c.name
        · simp [heq]
        · simp [heq]
      rw [hleft, hright] at hperm
      exact Codec.eq_member_of_perm hperm
    -- The others have theirs among the rest.
    · refine ih hnodup ?_
      have hperm : (declared cs (declared (c :: cs) members)).Perm
          (declared cs (c.member content ++ serialize cs contents)) :=
        h.filter fun m : String × V => decide (m.1 ∈ cs.map fun c : Codec V => c.name)
      have hfirst : declared cs (c.member content) = [] := by
        refine List.filter_eq_nil_iff.mpr fun m hm heq => hname ?_
        rw [← Codec.name_of_mem_member hm]
        exact of_decide_eq_true heq
      have hrest : declared cs (serialize cs contents) = serialize cs contents :=
        List.filter_eq_self.mpr fun m hm => decide_eq_true (name_of_mem_serialize hm)
      have hright : declared cs (c.member content ++ serialize cs contents) =
          serialize cs contents :=
        (List.filter_append _ _).trans (congrArg₂ (· ++ ·) hfirst hrest)
      have hleft : declared cs (declared (c :: cs) members) = declared cs members := by
        refine (List.filter_filter ..).trans (List.filter_congr fun m _ => ?_)
        by_cases hmem : m.1 ∈ cs.map fun c => c.name
        · simp [hmem]
        · simp [hmem]
      rwa [hleft, hright] at hperm

theorem visitMap_written {cs : List (Codec V)} {contents : Contents (cs.map Codec.toField)}
    {members : List (String × V)} (hvalid : Valids cs contents) (h : Written members cs contents) :
    visitMap (cs.map Codec.toField) members = some contents := by
  induction cs with
  | nil => rfl
  | cons c cs ih =>
    obtain ⟨content, contents⟩ := contents
    have hfirst := Codec.visitMap_member hvalid.1 h.1
    have hrest := ih hvalid.2 h.2
    show Contents.cons (c.visitMap members) (visitMap (cs.map Codec.toField) members) = _
    rw [hfirst, hrest]
    rfl

/-- **What has been written is read**, in any order and among others. -/
theorem visitMap_serialize {cs : List (Codec V)} {contents : Contents (cs.map Codec.toField)}
    {members : List (String × V)} (hnodup : (cs.map fun c => c.name).Nodup)
    (hvalid : Valids cs contents) (h : (declared cs members).Perm (serialize cs contents)) :
    visitMap (cs.map Codec.toField) members = some contents :=
  visitMap_written hvalid (written_of_perm hnodup h)

/-! ### What is read can be written -/

theorem Contents.cons_eq_some {f : Field V} {fs : List (Field V)} {content : Option f.Content}
    {contents : Option (Contents fs)} {x : Contents (f :: fs)} :
    cons content contents = some x ↔ content = some x.1 ∧ contents = some x.2 := by
  obtain ⟨c, cs⟩ := x
  constructor
  · intro h
    obtain ⟨c', hc, h⟩ := Option.bind_eq_some_iff.mp h
    obtain ⟨cs', hcs, h⟩ := Option.map_eq_some_iff.mp h
    cases h
    exact ⟨hc, hcs⟩
  · rintro ⟨rfl, rfl⟩
    rfl

theorem Codec.valid_visitMap {c : Codec V} {content : c.Content} {members : List (String × V)}
    (h : c.visitMap members = some content) : c.Valid content := by
  unfold Field.visitMap at h
  split at h
  · exact c.valid_missing h
  · exact c.valid_read h
  · cases h

theorem visitMap_valids {cs : List (Codec V)} {contents : Contents (cs.map Codec.toField)}
    {members : List (String × V)}
    (h : visitMap (cs.map Codec.toField) members = some contents) : Valids cs contents := by
  induction cs with
  | nil => trivial
  | cons c cs ih =>
    obtain ⟨content, contents⟩ := contents
    obtain ⟨hfirst, hrest⟩ := Contents.cons_eq_some.mp h
    exact ⟨Codec.valid_visitMap hfirst, ih hrest⟩

theorem visitSeq_valids {cs : List (Codec V)} {contents : Contents (cs.map Codec.toField)}
    {items : List V}
    (h : visitSeq (cs.map Codec.toField) items = some contents) : Valids cs contents := by
  induction cs generalizing items with
  | nil => trivial
  | cons c cs ih =>
    obtain ⟨content, contents⟩ := contents
    cases items with
    | nil =>
      obtain ⟨hfirst, hrest⟩ := Contents.cons_eq_some.mp h
      exact ⟨c.valid_omitted hfirst, ih hrest⟩
    | cons v vs =>
      obtain ⟨hfirst, hrest⟩ := Contents.cons_eq_some.mp h
      exact ⟨c.valid_read hfirst, ih hrest⟩

/-- **What is read can be written**: the contents that come out of a value are valid, field by
field. -/
theorem deserialize_valids [Value V] {cs : List (Codec V)}
    {contents : Contents (cs.map Codec.toField)} {v : V}
    (h : deserialize (cs.map Codec.toField) v = some contents) : Valids cs contents := by
  unfold deserialize at h
  split at h
  · exact visitMap_valids h
  · exact visitSeq_valids h
  · cases h

end Serde
