import Mathlib.Data.List.Dedup
import Mathlib.Data.List.Sort
import Mathlib.Data.List.Perm.Basic

/-!
# Joins in the order of a key

A query that joins two tables gives one row for each pair that goes together, so a
row of the left table comes as often as it has partners.  The database puts the
rows in the order asked for; where that leaves a choice, it is the database's.

## Main definitions

* `join` — the rows of `SELECT out FROM left JOIN right ON on`, in some order.

## Main results

* `count_join` — a row comes once for each partner.
* `nodup_join_iff` — **no row comes twice when no partner is one of several**.
* `eq_of_perm_of_ties` — rows in the order of a key are determined when rows with the
  same key are.
-/

namespace Relational

variable {α β γ κ : Type}

/-- The pairs that go together, each given by what is selected of the left row. -/
def join (left : List α) (right : List β) (on : α → β → Bool) (out : α → γ) : List γ :=
  left.flatMap fun a => (right.filter (on a)).map fun _ => out a

section

variable {left left' : List α} {right right' : List β} {on : α → β → Bool} {out : α → γ}

theorem mem_join {c : γ} :
    c ∈ join left right on out ↔ ∃ a ∈ left, out a = c ∧ ∃ b ∈ right, on a b = true := by
  unfold join
  simp only [List.mem_flatMap, List.mem_map, List.mem_filter]
  constructor
  · rintro ⟨a, ha, b, ⟨hb, hon⟩, hout⟩
    exact ⟨a, ha, hout, b, hb, hon⟩
  · rintro ⟨a, ha, hout, b, hb, hon⟩
    exact ⟨a, ha, b, ⟨hb, hon⟩, hout⟩

/-- The physical order of the tables decides on nothing but the order of the rows. -/
theorem join_perm (hleft : left'.Perm left) (hright : right'.Perm right) :
    (join left' right' on out).Perm (join left right on out) := by
  refine (hleft.flatMap_right _).trans (List.Perm.flatMap_left _ fun a _ => ?_)
  exact (hright.filter _).map _

/-- **A row comes once for each partner**, rows being told apart by what is selected. -/
theorem count_join [BEq γ] [LawfulBEq γ] (hnodup : (left.map out).Nodup) {a : α} (ha : a ∈ left) :
    (join left right on out).count (out a) = (right.filter (on a)).length := by
  induction left with
  | nil => cases ha
  | cons first rest ih =>
    rw [List.map_cons, List.nodup_cons] at hnodup
    have hcons : join (first :: rest) right on out =
        (right.filter (on first)).map (fun _ => out first) ++ join rest right on out := rfl
    rw [hcons, List.count_append, List.map_const', List.count_replicate]
    rcases List.mem_cons.mp ha with rfl | hrest
    · -- The rest has other rows only.
      have hnone : (join rest right on out).count (out a) = 0 := by
        refine List.count_eq_zero.mpr fun hmem => ?_
        obtain ⟨a', ha', hout, -⟩ := mem_join.mp hmem
        exact hnodup.1 (hout ▸ List.mem_map_of_mem ha')
      rw [hnone]
      simp
    · have hne : out first ≠ out a := fun heq => hnodup.1 (heq ▸ List.mem_map_of_mem hrest)
      rw [ih hnodup.2 hrest]
      simp [hne]

/-- **No row comes twice when no row has two partners.** -/
theorem nodup_join_iff [BEq γ] [LawfulBEq γ] (hnodup : (left.map out).Nodup) :
    (join left right on out).Nodup ↔ ∀ a ∈ left, (right.filter (on a)).length ≤ 1 := by
  rw [List.nodup_iff_count_le_one]
  constructor
  · intro hle a ha
    rw [← count_join hnodup ha]
    exact hle (out a)
  · intro hle c
    by_cases hc : c ∈ join left right on out
    · obtain ⟨a, ha, rfl, -⟩ := mem_join.mp hc
      rw [count_join hnodup ha]
      exact hle a ha
    · rw [List.count_eq_zero.mpr hc]
      exact Nat.zero_le 1

end

/-- At most one of two values is there when not both are. -/
theorem length_filter_pair_le_one [DecidableEq α] {l : List α} (hnodup : l.Nodup) {a b : α}
    (hne : a ≠ b) : (l.filter fun x => x ∈ [a, b]).length ≤ 1 ↔ ¬ (a ∈ l ∧ b ∈ l) := by
  constructor
  · rintro hle ⟨ha, hb⟩
    have hsub : [a, b].Subperm (l.filter fun x => x ∈ [a, b]) := by
      refine List.subperm_of_subset (by simp [hne]) fun x hx => ?_
      refine List.mem_filter.mpr ⟨?_, by simpa using hx⟩
      rcases List.mem_pair.mp hx with rfl | rfl
      · exact ha
      · exact hb
    have hlen := hsub.length_le
    simp only [List.length_cons, List.length_nil] at hlen
    omega
  · intro hnot
    -- What is there is one of the two, and always the same one.
    obtain ⟨x, hx⟩ : ∃ x, ∀ y ∈ l.filter (fun x => x ∈ [a, b]), y ∈ [x] := by
      by_cases ha : a ∈ l
      · refine ⟨a, fun y hy => ?_⟩
        obtain ⟨hyl, hy⟩ := List.mem_filter.mp hy
        rcases List.mem_pair.mp (of_decide_eq_true hy) with rfl | rfl
        · exact List.mem_singleton_self _
        · exact absurd ⟨ha, hyl⟩ hnot
      · refine ⟨b, fun y hy => ?_⟩
        obtain ⟨hyl, hy⟩ := List.mem_filter.mp hy
        rcases List.mem_pair.mp (of_decide_eq_true hy) with rfl | rfl
        · exact absurd hyl ha
        · exact List.mem_singleton_self _
    exact (List.subperm_of_subset (hnodup.filter _) hx).length_le

/-! ### The order of a key -/

section

variable [LinearOrder κ] {key : γ → κ} {rows rows' : List γ}

/-- **Rows in the order of a key are determined** by how often each of them comes, when
rows with the same key are the same. -/
theorem eq_of_perm_of_ties (hperm : rows'.Perm rows)
    (hties : ∀ a ∈ rows, ∀ b ∈ rows, key a = key b → a = b)
    (hsorted : rows.Pairwise fun a b => key a ≤ key b)
    (hsorted' : rows'.Pairwise fun a b => key a ≤ key b) : rows' = rows := by
  refine List.Perm.eq_of_pairwise (fun a b ha hb hab hba => ?_) hsorted' hsorted hperm
  exact hties a (hperm.mem_iff.mp ha) b hb (le_antisymm hab hba)

/-- Rows in the order of a key, none of them twice, are in its strict order. -/
theorem pairwise_lt_iff (hties : ∀ a ∈ rows, ∀ b ∈ rows, key a = key b → a = b)
    (hsorted : rows.Pairwise fun a b => key a ≤ key b) :
    rows.Pairwise (fun a b => key a < key b) ↔ rows.Nodup := by
  constructor
  · intro hlt
    exact hlt.imp fun hab heq => absurd (heq ▸ hab) (lt_irrefl _)
  · intro hnodup
    refine List.Pairwise.imp_of_mem ?_ (hsorted.and hnodup)
    rintro a b ha hb ⟨hle, hne⟩
    exact lt_of_le_of_ne hle fun heq => hne (hties a ha b hb heq)

end

end Relational
