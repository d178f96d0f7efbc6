import Mathlib.Data.List.Sort
import LegalHold.Timeline.Cursor

/-!
# Reading a changing collection by keyset pages

A collection whose entries have distinct keys and come and go anywhere.  A
reader asks for the entries with a key above its cursor, in the order of their
keys and up to a limit, and goes on from the last one it got as long as there
were more than the limit.

## Main definitions

* `IsPage` — a page, and the cursor it leaves the reader with.
* `Traversal` — page after page, each of what the collection is by then.

## Main results

* `Traversal.increasing` — **the keys go up** over all pages.
* `Traversal.complete` — **what is there at every page is read**.
* `Traversal.length_eq` — the number of pages of a collection that stays as it
  is.
-/

namespace Timeline

variable {α κ : Type*} [LinearOrder κ] {key : α → κ} {start after : κ} {next : Option κ}
  {stored page : List α} {limit : ℕ}

/-- The entries above a cursor, in the order of their keys. -/
def above (key : α → κ) (stored : List α) (after : κ) : List α :=
  (stored.filter fun a => after < key a).insertionSort fun a b => key a ≤ key b

/-- A page of at most `limit` entries above `after`.  The cursor to go on with is the key of
the last of them, if there are more. -/
structure IsPage (key : α → κ) (stored : List α) (after : κ) (limit : ℕ) (page : List α)
    (next : Option κ) : Prop where
  page_eq : page = (above key stored after).take limit
  next_eq : next = if limit < (above key stored after).length then
    some (nextCursor key after page) else none

theorem mem_above {a : α} : a ∈ above key stored after ↔ a ∈ stored ∧ after < key a := by
  simp [above]

/-- What is above a cursor is a log that starts there. -/
theorem log_above (hkeys : (stored.map key).Nodup) : Log key after (above key stored after) := by
  constructor
  · have hsorted : (above key stored after).Pairwise fun a b => key a ≤ key b :=
      List.pairwise_insertionSort _ _
    have hperm : (above key stored after).Perm (stored.filter fun a => after < key a) :=
      List.perm_insertionSort _ _
    have hnodup : ((above key stored after).map key).Nodup :=
      (hperm.map key).nodup_iff.mpr (hkeys.sublist (List.filter_sublist.map key))
    have hdistinct : (above key stored after).Pairwise fun a b => key a ≠ key b :=
      List.pairwise_map.mp hnodup
    exact (hsorted.and hdistinct).imp fun hle => lt_of_le_of_ne hle.1 hle.2
  · intro a ha
    exact (mem_above.mp ha).2

/-- Entries with increasing keys are determined by what is among them. -/
theorem eq_of_increasing {l l' : List α} (h : l.Pairwise fun a b => key a < key b)
    (h' : l'.Pairwise fun a b => key a < key b) (hmem : ∀ a, a ∈ l ↔ a ∈ l') : l = l' := by
  have hirrefl : Std.Irrefl fun a b : α => key a < key b := ⟨fun a => lt_irrefl (key a)⟩
  have hantisymm : Std.Antisymm fun a b : α => key a < key b :=
    ⟨fun a b hab hba => absurd hba (lt_asymm hab)⟩
  exact h.eq_of_mem_iff h' hmem

/-- What is above a cursor does not depend on the order in which the entries are stored. -/
theorem above_congr {stored' : List α} (hkeys : (stored.map key).Nodup)
    (hkeys' : (stored'.map key).Nodup) (hmem : ∀ a, a ∈ stored' ↔ a ∈ stored) (after : κ) :
    above key stored' after = above key stored after := by
  refine eq_of_increasing (log_above hkeys').increasing (log_above hkeys).increasing fun a => ?_
  rw [mem_above, mem_above, hmem]

/-! ### One page -/

namespace IsPage

variable {rest : List α}

theorem mem (h : IsPage key stored after limit page next) {a : α} (ha : a ∈ page) :
    a ∈ stored ∧ after < key a := by
  rw [h.page_eq] at ha
  exact mem_above.mp (List.mem_of_mem_take ha)

/-- A page is the beginning of what is above its cursor. -/
theorem split (h : IsPage key stored after limit page next) :
    page ++ (above key stored after).drop limit = above key stored after := by
  rw [h.page_eq]
  exact List.take_append_drop limit _

theorem log (h : IsPage key stored after limit page next) (hkeys : (stored.map key).Nodup) :
    Log key after (page ++ (above key stored after).drop limit) := by
  rw [h.split]
  exact log_above hkeys

/-- The keys of a page go up. -/
theorem increasing (h : IsPage key stored after limit page next)
    (hkeys : (stored.map key).Nodup) : page.Pairwise fun a b => key a < key b :=
  (List.pairwise_append.mp (h.log hkeys).increasing).1

theorem eq_of_mem_next (h : IsPage key stored after limit page next) {b : κ} (hb : b ∈ next) :
    b = nextCursor key after page ∧ limit < (above key stored after).length := by
  have heq := h.next_eq
  split at heq
  · next hlt =>
    rw [heq] at hb
    exact ⟨(Option.some.inj hb).symm, hlt⟩
  · rw [heq] at hb
    cases hb

/-- **A page with a next cursor is full.** -/
theorem length_eq (h : IsPage key stored after limit page next) {b : κ} (hb : b ∈ next) :
    page.length = limit := by
  obtain ⟨-, hlt⟩ := h.eq_of_mem_next hb
  rw [h.page_eq, List.length_take]
  omega

/-- The next cursor is the key of an entry of the page. -/
theorem next_mem (h : IsPage key stored after limit page next) (hlimit : 0 < limit) {b : κ}
    (hb : b ∈ next) : ∃ a ∈ page, b = key a := by
  have hlength := h.length_eq hb
  obtain ⟨heq, -⟩ := h.eq_of_mem_next hb
  rcases List.eq_nil_or_concat page with rfl | ⟨before, last, rfl⟩
  · rw [List.length_nil] at hlength
    omega
  · refine ⟨last, by simp, ?_⟩
    rw [heq, List.concat_eq_append, nextCursor_snoc]

/-- The next cursor has gone up, to the last entry of the page. -/
theorem le_next (h : IsPage key stored after limit page next) (hkeys : (stored.map key).Nodup)
    {b : κ} (hb : b ∈ next) : ∀ a ∈ page, key a ≤ b := by
  obtain ⟨rfl, -⟩ := h.eq_of_mem_next hb
  exact (h.log hkeys).cursor_le.1

/-- **Nothing is skipped**: what is above the cursor and not above the next one is in the page. -/
theorem covers (h : IsPage key stored after limit page next) (hkeys : (stored.map key).Nodup)
    {a : α} (ha : a ∈ stored) (hafter : after < key a) (hnext : ∀ b ∈ next, key a ≤ b) :
    a ∈ page := by
  have hmem : a ∈ page ++ (above key stored after).drop limit := by
    rw [h.split]
    exact mem_above.mpr ⟨ha, hafter⟩
  rcases List.mem_append.mp hmem with hmem | hmem
  · exact hmem
  -- otherwise there were more than the page shows
  · have hlt : limit < (above key stored after).length := by
      by_contra hle
      rw [List.drop_eq_nil_of_le (by omega)] at hmem
      cases hmem
    have hsome := h.next_eq
    rw [if_pos hlt] at hsome
    have hle := hnext _ hsome
    have hgt := (h.log hkeys).cursor_le.2 a hmem
    exact absurd hle (not_le_of_gt hgt)

/-- **What is left** after a page with a next cursor: all but what is on the page. -/
theorem countP_next (h : IsPage key stored after limit page next) (hkeys : (stored.map key).Nodup)
    (hlimit : 0 < limit) {b : κ} (hb : b ∈ next) :
    stored.countP (fun a => b < key a) + limit = stored.countP (fun a => after < key a) ∧
      0 < stored.countP fun a => b < key a := by
  obtain ⟨a, ha, hba⟩ := h.next_mem hlimit hb
  have hafter : after < b := by
    rw [hba]
    exact (h.mem ha).2
  have hperm : (above key stored after).Perm (stored.filter fun a => after < key a) :=
    List.perm_insertionSort _ _
  -- Entries above the next cursor are above this one, and none of the page.
  have hcount : stored.countP (fun a => b < key a) =
      (above key stored after).countP fun a => b < key a := by
    rw [hperm.countP_eq, List.countP_filter]
    apply List.countP_congr
    intro x _
    simp only [decide_eq_true_eq, Bool.and_eq_true]
    exact ⟨fun hx => ⟨hx, hafter.trans hx⟩, fun hx => hx.1⟩
  have hpage : page.countP (fun a => b < key a) = 0 := by
    rw [List.countP_eq_zero]
    intro x hx
    simpa using h.le_next hkeys hb x hx
  have hrest : ((above key stored after).drop limit).countP (fun a => b < key a) =
      ((above key stored after).drop limit).length := by
    rw [List.countP_eq_length]
    intro x hx
    obtain ⟨rfl, -⟩ := h.eq_of_mem_next hb
    simpa using (h.log hkeys).cursor_le.2 x hx
  obtain ⟨-, hlt⟩ := h.eq_of_mem_next hb
  rw [hcount, ← h.split, List.countP_append, hpage, hrest, List.length_drop,
    List.countP_eq_length_filter, ← hperm.length_eq]
  omega

/-- The last page leaves nothing over: behind its cursor there was no more than the page has. -/
theorem countP_le (h : IsPage key stored after limit page next) (hnext : next = none) :
    stored.countP (fun a => after < key a) ≤ limit := by
  have hperm : (above key stored after).Perm (stored.filter fun a => after < key a) :=
    List.perm_insertionSort _ _
  rw [List.countP_eq_length_filter, ← hperm.length_eq]
  by_contra hlt
  have hsome := h.next_eq
  rw [if_pos (by omega), hnext] at hsome
  cases hsome

end IsPage

/-! ### Page after page -/

/-- A page that was read, with the collection it was read from and the limit that was asked
for. -/
structure Reading (α : Type*) where
  stored : List α
  limit : ℕ
  page : List α

/-- What has been read, page after page, from the cursor `start` on. -/
inductive Traversal (key : α → κ) (start : κ) : List (Reading α) → Option κ → Prop where
  | first {r : Reading α} {next : Option κ}
      (page : IsPage key r.stored start r.limit r.page next) : Traversal key start [r] next
  | page {rs : List (Reading α)} {r : Reading α} {after : κ} {next : Option κ}
      (before : Traversal key start rs (some after))
      (page : IsPage key r.stored after r.limit r.page next) :
      Traversal key start (rs ++ [r]) next

/-- The collections are such that the keys tell the entries apart, and something is asked for. -/
def Reading.Proper (key : α → κ) (r : Reading α) : Prop :=
  (r.stored.map key).Nodup ∧ 0 < r.limit

namespace Traversal

variable {rs : List (Reading α)}

/-- What has been read is not above the cursor. -/
theorem le_next (h : Traversal key start rs next) (hproper : ∀ r ∈ rs, r.Proper key) :
    (∀ b ∈ next, start < b) ∧ ∀ b ∈ next, ∀ a ∈ rs.flatMap (·.page), key a ≤ b := by
  induction h with
  | @first r next page =>
    obtain ⟨hkeys, hlimit⟩ := hproper r List.mem_cons_self
    constructor
    · intro b hb
      obtain ⟨a, ha, rfl⟩ := page.next_mem hlimit hb
      exact (page.mem ha).2
    · intro b hb a ha
      rw [List.flatMap_singleton] at ha
      exact page.le_next hkeys hb a ha
  -- The pages before end at their cursor, and this page begins behind it.
  | @page rs r after next before page ih =>
    obtain ⟨hkeys, hlimit⟩ := hproper r (by simp)
    obtain ⟨hstart, hread⟩ := ih fun r hr => hproper r (List.mem_append_left _ hr)
    have hup : ∀ b ∈ next, after < b := by
      intro b hb
      obtain ⟨a, ha, rfl⟩ := page.next_mem hlimit hb
      exact (page.mem ha).2
    constructor
    · intro b hb
      exact (hstart after rfl).trans (hup b hb)
    · intro b hb a ha
      rw [List.flatMap_append, List.flatMap_singleton] at ha
      rcases List.mem_append.mp ha with ha | ha
      · exact (hread after rfl a ha).trans (hup b hb).le
      · exact page.le_next hkeys hb a ha

/-- **The keys go up** over all pages of a traversal. -/
theorem increasing (h : Traversal key start rs next) (hproper : ∀ r ∈ rs, r.Proper key) :
    (rs.flatMap (·.page)).Pairwise fun a b => key a < key b := by
  induction h with
  | @first r next page =>
    rw [List.flatMap_singleton]
    exact page.increasing (hproper r List.mem_cons_self).1
  | @page rs r after next before page ih =>
    have hbefore : ∀ r ∈ rs, r.Proper key := fun r hr => hproper r (List.mem_append_left _ hr)
    rw [List.flatMap_append, List.flatMap_singleton]
    refine List.pairwise_append.mpr ⟨ih hbefore, page.increasing (hproper r (by simp)).1, ?_⟩
    -- the pages before end at the cursor, this one is above it
    intro a ha b hb
    exact lt_of_le_of_lt ((before.le_next hbefore).2 after rfl a ha) (page.mem hb).2

/-- **What is there at every page is read**, up to the cursor. -/
theorem complete (h : Traversal key start rs next) (hproper : ∀ r ∈ rs, r.Proper key) {a : α}
    (ha : ∀ r ∈ rs, a ∈ r.stored) (hstart : start < key a) (hnext : ∀ b ∈ next, key a ≤ b) :
    a ∈ rs.flatMap (·.page) := by
  induction h with
  | @first r next page =>
    rw [List.flatMap_singleton]
    exact page.covers (hproper r List.mem_cons_self).1 (ha r List.mem_cons_self) hstart hnext
  | @page rs r after next before page ih =>
    rw [List.flatMap_append, List.flatMap_singleton]
    -- it is in this page, or not above the cursor of the pages before
    rcases lt_or_ge after (key a) with hlt | hle
    · apply List.mem_append_right
      exact page.covers (hproper r (by simp)).1 (ha r (by simp)) hlt hnext
    · apply List.mem_append_left
      apply ih
      · exact fun r hr => hproper r (List.mem_append_left _ hr)
      · exact fun r hr => ha r (List.mem_append_left _ hr)
      · intro b hb
        cases hb
        exact hle

/-- A traversal of a collection that stays as it is. -/
def Still (stored : List α) (limit : ℕ) (rs : List (Reading α)) : Prop :=
  ∀ r ∈ rs, r.stored = stored ∧ r.limit = limit

/-- What is left behind the next cursor of a traversal of something that stays as it is: all its
pages were full. -/
theorem countP_next (h : Traversal key start rs next) (hproper : ∀ r ∈ rs, r.Proper key)
    (hstill : Still stored limit rs) {b : κ} (hb : b ∈ next) :
    stored.countP (fun a => b < key a) + rs.length * limit =
      stored.countP (fun a => start < key a) ∧ 0 < stored.countP fun a => b < key a := by
  induction h generalizing b with
  | @first r next page =>
    obtain ⟨hkeys, hlimit⟩ := hproper r List.mem_cons_self
    obtain ⟨rfl, rfl⟩ := hstill r List.mem_cons_self
    obtain ⟨hleft, hpos⟩ := page.countP_next hkeys hlimit hb
    refine ⟨?_, hpos⟩
    rw [← hleft, List.length_singleton, Nat.one_mul]
  | @page rs r after next before page ih =>
    obtain ⟨hkeys, hlimit⟩ := hproper r (by simp)
    obtain ⟨hleft, -⟩ := ih (fun r hr => hproper r (List.mem_append_left _ hr))
      (fun r hr => hstill r (List.mem_append_left _ hr)) rfl
    obtain ⟨rfl, rfl⟩ := hstill r (by simp)
    obtain ⟨hpage, hpos⟩ := page.countP_next hkeys hlimit hb
    refine ⟨?_, hpos⟩
    rw [← hleft, ← hpage, List.length_append, List.length_singleton, Nat.add_mul, Nat.one_mul]
    omega

/-- **The number of pages** of a collection that stays as it is. -/
theorem length_eq (h : Traversal key start rs none) (hproper : ∀ r ∈ rs, r.Proper key)
    (hstill : Still stored limit rs) :
    rs.length = max 1 ((stored.countP (fun a => start < key a) + limit - 1) / limit) := by
  cases h with
  | @first r _ page =>
    obtain ⟨-, hlimit⟩ := hproper r List.mem_cons_self
    obtain ⟨rfl, rfl⟩ := hstill r List.mem_cons_self
    have hle := page.countP_le rfl
    have hlt : (r.stored.countP (fun a => start < key a) + r.limit - 1) / r.limit < 2 :=
      Nat.div_lt_of_lt_mul (by omega)
    rw [List.length_singleton]
    omega
  | @page rs r after _ before page =>
    obtain ⟨-, hlimit⟩ := hproper r (by simp)
    obtain ⟨hleft, hpos⟩ := before.countP_next
      (fun r hr => hproper r (List.mem_append_left _ hr))
      (fun r hr => hstill r (List.mem_append_left _ hr)) rfl
    obtain ⟨rfl, rfl⟩ := hstill r (by simp)
    have hle := page.countP_le rfl
    -- all pages but the last are full, and the last has what is left
    have hceil : (r.stored.countP (fun a => start < key a) + r.limit - 1) / r.limit =
        rs.length + 1 := by
      apply Nat.div_eq_of_lt_le
      · rw [Nat.add_mul, Nat.one_mul]
        omega
      · rw [Nat.add_mul, Nat.add_mul, Nat.one_mul]
        omega
    rw [hceil, List.length_append, List.length_singleton]
    omega

end Traversal

end Timeline
