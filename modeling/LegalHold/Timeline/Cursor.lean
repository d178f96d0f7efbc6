import Mathlib.Order.Lattice

/-!
# Reading a growing log by a cursor

A log whose entries carry increasing keys and that only grows at its end.  A
reader asks for the entries with a key above its cursor and takes the key of the
last one it got as its next cursor.

## Main definitions

* `Log` — entries with increasing keys above a starting point.
* `Behind` — a cursor that stands behind the first entries.

## Main results

* `Behind.filter_eq` — what is above the cursor is what has not been read.
* `Behind.page` — a page leaves the cursor behind what has been read by then.
* `Behind.grow` — and it stays there while the log grows.
-/

namespace Timeline

variable {α κ : Type*} {key : α → κ} {start after : κ} {l l' read : List α} {k : ℕ}

/-! ### Cursors -/

/-- The cursor of a reader that has read `read` and had the cursor `after` before. -/
def nextCursor (key : α → κ) (after : κ) (read : List α) : κ :=
  (read.getLast?.map key).getD after

/-- The cursor `after` stands behind the first `k` entries. -/
structure Behind (key : α → κ) (start : κ) (l : List α) (k : ℕ) (after : κ) : Prop where
  le : k ≤ l.length
  cursor : after = nextCursor key start (l.take k)

@[simp] theorem nextCursor_nil : nextCursor key after [] = after := rfl

@[simp] theorem nextCursor_snoc (a : α) : nextCursor key after (read ++ [a]) = key a := by
  unfold nextCursor
  rw [List.getLast?_concat]
  rfl

/-- A cursor stays or is the key of an entry that has been read. -/
theorem nextCursor_mem (after : κ) (read : List α) :
    nextCursor key after read = after ∨ ∃ a ∈ read, nextCursor key after read = key a := by
  unfold nextCursor
  cases h : read.getLast? with
  | none => exact .inl rfl
  | some a => exact .inr ⟨a, List.mem_of_getLast? h, rfl⟩

/-- Reading on from a cursor leads where reading everything at once does. -/
theorem nextCursor_append (page : List α) :
    nextCursor key start (read ++ page) = nextCursor key (nextCursor key start read) page := by
  unfold nextCursor
  rw [List.getLast?_append]
  cases page.getLast? with
  | none => rfl
  | some a => rfl

namespace Behind

/-- **A page moves the cursor on** by as many entries as it has. -/
theorem page (h : Behind key start l k after) (n : ℕ) :
    Behind key start l (k + ((l.drop k).take n).length)
      (nextCursor key after ((l.drop k).take n)) ∧
    l.take k ++ (l.drop k).take n = l.take (k + ((l.drop k).take n).length) := by
  have hlen : ((l.drop k).take n).length = min n (l.length - k) := by
    rw [List.length_take, List.length_drop]
  have htake : l.take k ++ (l.drop k).take n = l.take (k + ((l.drop k).take n).length) := by
    rw [List.take_add, hlen]
    congr 1
    rw [List.take_eq_take_iff, List.length_drop]
    omega
  have hk := h.le
  refine ⟨⟨by omega, ?_⟩, htake⟩
  rw [← htake, nextCursor_append, ← h.cursor]

/-- **The cursor stays where it is while the log grows.** -/
theorem grow (h : Behind key start l k after) (hl : l <+: l') : Behind key start l' k after := by
  obtain ⟨more, rfl⟩ := hl
  have hk := h.le
  refine ⟨by rw [List.length_append]; omega, ?_⟩
  rw [List.take_append_of_le_length hk]
  exact h.cursor

end Behind

/-! ### Logs -/

variable [LinearOrder κ]

/-- A list of entries with increasing keys, all of which are above `start`. -/
structure Log (key : α → κ) (start : κ) (l : List α) : Prop where
  increasing : l.Pairwise fun a b => key a < key b
  above : ∀ a ∈ l, start < key a

/-- Nothing read is above the cursor, and what is appended to it is. -/
theorem Log.cursor_le (h : Log key start (read ++ l)) :
    (∀ a ∈ read, key a ≤ nextCursor key start read) ∧
      ∀ b ∈ l, nextCursor key start read < key b := by
  -- The cursor is the key of the last entry read, if there is one.
  rcases List.eq_nil_or_concat read with rfl | ⟨before, last, rfl⟩
  · exact ⟨fun a ha => absurd ha List.not_mem_nil, fun b hb => h.above b hb⟩
  · have hpair := List.pairwise_append.mp h.increasing
    rw [List.concat_eq_append, nextCursor_snoc]
    rw [List.concat_eq_append] at hpair
    refine ⟨fun a ha => ?_, fun b hb => hpair.2.2 last (by simp) b hb⟩
    rcases List.mem_append.mp ha with ha | ha
    · exact le_of_lt ((List.pairwise_append.mp hpair.1).2.2 a ha last (by simp))
    · rw [List.mem_singleton.mp ha]

namespace Behind

/-- **What is above the cursor is what has not been read.** -/
theorem filter_eq (h : Behind key start l k after) (hl : Log key start l) :
    l.filter (fun a => after < key a) = l.drop k := by
  have hsplit := List.take_append_drop k l
  have hl' : Log key start (l.take k ++ l.drop k) := by
    rw [hsplit]
    exact hl
  obtain ⟨hread, hrest⟩ := hl'.cursor_le
  rw [← h.cursor] at hread hrest
  have hnone : (l.take k).filter (fun a => after < key a) = [] := by
    rw [List.filter_eq_nil_iff]
    intro a ha
    simpa using hread a ha
  have hall : (l.drop k).filter (fun a => after < key a) = l.drop k := by
    rw [List.filter_eq_self]
    intro b hb
    simpa using hrest b hb
  calc l.filter (fun a => after < key a)
      = (l.take k ++ l.drop k).filter (fun a => after < key a) := by rw [hsplit]
    _ = l.drop k := by rw [List.filter_append, hnone, hall, List.nil_append]

/-- The cursor goes up when there is something to read. -/
theorem lt_next (h : Behind key start l k after) (hl : Log key start l) {n : ℕ}
    (hne : (l.drop k).take n ≠ []) : after < nextCursor key after ((l.drop k).take n) := by
  obtain ⟨before, last, hlast⟩ := (List.eq_nil_or_concat ((l.drop k).take n)).resolve_left hne
  rw [List.concat_eq_append] at hlast
  have hmem : last ∈ l.drop k := by
    refine List.mem_of_mem_take (i := n) ?_
    rw [hlast]
    simp
  rw [← h.filter_eq hl, List.mem_filter] at hmem
  rw [hlast, nextCursor_snoc]
  simpa using hmem.2

end Behind

end Timeline
