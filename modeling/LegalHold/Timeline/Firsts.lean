import Mathlib.Data.List.Basic
import Mathlib.Data.List.Induction
import Mathlib.Order.Defs.PartialOrder

/-!
# Values that are recorded once

A stream of values, and a table that gets an entry for a value when it comes for
the first time and none when it comes again.  The newest entry of such a table is
not that of the last value of the stream: it is that of the last one that was new.

## Main definitions

* `LastNew` — the last value of a stream that was new when it came.
* `Once` — a table that records each value once.

## Main results

* `lastNew_snoc_of_mem`, `lastNew_snoc_of_not_mem` — one more value.
* `Once.again`, `Once.add` — the table after one more value.
* `Once.newest_entry` — **the newest entry is that of the last new value**.
-/

namespace Timeline

variable {α β ρ τ : Type*}

/-! ### New values -/

/-- `x` was new when it came, and all values since then have come before. -/
def LastNew (xs : List α) (x : α) : Prop :=
  ∃ before after, xs = before ++ x :: after ∧ x ∉ before ∧ ∀ y ∈ after, y ∈ x :: before

variable {xs : List α} {x y : α}

theorem not_lastNew_nil : ¬ LastNew [] x := by
  rintro ⟨before, after, h, -⟩
  simp at h

/-- A value that comes again does not change which value was the last to be new. -/
theorem lastNew_snoc_of_mem (hx : x ∈ xs) : LastNew (xs ++ [x]) y ↔ LastNew xs y := by
  constructor
  · rintro ⟨before, after, heq, hnew, hold⟩
    rcases List.eq_nil_or_concat after with rfl | ⟨after, z, rfl⟩
    · obtain ⟨rfl, hxy⟩ := List.append_inj' heq rfl
      obtain rfl := List.singleton_inj.mp hxy
      exact absurd hx hnew
    · have hsplit : xs ++ [x] = (before ++ y :: after) ++ [z] := by simpa using heq
      obtain ⟨hxs, -⟩ := List.append_inj' hsplit rfl
      exact ⟨before, after, hxs, hnew, fun w hw => hold w (by simp [hw])⟩
  · rintro ⟨before, after, rfl, hnew, hold⟩
    refine ⟨before, after ++ [x], by simp, hnew, ?_⟩
    intro w hw
    rcases List.mem_append.mp hw with hw | hw
    · exact hold w hw
    · rw [List.mem_singleton.mp hw]
      -- `x` has come before `y`, as `y`, or after it, when it was not new either.
      rcases List.mem_append.mp hx with hx | hx
      · exact List.mem_cons_of_mem _ hx
      · rcases List.mem_cons.mp hx with rfl | hx
        · exact List.mem_cons_self
        · exact hold x hx

/-- A new value is the last new one. -/
theorem lastNew_snoc_of_not_mem (hx : x ∉ xs) : LastNew (xs ++ [x]) y ↔ x = y := by
  constructor
  · rintro ⟨before, after, heq, hnew, hold⟩
    rcases List.eq_nil_or_concat after with rfl | ⟨after, z, rfl⟩
    · obtain ⟨-, hxy⟩ := List.append_inj' heq rfl
      exact List.singleton_inj.mp hxy
    · have hsplit : xs ++ [x] = (before ++ y :: after) ++ [z] := by simpa using heq
      obtain ⟨rfl, hxz⟩ := List.append_inj' hsplit rfl
      obtain rfl := List.singleton_inj.mp hxz
      refine absurd ?_ hx
      rcases List.mem_cons.mp (hold x (by simp)) with rfl | hmem
      · simp
      · exact List.mem_append_left _ hmem
  · rintro rfl
    exact ⟨xs, [], rfl, hx, fun w hw => absurd hw List.not_mem_nil⟩

/-- A stream with a value has exactly one last new value. -/
theorem exists_lastNew (h : xs ≠ []) : ∃ x, ∀ y, x = y ↔ LastNew xs y := by
  induction xs using List.reverseRecOn with
  | nil => exact absurd rfl h
  | append_singleton xs x ih =>
    by_cases hx : x ∈ xs
    · obtain ⟨z, hz⟩ := ih (List.ne_nil_of_mem hx)
      exact ⟨z, fun y => (hz y).trans (lastNew_snoc_of_mem hx).symm⟩
    · exact ⟨x, fun y => (lastNew_snoc_of_not_mem hx).symm⟩

/-- Which value was the last to be new does not depend on how the values are written down. -/
theorem lastNew_map_iff {f : α → β} (hf : Function.Injective f) :
    LastNew (xs.map f) (f y) ↔ LastNew xs y := by
  induction xs using List.reverseRecOn with
  | nil => exact iff_of_false not_lastNew_nil not_lastNew_nil
  | append_singleton xs x ih =>
    rw [List.map_append, List.map_singleton]
    by_cases hx : x ∈ xs
    · rw [lastNew_snoc_of_mem (List.mem_map_of_mem hx), lastNew_snoc_of_mem hx, ih]
    · have hfx : f x ∉ xs.map f := fun hmem => hx ((List.mem_map_of_injective hf).mp hmem)
      rw [lastNew_snoc_of_not_mem hfx, lastNew_snoc_of_not_mem hx, hf.eq_iff]

/-! ### Tables -/

/-- The table has one entry for each value of the stream, from when the value was new. -/
structure Once [LT τ] (key : ρ → α) (time : ρ → τ) (xs : List α) (rows : List ρ) : Prop where
  keys : ∀ x, (∃ r ∈ rows, key r = x) ↔ x ∈ xs
  newest : ∀ x, LastNew xs x → ∃ r ∈ rows, key r = x ∧ ∀ r' ∈ rows, r' = r ∨ time r' < time r

namespace Once

variable [LT τ] {key : ρ → α} {time : ρ → τ} {rows : List ρ}

theorem nil : Once key time [] [] := by
  refine ⟨fun x => ?_, fun x hx => absurd hx not_lastNew_nil⟩
  simp

/-- When a value comes again, there is still one row for each value. -/
theorem again (h : Once key time xs rows) (hx : x ∈ xs) : Once key time (xs ++ [x]) rows := by
  refine ⟨fun y => ?_, fun y hy => h.newest y ((lastNew_snoc_of_mem hx).mp hy)⟩
  rw [h.keys y, List.mem_append, List.mem_singleton]
  constructor
  · exact Or.inl
  · rintro (hy | rfl)
    · exact hy
    · exact hx

/-- A new value gets an entry, at a later time than all others. -/
theorem add (h : Once key time xs rows) {r : ρ} (hr : key r ∉ xs)
    (htime : ∀ r' ∈ rows, time r' < time r) : Once key time (xs ++ [key r]) (rows ++ [r]) := by
  refine ⟨fun y => ?_, fun y hy => ?_⟩
  · rw [List.mem_append, List.mem_singleton, ← h.keys y]
    constructor
    · rintro ⟨r', hr', rfl⟩
      rcases List.mem_append.mp hr' with hr' | hr'
      · exact .inl ⟨r', hr', rfl⟩
      · rw [List.mem_singleton.mp hr']
        exact .inr rfl
    · rintro (⟨r', hr', rfl⟩ | rfl)
      · exact ⟨r', List.mem_append_left _ hr', rfl⟩
      · exact ⟨r, List.mem_append_right _ List.mem_cons_self, rfl⟩
  · obtain rfl := (lastNew_snoc_of_not_mem hr).mp hy
    refine ⟨r, List.mem_append_right _ List.mem_cons_self, rfl, ?_⟩
    intro r' hr'
    rcases List.mem_append.mp hr' with hr' | hr'
    · exact .inr (htime r' hr')
    · exact .inl (List.mem_singleton.mp hr')

/-- **The newest entry is that of the last new value.** -/
theorem newest_entry (h : Once key time xs rows) (hne : xs ≠ []) :
    ∃ r ∈ rows, (∀ r' ∈ rows, r' = r ∨ time r' < time r) ∧ ∀ x, key r = x ↔ LastNew xs x := by
  obtain ⟨x, hx⟩ := exists_lastNew hne
  obtain ⟨r, hr, rfl, hlast⟩ := h.newest x ((hx x).mp rfl)
  exact ⟨r, hr, hlast, hx⟩

end Once

end Timeline
