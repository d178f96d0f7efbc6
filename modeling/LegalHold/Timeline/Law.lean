import Mathlib.Data.List.Induction
import Mathlib.Data.Nat.Notation

/-!
# Histories with a law

A state that is nothing but the outcome of the events so far, and a law that
says which event may come next.  A history is lawful when every one of its
events was admitted by the state before it.

Separately, what it means that something once opened is still open: an opening
event with no closing event after it.

## Main definitions

* `Law`, `Law.replay`, `Law.Lawful` — events, their effect, and what is admitted.
* `Stands` — some opening event has not been closed since.

## Main results

* `Law.Lawful.induction` — induction along a lawful history.
* `stands_snoc` — how one more event changes what stands.
-/

namespace Timeline

/-- The law by which events of type `ε` act on a state of type `σ`, and which of them it
admits. -/
structure Law (σ ε : Type) where
  /-- Before the first event. -/
  start : σ
  /-- What an event does. -/
  apply : σ → ε → σ
  /-- Which events may come next. -/
  admits : σ → ε → Prop

namespace Law

variable {σ ε : Type} (L : Law σ ε)

/-- The state that a history of events leads to from the start. -/
def replay (es : List ε) : σ := es.foldl L.apply L.start

/-- Every event of the history was admitted when it came. -/
def Lawful (es : List ε) : Prop :=
  ∀ n e, es[n]? = some e → L.admits (L.replay (es.take n)) e

@[simp] theorem replay_nil : L.replay [] = L.start := rfl

@[simp] theorem replay_snoc (es : List ε) (e : ε) :
    L.replay (es ++ [e]) = L.apply (L.replay es) e := by
  unfold replay
  rw [List.foldl_append]
  rfl

variable {L}

theorem lawful_nil : L.Lawful [] := by
  intro n e h
  simp at h

theorem lawful_snoc {es : List ε} {e : ε} :
    L.Lawful (es ++ [e]) ↔ L.Lawful es ∧ L.admits (L.replay es) e := by
  constructor
  · intro h
    constructor
    · intro n a hn
      have hlt : n < es.length := (List.getElem?_eq_some_iff.mp hn).1
      have := h n a (by rw [List.getElem?_append_left hlt, hn])
      rwa [List.take_append_of_le_length (Nat.le_of_lt hlt)] at this
    · have := h es.length e (by simp)
      rwa [List.take_append_of_le_length (Nat.le_refl _), List.take_length] at this
  · rintro ⟨h, he⟩ n a hn
    rcases Nat.lt_or_ge n es.length with hlt | hge
    · rw [List.getElem?_append_left hlt] at hn
      rw [List.take_append_of_le_length (Nat.le_of_lt hlt)]
      exact h n a hn
    · rw [List.getElem?_append_right hge] at hn
      obtain ⟨h0, ha⟩ := List.getElem?_eq_some_iff.mp hn
      have hlen : n = es.length := by simp at h0; omega
      subst hlen
      rw [List.take_append_of_le_length (Nat.le_refl _), List.take_length]
      simp only [Nat.sub_self, List.getElem_cons_zero] at ha
      exact ha ▸ he

/-- **Induction along a lawful history**: what one admitted event keeps, every
lawful history has. -/
theorem Lawful.induction {P : List ε → Prop} {es : List ε} (h : L.Lawful es) (h0 : P [])
    (hs : ∀ es e, L.Lawful es → P es → L.admits (L.replay es) e → P (es ++ [e])) : P es := by
  -- Along the history from its beginning, so that each event comes last once.
  induction es using List.reverseRecOn with
  | nil => exact h0
  | append_singleton es e ih =>
    obtain ⟨hes, he⟩ := lawful_snoc.mp h
    exact hs es e hes (ih hes) he

/-- What is true before the first event and kept by admitted events is true
after every lawful history. -/
theorem Lawful.invariant {I : σ → Prop} {es : List ε} (h : L.Lawful es) (h0 : I L.start)
    (hs : ∀ s e, I s → L.admits s e → I (L.apply s e)) : I (L.replay es) := by
  refine h.induction (P := fun es => I (L.replay es)) h0 ?_
  intro es e _ hI he
  rw [replay_snoc]
  exact hs _ e hI he

/-- The beginning of a lawful history is lawful. -/
theorem Lawful.take {es : List ε} (h : L.Lawful es) (n : ℕ) : L.Lawful (es.take n) := by
  intro m e hm
  have hlt : m < n := by
    have := (List.getElem?_eq_some_iff.mp hm).1
    rw [List.length_take] at this
    omega
  rw [List.getElem?_take_of_lt hlt] at hm
  rw [List.take_take, Nat.min_eq_left (Nat.le_of_lt hlt)]
  exact h m e hm

end Law

/-! ### What stands -/

section Stands

variable {ε : Type} {opens closes : ε → Prop}

/-- Some opening event has no closing event after it. -/
def Stands (opens closes : ε → Prop) (es : List ε) : Prop :=
  ∃ (n : ℕ) (a : ε), es[n]? = some a ∧ opens a ∧
    ∀ (m : ℕ) (b : ε), n < m → es[m]? = some b → ¬ closes b

theorem not_stands_nil : ¬ Stands opens closes [] := by
  rintro ⟨n, a, h, -⟩
  simp at h

/-- **One more event** opens, or leaves open what it does not close. -/
theorem stands_snoc {es : List ε} {e : ε} :
    Stands opens closes (es ++ [e]) ↔ opens e ∨ Stands opens closes es ∧ ¬ closes e := by
  constructor
  · rintro ⟨n, a, hn, ha, hafter⟩
    -- The event that opens is one of those before, or it is the last one.
    rcases Nat.lt_or_ge n es.length with hlt | hge
    · rw [List.getElem?_append_left hlt] at hn
      refine .inr ⟨⟨n, a, hn, ha, fun m b hm hb => hafter m b hm ?_⟩, ?_⟩
      · rw [List.getElem?_append_left (List.getElem?_eq_some_iff.mp hb).1, hb]
      · exact hafter es.length e hlt (by simp)
    · rw [List.getElem?_append_right hge] at hn
      obtain ⟨h0, he⟩ := List.getElem?_eq_some_iff.mp hn
      have hlen : n - es.length = 0 := by simpa using h0
      simp only [hlen, List.getElem_cons_zero] at he
      exact .inl (he ▸ ha)
  · rintro (he | ⟨⟨n, a, hn, ha, hafter⟩, he⟩)
    · refine ⟨es.length, e, by simp, he, fun m b hm hb => ?_⟩
      have := (List.getElem?_eq_some_iff.mp hb).1
      simp at this
      omega
    · refine ⟨n, a, ?_, ha, fun m b hm hb => ?_⟩
      · rw [List.getElem?_append_left (List.getElem?_eq_some_iff.mp hn).1, hn]
      · rcases Nat.lt_or_ge m es.length with hlt | hge
        · rw [List.getElem?_append_left hlt] at hb
          exact hafter m b hm hb
        · rw [List.getElem?_append_right hge] at hb
          obtain ⟨h0, hbe⟩ := List.getElem?_eq_some_iff.mp hb
          have hlen : m - es.length = 0 := by simpa using h0
          simp only [hlen, List.getElem_cons_zero] at hbe
          exact hbe ▸ he

end Stands

end Timeline
