import LegalHold.Interleave.System
import Mathlib.Data.Prod.Lex

/-!
# Bringing sessions to their end

From a configuration the system can be left to itself: no new session starts, statements
turn out in one given way, and a session that has nothing to do any more lets go of the
server.  Where somebody can always go on and something goes down as they do, everybody gets
to the end.

## Main definitions

* `Running` — a session is in the middle of its program.
* `Settles` — one configuration comes from another when the system is left to itself.
* `Finishes` — the sessions of a set can be brought to their end, by moves of theirs.

## Main results

* `Settles.kept` — nobody is cut off on the way.
* `finishes_of_measure` — **sessions can be brought to their end** where something goes down.
-/

namespace Interleave

open Machine

variable {M : Machine} {f : M.Fate} {c c' d : M.Config} {i : ℕ}

/-- The session has a statement to issue, and has not been dropped. -/
def Running (c : M.Config) (i : ℕ) : Prop := ∃ op s k, c.procs[i]? = some ⟨op, some (.ask s k)⟩

/-- The system has been left to itself from `c` to `d`. -/
inductive Settles (f : M.Fate) : M.Config → M.Config → Prop where
  | refl (c : M.Config) : Settles f c c
  /-- A session goes on. -/
  | step {c c' d : M.Config} {i : ℕ} (h : Machine.step c (.step i f) = some c')
      (rest : Settles f c' d) : Settles f c d
  /-- A session that has nothing to do lets go. -/
  | drop {c c' d : M.Config} {i : ℕ} (ended : ¬ Running c i)
      (h : Machine.step c (.drop i) = some c') (rest : Settles f c' d) : Settles f c d

/-- A session that has nothing to do lets go of the server, and that is all. -/
theorem step_drop_ended {p : M.Proc} (hi : c.procs[i]? = some p) (h : ¬ Running c i) :
    Machine.step c (.drop i) = some ⟨M.release ⟨i, p.op⟩ c.shared, c.procs⟩ := by
  obtain ⟨op, q⟩ := p
  cases q with
  | none => simp only [Machine.step, hi]
  | some q =>
    cases q with
    | ret a => simp only [Machine.step, hi]
    | ask s k => exact absurd ⟨op, s, k, hi⟩ h

namespace Settles

theorem reaches (h : Settles f c d) : Reaches c d := by
  induction h with
  | refl c => exact Reaches.refl c
  | step hstep _ ih => exact (Reaches.of_step hstep).trans ih
  | drop _ hdrop _ ih => exact (Reaches.of_step hdrop).trans ih

/-- **Nobody is cut off**: a session keeps its place, its operation and what is left of its
program. -/
theorem kept (h : Settles f c d) {op : M.Op} {p : Prog M.Stmt M.Reply M.Result}
    (hi : c.procs[i]? = some ⟨op, some p⟩) : ∃ p', d.procs[i]? = some ⟨op, some p'⟩ := by
  induction h generalizing p with
  | refl c => exact ⟨p, hi⟩
  | @step c c' d j hstep _ ih =>
    simp only [Machine.step] at hstep
    split at hstep
    · next op' s k hj =>
      obtain ⟨⟨st, r⟩, -, rfl⟩ := Option.map_eq_some_iff.mp hstep
      by_cases hij : j = i
      · subst hij
        cases hj.symm.trans hi
        exact ih (List.getElem?_set_self (List.getElem?_eq_some_iff.mp hi).1)
      · exact ih ((List.getElem?_set_ne hij).trans hi)
    · cases hstep
  | @drop c c' d j hended hdrop _ ih =>
    cases hj : c.procs[j]? with
    | none =>
      simp only [Machine.step, hj] at hdrop
      cases hdrop
    | some q =>
      rw [step_drop_ended hj hended] at hdrop
      cases hdrop
      exact ih hi

end Settles

/-- From `c` the sessions in `A` can be brought to their end, without a move of any other, and
the server to where `E` holds. -/
inductive Finishes (f : M.Fate) (E : M.Shared → Prop) (A : ℕ → Prop) : M.Config → Prop where
  | ended {c : M.Config} (h : ∀ i, A i → ¬ Running c i) (hE : E c.shared) : Finishes f E A c
  | step {c d : M.Config} {i : ℕ} (hi : A i) (h : Machine.step c (.step i f) = some d)
      (rest : Finishes f E A d) : Finishes f E A c
  | drop {c d : M.Config} {i : ℕ} (hi : A i) (ended : ¬ Running c i)
      (h : Machine.step c (.drop i) = some d) (rest : Finishes f E A d) : Finishes f E A c

variable {E : M.Shared → Prop} {A : ℕ → Prop}

/-- A system in which every configuration on the way can go on is brought to its end by being left
to itself. -/
theorem Finishes.settles (h : Finishes f E A c) :
    ∃ d, Settles f c d ∧ E d.shared ∧ ∀ i, A i → ¬ Running d i := by
  induction h with
  | ended h hE => exact ⟨_, .refl _, hE, h⟩
  | step _ hstep _ ih =>
    obtain ⟨d, hsettles, hd⟩ := ih
    exact ⟨d, .step hstep hsettles, hd⟩
  | drop _ hended hdrop _ ih =>
    obtain ⟨d, hsettles, hd⟩ := ih
    exact ⟨d, .drop hended hdrop hsettles, hd⟩

/-- **Sessions can be brought to their end**, where as long as they are not there one of them can
make a move that makes a measure go down. -/
theorem finishes_of_measure {I : M.Config → Prop} {α : Type} [LT α] [WellFoundedLT α]
    (measure : M.Config → α)
    (hgo : ∀ c, I c → ((∀ i, A i → ¬ Running c i) ∧ E c.shared) ∨ ∃ i d, A i ∧
      (step c (.step i f) = some d ∨ ¬ Running c i ∧ step c (.drop i) = some d) ∧ I d ∧
        measure d < measure c) (hc : I c) : Finishes f E A c := by
  induction hn : measure c using WellFoundedLT.induction generalizing c with
  | ind n ih =>
    subst hn
    rcases hgo c hc with ⟨hended, hE⟩ | ⟨i, d, hi, hstep | ⟨hended, hdrop⟩, hd, hlt⟩
    · exact .ended hended hE
    · exact .step hi hstep (ih _ hlt hd rfl)
    · exact .drop hi hended hdrop (ih _ hlt hd rfl)

/-- A session that is not running and has not been dropped has returned. -/
theorem returned_of_ended {op : M.Op} {p : Prog M.Stmt M.Reply M.Result}
    (hi : c.procs[i]? = some ⟨op, some p⟩) (h : ¬ Running c i) : ∃ r, Returned c i op r := by
  cases p with
  | ret r => exact ⟨r, hi⟩
  | ask s k => exact absurd ⟨op, s, k, hi⟩ h

end Interleave
