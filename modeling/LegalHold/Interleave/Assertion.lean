import LegalHold.Interleave.System

/-!
# Assertions about sessions

An assertion says something of the server, of each session by what is left of its
program, and of each session that has not started.  That it holds along every run is
a matter of one step at a time, and of a step for the session that makes it and for
all others; the table of sessions is dealt with here.

## Main definitions

* `Assertion`, `Assertion.Holds` — an assertion, and a configuration it holds of.
* `Assertion.Stable` — what each kind of step has to keep.

## Main results

* `Assertion.Stable.reaches` — **a stable assertion holds along every run**.
-/

namespace Interleave

open Machine

/-- What is asserted of a machine and its sessions: an invariant of the server, and a fact about
each session. -/
structure Assertion (M : Machine) where
  /-- What holds of the server between any two statements. -/
  inv : M.Shared → Prop
  /-- What holds for a session with this much of its program left, `none` after it was
  dropped. -/
  proc : Session M.Op → Option (Prog M.Stmt M.Reply M.Result) → M.Shared → Prop
  /-- What holds for a session that has not started. -/
  fresh : Session M.Op → M.Shared → Prop

namespace Assertion

variable {M : Machine} {A : Assertion M}

/-- What is asserted for the session survives, whether it has started or not. -/
structure Survives (A : Assertion M) (j : Session M.Op) (st st' : M.Shared) : Prop where
  proc : ∀ p, A.proc j p st → A.proc j p st'
  fresh : A.fresh j st → A.fresh j st'

/-- Every kind of step that a machine can take keeps the assertion, whoever takes it. -/
structure Stable (A : Assertion M) : Prop where
  start : ∀ {i st}, A.inv st → A.fresh i st → A.proc i (some (M.prog i.op)) st
  exec : ∀ {i s k f st st' r}, A.inv st → A.proc i (some (.ask s k)) st →
    M.exec i s f st = some (st', r) → A.inv st' ∧ A.proc i (some (k r)) st' ∧
      ∀ j : Session M.Op, j.id ≠ i.id → A.Survives j st st'
  release : ∀ {i st}, A.inv st → A.inv (M.release i st) ∧
    ∀ j : Session M.Op, j.id ≠ i.id → A.Survives j st (M.release i st)
  /-- A session that has nothing to do any more lets go. -/
  released : ∀ {i p st}, A.inv st → A.proc i p st → (∀ s k, p ≠ some (.ask s k)) →
    A.proc i p (M.release i st)
  dropped : ∀ {i s k st}, A.inv st → A.proc i (some (.ask s k)) st →
    A.proc i none (M.release i st)
  move : ∀ {m st}, A.inv st → A.inv (M.move m st) ∧ ∀ j, A.Survives j st (M.move m st)

/-- The assertion holds of the configuration: of its server, and of every one of its sessions. -/
structure Holds (A : Assertion M) (c : M.Config) : Prop where
  inv : A.inv c.shared
  procs : ∀ i op p, c.procs[i]? = some ⟨op, p⟩ → A.proc ⟨i, op⟩ p c.shared
  fresh : ∀ i : Session M.Op, c.procs.length ≤ i.id → A.fresh i c.shared

namespace Holds

variable {c : M.Config}

theorem start (hA : A.Stable) (hc : A.Holds c) (op : M.Op) :
    A.Holds ⟨c.shared, c.procs ++ [⟨op, some (M.prog op)⟩]⟩ where
  inv := hc.inv
  procs j op' p hj := by
    rcases procs_started hj with hj | ⟨rfl, heq⟩
    · exact hc.procs j op' p hj
    -- The new session takes the next number, which is still fresh.
    · cases heq
      exact hA.start hc.inv (hc.fresh _ (Nat.le_refl _))
  fresh j hj := by
    rw [List.length_append] at hj
    exact hc.fresh j (Nat.le_trans (Nat.le_add_right _ _) hj)

/-- Session `i` has gone on to `p`, and everything asserted for the others has survived. -/
theorem set (hc : A.Holds c) {i : ℕ} {q : M.Proc} (hi : c.procs[i]? = some q) {st : M.Shared}
    (hinv : A.inv st) {op : M.Op} {p : Option (Prog M.Stmt M.Reply M.Result)}
    (hself : A.proc ⟨i, op⟩ p st)
    (hothers : ∀ j : Session M.Op, j.id ≠ i → A.Survives j c.shared st) :
    A.Holds ⟨st, c.procs.set i ⟨op, p⟩⟩ where
  inv := hinv
  procs j op' p' hj := by
    rcases procs_set hj with ⟨rfl, heq⟩ | ⟨hne, hj⟩
    · cases heq
      exact hself
    · exact (hothers ⟨j, op'⟩ (Ne.symm hne)).proc p' (hc.procs j op' p' hj)
  fresh j hj := by
    have hlt := (List.getElem?_eq_some_iff.mp hi).1
    rw [List.length_set] at hj
    exact (hothers j (by omega)).fresh (hc.fresh j hj)

/-- One step of the system keeps the assertion. -/
theorem step (hA : A.Stable) {c' : M.Config} {l : M.Label} (hc : A.Holds c)
    (h : Machine.step c l = some c') : A.Holds c' := by
  obtain ⟨op, rfl⟩ | ⟨i, f, op, s, k, st, r, hi, he, rfl⟩ |
    ⟨i, p, hi, ⟨hover, rfl⟩ | ⟨⟨s, k, hask⟩, rfl⟩⟩ | ⟨m, rfl⟩ := step_cases h
  · exact hc.start hA op
  · obtain ⟨hinv, hself, hothers⟩ := hA.exec hc.inv (hc.procs i op _ hi) he
    exact hc.set hi hinv hself hothers
  · obtain ⟨op, p⟩ := p
    obtain ⟨hinv, hothers⟩ := hA.release (i := ⟨i, op⟩) hc.inv
    have hself := hA.released hc.inv (hc.procs i op p hi) hover
    -- The table is as before, which is also what it is with `p` put in its place.
    have hset := hc.set hi hinv hself hothers
    obtain ⟨hlt, heq⟩ := List.getElem?_eq_some_iff.mp hi
    rw [← heq, List.set_getElem_self hlt] at hset
    exact hset
  · obtain ⟨op, p⟩ := p
    obtain rfl : p = _ := hask
    obtain ⟨hinv, hothers⟩ := hA.release (i := ⟨i, op⟩) hc.inv
    exact hc.set hi hinv (hA.dropped hc.inv (hc.procs i op _ hi)) hothers
  · obtain ⟨hinv, hall⟩ := hA.move (m := m) hc.inv
    exact ⟨hinv, fun j op p hj => (hall _).proc p (hc.procs j op p hj),
      fun j hj => (hall j).fresh (hc.fresh j hj)⟩

end Holds

/-- **A stable assertion holds along every run** that starts where it holds. -/
theorem Stable.reaches (hA : A.Stable) {c c' : M.Config} (hc : A.Holds c) (h : Reaches c c') :
    A.Holds c' :=
  h.induction hc fun _ _ _ _ hk hs => hk.step hA hs

/-- Before the first session starts there is nothing to assert of one. -/
theorem Holds.init {st : M.Shared} (hinv : A.inv st) (hfresh : ∀ i, A.fresh i st) :
    A.Holds ⟨st, []⟩ :=
  ⟨hinv, fun _ _ _ hi => absurd hi (by simp), fun i _ => hfresh i⟩

end Assertion

end Interleave
