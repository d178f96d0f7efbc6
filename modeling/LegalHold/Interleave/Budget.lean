import LegalHold.Interleave.Assertion
import Mathlib.Algebra.BigOperators.Group.Finset.Piecewise
import Mathlib.Algebra.Order.BigOperators.Group.Finset

/-!
# Statements run out

How many statements a program issues at most, whatever the replies.  What a session has left
of its budget goes down with each of its statements, so that in every run the statements run
out unless new sessions start.

## Main definitions

* `Prog.Takes` — a program issues at most so many statements.
* `Budget` — a number of statements for each operation.
* `Budget.left` — what the sessions of a configuration have left, all together.

## Main results

* `Prog.Takes.bind` and its like — budgets are added up.
* `Budget.reaches` — **nobody issues more than that**, in any run.
* `Budget.left_step` — a statement takes one from what is left.
-/

namespace Interleave

open Machine

section

variable {σ : Type} {ρ : σ → Type} {α β ε : Type} {n m : ℕ}

/-- The program issues at most `n` statements and returns what `Q` holds of. -/
def Prog.Takes (Q : α → Prop) : Prog σ ρ α → ℕ → Prop
  | .ret a, _ => Q a
  | .ask _ _, 0 => False
  | .ask _ k, n + 1 => ∀ r, (k r).Takes Q n
termination_by structural p => p

namespace Prog.Takes

variable {Q Q' : α → Prop} {p : Prog σ ρ α}

theorem mono (h : p.Takes Q n) (hn : n ≤ m) (hQ : ∀ a, Q a → Q' a) : p.Takes Q' m := by
  induction p generalizing n m with
  | ret a => exact hQ a h
  | ask s k ih =>
    obtain _ | n := n
    · exact h.elim
    · obtain ⟨m, rfl⟩ : ∃ m', m = m' + 1 := ⟨m - 1, by omega⟩
      exact fun r => ih r (h r) (Nat.le_of_succ_le_succ hn)

/-- The rule of sequencing: the statements of the two programs add up. -/
theorem bind {R : β → Prop} {g : α → Prog σ ρ β} (h : p.Takes Q n)
    (hg : ∀ a, Q a → (g a).Takes R m) : (p.bind g).Takes R (n + m) := by
  induction p generalizing n with
  | ret a => exact (hg a h).mono (Nat.le_add_left m n) fun _ hb => hb
  | ask s k ih =>
    obtain _ | n := n
    · exact h.elim
    · rw [Nat.add_right_comm]
      exact fun r => ih r (h r)

end Prog.Takes

/-! ### Programs with errors -/

/-- The program issues at most `n` statements, and `Q` holds of the value it returns if it
returns one. -/
def Spends (n : ℕ) (x : ExceptT ε (Prog σ ρ) α) (Q : α → Prop) : Prop :=
  x.run.Takes (fun r => ∀ a, r = .ok a → Q a) n

namespace Spends

variable {x : ExceptT ε (Prog σ ρ) α} {Q Q' : α → Prop}

theorem mono (h : Spends n x Q) (hn : n ≤ m) (hQ : ∀ a, Q a → Q' a) : Spends m x Q' :=
  Prog.Takes.mono h hn fun _ hr a ha => hQ a (hr a ha)

theorem ret {r : Except ε α} (h : ∀ a, r = .ok a → Q a) :
    Spends n (ExceptT.mk (.ret r) : ExceptT ε (Prog σ ρ) α) Q := h

theorem ite {p : Prop} [Decidable p] {y : ExceptT ε (Prog σ ρ) α} (hx : p → Spends n x Q)
    (hy : ¬ p → Spends n y Q) : Spends n (if p then x else y) Q := by
  by_cases hp : p
  · rw [if_pos hp]
    exact hx hp
  · rw [if_neg hp]
    exact hy hp

/-- Sequencing: after an error the rest is not run. -/
theorem bind {g : α → ExceptT ε (Prog σ ρ) β} {R : β → Prop} (hx : Spends n x Q)
    (hg : ∀ a, Q a → Spends m (g a) R) : Spends (n + m) (x >>= g) R := by
  refine Prog.Takes.bind hx fun r hr => ?_
  cases r with
  | ok a => exact hg a (hr a rfl)
  | error e => exact fun b hb => by cases hb

theorem map {g : α → β} {R : β → Prop} (hx : Spends n x fun a => R (g a)) :
    Spends n (g <$> x) R := by
  refine Prog.Takes.bind (m := 0) hx fun r hr => ?_
  cases r with
  | ok a =>
    intro b hb
    cases hb
    exact hr a rfl
  | error e => exact fun b hb => by cases hb

end Spends

end

/-! ### Budgets -/

/-- A bound on the statements of each operation of a machine, with what counts the statements that
a session has spent. -/
structure Budget (M : Machine) where
  /-- How many statements an operation may issue. -/
  total : M.Op → ℕ
  /-- How many a session has issued. -/
  spent : Session M.Op → M.Shared → ℕ
  prog : ∀ op, (M.prog op).Takes (fun _ => True) (total op)
  exec : ∀ {i s f st st' r}, M.exec i s f st = some (st', r) →
    spent i st' = spent i st + 1 ∧
      ∀ j : Session M.Op, j.id ≠ i.id → spent j st' = spent j st
  release : ∀ i j st, spent j (M.release i st) = spent j st
  move : ∀ m j st, spent j (M.move m st) = spent j st

namespace Budget

variable {M : Machine} (B : Budget M) {c d : M.Config}

/-- What a session has issued and what it can still issue are within its budget. -/
def assertion : Assertion M where
  inv _ := True
  proc i p st := ∃ n, B.spent i st + n ≤ B.total i.op ∧
    ∀ q, p = some q → q.Takes (fun _ => True) n
  fresh i st := B.spent i st = 0

variable {B}

theorem survives {j : Session M.Op} {st st' : M.Shared} (h : B.spent j st' = B.spent j st) :
    B.assertion.Survives j st st' where
  proc p hp := by
    obtain ⟨n, hn, htakes⟩ := hp
    exact ⟨n, by rw [h]; exact hn, htakes⟩
  fresh hfresh := h.trans hfresh

variable (B) in
theorem stable : B.assertion.Stable where
  start {i st} _ hfresh := by
    have hfresh : B.spent i st = 0 := hfresh
    refine ⟨B.total i.op, by omega, fun q hq => ?_⟩
    cases hq
    exact B.prog i.op
  exec _ hp he := by
    obtain ⟨n, hn, htakes⟩ := hp
    obtain ⟨hspent, hothers⟩ := B.exec he
    refine ⟨trivial, ?_, fun j hj => survives (hothers j hj)⟩
    have htakes := htakes _ rfl
    obtain _ | n := n
    · exact htakes.elim
    · refine ⟨n, by omega, fun q hq => ?_⟩
      cases hq
      exact htakes _
  release {i st} _ := ⟨trivial, fun j _ => survives (B.release i j st)⟩
  released {i p st} _ hp _ := (survives (B.release i i st)).proc p hp
  dropped {i s k st} _ hp := by
    obtain ⟨n, hn, -⟩ := hp
    exact ⟨n, by rw [B.release]; exact hn, nofun⟩
  move {m st} _ := ⟨trivial, fun j => survives (B.move m j st)⟩

/-- **Nobody issues more than that**, in any run. -/
theorem reaches {st : M.Shared} (hst : ∀ i, B.spent i st = 0)
    (h : Machine.Reaches (⟨st, []⟩ : M.Config) c) : B.assertion.Holds c :=
  B.stable.reaches (.init trivial hst) h

/-! ### What is left -/

variable (B) in
/-- What a session has left of its budget. -/
def leftOf (c : M.Config) (i : ℕ) : ℕ :=
  (c.procs[i]?).elim 0 fun p => B.total p.op - B.spent ⟨i, p.op⟩ c.shared

variable (B) in
/-- The number of statements that all sessions together have left. -/
def left (c : M.Config) : ℕ := ∑ i ∈ Finset.range c.procs.length, B.leftOf c i

/-- **A statement takes one from what is left.** -/
theorem left_step (hc : B.assertion.Holds c) {i : ℕ} {f : M.Fate}
    (h : step c (.step i f) = some d) : B.left d < B.left c := by
  simp only [step] at h
  split at h
  · next op s k hi =>
    obtain ⟨⟨st, r⟩, he, rfl⟩ := Option.map_eq_some_iff.mp h
    obtain ⟨hspent, hothers⟩ := B.exec he
    obtain ⟨n, hn, htakes⟩ := hc.procs i op _ hi
    have hlt := (List.getElem?_eq_some_iff.mp hi).1
    unfold left
    rw [List.length_set]
    refine Finset.sum_lt_sum (fun j hj => ?_) ⟨i, Finset.mem_range.mpr hlt, ?_⟩
    · unfold leftOf
      by_cases hij : i = j
      · subst hij
        simp only [List.getElem?_set_self hlt, hi, Option.elim_some]
        omega
      · simp only [List.getElem?_set_ne hij]
        cases c.procs[j]? with
        | none => exact Nat.le_refl _
        | some p => exact Nat.le_of_eq (congrArg (B.total p.op - ·) (hothers _ (Ne.symm hij)))
    -- It had a statement to issue, so there was something left.
    · obtain _ | n := n
      · exact (htakes _ rfl).elim
      · unfold leftOf
        simp only [List.getElem?_set_self hlt, hi, Option.elim_some]
        simp only at hn
        omega
  · cases h

/-- Where nothing but a release has happened, as much is left. -/
theorem left_drop {i : Session M.Op} (hd : d = ⟨M.release i c.shared, c.procs⟩) :
    B.left d = B.left c := by
  subst hd
  unfold left leftOf
  simp only [B.release]

end Budget

/-- What the sessions of a list have issued adds up to all there is. -/
theorem length_eq_sum_filter {α : Type} {key : α → ℕ} {n : ℕ} {l : List α}
    (h : ∀ a ∈ l, key a < n) :
    l.length = ∑ i ∈ Finset.range n, (l.filter fun a => key a = i).length := by
  induction l with
  | nil => simp
  | cons a l ih =>
    rw [List.forall_mem_cons] at h
    have hone : ∑ i ∈ Finset.range n, (if key a = i then 1 else 0) = 1 := by
      rw [Finset.sum_ite_eq, if_pos (Finset.mem_range.mpr h.1)]
    have hcons : ∀ i, ((a :: l).filter fun a => key a = i).length =
        (l.filter fun a => key a = i).length + if key a = i then 1 else 0 := by
      intro i
      by_cases hi : key a = i <;> simp [hi]
    simp only [hcons, Finset.sum_add_distrib, hone, List.length_cons, ← ih h.2]

end Interleave
