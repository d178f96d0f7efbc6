import LegalHold.Interleave.Assertion

/-!
# Rely and guarantee for interleaved sessions

A rule of proof for `Machine`: one program is followed statement by statement,
and between any two of its statements the server may be changed by everybody
else, as far as a *rely* relation allows.  In return every statement of the
program must keep the server's invariant and stay within what all other
sessions rely on.  The rule is a weakest precondition by recursion on the
program, so it composes along `bind` and needs no annotation of control points.

## Main definitions

* `Discipline` — an invariant of the server, the rely of each session, and what
  a session that has not started may assume.
* `wp` — the weakest precondition of a program under a discipline.
* `Discipline.Sound` — every operation's program satisfies its postcondition.

## Main results

* `wp_bind`, `wp_rely`, `wp_mono` — the rules used to derive a `wp`.
* `Discipline.Sound.reaches` — **soundness**: along every run the invariant
  holds and every running program still satisfies its `wp`.
* `Discipline.Good.inv`, `Discipline.Good.returned` — what that says about the
  server and about a session that has returned.
-/

namespace Interleave

open Machine

/-- What the sessions of a machine agree on: an invariant of the server, what each relies on, and
what each guarantees. -/
structure Discipline (M : Machine) where
  /-- What holds of the server between any two statements. -/
  inv : M.Shared → Prop
  /-- What a session relies on while others move. -/
  rely : Session M.Op → M.Shared → M.Shared → Prop
  /-- What holds of the server for a session that has not started. -/
  fresh : Session M.Op → M.Shared → Prop
  rely_refl : ∀ i st, rely i st st
  rely_trans : ∀ {i a b c}, rely i a b → rely i b c → rely i a c
  fresh_rely : ∀ {i st st'}, fresh i st → rely i st st' → fresh i st'
  release_inv : ∀ {i st}, inv st → inv (M.release i st)
  release_rely : ∀ {i j st}, i.id ≠ j.id → inv st → rely j st (M.release i st)
  move_inv : ∀ {m st}, inv st → inv (M.move m st)
  move_rely : ∀ {m j st}, inv st → rely j st (M.move m st)

variable {M : Machine} {D : Discipline M} {i : Session M.Op} {α β : Type}

/-- The weakest precondition of `p` run by session `i`: at each statement the
others may first have moved the server as `D.rely i` allows; the statement,
however it turns out, keeps the invariant and what every other session relies
on, and the continuation has the weakest precondition of the rest. -/
def wp (D : Discipline M) (i : Session M.Op) {α : Type} :
    Prog M.Stmt M.Reply α → (α → M.Shared → Prop) → M.Shared → Prop
  | .ret a, Q, st => Q a st
  | .ask s k, Q, st => ∀ st₁, D.inv st₁ → D.rely i st st₁ →
      ∀ f st₂ r, M.exec i s f st₁ = some (st₂, r) →
        D.inv st₂ ∧ (∀ j : Session M.Op, j.id ≠ i.id → D.rely j st₁ st₂) ∧ wp D i (k r) Q st₂

@[simp] theorem wp_ret (a : α) (Q : α → M.Shared → Prop) (st : M.Shared) :
    wp D i (.ret a) Q st ↔ Q a st := Iff.rfl

theorem wp_mono {p : Prog M.Stmt M.Reply α} {Q Q' : α → M.Shared → Prop} {st : M.Shared}
    (hQ : ∀ a st, Q a st → Q' a st) (h : wp D i p Q st) : wp D i p Q' st := by
  induction p generalizing st with
  | ret a => exact hQ a st h
  | ask s k ih =>
    intro st₁ hinv hrely f st₂ r hexec
    obtain ⟨hinv₂, hguar, hrest⟩ := h st₁ hinv hrely f st₂ r hexec
    exact ⟨hinv₂, hguar, ih r hrest⟩

/-- Sequencing: it is enough that the first program ends where the second one's
precondition holds. -/
theorem wp_bind {p : Prog M.Stmt M.Reply α} {f : α → Prog M.Stmt M.Reply β}
    {Q : β → M.Shared → Prop} {st : M.Shared}
    (h : wp D i p (fun a st' => wp D i (f a) Q st') st) : wp D i (p.bind f) Q st := by
  induction p generalizing st with
  | ret a => exact h
  -- A statement of the first program is a statement of the whole.
  | ask s k ih =>
    intro st₁ hinv hrely fate st₂ r hexec
    obtain ⟨hinv₂, hguar, hrest⟩ := h st₁ hinv hrely fate st₂ r hexec
    exact ⟨hinv₂, hguar, ih r hrest⟩

/-- A precondition survives whatever the other sessions do, as long as they keep to what it relies
on. -/
theorem wp_rely {p : Prog M.Stmt M.Reply α} {Q : α → M.Shared → Prop} {st st' : M.Shared}
    (hQ : ∀ a st st', D.inv st → Q a st → D.inv st' → D.rely i st st' → Q a st')
    (hinv : D.inv st) (h : wp D i p Q st) (hinv' : D.inv st') (hrely : D.rely i st st') :
    wp D i p Q st' := by
  cases p with
  | ret a => exact hQ a st st' hinv h hinv' hrely
  | ask s k =>
    intro st₁ hinv₁ hrely₁
    exact h st₁ hinv₁ (D.rely_trans hrely hrely₁)

namespace Discipline

/-- Every operation, started when nothing of it is on the server yet, ends in
`Q`, and `Q` survives whatever happens after that. -/
structure Sound (D : Discipline M) (Q : Session M.Op → M.Result → M.Shared → Prop) : Prop where
  start : ∀ i st, D.inv st → D.fresh i st → wp D i (M.prog i.op) (Q i) st
  rely : ∀ i a st st', D.inv st → Q i a st → D.inv st' → D.rely i st st' → Q i a st'
  release : ∀ i a st, Q i a st → D.inv st → Q i a (M.release i st)

/-- The assertion that is carried along a run: the invariant, and for every session the
precondition of the program it has left. -/
structure Good (D : Discipline M) (Q : Session M.Op → M.Result → M.Shared → Prop)
    (c : M.Config) : Prop where
  inv : D.inv c.shared
  procs : ∀ i op p, c.procs[i]? = some ⟨op, some p⟩ → wp D ⟨i, op⟩ p (Q ⟨i, op⟩) c.shared
  fresh : ∀ i : Session M.Op, c.procs.length ≤ i.id → D.fresh i c.shared

variable {Q : Session M.Op → M.Result → M.Shared → Prop}

/-- The discipline as an assertion about configurations. -/
def assertion (D : Discipline M) (Q : Session M.Op → M.Result → M.Shared → Prop) :
    Assertion M where
  inv := D.inv
  proc i p st := ∀ q, p = some q → wp D i q (Q i) st
  fresh := D.fresh

theorem good_iff {c : M.Config} : D.Good Q c ↔ (D.assertion Q).Holds c := by
  constructor
  · exact fun h => ⟨h.inv, fun i op p hp q hq => h.procs i op q (hq ▸ hp), h.fresh⟩
  · exact fun h => ⟨h.inv, fun i op q hp => h.procs i op _ hp q rfl, h.fresh⟩

/-- A move of somebody else keeps what is asserted of every session it is not about. -/
theorem Sound.survives (hS : D.Sound Q) {j : Session M.Op} {st st' : M.Shared} (hinv : D.inv st)
    (hinv' : D.inv st') (hrely : D.rely j st st') : (D.assertion Q).Survives j st st' where
  proc _ hp q hq := wp_rely (hS.rely _) hinv (hp q hq) hinv' hrely
  fresh hfresh := D.fresh_rely hfresh hrely

theorem Sound.stable (hS : D.Sound Q) : (D.assertion Q).Stable where
  start hinv hfresh q hq := by
    cases hq
    exact hS.start _ _ hinv hfresh
  exec hinv hp he := by
    obtain ⟨hinv', hguar, hrest⟩ := hp _ rfl _ hinv (D.rely_refl _ _) _ _ _ he
    refine ⟨hinv', fun q hq => ?_, fun j hj => hS.survives hinv hinv' (hguar j hj)⟩
    cases hq
    exact hrest
  release hinv := by
    refine ⟨D.release_inv hinv, fun j hj => ?_⟩
    exact hS.survives hinv (D.release_inv hinv) (D.release_rely (Ne.symm hj) hinv)
  released hinv hp hover q hq := by
    cases q with
    -- It has returned: only its postcondition is left.
    | ret a => exact hS.release _ a _ (hp _ hq) hinv
    | ask s k => exact absurd hq (hover s k)
  dropped _ _ q hq := by cases hq
  move hinv :=
    ⟨D.move_inv hinv, fun j => hS.survives hinv (D.move_inv hinv) (D.move_rely hinv)⟩

/-- **Soundness of the rule**: along every run from a good configuration the
invariant holds and every program still satisfies its precondition. -/
theorem Sound.reaches (hS : D.Sound Q) {c c' : M.Config} (hc : D.Good Q c) (h : Reaches c c') :
    D.Good Q c' :=
  good_iff.mpr (hS.stable.reaches (good_iff.mp hc) h)

/-- Before the first session starts there is nothing to keep but the invariant. -/
theorem Good.init {st : M.Shared} (hinv : D.inv st) (hfresh : ∀ i, D.fresh i st) :
    D.Good Q ⟨st, []⟩ :=
  good_iff.mpr (.init hinv hfresh)

/-- A session that has returned meets its postcondition, at that moment and
ever after. -/
theorem Good.returned {c : M.Config} (hc : D.Good Q c) {i : ℕ} {op : M.Op} {r : M.Result}
    (h : Returned c i op r) : Q ⟨i, op⟩ r c.shared :=
  hc.procs i op _ h

end Discipline

end Interleave
