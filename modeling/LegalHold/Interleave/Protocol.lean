import LegalHold.Interleave.Assertion
import Mathlib.Logic.Relation

/-!
# Sessions that keep to a protocol

A protocol divides the life of a session into phases and says which statements
may be issued in each of them.  Whether a program keeps to it can be read off the
program, reply by reply; what the phase of a session says of the server then
holds along every run.

Protocols are also how waiting is kept from going round in a circle: a relation
along which a rank increases has no cycle.

## Main definitions

* `Protocol` — phases, the statements allowed in them, and what they mean.
* `Protocol.Follows`, `Protocol.Leads` — a program keeps to a protocol.
* `Protocol.Kept` — what the protocol says of a configuration.

## Main results

* `Protocol.Follows.bind`, `Protocol.Leads.bind` — programs keep to a protocol
  part by part.
* `Protocol.Sound.reaches` — **soundness**: the protocol is kept along every run.
* `not_transGen_self` — no cycle in a relation with a rank.
-/

namespace Interleave

open Machine

/-- A protocol that the sessions of a machine keep to: phases, and the statements that may be
issued in each. -/
structure Protocol (M : Machine) where
  /-- How far a session has come. -/
  Phase : Type
  /-- Before its first statement. -/
  start : Phase
  /-- The statements that may be issued in a phase. -/
  may : Phase → M.Stmt → Prop
  /-- The phase after the reply to a statement. -/
  next : Phase → (s : M.Stmt) → M.Reply s → Phase
  /-- What holds of the server between any two statements. -/
  inv : M.Shared → Prop
  /-- What a phase says of the server. -/
  holds : Phase → Session M.Op → M.Shared → Prop

namespace Protocol

variable {M : Machine} {A : Protocol M} {α β ε : Type}

/-- Started in this phase, the program issues only what it may, and ends in a
phase that `Q` allows for what it returns. -/
def Follows (A : Protocol M) {α : Type} (Q : α → A.Phase → Prop) :
    A.Phase → Prog M.Stmt M.Reply α → Prop
  | φ, .ret a => Q a φ
  | φ, .ask s k => A.may φ s ∧ ∀ r, Follows A Q (A.next φ s r) (k r)

variable {φ : A.Phase}

theorem Follows.mono {Q Q' : α → A.Phase → Prop} (hQ : ∀ a φ, Q a φ → Q' a φ)
    {p : Prog M.Stmt M.Reply α} (h : A.Follows Q φ p) : A.Follows Q' φ p := by
  induction p generalizing φ with
  | ret a => exact hQ a φ h
  | ask s k ih => exact ⟨h.1, fun r => ih r (h.2 r)⟩

/-- The rule of sequencing: the second program follows the protocol from the phase in which the
first one ends. -/
theorem Follows.bind {Q : β → A.Phase → Prop} {p : Prog M.Stmt M.Reply α}
    {f : α → Prog M.Stmt M.Reply β}
    (h : A.Follows (fun a ψ => A.Follows Q ψ (f a)) φ p) : A.Follows Q φ (p.bind f) := by
  induction p generalizing φ with
  | ret a => exact h
  | ask s k ih => exact ⟨h.1, fun r => ih r (h.2 r)⟩

/-! ### Programs with errors -/

/-- Started in this phase, the program keeps to the protocol; when it returns a
value, it ends in a phase that `Q` allows for it. -/
def Leads (A : Protocol M) (φ : A.Phase) (x : ExceptT ε (Prog M.Stmt M.Reply) α)
    (Q : α → A.Phase → Prop) : Prop := A.Follows (fun r ψ => ∀ a, r = .ok a → Q a ψ) φ x.run

namespace Leads

variable {x : ExceptT ε (Prog M.Stmt M.Reply) α} {Q Q' : α → A.Phase → Prop}

theorem mono (h : A.Leads φ x Q) (hQ : ∀ a ψ, Q a ψ → Q' a ψ) : A.Leads φ x Q' :=
  Follows.mono (fun _ ψ hr a ha => hQ a ψ (hr a ha)) h

theorem ite {p : Prop} [Decidable p] {y : ExceptT ε (Prog M.Stmt M.Reply) α}
    (hx : p → A.Leads φ x Q) (hy : ¬ p → A.Leads φ y Q) : A.Leads φ (if p then x else y) Q := by
  by_cases hp : p
  · rw [if_pos hp]
    exact hx hp
  · rw [if_neg hp]
    exact hy hp

theorem ret {r : Except ε α} (h : ∀ a, r = .ok a → Q a φ) :
    A.Leads φ (ExceptT.mk (.ret r) : ExceptT ε (Prog M.Stmt M.Reply) α) Q := h

/-- Sequencing: after an error the rest is not run. -/
theorem bind {f : α → ExceptT ε (Prog M.Stmt M.Reply) β} {R : β → A.Phase → Prop}
    (hx : A.Leads φ x Q) (hf : ∀ a ψ, Q a ψ → A.Leads ψ (f a) R) : A.Leads φ (x >>= f) R := by
  refine Follows.bind (Follows.mono (fun r ψ hr => ?_) hx)
  cases r with
  | ok a => exact hf a ψ (hr a rfl)
  | error e => exact fun b hb => by cases hb

theorem map {g : α → β} {R : β → A.Phase → Prop} (hx : A.Leads φ x fun a ψ => R (g a) ψ) :
    A.Leads φ (g <$> x) R := by
  refine Follows.bind (Follows.mono (fun r ψ hr => ?_) hx)
  cases r with
  | ok a =>
    intro b hb
    cases hb
    exact hr a rfl
  | error e => exact fun b hb => by cases hb

end Leads

/-! ### Runs -/

/-- The programs issue only what their phases allow, and the statements do what the phases say. -/
structure Sound (A : Protocol M) : Prop where
  prog : ∀ op, A.Follows (fun _ _ => True) A.start (M.prog op)
  exec : ∀ {φ i s f st st' r}, A.inv st → A.holds φ i st → A.may φ s →
    M.exec i s f st = some (st', r) → A.inv st' ∧ A.holds (A.next φ s r) i st'
  other : ∀ {φ j i s f st st' r}, j.id ≠ i.id → A.holds φ j st →
    M.exec i s f st = some (st', r) → A.holds φ j st'
  release : ∀ {i st}, A.inv st → A.inv (M.release i st) ∧ A.holds A.start i (M.release i st)
  release_other : ∀ {φ j i st}, j.id ≠ i.id → A.holds φ j st → A.holds φ j (M.release i st)
  move : ∀ {m st}, A.inv st → A.inv (M.move m st)
  move_other : ∀ {φ j m st}, A.holds φ j st → A.holds φ j (M.move m st)

/-- What the protocol says of a configuration: every session follows it from a phase that holds of
the server. -/
structure Kept (A : Protocol M) (c : M.Config) : Prop where
  inv : A.inv c.shared
  procs : ∀ i op p, c.procs[i]? = some ⟨op, some p⟩ →
    ∃ φ, A.holds φ ⟨i, op⟩ c.shared ∧ A.Follows (fun _ _ => True) φ p
  fresh : ∀ i : Session M.Op, c.procs.length ≤ i.id → A.holds A.start i c.shared

/-- The protocol as an assertion about configurations. -/
def assertion (A : Protocol M) : Assertion M where
  inv := A.inv
  proc i p st := ∀ q, p = some q → ∃ φ, A.holds φ i st ∧ A.Follows (fun _ _ => True) φ q
  fresh := A.holds A.start

theorem kept_iff {c : M.Config} : A.Kept c ↔ A.assertion.Holds c := by
  constructor
  · exact fun h => ⟨h.inv, fun i op p hp q hq => h.procs i op q (hq ▸ hp), h.fresh⟩
  · exact fun h => ⟨h.inv, fun i op q hp => h.procs i op _ hp q rfl, h.fresh⟩

theorem survives {j : Session M.Op} {st st' : M.Shared}
    (h : ∀ φ, A.holds φ j st → A.holds φ j st') : A.assertion.Survives j st st' where
  proc _ hp q hq := by
    obtain ⟨φ, hφ, hfollows⟩ := hp q hq
    exact ⟨φ, h φ hφ, hfollows⟩
  fresh hstart := h A.start hstart

theorem Sound.stable (hA : A.Sound) : A.assertion.Stable where
  start _ hfresh q hq := by
    cases hq
    exact ⟨A.start, hfresh, hA.prog _⟩
  exec hinv hp he := by
    obtain ⟨φ, hφ, hmay, hrest⟩ := hp _ rfl
    obtain ⟨hinv', hnext⟩ := hA.exec hinv hφ hmay he
    refine ⟨hinv', fun q hq => ?_, fun j hj => survives fun ψ hψ => hA.other hj hψ he⟩
    cases hq
    exact ⟨_, hnext, hrest _⟩
  release hinv :=
    ⟨(hA.release hinv).1, fun j hj => survives fun ψ hψ => hA.release_other hj hψ⟩
  released hinv _ hover q hq := by
    cases q with
    -- It has returned: nothing is left of its program.
    | ret a => exact ⟨A.start, (hA.release hinv).2, trivial⟩
    | ask s k => exact absurd hq (hover s k)
  dropped _ _ q hq := by cases hq
  move hinv := ⟨hA.move hinv, fun j => survives fun ψ hψ => hA.move_other hψ⟩

/-- **Soundness**: every session keeps to the protocol along every run. -/
theorem Sound.reaches (hA : A.Sound) {c c' : M.Config} (hc : A.Kept c) (h : Reaches c c') :
    A.Kept c' :=
  kept_iff.mpr (hA.stable.reaches (kept_iff.mp hc) h)

/-- Before the first session starts there is nothing to keep but the invariant. -/
theorem Kept.init {st : M.Shared} (hinv : A.inv st) (hstart : ∀ i, A.holds A.start i st) :
    A.Kept ⟨st, []⟩ :=
  kept_iff.mpr (.init hinv hstart)

end Protocol

/-! ### Waiting -/

/-- A session that is running cannot go on when its statement cannot be executed. -/
theorem step_eq_none_iff {M : Machine} {c : M.Config} {i : ℕ} {op : M.Op} {s : M.Stmt}
    {k : M.Reply s → Prog M.Stmt M.Reply M.Result} (hi : c.procs[i]? = some ⟨op, some (.ask s k)⟩)
    (f : M.Fate) : step c (.step i f) = none ↔ M.exec ⟨i, op⟩ s f c.shared = none := by
  simp only [step, hi, Option.map_eq_none_iff]

/-- **A relation along which a rank increases has no cycle.** -/
theorem not_transGen_self {α : Type} {r : α → α → Prop} (rank : α → ℕ)
    (h : ∀ a b, r a b → rank a < rank b) (a : α) : ¬ Relation.TransGen r a a := by
  have hlt : ∀ {a b}, Relation.TransGen r a b → rank a < rank b := by
    intro a b hab
    induction hab with
    | single hab => exact h _ _ hab
    | tail _ hbc ih => exact Nat.lt_trans ih (h _ _ hbc)
  exact fun ha => Nat.lt_irrefl _ (hlt ha)

end Interleave
