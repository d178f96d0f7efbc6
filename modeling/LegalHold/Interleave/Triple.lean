import LegalHold.Interleave.RelyGuarantee

/-!
# Triples for interleaved programs

Hoare triples over the weakest precondition of a `Discipline`.  A precondition
of a statement must be stable, that is, no other session can falsify it; what a
postcondition says it says of the moment at which the program returns.

Programs of a source with errors are programs in `ExceptT`; `Triple.run_bind` is
their rule of sequencing, under which an error ends the program.

## Main definitions

* `Stable` — an assertion that survives what the others do.
* `Triple`, `Ends` — partial correctness of a program of one session.

## Main results

* `Triple.ask`, `Triple.bind`, `Triple.run_bind`, `Triple.conseq` — the rules.
* `Discipline.Sound.of_triple` — triples for all operations make the discipline
  sound.
-/

namespace Interleave

variable {M : Machine} {D : Discipline M} {i : Session M.Op} {α β ε : Type}

/-- The other sessions cannot falsify `P`, as long as they keep to the discipline. -/
def Stable (D : Discipline M) (i : Session M.Op) (P : M.Shared → Prop) : Prop :=
  ∀ ⦃st st'⦄, D.inv st → P st → D.inv st' → D.rely i st st' → P st'

/-- From `P`, the program `p` of session `i` can only end in `Q`. -/
def Triple (D : Discipline M) (i : Session M.Op) (P : M.Shared → Prop)
    (p : Prog M.Stmt M.Reply α) (Q : α → M.Shared → Prop) : Prop :=
  ∀ st, D.inv st → P st → wp D i p Q st

/-- What is required of a result: `R` of a value, `E` of an error. -/
def Ends {σ : Type} (R : α → σ → Prop) (E : ε → σ → Prop) : Except ε α → σ → Prop
  | .ok a, st => R a st
  | .error e, st => E e st

/-- A program ends in a state that keeps the invariant. -/
theorem wp_inv {p : Prog M.Stmt M.Reply α} {Q : α → M.Shared → Prop} {st : M.Shared}
    (hinv : D.inv st) (h : wp D i p Q st) : wp D i p (fun a st' => D.inv st' ∧ Q a st') st := by
  induction p generalizing st with
  | ret a => exact ⟨hinv, h⟩
  | ask s k ih =>
    intro st₁ hinv₁ hrely f st₂ r hexec
    obtain ⟨hinv₂, hguar, hrest⟩ := h st₁ hinv₁ hrely f st₂ r hexec
    exact ⟨hinv₂, hguar, ih r hinv₂ hrest⟩

namespace Triple

variable {P P' : M.Shared → Prop} {Q Q' : α → M.Shared → Prop} {p : Prog M.Stmt M.Reply α}

theorem ret {a : α} (h : ∀ st, D.inv st → P st → Q a st) : Triple D i P (.ret a) Q := h

/-- The rule of consequence: the precondition may be stronger and the postcondition weaker. -/
theorem conseq (h : Triple D i P p Q) (hP : ∀ st, D.inv st → P' st → P st)
    (hQ : ∀ a st, D.inv st → Q a st → Q' a st) : Triple D i P' p Q' := by
  intro st hinv hP'
  have hwp := wp_inv hinv (h st hinv (hP st hinv hP'))
  exact wp_mono (fun a st' hq => hQ a st' hq.1 hq.2) hwp

/-- The rule of sequencing: the second program starts where the first one ends. -/
theorem bind {R : α → M.Shared → Prop} {f : α → Prog M.Stmt M.Reply β}
    {Q : β → M.Shared → Prop} (h : Triple D i P p R) (hf : ∀ a, Triple D i (R a) (f a) Q) :
    Triple D i P (p.bind f) Q := by
  intro st hinv hP
  have hwp := wp_inv hinv (h st hinv hP)
  exact wp_bind (wp_mono (fun a st' hr => hf a st' hr.1 hr.2) hwp)

/-- One statement: it is executed where the precondition still holds. -/
theorem ask {s : M.Stmt} {k : M.Reply s → Prog M.Stmt M.Reply α} (hP : Stable D i P)
    (hexec : ∀ st f st' r, D.inv st → P st → M.exec i s f st = some (st', r) →
      D.inv st' ∧ (∀ j : Session M.Op, j.id ≠ i.id → D.rely j st st') ∧ wp D i (k r) Q st') :
    Triple D i P (.ask s k) Q := by
  intro st hinv hst st₁ hinv₁ hrely f st₂ r he
  exact hexec st₁ f st₂ r hinv₁ (hP hinv hst hinv₁ hrely) he

/-- A precondition that does not speak of the server is a hypothesis. -/
theorem of_pure {φ : Prop} (h : φ → Triple D i P p Q) :
    Triple D i (fun st => φ ∧ P st) p Q := fun st hinv hst => h hst.1 st hinv hst.2

theorem of_exists {γ : Type} {P : γ → M.Shared → Prop} (h : ∀ c, Triple D i (P c) p Q) :
    Triple D i (fun st => ∃ c, P c st) p Q := by
  rintro st hinv ⟨c, hc⟩
  exact h c st hinv hc

/-- What every statement keeps, whoever issues it, is kept by every program. -/
theorem frame {F : M.Shared → Prop} (hrely : Stable D i F)
    (hexec : ∀ st s f st' r, D.inv st → M.exec i s f st = some (st', r) → F st → F st')
    (h : Triple D i P p Q) : Triple D i (fun st => P st ∧ F st) p fun a st => Q a st ∧ F st := by
  rintro st hinv ⟨hP, hF⟩
  -- From here on by induction on the program; its precondition has been used up.
  have hwp := h st hinv hP
  clear hP
  induction p generalizing st P with
  | ret a => exact ⟨hwp, hF⟩
  | ask s k ih =>
    intro st₁ hinv₁ hr f st₂ r he
    obtain ⟨hinv₂, hguar, hrest⟩ := hwp st₁ hinv₁ hr f st₂ r he
    have hF₂ := hexec st₁ s f st₂ r hinv₁ he (hrely hinv hF hinv₁ hr)
    exact ⟨hinv₂, hguar, ih r (P := fun st => wp D i (k r) Q st) (fun _ _ h => h) st₂ hinv₂ hF₂
      hrest⟩

/-- What a program returns is one of the things that it can return. -/
theorem leaves {L : α → Prop} (h : Triple D i P p Q) (hl : p.Leaves L) :
    Triple D i P p fun a st => Q a st ∧ L a := by
  intro st hinv hP
  have hwp := h st hinv hP
  clear h hP
  induction p generalizing st with
  | ret a => exact ⟨hwp, hl⟩
  | ask s k ih =>
    intro st₁ hinv₁ hr f st₂ r he
    obtain ⟨hinv₂, hguar, hrest⟩ := hwp st₁ hinv₁ hr f st₂ r he
    exact ⟨hinv₂, hguar, ih r (hl r) st₂ hinv₂ hrest⟩

/-- What is required of the errors may be less. -/
theorem mono_error {R : α → M.Shared → Prop} {E E' : ε → M.Shared → Prop}
    {p : Prog M.Stmt M.Reply (Except ε α)} (h : Triple D i P p (Ends R E))
    (hE : ∀ e st, E e st → E' e st) : Triple D i P p (Ends R E') := by
  refine h.conseq (fun _ _ hP => hP) fun r st _ hr => ?_
  cases r with
  | ok a => exact hr
  | error e => exact hE e st hr

/-- Sequencing in `ExceptT`: an error of the first program ends both. -/
theorem run_bind {R : α → M.Shared → Prop} {Q : Except ε β → M.Shared → Prop}
    {x : ExceptT ε (Prog M.Stmt M.Reply) α} {f : α → ExceptT ε (Prog M.Stmt M.Reply) β}
    (h : Triple D i P x.run (Ends R fun e => Q (.error e)))
    (hf : ∀ a, Triple D i (R a) (f a).run Q) : Triple D i P (x >>= f).run Q := by
  refine bind h fun r => ?_
  cases r with
  | ok a => exact hf a
  | error e => exact ret fun st _ hq => hq

theorem run_map {Q : Except ε β → M.Shared → Prop} {x : ExceptT ε (Prog M.Stmt M.Reply) α}
    {g : α → β} (h : Triple D i P x.run fun r st => Q (r.map g) st) :
    Triple D i P (g <$> x).run Q := by
  refine bind h fun r => ?_
  cases r with
  | ok a => exact ret fun st _ hq => hq
  | error e => exact ret fun st _ hq => hq

end Triple

/-- Triples for all operations, with postconditions that stay true, make a
discipline sound. -/
theorem Discipline.Sound.of_triple {Q : Session M.Op → M.Result → M.Shared → Prop}
    (h : ∀ i, Triple D i (D.fresh i) (M.prog i.op) (Q i)) (hQ : ∀ i a, Stable D i (Q i a))
    (hrel : ∀ i a st, Q i a st → D.inv st → Q i a (M.release i st)) : D.Sound Q where
  start i st hinv hfresh := h i st hinv hfresh
  rely i a _ _ hinv hq hinv' hrely := hQ i a hinv hq hinv' hrely
  release := hrel

end Interleave
