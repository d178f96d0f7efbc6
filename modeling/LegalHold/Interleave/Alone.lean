import LegalHold.Interleave.Triple

/-!
# Sessions that run alone

When nothing moves between the statements of a session, what its program does is
a function of the server it starts on.  The triples of this module are total:
the program runs to its end, and ends as the postcondition says.

## Main definitions

* `Alone` — total correctness of a program that runs alone.
* `Machine.serially` — operations one after the other, each of them alone.

## Main results

* `Alone.ask`, `Alone.bind`, `Alone.run_bind`, `Alone.conseq`, `Alone.always` — the rules.
* `Machine.reaches_serially` — **one after the other is one of the schedules**.
-/

namespace Interleave

variable {M : Machine} {f : M.Fate} {i : Session M.Op} {α β ε : Type}

/-! ### Total correctness -/

/-- From `P`, the program `p` of session `i` runs alone to its end, and ends in `Q`. -/
def Alone (M : Machine) (f : M.Fate) (i : Session M.Op) (P : M.Shared → Prop)
    (p : Prog M.Stmt M.Reply α) (Q : α → M.Shared → Prop) : Prop :=
  ∀ st, P st → ∃ st' a, M.runAlone f i p st = some (st', a) ∧ Q a st'

/-- What is required of a result that must be a value. -/
def Succeeds {σ : Type} (R : α → σ → Prop) : Except ε α → σ → Prop :=
  Ends R fun _ _ => False

theorem Machine.runAlone_bind {p : Prog M.Stmt M.Reply α} {g : α → Prog M.Stmt M.Reply β} :
    ∀ st, M.runAlone f i (p.bind g) st =
      (M.runAlone f i p st).bind fun x => M.runAlone f i (g x.2) x.1 := by
  induction p with
  | ret a => exact fun st => rfl
  | ask s k ih =>
    intro st
    simp only [Prog.ask_bind, runAlone, Option.bind_assoc]
    exact Option.bind_congr fun x _ => ih x.2 x.1

namespace Alone

variable {P P' : M.Shared → Prop} {Q Q' : α → M.Shared → Prop} {p : Prog M.Stmt M.Reply α}

theorem ret {a : α} (h : ∀ st, P st → Q a st) : Alone M f i P (.ret a) Q :=
  fun st hP => ⟨st, a, rfl, h st hP⟩

/-- The rule of consequence: the precondition may be stronger and the postcondition weaker. -/
theorem conseq (h : Alone M f i P p Q) (hP : ∀ st, P' st → P st)
    (hQ : ∀ a st, Q a st → Q' a st) : Alone M f i P' p Q' := by
  intro st hst
  obtain ⟨st', a, hrun, hq⟩ := h st (hP st hst)
  exact ⟨st', a, hrun, hQ a st' hq⟩

/-- The rule of one statement: it is carried out, and the rest of the program goes on from its
reply. -/
theorem ask {s : M.Stmt} {k : M.Reply s → Prog M.Stmt M.Reply α}
    {R : M.Reply s → M.Shared → Prop}
    (hexec : ∀ st, P st → ∃ st' r, M.exec i s f st = some (st', r) ∧ R r st')
    (hk : ∀ r, Alone M f i (R r) (k r) Q) : Alone M f i P (.ask s k) Q := by
  intro st hst
  obtain ⟨st₁, r, he, hr⟩ := hexec st hst
  obtain ⟨st', a, hrun, hq⟩ := hk r st₁ hr
  refine ⟨st', a, ?_, hq⟩
  rw [Machine.runAlone, he]
  exact hrun

/-- The rule of sequencing: the second program starts where the first one ends. -/
theorem bind {R : α → M.Shared → Prop} {g : α → Prog M.Stmt M.Reply β}
    {Q : β → M.Shared → Prop} (h : Alone M f i P p R) (hg : ∀ a, Alone M f i (R a) (g a) Q) :
    Alone M f i P (p.bind g) Q := by
  intro st hst
  obtain ⟨st₁, a, hrun, hr⟩ := h st hst
  obtain ⟨st', b, hrest, hq⟩ := hg a st₁ hr
  refine ⟨st', b, ?_, hq⟩
  rw [Machine.runAlone_bind, hrun]
  exact hrest

/-- Sequencing in `ExceptT`, when the first program succeeds. -/
theorem run_bind {R : α → M.Shared → Prop} {Q : Except ε β → M.Shared → Prop}
    {x : ExceptT ε (Prog M.Stmt M.Reply) α} {g : α → ExceptT ε (Prog M.Stmt M.Reply) β}
    (h : Alone M f i P x.run (Succeeds R)) (hg : ∀ a, Alone M f i (R a) (g a).run Q) :
    Alone M f i P (x >>= g).run Q := by
  refine bind h fun r => ?_
  cases r with
  | ok a => exact hg a
  | error e => exact fun st hst => hst.elim

theorem run_map {R : β → M.Shared → Prop} {x : ExceptT ε (Prog M.Stmt M.Reply) α} {g : α → β}
    (h : Alone M f i P x.run (Succeeds fun a st => R (g a) st)) :
    Alone M f i P (g <$> x).run (Succeeds R) := by
  refine bind h fun r => ?_
  cases r with
  | ok a => exact ret fun st hst => hst
  | error e => exact fun st hst => hst.elim

/-- The rule of consequence for the value a program returns. -/
theorem run_conseq {R R' : α → M.Shared → Prop} {x : ExceptT ε (Prog M.Stmt M.Reply) α}
    (h : Alone M f i P x.run (Succeeds R)) (hR : ∀ a st, R a st → R' a st) :
    Alone M f i P x.run (Succeeds R') := by
  refine h.conseq (fun _ hst => hst) fun r st hr => ?_
  cases r with
  | ok a => exact hR a st hr
  | error e => exact hr

/-- What every statement keeps, no statement getting stuck, is kept to the end. -/
theorem always (h : ∀ s st, P st → ∃ st' r, M.exec i s f st = some (st', r) ∧ P st')
    (p : Prog M.Stmt M.Reply α) : Alone M f i P p fun _ => P := by
  induction p with
  | ret a => exact ret fun _ hst => hst
  | ask s k ih => exact ask (h s) ih

/-- A precondition that does not speak of the server is a hypothesis. -/
theorem of_pure {φ : Prop} (h : φ → Alone M f i P p Q) : Alone M f i (fun st => φ ∧ P st) p Q :=
  fun st hst => h hst.1 st hst.2

end Alone

/-! ### One operation after the other -/

namespace Machine

/-- Operations one after the other, each of them alone, the server making a move of
its own before each. -/
def serially (f : M.Fate) (c : M.Config) : List (M.Move × M.Op) → Option M.Config
  | [] => some c
  | (m, op) :: rest =>
    (M.runAlone f ⟨c.procs.length, op⟩ (M.prog op) (M.move m c.shared)).bind fun (st, a) =>
      serially f ⟨st, c.procs ++ [⟨op, some (.ret a)⟩]⟩ rest

theorem serially_one {c : M.Config} {m : M.Move} {op : M.Op} {st : M.Shared} {a : M.Result}
    (h : M.runAlone f ⟨c.procs.length, op⟩ (M.prog op) (M.move m c.shared) = some (st, a)) :
    serially f c [(m, op)] = some ⟨st, c.procs ++ [⟨op, some (.ret a)⟩]⟩ := by
  simp [serially, h]

theorem serially_append (c : M.Config) (l l' : List (M.Move × M.Op)) :
    serially f c (l ++ l') = (serially f c l).bind fun c' => serially f c' l' := by
  induction l generalizing c with
  | nil => rfl
  | cons x l ih =>
    obtain ⟨m, op⟩ := x
    simp only [List.cons_append, serially, Option.bind_assoc]
    exact Option.bind_congr fun x _ => ih _

/-- **One after the other is one of the schedules.** -/
theorem reaches_serially {l : List (M.Move × M.Op)} :
    ∀ {c c' : M.Config}, serially f c l = some c' → Reaches c c' := by
  induction l with
  | nil =>
    intro c c' h
    cases h
    exact Reaches.refl c
  | cons x l ih =>
    obtain ⟨m, op⟩ := x
    intro c c' h
    obtain ⟨⟨st, a⟩, hrun, hrest⟩ := Option.bind_eq_some_iff.mp h
    -- The schedule: the server's move, the start of the session, all of its statements.
    have hmove : Reaches c ⟨M.move m c.shared, c.procs⟩ := Reaches.of_step (l := .move m) rfl
    have hstart : Reaches (M := M) ⟨M.move m c.shared, c.procs⟩
        ⟨M.move m c.shared, c.procs ++ [⟨op, some (M.prog op)⟩]⟩ :=
      Reaches.of_step (l := .start op) rfl
    have halone : Reaches (M := M) ⟨M.move m c.shared, c.procs ++ [⟨op, some (M.prog op)⟩]⟩ _ :=
      reaches_runAlone (M.prog op) _ st a List.getElem?_concat_length hrun
    rw [List.set_append_right _ _ (Nat.le_refl _), Nat.sub_self, List.set_cons_zero] at halone
    exact ((hmove.trans hstart).trans halone).trans (ih hrest)

end Machine

end Interleave
