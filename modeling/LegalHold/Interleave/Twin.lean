import LegalHold.Interleave.Alone

/-!
# Two runs side by side

A relational triple compares two programs that run alone, on two servers that a
relation holds between: whenever both run to their ends, so do their results and
the servers they leave.  A program that gets stuck is compared with nothing;
`Alone` tells when none does.

## Main definitions

* `Twin` — two programs, side by side.
* `Matched` — both results are values, or both are the same error.

## Main results

* `Twin.ask`, `Twin.bind`, `Twin.run_bind`, `Twin.conseq` — the rules.
-/

namespace Interleave

variable {M : Machine} {f : M.Fate} {i j : Session M.Op} {α α' β β' ε : Type}

/-- From servers related by `P`, the programs `p` of `i` and `p'` of `j` can only end in
results and servers related by `Q`. -/
def Twin (M : Machine) (f : M.Fate) (i j : Session M.Op) (P : M.Shared → M.Shared → Prop)
    (p : Prog M.Stmt M.Reply α) (p' : Prog M.Stmt M.Reply α')
    (Q : α → α' → M.Shared → M.Shared → Prop) : Prop :=
  ∀ st st', P st st' → ∀ st₁ a st₁' a', M.runAlone f i p st = some (st₁, a) →
    M.runAlone f j p' st' = some (st₁', a') → Q a a' st₁ st₁'

/-- What is required of two results: `R` of two values, and `E` where both are the same
error. -/
def Matched {σ : Type} (R : α → α' → σ → σ → Prop) (E : σ → σ → Prop) :
    Except ε α → Except ε α' → σ → σ → Prop
  | .ok a, .ok a', st, st' => R a a' st st'
  | .error e, .error e', st, st' => e = e' ∧ E st st'
  | _, _, _, _ => False

namespace Twin

variable {P P₁ : M.Shared → M.Shared → Prop} {Q Q₁ : α → α' → M.Shared → M.Shared → Prop}
  {p : Prog M.Stmt M.Reply α} {p' : Prog M.Stmt M.Reply α'}

theorem ret {a : α} {a' : α'} (h : ∀ st st', P st st' → Q a a' st st') :
    Twin M f i j P (.ret a) (.ret a') Q := by
  intro st st' hP st₁ b st₁' b' hrun hrun'
  cases hrun
  cases hrun'
  exact h st st' hP

/-- The rule of consequence, for two programs side by side. -/
theorem conseq (h : Twin M f i j P p p' Q) (hP : ∀ st st', P₁ st st' → P st st')
    (hQ : ∀ a a' st st', Q a a' st st' → Q₁ a a' st st') : Twin M f i j P₁ p p' Q₁ :=
  fun st st' hst st₁ a st₁' a' hrun hrun' =>
    hQ a a' st₁ st₁' (h st st' (hP st st' hst) st₁ a st₁' a' hrun hrun')

/-- The rule of one statement of each of the two programs. -/
theorem ask {s s' : M.Stmt} {k : M.Reply s → Prog M.Stmt M.Reply α}
    {k' : M.Reply s' → Prog M.Stmt M.Reply α'}
    {R : M.Reply s → M.Reply s' → M.Shared → M.Shared → Prop}
    (hexec : ∀ st st', P st st' → ∀ st₁ r st₁' r', M.exec i s f st = some (st₁, r) →
      M.exec j s' f st' = some (st₁', r') → R r r' st₁ st₁')
    (hk : ∀ r r', Twin M f i j (R r r') (k r) (k' r') Q) :
    Twin M f i j P (.ask s k) (.ask s' k') Q := by
  intro st st' hst st₁ a st₁' a' hrun hrun'
  obtain ⟨⟨st₂, r⟩, he, hrest⟩ := Option.bind_eq_some_iff.mp hrun
  obtain ⟨⟨st₂', r'⟩, he', hrest'⟩ := Option.bind_eq_some_iff.mp hrun'
  exact hk r r' st₂ st₂' (hexec st st' hst st₂ r st₂' r' he he') st₁ a st₁' a' hrest hrest'

/-- The rule of sequencing, for two programs side by side. -/
theorem bind {R : α → α' → M.Shared → M.Shared → Prop} {g : α → Prog M.Stmt M.Reply β}
    {g' : α' → Prog M.Stmt M.Reply β'} {Q : β → β' → M.Shared → M.Shared → Prop}
    (h : Twin M f i j P p p' R) (hg : ∀ a a', Twin M f i j (R a a') (g a) (g' a') Q) :
    Twin M f i j P (p.bind g) (p'.bind g') Q := by
  intro st st' hst st₁ b st₁' b' hrun hrun'
  rw [Machine.runAlone_bind] at hrun hrun'
  obtain ⟨⟨st₂, a⟩, hfirst, hrest⟩ := Option.bind_eq_some_iff.mp hrun
  obtain ⟨⟨st₂', a'⟩, hfirst', hrest'⟩ := Option.bind_eq_some_iff.mp hrun'
  exact hg a a' st₂ st₂' (h st st' hst st₂ a st₂' a' hfirst hfirst') st₁ b st₁' b' hrest hrest'

/-- A precondition that does not speak of the servers is a hypothesis. -/
theorem of_pure {φ : Prop} (h : φ → Twin M f i j P p p' Q) :
    Twin M f i j (fun st st' => φ ∧ P st st') p p' Q :=
  fun st st' hst => h hst.1 st st' hst.2

section

variable {E : M.Shared → M.Shared → Prop} {x : ExceptT ε (Prog M.Stmt M.Reply) α}
  {x' : ExceptT ε (Prog M.Stmt M.Reply) α'} {R : α → α' → M.Shared → M.Shared → Prop}

/-- Sequencing in `ExceptT`: an error of the first programs ends both. -/
theorem run_bind {g : α → ExceptT ε (Prog M.Stmt M.Reply) β}
    {g' : α' → ExceptT ε (Prog M.Stmt M.Reply) β'} {Q : β → β' → M.Shared → M.Shared → Prop}
    (h : Twin M f i j P x.run x'.run (Matched R E))
    (hg : ∀ a a', Twin M f i j (R a a') (g a).run (g' a').run (Matched Q E)) :
    Twin M f i j P (x >>= g).run (x' >>= g').run (Matched Q E) := by
  refine bind h fun r r' => ?_
  cases r with
  | ok a =>
    cases r' with
    | ok a' => exact hg a a'
    | error e' => exact fun st st' hst => hst.elim
  | error e =>
    cases r' with
    | ok a' => exact fun st st' hst => hst.elim
    | error e' => exact ret fun st st' hst => hst

theorem run_map {g : α → β} {g' : α' → β'} {Q : β → β' → M.Shared → M.Shared → Prop}
    (h : Twin M f i j P x.run x'.run (Matched (fun a a' => Q (g a) (g' a')) E)) :
    Twin M f i j P (g <$> x).run (g' <$> x').run (Matched Q E) :=
  run_bind h fun _ _ => ret fun _ _ hst => hst

/-- The rule of consequence for the values the programs return. -/
theorem run_conseq {Q : α → α' → M.Shared → M.Shared → Prop}
    (h : Twin M f i j P x.run x'.run (Matched R E))
    (hQ : ∀ a a' st st', R a a' st st' → Q a a' st st') :
    Twin M f i j P x.run x'.run (Matched Q E) := by
  refine h.conseq (fun _ _ hst => hst) fun r r' st st' hr => ?_
  cases r with
  | ok a =>
    cases r' with
    | ok a' => exact hQ a a' st st' hr
    | error e' => exact hr
  | error e =>
    cases r' with
    | ok a' => exact hr
    | error e' => exact hr

end

end Twin

end Interleave
