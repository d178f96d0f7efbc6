import LegalHold.Interleave.System

/-!
# Hidden sessions

Operations that nobody else can see.  What their sessions leave behind in the server can be
erased from it, and their steps can be left out of a run: what remains is a run, and all other
sessions are where they were.

## Main definitions

* `Erasure` — which operations are hidden, and a server without what they leave behind.
* `Erasure.config`, `Erasure.ofHidden` — a configuration without them, and the steps that are
  theirs.
* `Erasure.Sound` — nobody else can see them, in configurations of some kind.

## Main results

* `Erasure.Sound.run` — **a run without the steps of hidden sessions is a run**.
-/

namespace Interleave

open Machine

/-- Operations that are to be hidden, and what a server looks like without them. -/
structure Erasure (M : Machine) where
  hidden : M.Op → Bool
  /-- The server without what hidden sessions have left behind. -/
  erase : M.Shared → M.Shared

namespace Erasure

variable {M : Machine} (E : Erasure M)

/-- What is seen of a session: one that is hidden appears to stay where it has started. -/
def proc (p : M.Proc) : M.Proc := if E.hidden p.op then ⟨p.op, some (M.prog p.op)⟩ else p

/-- The configuration without what hidden sessions have done. -/
def config (c : M.Config) : M.Config := ⟨E.erase c.shared, c.procs.map E.proc⟩

/-- The step is one that a hidden session takes, which nobody else is to notice. -/
def ofHidden (c : M.Config) : M.Label → Bool
  | .step i _ => (c.procs[i]?).any fun p => E.hidden p.op
  | .drop i => (c.procs[i]?).any fun p => E.hidden p.op
  | _ => false

/-- In configurations with `inv`, nobody else can see what hidden sessions do. -/
structure Sound (inv : M.Config → Prop) : Prop where
  step : ∀ {c l d}, inv c → Machine.step c l = some d → inv d
  hidden_exec : ∀ {c i op s k f st r}, inv c → c.procs[i]? = some ⟨op, some (.ask s k)⟩ →
    E.hidden op = true → M.exec ⟨i, op⟩ s f c.shared = some (st, r) →
      E.erase st = E.erase c.shared
  exec : ∀ {c i op s k f st r}, inv c → c.procs[i]? = some ⟨op, some (.ask s k)⟩ →
    E.hidden op = false → M.exec ⟨i, op⟩ s f c.shared = some (st, r) →
      M.exec ⟨i, op⟩ s f (E.erase c.shared) = some (E.erase st, r)
  hidden_release : ∀ {c i op p}, inv c → c.procs[i]? = some ⟨op, p⟩ → E.hidden op = true →
    E.erase (M.release ⟨i, op⟩ c.shared) = E.erase c.shared
  release : ∀ {c i op p}, inv c → c.procs[i]? = some ⟨op, p⟩ → E.hidden op = false →
    M.release ⟨i, op⟩ (E.erase c.shared) = E.erase (M.release ⟨i, op⟩ c.shared)
  move : ∀ m st, M.move m (E.erase st) = E.erase (M.move m st)

variable {E} {inv : M.Config → Prop} {c d : M.Config} {l : M.Label}

theorem proc_hidden {p : M.Proc} (h : E.hidden p.op = true) :
    E.proc p = ⟨p.op, some (M.prog p.op)⟩ := if_pos h

theorem proc_shown {p : M.Proc} (h : E.hidden p.op = false) : E.proc p = p :=
  if_neg (by rw [h]; exact Bool.false_ne_true)

/-- A session of a configuration without the hidden ones. -/
theorem config_procs {i : ℕ} {p : M.Proc} (h : c.procs[i]? = some p) :
    (E.config c).procs[i]? = some (E.proc p) := by
  simp [config, h]

/-- Wherever a hidden session has gone, it stays where it has started. -/
theorem map_set_hidden {i : ℕ} {p q : M.Proc} (hi : c.procs[i]? = some p)
    (hp : E.hidden p.op = true) (hop : q.op = p.op) :
    (c.procs.set i q).map E.proc = c.procs.map E.proc := by
  have hq : E.proc q = E.proc p := by
    rw [proc_hidden hp, proc_hidden (hop ▸ hp), hop]
  obtain ⟨hlt, hget⟩ := List.getElem?_eq_some_iff.mp hi
  rw [List.map_set, hq, ← hget, ← List.getElem_map E.proc (h := by simpa using hlt),
    List.set_getElem_self]

/-- Whose step it is, a hidden session or another one, is known from the beginning of the run. -/
theorem ofHidden_eq {c' : M.Config} (hstep : Machine.step c l = some c') (hr : Reaches c d) :
    E.ofHidden d l = E.ofHidden c l := by
  have hany : ∀ {i : ℕ} {p : M.Proc}, c.procs[i]? = some p →
      ((d.procs[i]?).any fun p : M.Proc => E.hidden p.op) =
        (c.procs[i]?).any fun p : M.Proc => E.hidden p.op := by
    intro i p hp
    obtain ⟨p', hp', hop⟩ := hr.op hp
    rw [hp, hp']
    simp [hop]
  cases l with
  | start op => rfl
  | move m => rfl
  | step i f =>
    cases hi : c.procs[i]? with
    | none => simp [Machine.step, hi] at hstep
    | some p => exact hany hi
  | drop i =>
    cases hi : c.procs[i]? with
    | none => simp [Machine.step, hi] at hstep
    | some p => exact hany hi

namespace Sound

/-- **A step of a hidden session is not seen.** -/
theorem step_hidden (hE : E.Sound inv) (h : inv c) (hl : E.ofHidden c l = true)
    (hstep : Machine.step c l = some d) : E.config d = E.config c := by
  cases l with
  | start op => cases hl
  | move m => cases hl
  | step i f =>
    simp only [Machine.step] at hstep
    split at hstep
    · next op s k hi =>
      obtain ⟨⟨st, r⟩, he, rfl⟩ := Option.map_eq_some_iff.mp hstep
      have hop : E.hidden op = true := by simpa [ofHidden, hi] using hl
      have herase := hE.hidden_exec h hi hop he
      refine congrArg₂ Config.mk herase (map_set_hidden hi hop ?_)
      rfl
    · cases hstep
  | drop i =>
    simp only [Machine.step] at hstep
    split at hstep
    · next op s k hi =>
      cases hstep
      have hop : E.hidden op = true := by simpa [ofHidden, hi] using hl
      have hrelease := hE.hidden_release h hi hop
      refine congrArg₂ Config.mk hrelease (map_set_hidden hi hop ?_)
      rfl
    · next op p _ hi =>
      cases hstep
      have hop : E.hidden op = true := by simpa [ofHidden, hi] using hl
      have hrelease := hE.hidden_release h hi hop
      exact congrArg₂ Config.mk hrelease rfl
    · cases hstep

/-- **Any other step can be made without them.** -/
theorem step_shown (hE : E.Sound inv) (h : inv c) (hl : E.ofHidden c l = false)
    (hstep : Machine.step c l = some d) : Machine.step (E.config c) l = some (E.config d) := by
  -- Erasing goes along with updating a session that is shown.
  have hset : ∀ {i : ℕ} {op : M.Op} {st : M.Shared} {q}, E.hidden op = false →
      (⟨st, (c.procs.map E.proc).set i ⟨op, q⟩⟩ : M.Config) =
        ⟨st, (c.procs.set i ⟨op, q⟩).map E.proc⟩ := by
    intro i op st q hop
    rw [List.map_set, proc_shown (p := ⟨op, q⟩) hop]
  cases l with
  | start op =>
    cases hstep
    have hnew : E.proc ⟨op, some (M.prog op)⟩ = ⟨op, some (M.prog op)⟩ := by
      unfold proc
      split <;> rfl
    simp [Machine.step, config, hnew]
  | move m =>
    cases hstep
    simp only [Machine.step, config, hE.move]
  | step i f =>
    simp only [Machine.step] at hstep
    split at hstep
    · next op s k hi =>
      obtain ⟨⟨st, r⟩, he, rfl⟩ := Option.map_eq_some_iff.mp hstep
      have hop : E.hidden op = false := by simpa [ofHidden, hi] using hl
      have hi' := config_procs (E := E) hi
      rw [proc_shown hop] at hi'
      simp only [Machine.step, hi']
      exact Option.map_eq_some_iff.mpr ⟨_, hE.exec h hi hop he, hset hop⟩
    · cases hstep
  | drop i =>
    simp only [Machine.step] at hstep
    split at hstep
    · next op s k hi =>
      cases hstep
      have hop : E.hidden op = false := by simpa [ofHidden, hi] using hl
      have hi' := config_procs (E := E) hi
      rw [proc_shown hop] at hi'
      simp only [Machine.step, hi']
      exact congrArg some ((congrArg₂ Config.mk (hE.release h hi hop) rfl).trans (hset hop))
    · next op p hask hi =>
      cases hstep
      have hop : E.hidden op = false := by simpa [ofHidden, hi] using hl
      have hi' := config_procs (E := E) hi
      rw [proc_shown hop] at hi'
      simp only [Machine.step, hi']
      exact congrArg some (congrArg₂ Config.mk (hE.release h hi hop) rfl)
    · cases hstep

/-- **A run without the steps of hidden sessions is a run**, and leads where the whole run does,
but for what they have left behind. -/
theorem run (hE : E.Sound inv) {ls : List M.Label} (h : inv c)
    (hrun : Machine.run c ls = some d) :
    Machine.run (E.config c) (ls.filter fun l => !E.ofHidden d l) = some (E.config d) := by
  induction ls generalizing c with
  | nil =>
    cases hrun
    rfl
  | cons l ls ih =>
    rw [run_cons] at hrun
    obtain ⟨c₁, hstep, hrest⟩ := Option.bind_eq_some_iff.mp hrun
    have hsame := ofHidden_eq (E := E) hstep ((Reaches.of_step hstep).trans ⟨ls, hrest⟩)
    have hgo := ih (hE.step h hstep) hrest
    cases hl : E.ofHidden c l with
    | true =>
      rw [hE.step_hidden h hl hstep] at hgo
      rw [List.filter_cons_of_neg (by rw [hsame, hl]; decide)]
      exact hgo
    | false =>
      rw [List.filter_cons_of_pos (by rw [hsame, hl]; rfl), run_cons,
        hE.step_shown h hl hstep]
      exact hgo

end Sound

end Erasure

end Interleave
