import LegalHold.Interleave.Prog
import Mathlib.Data.List.Basic
import Mathlib.Data.Nat.Notation

/-!
# Interleaved sessions over a shared server

Any number of sessions, each running the program of one operation, take turns at
a shared server, one statement at a time and in any order.  A session can be
dropped at any moment, and the server can move by itself.  The server decides
whether a statement can run at all: a statement that has to wait is one whose
execution is `none`, so waiting is not a step.

## Main definitions

* `Machine` — operations, statements and the server they run on.
* `Machine.Config`, `Machine.Label`, `Machine.step`, `Machine.run` — the
  interleaved system, executable on a given schedule.
* `Machine.Reaches` — some schedule leads from one configuration to another.
* `Machine.runAlone` — a program run to its end with nothing in between.

## Main results

* `Machine.Reaches.shared` — a reflexive and transitive relation kept by every
  move of the server holds along every run.
* `Machine.reaches_runAlone` — running alone is one of the schedules.
-/

namespace Interleave

/-- One running operation.  Numbers are never reused, so `id` identifies it. -/
structure Session (ω : Type) where
  /-- Which session of the run this is. -/
  id : ℕ
  /-- What it was asked to do. -/
  op : ω

/-- The operations of a system with their programs, and the server that all sessions share. -/
structure Machine where
  /-- What a session can be asked to do. -/
  Op : Type
  /-- What a session can ask of the server. -/
  Stmt : Type
  /-- How the execution of one statement can turn out, chosen by the run. -/
  Fate : Type
  /-- What the server can do by itself. -/
  Move : Type
  /-- The server. -/
  Shared : Type
  /-- What an operation returns. -/
  Result : Type
  /-- The reply to a statement. -/
  Reply : Stmt → Type
  /-- The program of an operation. -/
  prog : Op → Prog Stmt Reply Result
  /-- Execute a statement for a session; `none` while it has to wait. -/
  exec : Session Op → (s : Stmt) → Fate → Shared → Option (Shared × Reply s)
  /-- The session is gone: give up whatever it still holds. -/
  release : Session Op → Shared → Shared
  /-- A move of the server. -/
  move : Move → Shared → Shared

namespace Machine

variable (M : Machine)

/-- A session's place in the run: what is left of its program, or `none` after
it was dropped without returning. -/
structure Proc where
  op : M.Op
  prog : Option (Prog M.Stmt M.Reply M.Result)

/-- A configuration: the state of the server together with all sessions that have been started so
far. -/
structure Config where
  shared : M.Shared
  procs : List M.Proc

/-- One move of the system: a session starts, takes a step or is dropped, or the server moves by
itself. -/
inductive Label where
  /-- A new session starts. -/
  | start (op : M.Op)
  /-- Session `i` executes its next statement. -/
  | step (i : ℕ) (f : M.Fate)
  /-- Session `i` lets go of the server, without returning if it still runs. -/
  | drop (i : ℕ)
  /-- The server moves. -/
  | move (m : M.Move)

variable {M}

/-- One step of the system, `none` when the label is not enabled. -/
def step (c : M.Config) : M.Label → Option M.Config
  | .start op => some { c with procs := c.procs ++ [⟨op, some (M.prog op)⟩] }
  | .step i f =>
    match c.procs[i]? with
    | some ⟨op, some (.ask s k)⟩ =>
      (M.exec ⟨i, op⟩ s f c.shared).map fun (st, r) => ⟨st, c.procs.set i ⟨op, some (k r)⟩⟩
    | _ => none
  | .drop i =>
    match c.procs[i]? with
    | some ⟨op, some (.ask _ _)⟩ => some ⟨M.release ⟨i, op⟩ c.shared, c.procs.set i ⟨op, none⟩⟩
    | some ⟨op, _⟩ => some ⟨M.release ⟨i, op⟩ c.shared, c.procs⟩
    | none => none
  | .move m => some { c with shared := M.move m c.shared }

/-- The configuration after a whole schedule, if every move of it is possible. -/
def run (c : M.Config) : List M.Label → Option M.Config
  | [] => some c
  | l :: ls => (step c l).bind fun c' => run c' ls

/-- Some schedule leads from one configuration to the other. -/
def Reaches (c c' : M.Config) : Prop := ∃ ls, run c ls = some c'

/-- Session `i` was asked for `op` and has returned `r`. -/
def Returned (c : M.Config) (i : ℕ) (op : M.Op) (r : M.Result) : Prop :=
  c.procs[i]? = some ⟨op, some (.ret r)⟩

/-- Executes a program statement after statement with nobody in between, every statement with the
fate `f`. -/
def runAlone (f : M.Fate) (i : Session M.Op) {α : Type} :
    Prog M.Stmt M.Reply α → M.Shared → Option (M.Shared × α)
  | .ret a, st => some (st, a)
  | .ask s k, st => (M.exec i s f st).bind fun (st', r) => runAlone f i (k r) st'

@[simp] theorem run_nil (c : M.Config) : run c [] = some c := rfl

@[simp] theorem run_cons (c : M.Config) (l : M.Label) (ls : List M.Label) :
    run c (l :: ls) = (step c l).bind fun c' => run c' ls := rfl

theorem run_append (c : M.Config) (ls ls' : List M.Label) :
    run c (ls ++ ls') = (run c ls).bind fun c' => run c' ls' := by
  induction ls generalizing c with
  | nil => rfl
  | cons l ls ih =>
    simp only [List.cons_append, run_cons]
    cases step c l with
    | none => rfl
    | some c' => exact ih c'

/-! ### What one step can be -/

/-- The four kinds of step, with everything each of them does. -/
theorem step_cases {c c' : M.Config} {l : M.Label} (h : step c l = some c') :
    (∃ op, c' = ⟨c.shared, c.procs ++ [⟨op, some (M.prog op)⟩]⟩) ∨
    (∃ i f op s k st r, c.procs[i]? = some ⟨op, some (.ask s k)⟩ ∧
      M.exec ⟨i, op⟩ s f c.shared = some (st, r) ∧
      c' = ⟨st, c.procs.set i ⟨op, some (k r)⟩⟩) ∨
    (∃ i p, c.procs[i]? = some p ∧
      ((∀ s k, p.prog ≠ some (.ask s k)) ∧ c' = ⟨M.release ⟨i, p.op⟩ c.shared, c.procs⟩ ∨
        (∃ s k, p.prog = some (.ask s k)) ∧
          c' = ⟨M.release ⟨i, p.op⟩ c.shared, c.procs.set i ⟨p.op, none⟩⟩)) ∨
    (∃ m, c' = ⟨M.move m c.shared, c.procs⟩) := by
  cases l with
  | start op =>
    simp only [step, Option.some.injEq] at h
    exact .inl ⟨op, h.symm⟩
  | step i f =>
    simp only [step] at h
    split at h
    · next op s k hp =>
      obtain ⟨⟨st, r⟩, he, hc⟩ := Option.map_eq_some_iff.mp h
      exact .inr (.inl ⟨i, f, op, s, k, st, r, hp, he, hc.symm⟩)
    · cases h
  | drop i =>
    simp only [step] at h
    split at h
    · next op s k hp =>
      simp only [Option.some.injEq] at h
      exact .inr (.inr (.inl ⟨i, _, hp, .inr ⟨⟨s, k, rfl⟩, h.symm⟩⟩))
    · next op p hask hp =>
      simp only [Option.some.injEq] at h
      refine .inr (.inr (.inl ⟨i, _, hp, .inl ⟨fun s k hp => ?_, h.symm⟩⟩))
      exact hask s k hp
    · cases h
  | move m =>
    simp only [step, Option.some.injEq] at h
    exact .inr (.inr (.inr ⟨m, h.symm⟩))

/-- A session in the table after one has started. -/
theorem procs_started {procs : List M.Proc} {p q : M.Proc} {j : ℕ}
    (h : (procs ++ [p])[j]? = some q) : procs[j]? = some q ∨ (j = procs.length ∧ q = p) := by
  have hlt := (List.getElem?_eq_some_iff.mp h).1
  rw [List.length_append, List.length_singleton] at hlt
  rcases Nat.lt_or_eq_of_le (Nat.le_of_lt_succ hlt) with hlt | rfl
  · rw [List.getElem?_append_left hlt] at h
    exact .inl h
  · rw [List.getElem?_concat_length] at h
    exact .inr ⟨rfl, (Option.some.inj h).symm⟩

/-- A session in the table after session `i` has gone on. -/
theorem procs_set {procs : List M.Proc} {p q : M.Proc} {i j : ℕ}
    (h : (procs.set i p)[j]? = some q) : (i = j ∧ q = p) ∨ (i ≠ j ∧ procs[j]? = some q) := by
  by_cases hij : i = j
  · subst hij
    have hlt := (List.getElem?_eq_some_iff.mp h).1
    rw [List.length_set] at hlt
    rw [List.getElem?_set_self hlt] at h
    exact .inl ⟨rfl, (Option.some.inj h).symm⟩
  · rw [List.getElem?_set_ne hij] at h
    exact .inr ⟨hij, h⟩

/-! ### Runs -/

theorem Reaches.refl (c : M.Config) : Reaches c c := ⟨[], rfl⟩

theorem Reaches.trans {c c' c'' : M.Config} (h : Reaches c c') (h' : Reaches c' c'') :
    Reaches c c'' := by
  obtain ⟨ls, h⟩ := h
  obtain ⟨ls', h'⟩ := h'
  exact ⟨ls ++ ls', by rw [run_append, h]; exact h'⟩

theorem Reaches.of_step {c c' : M.Config} {l : M.Label} (h : step c l = some c') :
    Reaches c c' := ⟨[l], by simp [h]⟩

/-- Induction along a run: what holds at its start and is kept by every enabled step
holds at its end. -/
theorem Reaches.induction {P : M.Config → Prop} {c c' : M.Config} (hr : Reaches c c')
    (h0 : P c) (hs : ∀ c₁ l c₂, Reaches c c₁ → P c₁ → step c₁ l = some c₂ → P c₂) : P c' := by
  obtain ⟨ls, hr⟩ := hr
  -- By induction on the schedule, with the configuration it starts from free.
  suffices h : ∀ (ls : List M.Label) (c₁ : M.Config), Reaches c c₁ → P c₁ →
      run c₁ ls = some c' → P c' from h ls c (Reaches.refl c) h0 hr
  intro ls
  induction ls with
  | nil =>
    intro c₁ _ hp hrun
    simp only [run_nil, Option.some.injEq] at hrun
    exact hrun ▸ hp
  | cons l ls ih =>
    intro c₁ hc hp hrun
    rw [run_cons] at hrun
    obtain ⟨c₂, hstep, hrest⟩ := Option.bind_eq_some_iff.mp hrun
    exact ih c₂ (hc.trans (Reaches.of_step hstep)) (hs c₁ l c₂ hc hp hstep) hrest

/-- A relation on the server that statements, releases and moves all satisfy
holds between the two ends of every run. -/
theorem Reaches.shared {L : M.Shared → M.Shared → Prop} (hrefl : ∀ st, L st st)
    (htrans : ∀ {a b c}, L a b → L b c → L a c)
    (hexec : ∀ {i s f st st' r}, M.exec i s f st = some (st', r) → L st st')
    (hrel : ∀ i st, L st (M.release i st)) (hmove : ∀ m st, L st (M.move m st))
    {c c' : M.Config} (h : Reaches c c') : L c.shared c'.shared := by
  refine h.induction (P := fun d => L c.shared d.shared) (hrefl _) ?_
  intro c₁ l c₂ _ hL hstep
  refine htrans hL ?_
  obtain ⟨op, rfl⟩ | ⟨i, f, op, s, k, st, r, -, he, rfl⟩ |
    ⟨i, p, -, ⟨-, rfl⟩ | ⟨-, rfl⟩⟩ | ⟨m, rfl⟩ := step_cases hstep
  · exact hrefl _
  · exact hexec he
  · exact hrel _ _
  · exact hrel _ _
  · exact hmove _ _

/-- A session keeps its number and its operation. -/
theorem Reaches.op {c c' : M.Config} (h : Reaches c c') {i : ℕ} {p : M.Proc}
    (hp : c.procs[i]? = some p) : ∃ p', c'.procs[i]? = some p' ∧ p'.op = p.op := by
  refine h.induction (P := fun d => ∃ p', d.procs[i]? = some p' ∧ p'.op = p.op) ⟨p, hp, rfl⟩ ?_
  rintro c₁ l c₂ - ⟨p₁, h₁, hop⟩ hstep
  have hi : i < c₁.procs.length := (List.getElem?_eq_some_iff.mp h₁).1
  obtain ⟨op, rfl⟩ | ⟨j, f, op, s, k, st, r, hj, -, rfl⟩ |
    ⟨j, q, hj, ⟨-, rfl⟩ | ⟨-, rfl⟩⟩ | ⟨m, rfl⟩ := step_cases hstep
  · exact ⟨p₁, by simp [List.getElem?_append_left hi, h₁], hop⟩
  · by_cases hij : j = i
    · subst hij
      rw [h₁] at hj
      exact ⟨_, by simp [hi]; rfl, by cases hj; exact hop⟩
    · exact ⟨p₁, by simp [hij, h₁], hop⟩
  · exact ⟨p₁, h₁, hop⟩
  · by_cases hij : j = i
    · subst hij
      rw [h₁] at hj
      exact ⟨_, by simp [hi]; rfl, by cases hj; exact hop⟩
    · exact ⟨p₁, by simp [hij, h₁], hop⟩
  · exact ⟨p₁, h₁, hop⟩

/-- **Running alone is a schedule**: if nothing else moves, the steps of one
session lead to the configuration in which its program has returned. -/
theorem reaches_runAlone {f : M.Fate} {i : ℕ} {op : M.Op} :
    ∀ (p : Prog M.Stmt M.Reply M.Result) (c : M.Config) (st : M.Shared) (a : M.Result),
      c.procs[i]? = some ⟨op, some p⟩ → runAlone f ⟨i, op⟩ p c.shared = some (st, a) →
        Reaches c ⟨st, c.procs.set i ⟨op, some (.ret a)⟩⟩ := by
  intro p
  induction p with
  | ret b =>
    intro c st a hp hr
    simp only [runAlone, Option.some.injEq, Prod.mk.injEq] at hr
    obtain ⟨rfl, rfl⟩ := hr
    obtain ⟨hi, hget⟩ := List.getElem?_eq_some_iff.mp hp
    rw [← hget, List.set_getElem_self]
    exact Reaches.refl c
  | ask s k ih =>
    intro c st a hp hr
    rw [runAlone] at hr
    obtain ⟨⟨st₁, r⟩, he, hrest⟩ := Option.bind_eq_some_iff.mp hr
    have hi : i < c.procs.length := (List.getElem?_eq_some_iff.mp hp).1
    have hstep : step c (.step i f) = some ⟨st₁, c.procs.set i ⟨op, some (k r)⟩⟩ := by
      simp [step, hp, he]
    -- The place of session `i` is overwritten at each of its steps.
    have hgo := ih r ⟨st₁, c.procs.set i ⟨op, some (k r)⟩⟩ st a (by simp [hi]) hrest
    rw [List.set_set] at hgo
    exact (Reaches.of_step hstep).trans hgo

end Machine

end Interleave
