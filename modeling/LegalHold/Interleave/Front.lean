import LegalHold.Interleave.System

/-!
# Fronts

A front offers calls instead of the operations of a machine.  It has a state of its
own, its gate, and looks at it once, when a call comes in; after that a call is either
answered by the front itself or passed on as one operation, whose result becomes the
answer.  What a machine with a front does is what the machine does without it.

## Main definitions

* `Prog.lift`, `Prog.serve` — a program of the machine as one of its front, and one whose
  statements are answered by others.
* `Front`, `Front.machine` — a front, and the machine that it makes.
* `Front.Shadows`, `Front.Projects` — what stands behind a call, and behind a
  configuration.
* `Front.Shut` — the gate answers every call that has come in since.

## Main results

* `Front.Projects.step` — one step with the front is some steps without it.
* `Front.Projects.reaches` — **every run with the front is one without it**.
* `Front.Shut.run` — **while the gate is shut no call gets through**.
-/

namespace Interleave

open Machine

/-- The reply to a statement behind a gate; without a statement it is the gate itself. -/
abbrev GatedReply {σ : Type} (γ : Type) (ρ : σ → Type) : Option σ → Type
  | none => γ
  | some s => ρ s

/-- The same program, the statements of which are asked behind a gate. -/
def Prog.lift {σ : Type} {ρ : σ → Type} {α : Type} (γ : Type) :
    Prog σ ρ α → Prog (Option σ) (GatedReply γ ρ) α
  | .ret a => .ret a
  | .ask s k => .ask (some s) fun r => (k r).lift γ

/-- The same program, the statements of which are answered by programs over other statements. -/
def Prog.serve {σ σ' : Type} {ρ : σ → Type} {ρ' : σ' → Type} {α : Type}
    (h : (s : σ) → Prog σ' ρ' (ρ s)) : Prog σ ρ α → Prog σ' ρ' α
  | .ret a => .ret a
  | .ask s k => (h s).bind fun r => (k r).serve h

/-- The session has left no trace, for a property `Q` that says so, whatever others do. -/
structure OthersKeep {M : Machine} (Q : Session M.Op → M.Shared → Prop) : Prop where
  exec : ∀ {i j s f st st' r}, j.id ≠ i.id → Q j st → M.exec i s f st = some (st', r) → Q j st'
  release : ∀ {i j st}, Q j st → Q j (M.release i st)
  move : ∀ {m j st}, Q j st → Q j (M.move m st)

/-- A front to the machine `M`: a gate, and calls that are either answered there or passed on as
operations of `M`. -/
structure Front (M : Machine) where
  /-- Its own state. -/
  Gate : Type
  /-- What the gate can do by itself. -/
  Turn : Type
  turn : Turn → Gate → Gate
  /-- What is asked of the front. -/
  Call : Type
  /-- What it answers. -/
  Answer : Type
  /-- The program of a call that finds the gate so. -/
  prog : Gate → Call → Prog M.Stmt M.Reply Answer
  /-- The operation that a call is passed on as. -/
  op : Call → M.Op
  /-- What becomes of its result. -/
  answer : Call → M.Result → Answer
  /-- A call is answered, or passed on. -/
  law : ∀ g call, (∃ a, prog g call = .ret a) ∨
    prog g call = (M.prog (op call)).bind fun r => .ret (answer call r)

namespace Front

variable {M : Machine} (F : Front M)

/-- The session of the machine that stands behind one of the front. -/
def behind (i : Session F.Call) : Session M.Op := ⟨i.id, F.op i.op⟩

/-- The machine together with its front, as a machine of its own. -/
@[reducible] def machine : Machine where
  Op := F.Call
  Stmt := Option M.Stmt
  Fate := M.Fate
  Move := F.Turn ⊕ M.Move
  Shared := F.Gate × M.Shared
  Result := F.Answer
  Reply := GatedReply F.Gate M.Reply
  prog call := .ask none fun g => (F.prog g call).lift F.Gate
  exec
    | _, none, _, st => some (st, st.1)
    | i, some s, f, st => (M.exec (F.behind i) s f st.2).map fun (st', r) => ((st.1, st'), r)
  release i st := (st.1, M.release (F.behind i) st.2)
  move
    | .inl t, st => (F.turn t st.1, st.2)
    | .inr m, st => (st.1, M.move m st.2)

/-- Who has left no trace behind the front has left none with it. -/
theorem othersKeep {Q : Session M.Op → M.Shared → Prop} (hQ : OthersKeep Q) :
    OthersKeep (M := F.machine) fun i st => Q (F.behind i) st.2 where
  exec {i j s f st st' r} hne h he := by
    cases s with
    | none =>
      cases he
      exact h
    | some s =>
      obtain ⟨⟨st₁, r₁⟩, he, heq⟩ := Option.map_eq_some_iff.mp he
      cases heq
      exact hQ.exec (i := F.behind i) (j := F.behind j) hne h he
  release h := hQ.release h
  move {m j st} h := by
    cases m with
    | inl t => exact h
    | inr m => exact hQ.move h

/-- What is left of the operation behind a call, by what is left of the call. -/
inductive Shadows (Q : Session M.Op → M.Shared → Prop) (i : Session F.Call) (st : M.Shared) :
    Option (Prog (Option M.Stmt) (GatedReply F.Gate M.Reply) F.Answer) →
      Option (Prog M.Stmt M.Reply M.Result) → Prop
  /-- It has not looked at the gate. -/
  | arrived (h : Q (F.behind i) st) :
    Shadows Q i st (some (F.machine.prog i.op)) (some (M.prog (F.op i.op)))
  /-- The front has answered, and nothing has been asked of the machine. -/
  | settled {g : F.Gate} {a : F.Answer} {q} (hprog : F.prog g i.op = .ret a)
      (hq : ∀ q', q = some q' → q' = M.prog (F.op i.op)) (h : Q (F.behind i) st) :
    Shadows Q i st (some (.ret a)) q
  /-- The operation is under way, and its result becomes the answer. -/
  | passed {g : F.Gate} {q : Prog M.Stmt M.Reply M.Result}
      (hprog : F.prog g i.op = (M.prog (F.op i.op)).bind fun r => .ret (F.answer i.op r)) :
    Shadows Q i st (some ((q.bind fun r => .ret (F.answer i.op r)).lift F.Gate)) (some q)
  /-- The call was dropped before it had looked at the gate. -/
  | left {q} (hq : ∀ q', q = some q' → q' = M.prog (F.op i.op)) (h : Q (F.behind i) st) :
    Shadows Q i st none q
  /-- It was dropped on its way. -/
  | dropped {g : F.Gate}
      (hprog : F.prog g i.op = (M.prog (F.op i.op)).bind fun r => .ret (F.answer i.op r)) :
    Shadows Q i st none none

/-- The configuration `c'` is what stands behind `c`. -/
structure Projects (Q : Session M.Op → M.Shared → Prop) (c : F.machine.Config)
    (c' : M.Config) : Prop where
  shared : c'.shared = c.shared.2
  length : c'.procs.length = c.procs.length
  procs : ∀ i call p, c.procs[i]? = some ⟨call, p⟩ →
    ∃ q, c'.procs[i]? = some ⟨F.op call, q⟩ ∧ F.Shadows Q ⟨i, call⟩ c.shared.2 p q
  fresh : ∀ i : Session M.Op, c.procs.length ≤ i.id → Q i c.shared.2

variable {F} {Q : Session M.Op → M.Shared → Prop} {c d : F.machine.Config} {c' : M.Config}

/-- The rest of a call goes with the rest of its operation, however the machine has moved. -/
theorem Shadows.mono {i : Session F.Call} {st st' : M.Shared} {p q}
    (hQ : Q (F.behind i) st → Q (F.behind i) st') (h : F.Shadows Q i st p q) :
    F.Shadows Q i st' p q := by
  cases h with
  | arrived h => exact .arrived (hQ h)
  | settled hprog hq h => exact .settled hprog hq (hQ h)
  | passed hprog => exact .passed hprog
  | left hq h => exact .left hq (hQ h)
  | dropped hprog => exact .dropped hprog

/-- What a call is: it has left no trace and can only be answered by the front, or it has been
passed on, and its answer is what becomes of the result. -/
theorem Shadows.outcome {i : Session F.Call} {st : M.Shared} {p q}
    (h : F.Shadows Q i st p q) :
    (Q (F.behind i) st ∧ ∀ a, p = some (.ret a) → ∃ g, F.prog g i.op = .ret a) ∨
      (∃ g, F.prog g i.op = (M.prog (F.op i.op)).bind fun r => .ret (F.answer i.op r)) ∧
        ∀ a, p = some (.ret a) → ∃ r, q = some (.ret r) ∧ a = F.answer i.op r := by
  cases h with
  | arrived h => exact .inl ⟨h, fun a ha => by cases ha⟩
  | settled hprog hq h =>
    refine .inl ⟨h, fun a ha => ?_⟩
    cases ha
    exact ⟨_, hprog⟩
  | @passed g q hprog =>
    refine .inr ⟨⟨g, hprog⟩, fun a ha => ?_⟩
    cases q with
    | ret r =>
      cases ha
      exact ⟨r, rfl, rfl⟩
    | ask s k => cases ha
  | left hq h => exact .inl ⟨h, fun a ha => by cases ha⟩
  | dropped hprog => exact .inr ⟨⟨_, hprog⟩, fun a ha => by cases ha⟩

namespace Projects

/-- One call has gone on, and what stands behind it too. -/
theorem set (h : F.Projects Q c c') {i : ℕ} {call : F.Call}
    {p p' : Option (Prog (Option M.Stmt) (GatedReply F.Gate M.Reply) F.Answer)}
    {q' : Option (Prog M.Stmt M.Reply M.Result)} (hi : c.procs[i]? = some ⟨call, p⟩) (g : F.Gate)
    {st : M.Shared} (hself : F.Shadows Q ⟨i, call⟩ st p' q')
    (hothers : ∀ j : Session M.Op, j.id ≠ i → Q j c.shared.2 → Q j st) :
    F.Projects Q ⟨(g, st), c.procs.set i ⟨call, p'⟩⟩ ⟨st, c'.procs.set i ⟨F.op call, q'⟩⟩ where
  shared := rfl
  length := by simp [h.length]
  procs j call' p₁ hj := by
    rcases procs_set hj with ⟨rfl, heq⟩ | ⟨hne, hj⟩
    · cases heq
      have hlt := (List.getElem?_eq_some_iff.mp hi).1
      exact ⟨q', by simp [h.length, hlt], hself⟩
    · obtain ⟨q, hq, hshadow⟩ := h.procs j call' p₁ hj
      exact ⟨q, by rw [List.getElem?_set_ne hne]; exact hq, hshadow.mono (hothers _ hne.symm)⟩
  fresh j hj := by
    have hlt := (List.getElem?_eq_some_iff.mp hi).1
    rw [List.length_set] at hj
    exact hothers j (by omega) (h.fresh j hj)

/-- A call has come in, and the session of its operation has started. -/
theorem start (h : F.Projects Q c c') (call : F.Call) :
    F.Projects Q ⟨c.shared, c.procs ++ [⟨call, some (F.machine.prog call)⟩]⟩
      ⟨c'.shared, c'.procs ++ [⟨F.op call, some (M.prog (F.op call))⟩]⟩ where
  shared := h.shared
  length := by simp [h.length]
  procs j call' p hj := by
    rcases procs_started hj with hj | ⟨rfl, heq⟩
    · obtain ⟨q, hq, hshadow⟩ := h.procs j call' p hj
      have hlt := (List.getElem?_eq_some_iff.mp hq).1
      exact ⟨q, by rw [List.getElem?_append_left hlt]; exact hq, hshadow⟩
    · cases heq
      refine ⟨_, by rw [← h.length, List.getElem?_concat_length], .arrived ?_⟩
      exact h.fresh _ (Nat.le_refl _)
  fresh j hj := by
    rw [List.length_append] at hj
    exact h.fresh j (by omega)

/-- The projection is kept when the gate turns or the machine behind it moves. -/
theorem move (h : F.Projects Q c c') (g : F.Gate) {st : M.Shared}
    (hothers : ∀ j : Session M.Op, Q j c.shared.2 → Q j st) :
    F.Projects Q ⟨(g, st), c.procs⟩ ⟨st, c'.procs⟩ where
  shared := rfl
  length := h.length
  procs j call p hj := by
    obtain ⟨q, hq, hshadow⟩ := h.procs j call p hj
    exact ⟨q, hq, hshadow.mono (hothers _)⟩
  fresh j hj := hothers j (h.fresh j hj)

end Projects

/-- A call that has found the gate goes on as the law says. -/
theorem shadows_entered {i : Session F.Call} {st : M.Shared} (g : F.Gate)
    (h : Q (F.behind i) st) :
    F.Shadows Q i st (some ((F.prog g i.op).lift F.Gate)) (some (M.prog (F.op i.op))) := by
  rcases F.law g i.op with ⟨a, hprog⟩ | hprog
  · rw [hprog]
    exact .settled hprog (fun q' hq' => (Option.some.inj hq').symm) h
  · rw [hprog]
    exact .passed hprog

/-- The statement that a call asks next is the one that its operation asks. -/
theorem Shadows.asks {i : Session F.Call} {st : M.Shared} {s : Option M.Stmt} {k q}
    (h : F.Shadows Q i st (some (.ask s k)) q) :
    (s = none ∧ HEq k (fun g => (F.prog g i.op).lift F.Gate) ∧ q = some (M.prog (F.op i.op)) ∧
        Q (F.behind i) st) ∨
      ∃ (g : F.Gate) (s' : M.Stmt) (k' : M.Reply s' → Prog M.Stmt M.Reply M.Result),
        F.prog g i.op = (M.prog (F.op i.op)).bind (fun r => .ret (F.answer i.op r)) ∧
        s = some s' ∧ q = some (.ask s' k') ∧
        HEq k fun r => ((k' r).bind fun r => .ret (F.answer i.op r)).lift F.Gate := by
  generalize hp : some (Prog.ask s k) = p at h
  cases h with
  | arrived hQ =>
    cases hp
    exact .inl ⟨rfl, HEq.rfl, rfl, hQ⟩
  | @passed g q hprog =>
    cases q with
    | ret r => cases hp
    | ask s' k' =>
      cases hp
      exact .inr ⟨g, s', k', hprog, rfl, rfl, HEq.rfl⟩
  | _ => cases hp

/-- Dropping a session is a step that is always there, and it stops the session if it is still
running. -/
theorem step_drop {i : ℕ} {op : M.Op} {q : Option (Prog M.Stmt M.Reply M.Result)}
    (hi : c'.procs[i]? = some ⟨op, q⟩) : ∃ q', (q' = q ∨ q' = none) ∧
      ((∃ s k, q = some (.ask s k)) → q' = none) ∧ ((∀ s k, q ≠ some (.ask s k)) → q' = q) ∧
      step c' (.drop i) = some ⟨M.release ⟨i, op⟩ c'.shared, c'.procs.set i ⟨op, q'⟩⟩ := by
  obtain ⟨hlt, hget⟩ := List.getElem?_eq_some_iff.mp hi
  have hsame : c'.procs.set i ⟨op, q⟩ = c'.procs := by rw [← hget, List.set_getElem_self]
  match q with
  | none =>
    exact ⟨none, .inl rfl, fun _ => rfl, fun _ => rfl, by simp only [step, hi, hsame]⟩
  | some (.ret r) =>
    refine ⟨some (.ret r), .inl rfl, ?_, fun _ => rfl, by simp only [step, hi, hsame]⟩
    rintro ⟨s, k, heq⟩
    cases heq
  | some (.ask s k) =>
    exact ⟨none, .inr rfl, fun _ => rfl, fun h => absurd rfl (h s k), by simp only [step, hi]⟩

/-- The session of a call that has nothing more to ask lets go, and so does its operation. -/
theorem Shadows.released {i : Session F.Call} {st : M.Shared} {p q q'}
    (hQ : Q (F.behind i) st → Q (F.behind i) (M.release (F.behind i) st))
    (h : F.Shadows Q i st p q) (hover : ∀ s k, p ≠ some (.ask s k)) (hq' : q' = q ∨ q' = none)
    (hkept : (∀ s k, q ≠ some (.ask s k)) → q' = q) :
    F.Shadows Q i (M.release (F.behind i) st) p q' := by
  have hidle : (∀ q₁, q = some q₁ → q₁ = M.prog (F.op i.op)) →
      ∀ q₁, q' = some q₁ → q₁ = M.prog (F.op i.op) := by
    rintro hq q₁ rfl
    exact hq q₁ (hq'.resolve_right (by simp)).symm
  cases h with
  | arrived h => exact absurd rfl (hover _ _)
  | settled hprog hq h => exact .settled hprog (hidle hq) (hQ h)
  | @passed g q₁ hprog =>
    cases q₁ with
    | ret r =>
      rw [hkept fun s k hs => by cases hs]
      exact .passed hprog
    | ask s k => exact absurd rfl (hover _ _)
  | left hq h => exact .left (hidle hq) (hQ h)
  | dropped hprog =>
    rw [hkept fun s k hs => by cases hs]
    exact .dropped hprog

/-- A call is dropped on its way, and its operation with it. -/
theorem Shadows.abandoned {i : Session F.Call} {st : M.Shared} {s : Option M.Stmt} {k q q'}
    (hQ : Q (F.behind i) st → Q (F.behind i) (M.release (F.behind i) st))
    (h : F.Shadows Q i st (some (.ask s k)) q) (hq' : q' = q ∨ q' = none)
    (hgone : (∃ s k, q = some (.ask s k)) → q' = none) :
    F.Shadows Q i (M.release (F.behind i) st) none q' := by
  rcases h.asks with ⟨-, -, rfl, hfresh⟩ | ⟨g, s', k', hprog, -, rfl, -⟩
  · refine .left (fun q₁ hq₁ => ?_) (hQ hfresh)
    rcases hq' with rfl | rfl
    · exact (Option.some.inj hq₁).symm
    · cases hq₁
  · rw [hgone ⟨s', k', rfl⟩]
    exact .dropped hprog

/-- **One step with the front is some steps without it.** -/
theorem Projects.step (hQ : OthersKeep Q) (h : F.Projects Q c c') {l : F.machine.Label}
    (hstep : Machine.step c l = some d) : ∃ d', Reaches c' d' ∧ F.Projects Q d d' := by
  obtain ⟨⟨g, st⟩, procs⟩ := c
  obtain ⟨st', procs'⟩ := c'
  obtain rfl : st' = st := h.shared
  obtain ⟨call, rfl⟩ | ⟨i, f, call, s, k, st, r, hi, he, rfl⟩ |
    ⟨i, ⟨call, p⟩, hi, ⟨hover, rfl⟩ | ⟨⟨s, k, hask⟩, rfl⟩⟩ | ⟨m, rfl⟩ := step_cases hstep
  · exact ⟨_, Reaches.of_step (l := .start (F.op call)) rfl, h.start call⟩
  · obtain ⟨q, hq, hshadow⟩ := h.procs i call _ hi
    rcases hshadow.asks with ⟨rfl, hk, rfl, hfresh⟩ | ⟨g', s', k', hprog, rfl, rfl, hk⟩
    -- It looks at the gate, which nobody else sees.
    · cases hk
      cases he
      have hset := h.set hi g (shadows_entered g hfresh) fun j _ hj => hj
      obtain ⟨hlt, hget⟩ := List.getElem?_eq_some_iff.mp hq
      rw [← hget, List.set_getElem_self hlt] at hset
      exact ⟨_, Reaches.refl _, hset⟩
    -- It asks the machine what its operation asks.
    · cases hk
      obtain ⟨⟨st₁, r₁⟩, he, heq⟩ := Option.map_eq_some_iff.mp he
      cases heq
      refine ⟨_, Reaches.of_step (l := .step i f) ?_,
        h.set hi g (.passed hprog) fun j hj hQj => hQ.exec hj hQj he⟩
      simp only [Machine.step, hq]
      exact Option.map_eq_some_iff.mpr ⟨_, he, rfl⟩
  · obtain ⟨q, hq, hshadow⟩ := h.procs i call p hi
    obtain ⟨q', hq', hgone, hkept, hdrop⟩ := step_drop hq
    have hself := hshadow.released (fun hj => hQ.release hj) hover hq' hkept
    have hset := h.set hi g hself fun j _ hj => hQ.release hj
    obtain ⟨hlt, hget⟩ := List.getElem?_eq_some_iff.mp hi
    rw [← hget, List.set_getElem_self hlt] at hset
    exact ⟨_, Reaches.of_step hdrop, hset⟩
  · obtain rfl : p = _ := hask
    obtain ⟨q, hq, hshadow⟩ := h.procs i call _ hi
    obtain ⟨q', hq', hgone, hkept, hdrop⟩ := step_drop hq
    have hself := hshadow.abandoned (fun hj => hQ.release hj) hq' hgone
    exact ⟨_, Reaches.of_step hdrop, h.set hi g hself fun j _ hj => hQ.release hj⟩
  · cases m with
    | inl t => exact ⟨_, Reaches.refl _, h.move (F.turn t g) fun _ hj => hj⟩
    | inr m => exact ⟨_, Reaches.of_step (l := .move m) rfl, h.move g fun j hj => hQ.move hj⟩

/-- **Every run with the front is one without it**, and what is returned with it comes from
what is returned without it. -/
theorem Projects.reaches (hQ : OthersKeep Q) (h : F.Projects Q c c') (hr : Reaches c d) :
    ∃ d', Reaches c' d' ∧ F.Projects Q d d' := by
  refine hr.induction (P := fun d => ∃ d', Reaches c' d' ∧ F.Projects Q d d')
    ⟨c', Reaches.refl c', h⟩ ?_
  rintro c₁ l c₂ - ⟨d', hd', hproj⟩ hstep
  obtain ⟨d'', hd'', hproj'⟩ := hproj.step hQ hstep
  exact ⟨d'', hd'.trans hd'', hproj'⟩

/-! ### A gate that lets nothing through -/

/-- All that a call can be while the gate `g` answers it: not yet there, answered or
dropped. -/
def Parked (g : F.Gate) (call : F.Call)
    (p : Option (Prog (Option M.Stmt) (GatedReply F.Gate M.Reply) F.Answer)) : Prop :=
  p = some (F.machine.prog call) ∨ (∃ a, F.prog g call = .ret a ∧ p = some (.ret a)) ∨ p = none

/-- The gate is `g`, and the calls from number `n` on are answered by it and have left no
trace. -/
structure Shut (Q : Session M.Op → M.Shared → Prop) (g : F.Gate) (n : ℕ)
    (c : F.machine.Config) : Prop where
  gate : c.shared.1 = g
  procs : ∀ i call p, n ≤ i → c.procs[i]? = some ⟨call, p⟩ → F.Parked g call p
  untouched : ∀ i : Session M.Op, n ≤ i.id → Q i c.shared.2

/-- Only a turn changes the gate: every other step leaves it as it is. -/
theorem step_gate {l : F.machine.Label} (hstep : Machine.step c l = some d) :
    d.shared.1 = c.shared.1 ∨ ∃ t, l = .move (.inl t) ∧ d.shared.1 = F.turn t c.shared.1 := by
  cases l with
  | move m =>
    cases hstep
    cases m with
    | inl t => exact .inr ⟨t, rfl, rfl⟩
    | inr m => exact .inl rfl
  | start call =>
    cases hstep
    exact .inl rfl
  | drop i =>
    obtain ⟨q, hq⟩ : ∃ q, c.procs[i]? = some q := by
      cases hi : c.procs[i]? with
      | none => simp [step, hi] at hstep
      | some q => exact ⟨q, rfl⟩
    obtain ⟨q', -, -, -, hdrop⟩ := step_drop (M := F.machine) hq
    cases hstep.symm.trans hdrop
    exact .inl rfl
  -- A statement is asked at the gate, which stays as it is, or of the machine behind it.
  | step i f =>
    simp only [Machine.step] at hstep
    split at hstep
    · next call s k _ =>
      obtain ⟨⟨st, r⟩, he, rfl⟩ := Option.map_eq_some_iff.mp hstep
      cases s with
      | none =>
        cases he
        exact .inl rfl
      | some s =>
        obtain ⟨⟨st', r'⟩, -, heq⟩ := Option.map_eq_some_iff.mp he
        cases heq
        exact .inl rfl
    · cases hstep

/-- A step that leaves the gate as it is lets no call through. -/
theorem Shut.step (hQ : OthersKeep Q) {g : F.Gate} {n : ℕ}
    (hg : ∀ call, ∃ a, F.prog g call = .ret a) (h : F.Shut Q g n c) {l : F.machine.Label}
    (hgate : d.shared.1 = g) (hstep : Machine.step c l = some d) : F.Shut Q g n d := by
  obtain ⟨⟨g', st⟩, procs⟩ := c
  obtain rfl : g' = g := h.gate
  obtain ⟨call, rfl⟩ | ⟨i, f, call, s, k, st', r, hi, he, rfl⟩ |
    ⟨i, ⟨call, p⟩, hi, ⟨-, rfl⟩ | ⟨-, rfl⟩⟩ | ⟨m, rfl⟩ := step_cases hstep
  · refine ⟨rfl, fun i call' p hn hi => ?_, h.untouched⟩
    rcases procs_started hi with hi | ⟨rfl, heq⟩
    · exact h.procs i call' p hn hi
    · cases heq
      exact .inl rfl
  · by_cases hn : n ≤ i
    -- It finds the gate shut.
    · rcases h.procs i call _ hn hi with hp | ⟨a, -, hp⟩ | hp
      · cases hp
        cases he
        refine ⟨rfl, fun j call' p hn' hj => ?_, h.untouched⟩
        rcases procs_set hj with ⟨rfl, heq⟩ | ⟨-, hj⟩
        · cases heq
          obtain ⟨a, ha⟩ := hg call
          have hret : (F.prog g' call).lift F.Gate = .ret a := by
            rw [ha]
            rfl
          exact .inr (.inl ⟨a, ha, congrArg some hret⟩)
        · exact h.procs j call' p hn' hj
      · cases hp
      · cases hp
    -- It is one of those that came before.
    · refine ⟨hgate, fun j call' p hn' hj => ?_, fun j hn' => ?_⟩
      · rcases procs_set hj with ⟨rfl, -⟩ | ⟨-, hj⟩
        · exact absurd hn' hn
        · exact h.procs j call' p hn' hj
      · cases s with
        | none =>
          cases he
          exact h.untouched j hn'
        | some s =>
          obtain ⟨⟨st₁, r₁⟩, he, heq⟩ := Option.map_eq_some_iff.mp he
          cases heq
          exact hQ.exec (fun hid : j.id = i => hn (hid ▸ hn')) (h.untouched j hn') he
  · exact ⟨rfl, h.procs, fun j hn => hQ.release (h.untouched j hn)⟩
  · refine ⟨rfl, fun j call' p' hn hj => ?_, fun j hn => hQ.release (h.untouched j hn)⟩
    rcases procs_set hj with ⟨rfl, heq⟩ | ⟨-, hj⟩
    · cases heq
      exact .inr (.inr rfl)
    · exact h.procs j call' p' hn hj
  · cases m with
    | inl t => exact ⟨hgate, h.procs, h.untouched⟩
    | inr m => exact ⟨rfl, h.procs, fun j hn => hQ.move (h.untouched j hn)⟩

/-- **While the gate is shut no call gets through**: whatever comes in from then on is answered
by the front. -/
theorem Shut.run (hQ : OthersKeep Q) {g : F.Gate} {n : ℕ}
    (hg : ∀ call, ∃ a, F.prog g call = .ret a) {ls : List F.machine.Label}
    (hls : ∀ t, .move (.inl t) ∈ ls → F.turn t g = g) :
    ∀ {c : F.machine.Config}, F.Shut Q g n c → run c ls = some d → F.Shut Q g n d := by
  induction ls with
  | nil =>
    intro c h hrun
    cases hrun
    exact h
  | cons l ls ih =>
    intro c h hrun
    rw [run_cons] at hrun
    obtain ⟨c₁, hstep, hrun⟩ := Option.bind_eq_some_iff.mp hrun
    refine ih (fun t ht => hls t (List.mem_cons_of_mem l ht)) (h.step hQ hg ?_ hstep) hrun
    rcases step_gate hstep with hgate | ⟨t, rfl, hgate⟩
    · exact hgate.trans h.gate
    · rw [hgate, h.gate]
      exact hls t List.mem_cons_self

/-- Before the first call there is nothing behind the front. -/
theorem Projects.init {st : M.Shared} (g : F.Gate) (h : ∀ i, Q i st) :
    F.Projects Q ⟨(g, st), []⟩ ⟨st, []⟩ :=
  ⟨rfl, rfl, fun _ _ _ hi => absurd hi (by simp), fun i _ => h i⟩

end Front

end Interleave
