import LegalHold.Interleave.Completion
import LegalHold.Interleave.Front

/-!
# Bringing calls to their end

A front adds calls that the machine never hears of: they wait at the gate, or have been answered
there.  So what the machine is brought to with its front is said for the sessions of a set, and
the others stay where they are.

## Main definitions

* `Completes` — the sessions of every set that has all who have left a trace can be brought to
  their end.
* `Front.Passed` — a call has been passed on, and what is left of it.

## Main results

* `Projects.finishes` — what the operations are brought to, the calls are brought to.
* `Completes.front` — **what can be brought to its end can be so with a front**.
-/

namespace Interleave

open Machine

variable {M : Machine} {f : M.Fate} {E : M.Shared → Prop} {A : ℕ → Prop} {c d : M.Config}

/-- From everywhere in `I` the sessions of every set can be brought to their end, if it has all
who have left a trace. -/
def Completes (f : M.Fate) (E : M.Shared → Prop) (Q : Session M.Op → M.Shared → Prop)
    (I : M.Config → Prop) : Prop :=
  ∀ {c : M.Config} {A : ℕ → Prop}, I c → (∀ i : Session M.Op, ¬ Q i c.shared → A i.id) →
    Finishes f E A c

namespace Front

variable {F : Front M} {Q : Session M.Op → M.Shared → Prop} {c d : F.machine.Config}
  {c' : M.Config}

/-- The call has been passed on, and what is left of it is what is left of its operation. -/
def Passed (F : Front M) (c : F.machine.Config) (c' : M.Config) (i : ℕ) : Prop :=
  ∃ (call : F.Call) (q : Option (Prog M.Stmt M.Reply M.Result)),
    c'.procs[i]? = some ⟨F.op call, q⟩ ∧ c.procs[i]? =
      some ⟨call, q.map fun q => (q.bind fun r => .ret (F.answer call r)).lift F.Gate⟩

/-- A call that has been passed on is running exactly as long as its operation behind the front
is. -/
theorem Passed.running_iff {i : ℕ} (h : F.Passed c c' i) : Running c i ↔ Running c' i := by
  obtain ⟨call, q, hq, hp⟩ := h
  constructor
  · rintro ⟨call', s, k, hs⟩
    rw [hp] at hs
    cases q with
    | none => cases hs
    | some q =>
      cases q with
      | ret r => cases hs
      | ask s' k' => exact ⟨_, s', k', hq⟩
  · rintro ⟨op, s, k, hs⟩
    rw [hq] at hs
    cases hs
    exact ⟨call, some s, _, hp⟩

/-- A call that has been passed on asks what its operation asks. -/
theorem Projects.step_passed (hQ : OthersKeep Q) (h : F.Projects Q c c') {i : ℕ}
    (hi : F.Passed c c' i) {d' : M.Config} (hstep : Machine.step c' (.step i f) = some d') :
    ∃ d, Machine.step c (.step i f) = some d ∧ F.Projects Q d d' ∧ F.Passed d d' i ∧
      ∀ j, j ≠ i → d.procs[j]? = c.procs[j]? ∧ d'.procs[j]? = c'.procs[j]? := by
  obtain ⟨⟨g, st⟩, procs⟩ := c
  obtain ⟨st', procs'⟩ := c'
  obtain rfl : st' = st := h.shared
  obtain ⟨call, q, hq, hp⟩ := hi
  simp only [Machine.step] at hstep
  split at hstep
  · next op s k hask =>
    cases hq.symm.trans hask
    obtain ⟨⟨st₁, r⟩, he, rfl⟩ := Option.map_eq_some_iff.mp hstep
    obtain ⟨q₁, -, hshadow⟩ := h.procs i call _ hp
    rcases hshadow.asks with ⟨hnone, -⟩ | ⟨g', s', k', hprog, -⟩
    · cases hnone
    have hlt := (List.getElem?_eq_some_iff.mp hp).1
    have hlt' := (List.getElem?_eq_some_iff.mp hq).1
    refine ⟨⟨(g, st₁), procs.set i
        ⟨call, some (((k r).bind fun r => .ret (F.answer call r)).lift F.Gate)⟩⟩, ?_,
      h.set hp g (.passed hprog) fun j hj hQj => hQ.exec hj hQj he,
      ⟨call, some (k r), List.getElem?_set_self hlt', List.getElem?_set_self hlt⟩,
      fun j hj => ⟨List.getElem?_set_ne hj.symm, List.getElem?_set_ne hj.symm⟩⟩
    simp only [Machine.step, hp, Option.map_some, Prog.bind, Prog.lift]
    exact Option.map_eq_some_iff.mpr ⟨_, Option.map_eq_some_iff.mpr ⟨_, he, rfl⟩, rfl⟩
  · cases hstep

/-- A call whose operation has come to its end lets go as that does. -/
theorem Projects.drop_passed (hQ : OthersKeep Q) (h : F.Projects Q c c') {i : ℕ}
    (hi : F.Passed c c' i) (hended : ¬ Running c' i) {d' : M.Config}
    (hdrop : Machine.step c' (.drop i) = some d') :
    ∃ d, Machine.step c (.drop i) = some d ∧ F.Projects Q d d' ∧ d.procs = c.procs ∧
      d'.procs = c'.procs := by
  have hended' : ¬ Running c i := hi.running_iff.not.mpr hended
  obtain ⟨⟨g, st⟩, procs⟩ := c
  obtain ⟨st', procs'⟩ := c'
  obtain rfl : st' = st := h.shared
  obtain ⟨call, q, hq, hp⟩ := hi
  cases hdrop.symm.trans (step_drop_ended hq hended)
  exact ⟨_, step_drop_ended hp hended', h.move g fun j hj => hQ.release hj, rfl, rfl⟩

/-- **What the operations are brought to, the calls are brought to.** -/
theorem Projects.finishes (hQ : OthersKeep Q) (h : F.Projects Q c c') {B : ℕ → Prop}
    (hsub : ∀ i, B i → A i) (hpassed : ∀ i, B i → F.Passed c c' i)
    (hrunning : ∀ i, A i → Running c i → B i) (hfinishes : Finishes f E B c') :
    Finishes (M := F.machine) f (fun st => E st.2) A c := by
  induction hfinishes generalizing c with
  | ended hended hE =>
    refine .ended (fun i hi hrun => ?_) (by rw [← h.shared]; exact hE)
    have hi' := hrunning i hi hrun
    exact hended i hi' ((hpassed i hi').running_iff.mp hrun)
  -- A step of the machine behind is a step of its call.
  | @step c' d' i hi hstep _ ih =>
    obtain ⟨d, hd, hproj, hself, hothers⟩ := h.step_passed hQ (hpassed i hi) hstep
    refine .step (hsub i hi) hd (ih hproj (fun j hj => ?_) fun j hj hrun => ?_)
    · by_cases hji : j = i
      · exact hji ▸ hself
      · obtain ⟨hd, hd'⟩ := hothers j hji
        unfold Passed
        rw [hd, hd']
        exact hpassed j hj
    · by_cases hji : j = i
      · exact hji ▸ hi
      · refine hrunning j hj ?_
        unfold Running at hrun ⊢
        rwa [(hothers j hji).1] at hrun
  | @drop c' d' i hi hended hdrop _ ih =>
    obtain ⟨d, hd, hproj, hprocs, hprocs'⟩ := h.drop_passed hQ (hpassed i hi) hended hdrop
    refine .drop (hsub i hi) ((hpassed i hi).running_iff.not.mpr hended) hd
      (ih hproj (fun j hj => ?_) fun j hj hrun => ?_)
    · unfold Passed
      rw [hprocs, hprocs']
      exact hpassed j hj
    · refine hrunning j hj ?_
      unfold Running at hrun ⊢
      rwa [hprocs] at hrun

/-! ### At the gate -/

/-- The call has not yet looked at the gate, so that its next statement is to do so. -/
def atGate (p : F.machine.Proc) : Bool :=
  match p.prog with
  | some (.ask none _) => true
  | _ => false

/-- What is left of a call behind the gate does not look at it again. -/
theorem atGate_lift {call : F.Call} (p : Prog M.Stmt M.Reply F.Answer) :
    atGate (F := F) ⟨call, some (p.lift F.Gate)⟩ = false := by
  cases p <;> rfl

/-- A call looks at the gate, and one call fewer is there. -/
theorem Projects.step_gate (hQ : OthersKeep Q) (h : F.Projects Q c c') {i : ℕ} {call : F.Call}
    {k} (hi : c.procs[i]? = some ⟨call, some (.ask none k)⟩) : ∃ d d',
      Machine.step c (.step i f) = some d ∧ Reaches c' d' ∧ F.Projects Q d d' ∧
      d.shared = c.shared ∧ d.procs.countP atGate < c.procs.countP atGate := by
  obtain ⟨q, hq, hshadow⟩ := h.procs i call _ hi
  rcases hshadow.asks with ⟨-, hk, -⟩ | ⟨g, s, k', -, hnone, -⟩
  swap
  · cases hnone
  cases hk
  have hstep : Machine.step c (.step i f) = some ⟨c.shared, c.procs.set i
      ⟨call, some ((F.prog c.shared.1 call).lift F.Gate)⟩⟩ := by
    simp only [Machine.step, hi]
    exact Option.map_eq_some_iff.mpr ⟨(c.shared, c.shared.1), rfl, rfl⟩
  obtain ⟨d', hreaches, hproj⟩ := h.step hQ hstep
  refine ⟨_, d', hstep, hreaches, hproj, rfl, ?_⟩
  obtain ⟨hlt, hget⟩ := List.getElem?_eq_some_iff.mp hi
  have hwas : atGate c.procs[i] = true := by rw [hget]; rfl
  rw [List.countP_set hlt, atGate_lift, if_pos hwas]
  have hpos : 0 < c.procs.countP atGate :=
    List.countP_pos_iff.mpr ⟨_, List.getElem_mem hlt, hwas⟩
  simp only [Bool.false_eq_true, if_false]
  omega

/-- Who has left a trace has been passed on. -/
theorem Projects.passed (hid : ∀ (i j : Session M.Op) st, i.id = j.id → Q i st → Q j st)
    (h : F.Projects Q c c') {i : Session M.Op} (hi : ¬ Q i c'.shared) :
    F.Passed c c' i.id ∧ ∃ call, ¬ Q (F.behind ⟨i.id, call⟩) c.shared.2 := by
  rw [h.shared] at hi
  have hlt : i.id < c.procs.length := by
    by_contra hge
    exact hi (h.fresh i (Nat.le_of_not_lt hge))
  obtain ⟨⟨call, p⟩, hp⟩ : ∃ proc, c.procs[i.id]? = some proc :=
    ⟨_, List.getElem?_eq_getElem hlt⟩
  have hbehind : ¬ Q (F.behind ⟨i.id, call⟩) c.shared.2 :=
    fun hQi => hi (hid (F.behind ⟨i.id, call⟩) i _ rfl hQi)
  obtain ⟨q, hq, hshadow⟩ := h.procs i.id call p hp
  refine ⟨?_, call, hbehind⟩
  cases hshadow with
  | arrived hQi => exact absurd hQi hbehind
  | settled hprog hq' hQi => exact absurd hQi hbehind
  | passed hprog => exact ⟨call, _, hq, hp⟩
  | left hq' hQi => exact absurd hQi hbehind
  | dropped hprog => exact ⟨call, none, hq, hp⟩

/-- A call that is running and not at the gate has been passed on. -/
theorem Projects.passed_of_running (h : F.Projects Q c c') {i : ℕ} (hi : Running c i)
    (hgate : ∀ call k, c.procs[i]? ≠ some ⟨call, some (.ask none k)⟩) : F.Passed c c' i := by
  obtain ⟨call, s, k, hp⟩ := hi
  obtain ⟨q, hq, hshadow⟩ := h.procs i call _ hp
  generalize hsome : some (Prog.ask s k) = p at hshadow
  rw [hsome] at hp
  cases hshadow with
  | arrived hQi => exact absurd hp (hgate _ _)
  | passed hprog => exact ⟨call, _, hq, hp⟩
  | _ => cases hsome

end Front

/-- **What can be brought to its end can be so with a front.**  First those who are at the gate
look at it; then those that have been passed on go on as their operations do. -/
theorem Completes.front {F : Front M} {Q : Session M.Op → M.Shared → Prop} {I : M.Config → Prop}
    (hQ : OthersKeep Q) (hid : ∀ (i j : Session M.Op) st, i.id = j.id → Q i st → Q j st)
    (hI : ∀ {c c'}, I c → Reaches c c' → I c') (hM : Completes f E Q I) :
    Completes (M := F.machine) f (fun st => E st.2) (fun i st => Q (F.behind i) st.2)
      fun c => ∃ c', I c' ∧ F.Projects Q c c' := by
  intro c A hc hA
  -- By induction on the number of calls at the gate.
  induction hn : c.procs.countP Front.atGate using Nat.strongRecOn generalizing c with
  | ind n ih =>
    subst hn
    obtain ⟨c', hc', hproj⟩ := hc
    by_cases hgate : ∃ i call k, A i ∧ c.procs[i]? = some ⟨call, some (.ask none k)⟩
    · obtain ⟨i, call, k, hi, hp⟩ := hgate
      obtain ⟨d, d', hstep, hreaches, hproj', hshared, hlt⟩ := hproj.step_gate (f := f) hQ hp
      exact .step hi hstep (ih _ hlt ⟨d', hI hc' hreaches, hproj'⟩ (by rw [hshared]; exact hA) rfl)
    · push Not at hgate
      refine hproj.finishes hQ (B := fun i => A i ∧ F.Passed c c' i) (fun i hi => hi.1)
        (fun i hi => hi.2) (fun i hi hrun => ⟨hi, ?_⟩) (hM hc' fun i hi => ?_)
      · exact hproj.passed_of_running hrun fun call k => hgate i call k hi
      · obtain ⟨hpassed, call, htrace⟩ := hproj.passed hid hi
        exact ⟨hA ⟨i.id, call⟩ htrace, hpassed⟩

end Interleave
