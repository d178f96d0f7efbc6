import Mathlib.Logic.Basic

/-!
# Session programs

A session talks to a shared server one statement at a time and decides what to
ask next from the replies.  Between two statements anything may happen to the
server, so the unit of interleaving is one statement; a program is therefore a
tree of statements whose branches are the possible replies.

The type is generic in the statements `σ` and in the reply `ρ s` of each
statement `s`, and carries a monad, so that a program of the source reads the
same here as there.

## Main definitions

* `Prog` — a finite program of statements and continuations.
* `Prog.bind` and its `Monad` instance.
* `Prog.Leaves` — what a program can return.
-/

namespace Interleave

/-- A program over the statements `σ`, the reply to `s` being a value of `ρ s`. -/
inductive Prog (σ : Type) (ρ : σ → Type) (α : Type) where
  /-- The program has returned. -/
  | ret (a : α) : Prog σ ρ α
  /-- Issue `s` and go on with its reply. -/
  | ask (s : σ) (k : ρ s → Prog σ ρ α) : Prog σ ρ α

namespace Prog

variable {σ : Type} {ρ : σ → Type} {α β γ : Type}

/-- Sequencing: every return of the first program continues with the second. -/
def bind : Prog σ ρ α → (α → Prog σ ρ β) → Prog σ ρ β
  | .ret a, f => f a
  | .ask s k, f => .ask s fun r => (k r).bind f

instance : Monad (Prog σ ρ) where
  pure := .ret
  bind := bind

@[simp] theorem pure_eq (a : α) : (pure a : Prog σ ρ α) = .ret a := rfl

@[simp] theorem bind_eq (p : Prog σ ρ α) (f : α → Prog σ ρ β) : p >>= f = p.bind f := rfl

@[simp] theorem ret_bind (a : α) (f : α → Prog σ ρ β) : (Prog.ret a).bind f = f a := rfl

@[simp] theorem ask_bind (s : σ) (k : ρ s → Prog σ ρ α) (f : α → Prog σ ρ β) :
    (Prog.ask s k).bind f = .ask s fun r => (k r).bind f := rfl

/-- Sequencing of programs is associative. -/
theorem bind_assoc (p : Prog σ ρ α) (f : α → Prog σ ρ β) (g : β → Prog σ ρ γ) :
    (p.bind f).bind g = p.bind fun a => (f a).bind g := by
  induction p with
  | ret a => rfl
  | ask s k ih => exact congrArg (Prog.ask s) (funext ih)

/-- Whatever the replies, the program returns what satisfies `L`. -/
def Leaves (L : α → Prop) : Prog σ ρ α → Prop
  | .ret a => L a
  | .ask _ k => ∀ r, (k r).Leaves L

/-- What a sequence returns is what its second program does. -/
theorem Leaves.bind {L : α → Prop} {L' : β → Prop} {p : Prog σ ρ α} {f : α → Prog σ ρ β}
    (h : p.Leaves L) (hf : ∀ a, L a → (f a).Leaves L') : (p.bind f).Leaves L' := by
  induction p with
  | ret a => exact hf a h
  | ask s k ih => exact fun r => ih r (h r)

end Prog

end Interleave
