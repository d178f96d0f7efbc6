import LegalHold.LockOrder
import Mathlib.Data.List.Pairwise

/-!
# No deadlock

A session that waits for its hold has no lock yet, and nobody waits for it; one
that has its hold can only be kept waiting at the key of its receipt, and whoever
has that key has nothing left to do but to commit.  So waiting never goes round
in a circle.

## Main definitions

* `Waits` — the wait-for relation between the sessions of a configuration.
* `Tx.rank` — how far a transaction has come.

## Main results

* `waits_iff` — a session that cannot go on is one that waits for another.
* `Reachable.waits_rank` — who is waited for has come further.
* `no_deadlock` — **the wait-for relation has no cycle**.
-/

namespace LegalHold

open Interleave

section

variable [Backend] {c : Config} {srv : Server}

/-! ### Waiting -/

/-- Session `i` waits for session `j`: its next statement needs a lock that the open
transaction of `j` stands in the way of. -/
def Waits (c : Config) (i j : ℕ) : Prop :=
  ∃ op q k t t', c.procs[i]? = some ⟨op, some (.ask (.query q) k)⟩ ∧
    c.shared.tx? ⟨i, op⟩ = some t ∧ t' ∈ c.shared.txs ∧ t'.owner.id = j ∧ j ≠ i ∧
    ∃ l ∈ (q.effect (c.shared.view t) t.startedAt c.shared.seq).locks, ∃ l' ∈ t'.locks,
      l.conflicts l' = true

/-- **A session whose next statement cannot run waits for somebody**, and the other way
round. -/
theorem waits_iff {i : ℕ} {op : Op} {s : Stmt}
    {k : s.Reply → Prog Stmt Stmt.Reply (Except StorageError Answer)}
    (hi : c.procs[i]? = some ⟨op, some (.ask s k)⟩) :
    Machine.step c (.step i .done) = none ↔ ∃ j, Waits c i j := by
  have hstep : Machine.step c (.step i .done) = none ↔ c.shared.perform ⟨i, op⟩ s = none :=
    (step_eq_none_iff hi Fate.done).trans Option.map_eq_none_iff
  refine hstep.trans ?_
  constructor
  · intro hnone
    cases s with
    -- Only a query waits, and it does for a lock that is held by another transaction.
    | query q =>
      simp only [Server.perform] at hnone
      split at hnone
      · cases hnone
      · next t ht =>
        split at hnone
        · next hb =>
          obtain ⟨t', ht', hb⟩ := List.any_eq_true.mp hb
          simp only [Bool.and_eq_true, decide_eq_true_eq, List.any_eq_true] at hb
          obtain ⟨hne, l, hl, l', hl', hconflict⟩ := hb
          exact ⟨t'.owner.id, op, q, k, t, t', hi, ht, ht', rfl, hne, l, hl, l', hl', hconflict⟩
        · cases hnone
    | begin =>
      simp only [Server.perform] at hnone
      split at hnone <;> cases hnone
    | commit =>
      simp only [Server.perform] at hnone
      split at hnone <;> cases hnone
    | pool q => cases hnone
  · rintro ⟨j, op', q, k', t, t', hi', ht, ht', hid, hne, l, hl, l', hl', hconflict⟩
    rw [hi] at hi'
    cases hi'
    have hb : c.shared.blocks ⟨i, op⟩
        (q.effect (c.shared.view t) t.startedAt c.shared.seq).locks = true := by
      refine List.any_eq_true.mpr ⟨t', ht', ?_⟩
      simp only [Bool.and_eq_true, decide_eq_true_eq, List.any_eq_true]
      exact ⟨by rw [hid]; exact hne, l, hl, l', hl', hconflict⟩
    simp only [Server.perform, ht, hb, if_true]

/-- How far a transaction has come with its locks: none, one on a hold, or one on the key of a
receipt as well. -/
def Tx.rank (t : Tx) : ℕ :=
  if t.locks = [] then 0 else if t.locks.any (·.holdId.isNone) then 2 else 1

/-- How far the transaction of a session has come with its locks; without a transaction it is
nowhere. -/
def Server.rank (srv : Server) (i : ℕ) : ℕ :=
  ((srv.txs.find? fun t => t.owner.id = i).map Tx.rank).getD 0

omit [Backend] in
/-- Two locks in conflict are about the same hold, or about the same receipt. -/
theorem Lock.holdId_of_conflicts {l l' : Lock} (h : l.conflicts l' = true) :
    l.holdId = l'.holdId := by
  cases l <;> cases l' <;> simp_all [Lock.conflicts, Lock.holdId]

/-- A session has one transaction at most, which is found by its number. -/
theorem Server.Inv.find?_eq (hinv : srv.Inv) {t : Tx} (ht : t ∈ srv.txs) :
    srv.txs.find? (fun t' => t'.owner.id = t.owner.id) = some t := by
  cases hf : srv.txs.find? (fun t' => t'.owner.id = t.owner.id) with
  | none => exact absurd (List.find?_eq_none.mp hf t ht) (by simp)
  | some t' =>
    have hmem := List.mem_of_find?_eq_some hf
    have hid : t'.owner.id = t.owner.id := by simpa using List.find?_some hf
    by_contra hne
    have hne' : t' ≠ t := fun heq => hne (by rw [heq])
    -- two transactions in different places have different owners
    have : Std.Symm fun t t' : Tx => t.owner.id ≠ t'.owner.id := ⟨fun _ _ h => h.symm⟩
    exact hinv.owners.forall hmem ht hne' hid

/-- **Who is waited for has come further**: along an edge of the wait relation the rank of the
locks that are held goes up. -/
theorem Reachable.waits_rank (h : Reachable c) {i j : ℕ} (hw : Waits c i j) :
    c.shared.rank i < c.shared.rank j := by
  obtain ⟨op, q, k, t, t', hi, ht, ht', rfl, hne, l, hl, l', hl', hconflict⟩ := hw
  have hkept := h.lockOrder_kept
  obtain ⟨htmem, htid⟩ := Server.tx?_mem ht
  have hi_rank : c.shared.rank i = t.rank := by
    unfold Server.rank
    have := h.inv.find?_eq htmem
    rw [htid] at this
    rw [this]
    rfl
  have hj_rank : c.shared.rank t'.owner.id = t'.rank := by
    unfold Server.rank
    rw [h.inv.find?_eq ht']
    rfl
  have hsome : t'.locks ≠ [] := List.ne_nil_of_mem hl'
  rw [hi_rank, hj_rank]
  obtain ⟨φ, hφ, hfollows⟩ := hkept.procs i op _ hi
  have hmay : Phase.may φ (.query q) := hfollows.1
  cases φ with
  | begun =>
    -- it has no lock yet
    obtain ⟨t₀, ht₀, hlocks⟩ := hφ
    cases ht.symm.trans ht₀
    unfold Tx.rank
    rw [if_pos hlocks, if_neg hsome]
    split <;> omega
  | owning h' =>
    obtain ⟨t₀, ht₀, howns, hlocks⟩ := hφ
    cases ht.symm.trans ht₀
    have htidy : t'.Tidy := hkept.inv t' ht'
    have hrank : t.rank ≤ 1 := by
      unfold Tx.rank
      split
      · omega
      · rw [if_neg]
        simp only [List.any_eq_true, not_exists, not_and]
        intro l₀ hl₀
        rw [hlocks l₀ hl₀]
        simp
    rcases Query.within_locks hmay (c.shared.view t) t.startedAt c.shared.seq with hall |
      ⟨key, hash, response, rfl, hkey⟩
    · -- nobody else has a lock on the rows of its hold
      have hid : l'.holdId = some h' := (Lock.holdId_of_conflicts hconflict).symm.trans (hall l hl)
      have hother := htidy l' hl' h' hid
      exact absurd hother (h.inv.not_owns htmem ht' (by rw [htid]; exact hne.symm) howns)
    · -- it waits for a receipt, and its holder only has to commit
      have hid : l'.holdId = none := by
        rw [← Lock.holdId_of_conflicts hconflict, hkey l hl]
        rfl
      have hlast : t'.rank = 2 := by
        unfold Tx.rank
        rw [if_neg hsome, if_pos]
        exact List.any_eq_true.mpr ⟨l', hl', by rw [hid]; rfl⟩
      omega
  | _ => exact hmay.elim

/-- **No deadlock**: whatever sessions there are, and whatever holds and keys they are
about, the wait-for relation has no cycle. -/
theorem no_deadlock (h : Reachable c) (i : ℕ) : ¬ Relation.TransGen (Waits c) i i :=
  not_transGen_self c.shared.rank (fun _ _ => h.waits_rank) i

end

namespace Sample

/-- The hold `h` is created, a session has locked it, and another one asks for it. -/
def contended : List Label :=
  .start (create [1]) :: steps 0 8 ++ .start (add 1) :: steps 1 3 ++ .start (release 1) :: steps 2 2

theorem contended_waits : Waits (after contended) 2 1 :=
  ⟨release 1, .lockHold "org" "h", _, _, _, rfl, rfl, List.mem_cons_of_mem _ List.mem_cons_self,
    rfl, by decide, .row .forUpdate "h", List.mem_cons_self, .row .forUpdate "h",
    List.mem_cons_self, rfl⟩

theorem contended_no_deadlock :
    Waits (after contended) 2 1 ∧ ¬ Relation.TransGen (Waits (after contended)) 2 2 :=
  ⟨contended_waits, no_deadlock (reachable_after contended) 2⟩

end Sample

end LegalHold
