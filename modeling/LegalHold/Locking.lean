import LegalHold.Chronicle
import LegalHold.Service

/-!
# What the locks protect

The invariant of the database under all its sessions, and what a session can
rely on while the others move.  A transaction writes only rows it has locked, in
a mode that no other transaction can hold at the same time; so what it has seen
of its hold stays as it was until it ends, and what it commits is a mutation of
the tables it finds.

## Main definitions

* `Tx.Owns`, `Tx.Covers` — the locks under which a transaction may write.
* `Server.Inv` — the invariant.
* `Kept`, `Frame` — what a session relies on.
* `Server.Ready` — what a session owes before it issues a statement.
* `Server.Moved` — the ways in which a statement changes the database.

## Main results

* `Server.exec_moved` — every statement changes the database in one of these ways.
* `Server.Inv.exec` — **every statement that is ready keeps the invariant**.
* `Frame.of_exec` — and changes nothing that another session relies on.
-/

namespace LegalHold

open Interleave

/-! ### Locks and writes -/

namespace Tx

/-- The transaction has a lock on the hold by which no other transaction can change rows of it. -/
def Owns (t : Tx) (h : String) : Prop := .row .forUpdate h ∈ t.locks ∨ .holdKey h ∈ t.locks

/-- Every write of the transaction is under a lock that the transaction itself has taken. -/
def Guarded (t : Tx) : Prop :=
  ∀ w ∈ t.writes, (∀ h, w.holdId = some h → t.Owns h) ∧
    ∀ k, w.commandKey = some k → .commandKey k ∈ t.locks

/-- The locks that a statement needs to find when it is issued, as far as it needs any. -/
def Covers (t : Tx) : Query → Prop
  | .insertHold .. => t.writes = []
  | .lockHold .. => t.writes = []
  | .insertScope h .. => t.Owns h
  | .deleteScope h _ => t.Owns h
  | .advanceRevision h => t.Owns h
  | .releaseHold h .. => t.Owns h
  | .insertActivity _ h .. => t.Owns h
  | _ => True

/-- The transaction after a statement with this effect. -/
def extend {α : Type} (t : Tx) (e : Effect α) : Tx :=
  { t with writes := t.writes ++ e.writes, locks := t.locks ++ e.locks }

@[simp] theorem extend_owner {α : Type} (t : Tx) (e : Effect α) : (t.extend e).owner = t.owner :=
  rfl

@[simp] theorem extend_startedAt {α : Type} (t : Tx) (e : Effect α) :
    (t.extend e).startedAt = t.startedAt := rfl

@[simp] theorem extend_writes {α : Type} (t : Tx) (e : Effect α) :
    (t.extend e).writes = t.writes ++ e.writes := rfl

@[simp] theorem extend_locks {α : Type} (t : Tx) (e : Effect α) :
    (t.extend e).locks = t.locks ++ e.locks := rfl

theorem Owns.extend {α : Type} {t : Tx} {h : String} (ho : t.Owns h) (e : Effect α) :
    (t.extend e).Owns h :=
  ho.imp (List.mem_append_left _) (List.mem_append_left _)

end Tx

/-- What the effect of a covered statement on the transaction `t` is like. -/
structure Effect.Fits {α : Type} (db : Db) (t : Tx) (seq : Sequences) (e : Effect α) : Prop where
  holds : ∀ w ∈ e.writes, ∀ h, w.holdId = some h → (t.extend e).Owns h
  commands : ∀ w ∈ e.writes, ∀ k, w.commandKey = some k → .commandKey k ∈ e.locks
  holdKey : ∀ h, .holdKey h ∈ e.locks → db.hold? h = none
  rowLock : ∀ h, .row .forUpdate h ∈ e.locks → db.hold? h ≠ none
  commandKey : ∀ k, .commandKey k ∈ e.locks → db.command? k = none
  seq : seq.activity ≤ e.seq.activity
  drawn : ∀ a, .insertActivity a ∈ e.writes → a.activityId < e.seq.activity

/-- A statement that writes nothing and locks nothing fits. -/
theorem Effect.Fits.idle {α : Type} {db : Db} {t : Tx} {seq : Sequences} {e : Effect α}
    (hw : e.writes = []) (hl : e.locks = []) (hs : seq.activity ≤ e.seq.activity) :
    e.Fits db t seq := by
  constructor <;> simp [hw, hl, hs]

/-- An update of a hold that the transaction owns fits the transaction. -/
theorem updateHold_fits {db view : Db} {t : Tx} {seq : Sequences} {h : String}
    {f : HoldRow → HoldRow} (hf : ∀ row, (f row).holdId = row.holdId) (ho : t.Owns h) :
    (updateHold view seq h f).Fits db t seq := by
  unfold updateHold
  split
  · exact .idle rfl rfl (Int.le_refl _)
  · next row hrow =>
    split
    · exact .idle rfl rfl (Int.le_refl _)
    · constructor
      · intro w hw h' hh
        obtain rfl := List.mem_singleton.mp hw
        have hid : (f row).holdId = h := (hf row).trans (Db.holdId_of_hold? hrow)
        have heq : h = h' := hid.symm.trans (Option.some.inj hh)
        exact heq ▸ ho.extend _
      · intro w hw k hk
        obtain rfl := List.mem_singleton.mp hw
        cases hk
      all_goals simp

/-- **A covered statement fits its transaction**: what it writes is covered by the locks that it
takes or that are held. -/
theorem Query.effect_fits [Backend] {db : Db} {t : Tx} {seq : Sequences} {q : Query}
    (hc : t.Covers q) : (q.effect (db.putAll t.writes) t.startedAt seq).Fits db t seq := by
  cases q with
  | selectCommand key => exact .idle rfl rfl (Int.le_refl _)
  | selectHold org h => exact .idle rfl rfl (Int.le_refl _)
  | selectScopes h => exact .idle rfl rfl (Int.le_refl _)
  | insertHold h org title reason authority createdBy =>
    have hw : t.writes = [] := hc
    simp only [Query.effect, hw, Db.putAll_nil]
    cases hr : db.hold? h with
    | some row => exact .idle rfl rfl (Int.le_refl _)
    | none =>
      constructor <;>
        simp [createdRow, Write.holdId, Write.commandKey, Tx.Owns, Tx.extend, hr]
  | lockHold org h =>
    have hw : t.writes = [] := hc
    simp only [Query.effect, hw, Db.putAll_nil]
    cases hr : (db.hold? h).filter (·.organizationId = org) with
    | none => exact .idle rfl rfl (Int.le_refl _)
    | some row =>
      have hsome := (Option.filter_eq_some_iff.mp hr).1
      constructor <;> simp [hsome]
  | insertScope h scope createdBy =>
    have ho : t.Owns h := hc
    simp only [Query.effect]
    split
    · exact .idle rfl rfl (Int.le_refl _)
    · split
      · exact .idle rfl rfl (Int.le_refl _)
      · split
        · exact .idle rfl rfl (Int.le_refl _)
        · constructor
          · intro w hw h' hh
            obtain rfl := List.mem_singleton.mp hw
            cases hh
            exact ho.extend _
          all_goals simp [Write.commandKey]
  | deleteScope h scope =>
    have ho : t.Owns h := hc
    simp only [Query.effect]
    split
    · exact .idle rfl rfl (Int.le_refl _)
    · constructor
      · intro w hw h' hh
        obtain rfl := List.mem_singleton.mp hw
        cases hh
        exact ho.extend _
      all_goals simp [Write.commandKey]
  | advanceRevision h => exact updateHold_fits (fun _ => rfl) hc
  | releaseHold h releasedBy reason => exact updateHold_fits (fun _ => rfl) hc
  | insertActivity org h kind actor payload =>
    have ho : t.Owns h := hc
    simp only [Query.effect]
    split
    · exact .idle rfl rfl (Int.le_refl _)
    · split
      · exact .idle rfl rfl (Int.le_of_lt (Int.lt_succ _))
      · constructor
        case holds =>
          intro w hw h' hh
          obtain rfl := List.mem_singleton.mp hw
          cases hh
          exact ho.extend _
        case seq => exact Int.le_of_lt (Int.lt_succ _)
        case drawn =>
          intro a ha
          cases List.mem_singleton.mp ha
          exact Int.lt_succ _
        all_goals simp [Write.commandKey]
  | insertCommand key hash response =>
    simp only [Query.effect]
    split
    · exact .idle rfl rfl (Int.le_refl _)
    · next hr =>
      -- The statement has seen the transaction's own writes as well.
      have hnone : db.command? key = none := by
        cases hk : db.command? key with
        | none => rfl
        | some row =>
          rw [Db.command?_putAll_of_some hk] at hr
          cases hr
      constructor <;> simp [Write.holdId, Write.commandKey, hnone]

/-! ### The transactions of a server -/

namespace Server

/-- The tables as the first `n` commits left them. -/
def asOf (srv : Server) (n : ℕ) : Db := replayLog (srv.log.take n)

/-- The statements of a session, in the order in which they were made. -/
def eventsOf (srv : Server) (i : Session Op) : List Event :=
  srv.trace.filter fun e => e.session.id = i.id

theorem tx?_mem {srv : Server} {i : Session Op} {t : Tx} (h : srv.tx? i = some t) :
    t ∈ srv.txs ∧ t.owner.id = i.id :=
  ⟨List.mem_of_find?_eq_some h, by simpa using List.find?_some h⟩

theorem mem_setTx {srv : Server} {t t' : Tx} (h : t' ∈ (srv.setTx t).txs) :
    t' = t ∨ t' ∈ srv.txs ∧ t'.owner.id ≠ t.owner.id := by
  obtain ⟨t₀, ht₀, rfl⟩ := List.mem_map.mp h
  by_cases heq : t₀.owner.id = t.owner.id
  · exact .inl (if_pos heq)
  · rw [if_neg heq]
    exact .inr ⟨ht₀, heq⟩

theorem tx?_setTx_self {srv : Server} {i : Session Op} {t t₀ : Tx} (h : srv.tx? i = some t₀)
    (hid : t.owner.id = i.id) : (srv.setTx t).tx? i = some t := by
  have hkey : (fun t' : Tx => decide (t'.owner.id = i.id)) ∘
      (fun t' => if t'.owner.id = t.owner.id then t else t') =
        fun t' => decide (t'.owner.id = i.id) := by
    funext t'
    by_cases heq : t'.owner.id = t.owner.id
    · simp [heq, hid]
    · simp [heq]
  unfold tx? setTx
  rw [List.find?_map, hkey]
  unfold tx? at h
  rw [h, Option.map_some, if_pos]
  have := List.find?_some h
  simp only [decide_eq_true_eq] at this
  rw [this, hid]

theorem tx?_setTx_other {srv : Server} {j : Session Op} {t : Tx} (hne : j.id ≠ t.owner.id) :
    (srv.setTx t).tx? j = srv.tx? j := by
  have hkey : (fun t' : Tx => decide (t'.owner.id = j.id)) ∘
      (fun t' => if t'.owner.id = t.owner.id then t else t') =
        fun t' => decide (t'.owner.id = j.id) := by
    funext t'
    by_cases heq : t'.owner.id = t.owner.id
    · simp [heq]
    · simp [heq]
  unfold tx? setTx
  rw [List.find?_map, hkey]
  cases hf : srv.txs.find? fun t' => decide (t'.owner.id = j.id) with
  | none => rfl
  | some t' =>
    have := List.find?_some hf
    simp only [decide_eq_true_eq] at this
    rw [Option.map_some, if_neg (by rw [this]; exact hne)]

theorem tx?_endTx_self (srv : Server) (i : Session Op) : (srv.endTx i).tx? i = none := by
  unfold tx? endTx
  rw [List.find?_eq_none]
  intro t ht
  simpa using (List.mem_filter.mp ht).2

theorem tx?_endTx_other {srv : Server} {i j : Session Op} (hne : j.id ≠ i.id) :
    (srv.endTx i).tx? j = srv.tx? j := by
  unfold tx? endTx
  rw [List.find?_filter]
  congr 1
  funext t
  by_cases heq : t.owner.id = j.id
  · simp [heq, hne]
  · simp [heq]

theorem mem_endTx {srv : Server} {i : Session Op} {t : Tx} (h : t ∈ (srv.endTx i).txs) :
    t ∈ srv.txs ∧ t.owner.id ≠ i.id := by
  have := List.mem_filter.mp h
  exact ⟨this.1, by simpa using this.2⟩

/-- A statement that does not wait conflicts with no other transaction. -/
theorem not_conflicts_of_blocks {srv : Server} {i : Session Op} {locks : List Lock}
    (h : srv.blocks i locks = false) {t : Tx} (ht : t ∈ srv.txs) (hne : t.owner.id ≠ i.id)
    {l l' : Lock} (hl : l ∈ locks) (hl' : l' ∈ t.locks) : l.conflicts l' = false := by
  by_contra hc
  have hc : l.conflicts l' = true := by simpa using hc
  have : srv.blocks i locks = true := by
    refine List.any_eq_true.mpr ⟨t, ht, ?_⟩
    simp only [Bool.and_eq_true, decide_eq_true_eq]
    exact ⟨by simpa using hne, List.any_eq_true.mpr ⟨l, hl, List.any_eq_true.mpr ⟨l', hl', hc⟩⟩⟩
  rw [h] at this
  cases this

/-- The server after a statement of the transaction `t` that has had this effect. -/
def applied {α : Type} (srv : Server) (t : Tx) (e : Effect α) : Server :=
  { srv.setTx (t.extend e) with seq := e.seq }

end Server

theorem Lock.conflicts_comm (l l' : Lock) : l.conflicts l' = l'.conflicts l := by
  cases l with
  | row m h =>
    cases l' with
    | row m' h' =>
      by_cases heq : h = h'
      · subst heq
        cases m <;> cases m' <;> rfl
      · simp [Lock.conflicts, heq, Ne.symm heq]
    | _ => rfl
  | holdKey h =>
    cases l' with
    | holdKey h' => simp [Lock.conflicts, eq_comm]
    | _ => rfl
  | scopeKey h s =>
    cases l' with
    | scopeKey h' s' => simp [Lock.conflicts, eq_comm]
    | _ => rfl
  | commandKey k =>
    cases l' with
    | commandKey k' => simp [Lock.conflicts, eq_comm]
    | _ => rfl

/-! ### The invariant -/

section

variable [Backend]

/-- The row of a decision that a check of the run has taken, from what was
committed when it read. -/
def Server.Justifies (srv : Server) (row : DecisionRow) : Prop :=
  ∃ e ∈ srv.trace, ∃ input, e.session.op = .checkRetention input ∧
    e.stmt = .pool (.matchHolds input.scopeKind input.scopeId input.subject) ∧
    row = guardRow input
      (Server.matching (srv.asOf e.seen) input.scopeKind input.scopeId input.subject)
      row.evaluatedAt

/-- What holds of the database between any two statements, whichever sessions have made them. -/
structure Server.Inv (srv : Server) : Prop where
  owners : srv.txs.Pairwise fun t t' => t.owner.id ≠ t'.owner.id
  exclusive : ∀ t ∈ srv.txs, ∀ t' ∈ srv.txs, t.owner.id ≠ t'.owner.id →
    ∀ l ∈ t.locks, ∀ l' ∈ t'.locks, l.conflicts l' = false
  guarded : ∀ t ∈ srv.txs, t.Guarded
  holdKey : ∀ t ∈ srv.txs, ∀ h, .holdKey h ∈ t.locks → srv.db.hold? h = none
  rowLock : ∀ t ∈ srv.txs, ∀ h, .row .forUpdate h ∈ t.locks → srv.db.hold? h ≠ none
  commandKey : ∀ t ∈ srv.txs, ∀ k, .commandKey k ∈ t.locks → srv.db.command? k = none
  positive : 0 < srv.seq.activity
  sequence : ∀ a ∈ srv.db.activity, a.activityId < srv.seq.activity
  pending : ∀ t ∈ srv.txs, ∀ a, .insertActivity a ∈ t.writes → a.activityId < srv.seq.activity
  chronicle : Chronicle srv.log
  db : srv.db = replayLog srv.log
  seen : ∀ e ∈ srv.trace, e.seen ≤ srv.log.length
  decisions : ∀ row ∈ srv.decisions, srv.Justifies row

namespace Server.Inv

variable {srv : Server}

/-- Two transactions do not own the same hold. -/
theorem not_owns (hinv : srv.Inv) {t t' : Tx} (ht : t ∈ srv.txs) (ht' : t' ∈ srv.txs)
    (hne : t.owner.id ≠ t'.owner.id) {h : String} (ho : t.Owns h) : ¬ t'.Owns h := by
  have hex := hinv.exclusive t ht t' ht' hne
  rintro (hrow' | hkey')
  -- Two row locks conflict; a row lock needs a hold, a key lock needs none.
  · rcases ho with hrow | hkey
    · have := hex _ hrow _ hrow'
      simp [Lock.conflicts, RowLock.conflicts] at this
    · exact hinv.rowLock t' ht' h hrow' (hinv.holdKey t ht h hkey)
  · rcases ho with hrow | hkey
    · exact hinv.rowLock t ht h hrow (hinv.holdKey t' ht' h hkey')
    · have := hex _ hkey _ hkey'
      simp [Lock.conflicts] at this

/-- A transaction writes nothing of a hold that another one owns. -/
theorem holdId_ne (hinv : srv.Inv) {t t' : Tx} (ht : t ∈ srv.txs) (ht' : t' ∈ srv.txs)
    (hne : t.owner.id ≠ t'.owner.id) {h : String} (ho : t'.Owns h) :
    ∀ w ∈ t.writes, w.holdId ≠ some h := fun w hw hh =>
  hinv.not_owns ht ht' hne ((hinv.guarded t ht w hw).1 h hh) ho

/-- A transaction writes no receipt that another one has locked. -/
theorem commandKey_ne (hinv : srv.Inv) {t t' : Tx} (ht : t ∈ srv.txs) (ht' : t' ∈ srv.txs)
    (hne : t.owner.id ≠ t'.owner.id) {k : CommandKey} (hk : .commandKey k ∈ t'.locks) :
    ∀ w ∈ t.writes, w.commandKey ≠ some k := by
  intro w hw hwk
  have := hinv.exclusive t ht t' ht' hne _ ((hinv.guarded t ht w hw).2 k hwk) _ hk
  simp [Lock.conflicts] at this

/-- The tables as all commits so far left them. -/
theorem asOf_length (hinv : srv.Inv) : srv.asOf srv.log.length = srv.db := by
  unfold asOf
  rw [List.take_length, hinv.db]

/-- The invariant holds of the empty database. -/
theorem init : ({} : Server).Inv where
  owners := List.Pairwise.nil
  exclusive _ ht := by cases ht
  guarded _ ht := by cases ht
  holdKey _ ht := by cases ht
  rowLock _ ht := by cases ht
  commandKey _ ht := by cases ht
  positive := Int.one_pos
  sequence _ ha := by cases ha
  pending _ ht := by cases ht
  chronicle := .nil
  db := rfl
  seen _ he := by cases he
  decisions _ hr := by cases hr

/-! ### What keeps the invariant -/

theorem note (hinv : srv.Inv) (i : Session Op) (s : Stmt) (f : Fate) {seen : ℕ}
    (hseen : seen ≤ srv.log.length) : (srv.note i s f seen).Inv where
  owners := hinv.owners
  exclusive := hinv.exclusive
  guarded := hinv.guarded
  holdKey := hinv.holdKey
  rowLock := hinv.rowLock
  commandKey := hinv.commandKey
  positive := hinv.positive
  sequence := hinv.sequence
  pending := hinv.pending
  chronicle := hinv.chronicle
  db := hinv.db
  seen e he := by
    rcases List.mem_append.mp he with he | he
    · exact hinv.seen e he
    · obtain rfl := List.mem_singleton.mp he
      exact hseen
  decisions row hr := by
    obtain ⟨e, he, hrest⟩ := hinv.decisions row hr
    exact ⟨e, List.mem_append_left _ he, hrest⟩

theorem endTx (hinv : srv.Inv) (i : Session Op) : (srv.endTx i).Inv where
  owners := hinv.owners.filter _
  exclusive t ht t' ht' := hinv.exclusive t (mem_endTx ht).1 t' (mem_endTx ht').1
  guarded t ht := hinv.guarded t (mem_endTx ht).1
  holdKey t ht := hinv.holdKey t (mem_endTx ht).1
  rowLock t ht := hinv.rowLock t (mem_endTx ht).1
  commandKey t ht := hinv.commandKey t (mem_endTx ht).1
  positive := hinv.positive
  sequence := hinv.sequence
  pending t ht := hinv.pending t (mem_endTx ht).1
  chronicle := hinv.chronicle
  db := hinv.db
  seen := hinv.seen
  decisions := hinv.decisions

/-- The invariant is kept by a new transaction, which has written and locked nothing. -/
theorem begin (hinv : srv.Inv) {i : Session Op} (hi : srv.tx? i = none) :
    ({ srv with txs := ⟨i, srv.clock, [], []⟩ :: srv.txs } : Server).Inv := by
  have hne : ∀ t ∈ srv.txs, t.owner.id ≠ i.id := fun t ht =>
    by simpa using List.find?_eq_none.mp hi t ht
  constructor
  case owners => exact List.pairwise_cons.mpr ⟨fun t ht => (hne t ht).symm, hinv.owners⟩
  case exclusive =>
    intro t ht t' ht' hids l hl l' hl'
    rcases List.mem_cons.mp ht with rfl | ht
    · cases hl
    rcases List.mem_cons.mp ht' with rfl | ht'
    · cases hl'
    exact hinv.exclusive t ht t' ht' hids l hl l' hl'
  case guarded =>
    intro t ht
    rcases List.mem_cons.mp ht with rfl | ht
    · intro w hw
      cases hw
    · exact hinv.guarded t ht
  case holdKey =>
    intro t ht h hl
    rcases List.mem_cons.mp ht with rfl | ht
    · cases hl
    · exact hinv.holdKey t ht h hl
  case rowLock =>
    intro t ht h hl
    rcases List.mem_cons.mp ht with rfl | ht
    · cases hl
    · exact hinv.rowLock t ht h hl
  case commandKey =>
    intro t ht k hl
    rcases List.mem_cons.mp ht with rfl | ht
    · cases hl
    · exact hinv.commandKey t ht k hl
  case pending =>
    intro t ht a hw
    rcases List.mem_cons.mp ht with rfl | ht
    · cases hw
    · exact hinv.pending t ht a hw
  case positive => exact hinv.positive
  case sequence => exact hinv.sequence
  case chronicle => exact hinv.chronicle
  case db => exact hinv.db
  case seen => exact hinv.seen
  case decisions => exact hinv.decisions

/-- A statement of a transaction, once it need not wait. -/
theorem applied {α : Type} (hinv : srv.Inv) {i : Session Op} {t : Tx} {e : Effect α}
    (ht : srv.tx? i = some t) (hfits : e.Fits srv.db t srv.seq)
    (hb : srv.blocks i e.locks = false) : (srv.applied t e).Inv := by
  obtain ⟨htm, hid⟩ := tx?_mem ht
  -- the transactions are those that were there, one of them extended
  have hold : ∀ t' ∈ (srv.applied t e).txs,
      t' = t.extend e ∨ t' ∈ srv.txs ∧ t'.owner.id ≠ i.id := fun t' ht' => by
    rw [← hid]
    exact mem_setTx ht'
  constructor
  case owners =>
    show ((srv.setTx (t.extend e)).txs).Pairwise _
    refine List.Pairwise.map _ ?_ hinv.owners
    intro a b hab
    have hown : ∀ a : Tx,
        (if a.owner.id = (t.extend e).owner.id then t.extend e else a).owner.id = a.owner.id := by
      intro a
      split
      · next heq => exact heq.symm
      · rfl
    rw [hown, hown]
    exact hab
  case exclusive =>
    have hnew : ∀ t' ∈ srv.txs, t'.owner.id ≠ i.id → ∀ l ∈ (t.extend e).locks, ∀ l' ∈ t'.locks,
        l.conflicts l' = false := by
      intro t' ht' hne l hl l' hl'
      rcases List.mem_append.mp hl with hl | hl
      · exact hinv.exclusive t htm t' ht' (by rw [hid]; exact hne.symm) l hl l' hl'
      · exact not_conflicts_of_blocks hb ht' hne hl hl'
    intro t₁ h₁ t₂ h₂ hids l hl l' hl'
    rcases hold t₁ h₁ with rfl | ⟨h₁, hne₁⟩
    · rcases hold t₂ h₂ with rfl | ⟨h₂, hne₂⟩
      · exact absurd rfl hids
      · exact hnew t₂ h₂ hne₂ l hl l' hl'
    · rcases hold t₂ h₂ with rfl | ⟨h₂, hne₂⟩
      · rw [Lock.conflicts_comm]
        exact hnew t₁ h₁ hne₁ l' hl' l hl
      · exact hinv.exclusive t₁ h₁ t₂ h₂ hids l hl l' hl'
  case guarded =>
    intro t' ht'
    rcases hold t' ht' with rfl | ⟨ht', -⟩
    · intro w hw
      rcases List.mem_append.mp hw with hw | hw
      · obtain ⟨h1, h2⟩ := hinv.guarded t htm w hw
        exact ⟨fun h hh => (h1 h hh).extend e, fun k hk => List.mem_append_left _ (h2 k hk)⟩
      · exact ⟨hfits.holds w hw, fun k hk => List.mem_append_right _ (hfits.commands w hw k hk)⟩
    · exact hinv.guarded t' ht'
  case holdKey =>
    intro t' ht' h hl
    rcases hold t' ht' with rfl | ⟨ht', -⟩
    · rcases List.mem_append.mp hl with hl | hl
      · exact hinv.holdKey t htm h hl
      · exact hfits.holdKey h hl
    · exact hinv.holdKey t' ht' h hl
  case rowLock =>
    intro t' ht' h hl
    rcases hold t' ht' with rfl | ⟨ht', -⟩
    · rcases List.mem_append.mp hl with hl | hl
      · exact hinv.rowLock t htm h hl
      · exact hfits.rowLock h hl
    · exact hinv.rowLock t' ht' h hl
  case commandKey =>
    intro t' ht' k hl
    rcases hold t' ht' with rfl | ⟨ht', -⟩
    · rcases List.mem_append.mp hl with hl | hl
      · exact hinv.commandKey t htm k hl
      · exact hfits.commandKey k hl
    · exact hinv.commandKey t' ht' k hl
  case positive => exact Int.lt_of_lt_of_le hinv.positive hfits.seq
  case sequence => exact fun a ha => Int.lt_of_lt_of_le (hinv.sequence a ha) hfits.seq
  case pending =>
    intro t' ht' a hw
    rcases hold t' ht' with rfl | ⟨ht', -⟩
    · rcases List.mem_append.mp hw with hw | hw
      · exact Int.lt_of_lt_of_le (hinv.pending t htm a hw) hfits.seq
      · exact hfits.drawn a hw
    · exact Int.lt_of_lt_of_le (hinv.pending t' ht' a hw) hfits.seq
  case chronicle => exact hinv.chronicle
  case db => exact hinv.db
  case seen => exact hinv.seen
  case decisions => exact hinv.decisions

end Server.Inv

omit [Backend] in
/-- The activity after some writes is what was there and what they insert. -/
theorem Db.mem_activity_putAll {ws : List Write} {a : ActivityRow} :
    ∀ {db : Db}, a ∈ (db.putAll ws).activity → a ∈ db.activity ∨ .insertActivity a ∈ ws := by
  induction ws with
  | nil => exact .inl
  | cons w ws ih =>
    intro db ha
    rcases ih ha with ha | ha
    · rw [Db.activity_put] at ha
      rcases List.mem_append.mp ha with ha | ha
      · exact .inl ha
      · cases w with
        | insertActivity row =>
          obtain rfl := List.mem_singleton.mp ha
          exact .inr List.mem_cons_self
        | _ => cases ha
    · exact .inr (List.mem_cons_of_mem _ ha)

namespace Server

variable {srv : Server}

omit [Backend] in
theorem commitTx_log (srv : Server) (t : Tx) :
    srv.log <+: (srv.commitTx t).log := by
  unfold commitTx
  split
  · exact List.prefix_refl _
  · exact List.prefix_append _ _

omit [Backend] in
/-- What was committed before stays as it was. -/
theorem asOf_of_le {srv srv' : Server} (h : srv.log <+: srv'.log) {n : ℕ}
    (hn : n ≤ srv.log.length) : srv'.asOf n = srv.asOf n := by
  obtain ⟨more, hmore⟩ := h
  unfold asOf
  rw [← hmore, List.take_append_of_le_length hn]

theorem Inv.commitTx (hinv : srv.Inv) {i : Session Op} {t : Tx} (ht : srv.tx? i = some t)
    (hatomic : t.writes = [] ∨ Atomic srv.db t) : (srv.commitTx t).Inv := by
  obtain ⟨htm, hid⟩ := tx?_mem ht
  have hmem : ∀ t' ∈ (srv.commitTx t).txs, t' ∈ srv.txs ∧ t.owner.id ≠ t'.owner.id :=
    fun t' ht' => ⟨(mem_endTx ht').1, (mem_endTx ht').2.symm⟩
  -- What another transaction owns is not among what is put in place.
  have hhold : ∀ t' ∈ (srv.commitTx t).txs, ∀ h, t'.Owns h →
      (srv.db.putAll t.writes).hold? h = srv.db.hold? h := fun t' ht' h ho =>
    Db.hold?_putAll_of_ne (hinv.holdId_ne htm (hmem t' ht').1 (hmem t' ht').2 ho) _
  constructor
  case owners => exact hinv.owners.filter _
  case exclusive =>
    exact fun t₁ h₁ t₂ h₂ => hinv.exclusive t₁ (hmem t₁ h₁).1 t₂ (hmem t₂ h₂).1
  case guarded => exact fun t' ht' => hinv.guarded t' (hmem t' ht').1
  case holdKey =>
    intro t' ht' h hl
    exact (hhold t' ht' h (.inr hl)).trans (hinv.holdKey t' (hmem t' ht').1 h hl)
  case rowLock =>
    intro t' ht' h hl hnone
    exact hinv.rowLock t' (hmem t' ht').1 h hl ((hhold t' ht' h (.inl hl)).symm.trans hnone)
  case commandKey =>
    intro t' ht' k hl
    have hne := hinv.commandKey_ne htm (hmem t' ht').1 (hmem t' ht').2 hl
    exact (Db.command?_putAll_of_ne hne _).trans (hinv.commandKey t' (hmem t' ht').1 k hl)
  case positive => exact hinv.positive
  case sequence =>
    intro a ha
    rcases Db.mem_activity_putAll ha with ha | ha
    · exact hinv.sequence a ha
    · exact hinv.pending t htm a ha
  case pending => exact fun t' ht' => hinv.pending t' (hmem t' ht').1
  case chronicle =>
    show Chronicle (if t.writes.isEmpty then srv.log else srv.log ++ [t])
    -- A transaction without writes, a read or a replay, is not logged.
    split
    · exact hinv.chronicle
    · next hne =>
      refine .snoc hinv.chronicle ?_
      rw [← hinv.db]
      exact hatomic.resolve_left fun h => hne (by rw [h]; rfl)
  case db =>
    show srv.db.putAll t.writes =
      replayLog (if t.writes.isEmpty then srv.log else srv.log ++ [t])
    split
    · next hempty =>
      rw [List.isEmpty_iff.mp hempty, Db.putAll_nil, hinv.db]
    · rw [replayLog_snoc, hinv.db]
  case seen =>
    intro e he
    exact Nat.le_trans (hinv.seen e he) (commitTx_log srv t).length_le
  case decisions =>
    intro row hr
    obtain ⟨e, he, input, hop, hstmt, hrow⟩ := hinv.decisions row hr
    refine ⟨e, he, input, hop, hstmt, ?_⟩
    rw [asOf_of_le (commitTx_log srv t) (hinv.seen e he)]
    exact hrow

end Server

/-! ### What a session relies on -/

/-- Whatever else has happened, what session `i` has seen stays as it was, and histories only
grow. -/
structure Kept (i : Session Op) (srv srv' : Server) : Prop where
  events : srv'.eventsOf i = srv.eventsOf i
  log : srv.log <+: srv'.log
  trace : srv.trace <+: srv'.trace
  decisions : srv.decisions <+: srv'.decisions

/-- What a step of another session leaves to session `i`: its statements and its transaction, and
everything that the transaction owns. -/
structure Frame (i : Session Op) (srv srv' : Server) : Prop extends Kept i srv srv' where
  tx : srv'.tx? i = srv.tx? i
  hold : ∀ t, srv.tx? i = some t → ∀ h, t.Owns h → srv'.db.hold? h = srv.db.hold? h ∧
    srv'.db.scopesOf h = srv.db.scopesOf h ∧ srv'.db.activityOf h = srv.db.activityOf h
  command : ∀ t, srv.tx? i = some t → ∀ k, .commandKey k ∈ t.locks →
    srv'.db.command? k = srv.db.command? k

namespace Frame

variable {i j : Session Op} {srv srv' srv'' : Server}

omit [Backend]

theorem refl (i : Session Op) (srv : Server) : Frame i srv srv where
  tx := rfl
  events := rfl
  hold _ _ _ _ := ⟨rfl, rfl, rfl⟩
  command _ _ _ _ := rfl
  log := List.prefix_refl _
  trace := List.prefix_refl _
  decisions := List.prefix_refl _

theorem trans (h : Frame i srv srv') (h' : Frame i srv' srv'') : Frame i srv srv'' where
  tx := h'.tx.trans h.tx
  events := h'.events.trans h.events
  hold t ht h₀ ho := by
    obtain ⟨a, b, c⟩ := h.hold t ht h₀ ho
    obtain ⟨a', b', c'⟩ := h'.hold t (h.tx.trans ht) h₀ ho
    exact ⟨a'.trans a, b'.trans b, c'.trans c⟩
  command t ht k hk := (h'.command t (h.tx.trans ht) k hk).trans (h.command t ht k hk)
  log := h.log.trans h'.log
  trace := h.trace.trans h'.trace
  decisions := h.decisions.trans h'.decisions

/-- A change that leaves the tables alone keeps the frame of every session that it does not belong
to. -/
theorem of_db (htx : srv'.tx? i = srv.tx? i) (htrace : srv'.trace = srv.trace)
    (hdb : srv'.db = srv.db) (hlog : srv'.log = srv.log)
    (hdecisions : srv.decisions <+: srv'.decisions) : Frame i srv srv' where
  tx := htx
  events := by unfold Server.eventsOf; rw [htrace]
  hold _ _ _ _ := by rw [hdb]; exact ⟨rfl, rfl, rfl⟩
  command _ _ _ _ := by rw [hdb]
  log := hlog ▸ List.prefix_refl _
  trace := htrace ▸ List.prefix_refl _
  decisions := hdecisions

theorem note (hne : j.id ≠ i.id) (srv : Server) (s : Stmt) (f : Fate) (seen : ℕ) :
    Frame j srv (srv.note i s f seen) where
  tx := rfl
  events := by simp [Server.eventsOf, Server.note, List.filter_append, hne.symm]
  hold _ _ _ _ := ⟨rfl, rfl, rfl⟩
  command _ _ _ _ := rfl
  log := List.prefix_refl _
  trace := List.prefix_append _ _
  decisions := List.prefix_refl _

theorem endTx (hne : j.id ≠ i.id) (srv : Server) : Frame j srv (srv.endTx i) :=
  of_db (Server.tx?_endTx_other hne) rfl rfl rfl (List.prefix_refl _)

theorem begin (hne : j.id ≠ i.id) (srv : Server) :
    Frame j srv { srv with txs := ⟨i, srv.clock, [], []⟩ :: srv.txs } :=
  of_db (by simp [Server.tx?, hne.symm]) rfl rfl rfl (List.prefix_refl _)

theorem applied {α : Type} (hne : j.id ≠ i.id) {t : Tx} (hid : t.owner.id = i.id)
    (e : Effect α) : Frame j srv (srv.applied t e) :=
  of_db (Server.tx?_setTx_other (by rw [Tx.extend_owner, hid]; exact hne)) rfl rfl rfl
    (List.prefix_refl _)

end Frame

omit [Backend] in
/-- A session that lets go of the server has seen what it has seen. -/
theorem Kept.endTx (i : Session Op) (srv : Server) : Kept i srv (srv.endTx i) :=
  ⟨rfl, List.prefix_refl _, List.prefix_refl _, List.prefix_refl _⟩

/-- Another session's commit leaves everything a session owns as it was. -/
theorem Frame.commitTx {i j : Session Op} {srv : Server} (hne : j.id ≠ i.id) (hinv : srv.Inv)
    {t : Tx} (ht : srv.tx? i = some t) : Frame j srv (srv.commitTx t) := by
  obtain ⟨htm, hid⟩ := Server.tx?_mem ht
  have hids : ∀ t', srv.tx? j = some t' → t' ∈ srv.txs ∧ t.owner.id ≠ t'.owner.id := by
    intro t' ht'
    obtain ⟨htm', hid'⟩ := Server.tx?_mem ht'
    exact ⟨htm', by rw [hid, hid']; exact hne.symm⟩
  refine ⟨⟨rfl, Server.commitTx_log srv t, List.prefix_refl _, List.prefix_refl _⟩,
    Server.tx?_endTx_other (by rw [hid]; exact hne), ?_, ?_⟩
  · intro t' ht' h ho
    have hw := hinv.holdId_ne htm (hids t' ht').1 (hids t' ht').2 ho
    exact ⟨Db.hold?_putAll_of_ne hw _, Db.scopesOf_putAll_of_ne hw _,
      Db.activityOf_putAll_of_ne hw _⟩
  · intro t' ht' k hk
    exact Db.command?_putAll_of_ne (hinv.commandKey_ne htm (hids t' ht').1 (hids t' ht').2 hk) _

/-! ### Executing a statement -/

/-- What session `i` has to make sure of before it issues the statement. -/
def Server.Ready (srv : Server) (i : Session Op) : Stmt → Prop
  | .commit => ∀ t, srv.tx? i = some t → t.writes = [] ∨ Atomic srv.db t
  | .query q => ∀ t, srv.tx? i = some t → t.Covers q
  | .pool (.insertDecision decisionId actionId caller hash allowed reasonCode holds) =>
    srv.Justifies ⟨decisionId, actionId, caller, hash, allowed, reasonCode, holds, srv.clock⟩
  | _ => True

/-- A statement of a transaction extends it by the statement's effect. -/
theorem Server.perform_query {srv srv' : Server} {i : Session Op} {t : Tx} {q : Query}
    {r : Stmt.Reply (.query q)} (ht : srv.tx? i = some t)
    (h : srv.perform i (.query q) = some (srv', r)) :
    srv.blocks i (q.effect (srv.view t) t.startedAt srv.seq).locks = false ∧
      srv' = srv.applied t (q.effect (srv.view t) t.startedAt srv.seq) ∧
      r = (q.effect (srv.view t) t.startedAt srv.seq).reply := by
  simp only [Server.perform, ht] at h
  split at h
  · cases h
  · next hb =>
    cases h
    exact ⟨by simpa using hb, rfl, rfl⟩

/-- What a statement of session `i` can make of the server, one case for each way it can turn
out. -/
inductive Server.Moved (i : Session Op) (srv : Server) : Stmt → Server → Prop where
  /-- It has only read, or it was refused. -/
  | same {s : Stmt} : Moved i srv s srv
  | begun (idle : srv.tx? i = none) :
      Moved i srv .begin { srv with txs := ⟨i, srv.clock, [], []⟩ :: srv.txs }
  | committed {t : Tx} (tx : srv.tx? i = some t) : Moved i srv .commit (srv.commitTx t)
  | applied {t : Tx} {q : Query} (tx : srv.tx? i = some t)
      (free : srv.blocks i (q.effect (srv.view t) t.startedAt srv.seq).locks = false) :
      Moved i srv (.query q) (srv.applied t (q.effect (srv.view t) t.startedAt srv.seq))
  | decided {decisionId actionId caller : String} {hash : List UInt8} {allowed : Bool}
      {reasonCode : Option String} {holds : Json} :
      Moved i srv (.pool (.insertDecision decisionId actionId caller hash allowed reasonCode holds))
        { srv with decisions := srv.decisions ++
            [⟨decisionId, actionId, caller, hash, allowed, reasonCode, holds, srv.clock⟩] }

/-- **What carrying out a statement does**: it begins or ends a transaction, adds to the one that
is open, or works on the pool. -/
theorem Server.perform_moved {srv srv' : Server} {i : Session Op} {s : Stmt} {r : s.Reply}
    (h : srv.perform i s = some (srv', r)) : srv.Moved i s srv' := by
  cases s with
  | begin =>
    cases ht : srv.tx? i with
    | some t =>
      simp only [Server.perform, ht, Option.some.injEq, Prod.mk.injEq] at h
      exact h.1 ▸ .same
    | none =>
      simp only [Server.perform, ht, Option.some.injEq, Prod.mk.injEq] at h
      exact h.1 ▸ .begun ht
  | commit =>
    cases ht : srv.tx? i with
    | none =>
      simp only [Server.perform, ht, Option.some.injEq, Prod.mk.injEq] at h
      exact h.1 ▸ .same
    | some t =>
      simp only [Server.perform, ht, Option.some.injEq, Prod.mk.injEq] at h
      exact h.1 ▸ .committed ht
  -- A query outside of a transaction is an error and changes nothing.
  | query q =>
    cases ht : srv.tx? i with
    | none =>
      simp only [Server.perform, ht, Option.some.injEq, Prod.mk.injEq] at h
      exact h.1 ▸ .same
    | some t =>
      obtain ⟨hfree, rfl, -⟩ := Server.perform_query ht h
      exact .applied ht hfree
  | pool q =>
    simp only [Server.perform] at h
    cases q with
    -- This is the one statement on the pool that writes.
    | insertDecision decisionId actionId caller hash allowed reasonCode holds =>
      simp only [Server.pool] at h
      split at h
      · cases h
        exact .same
      · cases h
        exact .decided
    | _ =>
      cases h
      exact .same

/-- What executing a statement does, whatever becomes of it: it is carried out and noted, though
its reply may be lost. -/
theorem Server.exec_moved {srv srv' : Server} {i : Session Op} {s : Stmt} {f : Fate} {r : s.Reply}
    (h : srv.exec i s f = some (srv', r)) :
    ∃ srv₁, srv.Moved i s srv₁ ∧ srv' = srv₁.note i s f srv.log.length := by
  cases f with
  | done =>
    obtain ⟨⟨srv₁, r₁⟩, h₁, heq⟩ := Option.map_eq_some_iff.mp h
    cases heq
    exact ⟨srv₁, Server.perform_moved h₁, rfl⟩
  | failed =>
    simp only [Server.exec, Option.some.injEq, Prod.mk.injEq] at h
    exact ⟨srv, .same, h.1.symm⟩
  | lost =>
    obtain ⟨⟨srv₁, r₁⟩, h₁, heq⟩ := Option.map_eq_some_iff.mp h
    cases heq
    exact ⟨srv₁, Server.perform_moved h₁, rfl⟩

theorem Server.Moved.trace {srv srv' : Server} {i : Session Op} {s : Stmt}
    (h : srv.Moved i s srv') : srv'.trace = srv.trace := by
  cases h <;> rfl

theorem Server.Moved.log {srv srv' : Server} {i : Session Op} {s : Stmt}
    (h : srv.Moved i s srv') : srv.log <+: srv'.log := by
  cases h with
  | committed => exact Server.commitTx_log srv _
  | _ => exact List.prefix_refl _

/-- The transactions of other sessions are not touched by a statement. -/
theorem Server.Moved.tx?_other {srv srv' : Server} {i j : Session Op} {s : Stmt}
    (h : srv.Moved i s srv') (hne : j.id ≠ i.id) : srv'.tx? j = srv.tx? j := by
  cases h with
  | begun idle =>
    unfold Server.tx?
    rw [List.find?_cons_of_neg (by simpa using hne.symm)]
  | @committed t tx =>
    have hid := (Server.tx?_mem tx).2
    exact Server.tx?_endTx_other (i := t.owner) (by rw [hid]; exact hne)
  | @applied t q tx free =>
    have hid := (Server.tx?_mem tx).2
    exact Server.tx?_setTx_other (by rw [Tx.extend_owner, hid]; exact hne)
  | _ => rfl

/-- **A ready statement keeps the invariant**, and what every other session
relies on. -/
theorem Server.Inv.moved {srv srv' : Server} {i : Session Op} {s : Stmt} (hinv : srv.Inv)
    (hready : srv.Ready i s) (h : srv.Moved i s srv') :
    srv'.Inv ∧ ∀ j : Session Op, j.id ≠ i.id → Frame j srv srv' := by
  cases h with
  | same => exact ⟨hinv, fun j _ => Frame.refl j _⟩
  | begun idle => exact ⟨hinv.begin idle, fun j hne => Frame.begin hne srv⟩
  | committed tx =>
    exact ⟨hinv.commitTx tx (hready _ tx), fun j hne => Frame.commitTx hne hinv tx⟩
  | applied tx free =>
    exact ⟨hinv.applied tx (Query.effect_fits (hready _ tx)) free,
      fun j hne => Frame.applied hne (Server.tx?_mem tx).2 _⟩
  | decided =>
    refine ⟨{ hinv with decisions := fun row hr => ?_ },
      fun j _ => Frame.of_db rfl rfl rfl rfl (List.prefix_append _ _)⟩
    rcases List.mem_append.mp hr with hr | hr
    · exact hinv.decisions row hr
    · obtain rfl := List.mem_singleton.mp hr
      exact hready

/-- The invariant is kept by a statement that its session is ready for, whatever becomes of it,
and all other sessions keep their frame. -/
theorem Server.Inv.exec {srv srv' : Server} {i : Session Op} {s : Stmt} {f : Fate} {r : s.Reply}
    (hinv : srv.Inv) (hready : srv.Ready i s) (h : srv.exec i s f = some (srv', r)) :
    srv'.Inv ∧ ∀ j : Session Op, j.id ≠ i.id → Frame j srv srv' := by
  obtain ⟨srv₁, hmoved, rfl⟩ := Server.exec_moved h
  obtain ⟨hinv₁, hframe⟩ := hinv.moved hready hmoved
  exact ⟨hinv₁.note i s f hmoved.log.length_le,
    fun j hne => (hframe j hne).trans (Frame.note hne srv₁ s f _)⟩

/-- The sessions' common ground: the invariant, and what each relies on. -/
def discipline : Discipline machine where
  inv := Server.Inv
  rely := Frame
  fresh i srv := srv.tx? i = none ∧ srv.eventsOf i = []
  rely_refl := Frame.refl
  rely_trans := Frame.trans
  fresh_rely h hframe := ⟨hframe.tx.trans h.1, hframe.events.trans h.2⟩
  release_inv hinv := hinv.endTx _
  release_rely hne _ := Frame.endTx hne.symm _
  move_inv hinv := { hinv with }
  move_rely _ := Frame.of_db rfl rfl rfl rfl (List.prefix_refl _)

end

end LegalHold
