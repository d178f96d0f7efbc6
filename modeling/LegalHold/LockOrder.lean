import LegalHold.Commits
import LegalHold.Interleave.Protocol

/-!
# The order of the locks

The order in which a session takes its locks.  A transaction first takes its
hold, by inserting it or with `FOR UPDATE`; after that it asks only for rows of
that hold, and last of all for the key of its receipt, after which it only
commits.

## Main definitions

* `Phase`, `lockOrder` — the order of the locks as a protocol.
* `Tx.Tidy` — a transaction with locks on a hold has taken that hold.

## Main results

* `program_leads` — the programs of all operations keep to the order.
* `lockOrder_sound`, `Reachable.lockOrder_kept` — **and so do all sessions of a
  run**.
-/

namespace LegalHold

open Interleave

/-! ### The order of the locks -/

/-- The hold that a lock is about; the lock on the key of a receipt is about none. -/
def Lock.holdId : Lock → Option String
  | .row _ h => some h
  | .holdKey h => some h
  | .scopeKey h _ => some h
  | .commandKey _ => none

/-- How far the transaction of a session has come: which locks it has taken, and what it has
written. -/
inductive Phase where
  /-- There is none. -/
  | outside
  /-- It has taken no lock. -/
  | begun
  /-- It has its hold, and locks on the rows of that hold only. -/
  | owning (holdId : String)
  /-- It has stored its receipt. -/
  | stored
  /-- A statement has failed. -/
  | closed

/-- The statements issued before the hold is taken, and the ones that take it. -/
def Query.opens : Query → Bool
  | .selectCommand _ | .insertHold .. | .lockHold .. | .selectHold .. | .selectScopes _ => true
  | _ => false

/-- The statements issued by a transaction that has taken the hold `h`. -/
def Query.within (h : String) : Query → Prop
  | .insertScope h' .. | .deleteScope h' _ | .advanceRevision h' | .releaseHold h' ..
  | .insertActivity _ h' .. => h' = h
  | .selectHold .. | .selectScopes _ | .insertCommand .. => True
  | _ => False

namespace Phase

/-- The statements that a session may issue in a phase, as the operations of the storage are
written. -/
def may : Phase → Stmt → Prop
  | .outside, .begin | .outside, .pool _ | .begun, .commit | .stored, .commit => True
  | .begun, .query q => q.opens
  | .owning h, .query q => q.within h
  | _, _ => False

/-- The phase after a statement of a transaction that has no lock yet. -/
def opened : (q : Query) → q.Rows → Phase
  | .insertHold h .., (inserted : ℕ) => if inserted = 1 then .owning h else .begun
  | .lockHold _ h, (row : Option (Status × Int)) => if row.isSome then .owning h else .begun
  | _, _ => .begun

/-- The phase that a session is in after it has received the reply to a statement. -/
def next : Phase → (s : Stmt) → s.Reply → Phase
  | _, _, .error _ => .closed
  | .outside, .begin, .ok _ => .begun
  | .outside, _, .ok _ => .outside
  | .begun, .query q, .ok rows => opened q rows
  | .owning _, .query (.insertCommand ..), .ok _ => .stored
  | .owning h, _, .ok _ => .owning h
  | _, _, .ok _ => .outside

theorem next_error (φ : Phase) (s : Stmt) (e : SqlError) : next φ s (.error e) = .closed := by
  cases φ <;> rfl

/-- What a phase says about the transaction of its session and about its locks. -/
def holds : Phase → Session Op → Server → Prop
  | .outside, i, srv => srv.tx? i = none
  | .begun, i, srv => ∃ t, srv.tx? i = some t ∧ t.locks = []
  | .owning h, i, srv => ∃ t, srv.tx? i = some t ∧ t.Owns h ∧ ∀ l ∈ t.locks, l.holdId = some h
  | _, _, _ => True

end Phase

/-- Whoever has a lock on a row of a hold has taken the hold. -/
def Tx.Tidy (t : Tx) : Prop := ∀ l ∈ t.locks, ∀ h, l.holdId = some h → t.Owns h

section

variable [Backend]

/-- The protocol of the order in which locks are taken: the hold first, and then what belongs to
it, and the key of the receipt last. -/
@[reducible] def lockOrder : Protocol machine where
  Phase := Phase
  start := .outside
  may := Phase.may
  next := Phase.next
  inv srv := ∀ t ∈ srv.txs, t.Tidy
  holds := Phase.holds

/-! ### The programs keep to it -/

theorem Leads.issue {φ : Phase} {operation : String} {s : Stmt} {Q : s.Rows → Phase → Prop}
    (hmay : Phase.may φ s) (hok : ∀ rows, Q rows (Phase.next φ s (.ok rows))) :
    lockOrder.Leads φ (issue operation s) Q := by
  refine ⟨hmay, fun r => ?_⟩
  cases r with
  | ok rows =>
    intro a ha
    cases ha
    exact hok rows
  | error e => exact fun a ha => by cases ha

/-- A statement that does not end the phase. -/
theorem Leads.stay {φ : Phase} {operation : String} {s : Stmt} (hmay : Phase.may φ s)
    (hstay : ∀ rows, Phase.next φ s (.ok rows) = φ) :
    lockOrder.Leads φ (LegalHold.issue operation s) fun _ ψ => ψ = φ :=
  Leads.issue hmay hstay

/-- Looking for a receipt takes no lock, and leaves the session where it was. -/
theorem replay_leads {caller actor key : String} {operation : Operation} {hash : List UInt8} :
    lockOrder.Leads (.begun : Phase) (replay caller actor operation key hash)
      fun _ ψ => ψ = .begun := by
  refine (Leads.stay (by trivial) fun _ => rfl).bind fun row ψ hψ => ?_
  subst hψ
  cases row with
  | none => exact Protocol.Leads.ret fun _ _ => rfl
  | some row =>
    dsimp only
    split
    · exact Protocol.Leads.ret fun _ h => by cases h
    · exact Protocol.Leads.ret fun _ _ => rfl

/-- Reading a hold with its scopes takes no lock, in whatever phase it may be read. -/
theorem loadHoldTx_leads {φ : Phase} {org h : String}
    (hmay : ∀ q, q = .selectHold org h ∨ q = .selectScopes h → Phase.may φ (.query q))
    (hrow : ∀ rows, Phase.next φ (.query (.selectHold org h)) (.ok rows) = φ)
    (hscopes : ∀ rows, Phase.next φ (.query (.selectScopes h)) (.ok rows) = φ) :
    lockOrder.Leads φ (loadHoldTx org h) fun _ ψ => ψ = φ := by
  refine (Leads.stay (hmay _ (.inl rfl)) hrow).bind fun row ψ hψ => ?_
  subst hψ
  cases row with
  | none => exact Protocol.Leads.ret fun _ h => by cases h
  | some row =>
    refine (Leads.stay (hmay _ (.inr rfl)) hscopes).bind fun rows ψ' hψ' => ?_
    subst hψ'
    exact Protocol.Leads.ret fun _ _ => rfl

/-- What all mutations share: the receipt is the last lock that is asked for. -/
theorem conclude_leads {c : Command} {operation : String} :
    lockOrder.Leads (.owning c.holdId : Phase) (c.conclude operation)
      fun _ ψ => ψ = .outside := by
  refine (Leads.stay (by rfl) fun _ => rfl).bind fun _ ψ hψ => ?_
  subst hψ
  refine (loadHoldTx_leads (by rintro q (rfl | rfl) <;> trivial) (fun _ => rfl)
    fun _ => rfl).bind fun view ψ hψ => ?_
  subst hψ
  refine (Leads.issue (Q := fun _ ψ => ψ = .stored) (by trivial) fun _ => rfl).bind fun _ ψ hψ => ?_
  subst hψ
  refine (Leads.issue (Q := fun _ ψ => ψ = .outside) (by trivial)
    fun _ => rfl).bind fun _ ψ hψ => ?_
  exact Protocol.Leads.ret fun _ _ => hψ

/-- The part of a mutation before its receipt is looked for. -/
theorem start_leads {caller actor key operation : String} {op : Operation} {hash : List UInt8}
    {fresh : Storage HoldView}
    (hfresh : lockOrder.Leads (.begun : Phase) fresh fun _ ψ => ψ = .outside) :
    lockOrder.Leads (.outside : Phase) (do
      issue operation .begin
      match ← replay caller actor op key hash with
      | some response => decodeResponse response
      | none => fresh) fun _ _ => True := by
  refine (Leads.issue (Q := fun _ ψ => ψ = .begun) (by trivial) fun _ => rfl).bind fun _ ψ hψ => ?_
  subst hψ
  refine replay_leads.bind fun response ψ hψ => ?_
  subst hψ
  cases response with
  | some response => exact Protocol.Leads.ret fun _ _ => trivial
  | none => exact hfresh.mono fun _ _ _ => trivial

theorem insertHold_leads {h org title reason authority createdBy : String} :
    lockOrder.Leads (.begun : Phase)
      (issue "insert legal hold" (.query (.insertHold h org title reason authority createdBy)))
      fun (inserted : ℕ) ψ => inserted = 1 → ψ = .owning h :=
  Leads.issue rfl fun _ hone => if_pos hone

theorem createHold_leads (input : CreateHold) :
    lockOrder.Leads (.outside : Phase) (createHold input) fun _ _ => True := by
  refine start_leads ?_
  refine insertHold_leads.bind fun (inserted : ℕ) ψ hψ => ?_
  refine Protocol.Leads.ite (fun _ => Protocol.Leads.ret fun _ h => by cases h) fun hone => ?_
  obtain rfl := hψ (Decidable.not_not.mp hone)
  exact conclude_leads (c := input.command)

/-- Locking the row of a hold is what takes the hold. -/
theorem lockHold_leads {org h : String} :
    lockOrder.Leads (.begun : Phase) (lockHold org h) fun _ ψ => ψ = .owning h := by
  have hissue : lockOrder.Leads (.begun : Phase)
      (issue "lock legal hold" (.query (.lockHold org h)))
      fun (row : Option (Status × Int)) ψ => row.isSome → ψ = .owning h :=
    Leads.issue rfl fun _ hsome => if_pos hsome
  refine hissue.bind fun (row : Option (Status × Int)) ψ hψ => ?_
  cases row with
  | none => exact Protocol.Leads.ret fun _ h => by cases h
  | some row => exact Protocol.Leads.ret fun _ _ => hψ rfl

/-- The checks of status and revision are made under the row lock, and what comes after them owns
the hold. -/
theorem checks_leads {org h : String} {revision : Int} {rest : Storage HoldView}
    (hrest : lockOrder.Leads (.owning h : Phase) rest fun _ ψ => ψ = .outside) :
    lockOrder.Leads (.begun : Phase) (do
      let (status, found) ← lockHold org h
      if status ≠ .active then refuse .holdReleased
      else if found ≠ revision then refuse .revisionConflict
      else rest) fun _ ψ => ψ = .outside := by
  refine lockHold_leads.bind fun row ψ hψ => ?_
  subst hψ
  dsimp only
  refine Protocol.Leads.ite (fun _ => Protocol.Leads.ret fun _ h => by cases h) fun _ => ?_
  exact Protocol.Leads.ite (fun _ => Protocol.Leads.ret fun _ h => by cases h) fun _ => hrest

/-- A change of the scopes, and the new revision. -/
theorem change_leads {change : Storage ℕ} {h : String} {rest : Storage HoldView}
    (hchange : lockOrder.Leads (.owning h : Phase) change fun _ ψ => ψ = .owning h)
    (hrest : lockOrder.Leads (.owning h : Phase) rest fun _ ψ => ψ = .outside) :
    lockOrder.Leads (.owning h : Phase) (do
      let changed ← change
      if changed ≠ 1 then refuse .scopeConflict
      else
        issue "advance legal hold revision" (.query (.advanceRevision h))
        rest) fun _ ψ => ψ = .outside := by
  refine hchange.bind fun changed ψ hψ => ?_
  subst hψ
  refine Protocol.Leads.ite (fun _ => Protocol.Leads.ret fun _ h => by cases h) fun _ => ?_
  refine (Leads.stay (by rfl) fun _ => rfl).bind fun _ ψ hψ => ?_
  subst hψ
  exact hrest

theorem mutateScope_leads (input : ScopeRequest) :
    lockOrder.Leads (.outside : Phase)
        (mutateScope { input with operation := .addScope, add := true }) (fun _ _ => True) ∧
      lockOrder.Leads (.outside : Phase)
        (mutateScope { input with operation := .removeScope, add := false }) fun _ _ => True := by
  constructor
  · refine start_leads (checks_leads (change_leads ?_ (conclude_leads (c := input.command true))))
    exact Leads.stay (by rfl) fun _ => rfl
  · refine start_leads (checks_leads (change_leads ?_ (conclude_leads (c := input.command false))))
    exact Leads.stay (by rfl) fun _ => rfl

theorem releaseHold_leads (input : ReleaseHold) :
    lockOrder.Leads (.outside : Phase) (releaseHold input) fun _ _ => True := by
  refine start_leads (checks_leads ?_)
  refine (Leads.stay (by rfl) fun _ => rfl).bind fun _ ψ hψ => ?_
  subst hψ
  exact conclude_leads (c := input.command)

theorem getHold_leads {org h : String} :
    lockOrder.Leads (.outside : Phase) (getHold org h) fun _ ψ => ψ = .outside := by
  refine (Leads.issue (Q := fun _ ψ => ψ = .begun) (by trivial) fun _ => rfl).bind fun _ ψ hψ => ?_
  subst hψ
  refine (loadHoldTx_leads (by rintro q (rfl | rfl) <;> trivial) (fun _ => rfl)
    fun _ => rfl).bind fun view ψ hψ => ?_
  subst hψ
  refine (Leads.issue (Q := fun _ ψ => ψ = .outside) (by trivial)
    fun _ => rfl).bind fun _ ψ hψ => ?_
  exact Protocol.Leads.ret fun _ _ => hψ

theorem listHolds_leads {org : String} {status : Option Status} {cursor : Option String}
    {limit : Int} :
    lockOrder.Leads (.outside : Phase) (listHolds org status cursor limit) fun _ _ => True := by
  -- each hold of the page is read in a transaction of its own
  have hcollect : ∀ ids, lockOrder.Leads (.outside : Phase) (listHolds.collect org ids)
      fun _ ψ => ψ = .outside := by
    intro ids
    induction ids with
    | nil => exact Protocol.Leads.ret fun _ _ => rfl
    | cons h rest ih =>
      refine getHold_leads.bind fun view ψ hψ => ?_
      subst hψ
      refine ih.bind fun views ψ hψ => ?_
      exact Protocol.Leads.ret fun _ _ => hψ
  refine (Leads.stay (by trivial) fun _ => rfl).bind fun rows ψ hψ => ?_
  subst hψ
  exact (hcollect _).bind fun views ψ _ => Protocol.Leads.ret fun _ _ => trivial

theorem listActivity_leads {org h : String} {after limit : Int} :
    lockOrder.Leads (.outside : Phase) (listActivity org h after limit) fun _ _ => True := by
  refine getHold_leads.bind fun view ψ hψ => ?_
  subst hψ
  refine (Leads.stay (by trivial) fun _ => rfl).bind fun rows ψ _ => ?_
  refine Protocol.Leads.bind (Q := fun _ _ => True) (Protocol.Leads.ret fun _ _ => trivial)
    fun events ψ _ => ?_
  exact Protocol.Leads.ret fun _ _ => trivial

theorem checkRetention_leads (input : RetentionCheck) :
    lockOrder.Leads (.outside : Phase) (checkRetention input) fun _ _ => True := by
  refine (Leads.stay (by trivial) fun _ => rfl).bind fun rows ψ hψ => ?_
  subst hψ
  refine (Leads.stay (by trivial) fun _ => rfl).bind fun _ ψ _ => ?_
  exact Protocol.Leads.ret fun _ _ => trivial

/-- **All programs keep to the order of the locks.** -/
theorem program_leads (op : Op) :
    lockOrder.Leads (.outside : Phase) (program op) fun _ _ => True := by
  cases op with
  | createHold input => exact (createHold_leads input).map
  | addScope input => exact (mutateScope_leads input).1.map
  | removeScope input => exact (mutateScope_leads input).2.map
  | releaseHold input => exact (releaseHold_leads input).map
  | getHold org h => exact (getHold_leads.mono fun _ _ _ => trivial).map
  | listHolds org status cursor limit => exact listHolds_leads.map
  | listActivity org h after limit => exact listActivity_leads.map
  | checkRetention input => exact (checkRetention_leads input).map

/-! ### What the phases say -/

/-- The statement that takes the hold locks nothing else. -/
theorem Query.opens_locks {q : Query} (hq : q.opens = true) (db : Db) (now : Time)
    (seq : Sequences) :
    ((q.effect db now seq).locks = [] ∧
      ∀ rows, (q.effect db now seq).reply = .ok rows → Phase.opened q rows = .begun) ∨
    ∃ h, ((q.effect db now seq).locks = [.holdKey h] ∨
        (q.effect db now seq).locks = [.row .forUpdate h]) ∧
      ∀ rows, (q.effect db now seq).reply = .ok rows → Phase.opened q rows = .owning h := by
  cases q with
  -- A new hold locks its key; where there is a row already, nothing is inserted and nothing
  -- locked.
  | insertHold h org title reason authority createdBy =>
    cases hr : db.hold? h with
    | some row =>
      refine .inl ⟨by simp [Query.effect, hr], fun rows hrows => ?_⟩
      simp only [Query.effect, hr] at hrows
      cases hrows
      rfl
    | none =>
      refine .inr ⟨h, .inl (by simp [Query.effect, hr]), fun rows hrows => ?_⟩
      simp only [Query.effect, hr] at hrows
      cases hrows
      rfl
  -- `FOR UPDATE` locks the row that it returns, if there is one in the organization.
  | lockHold org h =>
    cases hr : (db.hold? h).filter (·.organizationId = org) with
    | none =>
      refine .inl ⟨by simp [Query.effect, hr], fun rows hrows => ?_⟩
      simp only [Query.effect, hr] at hrows
      cases hrows
      rfl
    | some row =>
      refine .inr ⟨h, .inr (by simp [Query.effect, hr]), fun rows hrows => ?_⟩
      simp only [Query.effect, hr] at hrows
      cases hrows
      rfl
  | selectCommand key => exact .inl ⟨rfl, fun rows _ => rfl⟩
  | selectHold org h => exact .inl ⟨rfl, fun rows _ => rfl⟩
  | selectScopes h => exact .inl ⟨rfl, fun rows _ => rfl⟩
  | _ => cases hq

/-- A statement that is issued while the session owns a hold locks rows of that hold, or the key
of the receipt. -/
theorem Query.within_locks {q : Query} {h : String} (hq : q.within h) (db : Db) (now : Time)
    (seq : Sequences) :
    (∀ l ∈ (q.effect db now seq).locks, l.holdId = some h) ∨
      ∃ key hash response, q = .insertCommand key hash response ∧
        ∀ l ∈ (q.effect db now seq).locks, l = .commandKey key := by
  -- An update locks the row that it changes, which is that of the hold.
  have hupdate : ∀ f, ∀ l ∈ (updateHold db seq h f).locks, l.holdId = some h := by
    intro f l hl
    unfold updateHold at hl
    split at hl
    · cases hl
    · split at hl
      · cases hl
      · rw [List.mem_singleton.mp hl]
        rfl
  cases q with
  | insertScope h' scope createdBy =>
    obtain rfl : h' = h := hq
    refine .inl fun l hl => ?_
    simp only [Query.effect] at hl
    split at hl
    · cases hl
    · split at hl
      · cases hl
      · split at hl
        · cases hl
        · simp only [List.mem_cons, List.not_mem_nil, or_false] at hl
          rcases hl with rfl | rfl <;> rfl
  | deleteScope h' scope =>
    obtain rfl : h' = h := hq
    refine .inl fun l hl => ?_
    simp only [Query.effect] at hl
    split at hl
    · cases hl
    · rw [List.mem_singleton.mp hl]
      rfl
  | advanceRevision h' =>
    obtain rfl : h' = h := hq
    exact .inl (hupdate _)
  | releaseHold h' releasedBy reason =>
    obtain rfl : h' = h := hq
    exact .inl (hupdate _)
  | insertActivity org h' kind actor payload =>
    obtain rfl : h' = h := hq
    refine .inl fun l hl => ?_
    simp only [Query.effect] at hl
    split at hl
    · cases hl
    · split at hl
      · cases hl
      · rw [List.mem_singleton.mp hl]
        rfl
  | selectHold org h' => exact .inl fun l hl => by cases hl
  | selectScopes h' => exact .inl fun l hl => by cases hl
  | insertCommand key hash response =>
    refine .inr ⟨key, hash, response, rfl, fun l hl => ?_⟩
    simp only [Query.effect] at hl
    split at hl
    · cases hl
    · exact List.mem_singleton.mp hl
  | _ => exact hq.elim

omit [Backend] in
/-- A transaction that has its hold stays tidy under locks on that hold and on receipts. -/
theorem Tx.tidy_extend {α : Type} {t : Tx} {h : String} (e : Effect α) (ht : t.Tidy)
    (ho : (t.extend e).Owns h) (hl : ∀ l ∈ e.locks, ∀ h', l.holdId = some h' → h' = h) :
    (t.extend e).Tidy := by
  intro l hmem h' hh
  rcases List.mem_append.mp hmem with hmem | hmem
  · exact (ht l hmem h' hh).extend e
  · exact hl l hmem h' hh ▸ ho

/-- A statement on the pool leaves the transactions alone. -/
theorem Server.pool_txs (srv : Server) (q : PoolQuery) : (srv.pool q).1.txs = srv.txs := by
  cases q with
  | insertDecision decisionId actionId caller hash allowed reasonCode holds =>
    simp only [Server.pool]
    split <;> rfl
  | _ => rfl

omit [Backend] in
/-- The server after a statement that leaves the session's transaction tidy. -/
theorem Server.applied_tidy {srv : Server} {t : Tx} {α : Type} {e : Effect α}
    (htidy : ∀ t' ∈ srv.txs, t'.Tidy) (h : (t.extend e).Tidy) :
    ∀ t' ∈ (srv.applied t e).txs, t'.Tidy := by
  intro t' ht'
  rcases Server.mem_setTx ht' with rfl | ⟨ht', -⟩
  · exact h
  · exact htidy t' ht'

variable {i : Session Op} {srv srv' : Server}

/-- A commit ends the transaction, whatever its phase. -/
theorem Phase.perform_commit {t : Tx} {r : Stmt.Reply .commit} (htidy : ∀ t ∈ srv.txs, t.Tidy)
    (ht : srv.tx? i = some t) (h : srv.perform i .commit = some (srv', r)) :
    r = .ok () ∧ (∀ t ∈ srv'.txs, t.Tidy) ∧ srv'.tx? i = none := by
  simp only [Server.perform, ht, Option.some.injEq, Prod.mk.injEq] at h
  obtain ⟨rfl, rfl⟩ := h
  refine ⟨rfl, fun t' ht' => htidy t' (Server.mem_endTx ht').1, ?_⟩
  have hself := Server.tx?_endTx_self srv t.owner
  unfold Server.tx? at hself ⊢
  rw [← (Server.tx?_mem ht).2]
  exact hself

/-- A statement that is issued before the hold is taken leads into the phase that the protocol
says, and leaves all transactions tidy. -/
theorem Phase.perform_begun {q : Query} {r : Stmt.Reply (.query q)} (htidy : ∀ t ∈ srv.txs, t.Tidy)
    (hφ : Phase.begun.holds i srv) (hmay : q.opens = true)
    (h : srv.perform i (.query q) = some (srv', r)) :
    (∀ t ∈ srv'.txs, t.Tidy) ∧ (Phase.begun.next (.query q) r).holds i srv' := by
  obtain ⟨t, ht, hlocks⟩ := hφ
  obtain ⟨-, rfl, rfl⟩ := Server.perform_query ht h
  have hnew : (srv.applied t (q.effect (srv.view t) t.startedAt srv.seq)).tx? i =
      some (t.extend (q.effect (srv.view t) t.startedAt srv.seq)) :=
    Server.tx?_setTx_self ht (Server.tx?_mem ht).2
  have hself : (t.extend (q.effect (srv.view t) t.startedAt srv.seq)).locks =
      (q.effect (srv.view t) t.startedAt srv.seq).locks := by
    rw [Tx.extend_locks, hlocks, List.nil_append]
  rcases Query.opens_locks hmay (srv.view t) t.startedAt srv.seq with
    ⟨hnil, hopened⟩ | ⟨h', hlock, hopened⟩
  · refine ⟨Server.applied_tidy htidy fun l hl => ?_, ?_⟩
    · rw [hself, hnil] at hl
      cases hl
    · cases hr : (q.effect (srv.view t) t.startedAt srv.seq).reply with
      | ok rows =>
        show (Phase.opened q rows).holds i _
        rw [hopened rows hr]
        exact ⟨_, hnew, hself.trans hnil⟩
      | error e => trivial
  · -- the one lock there is now takes the hold
    have howns : (t.extend (q.effect (srv.view t) t.startedAt srv.seq)).Owns h' ∧
        ∀ l ∈ (t.extend (q.effect (srv.view t) t.startedAt srv.seq)).locks,
          l.holdId = some h' := by
      unfold Tx.Owns
      rw [hself]
      rcases hlock with hlock | hlock <;> simp [hlock, Lock.holdId]
    refine ⟨Server.applied_tidy htidy fun l hl h'' hh => ?_, ?_⟩
    · cases (howns.2 l hl).symm.trans hh
      exact howns.1
    · cases hr : (q.effect (srv.view t) t.startedAt srv.seq).reply with
      | ok rows =>
        show (Phase.opened q rows).holds i _
        rw [hopened rows hr]
        exact ⟨_, hnew, howns⟩
      | error e => trivial

/-- A statement that is issued while the hold is owned leads into the phase that the protocol
says, and leaves all transactions tidy. -/
theorem Phase.perform_owning {h' : String} {q : Query} {r : Stmt.Reply (.query q)}
    (htidy : ∀ t ∈ srv.txs, t.Tidy) (hφ : (Phase.owning h').holds i srv) (hmay : q.within h')
    (h : srv.perform i (.query q) = some (srv', r)) :
    (∀ t ∈ srv'.txs, t.Tidy) ∧ ((Phase.owning h').next (.query q) r).holds i srv' := by
  obtain ⟨t, ht, howns, hlocks⟩ := hφ
  obtain ⟨-, rfl, rfl⟩ := Server.perform_query ht h
  have hold := htidy t (Server.tx?_mem ht).1
  rcases Query.within_locks hmay (srv.view t) t.startedAt srv.seq with hall |
    ⟨key, hash, response, rfl, hkey⟩
  · refine ⟨Server.applied_tidy htidy (Tx.tidy_extend _ hold (howns.extend _) ?_), ?_⟩
    · intro l hl h'' hh
      cases (hall l hl).symm.trans hh
      rfl
    · cases hr : (q.effect (srv.view t) t.startedAt srv.seq).reply with
      | error e => trivial
      | ok rows =>
        have howning : (Phase.owning h').holds i
            (srv.applied t (q.effect (srv.view t) t.startedAt srv.seq)) := by
          refine ⟨_, Server.tx?_setTx_self ht (Server.tx?_mem ht).2, howns.extend _, fun l hl => ?_⟩
          rcases List.mem_append.mp hl with hl | hl
          · exact hlocks l hl
          · exact hall l hl
        cases q with
        | insertCommand key hash response => trivial
        | _ => exact howning
  · refine ⟨Server.applied_tidy htidy (Tx.tidy_extend _ hold (howns.extend _) ?_), ?_⟩
    · intro l hl h'' hh
      rw [hkey l hl] at hh
      cases hh
    · cases ((Query.insertCommand key hash response).effect (srv.view t) t.startedAt
        srv.seq).reply <;> trivial

/-- **One statement** of a session in its phase. -/
theorem Phase.perform {φ : Phase} {s : Stmt} {r : s.Reply} (htidy : ∀ t ∈ srv.txs, t.Tidy)
    (hφ : φ.holds i srv) (hmay : φ.may s) (h : srv.perform i s = some (srv', r)) :
    (∀ t ∈ srv'.txs, t.Tidy) ∧ (φ.next s r).holds i srv' := by
  cases φ with
  -- Outside of a transaction a session begins one, or asks the pool.
  | outside =>
    have hnone : srv.tx? i = none := hφ
    cases s with
    | begin =>
      simp only [Server.perform, hnone, Option.some.injEq, Prod.mk.injEq] at h
      obtain ⟨rfl, rfl⟩ := h
      refine ⟨fun t ht => ?_, ⟨i, srv.clock, [], []⟩, ?_, rfl⟩
      · rcases List.mem_cons.mp ht with rfl | ht
        · exact fun l hl => by cases hl
        · exact htidy t ht
      · exact List.find?_cons_of_pos (by simp)
    | pool q =>
      have heq : srv.pool q = (srv', r) := Option.some.inj h
      have htxs : srv'.txs = srv.txs := by rw [← Server.pool_txs srv q, heq]
      have hout : srv'.tx? i = none := by
        unfold Server.tx? at hnone ⊢
        rw [htxs]
        exact hnone
      refine ⟨by rw [htxs]; exact htidy, ?_⟩
      cases r with
      | ok rows => exact hout
      | error e => trivial
    | _ => exact hmay.elim
  | begun =>
    cases s with
    | commit =>
      obtain ⟨t, ht, -⟩ := hφ
      obtain ⟨rfl, hrest⟩ := Phase.perform_commit htidy ht h
      exact hrest
    | query q => exact Phase.perform_begun htidy hφ hmay h
    | _ => exact hmay.elim
  | owning h' =>
    cases s with
    | query q => exact Phase.perform_owning htidy hφ hmay h
    | _ => exact hmay.elim
  -- The receipt is stored, and the commit is all that is left to do.
  | stored =>
    cases s with
    | commit =>
      cases ht : srv.tx? i with
      | none =>
        simp only [Server.perform, ht, Option.some.injEq, Prod.mk.injEq] at h
        obtain ⟨rfl, rfl⟩ := h
        exact ⟨htidy, trivial⟩
      | some t =>
        obtain ⟨rfl, hrest⟩ := Phase.perform_commit htidy ht h
        exact hrest
    | _ => exact hmay.elim
  | closed => exact hmay.elim

omit [Backend] in
/-- A phase speaks of the session's own transaction only. -/
theorem Phase.holds_congr {φ : Phase} (htx : srv'.tx? i = srv.tx? i) (h : φ.holds i srv) :
    φ.holds i srv' := by
  cases φ with
  | outside => exact htx.trans h
  | begun =>
    obtain ⟨t, ht, hlocks⟩ := h
    exact ⟨t, htx.trans ht, hlocks⟩
  | owning h' =>
    obtain ⟨t, ht, howns⟩ := h
    exact ⟨t, htx.trans ht, howns⟩
  | stored => trivial
  | closed => trivial

omit [Backend] in
/-- After an error the protocol says nothing more of the session. -/
theorem Phase.holds_error (φ : Phase) (s : Stmt) (e : SqlError) (i : Session Op) (srv : Server) :
    (φ.next s (.error e)).holds i srv := by
  rw [Phase.next_error]
  trivial

/-- **The order of the locks is kept** by all sessions. -/
theorem lockOrder_sound : lockOrder.Sound where
  prog op := Protocol.Follows.mono (fun _ _ _ => trivial) (program_leads op)
  exec {φ i s f srv srv' r} htidy hφ hmay h := by
    cases f with
    | done =>
      obtain ⟨⟨srv₁, r₁⟩, h₁, heq⟩ := Option.map_eq_some_iff.mp h
      cases heq
      obtain ⟨htidy', hnext⟩ := Phase.perform htidy hφ hmay h₁
      have htx : (srv₁.note i s .done srv.log.length).tx? i = srv₁.tx? i := rfl
      exact ⟨htidy', Phase.holds_congr htx hnext⟩
    -- an error ends the program
    | failed =>
      simp only [machine, Server.exec, Option.some.injEq] at h
      cases h
      exact ⟨htidy, Phase.holds_error φ s .connection i srv⟩
    | lost =>
      obtain ⟨⟨srv₁, r₁⟩, h₁, heq⟩ := Option.map_eq_some_iff.mp h
      cases heq
      exact ⟨(Phase.perform htidy hφ hmay h₁).1, Phase.holds_error φ s .connection i srv₁⟩
  other {φ j i s f srv srv' r} hne hφ h := by
    obtain ⟨srv₁, hmoved, rfl⟩ := Server.exec_moved h
    exact Phase.holds_congr (hmoved.tx?_other hne) hφ
  release {i srv} htidy :=
    ⟨fun t ht => htidy t (Server.mem_endTx ht).1, Server.tx?_endTx_self srv i⟩
  release_other hne hφ := Phase.holds_congr (Server.tx?_endTx_other hne) hφ
  move htidy := htidy
  move_other {φ j m srv} hφ := by
    have htx : Server.tx? (machine.move m srv) j = Server.tx? srv j := rfl
    exact Phase.holds_congr htx hφ

variable {c : Config}

theorem Reachable.lockOrder_kept (h : Reachable c) : lockOrder.Kept c := by
  have hinitial : lockOrder.Kept initial :=
    .init (fun t ht => absurd ht List.not_mem_nil) fun _ => rfl
  exact lockOrder_sound.reaches hinitial h

end

end LegalHold
