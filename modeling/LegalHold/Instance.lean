import LegalHold.Answers
import LegalHold.Commits
import LegalHold.Configuration
import LegalHold.Interleave.Front

/-!
# An instance of the plugin

An instance of the plugin from one activation to the next.  Calls come in at any time, from
any caller; each is checked by its handler and then either answered or passed on to the
storage.  The instance is the front of the service: its gate says whether the database is
there.

A deactivation also closes the pool; what that does to calls under way is no more than any
statement of theirs can meet with.  Every activation is taken to lead to the same database.

## Main definitions

* `Activation`, `activate` — the dependencies of an activation, and what it does.
* `Instance` — a plugin with a configuration that has been accepted.
* `PluginCall`, `Plugin.asked` — a call, and the operation that it is passed on as.
* `Instance.front`, `Instance.Reachable` — the instance with its calls.

## Main results

* `instance_refines_service` — **what an instance does, its storage does** for operations that
  have passed the gate.
* `inactive_instance_asks_nothing` — **without a database nothing is asked of it**.
-/

namespace LegalHold

open Interleave

/-! ### The lifecycle -/

/-- What an activation depends on: whether it has been cancelled, the secrets provider, and the
preparation of the database. -/
structure Activation (SchemaPlan : Type) where
  /-- `invocation_context_after`. -/
  invocationContext : Except RuntimeFailure Unit
  /-- `resolve_with_context`. -/
  resolve : (reference : String) → Except InvocationError String
  /-- `OwnedPostgres::prepare`. -/
  prepare : (databaseUrl : String) → SchemaPlan → Except String Unit

/-- `resolve_secret`: the value that the secrets provider has for a reference.  The call is made
for the activation, which may have been cancelled before. -/
def resolveSecret {SchemaPlan : Type} (context : Activation SchemaPlan) (reference : String) :
    Except RuntimeFailure String := do
  context.invocationContext
  match context.resolve reference with
  | .ok value => .ok value
  | .error (.domain _) =>
    .error (.pluginFailure ("database URL secret `" ++ reference ++ "` was rejected"))
  | .error (.runtime failure) => .error failure

/-- `activate`, up to what it stores when it succeeds. -/
def activate {SchemaPlan : Type} (schemaPlan : String → Except String SchemaPlan)
    (config : Configuration) (context : Activation SchemaPlan) : Except RuntimeFailure Unit := do
  let databaseUrl ← resolveSecret context config.databaseUrlSecret
  let plan ← (schemaPlan config.schema).mapError RuntimeFailure.invalidResolvedPlan
  (context.prepare databaseUrl plan).mapError RuntimeFailure.pluginFailure

/-- A plugin with a configuration that has been accepted. -/
structure Instance (Ctx : Type) where
  SchemaPlan : Type
  schemaPlan : String → Except String SchemaPlan
  configuration : Configuration
  /-- Whether the database is there is not said here. -/
  plugin : Plugin Ctx
  configured : plugin.config = configuration.toLegalHoldConfig
  accepted : configuration.validateConfig schemaPlan plugin.fromPublicKeyBase64 = .ok ()

/-- What is done to an instance from outside, apart from calls. -/
inductive Switch (SchemaPlan : Type) where
  | activate (context : Activation SchemaPlan)
  | deactivate

/-- The instance has its database after an activation that succeeds; one that fails changes
nothing. -/
def Instance.turn {Ctx : Type} (inst : Instance Ctx) (t : Switch inst.SchemaPlan)
    (prepared : Bool) : Bool :=
  match t with
  | .activate context =>
    match LegalHold.activate inst.schemaPlan inst.configuration context with
    | .ok () => true
    | .error _ => prepared
  | .deactivate => false

/-! ### Calls -/

/-- A call of one of the two capabilities that the plugin provides. -/
inductive PluginCall (Ctx : Type) where
  | legalHold (ctx : Ctx) (request : AdminRequest)
  | retentionGuard (ctx : Ctx) (request : CheckRetentionRequest)

/-- What a call is answered with, by the capability that it was made to. -/
inductive PluginAnswer where
  | legalHold (result : Except PluginError Response)
  | retentionGuard (result : Except PluginError GuardDecision)

/-- The decision of the guard in an answer of the storage, or an error where the answer is of
another kind. -/
def Answer.decision? : Answer → Except PluginError GuardDecision
  | .decision d => .ok d
  | _ => .error (serializationRuntime "invalid type")

namespace Plugin

variable {Ctx : Type} (p : Plugin Ctx) [Backend]

/-- The operation that a call is passed on as: that of its request, once the gate has let it
pass. -/
def asked : PluginCall Ctx → Option Op
  | .legalHold ctx r =>
    (p.authorizeAdmin ctx r.operation r.organizationId r.permission).toOption.bind
      fun (caller, actor) => r.op? caller actor
  | .retentionGuard ctx r =>
    (p.allowedCaller ctx p.config.guardCallers).bind fun caller =>
      (r.input? caller).map .checkRetention

/-- The program of a call of the instance, which is the handler of its operation. -/
def respondTo : PluginCall Ctx → Prog Stmt Stmt.Reply PluginAnswer
  | .legalHold ctx r => (p.handle ctx r).run.bind fun x => .ret (.legalHold x)
  | .retentionGuard ctx r => (p.checkRetention ctx r).run.bind fun x => .ret (.retentionGuard x)

/-- What the caller is answered, made of the answer that the storage has given to the
operation. -/
def answerTo : PluginCall Ctx → Except StorageError Answer → PluginAnswer
  | .legalHold _ r, x => .legalHold (x.mapError (mapStorageError r.mapDomain) >>= p.respond)
  | .retentionGuard .., x =>
    .retentionGuard (x.mapError storageRuntime >>= Answer.decision?)

variable {p} {call : PluginCall Ctx}

theorem asked_legalHold {ctx : Ctx} {r : AdminRequest} {op : Op} :
    p.asked (.legalHold ctx r) = some op ↔ ∃ caller actor,
      p.authorizeAdmin ctx r.operation r.organizationId r.permission = .ok (caller, actor) ∧
        r.op? caller actor = some op := by
  simp only [asked]
  cases p.authorizeAdmin ctx r.operation r.organizationId r.permission with
  | error failure => simp [Except.toOption]
  | ok who =>
    obtain ⟨caller, actor⟩ := who
    simp [Except.toOption]

theorem asked_retentionGuard {ctx : Ctx} {r : CheckRetentionRequest} {op : Op} :
    p.asked (.retentionGuard ctx r) = some op ↔ ∃ caller input,
      p.allowedCaller ctx p.config.guardCallers = some caller ∧ r.input? caller = some input ∧
        op = .checkRetention input := by
  simp only [asked, Option.bind_eq_some_iff, Option.map_eq_some_iff, eq_comm (a := op)]
  constructor
  · rintro ⟨caller, hcaller, input, hinput, heq⟩
    exact ⟨caller, input, hcaller, hinput, heq⟩
  · rintro ⟨caller, input, hcaller, hinput, heq⟩
    exact ⟨caller, hcaller, input, hinput, heq⟩

/-- What the handler of the guard does behind its gate. -/
theorem checkRetention_called {ctx : Ctx} {caller : String}
    (h : p.allowedCaller ctx p.config.guardCallers = some caller) (r : CheckRetentionRequest) :
    (p.checkRetention ctx r).run = (match r.input? caller with
      | none => settle (.error (.domain .invalidRequest))
      | some input => do
        settle p.isPrepared
        ExceptT.mk ((LegalHold.checkRetention input).run.bind fun x =>
          .ret (x.mapError storageRuntime)) : Handler GuardDecision).run := by
  unfold checkRetention
  rw [h]
  rfl

/-- A call that is not passed on, or finds no database, is answered with an error. -/
theorem respondTo_settled (h : p.asked call = none ∨ p.prepared = false) :
    (∃ e, p.respondTo call = .ret (.legalHold (.error e))) ∨
      ∃ e, p.respondTo call = .ret (.retentionGuard (.error e)) := by
  cases call with
  -- The gate is closed, the request is not valid, or the database is not there.
  | legalHold ctx r =>
    refine .inl ?_
    have hrun : ∃ e, (p.handle ctx r).run = .ret (.error e) := by
      cases hgate : p.authorizeAdmin ctx r.operation r.organizationId r.permission with
      | error failure => exact ⟨_, handle_unauthorized hgate⟩
      | ok who =>
        cases hop : r.op? who.1 who.2 with
        | none => exact ⟨_, handle_invalid hgate hop⟩
        | some op =>
          have hasked := asked_legalHold.mpr ⟨_, _, hgate, hop⟩
          exact ⟨_, handle_unprepared hgate hop (h.resolve_left (by simp [hasked]))⟩
    obtain ⟨e, hrun⟩ := hrun
    refine ⟨e, ?_⟩
    show (p.handle ctx r).run.bind _ = _
    rw [hrun]
    rfl
  -- The guard has no subject to authenticate; the caller is all that its gate asks for.
  | retentionGuard ctx r =>
    refine .inr ?_
    have hrun : ∃ e, (p.checkRetention ctx r).run = .ret (.error e) := by
      cases hcaller : p.allowedCaller ctx p.config.guardCallers with
      | none =>
        refine ⟨.domain .forbidden, ?_⟩
        unfold checkRetention
        rw [hcaller]
        rfl
      | some caller =>
        rw [checkRetention_called hcaller]
        cases hinput : r.input? caller with
        | none => exact ⟨_, rfl⟩
        | some input =>
          have hasked := asked_retentionGuard.mpr ⟨_, _, hcaller, hinput, rfl⟩
          have hp := h.resolve_left (by simp [hasked])
          unfold isPrepared
          rw [hp]
          exact ⟨_, rfl⟩
    obtain ⟨e, hrun⟩ := hrun
    refine ⟨e, ?_⟩
    show (p.checkRetention ctx r).run.bind _ = _
    rw [hrun]
    rfl

/-- The answer to a call that has passed all checks and finds no database. -/
def notPrepared : PluginCall Ctx → PluginAnswer
  | .legalHold .. =>
    .legalHold (.error (.runtime (.pluginFailure "Legal Hold Plugin is not prepared")))
  | .retentionGuard .. =>
    .retentionGuard (.error (.runtime (.pluginFailure "Legal Hold Plugin is not prepared")))

theorem respondTo_unprepared {op : Op} (h : p.asked call = some op) (hp : p.prepared = false) :
    p.respondTo call = .ret (notPrepared call) := by
  cases call with
  | legalHold ctx r =>
    obtain ⟨caller, actor, hgate, hop⟩ := asked_legalHold.mp h
    show (p.handle ctx r).run.bind _ = _
    rw [handle_unprepared hgate hop hp]
    rfl
  | retentionGuard ctx r =>
    obtain ⟨caller, input, hcaller, hinput, rfl⟩ := asked_retentionGuard.mp h
    show (p.checkRetention ctx r).run.bind _ = _
    rw [checkRetention_called hcaller, hinput]
    unfold isPrepared
    rw [hp]
    rfl

/-- A call that is passed on answers with what becomes of it there. -/
theorem respondTo_asked {op : Op} (h : p.asked call = some op) (hp : p.prepared = true) :
    p.respondTo call = (program op).run.bind fun x => .ret (p.answerTo call x) := by
  cases call with
  | legalHold ctx r =>
    obtain ⟨caller, actor, hgate, hop⟩ := asked_legalHold.mp h
    show (p.handle ctx r).run.bind _ = _
    rw [handle_authorized hgate hop hp]
    exact Prog.bind_assoc _ _ _
  | retentionGuard ctx r =>
    obtain ⟨caller, input, hcaller, hinput, rfl⟩ := asked_retentionGuard.mp h
    have hrun : (p.checkRetention ctx r).run =
        (LegalHold.checkRetention input).run.bind fun x => .ret (x.mapError storageRuntime) := by
      rw [checkRetention_called hcaller, hinput]
      unfold isPrepared
      rw [hp]
      rfl
    show (p.checkRetention ctx r).run.bind _ = _
    rw [hrun, Prog.bind_assoc]
    refine Eq.trans ?_ (Prog.bind_assoc (LegalHold.checkRetention input).run _ _).symm
    refine congrArg (LegalHold.checkRetention input).run.bind (funext fun x => ?_)
    cases x <;> rfl

end Plugin

/-! ### The instance as a front -/

/-- The operation that stands behind a call which is not passed on; no statement of it is ever
made. -/
def idleOp : Op := .getHold "-" "-"

namespace Instance

variable {Ctx : Type} (inst : Instance Ctx)

/-- The plugin of the instance as it serves calls with its database prepared, or without it. -/
def serving (prepared : Bool) : Plugin Ctx := { inst.plugin with prepared := prepared }

variable [Backend]

/-- The instance in front of the service.  The flag is read when all checks have been made. -/
@[reducible] def front : Front machine where
  Gate := Bool
  Turn := Switch inst.SchemaPlan
  turn := inst.turn
  Call := PluginCall Ctx
  Answer := PluginAnswer
  prog prepared call := (inst.serving prepared).respondTo call
  op call := (inst.plugin.asked call).getD idleOp
  answer call := inst.plugin.answerTo call
  law prepared call := by
    have hsettled : inst.plugin.asked call = none ∨ prepared = false →
        ∃ a, (inst.serving prepared).respondTo call = .ret a := by
      intro h
      rcases Plugin.respondTo_settled (p := inst.serving prepared) h with ⟨e, h⟩ | ⟨e, h⟩
      · exact ⟨_, h⟩
      · exact ⟨_, h⟩
    cases hasked : inst.plugin.asked call with
    | none => exact .inl (hsettled (.inl hasked))
    | some op =>
      cases prepared with
      | false => exact .inl (hsettled (.inr rfl))
      | true => exact .inr (Plugin.respondTo_asked (p := inst.serving true) hasked rfl)

/-- A configuration of an instance: whether it is active, the database, and the calls. -/
abbrev Config : Type := inst.front.machine.Config

/-- The configuration before the first activation of the instance and before any call of it. -/
def initial : inst.Config := ⟨(false, {}), []⟩

/-- The configuration is one that some interleaving of calls, activations and deactivations leads
to. -/
def Reachable (c : inst.Config) : Prop := Machine.Reaches inst.initial c

end Instance

/-- The session has no transaction, no commit and no statement, so that nobody can tell it was
there. -/
def Silent (i : Session Op) (srv : Server) : Prop :=
  (∀ t ∈ srv.txs, t.owner.id ≠ i.id) ∧ (∀ t ∈ srv.log, t.owner.id ≠ i.id) ∧
    ∀ e ∈ srv.trace, e.session.id ≠ i.id

section

variable [Backend]

theorem othersKeep_silent : OthersKeep (M := machine) Silent where
  exec {i j s f st st' r} hne h he := by
    obtain ⟨htxs, hlog, htrace⟩ := h
    obtain ⟨htxs', hlog', htrace'⟩ := Server.exec_owners he
    refine ⟨fun t ht => ?_, fun t ht => ?_, fun e he => ?_⟩
    · rcases htxs' t ht with heq | ⟨t₀, ht₀, heq⟩
      · rw [heq]
        exact hne.symm
      · rw [heq]
        exact htxs t₀ ht₀
    · rcases hlog' t ht with ht | ⟨t₀, ht₀, heq⟩
      · exact hlog t ht
      · rw [heq]
        exact htxs t₀ ht₀
    · rcases htrace' e he with he | heq
      · exact htrace e he
      · rw [heq]
        exact hne.symm
  release {i j st} h := ⟨fun t ht => h.1 t (Server.mem_endTx ht).1, h.2⟩
  move h := h

/-- Nothing is passed on that no request has asked for. -/
theorem Plugin.asked_issued {Ctx : Type} {p : Plugin Ctx} {call : PluginCall Ctx} {op : Op}
    (h : p.asked call = some op) : op.Issued := by
  cases call with
  | legalHold ctx r =>
    obtain ⟨caller, actor, -, hop⟩ := Plugin.asked_legalHold.mp h
    exact .inl ⟨r, caller, actor, hop⟩
  | retentionGuard ctx r =>
    obtain ⟨caller, input, -, hinput, rfl⟩ := Plugin.asked_retentionGuard.mp h
    exact .inr ⟨r, caller, by rw [hinput]; rfl⟩

theorem idleOp_issued : idleOp.Issued := by
  have hop : GetHoldRequest.op? ⟨"-", "-"⟩ = some idleOp := if_pos (by decide)
  exact .inl ⟨.getHold ⟨"-", "-"⟩, "", "", hop⟩

variable {Ctx : Type} {inst : Instance Ctx} {c : inst.Config}

/-- What an instance answers by itself is an error. -/
theorem Instance.error_of_settled {prepared : Bool} {call : PluginCall Ctx} {a : PluginAnswer}
    (h : (inst.serving prepared).respondTo call = .ret a) :
    (∃ e, a = .legalHold (.error e)) ∨ ∃ e, a = .retentionGuard (.error e) := by
  by_cases hsettled : inst.plugin.asked call = none ∨ prepared = false
  · rcases Plugin.respondTo_settled (p := inst.serving prepared) hsettled with
      ⟨e, he⟩ | ⟨e, he⟩
    · exact .inl ⟨e, Prog.ret.inj (h.symm.trans he)⟩
    · exact .inr ⟨e, Prog.ret.inj (h.symm.trans he)⟩
  -- Otherwise it would have asked the database.
  · obtain ⟨hasked, hprepared⟩ := not_or.mp hsettled
    obtain ⟨op, hop⟩ := Option.ne_none_iff_exists'.mp hasked
    have hp : prepared = true := by simpa using hprepared
    obtain ⟨s, k, hask⟩ := program_ask op
    rw [Plugin.respondTo_asked (p := inst.serving prepared) hop hp, hask] at h
    cases h

/-- Behind a reachable configuration of an instance stands one of the service, with a session for
every call. -/
theorem Instance.Reachable.projects (h : inst.Reachable c) :
    ∃ c', LegalHold.Reachable c' ∧ inst.front.Projects Silent c c' := by
  have hinit : inst.front.Projects Silent inst.initial LegalHold.initial := by
    refine Front.Projects.init (F := inst.front) false fun i => ?_
    exact ⟨fun t ht => (List.not_mem_nil ht).elim, fun t ht => (List.not_mem_nil ht).elim,
      fun e he => (List.not_mem_nil he).elim⟩
  exact hinit.reaches othersKeep_silent h

/-- Only what has been asked for is passed on. -/
theorem Instance.op_issued (call : PluginCall Ctx) : (inst.front.op call).Issued := by
  show ((inst.plugin.asked call).getD idleOp).Issued
  cases hasked : inst.plugin.asked call with
  | none => exact idleOp_issued
  | some op => exact Plugin.asked_issued hasked

/-- What a call of an instance is, in the instance and behind it: it has been left alone with
an error, or it is the session of an operation that has passed the gate. -/
theorem Instance.Reachable.calls {c' : LegalHold.Config}
    (hproj : inst.front.Projects Silent c c') {i : ℕ} {call : PluginCall Ctx}
    {p : Option (Prog (Option Stmt) (GatedReply Bool Stmt.Reply) PluginAnswer)}
    (hi : c.procs[i]? = some ⟨call, p⟩) :
    (Silent ⟨i, idleOp⟩ c.shared.2 ∧ ∀ a, p = some (.ret a) →
        (∃ e, a = .legalHold (.error e)) ∨ ∃ e, a = .retentionGuard (.error e)) ∨
      ∃ op q, inst.plugin.asked call = some op ∧ c'.procs[i]? = some ⟨op, q⟩ ∧
        ∀ a, p = some (.ret a) → ∃ r, q = some (.ret r) ∧ a = inst.plugin.answerTo call r := by
  obtain ⟨q, hq, hshadow⟩ := hproj.procs i call p hi
  rcases hshadow.outcome with ⟨hsilent, hanswer⟩ | ⟨⟨prepared, hprog⟩, hanswer⟩
  · refine .inl ⟨hsilent, fun a ha => ?_⟩
    obtain ⟨prepared, hprog⟩ := hanswer a ha
    exact Instance.error_of_settled hprog
  · refine .inr ⟨_, q, ?_, hq, hanswer⟩
    show inst.plugin.asked call = some ((inst.plugin.asked call).getD idleOp)
    cases hop : inst.plugin.asked call with
    | some op => rfl
    -- One that is passed on has been asked for something.
    | none =>
      obtain ⟨s, k, hask⟩ := program_ask (inst.front.op call)
      have hasks := hprog.trans (congrArg (fun prog : Prog _ _ _ => prog.bind _) hask)
      rcases Plugin.respondTo_settled (p := inst.serving prepared) (.inl hop) with
        ⟨e, he⟩ | ⟨e, he⟩
      · cases he.symm.trans hasks
      · cases he.symm.trans hasks

/-- **What an instance does, its storage does**: behind every run of an instance, with any
calls, activations and deactivations in any order, there is a run of the storage with the same
database, on operations that requests have asked for.  A call has either been left alone by
the database and can only be answered with an error, or it has passed the gate and its checks,
and its answer is what becomes of that of its operation.  The run of the storage has a session
for every call: that of a call which has been refused is a placeholder for `idleOp`, of which
the database never sees a statement. -/
theorem instance_refines_service (inst : Instance Ctx) {c : inst.Config}
    (h : inst.Reachable c) :
    ∃ c' : LegalHold.Config, LegalHold.Reachable c' ∧ c'.shared = c.shared.2 ∧
      (∀ i, Config.Known c' i → i.op.Issued) ∧
      ∀ i call p, c.procs[i]? = some ⟨call, p⟩ →
        (Silent ⟨i, idleOp⟩ c.shared.2 ∧ ∀ a, p = some (.ret a) →
            (∃ e, a = .legalHold (.error e)) ∨ ∃ e, a = .retentionGuard (.error e)) ∨
          ∃ op q, inst.plugin.asked call = some op ∧ c'.procs[i]? = some ⟨op, q⟩ ∧
            ∀ a, p = some (.ret a) →
              ∃ r, q = some (.ret r) ∧ a = inst.plugin.answerTo call r := by
  obtain ⟨c', hc', hproj⟩ := h.projects
  refine ⟨c', hc', hproj.shared, fun i hknown => ?_, fun i call p hi =>
    Instance.Reachable.calls hproj hi⟩
  obtain ⟨⟨op, q⟩, hq, heq⟩ := hknown
  have hlt : i.id < c.procs.length := by
    rw [← hproj.length]
    exact (List.getElem?_eq_some_iff.mp hq).1
  obtain ⟨q', hq', -⟩ := hproj.procs i.id _ _ (List.getElem?_eq_getElem hlt)
  rw [hq] at hq'
  cases hq'
  rw [← heq]
  exact Instance.op_issued _

/-- **Without a database nothing is asked of it.**  From a configuration in which the instance
is not active, and as long as no activation succeeds, a call that comes in asks nothing of the
database, and its answer is an error: that of the check it has failed, or that the plugin is not
prepared. -/
theorem inactive_instance_asks_nothing (inst : Instance Ctx) {c d : inst.Config}
    (h : inst.Reachable c) (hinactive : c.shared.1 = false) {ls : List inst.front.machine.Label}
    (hls : ∀ context, .move (.inl (.activate context)) ∈ ls →
      ∃ e, activate inst.schemaPlan inst.configuration context = .error e)
    (hrun : Machine.run c ls = some d) :
    d.shared.1 = false ∧ ∀ i call p, c.procs.length ≤ i → d.procs[i]? = some ⟨call, p⟩ →
      Silent ⟨i, idleOp⟩ d.shared.2 ∧ ∀ a, p = some (.ret a) →
        ((∃ e, a = .legalHold (.error e)) ∨ ∃ e, a = .retentionGuard (.error e)) ∧
          (inst.plugin.asked call ≠ none → a = Plugin.notPrepared call) := by
  obtain ⟨c', -, hproj⟩ := h.projects
  have hstart : inst.front.Shut Silent false c.procs.length c :=
    ⟨hinactive, fun i call p hn hi =>
      absurd (List.getElem?_eq_some_iff.mp hi).1 (Nat.not_lt.mpr hn), fun i hn => hproj.fresh i hn⟩
  have hsettled : ∀ call, ∃ a, inst.front.prog false call = .ret a := by
    intro call
    have hunprepared : (inst.serving false).asked call = none ∨ false = false := .inr rfl
    rcases Plugin.respondTo_settled (p := inst.serving false) hunprepared with ⟨e, he⟩ | ⟨e, he⟩
    · exact ⟨_, he⟩
    · exact ⟨_, he⟩
  -- The gate stays shut: an activation that fails changes nothing.
  have hturn : ∀ t, .move (.inl t) ∈ ls → inst.front.turn t false = false := by
    intro t ht
    cases t with
    | deactivate => rfl
    | activate context =>
      obtain ⟨e, he⟩ := hls context ht
      simp only [Instance.turn, he]
  have hshut := hstart.run othersKeep_silent hsettled hturn hrun
  refine ⟨hshut.gate, fun i call p hn hi => ⟨hshut.untouched ⟨i, idleOp⟩ hn, fun a ha => ?_⟩⟩
  subst ha
  -- A call that came in meanwhile has not been looked at, has been answered at the gate, or was
  -- dropped.
  rcases hshut.procs i call _ hn hi with hp | ⟨a', hprog, hp⟩ | hp
  · cases hp
  · cases hp
    refine ⟨Instance.error_of_settled hprog, fun hasked => ?_⟩
    obtain ⟨op, hop⟩ := Option.ne_none_iff_exists'.mp hasked
    exact Prog.ret.inj (hprog.symm.trans
      (Plugin.respondTo_unprepared (p := inst.serving false) hop rfl))
  · cases hp

end

namespace Sample

/-- An instance for the console and the retention service, where Alice may do everything. -/
def desk : Instance (String × String) where
  SchemaPlan := Unit
  schemaPlan _ := .ok ()
  configuration := ⟨plugin.config, "legal_hold", "database"⟩
  plugin := { plugin with checkPermission := fun _ subject _ _ _ => .ok (subject = "alice") }
  configured := rfl
  accepted := rfl

/-- An activation that succeeds: the secret is there and the database is prepared. -/
def activation : Activation Unit := ⟨.ok (), fun _ => .ok "postgres", fun _ _ => .ok ()⟩

/-- The schedule of what Alice and Bob ask of the console, after an activation that succeeds. -/
def deskCalls : List desk.front.machine.Label :=
  .move (.inl (.activate activation)) ::
    .start (.legalHold ("console", "alice")
      (.createHold ⟨"h", "create", "court", "org", "r", "t"⟩)) ::
    List.replicate 9 (.step 0 .done) ++
    .start (.legalHold ("console", "bob") (.getHold ⟨"h", "org"⟩)) ::
    [.step 1 .done]

/-- The configuration that the calls at the desk lead to. -/
def deskAfter : desk.Config := (Machine.run desk.initial deskCalls).getD desk.initial

theorem desk_reachable : desk.Reachable deskAfter := ⟨deskCalls, rfl⟩

/-- Alice's hold is stored, and Bob's call has left no trace. -/
theorem desk_refined : ∃ c' : Config, LegalHold.Reachable c' ∧ c'.shared.log.length = 1 ∧
    (∃ op q, desk.plugin.asked (.legalHold ("console", "alice")
      (.createHold ⟨"h", "create", "court", "org", "r", "t"⟩)) = some op ∧
        c'.procs[0]? = some ⟨op, q⟩) ∧
    Silent ⟨1, idleOp⟩ c'.shared := by
  obtain ⟨c', hc', hshared, -, hcalls⟩ := instance_refines_service desk desk_reachable
  refine ⟨c', hc', by rw [hshared]; rfl, ?_, ?_⟩
  · rcases hcalls 0 _ _ rfl with ⟨⟨-, hlog, -⟩, -⟩ | ⟨op, q, hasked, hq, -⟩
    · exact absurd rfl (hlog _ List.mem_cons_self)
    · exact ⟨op, q, hasked, hq⟩
  · rcases hcalls 1 _ _ rfl with ⟨hsilent, -⟩ | ⟨op, q, hasked, -⟩
    · rw [hshared]
      exact hsilent
    · cases hasked

/-- The configuration after another step: the instance has been deactivated. -/
def deskClosed : desk.Config := { deskAfter with shared := (false, deskAfter.shared.2) }

theorem deskClosed_reachable : desk.Reachable deskClosed :=
  desk_reachable.trans (Machine.Reaches.of_step (l := .move (.inl .deactivate)) rfl)

/-- The call by which Alice asks for her hold. -/
def deskQuestion : PluginCall (String × String) :=
  .legalHold ("console", "alice") (.getHold ⟨"h", "org"⟩)

/-- The configuration in which Alice, who asks when the instance is not active, has been
answered. -/
def deskAnswered : desk.Config :=
  (Machine.run deskClosed [.start deskQuestion, .step 2 .done]).getD deskClosed

/-- Alice is told that the plugin is not prepared, and the database is not asked for anything. -/
theorem desk_inactive :
    deskAnswered.procs[2]? = some ⟨deskQuestion, some (.ret (Plugin.notPrepared deskQuestion))⟩ ∧
      Silent ⟨2, idleOp⟩ deskAnswered.shared.2 := by
  have hrun : Machine.run deskClosed [.start deskQuestion, .step 2 .done] = some deskAnswered :=
    rfl
  obtain ⟨-, hcalls⟩ := inactive_instance_asks_nothing desk deskClosed_reachable rfl
    (fun context hmem => by simp at hmem) hrun
  obtain ⟨hsilent, hanswer⟩ := hcalls 2 _ _ (Nat.le_refl 2) rfl
  refine ⟨?_, hsilent⟩
  rw [← (hanswer _ rfl).2 nofun]
  rfl

end Sample

end LegalHold
