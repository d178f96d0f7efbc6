import LegalHold.Agents
import LegalHold.Completion
import LegalHold.Interleave.Finishing

/-!
# Every call can be answered

What the storage can be brought to, the instance in front of it can be brought to, and the
agent tools in front of that.  A call waits for nobody at a gate; so whatever has come in, and
however its callers have left, the rest is answered once the system is left to itself.

## Main results

* `calls_complete` — **every call can be brought to its answer**, with no transaction left.
-/

namespace LegalHold

open Interleave

section

variable [Backend]

/-- The storage can be completed: the system left to itself ends every session, and then no
transaction is open. -/
theorem completes : Completes (M := machine) Fate.done (fun srv => srv.txs = []) Silent
    Reachable := by
  intro c A hc hA
  exact hc.finishes fun t ht => hA t.owner fun hsilent => hsilent.1 t ht rfl

omit [Backend] in
/-- A trace is known by the number of its session. -/
theorem Silent.congr {i j : Session Op} {srv : Server} (hid : i.id = j.id) (h : Silent i srv) :
    Silent j srv := by
  unfold Silent at h ⊢
  rwa [hid] at h

namespace Instance

variable {Ctx : Type} (inst : Instance Ctx)

/-- An instance can be completed from wherever its calls stand: those at its gate are settled, and
those behind it are sessions of the storage. -/
theorem completes :
    Completes (M := inst.front.machine) Fate.done (fun st => st.2.txs = [])
      (fun i st => Silent (inst.front.behind i) st.2)
      fun c => ∃ c', LegalHold.Reachable c' ∧ inst.front.Projects Silent c c' :=
  Completes.front othersKeep_silent (fun _ _ _ hid h => h.congr hid)
    (fun hc hr => hc.trans hr) LegalHold.completes

end Instance

namespace AgentTools

variable {Ctx : Type} (sys : AgentTools Ctx)

/-- The agent tools in front of an instance can be completed from wherever their calls stand, as
the instance can. -/
theorem completes :
    Completes (M := sys.front.machine) Fate.done (fun st => st.2.2.txs = [])
      (fun i st => Silent (sys.legalHold.front.behind (sys.front.behind i)) st.2.2)
      fun c => ∃ c₁, (∃ c₂, LegalHold.Reachable c₂ ∧
        sys.legalHold.front.Projects Silent c₁ c₂) ∧
          sys.front.Projects (fun i st => Silent (sys.legalHold.front.behind i) st.2) c c₁ := by
  refine Completes.front (Front.othersKeep sys.legalHold.front othersKeep_silent)
    (fun _ _ _ hid h => h.congr hid) ?_ sys.legalHold.completes
  rintro c c' ⟨c₂, hc₂, hproj⟩ hr
  obtain ⟨d₂, hd₂, hproj'⟩ := hproj.reaches othersKeep_silent hr
  exact ⟨d₂, hc₂.trans hd₂, hproj'⟩

end AgentTools

/-- **Every call can be brought to its answer.**  From any configuration that a run of the agent
tools over an instance has led to, whatever calls wait for each other and whoever has left: the
system left to itself, with nothing else coming in, answers every call that has not been
dropped, and leaves the database with no open transaction. -/
theorem calls_complete {Ctx : Type} (sys : AgentTools Ctx) {c : sys.Config}
    (h : sys.Reachable c) :
    ∃ d : sys.Config, sys.Reachable d ∧ Settles (M := sys.front.machine) Fate.done c d ∧
      d.shared.2.2.txs = [] ∧
      ∀ (i : ℕ) call p, c.procs[i]? = some ⟨call, some p⟩ →
        ∃ a, d.procs[i]? = some ⟨call, some (.ret a)⟩ := by
  obtain ⟨c₁, c₂, hc₂, hproj, hproj₂⟩ := h.projects
  have hfinishes : Finishes (M := sys.front.machine) Fate.done (fun st => st.2.2.txs = [])
      (fun _ => True) c :=
    sys.completes ⟨c₁, ⟨c₂, hc₂, hproj₂⟩, hproj⟩ fun _ _ => trivial
  obtain ⟨d, hsettles, hopen, hended⟩ := hfinishes.settles
  refine ⟨d, h.trans hsettles.reaches, hsettles, hopen, fun i call p hi => ?_⟩
  obtain ⟨p', hp'⟩ := hsettles.kept hi
  exact returned_of_ended hp' (hended i trivial)

end

namespace Sample

set_option maxRecDepth 8000 in
/-- Bob's call is answered, though he has come last. -/
theorem agents_complete : ∃ d : agents.Config,
    Settles (M := agents.front.machine) Fate.done agentsAfter d ∧
      ∃ a, d.procs[2]? = some ⟨getCall, some (.ret a)⟩ := by
  obtain ⟨d, -, hsettles, -, hall⟩ := calls_complete agents agents_reachable
  exact ⟨d, hsettles, hall 2 getCall _ rfl⟩

end Sample

end LegalHold
