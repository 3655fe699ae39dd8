import Workload.Hooks
import Workload.Provider.Static
import Workload.Rehearsal
import Workload.Run.Schedule
import Workload.Session.Plan
import Workload.Shell.Run

/-!
# Runs of sessions

The run of a session takes place with containers, or is rehearsed without them.  Its hooks are the only
commands that it has carried out itself; the programs for them are started here.
-/

namespace Workload

/-- The hooks of a configuration, whose interpreters are programs that there are. -/
def Hooks.ofConfig {ρ : Type} (c : HookConfig) (interpreter : List String) (vars : Named String) :
    HookName → Hook (World ρ) :=
  Hooks.startedBy Shell.start c interpreter vars

namespace Session

variable (s : Session)

/-- A rehearsal: hooks do nothing, and nodes are not created. -/
def rehearsal (p : Plan) (vars : Named String) : Run.Settings (World Rehearsal) where
  env := Rehearsal.environment (.ofSpec p.provider) vars.get?
  config := s.config

/-- A run with the containers of a docker program, and with hooks for the usual interpreter. -/
def live {π : Type} (program : Docker.Program π) (p : Plan) (vars : Named String) :
    Run.Settings (World (Docker.Engine π)) where
  env :=
    { runtime := Docker.runtime program
      provider :=
        match p.provider with
        | .docker => Docker.provider program p.options
        | spec => .ofSpec spec
      hooks := Hooks.ofConfig s.config.hooks Hooks.shell vars
      files := World.files
      vars := vars.get?
      drawn := Drawn.aliasName }
  config := s.config

end Session

namespace Plan

variable {σ : Type} (st : Run.Settings σ)

/-- The state in which the run of a plan begins. -/
def start (p : Plan) (log : List LogLine) (world : σ) : Run.State σ :=
  Run.start st { world, topology := p.topology, log := log.reverse } p.actions .colored

/-- What is left to do after a run: one that failed has not printed its report. -/
def conclude (s : Run.State σ) : Run.State σ := if s.failure.isSome then s.emit else s

/-- Later than anything that happens in a run. -/
def endOfTime : Nat := Nat.pow 2 64

/-- Carries out a plan until it is done, or until the end of the run is asked for. -/
def carryOut (p : Plan) (log : List LogLine) (world : σ) : Run.State σ :=
  let s := (p.start st log world).advance st endOfTime (fun s => s.finished 0 || s.stopped)
    Run.maxSteps 0
  if s.stopped then s else conclude s

/-- The exit code of a run: the one that its end was asked for with, or else whether it failed. -/
def exitCode (s : Run.State σ) : Int :=
  let asked := s.scope.trace.findSome? fun e =>
    match e.event with
    | .exited code => some code
    | _ => none
  asked.getD (if s.failure.isSome then 1 else 0)

/-- Carries out a plan until it is done, or up to a deadline. -/
def run (p : Plan) (log : List LogLine) (world : σ) (deadline : Nat) :
    Run.Outcome × Run.State σ :=
  let (outcome, _, s) := Run.runToDeadline st deadline (p.start st log world)
  (outcome, conclude s)

end Plan

end Workload
