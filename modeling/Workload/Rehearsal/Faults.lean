import Workload.Environment

/-!
# Scripted faults

An environment in which calls fail as a script says.  Each call takes the next entry of its script; an
entry that names a fault is the result of the call, which then does nothing.
-/

namespace Workload

/-- For every call the faults still to come; an empty entry lets the call through. -/
structure Faults where
  run : List (Option RuntimeFault) := []
  start : List (Option RuntimeFault) := []
  kill : List (Option RuntimeFault) := []
  remove : List (Option RuntimeFault) := []
  copy : List (Option RuntimeFault) := []
  status : List (Option RuntimeFault) := []
  reclaim : List (Option RuntimeFault) := []
  purge : List (Option RuntimeFault) := []
  provide : List (Option ProviderFault) := []
  saveLogs : List (Option ProviderFault) := []
  removeServers : List (Option ProviderFault) := []
  setup : List (Option ExecutionFault) := []
  teardown : List (Option ExecutionFault) := []
  initCli : List (Option ExecutionFault) := []

/-- A world with the faults still to come. -/
structure Faulty (σ : Type) where
  world : σ
  faults : Faults := {}

namespace Faulty

variable {σ ε α : Type}

/-- Makes a call as it is. -/
def plain (c : Call σ ε α) : Call (Faulty σ) ε α := fun w =>
  let (reply, world) := c w.world
  (reply, { w with world })

/-- Makes a call unless its script has a fault for it. -/
def scripted (script : Faults → List (Option ε)) (advance : Faults → Faults) (c : Call σ ε α) :
    Call (Faulty σ) ε α := fun w =>
  match script w.faults with
  | [] => plain c w
  | none :: _ => plain c { w with faults := advance w.faults }
  | some fault :: _ => (.failed fault, { w with faults := advance w.faults })

def runtime (r : Runtime σ) : Runtime (Faulty σ) where
  run t := scripted Faults.run (fun f => { f with run := f.run.tail }) (r.run t)
  start h := scripted Faults.start (fun f => { f with start := f.start.tail }) (r.start h)
  kill h := scripted Faults.kill (fun f => { f with kill := f.kill.tail }) (r.kill h)
  remove h := scripted Faults.remove (fun f => { f with remove := f.remove.tail }) (r.remove h)
  copy h source target :=
    scripted Faults.copy (fun f => { f with copy := f.copy.tail }) (r.copy h source target)
  status h := scripted Faults.status (fun f => { f with status := f.status.tail }) (r.status h)
  reclaim soft :=
    scripted Faults.reclaim (fun f => { f with reclaim := f.reclaim.tail }) (r.reclaim soft)
  purge := scripted Faults.purge (fun f => { f with purge := f.purge.tail }) r.purge
  watch t id w :=
    let (reply, world) := r.watch t id w.world
    (reply, { w with world })
  expire t id := plain (r.expire t id)

def provisioning (p : Provisioning σ) : Provisioning (Faulty σ) where
  links w := p.links w.world
  saveLogs dir :=
    scripted Faults.saveLogs (fun f => { f with saveLogs := f.saveLogs.tail }) (p.saveLogs dir)
  removeServers soft :=
    scripted Faults.removeServers (fun f => { f with removeServers := f.removeServers.tail })
      (p.removeServers soft)

def provider (p : Provider σ) : Provider (Faulty σ) where
  provide t :=
    scripted Faults.provide (fun f => { f with provide := f.provide.tail }) (p.provide t)
  host name := plain (p.host name)
  rest name := plain (p.rest name)
  provisioning := p.provisioning.map provisioning

/-- Hooks that do nothing but fail as their scripts say. -/
def hooks (name : HookName) : Hook (Faulty σ) :=
  let nothing : Call σ ExecutionFault Unit := fun w => (.done (), w)
  .call <|
    match name with
    | .setup => scripted Faults.setup (fun f => { f with setup := f.setup.tail }) nothing
    | .teardown =>
      scripted Faults.teardown (fun f => { f with teardown := f.teardown.tail }) nothing
    | .initCli => scripted Faults.initCli (fun f => { f with initCli := f.initCli.tail }) nothing

end Faulty

/-- An environment whose calls fail as scripts say, with hooks that do nothing else. -/
def Environment.faulty {σ : Type} (env : Environment σ) : Environment (Faulty σ) where
  runtime := Faulty.runtime env.runtime
  provider := Faulty.provider env.provider
  hooks := Faulty.hooks
  files w := env.files w.world
  vars := env.vars
  drawn := env.drawn

end Workload
