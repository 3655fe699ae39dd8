import Workload.Drawn
import Workload.Environment

/-!
# Rehearsals

A runtime without containers.  It hands out handles, remembers which of them would still be there, and
answers from scripts where it was given some: statuses for a handle, and signals for the containers
that are launched next.
-/

namespace Workload

/-- A launch, as it was asked for. -/
structure RehearsedLaunch where
  handle : String
  task : Task
  deriving Repr

structure Rehearsal where
  /-- How many handles were given out. -/
  given : Nat := 0
  /-- The handles of the containers that are there. -/
  live : List String := []
  /-- The statuses still to be told for a handle. -/
  statuses : Named (List (Except RuntimeFault ContainerStatus)) := []
  /-- The signals of the containers to come. -/
  signals : List Signal := []
  /-- Whether launches are refused. -/
  refusing : Bool := false
  launches : List RehearsedLaunch := []
  starts : List String := []
  kills : List String := []
  removals : List String := []
  copies : List (String × String × String) := []
  statusCalls : Nat := 0
  reclaims : List Bool := []
  purges : Nat := 0

namespace Rehearsal

/-- The `n`th handle. -/
def handle (n : Nat) : String := "mock-" ++ toString n

/-- Adds to the statuses to be told for a handle. -/
def scriptStatuses (r : Rehearsal) (handle : String)
    (answers : List (Except RuntimeFault ContainerStatus)) : Rehearsal :=
  { r with statuses := r.statuses.put handle (((r.statuses.get? handle).getD []) ++ answers) }

/-- Adds to the signals of the containers to come. -/
def scriptSignals (r : Rehearsal) (signals : List Signal) : Rehearsal :=
  { r with signals := r.signals ++ signals }

/-- Refuses every launch from now on. -/
def refuse (r : Rehearsal) : Rehearsal := { r with refusing := true }

/-- The next `n` handles. -/
def handles (r : Rehearsal) (n : Nat) : List String :=
  (List.range n).map fun i => handle (r.given + 1 + i)

/-- The signals of the next `n` containers; without a script a container ends well. -/
def nextSignals (r : Rehearsal) (n : Nat) : List Signal :=
  r.signals.take n ++ List.replicate (n - r.signals.length) none

theorem length_nextSignals (r : Rehearsal) (n : Nat) : (r.nextSignals n).length = n := by
  unfold nextSignals
  rw [List.length_append, List.length_take, List.length_replicate]
  omega

/-- Launches a task, whose signals are known at once. -/
def launch (t : Task) : Call Rehearsal RuntimeFault Launch := fun r =>
  let n := t.instances
  let refusal := RuntimeFault.command ("mock launch refused for " ++ t.image)
  if maxSignals < n then (.impossible (.error refusal), r)
  else if r.refusing then (.failed refusal, r)
  else if maxListed < n then (.impossible (.error refusal), r)
  else
    let containers := r.handles n
    let first := handle (r.given + 1)
    ({ result := .ok ⟨first, containers, some (r.nextSignals n)⟩, log := [.info "launch"] },
      { r with
        given := r.given + n
        live := r.live ++ containers
        signals := r.signals.drop n
        launches := r.launches ++ [⟨first, t⟩] })

/-- The next status of the script for a handle, else whether it is there. -/
def status (h : String) : Call Rehearsal RuntimeFault ContainerStatus := fun r =>
  let r := { r with statusCalls := r.statusCalls + 1 }
  match r.statuses.get? h with
  | some (answer :: rest) => ({ result := answer }, { r with statuses := r.statuses.put h rest })
  | _ => if h ∈ r.live then (.done .running, r) else (.failed (.notFound h), r)

def remove (h : String) : Call Rehearsal RuntimeFault Unit := fun r =>
  (.done (), { r with live := r.live.filter (· ≠ h), removals := r.removals ++ [h] })

/-- Only a reclaim that is not soft takes containers away. -/
def reclaim (soft : Bool) : Call Rehearsal RuntimeFault Unit := fun r =>
  (.done (),
    { r with live := if soft then r.live else [], reclaims := r.reclaims ++ [soft] })

def purge : Call Rehearsal RuntimeFault Unit := fun r =>
  (.done (), { r with live := [], purges := r.purges + 1 })

end Rehearsal

/-- Makes a call on the containers of a world. -/
def World.inContainers {ρ ε α : Type} (c : Call ρ ε α) : Call (World ρ) ε α := fun w =>
  let (reply, containers) := c w.containers
  (reply, { w with containers })

/-- The runtime of a rehearsal. -/
def Rehearsal.runtime : Runtime (World Rehearsal) where
  run t := World.inContainers (launch t)
  start h := World.inContainers fun r => (.done (), { r with starts := r.starts ++ [h] })
  kill h := World.inContainers fun r => (.done (), { r with kills := r.kills ++ [h] })
  remove h := World.inContainers (remove h)
  copy h source target :=
    World.inContainers fun r => (.done (), { r with copies := r.copies ++ [(h, source, target)] })
  status h := World.inContainers (status h)
  reclaim soft := World.inContainers (reclaim soft)
  purge := World.inContainers purge
  watch _ _ w := (some (.done ()), w)
  expire _ _ w := (.done (), w)

/-- The surroundings of a rehearsal; hooks do nothing. -/
def Rehearsal.environment (provider : Provider (World Rehearsal))
    (vars : String → Option String) : Environment (World Rehearsal) where
  runtime := runtime
  provider := provider
  hooks _ := .nothing
  files := World.files
  vars := vars
  drawn := Drawn.aliasName

end Workload
