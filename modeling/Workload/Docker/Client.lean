import Workload.Docker.Program
import Workload.Environment
import Workload.Drawn

/-!
# Containers through the docker program

Every container created here carries labels: all of them one, those of tasks and those of cluster nodes
one more.  By these labels they are found again when they are to be removed.
-/

namespace Workload.Docker

/-- The label of every container. -/
def managedLabel : String := "canopy.managed"

/-- The label of the containers of tasks. -/
def taskLabel : String := "canopy.task"

/-- The label of the containers of cluster nodes. -/
def serverLabel : String := "canopy.server"

variable {π : Type} (p : Program π)

/-- Calls the program, which cannot be started with arguments that no program can get. -/
def call (args : List String) (s : π) : Answer × π :=
  if args.all Text.isArgument then p args s else (.unavailable, s)

/-- Calls the program for its output. -/
def invoke (args : List String) (s : π) : Except RuntimeFault String × π :=
  let (a, s) := call p args s
  (a.result, s)

/-- Calls the program for what it does. -/
def order (args : List String) (s : π) : Except RuntimeFault Unit × π :=
  let (r, s) := invoke p args s
  (r.map fun _ => (), s)

/-- The containers with a label. -/
def listLabeled (label : String) (s : π) : Except RuntimeFault (List String) × π :=
  let (r, s) := invoke p ["ps", "-aq", "--filter", "label=" ++ label ++ "=true"] s
  (r.map Text.lines, s)

/-- The call that takes containers away, or just stops them. -/
def reclaimArgs (soft : Bool) (ids : List String) : List String :=
  (if soft then ["kill"] else ["rm", "-f"]) ++ ids

/-- Takes containers away, or just stops them; one that stands still already is stopped. -/
def reclaim (soft : Bool) (ids : List String) (s : π) : Except RuntimeFault Unit × π :=
  if ids.isEmpty then (.ok (), s)
  else
    match order p (reclaimArgs soft ids) s with
    | (.error (.command text), s) =>
      if soft && Text.contains "is not running" text then (.ok (), s)
      else (.error (.command text), s)
    | r => r

/-- Takes the containers with a label away, or just stops them. -/
def reclaimLabeled (label : String) (soft : Bool) (s : π) : Except RuntimeFault Unit × π :=
  match listLabeled p label s with
  | (.ok ids, s) => reclaim p soft ids s
  | (.error fault, s) => (.error fault, s)

def start (id : String) : π → Except RuntimeFault Unit × π := order p ["start", id]

def kill (id : String) : π → Except RuntimeFault Unit × π := order p ["kill", id]

def remove (id : String) : π → Except RuntimeFault Unit × π := order p ["rm", "-f", id]

def copy (id source target : String) : π → Except RuntimeFault Unit × π :=
  order p ["cp", id ++ ":" ++ source, target]

def status (id : String) (s : π) : Except RuntimeFault ContainerStatus × π :=
  let (r, s) := invoke p ["inspect", "-f", "\x7b\x7b.State.Status\x7d\x7d", id] s
  (r.map ContainerStatus.parse, s)

/-- The address of a container in its networks. -/
def ipAddress (id : String) : π → Except RuntimeFault String × π :=
  invoke p
    ["inspect", "-f",
      "\x7b\x7brange .NetworkSettings.Networks\x7d\x7d\x7b\x7b.IPAddress\x7d\x7d\x7b\x7bend\x7d\x7d",
      id]

/-- What a container has written. -/
def logs (id : String) (s : π) : Except RuntimeFault String × π :=
  let (a, s) := call p ["logs", id] s
  (a.outputs, s)

/-! ### Cluster nodes -/

/-- Starts a node whose port 8091 is reached through a port of the host. -/
def runServer (name image : String) (port : Nat) : π → Except RuntimeFault String × π :=
  invoke p
    ["run", "-d", "--name", name, "--label", managedLabel ++ "=true", "--label",
      serverLabel ++ "=true", "-p", toString port ++ ":8091", image]

def countServers (s : π) : Except RuntimeFault Nat × π :=
  let (r, s) := listLabeled p serverLabel s
  (r.map List.length, s)

def removeServers (soft : Bool) : π → Except RuntimeFault Unit × π :=
  reclaimLabeled p serverLabel soft

/-! ### Tasks -/

/-- The call that starts a container of a task under a name with a suffix. -/
def runArgs (t : Task) (suffix : String) : List String :=
  ["run", "-d", "--name", t.name ++ "-" ++ suffix, "--label", managedLabel ++ "=true", "--label",
    taskLabel ++ "=true"] ++
    t.links.flatMap (fun l => ["--link", l]) ++
    (t.entrypoint.elim [] fun e => ["--entrypoint", e]) ++
    t.image :: t.command

/-- Starts `n` containers of a task with suffixes drawn from number `k` on; `started` are those started
before.  The first that does not start ends it. -/
def startInstances (t : Task) : (n k : Nat) → (started : List String) → π →
    (Except RuntimeFault Unit × List String) × π
  | 0, _, started, s => ((.ok (), started), s)
  | n + 1, k, started, s =>
    match invoke p (runArgs t (Drawn.suffix k)) s with
    | (.ok id, s) => startInstances t n (k + 1) (started ++ [id]) s
    | (.error fault, s) => ((.error fault, started), s)

/-- Whether every container of a launch can be named. -/
def areNamed (ids : List String) : Bool := ids.all fun id => (shortId? id).isSome

/-- Removes the containers of a launch that failed; one that cannot be removed is noted. -/
def removePartial : List String → π → List LogLine × π
  | [], s => ([], s)
  | id :: ids, s =>
    let (r, s) := remove p id s
    let (log, s) := removePartial ids s
    (match r with
      | .ok _ => (log, s)
      | .error _ => (.warn "could not remove partial launch" :: log, s))

/-- Launches a task: all of its containers, or none. -/
def launch (t : Task) (k : Nat) (s : π) : Reply RuntimeFault Launch × π :=
  if min maxSignals maxListed < t.instances then (.impossible (.error notInvoked), s)
  else
    let ((r, ids), s) := startInstances p t t.instances k [] s
    if !areNamed ids then (.impossible (.error notInvoked), s)
    else
      match r with
      | .ok _ => (.done ⟨ids.headD "", ids, none⟩, s)
      | .error fault =>
        let (log, s) := removePartial p ids s
        ({ result := .error fault, log }, s)

/-- What the output of a wait says about a container. -/
def exitOf (id out : String) : Except RuntimeFault Unit :=
  match Text.signedOf? 10 (Nat.pow 2 31) (Text.trim out.toList) with
  | some code => if code = 0 then .ok () else .error (.exited id code)
  | none =>
    .error (.command ("unexpected wait output for " ++ (shortId? id).getD id ++ ": " ++ out))

/-- Waits for a container, unless that does not end. -/
def await (id : String) (s : π) : Option (Except RuntimeFault Unit) × π :=
  match call p ["wait", id] s with
  | (.hangs, s) => (none, s)
  | (a, s) => (some (a.result.bind (exitOf id)), s)

end Workload.Docker
