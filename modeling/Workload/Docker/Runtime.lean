import Workload.Docker.Client

/-!
# Docker as a runtime

The containers of a task are watched one by one.  What a container has written is saved when it is
done, if the task asks for it.
-/

namespace Workload.Docker

/-- A cluster node that was started. -/
structure Server where
  id : String
  port : Nat
  deriving DecidableEq, Repr

/-- The docker program, the nodes that were started through it, and how many containers of tasks were
given a name. -/
structure Engine (π : Type) where
  program : π
  servers : Named Server := []
  drawn : Nat := 0

variable {π ε α : Type} (p : Program π)

/-- Uses the program. -/
def onProgram (f : π → Except ε α × π) : Call (World (Engine π)) ε α := fun w =>
  let (r, program) := f w.containers.program
  ({ result := r }, { w with containers := { w.containers with program } })

/-- Launches a task. -/
def run (t : Task) : Call (World (Engine π)) RuntimeFault Launch := fun w =>
  let e := w.containers
  let (reply, program) := launch p t e.drawn e.program
  (reply, { w with containers := { e with program, drawn := e.drawn + t.instances } })

/-- Where the log of a container is saved. -/
def logPath (t : Task) (id : String) : String :=
  Path.join t.logDir (t.name ++ "-" ++ (shortId? id).getD id ++ ".log")

/-- Writes what a container has written into a file. -/
def writeLog (t : Task) (id text : String) (fs : Files) : List LogLine × Files :=
  match fs.createDirectory t.logDir with
  | .error _ => ([.warn "could not create log dir"], fs)
  | .ok fs =>
    match fs.writeText (logPath t id) text with
    | .ok fs => ([], fs)
    | .error _ => ([.warn "could not write container log"], fs)

/-- Saves what a container has written, if the task asks for it. -/
def saveLog (t : Task) (id : String) (w : World (Engine π)) : List LogLine × World (Engine π) :=
  if t.logLevel = 0 then ([], w)
  else
    let (r, program) := logs p id w.containers.program
    let w := { w with containers := { w.containers with program } }
    match r with
    | .error _ => ([.warn "could not read container logs"], w)
    | .ok text =>
      let (log, files) := writeLog t id text w.files
      (log, { w with files })

/-- Waits for a container of a task and saves its log. -/
def watch (t : Task) (id : String) (w : World (Engine π)) :
    Option (Reply RuntimeFault Unit) × World (Engine π) :=
  let (r, program) := await p id w.containers.program
  let w := { w with containers := { w.containers with program } }
  match r with
  | none => (none, w)
  | some result =>
    let (log, w) := saveLog p t id w
    (some { result, log }, w)

/-- Removes a container whose time is up, after its log is saved. -/
def expire (t : Task) (id : String) : Call (World (Engine π)) RuntimeFault Unit := fun w =>
  let (log, w) := saveLog p t id w
  let (reply, w) := onProgram (remove p id) w
  ({ reply with log }, w)

/-- The signal of a container, and what is noted until it arrives.  A container that goes on without a
limit never sends one. -/
def signal? (t : Task) (id : String) (w : World (Engine π)) :
    (Option Signal × List LogLine) × World (Engine π) :=
  let signalOf : Except RuntimeFault Unit → Signal
    | .ok _ => none
    | .error fault => some fault
  match watch p t id w with
  | (some reply, w) => ((some (signalOf reply.result), reply.log), w)
  | (none, w) =>
    if t.duration = .zero then ((none, []), w)
    else
      let (reply, w) := expire p t id w
      ((some (signalOf reply.result), reply.log), w)

/-- The signals of containers that are watched one after the other. -/
def signals (t : Task) : List String → World (Engine π) →
    (List Signal × List LogLine) × World (Engine π)
  | [], w => (([], []), w)
  | id :: ids, w =>
    let ((signal, log), w) := signal? p t id w
    let ((rest, logs), w) := signals t ids w
    ((signal.toList ++ rest, log ++ logs), w)

/-- Launches a task and watches its containers to their ends. -/
def runToEnd (t : Task) : Call (World (Engine π)) RuntimeFault Launch := fun w =>
  match run p t w with
  | ({ result := .ok l, log, .. }, w) =>
    let ((sent, logs), w) := signals p t l.containers w
    ({ result := .ok { l with signals := some sent }, log := log ++ logs }, w)
  | r => r

/-- The runtime whose containers are those of the docker program. -/
def runtime : Runtime (World (Engine π)) where
  run := run p
  start id := onProgram (start p id)
  kill id := onProgram (kill p id)
  remove id := onProgram (remove p id)
  copy id source target := onProgram (copy p id source target)
  status id := onProgram (status p id)
  reclaim soft := onProgram (reclaimLabeled p taskLabel soft)
  purge := onProgram (reclaimLabeled p managedLabel false)
  watch := watch p
  expire := expire p

end Workload.Docker
