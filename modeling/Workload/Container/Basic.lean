import Workload.Duration
import Workload.Fault
import Workload.Text

/-!
# Tasks and containers

A task is what is launched for a plain action.  A launch creates one container for each instance of
the task, and every container reports one signal when it is done.
-/

namespace Workload

/-- The state of a container. -/
inductive ContainerStatus where
  | created | running | paused | restarting | exited | dead
  | other (text : String)
  deriving DecidableEq, Repr

namespace ContainerStatus

def text : ContainerStatus → String
  | .created => "created"
  | .running => "running"
  | .paused => "paused"
  | .restarting => "restarting"
  | .exited => "exited"
  | .dead => "dead"
  | .other s => s

def parse (s : String) : ContainerStatus :=
  match Text.trimmed s with
  | "created" => .created
  | "running" => .running
  | "paused" => .paused
  | "restarting" => .restarting
  | "exited" => .exited
  | "dead" => .dead
  | s => .other s

end ContainerStatus

/-- What a container reports when it is done: nothing, or what went wrong. -/
abbrev Signal := Option RuntimeFault

structure Task where
  /-- The start of the names of its containers. -/
  name : String := "canopy"
  describe : String := ""
  image : String := ""
  command : List String := []
  entrypoint : Option String := none
  /-- Whether the launch is over before the containers are done. -/
  isAsync : Bool := false
  /-- Containers that run longer are removed; zero is without a limit. -/
  duration : Duration := .zero
  concurrency : Nat := 0
  logLevel : Nat := 0
  logDir : String := ""
  /-- The cluster nodes that the containers are linked to. -/
  links : List String := []
  deriving DecidableEq, Repr

/-- A task without a number of instances has one. -/
def Task.instances (t : Task) : Nat := max t.concurrency 1

/-- The containers created for a task. -/
structure Launch where
  /-- The first of the containers; it stands for the task. -/
  handle : String
  containers : List String
  /-- The signals of the containers, if they are known already; else every container has to be
  watched for its own. -/
  signals : Option (List Signal) := none
  deriving DecidableEq, Repr

/-- A container is known by the first twelve bytes of its identifier, unless these end inside a
character. -/
def shortId? (id : String) : Option String :=
  let rec go : Nat → List Char → Option (List Char)
    | _, [] => some []
    | 0, _ => some []
    | n, c :: cs => if n < c.utf8Size then none else (go (n - c.utf8Size) cs).map (c :: ·)
  (go 12 id.toList).map String.ofList

end Workload
