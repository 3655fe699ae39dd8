import Workload.Container.Basic
import Workload.Files
import Workload.Named
import Workload.Topology

/-!
# Surroundings of a run

A run acts on the world through calls: on containers, on the nodes of the cluster, and on the hooks
that prepare and clear the cluster.  The world is a state of any type; a call answers and leaves the
world changed.  Nothing else is known about it, so that what holds of a run in any environment holds
whatever containers, nodes and hooks do.
-/

namespace Workload

/-!
## The log

What a run notes while it goes on, with how much it matters.
-/

inductive Severity where
  | info | warn | error
  deriving DecidableEq, Repr

/-- How a severity is written. -/
def Severity.word : Severity → String
  | .info => "INFO"
  | .warn => "WARN"
  | .error => "ERROR"

structure LogLine where
  severity : Severity
  text : String
  deriving DecidableEq, Repr

namespace LogLine

def info (text : String) : LogLine := ⟨.info, text⟩

def warn (text : String) : LogLine := ⟨.warn, text⟩

def error (text : String) : LogLine := ⟨.error, text⟩

def render (l : LogLine) : String := l.severity.word ++ " " ++ l.text

end LogLine

/-! ## Calls -/

/-- What comes back from a call: its result, what it noted in the log, and what it printed. -/
structure Reply (ε α : Type) where
  result : Except ε α
  log : List LogLine := []
  printed : String := ""
  /-- Whether the call asked for what cannot be done; its result then does not count. -/
  broken : Bool := false

namespace Reply

variable {ε α : Type}

def done (a : α) : Reply ε α := { result := .ok a }

def failed (e : ε) : Reply ε α := { result := .error e }

/-- What comes back, instead of some result, from a call that asked for what cannot be done. -/
def impossible (r : Except ε α) : Reply ε α := { result := r, broken := true }

end Reply

/-- A call on a world. -/
abbrev Call (σ ε α : Type) := σ → Reply ε α × σ

/-- Where tasks are launched, and what can be done with their containers. -/
structure Runtime (σ : Type) where
  /-- Creates the containers of a task. -/
  run : Task → Call σ RuntimeFault Launch
  start : String → Call σ RuntimeFault Unit
  kill : String → Call σ RuntimeFault Unit
  remove : String → Call σ RuntimeFault Unit
  /-- Copies a file out of a container. -/
  copy : (handle source target : String) → Call σ RuntimeFault Unit
  status : String → Call σ RuntimeFault ContainerStatus
  /-- Removes the containers of all tasks, or just stops them. -/
  reclaim : (soft : Bool) → Call σ RuntimeFault Unit
  /-- Removes every container there is, cluster nodes included. -/
  purge : Call σ RuntimeFault Unit
  /-- Asks a watched container for its signal; no reply means that the container goes on. -/
  watch : Task → String → σ → Option (Reply RuntimeFault Unit) × σ
  /-- Ends a watched container whose time is up. -/
  expire : Task → String → Call σ RuntimeFault Unit

/-- What only a provider can do that creates the nodes itself. -/
structure Provisioning (σ : Type) where
  /-- The names of the running nodes, separated by commas. -/
  links : σ → String
  saveLogs : String → Call σ ProviderFault Unit
  removeServers : (soft : Bool) → Call σ ProviderFault Unit

/-- Where the addresses of the cluster nodes come from. -/
structure Provider (σ : Type) where
  provide : Topology → Call σ ProviderFault Unit
  host : String → Call σ ProviderFault String
  rest : String → Call σ ProviderFault String
  provisioning : Option (Provisioning σ) := none

/-- Whether nodes are created on demand. -/
def Provider.isDynamic {σ : Type} (p : Provider σ) : Bool := p.provisioning.isSome

/-- The occasions on which something is done to the cluster as a whole. -/
inductive HookName where
  | setup | teardown | initCli
  deriving DecidableEq, Repr

def HookName.text : HookName → String
  | .setup => "setup"
  | .teardown => "teardown"
  | .initCli => "init_cli"

/-- What is done on such an occasion. -/
inductive Hook (σ : Type) where
  | nothing
  | call (act : Call σ ExecutionFault Unit)
  /-- A command that is an expression, and what to do with its value. -/
  | command (text : String) (execute : String → Call σ ExecutionFault Unit)

structure Environment (σ : Type) where
  runtime : Runtime σ
  provider : Provider σ
  hooks : HookName → Hook σ
  files : σ → Files
  /-- The environment variables. -/
  vars : String → Option String
  /-- The names that are drawn for tasks without an alias. -/
  drawn : Nat → String

/-! ## Worlds with containers -/

/-- The world of a run whose containers are kept by some runtime: its containers, the addresses known for
cluster nodes, and its files. -/
structure World (ρ : Type) where
  containers : ρ
  addresses : Named String := []
  files : Files := {}

namespace World

variable {ρ : Type}

/-- Records addresses of nodes; the last one of a node stays. -/
def address (w : World ρ) (entries : List (String × String)) : World ρ :=
  { w with addresses := entries.foldl (fun a e => a.put e.1 e.2) w.addresses }

end World

/-!
## Traces

What happened in a run, call by call, each with its result.
-/

inductive Event where
  | run (task : Task) (result : Except RuntimeFault Launch)
  | start (handle : String) (result : Except RuntimeFault Unit)
  | kill (handle : String) (result : Except RuntimeFault Unit)
  | remove (handle : String) (result : Except RuntimeFault Unit)
  | copy (handle source target : String) (result : Except RuntimeFault Unit)
  | status (handle : String) (result : Except RuntimeFault ContainerStatus)
  | reclaim (soft : Bool) (result : Except RuntimeFault Unit)
  | purge (result : Except RuntimeFault Unit)
  | provide (topology : Topology) (result : Except ProviderFault Unit)
  | saveLogs (directory : String) (result : Except ProviderFault Unit)
  | removeServers (soft : Bool) (result : Except ProviderFault Unit)
  | hook (name : HookName) (result : Except ExecutionFault Unit)
  /-- A task failed, and the failure is handed over to whoever reacts to it. -/
  | failed (describe : String) (fault : RuntimeFault)
  /-- The report is printed. -/
  | emitted
  /-- The end of the run is asked for. -/
  | exited (code : Int)

/-- An event and when it happened, in milliseconds. -/
structure TimedEvent where
  time : Nat
  event : Event

end Workload
