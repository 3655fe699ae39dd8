import Workload.Command
import Workload.Environment
import Workload.Expression.Condition
import Workload.Expression.Interpolation
import Workload.Named

/-!
# Scopes

What the tasks of a run share: the cluster, the handles recorded under aliases, the counter of the
passes, the clock, and what has been noted so far.  Expressions are evaluated in a scope, and every
call on the world goes through it and is noted.
-/

namespace Workload

/-- The handles recorded under aliases. -/
abbrev Aliases := Named String

structure Scope (σ : Type) where
  world : σ
  topology : Topology := {}
  aliases : Aliases := []
  /-- The pass that goes on. -/
  loops : Nat := 0
  /-- Milliseconds since the start. -/
  clock : Nat := 0
  /-- What happened, the latest first. -/
  trace : List TimedEvent := []
  /-- The log, the latest line first. -/
  log : List LogLine := []
  /-- What was printed. -/
  output : String := ""
  /-- Whether something was asked for that cannot be done, which ends the work that goes on. -/
  broken : Bool := false

namespace Scope

variable {σ ε α : Type}

/-- Adds a line to the log, unless the work has ended. -/
def note (line : LogLine) (s : Scope σ) : Scope σ :=
  if s.broken then s else { s with log := line :: s.log }

/-- Adds an event to the trace, unless the work has ended. -/
def record (e : Event) (s : Scope σ) : Scope σ :=
  if s.broken then s else { s with trace := ⟨s.clock, e⟩ :: s.trace }

/-- Ends the work that goes on. -/
def break_ (s : Scope σ) : Scope σ := { s with broken := true }

def print (text : String) (s : Scope σ) : Scope σ := { s with output := s.output ++ text }

/-- Takes over what came back from a call. -/
def take (r : Reply ε α) (world : σ) (s : Scope σ) : Except ε α × Scope σ :=
  (r.result,
    { s with
      world
      log := r.log.reverse ++ s.log
      output := s.output ++ r.printed
      broken := s.broken || r.broken })

/-- Makes a call that leaves no event. -/
def ask (c : Call σ ε α) (s : Scope σ) : Except ε α × Scope σ :=
  let (reply, world) := c s.world
  s.take reply world

/-- Makes a call and records it as an event with its result. -/
def call (c : Call σ ε α) (event : Except ε α → Event) (s : Scope σ) : Except ε α × Scope σ :=
  let (result, s) := s.ask c
  (result, s.record (event result))

/-! ### Calls on the world -/

variable (env : Environment σ)

def status (handle : String) (s : Scope σ) : Except RuntimeFault ContainerStatus × Scope σ :=
  s.call (env.runtime.status handle) (.status handle)

def start (handle : String) (s : Scope σ) : Except RuntimeFault Unit × Scope σ :=
  s.call (env.runtime.start handle) (.start handle)

def kill (handle : String) (s : Scope σ) : Except RuntimeFault Unit × Scope σ :=
  s.call (env.runtime.kill handle) (.kill handle)

def remove (handle : String) (s : Scope σ) : Except RuntimeFault Unit × Scope σ :=
  s.call (env.runtime.remove handle) (.remove handle)

def copy (handle source target : String) (s : Scope σ) : Except RuntimeFault Unit × Scope σ :=
  s.call (env.runtime.copy handle source target) (.copy handle source target)

def reclaim (soft : Bool) (s : Scope σ) : Except RuntimeFault Unit × Scope σ :=
  s.call (env.runtime.reclaim soft) (.reclaim soft)

def purge (s : Scope σ) : Except RuntimeFault Unit × Scope σ := s.call env.runtime.purge .purge

def launch (task : Task) (s : Scope σ) : Except RuntimeFault Launch × Scope σ :=
  s.call (env.runtime.run task) (.run task)

def provide (t : Topology) (s : Scope σ) : Except ProviderFault Unit × Scope σ :=
  s.call (env.provider.provide t) (.provide t)

def files (s : Scope σ) : Files := env.files s.world

/-- The nodes that containers are linked to. -/
def links (s : Scope σ) : List String :=
  match env.provider.provisioning with
  | some p => ((Text.pieces ',' (p.links s.world))).filter fun l => !l.isEmpty
  | none => []

/-! ### Expressions -/

/-- The value of a variable with an argument.  A status that nobody can tell is that of a missing
container. -/
def lookupCall (function argument : String) (s : Scope σ) : Option String × Scope σ :=
  match function with
  | "status" =>
    let (r, s) := s.status env ((s.aliases.get? argument).getD argument)
    (some (r.toOption.elim "missing" ContainerStatus.text), s)
  | "host" =>
    let (r, s) := s.ask (env.provider.host argument)
    (r.toOption, s)
  | "rest" =>
    let (r, s) := s.ask (env.provider.rest argument)
    (r.toOption, s)
  | "env" => (env.vars argument, s)
  | _ => (none, s)

/-- The value of a variable: the pass, the nodes, a function of an argument, the handle under an
alias, or else an environment variable. -/
def lookup (name : String) (s : Scope σ) : Option String × Scope σ :=
  if name = "loop" then (some (toString s.loops), s)
  else if name = "nodes" then
    match s.topology.nodeNames? with
    | some names => (some (String.intercalate "," names), s)
    | none => (none, s.break_)
  else
    match Text.cut? ":" name with
    | some (function, argument) =>
      s.lookupCall env (Text.trimmed function) (Text.trimmed argument)
    | none => ((s.aliases.get? name).or (env.vars name), s)

/-- The value of an expression; one with a range that is too long ends the work. -/
def evaluate (text : String) (s : Scope σ) : Except ExpressionFault String × Scope σ :=
  match Expression.evaluate (lookup env) text s with
  | (.error .rangeTooLong, s) => (.error .rangeTooLong, s.break_)
  | r => r

/-- The arguments of a command that is an expression. -/
def compileCommand (text : String) (s : Scope σ) :
    Except ExpressionFault (List String) × Scope σ :=
  let (r, s) := s.evaluate env text
  (r.bind Command.split, s)

/-- Whether a condition holds. -/
def condition (text : String) (s : Scope σ) : Except ExpressionFault Bool × Scope σ :=
  let (r, s) := s.evaluate env text
  (r.bind Expression.decideCondition, s)

/-- Whether a condition holds; one that cannot be decided does not. -/
def check (text : String) (s : Scope σ) : Bool × Scope σ :=
  match s.condition env text with
  | (.ok b, s) => (b, s)
  | (.error _, s) => (false, s.note (.warn "condition did not evaluate to a boolean"))

/-! ### Hooks -/

/-- Does what belongs to a hook. -/
def carryOut (name : HookName) (h : Hook σ) (s : Scope σ) :
    Except ExecutionFault Unit × Scope σ :=
  match h with
  | .nothing => (.ok (), s)
  | .call act => s.ask act
  | .command text execute =>
    match s.evaluate env text with
    | (.ok command, s) => s.ask (execute command)
    | (.error e, s) => (.error (.hook name.text (.expression e)), s)

def hook (name : HookName) (s : Scope σ) : Except ExecutionFault Unit × Scope σ :=
  let (result, s) := s.carryOut env name (env.hooks name)
  (result, s.record (.hook name result))

end Scope

end Workload
