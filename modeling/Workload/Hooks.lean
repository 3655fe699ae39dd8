import Workload.Config
import Workload.Environment

/-!
# Hooks

A hook is a command for an interpreter, which gets it as its last argument.  Which programs there are,
and what they do, is not known here.
-/

namespace Workload.Hooks

/-- What is left of a program that has come to its end. -/
structure Ended where
  /-- The code; none for a program that a signal has ended. -/
  code : Option Int
  output : String
  files : Files

/-- What starts a program by its name, with arguments; none if there is no such program. -/
abbrev Starter :=
  (vars : Named String) → Files → (name : String) → (args : List String) → Option Ended

variable {ρ : Type} (start : Starter)

/-- The usual interpreter. -/
def shell : List String := ["sh", "-c"]

/-- The command of a hook. -/
def command? (c : HookConfig) : HookName → Option String
  | .setup => c.setup
  | .teardown => c.teardown
  | .initCli => c.initCli

/-- What the end of an interpreter says about a hook. -/
def outcome (code : Option Int) : Except ExecutionFault Unit :=
  if code = some 0 then .ok () else .error (.commandFailed code)

/-- Has the interpreter carry out a command. -/
def execute (interpreter : List String) (vars : Named String) (name : HookName)
    (command : String) : Call (World ρ) ExecutionFault Unit := fun w =>
  let log : List LogLine := [.info "running hook"]
  match interpreter with
  | [] => ({ result := .error (.hook name.text .emptyInterpreter), log }, w)
  | program :: args =>
    let started :=
      if (program :: args ++ [command]).all Text.isArgument then
        start vars w.files program (args ++ [command])
      else none
    match started with
    | none => ({ result := .error (.hook name.text .notStarted), log }, w)
    | some s => ({ result := outcome s.code, log, printed := s.output }, { w with files := s.files })

/-- The hooks of a configuration; one without a command does nothing. -/
def startedBy (c : HookConfig) (interpreter : List String) (vars : Named String)
    (name : HookName) : Hook (World ρ) :=
  match command? c name with
  | none => .nothing
  | some text => .command text (execute start interpreter vars name)

end Workload.Hooks
