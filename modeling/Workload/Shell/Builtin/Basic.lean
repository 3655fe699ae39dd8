import Workload.Shell.Expand

/-!
# Errors of commands of the shell

What a command of the shell does not understand, and the numbers that it takes.
-/

namespace Workload.Shell

namespace State

/-- An error of a command of the shell; `code` is what bash ends it with. -/
def refuse (command text : String) (code : Nat) (s : State) : State :=
  if s.isBash then (s.warn (command ++ ": " ++ text)).finish code
  else ((s.warn (command ++ ": " ++ text)).finish 2).ends .failed

/-- The number that an argument is, if it is not negative. -/
def number? (a : String) : Option Nat :=
  (Text.natOf? 10 a.toList).filter (· < Nat.pow 2 31)

end State

/-!
## Endings

How a command of the shell ends a shell, a function or a loop.
-/

namespace State

def exit (args : List String) (s : State) : State :=
  match args with
  | [] => s.ends (.exited s.status)
  | a :: rest =>
    if s.isBash then
      match Text.int64Of? a.toList with
      | none => ((s.warn ("exit: " ++ a ++ ": numeric argument required")).finish 2).ends (.exited 2)
      | some n =>
        if rest.isEmpty then s.ends (.exited (n % 256).toNat)
        else (s.warn "exit: too many arguments").finish 1
    else
      match number? a with
      | some n => s.ends (.exited (n % 256))
      | none => s.refuse "exit" ("Illegal number: " ++ a) 2

def return_ (args : List String) (s : State) : State :=
  if s.isBash && s.frames.isEmpty && s.sources < 2 then
    (s.warn "return: can only \x60return' from a function or sourced script").finish 2
  else
    match args with
    | [] => s.ends .returned
    | a :: _ =>
      if s.isBash then
        match Text.int64Of? a.toList with
        | some n => (s.finish (n % 256).toNat).ends .returned
        | none => ((s.warn ("return: " ++ a ++ ": numeric argument required")).finish 2).ends .returned
      else
        match number? a with
        | some n => (s.finish n).ends .returned
        | none => s.refuse "return" ("Illegal number: " ++ a) 2

/-- Leaves loops, or goes on with them. -/
def leaveLoops (command : String) (flow : Nat → Flow) (args : List String) (s : State) : State :=
  let count : Option Nat := match args with
    | [] => some 1
    | a :: _ => (number? a).filter (· ≠ 0)
  if s.isBash && s.loops = 0 then
    (s.warn (command ++ ": only meaningful in a \x60for', \x60while', or \x60until' loop")).finish 0
  else
    match count with
    | none =>
      if s.isBash then
        (s.warn (command ++ ": " ++ args.headD "" ++ ": loop count out of range")).finish 1 |>.ends (.broken s.loops)
      else s.refuse command ("Illegal number: " ++ args.headD "") 1
    | some n => if s.loops = 0 then s.finish 0 else (s.finish 0).ends (flow (min n s.loops))

end State

end Workload.Shell
