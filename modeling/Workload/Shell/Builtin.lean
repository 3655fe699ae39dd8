import Workload.Shell.Builtin.Basic
import Workload.Shell.Builtin.Getopts
import Workload.Shell.Builtin.Names
import Workload.Shell.Builtin.Places
import Workload.Shell.Builtin.Reading
import Workload.Shell.Builtin.Settings
import Workload.Shell.Builtin.Signals
import Workload.Shell.Builtin.Variables
import Workload.Shell.Format
import Workload.Shell.Test

/-!
# Commands of the shell itself

What a shell does without calling a program, as far as that carries out no other commands.
-/

namespace Workload.Shell

namespace State

def alias_ (args : List String) (s : State) : State :=
  let show_ := fun (a : String × String) =>
    (if s.isBash then "alias " else "") ++ a.1 ++ "=" ++ dashQuoted a.2 ++ "\n"
  if args.isEmpty then s.aliases.foldl (fun s a => s.print (show_ a)) (s.finish 0)
  else
    args.foldl
      (fun s a => match Text.cut? "=" a with
        | some (n, t) => { s with aliases := s.aliases.put n t }
        | none =>
          match s.aliases.get? a with
          | some t => s.print (show_ (a, t))
          | none =>
            (if s.isBash then s.warn ("alias: " ++ a ++ ": not found")
              else s.complain ("alias: " ++ a ++ " not found")).finish 1)
      (s.finish 0)

def unalias (args : List String) (s : State) : State :=
  if args.contains "-a" then { s with aliases := [] }.finish 0
  else
    args.foldl
      (fun s a =>
        if (s.aliases.get? a).isSome then { s with aliases := s.aliases.filter fun e => e.1 ≠ a }
        else
          (if s.isBash then s.warn ("unalias: " ++ a ++ ": not found")
            else s.complain ("unalias: " ++ a ++ " not found")).finish 1)
      (s.finish 0)

def printf (f : Flavor) (args : List String) (s : State) : State :=
  let (target, args) := match f, args with
    | .bash, "-v" :: name :: rest => (some name, rest)
    | _, args => (none, args)
  let args := if args.head? = some "--" then args.tail else args
  match args with
  | [] =>
    match f with
    | .dash => s.refuse "printf" "usage: printf format [arg ...]" 2
    | .bash => (s.complain "printf: usage: printf [-v var] format [arguments]").finish 2
    | .program => (s.complain "printf: missing operand").finish 1
  | format :: rest =>
    let quote := fun (t : String) =>
      if t.isEmpty then "''"
      else if needsEscapes t then escapedText t
      else String.join (t.toList.map fun c =>
        if c.isAlphanum || "_-./:=@%+,".toList.contains c then c.toString else "\\" ++ c.toString)
    let p := printFormat f quote format rest
    let s := p.messages.foldl
      (fun s m => match f with
        | .program => s.complain ("printf: " ++ m)
        | _ => s.warn ("printf: " ++ m))
      s
    let s := match target with
      | some name => s.assign name p.output
      | none => s.print p.output
    if p.code = 2 then s.refuse "printf" "" 2 else s.finish p.code

def test (name : String) (args : List String) (s : State) : State :=
  let wrong := fun (m : String) => (s.warn (name ++ ": " ++ m)).finish 2
  let args? := if name = "[" then
    (if args.getLast? = some "]" then some args.dropLast else none) else some args
  match args? with
  | none => wrong (if s.isBash then "missing \x60]'" else "missing ]")
  | some args =>
    match Test.holds s args with
    | .ok true => s.finish 0
    | .ok false => s.finish 1
    | .error m => wrong m

/-- Finds the values of expressions, up to one that has none. -/
def calculateAll : List String → State → State
  | [], s => s
  | a :: rest, s =>
    match s.calculate a with
    | .ok (n, s) => calculateAll rest (s.finish (if n = 0 then 1 else 0))
    | .error f => { s.arithmeticFault "let: " a f with flow := none, status := 1 }

def let_ (args : List String) (s : State) : State :=
  if args.isEmpty then (s.warn "let: expression expected").finish 1 else calculateAll args (s.finish 0)

def shopt (args : List String) (s : State) : State :=
  match args with
  | "-s" :: names => (names.foldl (fun s n => s.setOption n true) s).finish 0
  | "-u" :: names => (names.foldl (fun s n => s.setOption n false) s).finish 0
  | "-q" :: names => s.finish (if names.all s.has then 0 else 1)
  | names =>
    names.foldl
      (fun s n =>
        (s.print (n ++ "\t" ++ (if s.has n then "on" else "off") ++ "\n")).finish (if s.has n then 0 else 1))
      (s.finish 0)

def umask (args : List String) (s : State) : State :=
  match args with
  | [] => (s.print "0022\n").finish 0
  | ["-S"] => (s.print "u=rwx,g=rx,o=rx\n").finish 0
  | a :: _ =>
    if a.toList.all fun c => '0' ≤ c && c ≤ '7' then s.finish 0
    else if s.isBash then
      if a.toList.all Char.isDigit then (s.warn ("umask: " ++ a ++ ": octal number out of range")).finish 1
      else s.finish 0
    else if a.toList.all Char.isDigit then s.refuse "umask" ("Illegal number: " ++ a) 2
    else s.finish 0

/-- Carries out a command of the shell that carries out no others; none if there is none of that name. -/
def builtin? (name : String) (args : List String) (s : State) : Option State :=
  let flavor : Flavor := if s.isBash then .bash else .dash
  if !s.builtins.contains name then none
  else
    match name with
    | ":" | "true" => some (s.finish 0)
    | "false" => some (s.finish 1)
    | "echo" => some ((s.print (echoText flavor args)).finish 0)
    | "printf" => some (s.printf flavor args)
    | "test" | "[" => some (s.test name args)
    | "exit" | "logout" => some (s.exit args)
    | "return" => some (s.return_ args)
    | "break" => some (s.leaveLoops "break" .broken args)
    | "continue" => some (s.leaveLoops "continue" .continued args)
    | "shift" => some (s.shift args)
    | "set" => some (s.set args)
    | "export" =>
      some (s.markAll "export" (fun v => { v with exported := true }) (·.exported) args)
    | "readonly" => some (s.markAll "readonly" (fun v => { v with fixed := true }) (·.fixed) args)
    | "unset" => some (s.unset args)
    | "local" =>
      some (if s.isBash && args.head?.any (fun a => 1 < a.length && a.startsWith "-") && !s.frames.isEmpty then
        s.declare "local" args else s.local_ args)
    | "declare" | "typeset" => some (s.declare name args)
    | "read" => some (s.read args)
    | "mapfile" | "readarray" => some (s.mapfile args)
    | "cd" | "chdir" => some (s.cd args)
    | "pwd" => some ((s.print (absolutePath s.here ++ "\n")).finish 0)
    | "pushd" => some (s.pushDirectory args)
    | "popd" => some s.popDirectory
    | "dirs" => some s.showDirectories
    | "getopts" => some (s.getopts args)
    | "trap" => some (s.trap args)
    | "kill" => some (s.kill args)
    | "wait" => some (s.wait args)
    | "type" => some (s.type args)
    | "alias" => some (s.alias_ args)
    | "unalias" => some (s.unalias args)
    | "let" => some (s.let_ args)
    | "shopt" => some (s.shopt args)
    | "umask" => some (s.umask args)
    | "times" =>
      some ((s.print "0m0.000s 0m0.000s\n0m0.000s 0m0.000s\n").finish 0)
    | "hash" =>
      if args.isEmpty && s.isBash && s.hashed.isEmpty then some ((s.print "hash: hash table empty\n").finish 0)
      else
      some <| (args.filter fun a => !a.startsWith "-").foldl
        (fun s a => if (s.programPath? a).isSome || (s.builtins.contains a) then s.noted a
          else (s.warn ("hash: " ++ a ++ ": not found")).finish 1)
        ((if args.contains "-r" then { s with hashed := [] } else s).finish 0)
    | "fg" | "bg" =>
      some (s.refuse name (if s.isBash then "no job control" else "No current job") 1)
    | "ulimit" => some ((s.print "unlimited\n").finish 0)
    | "jobs" | "bind" | "caller" | "compgen" | "complete" | "compopt" | "disown" | "enable" | "fc" | "help"
    | "history" | "suspend" => some (s.finish 0)
    | _ => none

end State

end Workload.Shell
