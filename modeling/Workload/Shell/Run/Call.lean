import Workload.Shell.Run.Process

/-!
# Calls

A command is called by its name: a function, a command of the shell, or a program.
-/

namespace Workload.Shell

section

variable (exec : Exec)

/-- Notes that a command has failed, which may end the shell. -/
def checked (tested : Bool) (s : State) : State :=
  if s.status ≠ 0 && !tested && s.flow.isNone then
    let s := match s.traps.get? "ERR" with
      | some action =>
        if s.isBash && !(s.frames.length ≠ 0 && !s.has "errtrace") then
          let t := runText exec false "" s.line action
            { s with traps := s.traps.filter fun t => t.1 ≠ "ERR", trapping := true }
          if t.flow.isSome then t
          else { t with status := s.status, traps := s.traps, trapping := s.trapping, line := s.line }
        else s
      | none => s
    if s.has "errexit" && s.flow.isNone then s.ends (.exited s.status) else s
  else s

/-- Calls a function. -/
def callFunction (tested : Bool) (name : String) (body : Command) (args : List String) (s : State) : State :=
  if !s.isBash && 1000 ≤ s.frames.length then
    s.fault "Maximum function recursion depth (1000) reached"
  else
    let t := exec tested body
      { s with arguments := args, frames := [] :: s.frames, calls := name :: s.calls, loops := 0 }
    let t := if t.flow = some .returned then { t with flow := none } else t
    { t.unhide with arguments := s.arguments, calls := s.calls, loops := s.loops }

/-- Carries out the command of a file in this shell. -/
def sourceFile (tested : Bool) (command : String) (args : List String) (s : State) : State :=
  let args := if args.head? = some "--" then args.tail else args
  match args with
  | [] =>
    if s.isBash then
      ((s.warn (command ++ ": filename argument required")).complain
        (command ++ ": usage: " ++ command ++ " filename [arguments]")).finish 2
    else s.finish 0
  | path :: more =>
    let isFile := fun (p : String) => match s.entry? p with
      | some .directory | none => false
      | some _ => true
    let found : Option String :=
      if path.toList.contains '/' then some path
      else
        match (s.searchPath.map fun d => if d.isEmpty then path else Path.join d path).find? isFile with
        | some p => some p
        | none => if s.isBash then some path else none
    let run := fun (text : String) =>
      let arguments := if s.isBash && !more.isEmpty then more else s.arguments
      let t := runText exec (tested && s.isBash) path 1 text
        { s with sources := s.sources + 1, status := 0, arguments, subject := path }
      let t := if t.flow = some .returned then { t with flow := none } else t
      { t with
        sources := s.sources
        subject := s.subject
        arguments := if s.isBash && !more.isEmpty then s.arguments else t.arguments
        line := s.line }
    match found with
    | none => s.refuse "." (path ++ ": not found") 1
    | some p =>
      match s.content? p with
      | .ok text => run text
      | .error e =>
        if s.isBash then (s.warn (path ++ ": " ++ reason e)).finish 1
        else s.refuse "." ("cannot open " ++ path ++ ": " ++ (if e = .missing then "No such file" else reason e)) 2

/-- Calls a command by its name, if there is no function of that name. -/
def callCommand (tested : Bool) : (fuel : Nat) → (special : Bool) → List String → State → State
  | 0, _, _, s => s
  | _, _, [], s => s.finish 0
  | fuel + 1, special, name :: args, s =>
    let isSpecial := special && !s.isBash && State.specialBuiltins.contains name
    let settled := fun (t : State) =>
      if !isSpecial && t.flow = some .failed && name ≠ "eval" then { t with flow := none } else t
    match name with
    | "eval" =>
      if args.isEmpty then s.finish 0
      else
        let line := if s.isBash then s.line else 1
        let t := runText exec tested "eval" line (String.intercalate " " args) { s.finish 0 with subject := "eval" }
        let t := { t with subject := s.subject, line := s.line }
        if special then t else settled t
    | "." => settled (sourceFile exec tested "." args s)
    | "source" => if s.isBash then sourceFile exec tested "source" args s else spawn exec s (name :: args) s
    | "exec" =>
      let args := if args.head? = some "--" then args.tail else args
      let args := if s.isBash && args.head? = some "-a" then args.drop 2 else args
      match args with
      | [] => s.finish 0
      | program :: _ =>
        match findProgram program s with
        | .error (code, text) =>
          let text := if text = "command not found" then "not found" else text
          (({ s with subject := "" }.warn ("exec: " ++ program ++ ": " ++ text)).finish code).ends (.exited code)
        | .ok _ =>
          let t := spawn exec s args s
          { t with traps := [] }.ends (.exited t.status)
    | "command" =>
      match args with
      | "-v" :: names => s.commandNames false names
      | "-V" :: names => s.commandNames true names
      | "-p" :: rest | "--" :: rest => callCommand tested fuel false rest s
      | rest =>
        if rest.isEmpty then s.finish 0
        else
          let t := callCommand tested fuel false rest s
          if t.flow = some .failed then { t with flow := none } else t
    | "builtin" =>
      if s.isBash then
        match args with
        | n :: _ =>
          if s.builtins.contains n then callCommand tested fuel special args s
          else (s.warn ("builtin: " ++ n ++ ": not a shell builtin")).finish 1
        | [] => s.finish 0
      else spawn exec s (name :: args) s
    | _ =>
      match { s with subject := "" }.builtin? name args with
      | some t => settled { t with subject := s.subject }
      | none => spawn exec s (name :: args) (s.noted name)

/-- Calls a command by its name. -/
def call (tested : Bool) (args : List String) (s : State) : State :=
  match args with
  | [] => s.finish 0
  | name :: rest =>
    let function := if !s.isBash && State.specialBuiltins.contains name then none
      else s.functions.get? name
    match function with
    | some body => callFunction exec tested name body rest s
    | none => callCommand exec tested 20 true args s

end

end Workload.Shell
