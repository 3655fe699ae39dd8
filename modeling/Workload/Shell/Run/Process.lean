import Workload.Shell.Programs.Call
import Workload.Shell.Run.Program

/-!
# Other processes

A program is found by its name and runs as another process.  Shells are programs too.
-/

namespace Workload.Shell

/-- Finds out which program a name stands for, or why it stands for none. -/
def findProgram (name : String) (s : State) : Except (Nat × String) (List String) :=
  match s.programPath? name with
  | some path =>
    match s.place? path with
    | .ok place => .ok place
    | .error _ => .error (127, "not found")
  | none =>
    let lacking := if s.isBash then
        if name.toList.contains '/' then "No such file or directory" else "command not found"
      else "not found"
    if name.toList.contains '/' then
      match s.place? name with
      | .error .notDirectory =>
        if s.isBash then .error (126, "Not a directory") else .error (126, "Not a directory")
      | .error .nameTooLong => .error (126, "File name too long")
      | .error _ => .error (127, lacking)
      | .ok place =>
        match s.sys.entry? place with
        | none => .error (127, lacking)
        | some .directory => .error (126, if s.isBash then "Is a directory" else "Permission denied")
        | some _ => .error (126, "Permission denied")
    else .error (127, lacking)

/-- The shell that a script asks for, and the arguments that it gets first. -/
def scriptShell? (text : String) : Option (List String) :=
  match text.toList with
  | '#' :: '!' :: cs =>
    some (Text.words (String.ofList (cs.takeWhile (· ≠ '\n'))))
  | _ => none

/-- The variables that a shell begins with. -/
def firstVariables (dialect : Dialect) (environment : Named String) (here : List String) :
    Named Variable :=
  let given : Named Variable := (environment.filter fun v => isName v.1).map fun v =>
    (v.1, { content := .one v.2, exported := true })
  let add := fun (vars : Named Variable) (name text : String) =>
    if (vars.get? name).isSome then vars else vars.put name { content := .one text }
  let own := fun (vars : Named Variable) (name text : String) =>
    let old : Variable := (vars.get? name).getD {}
    vars.put name { old with content := .one text }
  let vars := own (own given "IFS" " \t\n") "OPTIND" "1"
  let vars := own vars "PWD" (absolutePath here)
  let vars := add (add vars "PATH" "/usr/local/sbin:/usr/local/bin:/usr/sbin:/usr/bin:/sbin:/bin") "PS4" "+ "
  match dialect with
  | .dash => add (add (add vars "PS1" "# ") "PS2" "> ") "PPID" "4241"
  | .bash =>
    let vars := [("BASH", "/usr/bin/bash"), ("BASH_VERSION", "5.2.15(1)-release"), ("EUID", "0"),
      ("HOSTNAME", "localhost"), ("HOSTTYPE", "x86_64"), ("MACHTYPE", "x86_64-pc-linux-gnu"), ("OPTERR", "1"),
      ("OSTYPE", "linux-gnu"), ("PPID", "4241"), ("SHELL", "/bin/bash"), ("TERM", "dumb"), ("UID", "0")].foldl
      (fun vars v => add vars v.1 v.2) vars
    let level : Nat := ((vars.get? "SHLVL").bind fun v => match v.content with
      | .one t => Text.natOf? 10 t.toList
      | _ => none).getD 0
    vars.put "SHLVL" { content := .one (toString (level + 1)), exported := true }

/-- How a shell is called. -/
structure Invocation where
  /-- Whether the program is an argument, or what can be read. -/
  command : Bool := false
  stdin : Bool := false
  settings : List (String × Bool) := []
  rest : List String := []

/-- Reads the options of a shell; the option that it does not know otherwise. -/
def invocation (s : State) : (fuel : Nat) → List String → Invocation → Except String Invocation
  | 0, _, i => .ok i
  | _, [], i => .ok i
  | fuel + 1, a :: rest, i =>
    match a.toList with
    | ['-', '-'] | ['-'] => .ok { i with rest }
    | '-' :: '-' :: _ =>
      if s.isBash && ["--norc", "--noprofile", "--login", "--posix", "--verbose", "--restricted",
          "--noediting"].contains a then
        invocation s fuel rest i
      else .error a
    | sign :: c :: cs =>
      if sign = '-' || sign = '+' then
        let letters := c :: cs
        let on : Bool := sign = '-'
        let named := letters.contains 'o'
        let simple := letters.filter fun c => c ≠ 'o' && c ≠ 'c' && c ≠ 's' && c ≠ 'l' && c ≠ 'i'
        match simple.find? fun c => (s.optionName? c).isNone with
        | some c => .error (String.ofList [sign, c])
        | none =>
          let i :=
            { i with
              command := i.command || letters.contains 'c'
              stdin := i.stdin || letters.contains 's'
              settings := i.settings ++ simple.filterMap fun c => (s.optionName? c).map fun n => (n, on) }
          if named then
            match rest with
            | n :: rest =>
              if s.optionNames.contains n then
                invocation s fuel rest { i with settings := i.settings ++ [(n, on)] }
              else .error (String.ofList [sign, 'o'] ++ " " ++ n)
            | [] => .ok i
          else invocation s fuel rest i
      else .ok { i with rest := a :: rest }
    | _ => .ok { i with rest := a :: rest }

section

variable (exec : Exec)

/-- Runs a shell to its end. -/
def runShell (dialect : Dialect) (name : String) (args : List String) (s : State) : State :=
  let fresh : State :=
    { dialect
      sys := s.sys
      title := name
      vars := firstVariables dialect s.environment s.here
      streams := s.streams
      here := s.here
      sources := 1
      options := if dialect.isBash then ["braceexpand", "hashall", "interactive-comments"] else [] }
  match invocation fresh (args.length + 1) args {} with
  | .error o =>
    if dialect.isBash then ((fresh.complain (name ++ ": " ++ o ++ ": invalid option")).finish 2).ends (.exited 2)
    else ((fresh.complain (name ++ ": 0: Illegal option " ++ o)).finish 2).ends (.exited 2)
  | .ok i =>
    let fresh := i.settings.foldl (fun s o => s.setOption o.1 o.2) fresh
    let ended := fun (code : Nat) (text : String) =>
      ((fresh.complain text).finish code).ends (.exited code)
    let go := fun (where_ text : String) (s : State) =>
      let t := runText exec false where_ 1 text s
      atExit exec t
    if i.command then
      match i.rest with
      | [] =>
        ended 2 (if dialect.isBash then name ++ ": -c: option requires an argument"
          else name ++ ": 0: -c requires an argument")
      | text :: more =>
        go "" text { fresh.setOption "command" true with title := more.headD name, arguments := more.tail }
    else
      match i.stdin, i.rest with
      | false, path :: more =>
        match fresh.content? path with
        | .ok text => go "" text { fresh with title := path, arguments := more }
        | .error e =>
          if dialect.isBash then
            match e with
            | .isDirectory => ended 126 (name ++ ": " ++ path ++ ": Is a directory")
            | e => ended 127 (name ++ ": " ++ path ++ ": " ++ reason e)
          else ended 2 (name ++ ": 0: cannot open " ++ path ++ ": " ++
            (if e = .missing then "No such file" else reason e))
      | _, more =>
        let (text, fresh) := fresh.readAll 0
        go "" text { fresh.setOption "stdin" true with arguments := more }

/-- Starts a program with arguments, as another process. -/
def spawnAt (dialect : Dialect) : (fuel : Nat) → Spawn
  | 0, _, s => s
  | _, [], s => s
  | fuel + 1, name :: args, s =>
    match findProgram name s with
    | .error (code, text) => (s.warn (name ++ ": " ++ text)).finish code
    | .ok place =>
      let base := place.getLast?.getD ""
      let isProgram := match place with
        | ".." :: ".." :: _ => !(s.sys.runnable.contains place)
        | _ => false
      if isProgram then
        if base = "sh" || base = "dash" then
          let t := runShell exec .dash name args s
          s.afterProgram t
        else if base = "bash" then
          let t := runShell exec .bash name args s
          s.afterProgram t
        else
          match program? (spawnAt dialect fuel) base args s.copy with
          | some t => s.afterProgram t
          | none => (s.warn (name ++ ": " ++ if s.isBash then "command not found" else "not found")).finish 127
      else
        let text := (s.sys.content? place).toOption.getD ""
        match scriptShell? text with
        | some (program :: options) =>
          spawnAt dialect fuel (program :: options ++ name :: args) s
        | _ =>
          s.afterProgram (runShell exec s.dialect name (name :: args) s)

def spawn (s : State) : Spawn := spawnAt exec s.dialect 50

end

end Workload.Shell
