import Workload.Shell.Builtin.Basic

/-!
# Names of commands

What the name of a command stands for: a reserved word, an alias, a function, a command of the shell, or
a program.
-/

namespace Workload.Shell

namespace State

def dashBuiltins : List String :=
  [".", ":", "[", "alias", "bg", "break", "cd", "chdir", "command", "continue", "echo", "eval", "exec",
    "exit", "export", "false", "fg", "getopts", "hash", "jobs", "kill", "local", "printf", "pwd", "read",
    "readonly", "return", "set", "shift", "test", "times", "trap", "true", "type", "ulimit", "umask",
    "unalias", "unset", "wait"]

def bashBuiltins : List String :=
  (dashBuiltins.filter (· ≠ "chdir")) ++
    ["bind", "builtin", "caller", "compgen", "complete", "compopt", "declare", "dirs", "disown", "enable",
      "fc", "help", "history", "let", "logout", "mapfile", "popd", "pushd", "readarray", "shopt", "source",
      "suspend", "typeset"]

/-- The commands an error of which ends the shell. -/
def specialBuiltins : List String :=
  [".", ":", "break", "continue", "eval", "exec", "exit", "export", "local", "readonly", "return", "set",
    "shift", "times", "trap", "unset"]

def builtins (s : State) : List String := if s.isBash then bashBuiltins else dashBuiltins

def keywords (s : State) : List String :=
  reserved ++ if s.isBash then ["[[", "]]", "function", "select", "time", "coproc"] else []

/-- The directories where programs are looked for. -/
def searchPath (s : State) : List String :=
  Text.pieces ':' ((s.text? "PATH").getD "/usr/local/sbin:/usr/local/bin:/usr/sbin:/usr/bin:/sbin:/bin")

/-- Whether a place is that of something that can be run. -/
def runs (s : State) (place : List String) : Bool :=
  match s.sys.entry? place with
  | some .directory | none => false
  | some _ =>
    s.sys.runnable.contains place ||
      (match place with
        | ".." :: ".." :: parts => programDirectories.contains parts.dropLast
        | _ => false)

/-- The path of a program. -/
def programPath? (s : State) (name : String) : Option String :=
  if name.toList.contains '/' then
    match s.place? name with
    | .ok place => if s.runs place then some name else none
    | .error _ => none
  else if name.isEmpty then none
  else
    (s.searchPath.map fun d => if d.isEmpty then name else Path.join d name).find? fun p =>
      match s.place? p with
      | .ok place => s.runs place
      | .error _ => false

/-- What is said about the name of a command, in short or in full; none if there is none. -/
def described? (s : State) (full : Bool) (name : String) : Option String :=
  if s.keywords.contains name then
    some (if full then name ++ " is a shell keyword" else name)
  else
    match s.aliases.get? name with
    | some text =>
      some <|
        if full then
          if s.isBash then name ++ " is aliased to \x60" ++ text ++ "'" else name ++ " is an alias for " ++ text
        else "alias " ++ name ++ "=" ++ dashQuoted text
    | none =>
      if (s.functions.get? name).isSome then
        some (if full then name ++ (if s.isBash then " is a function" else " is a shell function") else name)
      else if s.builtins.contains name then
        some <|
          if full then
            if !s.isBash && specialBuiltins.contains name then name ++ " is a special shell builtin"
            else name ++ " is a shell builtin"
          else name
      else
        (s.programPath? name).map fun p =>
          if !full then p
          else if !s.hashed.contains name then name ++ " is " ++ p
          else if s.isBash then name ++ " is hashed (" ++ p ++ ")"
          else name ++ " is a tracked alias for " ++ p

/-- Notes that a program has been found by its name. -/
def noted (name : String) (s : State) : State :=
  if name.toList.contains '/' || s.hashed.contains name || (s.programPath? name).isNone then s
  else { s with hashed := name :: s.hashed }

/-- Says what the names of commands mean. -/
def type (args : List String) (s : State) : State :=
  match args with
  | "-t" :: names =>
    names.foldl
      (fun s n =>
        let kind :=
          if s.keywords.contains n then some "keyword"
          else if (s.aliases.get? n).isSome then some "alias"
          else if (s.functions.get? n).isSome then some "function"
          else if s.builtins.contains n then some "builtin"
          else (s.programPath? n).map fun _ => "file"
        match kind with
        | some k => s.print (k ++ "\n")
        | none => s.finish 1)
      (s.finish 0)
  | "-p" :: names | "-P" :: names =>
    names.foldl
      (fun s n => match s.programPath? n with
        | some p => s.print (p ++ "\n")
        | none => s.finish 1)
      (s.finish 0)
  | names =>
    names.foldl
      (fun s n => match s.described? true n with
        | some t => if s.isBash then s.print (t ++ "\n") else (s.print (t ++ "\n")).noted n
        | none =>
          if s.isBash then (s.warn ("type: " ++ n ++ ": not found")).finish 1
          else (s.print (n ++ ": not found\n")).finish 127)
      (s.finish 0)

/-- `command -v` and `command -V`. -/
def commandNames (full : Bool) (names : List String) (s : State) : State :=
  if s.isBash then
    let said := names.map fun n => (n, s.described? full n)
    let s := said.foldl
      (fun s e => match e.2 with
        | some t => s.print (t ++ "\n")
        | none => if full then s.warn ("command: " ++ e.1 ++ ": not found") else s)
      s
    s.finish (if said.isEmpty || said.any (·.2.isSome) then 0 else 1)
  else
    match names with
    | [] => s.finish 0
    | n :: _ =>
      match s.described? full n with
      | some t => ((s.print (t ++ "\n")).finish 0).noted n
      | none => (if full then s.print (n ++ ": not found\n") else s).finish 127

end State

end Workload.Shell
