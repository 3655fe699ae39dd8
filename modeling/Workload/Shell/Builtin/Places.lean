import Workload.Shell.Builtin.Basic

/-!
# Working directories

A shell goes to other directories, and remembers where it was.
-/

namespace Workload.Shell

namespace State

def changeDirectory (path : String) (announce : Bool) (s : State) : State :=
  let refused := fun (cause : String) =>
    if s.isBash then (s.warn ("cd: " ++ path ++ ": " ++ cause)).finish 1
    else ((s.warn ("cd: can't cd to " ++ path)).finish 2).ends .failed
  if path.isEmpty then s.finish 0
  else
    match s.place? path with
    | .error e => refused (reason e)
    | .ok place =>
      match s.sys.entry? place with
      | some .directory =>
        let old := absolutePath s.here
        let s := { s with here := place }
        let s := (s.force "OLDPWD" old).force "PWD" (absolutePath place)
        (if announce then s.print (absolutePath place ++ "\n") else s).finish 0
      | some _ => refused "Not a directory"
      | none => refused "No such file or directory"

def cd (args : List String) (s : State) : State :=
  let args := args.filter fun a => a ≠ "-L" && a ≠ "-P" && a ≠ "--"
  match args with
  | [] =>
    match s.text? "HOME" with
    | some h => s.changeDirectory h false
    | none => if s.isBash then (s.warn "cd: HOME not set").finish 1 else s.finish 0
  | ["-"] =>
    match s.text? "OLDPWD" with
    | some d => s.changeDirectory d true
    | none => if s.isBash then (s.warn "cd: OLDPWD not set").finish 1 else s.finish 0
  | d :: rest =>
    if s.isBash && !rest.isEmpty then (s.warn "cd: too many arguments").finish 1
    else
      let found := if d.startsWith "/" || d.startsWith "." then none
        else
          ((s.text? "CDPATH").map (Text.pieces ':')).bind fun dirs =>
            (dirs.find? fun dir => !dir.isEmpty && s.isDirectory (Path.join dir d)).map fun dir => Path.join dir d
      match found with
      | some path => s.changeDirectory path true
      | none => s.changeDirectory d false

/-- Shows the directories that have been left for a while. -/
def showDirectories (s : State) : State :=
  (s.print (String.intercalate " " (absolutePath s.here :: s.directories) ++ "\n")).finish 0

def pushDirectory (args : List String) (s : State) : State :=
  let old := absolutePath s.here
  match args with
  | d :: _ =>
    let t := s.changeDirectory d false
    if t.status = 0 then { t with directories := old :: t.directories }.showDirectories else t
  | [] =>
    match s.directories with
    | d :: ds => ({ s with directories := old :: ds }.changeDirectory d false).showDirectories
    | [] => (s.warn "pushd: no other directory").finish 1

def popDirectory (s : State) : State :=
  match s.directories with
  | d :: ds => ({ s with directories := ds }.changeDirectory d false).showDirectories
  | [] => (s.warn "popd: directory stack empty").finish 1

end State

end Workload.Shell
