import Workload.Shell.Programs.Basic

/-!
# Programs for files

Files and directories are made, moved, copied, listed and taken away.
-/

namespace Workload.Shell.Programs

/-- The last part of a path. -/
def lastPart (p : String) : String :=
  let s := (p.toList.reverse.dropWhile (· = '/')).takeWhile (· ≠ '/')
  if s.isEmpty then (if p.isEmpty then "" else "/") else String.ofList s.reverse

/-- The path without its last part. -/
def firstParts (p : String) : String :=
  let s := p.toList.reverse.dropWhile (· = '/')
  let rest := (s.dropWhile (· ≠ '/')).dropWhile (· = '/')
  if rest.isEmpty then (if p.startsWith "/" then "/" else ".") else String.ofList rest.reverse

/-- Where a file goes that is put at a path. -/
def landing (s : State) (source target : String) : String :=
  if s.isDirectory target then Path.join target (lastPart source) else target

def basename (args : List String) (s : State) : State :=
  withOptions "basename" { letters := "as:z", long := [("multiple", 'a'), ("suffix", 's')], mixed := false } 1
    args s fun o s =>
      let strip := fun (suffix n : String) =>
        if !suffix.isEmpty && n ≠ suffix && n.endsWith suffix then String.ofList (n.toList.take (n.length - suffix.length)) else n
      match o.operands with
      | [] => (s.complain "basename: missing operand").finish 1
      | paths =>
        if o.has 'a' || o.has 's' then
          s.print (ofLines (paths.map fun p => strip ((o.value? 's').getD "") (lastPart p)))
        else
          match paths with
          | [p] => s.print (lastPart p ++ "\n")
          | [p, suffix] => s.print (strip suffix (lastPart p) ++ "\n")
          | _ => (s.complain ("basename: extra operand '" ++ paths.getD 2 "" ++ "'")).finish 1

def dirname (args : List String) (s : State) : State :=
  withOptions "dirname" { letters := "z" } 1 args s fun o s =>
    if o.operands.isEmpty then (s.complain "dirname: missing operand").finish 1
    else s.print (ofLines (o.operands.map firstParts))

def mkdir (args : List String) (s : State) : State :=
  withOptions "mkdir" { letters := "pvm:", long := [("parents", 'p'), ("mode", 'm'), ("verbose", 'v')] } 1 args s
    fun o s =>
      if o.operands.isEmpty then (s.complain "mkdir: missing operand").finish 1
      else
        o.operands.foldl
          (fun s p =>
            let fault := fun (e : FileFault) (s : State) =>
              (s.complain ("mkdir: cannot create directory '" ++ p ++ "': " ++ reason e)).finish 1
            let make := fun (s : State) (path : String) =>
              match s.place? ((String.ofList (path.toList.reverse.dropWhile (· = '/')).reverse)) with
              | .error e => Except.error e
              | .ok place =>
                match s.sys.entry? place with
                | some .directory => .error .exists
                | some _ => .error .exists
                | none =>
                  match s.sys.entry? (upFrom place) with
                  | some .directory =>
                    .ok { s with sys := { s.sys with files := s.sys.files.put place .directory } }
                  | some _ => .error .notDirectory
                  | none => .error .missing
            if o.has 'p' then
              let parts := Text.pieces '/' p
              let paths := (List.range parts.length).map fun n => String.intercalate "/" (parts.take (n + 1))
              let result := (paths.filter fun q => !q.isEmpty).foldlM
                (fun s q => if s.isDirectory q then .ok s else make s q) s
              match result with
              | .ok s => s
              | .error e => fault e s
            else
              match make s p with
              | .ok s => if o.has 'v' then s.print ("mkdir: created directory '" ++ p ++ "'\n") else s
              | .error e => fault e s)
          s

def rmdir (args : List String) (s : State) : State :=
  withOptions "rmdir" { letters := "pv", long := [("parents", 'p'), ("ignore-fail-on-non-empty", 'v')] } 1 args s
    fun o s =>
      o.operands.foldl
        (fun s p =>
          let fault := fun (t : String) =>
            (s.complain ("rmdir: failed to remove '" ++ p ++ "': " ++ t)).finish 1
          match s.place? p with
          | .error e => fault (reason e)
          | .ok place =>
            match s.sys.entry? place with
            | some .directory =>
              if (s.sys.names place).isEmpty && !place.isEmpty then { s with sys := s.sys.remove place }
              else fault "Directory not empty"
            | some _ => fault "Not a directory"
            | none => fault "No such file or directory")
        s

def rm (args : List String) (s : State) : State :=
  withOptions "rm"
    { letters := "rRfidvI", long := [("recursive", 'r'), ("force", 'f'), ("dir", 'd'), ("verbose", 'v')] } 1 args s
    fun o s =>
      let deep := o.has 'r' || o.has 'R'
      let forced := o.has 'f'
      if o.operands.isEmpty && !forced then
        ((s.complain "rm: missing operand").complain "Try 'rm --help' for more information.").finish 1
      else
        o.operands.foldl
          (fun s p =>
            let fault := fun (t : String) =>
              (s.complain ("rm: cannot remove '" ++ p ++ "': " ++ t)).finish 1
            match s.place? p with
            | .error e =>
              if forced && (e = .missing || e = .notDirectory) then s else fault (reason e)
            | .ok place =>
              match s.sys.entry? place with
              | none => if forced then s else fault "No such file or directory"
              | some .directory =>
                let last := lastPart p
                if !deep && !(o.has 'd' && (s.sys.names place).isEmpty) then fault "Is a directory"
                else if last = "." || last = ".." then
                  (s.complain ("rm: refusing to remove '.' or '..' directory: skipping '" ++ p ++ "'")).finish 1
                else if place.isEmpty || Files.isAbove place then fault "Permission denied"
                else
                  let s := if o.has 'v' then s.print ("removed directory '" ++ p ++ "'\n") else s
                  { s with sys := s.sys.remove place }
              | some _ =>
                let s := if o.has 'v' then s.print ("removed '" ++ p ++ "'\n") else s
                { s with sys := s.sys.remove place })
          s

def touch (args : List String) (s : State) : State :=
  withOptions "touch" { letters := "acmd:t:r:", long := [("no-create", 'c'), ("date", 'd'), ("reference", 'r')] } 1
    args s fun o s =>
      if o.operands.isEmpty then (s.complain "touch: missing file operand").finish 1
      else
        o.operands.foldl
          (fun s p =>
            let fault := fun (e : FileFault) =>
              (s.complain ("touch: cannot touch '" ++ p ++ "': " ++ reason e)).finish 1
            if (s.entry? p).isSome || o.has 'c' then s
            else
              match s.place? p with
              | .error e => fault e
              | .ok place =>
                match s.sys.create place false with
                | .ok sys => { s with sys }
                | .error e => fault e)
          s

/-- Copies what is at a place to another one. -/
def copyTree (source target : List String) (s : State) : State :=
  let inner := s.sys.files.entries.filter fun e => source.isPrefixOf e.1
  let top := match s.sys.entry? source with
    | some e => [(target, e)]
    | none => []
  let files := inner.foldl (fun fs e => fs.put (target ++ e.1.drop source.length) e.2)
    (top.foldl (fun fs e => fs.put e.1 e.2) s.sys.files)
  let runnable := (s.sys.runnable.filter fun p => source.isPrefixOf p).map fun p =>
    target ++ p.drop source.length
  { s with sys := { s.sys with files, runnable := runnable ++ s.sys.runnable } }

/-- `cp` and `mv`. -/
def transfer (name : String) (moves : Bool) (args : List String) (s : State) : State :=
  withOptions name
    { letters := "rRafinupvTt:", long := [("recursive", 'r'), ("force", 'f'), ("archive", 'a'), ("verbose", 'v'),
        ("no-clobber", 'n'), ("target-directory", 't')] } 1 args s
    fun o s =>
      let (sources, target) : List String × Option String := match o.value? 't' with
        | some t => (o.operands, some t)
        | none => (o.operands.dropLast, o.operands.getLast?)
      match sources, target with
      | [], none => (s.complain (name ++ ": missing file operand")).finish 1
      | [], some t =>
        (s.complain (name ++ ": missing destination file operand after '" ++ t ++ "'")).finish 1
      | _, none => s.finish 1
      | sources, some target =>
        if 1 < sources.length && !s.isDirectory target then
          (s.complain (name ++ ": target '" ++ target ++ "': " ++
            (if (s.entry? target).isSome then "Not a directory" else "No such file or directory"))).finish 1
        else
          sources.foldl
            (fun s source =>
              let fault := fun (t : String) => (s.complain (name ++ ": " ++ t)).finish 1
              let lacking := fun (e : FileFault) =>
                fault ("cannot stat '" ++ source ++ "': " ++ reason e)
              match s.place? source with
              | .error e => lacking e
              | .ok from_ =>
                match s.sys.entry? from_ with
                | none => lacking .missing
                | some entry =>
                  let path := if o.has 'T' then target else landing s source target
                  if entry = .directory && !moves && !(o.has 'r' || o.has 'R' || o.has 'a') then
                    fault ("-r not specified; omitting directory '" ++ source ++ "'")
                  else
                    match s.place? (String.ofList (path.toList.reverse.dropWhile (· = '/')).reverse) with
                    | .error e =>
                      fault ((if moves then "cannot move '" ++ source ++ "' to '" ++ path ++ "': "
                        else "cannot create regular file '" ++ path ++ "': ") ++ reason e)
                    | .ok to_ =>
                      if to_ = from_ then
                        fault ("'" ++ source ++ "' and '" ++ path ++ "' are the same file")
                      else if (s.sys.entry? (upFrom to_)) ≠ some .directory then
                        fault ((if moves then "cannot move '" ++ source ++ "' to '" ++ path ++ "': "
                          else "cannot create regular file '" ++ path ++ "': ") ++ "No such file or directory")
                      else if o.has 'n' && (s.sys.entry? to_).isSome then s
                      else if entry ≠ .directory && s.sys.entry? to_ = some .directory then
                        fault ("cannot overwrite directory '" ++ path ++ "' with non-directory")
                      else if entry = .directory && (s.sys.entry? to_).any (· ≠ .directory) then
                        fault ("cannot overwrite non-directory '" ++ path ++ "' with directory '" ++ source ++ "'")
                      else if from_.isPrefixOf to_ then
                        fault ("cannot " ++ (if moves then "move" else "copy") ++ " '" ++ source ++
                          (if moves then "' to a subdirectory of itself, '" else "' into itself, '") ++ path ++ "'")
                      else
                        let s := copyTree from_ to_ s
                        let s := if moves then { s with sys := s.sys.remove from_ } else s
                        if o.has 'v' then
                          s.print ((if moves then "renamed '" else "'") ++ source ++ "' -> '" ++ path ++ "'\n")
                        else s)
            s

/-- Links are copies here. -/
def ln (args : List String) (s : State) : State :=
  withOptions "ln" { letters := "sfnrvT", long := [("symbolic", 's'), ("force", 'f')] } 1 args s fun o s =>
    match o.operands with
    | [source, target] =>
      let path := landing s source target
      let named := if o.has 's' && !source.startsWith "/" then Path.join (firstParts path) source else source
      match s.place? named, s.place? path with
      | .ok from_, .ok to_ =>
        if (s.sys.entry? to_).isSome && !o.has 'f' then
          (s.complain ("ln: failed to create " ++ (if o.has 's' then "symbolic" else "hard") ++ " link '" ++ path ++
            "': File exists")).finish 1
        else if (s.sys.entry? from_).isNone then
          if o.has 's' then s
          else (s.complain ("ln: failed to access '" ++ source ++ "': No such file or directory")).finish 1
        else copyTree from_ to_ s
      | _, _ => s.finish 1
    | _ => (s.complain "ln: missing file operand").finish 1

def chmod (args : List String) (s : State) : State :=
  let args := args.filter fun a => a ≠ "-R" && a ≠ "-v" && a ≠ "-f" && a ≠ "--"
  match args with
  | [] | [_] => (s.complain "chmod: missing operand").finish 1
  | mode :: paths =>
    let numeric := Text.natOf? 8 mode.toList
    let adds := mode.toList.contains '+' && mode.toList.contains 'x' || numeric.any fun n => n / 64 % 2 = 1
    let takes := mode.toList.contains '-' && mode.toList.contains 'x' || numeric.any fun n => n / 64 % 2 = 0
    paths.foldl
      (fun s p => match s.place? p with
        | .ok place =>
          if (s.sys.entry? place).isNone then
            (s.complain ("chmod: cannot access '" ++ p ++ "': No such file or directory")).finish 1
          else
            let others := s.sys.runnable.filter (· ≠ place)
            let runnable := if adds then place :: others else if takes then others else s.sys.runnable
            { s with sys := { s.sys with runnable } }
        | .error e => (s.complain ("chmod: cannot access '" ++ p ++ "': " ++ reason e)).finish 1)
      (s.finish 0)

/-- Names what is in directories. -/
def ls (args : List String) (s : State) : State :=
  withOptions "ls"
    { letters := "aA1drRFpltShiCxm", long := [("all", 'a'), ("almost-all", 'A'), ("directory", 'd'), ("reverse", 'r'),
        ("recursive", 'R'), ("classify", 'F')] } 2 args s
    fun o s =>
      let order := fun (ns : List String) =>
        let ns := ns.mergeSort fun a b => a ≤ b
        if o.has 'r' then ns.reverse else ns
      let marked := fun (isDir isRun : Bool) (n : String) =>
        if (o.has 'F' || o.has 'p') && isDir then n ++ "/"
        else if o.has 'F' && isRun then n ++ "*" else n
      let content := fun (place : List String) =>
        let names := (if o.has 'a' then [".", ".."] else []) ++
          (s.sys.names place).filter fun n => o.has 'a' || o.has 'A' || !n.startsWith "."
        (order names).map fun n =>
          let inner := downTo place (textOf n)
          marked (n = "." || n = ".." || s.sys.isDirectoryAt inner) (s.sys.runnable.contains inner) n
      let paths := if o.operands.isEmpty then ["."] else order o.operands
      let placed := paths.filterMap fun p => match s.place? p with
        | .ok place => (s.sys.entry? place).map fun e => (p, place, e)
        | .error _ => none
      let lacking := paths.filter fun p => (s.entry? p).isNone
      let s := lacking.foldl
        (fun s p => (s.complain ("ls: cannot access '" ++ p ++ "': " ++
          match s.place? p with
          | .error e => reason e
          | .ok _ => "No such file or directory")).finish 2)
        s
      let files := placed.filter fun p => o.has 'd' || p.2.2 ≠ .directory
      let dirs := placed.filter fun p => !o.has 'd' && p.2.2 = .directory
      let rec inside : (fuel : Nat) → String → List String → List (String × List String)
        | 0, _, _ => []
        | fuel + 1, path, place =>
          (path, content place) ::
            if o.has 'R' then
              (order ((s.sys.names place).filter fun n => o.has 'a' || o.has 'A' || !n.startsWith ".")).flatMap fun n =>
                let inner := downTo place (textOf n)
                if s.sys.isDirectoryAt inner then inside fuel (Path.join path n) inner else []
            else []
      let sections := dirs.flatMap fun d => inside 50 d.1 d.2.1
      let named := 1 < o.operands.length || o.has 'R'
      let texts := (if files.isEmpty then [] else [ofLines (files.map fun p => marked (p.2.2 = .directory) false p.1)]) ++
        sections.map fun d => (if named then d.1 ++ ":\n" else "") ++ ofLines d.2
      s.print (String.intercalate "\n" texts)

/-- The path from the root. -/
def realpath (name : String) (args : List String) (s : State) : State :=
  withOptions name { letters := "efmqsz" } 1 args s fun o s =>
    if name = "readlink" && !(o.has 'f' || o.has 'e' || o.has 'm') then s.finish 1
    else
      o.operands.foldl
        (fun s p => match s.place? p with
          | .ok place =>
            if o.has 'e' && (s.sys.entry? place).isNone then
              (if name = "readlink" then s else s.complain (name ++ ": " ++ p ++ ": No such file or directory")).finish 1
            else s.print (bytesOf (absolutePath place) ++ "\n")
          | .error e =>
            (if name = "readlink" then s else s.complain (name ++ ": " ++ p ++ ": " ++ reason e)).finish 1)
        s

def mktemp (args : List String) (s : State) : State :=
  withOptions "mktemp" { letters := "dqtup:", long := [("directory", 'd'), ("tmpdir", 'p')] } 1 args s fun o s =>
    let name := "tmp." ++ String.ofList ((List.range 10).map fun i =>
      Char.ofNat (65 + (s.sys.opened * 7 + i * 11 + s.sys.processes) % 26))
    let template := o.operands.headD ""
    let fill := fun (t : String) => String.ofList (t.toList.zipIdx.map fun c =>
      if c.1 = 'X' && (t.toList.drop c.2).all (fun d => d = 'X' || !d.isAlpha) then
        Char.ofNat (97 + (s.sys.opened * 5 + c.2 * 3) % 26) else c.1)
    let path := if template.isEmpty then Path.join ((o.value? 'p').getD "/tmp") name
      else match o.value? 'p' with
        | some d => Path.join d (fill template)
        | none => if o.has 't' then Path.join "/tmp" (fill template) else fill template
    let s := { s with sys := { s.sys with opened := s.sys.opened + 1 } }
    match s.place? path with
    | .ok place =>
      let made := if o.has 'd' then { s with sys := { s.sys with files := s.sys.files.put place .directory } }
        else { s with sys := s.sys.store place "" }
      made.print (path ++ "\n")
    | .error e => (s.complain ("mktemp: failed to create file via template: " ++ reason e)).finish 1

def stat (args : List String) (s : State) : State :=
  withOptions "stat" { letters := "c:fLt", long := [("format", 'c'), ("printf", 'c')] } 1 args s fun o s =>
    o.operands.foldl
      (fun s p => match s.entry? p with
        | none => (s.complain ("stat: cannot statx '" ++ p ++ "': No such file or directory")).finish 1
        | some e =>
          let size := match s.content? p with
            | .ok t => t.length
            | .error _ => 4096
          let kind := if e = .directory then "directory" else if size = 0 then "regular empty file" else "regular file"
          let runs := match s.place? p with
            | .ok place => s.sys.runnable.contains place
            | .error _ => false
          let mode := if e = .directory || runs then "755" else "644"
          let text := (o.value? 'c').getD "%n"
          let text := Text.replaceAll "%s" (toString size) (Text.replaceAll "%n" p (Text.replaceAll "%F" kind
            (Text.replaceAll "%a" mode text)))
          s.print (text ++ "\n"))
      s

def truncate (args : List String) (s : State) : State :=
  withOptions "truncate" { letters := "s:c", long := [("size", 's')] } 1 args s fun o s =>
    o.operands.foldl
      (fun s p =>
        let old := ((s.content? p).toOption.getD "").toList
        let n := ((o.value? 's').bind natural?).getD 0
        match s.store p (String.ofList (old.take n ++ List.replicate (n - old.length) '\x00')) with
        | .ok s => s
        | .error e => (s.complain ("truncate: cannot open '" ++ p ++ "' for writing: " ++ reason e)).finish 1)
      s

/-- Writes the input to files, and prints it. -/
def tee (args : List String) (s : State) : State :=
  withOptions "tee" { letters := "aip", long := [("append", 'a')] } 1 args s fun o s =>
    let (text, s) := s.readAll 0
    let s := s.print text
    o.operands.foldl
      (fun s p =>
        if p = "/dev/null" then s
        else
          match State.streamPath? p with
          | some n => (s.write n text).1
          | none =>
            let old := if o.has 'a' then (s.content? p).toOption.getD "" else ""
            match s.store p (old ++ text) with
            | .ok s => s
            | .error e => (s.complain ("tee: " ++ p ++ ": " ++ reason e)).finish 1)
      s

end Workload.Shell.Programs
