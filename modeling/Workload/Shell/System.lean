import Workload.Files
import Workload.Shell.Bytes

/-!
# What shells and programs share

Shells and the programs that they call share the files, what their streams are open to, and the time.
A place is given as from the working directory of the first shell, which is two directories below the
root.
-/

namespace Workload.Shell

/-- What a stream is open to. -/
inductive Channel where
  | nothing
  /-- What has been written, with the times, the latest first. -/
  | written (chunks : List (Nat × String))
  /-- What is left to be read. -/
  | input (chars : List Char)
  | file (place : List String) (offset : Nat) (appends : Bool)
  deriving DecidableEq, Repr

structure System where
  files : Files
  /-- The files that can be run. -/
  runnable : List (List String) := []
  /-- What has been opened, by numbers. -/
  channels : List (Nat × Channel) := []
  /-- How often something has been opened. -/
  opened : Nat := 3
  /-- The time in milliseconds. -/
  clock : Nat := 0
  /-- The number of the next process. -/
  processes : Nat := 4243
  /-- Processes that have been started, and that have not been waited for: the number, the time of the
  end, and the code. -/
  running : List (Nat × Nat × Nat) := []
  /-- Signals that copies of a shell have sent to it. -/
  signals : List String := []

/-- The directories above the working directory, from the root on. -/
def homeParts : List String := ["tmp", "work"]

/-- The place of the root. -/
def rootPlace : List String := ["..", ".."]

/-- Directories that there are everywhere, as from the root. -/
def commonDirectories : List (List String) :=
  [["bin"], ["boot"], ["dev"], ["dev", "fd"], ["etc"], ["home"], ["lib"], ["lib64"], ["media"], ["mnt"],
    ["opt"], ["proc"], ["root"], ["run"], ["sbin"], ["srv"], ["sys"], ["usr"], ["usr", "bin"],
    ["usr", "lib"], ["usr", "local"], ["usr", "local", "bin"], ["usr", "local", "sbin"],
    ["usr", "sbin"], ["usr", "share"], ["var"], ["var", "tmp"], ["var", "log"]]

/-- The programs that there are everywhere. -/
def programNames : List String :=
  ["[", "awk", "base64", "basename", "bash", "cat", "chmod", "chown", "cmp", "comm", "cp", "cut", "dash",
    "date", "diff", "dirname", "echo", "egrep", "env", "expr", "factor", "false", "fgrep", "find", "fold",
    "grep", "head", "hostname", "id", "install", "join", "kill", "ln", "ls", "md5sum", "mkdir", "mktemp",
    "mv", "nice", "nl", "nohup", "nproc", "numfmt", "od", "paste", "pathchk", "perl", "printenv", "printf",
    "pwd", "readlink", "realpath", "rev", "rm", "rmdir", "sed", "seq", "sh", "sha256sum", "shuf", "sleep",
    "sort", "split", "stat", "stdbuf", "sum", "sync", "tac", "tail", "tee", "test", "timeout", "touch",
    "tr", "true", "truncate", "tty", "uname", "unexpand", "uniq", "wc", "which", "who", "whoami", "xargs",
    "yes"]

/-- The directories that hold them. -/
def programDirectories : List (List String) := [["bin"], ["usr", "bin"]]

/-- Goes to the directory above a place. -/
def upFrom (place : List String) : List String :=
  if place.all (· = "..") then if place.length < 2 then place ++ [".."] else place
  else place.dropLast

/-- Goes from a place to what has a name in it. -/
def downTo (place : List String) (name : String) : List String :=
  if place = [".."] && name = homeParts.getD 1 "" then []
  else if place = rootPlace && name = homeParts.getD 0 "" then [".."]
  else place ++ [name]

/-- The absolute path of a place. -/
def absolutePath (place : List String) : String :=
  let ups := place.takeWhile (· = "..")
  "/" ++ String.intercalate "/" (homeParts.take (2 - ups.length) ++ place.drop ups.length)

namespace System

def entry? (sys : System) (place : List String) : Option FileEntry :=
  match sys.files.entry? place with
  | some e => some e
  | none =>
    match place with
    | ".." :: ".." :: parts =>
      if commonDirectories.contains parts then some .directory
      else if programDirectories.contains parts.dropLast && programNames.contains (parts.getLast?.getD "") then
        some (.binary [])
      else none
    | _ => none

def isDirectoryAt (sys : System) (place : List String) : Bool := sys.entry? place = some .directory

/-- The place that names lead to from another place, which has to be a directory. -/
def walk (sys : System) : List String → List String → Except FileFault (List String)
  | place, [] => .ok place
  | place, c :: cs =>
    match sys.entry? place with
    | none => .error .missing
    | some .directory =>
      if c.isEmpty || c = "." then walk sys place cs
      else if c = ".." then walk sys (upFrom place) cs
      else if Files.longestName < c.utf8ByteSize then .error .nameTooLong
      else walk sys (downTo place c) cs
    | some _ => .error .notDirectory

/-- The place of a path in a directory.  A path that ends with a slash or a dot has to be one of a
directory. -/
def place? (sys : System) (here : List String) (path : String) : Except FileFault (List String) :=
  if path.isEmpty then .error .missing
  else if Files.longestPath < path.length then .error .nameTooLong
  else do
    let parts := Text.pieces '/' (textOf path)
    let place ← sys.walk (if Path.isAbsolute path then rootPlace else here) parts
    let last := parts.getLast?.getD ""
    if last.isEmpty || last = "." || last = ".." then
      match sys.entry? place with
      | some .directory => pure place
      | some _ => .error .notDirectory
      | none => .error .missing
    else pure place

/-- The bytes of a file. -/
def content? (sys : System) (place : List String) : Except FileFault String :=
  match sys.entry? place with
  | some (.text s) => .ok (bytesOf s)
  | some (.binary bs) => .ok (String.ofList (bs.map fun b => Char.ofNat b.toNat))
  | some .directory => .error .isDirectory
  | none => .error .missing

/-- Puts bytes into a file. -/
def store (sys : System) (place : List String) (bytes : String) : System :=
  let entry := match textOf? bytes with
    | some s => FileEntry.text s
    | none => .binary (numbersOf bytes)
  { sys with files := sys.files.put place entry }

/-- Makes sure that there is a file that can be written. -/
def create (sys : System) (place : List String) (clear : Bool) : Except FileFault System :=
  match sys.entry? place with
  | some .directory => .error .isDirectory
  | some _ => .ok (if clear then sys.store place "" else sys)
  | none =>
    match sys.entry? (upFrom place) with
    | some .directory => .ok (sys.store place "")
    | some _ => .error .notDirectory
    | none => .error .missing

/-- The names in a directory, in order. -/
def names (sys : System) (place : List String) : List String :=
  (((sys.files.names place).map bytesOf).filter fun n => !n.isEmpty).mergeSort fun a b => a ≤ b

/-- Takes away what is at a place, and what is below it. -/
def remove (sys : System) (place : List String) : System :=
  { sys with
    files := sys.files.remove place
    runnable := sys.runnable.filter fun p => !place.isPrefixOf p }

/-! ### Channels -/

def channel? (sys : System) (n : Nat) : Option Channel :=
  (sys.channels.find? fun c => c.1 = n).map Prod.snd

def putChannel (sys : System) (n : Nat) (c : Channel) : System :=
  { sys with channels := (n, c) :: sys.channels.filter fun d => d.1 ≠ n }

/-- Opens something; its number. -/
def «open» (sys : System) (c : Channel) : Nat × System :=
  (sys.opened, { sys.putChannel sys.opened c with opened := sys.opened + 1 })

def drop (sys : System) (n : Nat) : System :=
  { sys with channels := sys.channels.filter fun c => c.1 ≠ n }

/-- Puts a chunk behind those that were written before it. -/
def insertChunk (time : Nat) (text : String) : List (Nat × String) → List (Nat × String)
  | [] => [(time, text)]
  | c :: cs =>
    if time < c.1 then c :: insertChunk time text cs
    else if c.1 = time then (time, c.2 ++ text) :: cs
    else (time, text) :: c :: cs

/-- Writes to a channel; tells whether that is possible. -/
def write (sys : System) (n : Nat) (text : String) : System × Bool :=
  match sys.channel? n with
  | none => (sys, false)
  | some .nothing => (sys, true)
  | some (.input _) => (sys, false)
  | some (.written chunks) => (sys.putChannel n (.written (insertChunk sys.clock text chunks)), true)
  | some (.file place offset appends) =>
    let old := (sys.content? place).toOption.getD ""
    let offset := if appends then old.length else offset
    let new :=
      if offset = old.length then old ++ text
      else
        let before := old.toList.take offset
        String.ofList (before ++ List.replicate (offset - before.length) '\x00' ++ text.toList ++
          old.toList.drop (offset + text.length))
    ((sys.store place new).putChannel n (.file place (offset + text.length) appends), true)

/-- What has been written to a channel. -/
def writtenTo (sys : System) (n : Nat) : String :=
  match sys.channel? n with
  | some (.written chunks) => String.join (chunks.reverse.map Prod.snd)
  | _ => ""

/-- What can still be read from a channel; none if it cannot be read from. -/
def unread? (sys : System) (n : Nat) : Option (List Char) :=
  match sys.channel? n with
  | some .nothing => some []
  | some (.input chars) => some chars
  | some (.file place offset _) => some (((sys.content? place).toOption.getD "").toList.drop offset)
  | _ => none

/-- Takes bytes off what can be read. -/
def consume (sys : System) (n count : Nat) : System :=
  match sys.channel? n with
  | some (.input chars) => sys.putChannel n (.input (chars.drop count))
  | some (.file place offset appends) => sys.putChannel n (.file place (offset + count) appends)
  | _ => sys

end System

end Workload.Shell
