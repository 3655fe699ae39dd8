import Workload.Named
import Workload.Shell.Command
import Workload.Shell.System
import Workload.Text

/-!
# The state of a shell

The variables of a shell, its streams, and how far it has come.  What it shares with other processes is
apart from that.
-/

namespace Workload.Shell

/-- What a variable holds. -/
inductive Content where
  | nothing
  | one (text : String)
  | list (items : List (Nat × String))
  | table (items : Named String)
  deriving DecidableEq, Repr

structure Variable where
  content : Content := .nothing
  exported : Bool := false
  fixed : Bool := false
  integer : Bool := false
  /-- Whether letters are turned into small ones, or into capital ones. -/
  recase : Option Bool := none
  deriving DecidableEq, Repr

/-- What keeps a shell from going on with the next command. -/
inductive Flow where
  | exited (code : Nat)
  /-- An error, which ends the shell unless it happened in a command that stands for itself. -/
  | failed
  /-- The rest of the line is given up. -/
  | abandoned
  | returned
  | broken (loops : Nat)
  | continued (loops : Nat)
  /-- By a signal. -/
  | killed (signal : Nat)
  deriving DecidableEq, Repr

structure State where
  dialect : Dialect
  sys : System
  /-- The name that the shell was called by. -/
  title : String := ""
  vars : Named Variable := []
  /-- The variables that functions keep for themselves, with what they were before. -/
  frames : List (Named (Option Variable)) := []
  /-- The names of the functions that are being carried out, the latest first. -/
  calls : List String := []
  /-- The arguments that the shell was called with. -/
  arguments : List String := []
  functions : Named Command := []
  aliases : Named String := []
  /-- The options that are set. -/
  options : List String := []
  /-- What the streams are open to. -/
  streams : List (Nat × Nat) := [(0, 0), (1, 1), (2, 2)]
  /-- The working directory. -/
  here : List String := []
  /-- The code with which the last command ended. -/
  status : Nat := 0
  /-- The code with which the last command ended whose output became a part of this one. -/
  substituted : Option Nat := none
  flow : Option Flow := none
  loops : Nat := 0
  /-- How many programs are being read within this one. -/
  sources : Nat := 0
  /-- Whether this is a copy of another shell. -/
  isCopy : Bool := false
  /-- What is done about signals. -/
  traps : Named String := []
  /-- Whether something is being done about a signal. -/
  trapping : Bool := false
  /-- The signals that have come. -/
  pending : List String := []
  line : Nat := 1
  /-- How many programs are being carried out within others. -/
  level : Nat := 0
  /-- What the messages of a dash are about. -/
  subject : String := ""
  /-- The process that was started last. -/
  lastProcess : Option Nat := none
  /-- How many letters of an argument have been taken as options. -/
  letters : Nat := 0
  /-- The codes of the commands of the last pipeline. -/
  pipeline : List Nat := []
  /-- The directories to go back to. -/
  directories : List String := []
  /-- The programs that have been looked for, and found. -/
  hashed : List String := []
  /-- The code of a bash that ends for lack of a value. -/
  lackCode : Nat := 127

/-- The number of the shell itself. -/
def ownProcess : Nat := 4242

namespace State

def isBash (s : State) : Bool := s.dialect.isBash

def finish (code : Nat) (s : State) : State := { s with status := code }

def ends (f : Flow) (s : State) : State := { s with flow := some f }

/-- Whether an option is set. -/
def has (s : State) (option : String) : Bool := s.options.contains option

/-! ### Streams -/

/-- Writes to a stream; tells whether that is possible. -/
def write (stream : Nat) (text : String) (s : State) : State × Bool :=
  match s.streams.find? fun e => e.1 = stream with
  | none => (s, false)
  | some (_, channel) =>
    if text.isEmpty then (s, true)
    else
      let (sys, done) := s.sys.write channel text
      ({ s with sys }, done)

def print (text : String) (s : State) : State := (s.write 1 text).1

def complain (text : String) (s : State) : State := (s.write 2 (text ++ "\n")).1

/-- What the shell puts in front of a message. -/
def speaker (s : State) : String :=
  if s.isBash then
    (if s.frames.isEmpty then s.title else "environment") ++ ": line " ++ toString s.line ++ ": "
  else
    s.title ++ ": " ++ toString s.line ++ ": " ++ if s.subject.isEmpty then "" else s.subject ++ ": "

/-- A message of the shell. -/
def warn (text : String) (s : State) : State := s.complain (s.speaker ++ text)

/-- An error of the shell. -/
def fault (text : String) (s : State) : State :=
  if s.isBash then (s.warn text).finish 1 else ((s.warn text).finish 2).ends .failed

def channelOf? (s : State) (stream : Nat) : Option Nat :=
  (s.streams.find? fun e => e.1 = stream).map Prod.snd

/-- Lets a stream be open to a channel. -/
def connect (stream channel : Nat) (s : State) : State :=
  { s with streams := (stream, channel) :: s.streams.filter fun e => e.1 ≠ stream }

def disconnect (stream : Nat) (s : State) : State :=
  { s with streams := s.streams.filter fun e => e.1 ≠ stream }

/-- Opens something for a stream. -/
def openStream (stream : Nat) (c : Channel) (s : State) : State :=
  let (n, sys) := s.sys.open c
  connect stream n { s with sys }

/-- What can be read from a stream. -/
def unread (s : State) (stream : Nat) : Option (List Char) :=
  (s.channelOf? stream).bind s.sys.unread?

def consume (stream count : Nat) (s : State) : State :=
  match s.channelOf? stream with
  | some n => { s with sys := s.sys.consume n count }
  | none => s

/-- Reads all that can be read from a stream. -/
def readAll (stream : Nat) (s : State) : String × State :=
  let chars := (s.unread stream).getD []
  (String.ofList chars, s.consume stream chars.length)

/-! ### Files -/

/-- The number of the stream that a path is of. -/
def streamPath? (path : String) : Option Nat :=
  match path with
  | "/dev/stdin" => some 0
  | "/dev/stdout" => some 1
  | "/dev/stderr" => some 2
  | _ =>
    if path.startsWith "/dev/fd/" then Text.natOf? 10 (path.toList.drop 8) else none

def place? (s : State) (path : String) : Except FileFault (List String) := s.sys.place? s.here path

/-- The bytes at a path. -/
def content? (s : State) (path : String) : Except FileFault String :=
  if path = "/dev/null" then .ok ""
  else do s.sys.content? (← s.place? path)

/-- Reads a file, or what can be read from a stream. -/
def readPath (path : String) (s : State) : Except FileFault (String × State) :=
  match streamPath? path with
  | some n => match s.unread n with
    | some _ => .ok (s.readAll n)
    | none => .error .missing
  | none => (s.content? path).map fun t => (t, s)

def entry? (s : State) (path : String) : Option FileEntry :=
  if path = "/dev/null" then some (.binary [])
  else match s.place? path with
    | .ok place => s.sys.entry? place
    | .error _ => none

def isDirectory (s : State) (path : String) : Bool := s.entry? path = some .directory

/-- Puts bytes into the file at a path. -/
def store (path bytes : String) (s : State) : Except FileFault State := do
  let place ← s.place? path
  let sys ← s.sys.create place true
  return { s with sys := sys.store place bytes }

/-! ### Variables -/

def varOf? (s : State) (name : String) : Option Variable := s.vars.get? name

/-- The text of a variable. -/
def text? (s : State) (name : String) : Option String :=
  match (s.varOf? name).map Variable.content with
  | some (.one t) => some t
  | some (.list items) => (items.find? fun i => i.1 = 0).map Prod.snd
  | some (.table items) => items.get? "0"
  | _ => none

def put (name : String) (v : Variable) (s : State) : State := { s with vars := s.vars.put name v }

/-- What becomes of a text in a variable. -/
def Variable.suit (v : Variable) (text : String) : String :=
  match v.recase with
  | some true => String.ofList (text.toList.map Char.toUpper)
  | some false => String.ofList (text.toList.map Char.toLower)
  | none => text

/-- Lets a variable have a text, whatever it was. -/
def force (name text : String) (s : State) : State :=
  let v := (s.varOf? name).getD {}
  let content : Content := match v.content with
    | .list items => .list ((0, text) :: items.filter fun i => i.1 ≠ 0)
    | .table items => .table (Named.put items "0" text)
    | _ => .one (Variable.suit v text)
  s.put name { v with content, exported := v.exported || s.has "allexport" }

/-- Lets a variable have a text unless that is fixed. -/
def assign (name text : String) (s : State) : State :=
  let s := if name = "OPTIND" then { s with letters := 0 } else s
  let s := if name = "PATH" then { s with hashed := [] } else s
  match s.varOf? name with
  | some v =>
    if v.fixed then
      if s.isBash then (s.warn (name ++ ": readonly variable")).finish 1 |>.ends .abandoned
      else s.fault (name ++ ": is read only")
    else s.force name text
  | none => s.force name text

def remove (name : String) (s : State) : State :=
  { s with vars := s.vars.filter fun v => v.1 ≠ name }

/-- The variables that programs get. -/
def environment (s : State) : Named String :=
  s.vars.filterMap fun v =>
    if v.2.exported then
      match v.2.content with
      | .one t => some (v.1, t)
      | _ => none
    else none

/-! ### Fields -/

/-- The characters between fields. -/
def separators (s : State) : List Char :=
  match s.varOf? "IFS" with
  | some { content := .one t, .. } => t.toList
  | _ => [' ', '\t', '\n']

/-- What stands between arguments that are put together. -/
def joint (s : State) : String :=
  match s.separators with
  | c :: _ => c.toString
  | [] => ""

/-! ### Copies -/

/-- A copy of a shell, which does not do what the shell itself does about signals. -/
def copy (s : State) : State :=
  { s with
    isCopy := true
    traps := s.traps.filter fun t => t.2.isEmpty
    pending := []
    lackCode := 1 }

/-- The code with which a shell ended. -/
def code (s : State) : Nat :=
  match s.flow with
  | some (.exited n) => n % 256
  | some (.killed n) => 128 + n
  | _ => s.status % 256

/-- The state after another process has come to its end. -/
def after (s t : State) : State := { s with sys := t.sys, status := t.code }

/-- What is said about a process that a signal has ended. -/
def signalNote (signal : Nat) : String :=
  match signal with
  | 1 => "Hangup"
  | 2 | 13 => ""
  | 3 => "Quit"
  | 6 => "Aborted"
  | 8 => "Floating point exception"
  | 9 => "Killed"
  | 10 => "User defined signal 1"
  | 11 => "Segmentation fault"
  | 12 => "User defined signal 2"
  | 14 => "Alarm clock"
  | 15 => "Terminated"
  | n => "Signal " ++ toString n

/-- The state after a program has come to its end. -/
def afterProgram (s t : State) : State :=
  let note := match t.flow with
    | some (.killed n) => if s.isBash then "" else signalNote n
    | _ => ""
  let s := s.after t
  if note.isEmpty then s else s.complain note

end State

/-- Why something cannot be done with a file. -/
def reason : FileFault → String
  | .missing => "No such file or directory"
  | .isDirectory => "Is a directory"
  | .notDirectory => "Not a directory"
  | .exists => "File exists"
  | .notText | .badPath => "Invalid argument"
  | .nameTooLong => "File name too long"

end Workload.Shell
