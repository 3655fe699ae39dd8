import Workload.CommandLine.Usage
import Workload.Session

/-!
# The program

The files below the working directory and the environment variables are read once, then the session
of the command line runs on them, and what it wrote is put back.  A clock of its own goes on with the
run, so nothing is waited for.  There is no docker program in reach: a call that needs one fails, and
only rehearsals have containers.
-/

namespace Workload.Program

/-- The files below a directory, whose path has the given components. -/
partial def load (directory : String) (place : List String) :
    IO (List (List String × FileEntry)) := do
  let mut found := []
  for name in ← names directory do
    let path := directory ++ "/" ++ name
    let here := place ++ [name]
    if ← isDirectory path then
      found := (here, .directory) :: (← load path here) ++ found
    else
      match ← (IO.FS.readBinFile path).toBaseIO with
      | .ok bytes =>
        found := (here, ((String.fromUTF8? bytes).map FileEntry.text).getD (.binary bytes.toList)) :: found
      | .error _ => pure ()
  return found
where
  names (directory : String) : IO (List String) := do
    match ← ((← IO.currentDir) / directory).readDir.toBaseIO with
    | .ok entries => return entries.toList.map fun e => e.fileName
    | .error _ => return []
  isDirectory (path : String) : IO Bool := do ((← IO.currentDir) / path).isDir

/-- The environment variables. -/
def readVariables : IO (Named String) := do
  match ← (IO.FS.readBinFile "/proc/self/environ").toBaseIO with
  | .ok bytes =>
    let text := (String.fromUTF8? bytes).getD ""
    return (Text.pieces '\x00' text).filterMap (Text.cut? "=")
  | .error _ => return []

/-- Writes what differs from the files as they were. -/
def store (before after : Files) : IO Unit := do
  for (place, entry) in after.entries.reverse do
    if before.entry? place ≠ some entry then
      let path := String.intercalate "/" place
      match entry with
      | .directory => IO.FS.createDirAll path
      | .text content => IO.FS.writeFile path content
      | .binary bytes => IO.FS.writeBinFile path ⟨bytes.toArray⟩

/-- Shows the log as far as it is asked for. -/
def showLog (v : Verbosity) (log : List LogLine) : IO Unit := do
  for line in log do
    if v.shows line.severity then IO.eprintln line.render

/-- Says why something failed, and gives the exit code for it. -/
def fail (what : String) (cause : Fault) : IO UInt32 := do
  IO.eprintln ("Error: " ++ what ++ "\n\nCaused by:\n    " ++ cause.message)
  return 1

/-- Shows what a run left behind. -/
def finish {ρ : Type} (v : Verbosity) (before : Files) (s : Run.State (World ρ)) : IO UInt32 := do
  IO.print s.scope.output
  showLog v s.scope.log.reverse
  store before s.scope.world.files
  match s.failure with
  | some fault => fail "run failed" fault
  | none => return UInt32.ofNat (Plan.exitCode s).toNat

def run (s : Session) (fs : Files) (vars : Named String) : IO UInt32 := do
  match s.plan fs with
  | (.error fault, log) =>
    showLog s.verbosity log
    fail "run failed" fault
  | (.ok p, log) =>
    if s.rehearses then
      let world : World Rehearsal := { containers := {}, files := fs }
      finish s.verbosity fs (p.carryOut (s.rehearsal p vars) log world)
    else
      let world : World (Docker.Engine Unit) := { containers := ⟨(), [], 0⟩, files := fs }
      finish s.verbosity fs (p.carryOut (s.live Docker.missing p vars) log world)

end Workload.Program

open Workload

/-- Runs what the command line asks for. -/
def main (args : List String) : IO UInt32 := do
  let fs : Files := ⟨← Program.load "." []⟩
  match Session.ofArgs fs args with
  | .error (.usage fault) =>
    let (good, text, code) := fault.reply
    if good then IO.print text else IO.eprint text
    return code
  | .error (.configuration fault) => Program.fail "failed to load configuration" fault
  | .ok s => Program.run s fs (← Program.readVariables)
