import Workload.Fault
import Workload.Files.Path

/-!
# File trees

The files that a run sees, below its working directory.  A file holds a text, or bytes that are none.
Directories above a file exist with it.
-/

namespace Workload

inductive FileEntry where
  | text (content : String)
  /-- Bytes that are not the encoding of a text. -/
  | binary (bytes : List UInt8)
  | directory
  deriving DecidableEq, Repr

/-- Entries by the components of their paths. -/
structure Files where
  entries : List (List String × FileEntry) := []
  deriving DecidableEq, Repr

namespace Files

/-- Whether a place is that of the directory above the working directory, or of one above that. -/
def isAbove (place : List String) : Bool := !place.isEmpty && place.all (· = "..")

/-- The entry at a place; the working directory is at the empty one.  Nothing is known of what is
above it but that there are directories. -/
def entry? (fs : Files) (place : List String) : Option FileEntry :=
  match fs.entries.find? fun e => e.1 = place with
  | some e => some e.2
  | none =>
    if place.isEmpty || isAbove place || fs.entries.any fun e => place.isPrefixOf e.1 then
      some .directory
    else none

def isDirectoryAt (fs : Files) (place : List String) : Bool := fs.entry? place = some .directory

/-- How many bytes a name may have. -/
def longestName : Nat := 255

/-- How many bytes a path may have. -/
def longestPath : Nat := 4095

/-- The place above another one. -/
def above (place : List String) : List String :=
  if place.isEmpty || isAbove place then place ++ [".."] else place.dropLast

/-- The place that components lead to from another place, which has to be a directory. -/
def walk (fs : Files) : List String → List String → Except FileFault (List String)
  | place, [] => .ok place
  | place, c :: cs =>
    match fs.entry? place with
    | none => .error .missing
    | some .directory =>
      if longestName < c.utf8ByteSize then .error .nameTooLong
      else walk fs (if c = ".." then above place else place ++ [c]) cs
    | some _ => .error .notDirectory

/-- What is wrong with a path wherever it leads. -/
def pathFault? (path : String) : Option FileFault :=
  if path.toList.contains '\x00' then some .badPath
  else if longestPath < path.utf8ByteSize then some .nameTooLong
  else none

/-- The place of a path.  A path that ends with a slash or a dot has to be one of a directory. -/
def place? (fs : Files) (path : String) : Except FileFault (List String) :=
  match pathFault? path with
  | some fault => .error fault
  | none =>
    if path.isEmpty then .error .missing
    else if Path.isAbsolute path then .error .missing
    else do
      let place ← fs.walk [] (Path.components path)
      let last := (Text.pieces '/' path).getLast?.getD ""
      if last.isEmpty || last = "." then
        match fs.entry? place with
        | some .directory => pure place
        | some _ => .error .notDirectory
        | none => .error .missing
      else pure place

/-- The text of a file. -/
def readText (fs : Files) (path : String) : Except FileFault String := do
  if path = "/" then throw .isDirectory
  match fs.entry? (← fs.place? path) with
  | some (.text s) => pure s
  | some (.binary _) => throw .notText
  | some .directory => throw .isDirectory
  | none => throw .missing

def isFile (fs : Files) (path : String) : Bool :=
  match fs.place? path with
  | .ok place =>
    match fs.entry? place with
    | some .directory => false
    | some _ => true
    | none => false
  | .error _ => false

def isDirectory (fs : Files) (path : String) : Bool :=
  match fs.place? path with
  | .ok place => fs.isDirectoryAt place
  | .error _ => false

def «exists» (fs : Files) (path : String) : Bool := fs.isFile path || fs.isDirectory path

/-- The names in a directory. -/
def names (fs : Files) (place : List String) : List String :=
  ((fs.entries.filterMap fun e =>
    if place.isPrefixOf e.1 then (e.1.drop place.length).head? else none).eraseDups).filter (· ≠ "..")

/-- The names in the directory of a path. -/
def listDirectory (fs : Files) (path : String) : List String :=
  match fs.place? path with
  | .ok place => if fs.isDirectoryAt place then fs.names place else []
  | .error _ => []

/-- Puts an entry at a place. -/
def put (fs : Files) (place : List String) (e : FileEntry) : Files :=
  ⟨(place, e) :: fs.entries.filter fun f => f.1 ≠ place⟩

/-- Takes away the entry at a place and what is below it; the directory that it is in stays. -/
def remove (fs : Files) (place : List String) : Files :=
  let fs := if place.length < 2 then fs else fs.put place.dropLast .directory
  ⟨fs.entries.filter fun e => !place.isPrefixOf e.1⟩

/-- Creates the directories that a path leads through. -/
def createThrough (fs : Files) : List String → List String → Except FileFault Files
  | _, [] => .ok fs
  | place, c :: cs =>
    if longestName < c.utf8ByteSize then .error .nameTooLong
    else if c = ".." then createThrough fs (above place) cs
    else
      match fs.entry? (place ++ [c]) with
      | none => createThrough (fs.put (place ++ [c]) .directory) (place ++ [c]) cs
      | some .directory => createThrough fs (place ++ [c]) cs
      | some _ => .error (if cs.isEmpty then .exists else .notDirectory)

/-- Creates a directory and those above it. -/
def createDirectory (fs : Files) (path : String) : Except FileFault Files :=
  match pathFault? path with
  | some fault => .error fault
  | none =>
    if path.isEmpty then .ok fs
    else if Path.isAbsolute path then .error .missing
    else fs.createThrough [] (Path.components path)

/-- Writes a file into a directory that exists. -/
def writeText (fs : Files) (path content : String) : Except FileFault Files := do
  let place ← fs.place? path
  if fs.isDirectoryAt place then throw .isDirectory
  match fs.entry? place.dropLast with
  | some .directory => pure (fs.put place (.text content))
  | some _ => throw .notDirectory
  | none => throw .missing

end Files

end Workload
