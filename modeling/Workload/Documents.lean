import Workload.Action.Document
import Workload.Config.Document
import Workload.Files.Glob
import Workload.Topology.Document

/-!
# Documents in files

What a run reads from its files: the configuration found next to the working directory or above it,
action, template and topology documents, and the files an include names.
-/

namespace Workload

/-- Reads a document from a file. -/
def Files.readDocument {α : Type} (fs : Files) (path : String) (parse : String → Option α) :
    Except Fault α :=
  match fs.readText path with
  | .error cause => .error (.config (.unreadable path cause))
  | .ok text =>
    match parse text with
    | some a => .ok a
    | none => .error .document

namespace Files

def readActions (fs : Files) (path : String) : Except Fault (List Action) :=
  fs.readDocument path Action.listOfText?

def readTemplates (fs : Files) (path : String) : Except Fault (List Template) :=
  fs.readDocument path Template.listOfText?

def readTopology (fs : Files) (path : String) : Except Fault Topology :=
  fs.readDocument path Topology.ofText?

def readConfig (fs : Files) (path : String) : Except Fault RunConfig :=
  fs.readDocument path RunConfig.ofText?

/-- The names a configuration file can have, the first one first. -/
def configNames : List String := ["canopy.yml", "canopy.yaml"]

/-- Where a directory can have a configuration file. -/
def configPaths (dir : String) : List String := configNames.map (Path.join dir)

/-- Looks among the files there are for a configuration in a directory and those above it, at most `fuel` of them;
`searched` are the paths tried before. -/
def searchConfig (isFile : String → Bool) : Nat → String → List String → Except ConfigFault String
  | 0, _, searched => .error (.notFound searched)
  | fuel + 1, dir, searched =>
    match (configPaths dir).find? isFile with
    | some path => .ok path
    | none =>
      match Path.parent? dir with
      | some up => searchConfig isFile fuel up (searched ++ configPaths dir)
      | none => .error (.notFound (searched ++ configPaths dir))

/-- The nearest configuration among the files there are, at or above a directory; there are no more directories above
a path than it has parts. -/
def nearestConfig (isFile : String → Bool) (start : String) : Except ConfigFault String :=
  searchConfig isFile ((Path.parts start).length + 1) start []

/-- The nearest configuration file at or above a directory. -/
def findConfig (fs : Files) (start : String) : Except ConfigFault String := nearestConfig fs.isFile start

/-- What stands between the commas of an include, without the blanks around it and as far as there is anything. -/
def includeEntries (files : String) : List (List Char) :=
  ((Text.splitAt ',' files.toList).map Text.trim).filter fun e => !e.isEmpty

def isPattern (entry : List Char) : Bool := entry.any fun c => c = '*' || c = '?' || c = '['

/-- Adds the files that an entry names to those of the entries before; `bad` counts the patterns that are none. -/
def addEntry (fs : Files) : List String × Nat → List Char → List String × Nat
  | (paths, bad), e =>
    if isPattern e then
      match Glob.paths? fs (String.ofList e) with
      | some found => (paths ++ found, bad)
      | none => (paths, bad + 1)
    else (paths ++ [String.ofList e], bad)

/-- The files that an include names, and how many of its patterns are none. -/
def includePaths (fs : Files) (files : String) : List String × Nat :=
  (includeEntries files).foldl fs.addEntry ([], 0)

/-- The actions of a run. -/
def loadActions (fs : Files) (c : RunConfig) : Except Fault (List Action) :=
  match c.mode with
  | .image =>
    match c.image with
    | some image => .ok [Action.ofImage image.name image.command image.wait]
    | none => .error (.config .missingImage)
  | .document =>
    match c.test with
    | some path => fs.readActions path
    | none => .error (.config .noTestFile)

end Files

end Workload
