import Workload.Files

/-!
# File patterns

A pattern is matched component by component: `?` stands for a character, `*` for any text, brackets
for a set of characters, and `**` as a whole component for any number of directories.  A component
without such a mark names its entry itself.
-/

namespace Workload.Glob

/-- A set of characters, by ranges. -/
abbrev CharSet := List (Char × Char)

def CharSet.has (s : CharSet) (c : Char) : Bool := s.any fun r => r.1 ≤ c && c ≤ r.2

/-- The set that the text between brackets describes. -/
def CharSet.parse : List Char → CharSet
  | a :: '-' :: b :: cs => (a, b) :: CharSet.parse cs
  | a :: cs => (a, a) :: CharSet.parse cs
  | [] => []

/-- A part of a pattern component. -/
inductive Part where
  | char (c : Char)
  | anyChar
  | anyText
  | within (s : CharSet)
  | except (s : CharSet)
  deriving DecidableEq, Repr

inductive Component where
  | parts (ps : List Part)
  /-- Any number of directories. -/
  | recursive
  deriving DecidableEq, Repr

/-- The text up to the first closing bracket behind at least one character, and what follows it. -/
def bracket? (s : List Char) : Option (List Char × List Char) :=
  match s with
  | [] => none
  | c :: cs =>
    if cs.contains ']' then
      some (c :: cs.takeWhile (· ≠ ']'), (cs.dropWhile (· ≠ ']')).drop 1)
    else none

/-- The parts of a component, which holds no doubled star. -/
def parts? : Nat → List Char → Option (List Part)
  | _, [] => some []
  | 0, _ :: _ => none
  | n + 1, c :: cs =>
    if c = '?' then (parts? n cs).map (.anyChar :: ·)
    else if c = '*' then
      if cs.head? = some '*' then none else (parts? n cs).map (.anyText :: ·)
    else if c = '[' then
      match cs with
      | '!' :: ds => do
        let (set, rest) ← bracket? ds
        (parts? n rest).map (.except (CharSet.parse set) :: ·)
      | ds => do
        let (set, rest) ← bracket? ds
        (parts? n rest).map (.within (CharSet.parse set) :: ·)
    else (parts? n cs).map (.char c :: ·)

def component? (s : List Char) : Option Component :=
  if s = ['*', '*'] then some .recursive else (parts? s.length s).map .parts

/-- The components of a pattern; a slash at the end starts no further one. -/
def parse? (pattern : String) : Option (List Component) :=
  let ps := Text.splitAt '/' pattern.toList
  let ps := if ps.getLast? = some [] then ps.dropLast else ps
  ps.mapM component?

/-- Whether a name matches a component. -/
def matchParts : List Part → List Char → Bool
  | [], s => s.isEmpty
  | .anyText :: ps, [] => matchParts ps []
  | .anyText :: ps, c :: cs => matchParts ps (c :: cs) || matchParts (.anyText :: ps) cs
  | .char d :: ps, c :: cs => c = d && matchParts ps cs
  | .anyChar :: ps, _ :: cs => matchParts ps cs
  | .within s :: ps, c :: cs => s.has c && matchParts ps cs
  | .except s :: ps, c :: cs => !s.has c && matchParts ps cs
  | _ :: _, [] => false
  termination_by ps s => ps.length + s.length

/-- The name that a component without marks stands for. -/
def literal? : Component → Option String
  | .recursive => none
  | .parts ps =>
    (ps.mapM fun p => match p with
      | Part.char c => some c
      | _ => none).map String.ofList

/-- A path within a directory; one within the working directory is a bare name. -/
def within (dir name : String) : String := if Path.isHere dir then name else Path.join dir name

/-- The last component of a path. -/
def baseName (path : String) : String := (Text.pieces '/' path).getLast?.getD ""

mutual

/-- The paths below a directory that match the components; `dir` itself has been matched. -/
def below (fs : Files) : Nat → List Component → String → List String
  | 0, _, _ => []
  | _, [], _ => []
  | n + 1, c :: cs, dir =>
    match literal? c with
    | some name =>
      let path := within dir name
      let special := name = "." || name = ".."
      if (if special then fs.isDirectory dir else fs.exists path) then
        if cs.isEmpty then [path] else below fs n cs path
      else []
    | none =>
      if fs.isDirectory dir then
        let children := (fs.listDirectory dir).flatMap fun name => matching fs n c cs (within dir name)
        let dots :=
          match c with
          | .parts (.char '.' :: ps) =>
            [".", ".."].flatMap fun name =>
              if matchParts (.char '.' :: ps) name.toList then
                if cs.isEmpty then [Path.join dir name] else below fs n cs (Path.join dir name)
              else []
          | _ => []
        children ++ dots
      else []

/-- The paths at or below a path that match a component and those behind it. -/
def matching (fs : Files) : Nat → Component → List Component → String → List String
  | 0, _, _, _ => []
  | n + 1, .parts ps, cs, path =>
    if matchParts ps (baseName path).toList then
      if cs.isEmpty then [path] else below fs n cs path
    else []
  | n + 1, .recursive, cs, path =>
    let cs := cs.dropWhile (· = .recursive)
    let deeper := if fs.isDirectory path then below fs n (.recursive :: cs) path else []
    match cs with
    | [] => if fs.isDirectory path then path :: deeper else []
    | c :: cs => deeper ++ matching fs n c cs path

end

/-- Inserts a path into a sorted list, behind equal ones. -/
def insertPath (p : String) : List String → List String
  | [] => [p]
  | q :: qs => if Path.le q p then q :: insertPath p qs else p :: q :: qs

/-- The depth of a file tree. -/
def depth (fs : Files) : Nat := fs.entries.foldl (fun d e => max d e.1.length) 0

/-- The paths below the working directory that match components. -/
def found (fs : Files) (cs : List Component) : List String :=
  below fs ((cs.length + 2) * (2 * depth fs + 4)) cs "."

/-- The paths that match a pattern, sorted; without a result it is not a pattern. -/
def paths? (fs : Files) (pattern : String) : Option (List String) := do
  let cs ← parse? pattern
  if Path.isAbsolute pattern then return []
  let found := found fs cs
  let found :=
    if pattern.toList.getLast? = some '/' then found.filter fun p => fs.isDirectory p else found
  return found.foldl (fun ps p => insertPath p ps) []

end Workload.Glob
