import Workload.Text

/-!
# Paths

A path is a text whose components stand between slashes.  Empty components and the component `.`
mean nothing, except a `.` at the start, which stays part of the path.
-/

namespace Workload.Path

/-- A path continued by another one, which takes its place if it starts at the root. -/
def join (dir sub : String) : String :=
  if sub.toList.head? = some '/' || dir.isEmpty then sub
  else if dir.toList.getLast? = some '/' then dir ++ sub
  else dir ++ "/" ++ sub

def isAbsolute (p : String) : Bool := p.toList.head? = some '/'

/-- The components that mean something. -/
def components (p : String) : List String :=
  (Text.pieces '/' p).filter fun c => !(c.isEmpty || c = ".")

/-- The number of characters in front of the components: the root, or a `.` at the start. -/
def leadLength (p : List Char) : Nat :=
  match p with
  | '/' :: _ => 1
  | ['.'] => 1
  | '.' :: '/' :: _ => 1
  | _ => 0

/-- What is left of a path, read backwards, once the meaningless components at its end are
dropped. -/
def trimBack : Nat → List Char → List Char
  | 0, s => s
  | n + 1, s =>
    let last := s.takeWhile (· ≠ '/')
    if s.isEmpty then s
    else if last.isEmpty || last = ['.'] then trimBack n ((s.dropWhile (· ≠ '/')).drop 1)
    else s

/-- The path without its last component; the root and the empty path have none. -/
def parent? (p : String) : Option String :=
  let s := p.toList
  let lead := s.take (leadLength s)
  let back := trimBack s.length (s.drop (leadLength s)).reverse
  if back.isEmpty then
    if lead = ['.'] then some "" else none
  else
    let before := trimBack s.length ((back.dropWhile (· ≠ '/')).drop 1)
    some (String.ofList (lead ++ before.reverse))

/-- What paths are ordered by: the root comes before a `.` at the start, this before every `..`, and
this before names. -/
inductive Part where
  | root
  | here
  | up
  | name (s : String)
  deriving DecidableEq, Repr

def parts (p : String) : List Part :=
  let lead : List Part :=
    if isAbsolute p then [.root] else if leadLength p.toList = 1 then [.here] else []
  lead ++ (components p).map fun c => if c = ".." then .up else .name c

def Part.rank : Part → Nat
  | .root => 0
  | .here => 1
  | .up => 2
  | .name _ => 3

def Part.lt : Part → Part → Bool
  | .name s, .name t => s < t
  | p, q => p.rank < q.rank

/-- The order of lists of parts, of which the first ones that differ decide. -/
def leParts : List Part → List Part → Bool
  | [], _ => true
  | _ :: _, [] => false
  | p :: ps, q :: qs => p.lt q || (p = q && leParts ps qs)

/-- The order of paths: part by part. -/
def le (p q : String) : Bool := leParts (parts p) (parts q)

/-- Whether a path is that of the working directory. -/
def isHere (p : String) : Bool := parts p = [.here]

end Workload.Path
