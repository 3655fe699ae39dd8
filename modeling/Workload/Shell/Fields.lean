import Workload.Shell.Pattern
import Workload.Shell.Reader
import Workload.Shell.State

/-!
# Fields

What a word makes is split into fields, and fields that are patterns are replaced by the paths that
match them.
-/

namespace Workload.Shell

/-- A piece of what a word makes. -/
inductive Piece where
  /-- A text; `splits` tells whether it can be of several fields. -/
  | text (s : String) (quoted splits : Bool)
  /-- The end of a field. -/
  | boundary
  deriving DecidableEq, Repr

/-- The text of pieces that are put together. -/
def joined (between : String) (ps : List Piece) : String :=
  String.join (ps.map fun p => match p with
    | .text s _ _ => s
    | .boundary => between)

/-- The characters of pieces that are put together. -/
def cellsOf (ps : List Piece) : Cells :=
  ps.flatMap fun p => match p with
    | .text s q _ => Cells.of q s
    | .boundary => [(' ', false)]

/-! ### Splitting -/

/-- How far fields have been split: those that are finished, the latest first, the one at hand, and
whether a blank has ended the last one. -/
structure Splitting where
  done : List Cells := []
  /-- The characters of the field at hand, read backwards. -/
  open? : Option Cells := none
  blank : Bool := false

namespace Splitting

def close (s : Splitting) : Splitting :=
  match s.open? with
  | some cs => { done := cs.reverse :: s.done }
  | none => s

def push (c : Char) (quoted : Bool) (s : Splitting) : Splitting :=
  { s with open? := some ((c, quoted) :: s.open?.getD []), blank := false }

/-- Goes on with a character of a text that can be of several fields. -/
def step (separators : List Char) (s : Splitting) (c : Char) : Splitting :=
  if !separators.contains c then s.push c false
  else if c = ' ' || c = '\t' || c = '\n' then
    if s.open?.isSome then { s.close with blank := true } else s
  else if s.open?.isSome then s.close
  else if s.blank then { s with blank := false }
  else { s with done := [] :: s.done }

def piece (separators : List Char) (s : Splitting) : Piece → Splitting
  | .boundary => s.close
  | .text t quoted splits =>
    if splits && !quoted then t.toList.foldl (step separators) s
    else
      let s := if quoted || !t.isEmpty then
        { s with open? := some (s.open?.getD []), blank := false } else s
      t.toList.foldl (fun s c => s.push c quoted) s

end Splitting

/-- The fields of pieces. -/
def fieldsOf (separators : List Char) (ps : List Piece) : List Cells :=
  (ps.foldl (Splitting.piece separators) {}).close.done.reverse

/-! ### Paths -/

/-- Splits cells at slashes. -/
def pathParts : Cells → List Cells
  | [] => [[]]
  | (c, q) :: cs =>
    if c = '/' then [] :: pathParts cs
    else
      match pathParts cs with
      | [] => [[(c, q)]]
      | p :: ps => ((c, q) :: p) :: ps

/-- The paths that match the parts of a pattern behind a path of a place. -/
def matching (isBash : Bool) (sys : System) : List Cells → (path : String) → List String →
    List String
  | [], path, _ => [path]
  | part :: parts, path, place =>
    let ms := marksOf isBash part
    let behind := if parts.isEmpty then "" else "/"
    let enter := fun (name : String) =>
      match sys.walk place [textOf name] with
      | .ok next => matching isBash sys parts (path ++ name ++ behind) next
      | .error _ => []
    if part.isEmpty then
      if parts.isEmpty then (if sys.isDirectoryAt place then [path] else [])
      else matching isBash sys parts (path ++ "/") place
    else if !isPattern ms then
      let name := String.ofList (ms.filterMap fun m => match m with
        | .char c => some c
        | _ => none)
      match sys.walk place [textOf name] with
      | .ok next => if (sys.entry? next).isSome then enter name else []
      | .error _ => []
    else if !sys.isDirectoryAt place then []
    else
      let hidden := match ms with
        | .char '.' :: _ => true
        | _ => false
      let names := (if hidden && !isBash then [".", ".."] else []) ++ sys.names place
      let names := (names.mergeSort fun a b => a ≤ b).filter fun n =>
        fits ms n.toList && (hidden || n.toList.head? ≠ some '.')
      names.flatMap fun n =>
        if parts.isEmpty || (match sys.walk place [textOf n] with
          | .ok next => sys.isDirectoryAt next
          | .error _ => false) then enter n else []

/-- The arguments that a field makes. -/
def State.pathsOf (s : State) (field : Cells) : List String :=
  let text := Cells.text field
  if s.has "noglob" || !(isPattern (marksOf s.isBash field)) then [text]
  else
    let parts := pathParts field
    let found := match parts with
      | [] :: rest => matching s.isBash s.sys rest "/" rootPlace
      | parts => matching s.isBash s.sys parts "" s.here
    if found.isEmpty then (if s.has "nullglob" then [] else [text]) else found

/-! ### Alternatives between braces -/

/-- A character that can be of a brace expression, or what can not. -/
inductive BraceItem where
  | char (c : Char)
  | part (p : Part)
  deriving DecidableEq, Repr

def braceItems (w : Word) : List BraceItem :=
  w.flatMap fun p => match p with
    | .text s false => s.toList.map .char
    | p => [.part p]

/-- The word of items. -/
def ofBraceItems (items : List BraceItem) : Word :=
  (items.foldl (fun (w : Word) i => match i with
    | .char c => Word.push c false w
    | .part p => p :: w) []).reverse

/-- Splits the items up to the closing brace at the commas that are in no other braces; the pieces read
so far are kept backwards. -/
def alternatives : (depth : Nat) → List BraceItem → List (List BraceItem) → List BraceItem →
    Option (List (List BraceItem) × List BraceItem)
  | _, _, _, [] => none
  | depth, now, done, i :: is =>
    if i = .char '\x7d' then
      match depth with
      | 0 => some ((now.reverse :: done).reverse, is)
      | depth + 1 => alternatives depth (i :: now) done is
    else if i = .char '\x7b' then alternatives (depth + 1) (i :: now) done is
    else if i = .char ',' && depth = 0 then alternatives depth [] (now.reverse :: done) is
    else alternatives depth (i :: now) done is

/-- The number of a text, and how many digits it has if it begins with a zero. -/
def rangeEnd? (s : String) : Option (Int × Nat) :=
  let ds := match s.toList with
    | '-' :: ds | '+' :: ds => ds
    | ds => ds
  match Text.int64Of? s.toList with
  | some n =>
    some (n, if ds.head? = some '0' && 1 < ds.length then s.length else 0)
  | none => none

/-- The texts of a range. -/
def rangeTexts (s : String) : Option (List String) :=
  let steps := fun (a b step : Int) =>
    let step := if step = 0 then 1 else step.natAbs
    let count := (b - a).natAbs / step
    (List.range (count + 1)).map fun i => if a ≤ b then a + (i * step : Nat) else a - (i * step : Nat)
  let make := fun (a b : String) (step : Int) =>
    match rangeEnd? a, rangeEnd? b with
    | some (x, m), some (y, n) =>
      let width := max m n
      some ((steps x y step).map fun k =>
        let ds := (toString k.natAbs).toList
        let sign := if k < 0 then ['-'] else []
        String.ofList (sign ++ List.replicate (width - sign.length - ds.length) '0' ++ ds))
    | none, none =>
      match a.toList, b.toList with
      | [x], [y] =>
        if x.isAlpha && y.isAlpha then
          some ((steps (x.toNat : Int) (y.toNat : Int) step).map fun k =>
            String.singleton (Char.ofNat k.natAbs))
        else none
      | _, _ => none
    | _, _ => none
  match s.splitOn ".." with
  | [a, b] => make a b 1
  | [a, b, c] => (Text.int64Of? c.toList).bind (make a b)
  | _ => none

/-- The words that a word with braces stands for. -/
def braceWords : (fuel : Nat) → (before : List BraceItem) → List BraceItem → List (List BraceItem)
  | 0, before, is => [before.reverse ++ is]
  | _, before, [] => [before.reverse]
  | fuel + 1, before, i :: is =>
    if i = .char '\x7b' then
      match alternatives 0 [] [] is with
      | none => braceWords fuel (i :: before) is
      | some ([one], rest) =>
        let text := one.mapM fun (i : BraceItem) => match i with
          | .char c => some c
          | .part _ => none
        match text.bind fun t => rangeTexts (String.ofList t) with
        | some texts =>
          let ends := braceWords fuel [] rest
          texts.flatMap fun t =>
            ends.map fun e => before.reverse ++ t.toList.map .char ++ e
        | none => braceWords fuel (i :: before) is
      | some (choices, rest) =>
        let ends := braceWords fuel [] rest
        (choices.flatMap (braceWords fuel [])).flatMap fun c =>
          ends.map fun e => before.reverse ++ c ++ e
    else braceWords fuel (i :: before) is

/-- The words that a word stands for in a shell that knows braces. -/
def bracesOf (w : Word) : List Word :=
  let items := braceItems w
  if items.contains (.char '\x7b') then
    (braceWords (items.length + 1) [] items).map fun is => ofBraceItems is
  else [w]

end Workload.Shell
