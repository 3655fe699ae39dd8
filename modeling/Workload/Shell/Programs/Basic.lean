import Workload.Shell.Builtin

/-!
# Arguments and inputs of programs

How programs read their options, the files that they are given, and the lines of those.
-/

namespace Workload.Shell

/-- Starts a program with arguments, as another process. -/
abbrev Spawn := List String → State → State

/-- What a program is called with: its options with their arguments, and the other arguments. -/
structure Options where
  given : List (Char × String) := []
  operands : List String := []

namespace Options

def has (o : Options) (c : Char) : Bool := o.given.any fun g => g.1 = c

/-- The argument of an option, the last one if it is given again. -/
def value? (o : Options) (c : Char) : Option String :=
  (o.given.filter fun g => g.1 = c).getLast?.map Prod.snd

def values (o : Options) (c : Char) : List String :=
  (o.given.filter fun g => g.1 = c).map Prod.snd

/-- The options of a program: their letters, of which those before a colon need an argument, and long
names for letters.  With `mixed`, they can stand behind other arguments. -/
structure Known where
  letters : String
  long : List (String × Char) := []
  mixed : Bool := true

def Known.wants (k : Known) (c : Char) : Option Bool :=
  match k.letters.toList.dropWhile (· ≠ c) with
  | [] => none
  | _ :: rest => if c = ':' then none else some (rest.head? = some ':')

/-- Reads the letters of an argument; whether the next argument belongs to the last one. -/
def readLetters (k : Known) : List Char → List (Char × String) → Except String (List (Char × String) × Option Char)
  | [], acc => .ok (acc, none)
  | c :: cs, acc =>
    match k.wants c with
    | none => .error ("invalid option -- '" ++ c.toString ++ "'")
    | some false => readLetters k cs ((c, "") :: acc)
    | some true => if cs.isEmpty then .ok (acc, some c) else .ok ((c, String.ofList cs) :: acc, none)

def readFrom (k : Known) : List String → (waiting : Option Char) → Options → Except String Options
  | [], some c, _ => .error ("option requires an argument -- '" ++ c.toString ++ "'")
  | [], none, o => .ok { given := o.given.reverse, operands := o.operands.reverse }
  | a :: rest, some c, o => readFrom k rest none { o with given := (c, a) :: o.given }
  | a :: rest, none, o =>
    if a = "--" then .ok { given := o.given.reverse, operands := o.operands.reverse ++ rest }
    else if a.startsWith "--" then
      let (name, value) := match Text.cut? "=" (String.ofList (a.toList.drop 2)) with
        | some (n, v) => (n, some v)
        | none => (String.ofList (a.toList.drop 2), none)
      let exact := k.long.filter fun l => l.1 = name
      let near := if exact.isEmpty then k.long.filter fun l => l.1.startsWith name else exact
      match near with
      | (_, c) :: _ =>
        match k.wants c, value with
        | some true, none => readFrom k rest (some c) o
        | _, v => readFrom k rest none { o with given := (c, v.getD "") :: o.given }
      | [] => .error ("unrecognized option '" ++ a ++ "'")
    else if a.startsWith "-" && a ≠ "-" then do
      let (given, waiting) ← readLetters k (a.toList.drop 1) o.given
      readFrom k rest waiting { o with given }
    else if k.mixed then readFrom k rest none { o with operands := a :: o.operands }
    else .ok { given := o.given.reverse, operands := o.operands.reverse ++ a :: rest }

end Options

/-- Calls a program with its options; what is wrong with them is its only output otherwise. -/
def withOptions (name : String) (k : Options.Known) (code : Nat) (args : List String) (s : State)
    (act : Options → State → State) : State :=
  match Options.readFrom k args none {} with
  | .ok o => act o (s.finish 0)
  | .error m =>
    ((s.complain (name ++ ": " ++ m)).complain ("Try '" ++ name ++ " --help' for more information.")).finish code

/-! ### Inputs -/

/-- The texts of files, or the input without any; one that cannot be read sets the code. -/
def inputs (name : String) (code : Nat) (paths : List String) (s : State) :
    List (String × String) × State :=
  (if paths.isEmpty then ["-"] else paths).foldl
    (fun (texts, s) p =>
      if p = "-" then
        let (t, s) := s.readAll 0
        (texts ++ [(p, t)], s)
      else
        match s.readPath p with
        | .ok (t, s) => (texts ++ [(p, t)], s)
        | .error e => (texts, (s.complain (name ++ ": " ++ p ++ ": " ++ reason e)).finish code))
    ([], s)

/-- The lines of a text. -/
def linesOf (text : String) : List String :=
  let ls := Text.pieces '\n' text
  if ls.getLast? = some "" then ls.dropLast else ls

/-- The lines of a text, each with the newline that ends it. -/
def closedLines (text : String) : List String :=
  let ls := Text.pieces '\n' text
  let last := ls.length - 1
  let ls := ls.zipIdx.map fun l => if l.2 < last then l.1 ++ "\n" else l.1
  if ls.getLast? = some "" then ls.dropLast else ls

def ofLines (ls : List String) : String := String.join (ls.map (· ++ "\n"))

/-- The lines of files, or of the input. -/
def inputLines (name : String) (code : Nat) (paths : List String) (s : State) : List String × State :=
  let (texts, s) := inputs name code paths s
  (texts.flatMap fun t => linesOf t.2, s)

/-- The number that a text is. -/
def natural? (t : String) : Option Nat := Text.natOf? 10 t.toList

/-- Puts blanks before a number. -/
def padded (width n : Nat) : String :=
  let t := toString n
  String.ofList (List.replicate (width - t.length) ' ') ++ t

end Workload.Shell
