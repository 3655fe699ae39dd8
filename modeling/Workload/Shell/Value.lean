import Workload.Shell.Arithmetic
import Workload.Shell.State

/-!
# Values of parameters

What parameters are worth, the elements of arrays, and the variables of arithmetic expressions.
-/

namespace Workload.Shell

namespace State

/-- The letters of the options that are set. -/
def optionLetters (s : State) : String :=
  let letters := if s.isBash then
      [("allexport", 'a'), ("notify", 'b'), ("errexit", 'e'), ("noglob", 'f'), ("hashall", 'h'),
        ("keyword", 'k'), ("monitor", 'm'), ("noexec", 'n'), ("privileged", 'p'), ("onecmd", 't'),
        ("nounset", 'u'), ("verbose", 'v'), ("xtrace", 'x'), ("braceexpand", 'B'), ("noclobber", 'C'),
        ("errtrace", 'E'), ("histexpand", 'H'), ("physical", 'P'), ("functrace", 'T'), ("command", 'c'),
        ("stdin", 's')]
    else
      [("nounset", 'u'), ("notify", 'b'), ("allexport", 'a'), ("noclobber", 'C'), ("emacs", 'E'), ("vi", 'V'),
        ("verbose", 'v'), ("xtrace", 'x'), ("stdin", 's'), ("noexec", 'n'), ("monitor", 'm'),
        ("interactive", 'i'), ("ignoreeof", 'I'), ("noglob", 'f'), ("errexit", 'e')]
  String.ofList (letters.filterMap fun l => if s.has l.1 then some l.2 else none)

/-- What a parameter is worth. -/
inductive Value where
  | one (text : Option String)
  /-- The arguments or the elements of an array; `star` tells that they are put together. -/
  | many (star : Bool) (texts : List String)

/-- The value of a parameter by its name. -/
def valueOf (s : State) (name : String) : Value :=
  match name with
  | "@" => .many false s.arguments
  | "*" => .many true s.arguments
  | "#" => .one (some (toString s.arguments.length))
  | "?" => .one (some (toString s.status))
  | "$" => .one (some (toString ownProcess))
  | "!" => .one (s.lastProcess.map toString)
  | "-" => .one (some s.optionLetters)
  | "0" => .one (some s.title)
  | _ =>
    if name = "LINENO" && s.isBash then .one (some (toString s.line))
    else if name = "FUNCNAME" && s.isBash then .one s.calls.head?
    else match Text.natOf? 10 name.toList with
    | some n => .one s.arguments[n - 1]?
    | none => .one (s.text? name)

/-- The elements of an array, with their indices. -/
def elements (s : State) (name : String) : List (String × String) :=
  if s.isBash && name = "FUNCNAME" then s.calls.zipIdx.map fun c => (toString c.2, c.1)
  else match (s.varOf? name).map Variable.content with
  | some (.list items) =>
    (items.mergeSort fun a b => a.1 ≤ b.1).map fun i => (toString i.1, i.2)
  | some (.table items) => items
  | some (.one t) => [("0", t)]
  | _ => []

/-! ### Arithmetic -/

/-- An element of an array. -/
def element? (s : State) (name : String) (index : Int) : Option String :=
  let items := s.elements name
  let last := (items.getLast?.bind fun i => i.1.toNat?).getD 0
  let index := if index < 0 then index + last + 1 else index
  items.lookup (toString index)

/-- Lets an element of an array have a text. -/
def putElement (name : String) (index : Int) (text : String) (s : State) : State :=
  let v := (s.varOf? name).getD {}
  let items := match v.content with
    | .list items => items
    | .one t => [(0, t)]
    | _ => []
  let last : Nat := items.foldl (fun n i => max n (i.1 + 1)) 0
  let n := (if index < 0 then index + last else index).toNat
  s.put name { v with content := .list (items.filter (fun i => i.1 ≠ n) ++ [(n, Variable.suit v text)]) }

/-- The variables for arithmetic; an index can have indices within it. -/
def numbers : (fuel : Nat) → Arithmetic.Store State
  | 0 =>
    { get := fun _ _ s => .ok (none, s)
      set := fun _ _ _ s => .ok s
      strict := fun _ => false }
  | fuel + 1 =>
    let index := fun (name text : String) (s : State) =>
      match (s.varOf? name).map Variable.content with
      | some (.table _) => Except.ok (none, s)
      | _ =>
        match (Arithmetic.evaluate s.dialect (numbers fuel) 100 text).run s with
        | .ok (n, s) => .ok (some n.toInt, s)
        | .error (.message m _) => .error m
        | .error .crash => .error "crash"
    { get := fun name i s =>
        match i with
        | none =>
          let value := match s.valueOf name with
            | .one v => v
            | .many .. => none
          if s.has "nounset" && value.isNone then
            .error (name ++ (if s.isBash then ": unbound variable" else ": parameter not set"))
          else .ok (value, s)
        | some text => do
          let (n, s) ← index name text s
          match n with
          | some n => pure (s.element? name n, s)
          | none => pure ((s.elements name).lookup text, s)
      set := fun name i value s =>
        match i with
        | none => .ok (s.assign name value)
        | some text => do
          let (n, s) ← index name text s
          match n with
          | some n => pure (s.putElement name n value)
          | none =>
            let v := (s.varOf? name).getD {}
            let items := match v.content with
              | .table items => items
              | _ => []
            pure (s.put name { v with content := .table (Named.put items text value) })
      strict := fun s => s.has "nounset" }

/-- The value of an arithmetic text. -/
def calculate (text : String) (s : State) : Except Arithmetic.Fault (Int64 × State) :=
  (Arithmetic.evaluate s.dialect (numbers 20) 100 text).run s

/-- The end of a shell with an expression without a value. -/
def arithmeticFault (command : String) (text : String) (f : Arithmetic.Fault) (s : State) : State :=
  match f with
  | .crash => s.ends (.killed 8)
  | .message m place =>
    if s.isBash then
      if m.endsWith "unbound variable" then ((s.warn m).finish s.lackCode).ends (.exited s.lackCode)
      else
        let divisor := text.toList.reverse.takeWhile fun c => c ≠ '/' && c ≠ '%'
        let place :=
          if m.startsWith "division" then String.ofList (divisor.reverse.dropWhile (· = ' '))
          else if place.isEmpty then text
          else place
        let read := match Text.cut? place text with
          | some (before, _) => if m.startsWith "value too great" then before ++ place else text
          | none => text
        ((s.warn (command ++ read ++ ": " ++ m ++ " (error token is \"" ++ place ++ "\")")).finish 1).ends .abandoned
    else if m.startsWith "Illegal number" || m.endsWith "parameter not set" then s.fault m
    else s.fault ("arithmetic expression: " ++ m ++ ": \"" ++ text ++ "\"")

end State

end Workload.Shell
