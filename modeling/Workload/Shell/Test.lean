import Workload.Shell.Arithmetic
import Workload.Shell.State

/-!
# Tests

What `test` and `[` say about their arguments.  What is no test is an error of its own.
-/

namespace Workload.Shell

namespace Test

variable (s : State)

/-- The integer that an argument is. -/
def integer (a : String) : Except String Int :=
  if s.isBash then
    let trimmed := (a.toList.dropWhile fun c => c = ' ' || c = '\t').reverse.dropWhile
      fun c => c = ' ' || c = '\t'
    let t := trimmed.reverse
    let ds := match t with
      | '-' :: ds | '+' :: ds => ds
      | ds => ds
    if ds.isEmpty || ds.any fun c => !c.isDigit then .error (a ++ ": integer expression expected")
    else
      let n : Int := ds.foldl (fun n c => 10 * n + digit c) (0 : Nat)
      let n := if t.head? = some '-' then -n else n
      if n < Int64.minValue.toInt || Int64.maxValue.toInt < n then .error (a ++ ": integer expression expected")
      else .ok n
  else
    let t := a.toList.dropWhile fun c => c = ' ' || ('\t' ≤ c && c ≤ '\x0d')
    let ds := match t with
      | '-' :: ds | '+' :: ds => ds
      | ds => ds
    let n := ds.takeWhile Char.isDigit
    let rest := (ds.drop n.length).dropWhile fun c => c = ' ' || ('\t' ≤ c && c ≤ '\x0d')
    if n.isEmpty || !rest.isEmpty then .error ("Illegal number: " ++ a)
    else
      let v : Int := n.foldl (fun n c => 10 * n + digit c) (0 : Nat)
      let v := if t.head? = some '-' then -v else v
      if v < Int64.minValue.toInt || Int64.maxValue.toInt < v then .error ("Illegal number: " ++ a) else .ok v

/-- The operators between two arguments. -/
def isBinary (o : String) : Bool :=
  ["=", "!=", "<", ">", "-eq", "-ne", "-lt", "-le", "-gt", "-ge", "-nt", "-ot", "-ef"].contains o ||
    (s.isBash && o = "==")

/-- The operators on one argument. -/
def isUnary (o : String) : Bool :=
  match o.toList with
  | ['-', c] => (if s.isBash then "abcdefghknoprstuvwxzGLNORS" else "bcdefghknprstuwxzGLOS").toList.contains c
  | _ => false

/-- A comparison of two arguments. -/
def compare (a o b : String) : Except String Bool :=
  let integers := fun (f : Int → Int → Bool) => do return f (← integer s a) (← integer s b)
  match o with
  | "=" | "==" => .ok (a == b)
  | "!=" => .ok (a != b)
  | "<" => .ok (a < b)
  | ">" => .ok (b < a)
  | "-eq" => integers fun x y => x = y
  | "-ne" => integers fun x y => x ≠ y
  | "-lt" => integers fun x y => x < y
  | "-le" => integers fun x y => x ≤ y
  | "-gt" => integers fun x y => x > y
  | "-ge" => integers fun x y => x ≥ y
  | "-ef" =>
    .ok <| match s.place? a, s.place? b with
    | .ok p, .ok q => p = q && (s.sys.entry? p).isSome
    | _, _ => false
  | "-nt" => .ok (s.isBash && (s.entry? a).isSome && (s.entry? b).isNone)
  | _ => .ok (s.isBash && (s.entry? a).isNone && (s.entry? b).isSome)

/-- A question about one argument. -/
def question (o a : String) : Except String Bool :=
  let entry := s.entry? a
  match o with
  | "-n" => .ok (!a.isEmpty)
  | "-z" => .ok a.isEmpty
  | "-f" => .ok (a ≠ "/dev/null" && entry.isSome && entry ≠ some .directory)
  | "-d" => .ok (entry = some .directory)
  | "-e" | "-r" | "-w" | "-O" | "-G" | "-a" | "-N" => .ok entry.isSome
  | "-x" =>
    .ok <| match s.place? a with
    | .ok place =>
      s.sys.isDirectoryAt place || s.sys.runnable.contains place ||
        (match place with
          | ".." :: ".." :: _ => entry.isSome
          | _ => false)
    | .error _ => false
  | "-s" =>
    .ok <| match entry with
    | some .directory => true
    | some _ => !((s.content? a).toOption.getD "").isEmpty
    | none => false
  | "-c" => .ok (a = "/dev/null")
  | "-v" => .ok (s.text? a).isSome
  | "-o" => .ok (s.has a)
  | "-t" => (integer s a).map fun _ => false
  | _ => .ok false

/-! ### Arguments of dash -/

/-- What an argument means at its place. -/
inductive Role where
  | none
  | operand
  | unary
  | binary
  | and
  | or
  | not
  | «open»
  | close
  deriving DecidableEq, Repr

/-- What the first of some arguments means.  An operator on one argument is an operand where nothing
follows it, or where it stands before an operator between two. -/
def role (args : List String) : Role :=
  match args with
  | [] => .none
  | a :: rest =>
    if isBinary s a then .binary
    else if isUnary s a then
      match rest with
      | [] => .operand
      | [_] => .unary
      | b :: _ => if isBinary s b then .operand else .unary
    else
      match a with
      | "-a" => .and
      | "-o" => .or
      | "!" => .not
      | "(" => if rest.isEmpty then .operand else .open
      | ")" => .close
      | _ => .operand

/-- What is wrong next to an argument. -/
def misplaced (a text : String) : String := if a.isEmpty then text else a ++ ": " ++ text

mutual

/-- Expressions of which one holds.  The first argument has been given its role; the last one that has been
read is the first of the result. -/
def anyOf : (fuel : Nat) → Role → List String → Except String (Bool × List String)
  | 0, _, args => .ok (false, args)
  | fuel + 1, r, args => do
    let (a, args) ← allOf fuel r args
    if role s args.tail = .or then
      let args := args.drop 2
      let (b, args) ← anyOf fuel (role s args) args
      return (a || b, args)
    else return (a, args)

/-- Expressions all of which hold. -/
def allOf : (fuel : Nat) → Role → List String → Except String (Bool × List String)
  | 0, _, args => .ok (false, args)
  | fuel + 1, r, args => do
    let (a, args) ← one fuel r args
    if role s args.tail = .and then
      let args := args.drop 2
      let (b, args) ← allOf fuel (role s args) args
      return (a && b, args)
    else return (a, args)

/-- A single expression. -/
def one : (fuel : Nat) → Role → List String → Except String (Bool × List String)
  | 0, _, args => .ok (false, args)
  | fuel + 1, r, args => do
    let a := args.headD ""
    match r with
    | .none => return (false, args)
    | .not =>
      let next := role s args.tail
      let (b, args) ← one fuel next (if next = .none then args else args.tail)
      return (!b, args)
    | .open =>
      let args := args.tail
      if role s args = .close then return (false, args)
      else
        let (b, args) ← anyOf fuel (role s args) args
        if role s args.tail = .close then return (b, args.tail) else .error "closing paren expected"
    | .unary =>
      match args.tail with
      | [] => .error (misplaced a "argument expected")
      | b :: _ => return (← question s a b, args.tail)
    | _ =>
      if role s args.tail = .binary then
        match args.tail with
        | [o] => .error (misplaced o "argument expected")
        | o :: b :: _ => return (← compare s a o b, args.drop 2)
        | [] => return (!a.isEmpty, args)
      else return (!a.isEmpty, args)

end

/-- What arguments say in dash. -/
def holdsInDash : List String → Except String Bool
  | [] => .ok false
  | args => do
    let whole := fun (r : Role) (args : List String) => do
      let (b, rest) ← anyOf s (4 * args.length + 4) r args
      match rest with
      | a :: _ :: _ => .error (misplaced a "unexpected operator")
      | _ => return b
    match args with
    | [a, o, b] =>
      if isBinary s o then whole .operand args
      else if a = "(" && b = ")" then whole (role s [o]) [o]
      else if a = "!" then return !(← holdsInDash [o, b])
      else whole (role s args) args
    | [a, b, c, d] =>
      if a = "(" && d = ")" then whole (role s [b, c]) [b, c]
      else if a = "!" then return !(← holdsInDash [b, c, d])
      else whole (role s args) args
    | args => whole (role s args) args
  termination_by args => args.length

/-! ### Arguments of bash -/

/-- An expression of arguments, from the level that binds least to single tests; what follows it. -/
def expression : (fuel level : Nat) → List String → Except String (Bool × List String)
  | 0, _, _ => .error "too many arguments"
  | fuel + 1, 0, args => do
    let (a, rest) ← expression fuel 1 args
    match rest with
    | "-o" :: rest =>
      let (b, rest) ← expression fuel 0 rest
      return (a || b, rest)
    | rest => return (a, rest)
  | fuel + 1, 1, args => do
    let (a, rest) ← expression fuel 2 args
    match rest with
    | "-a" :: rest =>
      let (b, rest) ← expression fuel 1 rest
      return (a && b, rest)
    | rest => return (a, rest)
  | fuel + 1, level, args => do
    match args with
    | [] => .error "argument expected"
    | a :: o :: b :: rest =>
      if isBinary s o then return (← compare s a o b, rest)
      else if a = "!" then
        let (r, rest) ← expression fuel level (o :: b :: rest)
        return (!r, rest)
      else if a = "(" then
        let (r, rest) ← expression fuel 0 (o :: b :: rest)
        match rest with
        | ")" :: rest => return (r, rest)
        | _ => .error "\x60)' expected"
      else if isUnary s a then return (← question s a o, b :: rest)
      else return (!a.isEmpty, o :: b :: rest)
    | ["!"] => return (true, [])
    | [a] => return (!a.isEmpty, [])
    | [a, b] =>
      if a = "!" then
        let (r, rest) ← expression fuel level [b]
        return (!r, rest)
      else if isUnary s a then return (← question s a b, [])
      else return (!a.isEmpty, [b])

/-- What arguments say in bash. -/
def holdsInBash : List String → Except String Bool
  | [] => .ok false
  | [a] => .ok (!a.isEmpty)
  | [a, b] =>
    if a = "!" then .ok b.isEmpty
    else if isUnary s a then question s a b
    else .error (a ++ ": unary operator expected")
  | [a, o, b] =>
    if isBinary s o then compare s a o b
    else if o = "-a" then .ok (!a.isEmpty && !b.isEmpty)
    else if o = "-o" then .ok (!a.isEmpty || !b.isEmpty)
    else if a = "!" then (holdsInBash [o, b]).map not
    else if a = "(" && b = ")" then .ok (!o.isEmpty)
    else .error (o ++ ": binary operator expected")
  | args => do
    let long : Except String Bool := do
      let (r, rest) ← expression s (args.length + 3) 0 args
      if rest.isEmpty then return r else .error "too many arguments"
    match args with
    | ["!", a, o, b] => return !(← holdsInBash [a, o, b])
    | ["(", a, b, ")"] => if isBinary s b then long else holdsInBash [a, b]
    | _ => long
  termination_by args => args.length

/-- What arguments say. -/
def holds (args : List String) : Except String Bool :=
  if s.isBash then holdsInBash s args else holdsInDash s args

end Test

end Workload.Shell
