import Workload.Shell.Programs.Basic
import Workload.Shell.Regex

/-!
# Expressions of arguments

Arguments are operands and operators, each by itself.
-/

namespace Workload.Shell.Programs

namespace Expr

def isTrue (v : String) : Bool :=
  !v.isEmpty && !(match v.toList with
    | '-' :: cs => cs.all (· = '0') && !cs.isEmpty
    | cs => cs.all (· = '0'))

def integer? (v : String) : Option Int := match v.toList with
  | '-' :: cs => if cs.isEmpty || !cs.all Char.isDigit then none else (Text.natOf? 10 cs).map fun n => -(n : Int)
  | cs => if cs.all Char.isDigit then (Text.natOf? 10 cs).map Int.ofNat else none

/-- What a text has in common with an expression from its start on. -/
def matched (text pattern : String) : Option String := do
  let r ← Regex.read? false (if pattern.startsWith "^" then String.ofList (pattern.toList.drop 1) else pattern)
  let cs := text.toList.toArray
  match Regex.matchAt cs r 0 with
  | none => return if r.groupCount = 0 then "0" else ""
  | some p => return if r.groupCount = 0 then toString p.position else Regex.groupText cs 0 p 1

/-- Operators between two values, those that bind least first. -/
def levels : List (List String) :=
  [["|"], ["&"], ["<", "<=", "=", "==", "!=", ">=", ">"], ["+", "-"], ["*", "/", "%"], [":"]]

/-- The value of an operator between two values. -/
def operate (o a b : String) : Except String String :=
  let truth := fun (b : Bool) => if b then "1" else "0"
  match o with
  | "|" => .ok (if isTrue a then a else if isTrue b then b else "0")
  | "&" => .ok (if isTrue a && isTrue b then a else "0")
  | ":" =>
    match matched a b with
    | some v => .ok v
    | none => .error "Invalid preceding regular expression"
  | "+" | "-" | "*" | "/" | "%" =>
    match integer? a, integer? b with
    | some x, some y =>
      match o with
      | "+" => .ok (toString (x + y))
      | "-" => .ok (toString (x - y))
      | "*" => .ok (toString (x * y))
      | _ =>
        if y = 0 then .error "division by zero"
        else .ok (toString (if o = "/" then x.tdiv y else x.tmod y))
    | _, _ => .error "non-integer argument"
  | _ =>
    let order := match integer? a, integer? b with
      | some x, some y => compare x y
      | _, _ => compare a b
    .ok <| truth <| match o with
      | "<" => order = .lt
      | "<=" => order ≠ .gt
      | "=" | "==" => order = .eq
      | "!=" => order ≠ .eq
      | ">=" => order ≠ .lt
      | _ => order = .gt

/-- More values with operators of some level between them. -/
def chain (os : List String) (next : List String → Except String (String × List String)) :
    (fuel : Nat) → String → List String → Except String (String × List String)
  | 0, v, rest => .ok (v, rest)
  | fuel + 1, v, rest =>
    match rest with
    | o :: more =>
      if os.contains o then do
        let (w, rest) ← next more
        chain os next fuel (← operate o v w) rest
      else .ok (v, rest)
    | [] => .ok (v, [])

/-- Values with operators of some levels between them. -/
def level (fuel : Nat) (single : List String → Except String (String × List String)) :
    List (List String) → List String → Except String (String × List String)
  | [], args => single args
  | os :: deeper, args => do
    let (v, rest) ← level fuel single deeper args
    chain os (level fuel single deeper) fuel v rest

/-- A single value. -/
def single : (fuel : Nat) → List String → Except String (String × List String)
  | 0, _ => .error "syntax error"
  | fuel + 1, args =>
    let whole := level fuel (single fuel) levels
    match args with
    | [] => .error "syntax error: missing argument"
    | "(" :: rest => do
      let (v, rest) ← whole rest
      match rest with
      | ")" :: rest => return (v, rest)
      | r :: _ => .error ("syntax error: expecting ')' instead of '" ++ r ++ "'")
      | [] => .error "syntax error: expecting ')' after '('"
    | "length" :: rest =>
      if rest.isEmpty then .ok ("length", [])
      else do
        let (v, rest) ← single fuel rest
        return (toString v.length, rest)
    | "match" :: rest => do
      let (a, rest) ← single fuel rest
      let (b, rest) ← single fuel rest
      return ((matched a b).getD "0", rest)
    | "index" :: rest => do
      let (a, rest) ← single fuel rest
      let (b, rest) ← single fuel rest
      let i := a.toList.findIdx fun c => b.toList.contains c
      return (if i < a.length then toString (i + 1) else "0", rest)
    | "substr" :: rest => do
      let (a, rest) ← single fuel rest
      let (i, rest) ← single fuel rest
      let (n, rest) ← single fuel rest
      match integer? i, integer? n with
      | some i, some n =>
        return (if i ≤ 0 || n ≤ 0 then "" else String.ofList ((a.toList.drop (i - 1).toNat).take n.toNat), rest)
      | _, _ => return ("", rest)
    | "+" :: v :: rest => .ok (v, rest)
    | v :: rest => .ok (v, rest)

end Expr

def expr (args : List String) (s : State) : State :=
  let args := if args.head? = some "--" then args.tail else args
  let fuel := 2 * args.length + 2
  match args with
  | [] => ((s.complain "expr: missing operand").complain "Try 'expr --help' for more information.").finish 2
  | args =>
    match Expr.level fuel (Expr.single fuel) Expr.levels args with
    | .error m => (s.complain ("expr: " ++ m)).finish 2
    | .ok (v, []) => (s.print (v ++ "\n")).finish (if Expr.isTrue v then 0 else 1)
    | .ok (_, r :: _) => (s.complain ("expr: syntax error: unexpected argument '" ++ r ++ "'")).finish 2

end Workload.Shell.Programs
