import Workload.Shell.Reader

/-!
# Arithmetic of shells

Expressions over numbers of 64 bits, which wrap around.  Variables are read from a store and written to
it.  A comparison is worth one if it holds and zero if it does not.
-/

namespace Workload.Shell.Arithmetic

/-- Why an expression has no value. -/
inductive Fault where
  /-- What is wrong, and the part of the expression where it is, as far as that is known. -/
  | message (text : String) (place : String := "")
  /-- The quotient of the least number and minus one, which ends the process. -/
  | crash
  deriving DecidableEq, Repr

inductive Symbol where
  | number (text : String)
  | name (text : String)
  /-- A variable with an index. -/
  | element (name index : String)
  | operator (o : String)
  /-- A variable with an index that does not end. -/
  | unclosed
  /-- What is no symbol. -/
  | unknown
  deriving DecidableEq, Repr

/-- The operators, the longer ones first. -/
def operators (d : Dialect) : List String :=
  (if d.isBash then ["<<=", ">>=", "**", "++", "--"] else ["<<=", ">>="]) ++
    ["<<", ">>", "<=", ">=", "==", "!=", "&&", "||", "+=", "-=", "*=", "/=", "%=", "&=", "^=", "|="] ++
    ["+", "-", "*", "/", "%", "<", ">", "!", "~", "&", "|", "^", "?", ":", "=", "(", ")"] ++
    (if d.isBash then [","] else [])

/-- Operators between two numbers, those that bind least first. -/
def levels (d : Dialect) : List (List String) :=
  [["||"], ["&&"], ["|"], ["^"], ["&"], ["==", "!="], ["<=", ">=", "<", ">"], ["<<", ">>"],
    ["+", "-"], ["*", "/", "%"]] ++ if d.isBash then [["**"]] else []

/-- The operators that change a variable. -/
def assignments : List String :=
  ["=", "+=", "-=", "*=", "/=", "%=", "<<=", ">>=", "&=", "^=", "|="]

inductive Expr where
  | number (text : String)
  | variable (name : String)
  | element (name index : String)
  | unary (o : String) (e : Expr)
  | binary (o : String) (a b : Expr)
  | choice (c a b : Expr)
  /-- Changes a variable. -/
  | assign (o : String) (target value : Expr)
  /-- Adds one to a variable or takes one off, and is worth what that was before or is after. -/
  | step (before up : Bool) (target : Expr)
  deriving DecidableEq, Repr

/-! ### Reading -/

/-- The digits of a number and what follows them. -/
def numeral (d : Dialect) (s : List Char) : List Char :=
  if d.isBash then s.takeWhile fun c => c.isAlphanum || c = '#' || c = '@' || c = '_'
  else
    match s with
    | '0' :: x :: h :: _ =>
      if (x = 'x' || x = 'X') && digit h < 16 then
        s.take 2 ++ (s.drop 2).takeWhile fun c => digit c < 16
      else '0' :: s.tail.takeWhile fun c => digit c < 8
    | '0' :: rest => '0' :: rest.takeWhile fun c => digit c < 8
    | s => s.takeWhile Char.isDigit

/-- A symbol, and the text that it begins. -/
structure Lexeme where
  symbol : Symbol
  text : List Char

/-- The symbols of a text; `afterName` tells that a variable stands before them. -/
def lexemes (d : Dialect) : (fuel : Nat) → (afterName : Bool) → List Char → List Lexeme
  | 0, _, _ => []
  | _, _, [] => []
  | fuel + 1, afterName, c :: s =>
    let text := c :: s
    let go := fun (symbol : Symbol) (length : Nat) (isVariable : Bool) =>
      { symbol, text : Lexeme } :: lexemes d fuel isVariable (text.drop length)
    if c = ' ' || c = '\t' || c = '\n' then lexemes d fuel afterName s
    else if isNameStart c then
      let name := text.takeWhile isNameChar
      match d.isBash, text.drop name.length with
      | true, '[' :: rest =>
        match untilClosed '[' ']' 0 rest with
        | some (index, _) =>
          go (.element (String.ofList name) (String.ofList index)) (name.length + index.length + 2) true
        | none => [{ symbol := .unclosed, text }]
      | _, _ => go (.name (String.ofList name)) name.length true
    else if c.isDigit then
      let n := numeral d text
      go (.number (String.ofList n)) n.length false
    else
      let suits := fun (o : String) =>
        o.toList.isPrefixOf text && ((o ≠ "++" && o ≠ "--") || afterName ||
          (((text.drop 2).dropWhile fun c => c = ' ' || c = '\t').head?.any isNameStart))
      match (operators d).find? suits with
      | some o => go (.operator o) o.length false
      | none => [{ symbol := .unknown, text }]

/-- Reads from symbols. -/
abbrev Parse (α : Type) := StateT (List Lexeme) (Except Fault) α

section

variable (d : Dialect)

/-- Refuses what comes next. -/
def refuse {α : Type} (inBash inDash : String) : Parse α := do
  let place := ((← get).head?.map Lexeme.text).getD []
  throw (.message (if d.isBash then inBash else inDash) (String.ofList place))

def missing {α : Type} : Parse α := refuse d "syntax error: operand expected" "expecting primary"

def peek : Parse (Option Symbol) := return (← get).head?.map Lexeme.symbol

def skip : Parse Unit := modify List.tail

/-- An operand, given a reader of expressions within it. -/
def operand (whole : Parse Expr) : (fuel : Nat) → Parse Expr
  | 0 => missing d
  | fuel + 1 => do
    let target? := fun (e : Expr) => match e with
      | .variable _ | .element .. => true
      | _ => false
    let behind : Expr → Parse Expr := fun e => do
      if d.isBash && target? e then
        match ← peek with
        | some (.operator "++") =>
          skip
          return .step false true e
        | some (.operator "--") =>
          skip
          return .step false false e
        | _ => return e
      else return e
    match ← peek with
    | some (.number t) =>
      skip
      return .number t
    | some (.name n) =>
      skip
      behind (.variable n)
    | some (.element n i) =>
      skip
      behind (.element n i)
    | some (.operator "(") =>
      skip
      let e ← whole
      if (← peek) = some (.operator ")") then
        skip
        return e
      else refuse d "missing \x60)'" "expecting ')'"
    | some (.operator o) =>
      if o = "-" || o = "+" || o = "!" || o = "~" then
        skip
        return .unary o (← operand whole fuel)
      else if o = "++" || o = "--" then
        skip
        let e ← operand whole fuel
        if target? e then return .step true (o = "++") e
        else
          let sign := if o = "++" then "+" else "-"
          return .unary sign (.unary sign e)
      else missing d
    | some .unclosed => refuse d "bad array subscript" ""
    | some .unknown | none => missing d

/-- More operands with operators of some level between them, behind `first`. -/
def chainFrom (os : List String) (next : Parse Expr) : (fuel : Nat) → Expr → Parse Expr
  | 0, first => return first
  | fuel + 1, first => do
    match ← peek with
    | some (.operator o) =>
      if os.contains o then
        skip
        if o = "**" then return .binary o first (← chainFrom os next fuel (← next))
        else chainFrom os next fuel (.binary o first (← next))
      else return first
    | _ => return first

/-- Operands with operators of some levels between them. -/
def chain (fuel : Nat) : List (List String) → Parse Expr → Parse Expr
  | [], next => next
  | os :: deeper, next => do
    let next := chain fuel deeper next
    chainFrom os next fuel (← next)

/-- An expression without commas. -/
def assignment : (fuel : Nat) → Parse Expr
  | 0 => missing d
  | fuel + 1 => do
    let sub := assignment fuel
    let whole : Parse Expr := do chainFrom [","] sub fuel (← sub)
    match (← get).map Lexeme.symbol with
    | .name n :: .operator o :: _ =>
      if !d.isBash && assignments.contains o then
        skip
        skip
        return .assign o (.variable n) (← sub)
    | _ => pure ()
    let first ← chain fuel (levels d) (operand d whole fuel)
    match ← peek with
    | some (.operator "?") =>
      skip
      let a ← whole
      if (← peek) = some (.operator ":") then
        skip
        if (← peek).isNone then refuse d "expression expected" "expecting primary"
        return .choice first a (← sub)
      else refuse d "\x60:' expected for conditional expression" "expecting ':'"
    | some (.operator o) =>
      if d.isBash && assignments.contains o then
        match first with
        | .variable _ | .element .. =>
          skip
          return .assign o first (← sub)
        | _ => refuse d "attempted assignment to non-variable" ""
      else return first
    | _ => return first

/-- The expression that a text writes; none if there is none. -/
def parse (text : String) : Except Fault (Option Expr) := do
  match lexemes d (text.length + 1) false text.toList with
  | [] => return none
  | s =>
    let fuel := s.length + 2
    let whole : Parse Expr := do
      let sub := assignment d fuel
      let e ← chainFrom [","] sub fuel (← sub)
      match ← peek with
      | none => return e
      | some .unknown => refuse d "syntax error: invalid arithmetic operator" "expecting EOF"
      | some _ => refuse d "syntax error in expression" "expecting EOF"
    match whole.run s with
    | .ok (e, _) => return some e
    | .error (.message m "") => throw (.message m (String.ofList ((s.getLast?.map Lexeme.text).getD [])))
    | .error f => throw f

end

/-! ### Values -/

/-- Where variables are kept. -/
structure Store (σ : Type) where
  get : String → Option String → σ → Except String (Option String × σ)
  set : String → Option String → String → σ → Except String σ
  /-- Whether a variable without a value is an error. -/
  strict : σ → Bool

/-- Finds a value and changes the variables. -/
abbrev Eval (σ : Type) := StateT σ (Except Fault)

def truth (b : Bool) : Int64 := if b then 1 else 0

/-- The power of a number, with an exponent of at most `fuel` bits. -/
def power (x : Int64) : (fuel n : Nat) → Int64
  | 0, _ => 1
  | fuel + 1, n =>
    let half := power (x * x) fuel (n / 2)
    if n % 2 = 1 then x * half else half

/-- The least number. -/
def least : Int64 := Int64.minValue

/-- The value of an operator between two numbers. -/
def operate (d : Dialect) (o : String) (x y : Int64) : Except Fault Int64 :=
  match o with
  | "|" => .ok (x ||| y)
  | "^" => .ok (x ^^^ y)
  | "&" => .ok (x &&& y)
  | "==" => .ok (truth (x = y))
  | "!=" => .ok (truth (x ≠ y))
  | "<=" => .ok (truth (x ≤ y))
  | ">=" => .ok (truth (y ≤ x))
  | "<" => .ok (truth (x < y))
  | ">" => .ok (truth (y < x))
  | "<<" => .ok (x <<< y)
  | ">>" => .ok (x >>> y)
  | "+" => .ok (x + y)
  | "-" => .ok (x - y)
  | "*" => .ok (x * y)
  | "/" | "%" =>
    if y = 0 then .error (.message (if d.isBash then "division by 0" else "division by zero"))
    else if x = least && y = -1 then
      if d.isBash then .ok (if o = "/" then x else 0) else .error .crash
    else .ok (if o = "/" then x / y else x % y)
  | "**" =>
    if y < 0 then .error (.message "exponent less than 0")
    else .ok (power x 64 y.toNatClampNeg)
  | _ => .ok y

/-- A number within the range, to whose ends greater ones are moved. -/
def clamped (n : Nat) : Int64 :=
  if n < Nat.pow 2 63 then Int64.ofNat n else Int64.maxValue

/-- The number that a numeral of dash writes. -/
def dashValue (s : List Char) : Nat :=
  let value := fun (base : Nat) (ds : List Char) => ds.foldl (fun n c => base * n + digit c) 0
  match s with
  | '0' :: x :: ds => if x = 'x' || x = 'X' then value 16 ds else value 8 (x :: ds)
  | s => value 10 s

/-- The number that a numeral writes. -/
def numeralValue (d : Dialect) (text : String) : Except Fault Int64 :=
  let s := text.toList
  if d.isBash then
    let worth := fun (base : Nat) (c : Char) =>
      if base ≤ 36 then digit c
      else if c.isUpper then digit c + 26
      else if c = '@' then 62
      else if c = '_' then 63
      else digit c
    let value := fun (base : Nat) (ds : List Char) => ds.foldl (fun n c => base * n + worth base c) 0
    let fits := fun (base : Nat) (ds : List Char) => ds.all fun c => worth base c < base
    let great : Except Fault Int64 := .error (.message "value too great for base" text)
    let number := fun (base : Nat) (ds : List Char) =>
      if fits base ds then .ok (Int64.ofNat (value base ds)) else great
    match s with
    | '0' :: x :: ds => if x = 'x' || x = 'X' then number 16 ds else number 8 (x :: ds)
    | _ =>
      let base := s.takeWhile (· ≠ '#')
      if base.length = s.length then number 10 s
      else
        let b := value 10 base
        if b < 2 || 64 < b then .error (.message "invalid arithmetic base" text)
        else number b (s.drop (base.length + 1))
  else .ok (clamped (dashValue s))

/-- The number that the text of a variable is, in a shell that wants it to be one. -/
def integer? (text : String) : Option Int64 :=
  let s := text.toList.dropWhile fun c => c = ' ' || ('\t' ≤ c && c ≤ '\x0d')
  let (negative, ds) := match s with
    | '-' :: ds => (true, ds)
    | '+' :: ds => (false, ds)
    | ds => (false, ds)
  let n := numeral .dash ds
  let rest := (ds.drop n.length).dropWhile fun c => c = ' ' || ('\t' ≤ c && c ≤ '\x0d')
  if n.isEmpty || !rest.isEmpty then none
  else
    let v : Int := if negative then -(dashValue n : Int) else dashValue n
    if v < Int64.minValue.toInt || Int64.maxValue.toInt < v then none else some (Int64.ofInt v)

section

variable {σ : Type} (d : Dialect) (store : Store σ) (inner : String → Eval σ Int64)

/-- The value of the text of a variable. -/
def textValue (text : Option String) : Eval σ Int64 := do
  match text with
  | none => return 0
  | some t =>
    if d.isBash then inner t
    else if t.isEmpty then return 0
    else
      match integer? t with
      | some n => return n
      | none => throw (.message ("Illegal number: " ++ t))

/-- Reads a variable. -/
def load (name : String) (index : Option String) : Eval σ Int64 := do
  match store.get name index (← get) with
  | .ok (text, s) =>
    set s
    textValue d inner text
  | .error e => throw (.message e)

/-- Writes a variable. -/
def save (name : String) (index : Option String) (n : Int64) : Eval σ Unit := do
  match store.set name index (toString n.toInt) (← get) with
  | .ok s => set s
  | .error e => throw (.message e)

/-- The value of an expression. -/
def eval : Expr → Eval σ Int64
  | .number t => numeralValue d t
  | .variable name => load d store inner name none
  | .element name index => load d store inner name (some index)
  | .unary o e => do
    let n ← eval e
    return match o with
      | "-" => -n
      | "!" => truth (n = 0)
      | "~" => ~~~n
      | _ => n
  | .binary o a b => do
    let x ← eval a
    if o = "&&" then
      if x = 0 then return 0 else return truth ((← eval b) ≠ 0)
    else if o = "||" then
      if x ≠ 0 then return 1 else return truth ((← eval b) ≠ 0)
    else operate d o x (← eval b)
  | .choice c a b => do
    if (← eval c) ≠ 0 then eval a else eval b
  | .assign o target value => do
    let name := match target with
      | .variable n | .element n _ => n
      | _ => ""
    let index := match target with
      | .element _ i => some i
      | _ => none
    if o = "=" then
      let v ← eval value
      save store name index v
      return v
    else
      let old ← load d store inner name index
      let v ← operate d (String.ofList o.toList.dropLast) old (← eval value)
      save store name index v
      return v
  | .step before up target => do
    let name := match target with
      | .variable n | .element n _ => n
      | _ => ""
    let index := match target with
      | .element _ i => some i
      | _ => none
    let old ← load d store inner name index
    let new := if up then old + 1 else old - 1
    save store name index new
    return if before then new else old

/-- The value of a text; variables can hold expressions within `fuel` others. -/
def evaluate : (fuel : Nat) → String → Eval σ Int64
  | 0, _ => throw (.message "expression recursion level exceeded")
  | fuel + 1, text => do
    match parse d text with
    | .ok none => return 0
    | .ok (some e) => eval d store (evaluate fuel) e
    | .error f => throw f

end

end Workload.Shell.Arithmetic
