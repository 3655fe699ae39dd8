/-!
# Shell patterns

`*` stands for any text, `?` for a character, and brackets for a character of a set.  A quoted
character stands for itself.
-/

namespace Workload.Shell

/-- Characters, and whether they are quoted. -/
abbrev Cells := List (Char × Bool)

def Cells.of (quoted : Bool) (s : String) : Cells := s.toList.map fun c => (c, quoted)

def Cells.text (cs : Cells) : String := String.ofList (cs.map Prod.fst)

/-- A member of a set of characters. -/
inductive Member where
  | range (low high : Char)
  | named (name : String)
  deriving DecidableEq, Repr

/-- Whether a character belongs to a named class. -/
def inClass (name : String) (c : Char) : Bool :=
  match name with
  | "alpha" => c.isAlpha
  | "digit" => c.isDigit
  | "alnum" => c.isAlphanum
  | "upper" => c.isUpper
  | "lower" => c.isLower
  | "space" => c = ' ' || ('\t' ≤ c && c ≤ '\x0d')
  | "blank" => c = ' ' || c = '\t'
  | "punct" => '!' ≤ c && c ≤ '~' && !c.isAlphanum
  | "print" => ' ' ≤ c && c ≤ '~'
  | "graph" => '!' ≤ c && c ≤ '~'
  | "cntrl" => c < ' ' || c = '\x7f'
  | "xdigit" => c.isDigit || ('a' ≤ c && c ≤ 'f') || ('A' ≤ c && c ≤ 'F')
  | _ => false

def Member.has (c : Char) : Member → Bool
  | .range low high => low ≤ c && c ≤ high
  | .named name => inClass name c

/-- A part of a pattern. -/
inductive Mark where
  | char (c : Char)
  | anyChar
  | anyText
  | set (negated : Bool) (members : List Member)
  deriving DecidableEq, Repr

/-- The members of a set up to the closing bracket, which is none if it comes `first`. -/
def members? : (fuel : Nat) → (first : Bool) → Cells → Option (List Member × Cells)
  | 0, _, _ => none
  | _, _, [] => none
  | fuel + 1, first, (c, q) :: cs =>
    if c = ']' && !q && !first then some ([], cs)
    else if c = '[' && !q && (cs.head?.map Prod.fst) = some ':' then
      let name := (cs.drop 1).takeWhile fun d => d.1.isAlpha
      match (cs.drop (1 + name.length)).map Prod.fst with
      | ':' :: ']' :: _ =>
        (members? fuel false (cs.drop (3 + name.length))).map fun r =>
          (.named (Cells.text name) :: r.1, r.2)
      | _ => (members? fuel false cs).map fun r => (.range c c :: r.1, r.2)
    else
      let (c, cs) := if c = '\\' && !q then
        match cs with
        | (d, _) :: rest => (d, rest)
        | [] => (c, cs)
        else (c, cs)
      match cs with
      | ('-', false) :: (d, r) :: rest =>
        if d = ']' && !r then (members? fuel false cs).map fun m => (.range c c :: m.1, m.2)
        else
          let (d, rest) := if d = '\\' && !r then
            match rest with
            | (e, _) :: more => (e, more)
            | [] => (d, rest)
            else (d, rest)
          (members? fuel false rest).map fun m => (.range c d :: m.1, m.2)
      | cs => (members? fuel false cs).map fun m => (.range c c :: m.1, m.2)

/-- The parts of a pattern; `caret` tells whether a set can begin with one to be negated. -/
def marks (caret : Bool) : (fuel : Nat) → Cells → List Mark
  | 0, _ => []
  | _, [] => []
  | fuel + 1, (c, q) :: cs =>
    if q then .char c :: marks caret fuel cs
    else
      match c with
      | '*' => .anyText :: marks caret fuel cs
      | '?' => .anyChar :: marks caret fuel cs
      | '\\' =>
        match cs with
        | (d, _) :: rest => .char d :: marks caret fuel rest
        | [] => [.char c]
      | '[' =>
        let negated := match cs with
          | (d, false) :: _ => d = '!' || (caret && d = '^')
          | _ => false
        match members? (cs.length + 1) true (if negated then cs.drop 1 else cs) with
        | some (ms, rest) => .set negated ms :: marks caret fuel rest
        | none => .char c :: marks caret fuel cs
      | _ => .char c :: marks caret fuel cs

def marksOf (caret : Bool) (cs : Cells) : List Mark := marks caret (cs.length + 1) cs

/-- Whether a text is as a pattern describes. -/
def fits : List Mark → List Char → Bool
  | [], s => s.isEmpty
  | .anyText :: ms, [] => fits ms []
  | .anyText :: ms, c :: cs => fits ms (c :: cs) || fits (.anyText :: ms) cs
  | .char d :: ms, c :: cs => c = d && fits ms cs
  | .anyChar :: ms, _ :: cs => fits ms cs
  | .set negated ns :: ms, c :: cs => (ns.any (·.has c) != negated) && fits ms cs
  | _ :: _, [] => false
  termination_by ms s => ms.length + s.length

/-- Whether a pattern describes more than one text. -/
def isPattern (ms : List Mark) : Bool :=
  ms.any fun m => match m with
    | .char _ => false
    | _ => true

/-- What is left of a text without the shortest or the longest start that matches. -/
def withoutStart (longest : Bool) (ms : List Mark) (s : List Char) : List Char :=
  let lengths := List.range (s.length + 1)
  match (if longest then lengths.reverse else lengths).find? fun n => fits ms (s.take n) with
  | some n => s.drop n
  | none => s

/-- What is left of a text without the shortest or the longest end that matches. -/
def withoutEnd (longest : Bool) (ms : List Mark) (s : List Char) : List Char :=
  let lengths := List.range (s.length + 1)
  match (if longest then lengths else lengths.reverse).find? fun n => fits ms (s.drop n) with
  | some n => s.take n
  | none => s

end Workload.Shell
