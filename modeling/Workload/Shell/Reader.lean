import Workload.Shell.Source

/-!
# Reading words

Words are read from the characters of a program.  What is within `$(` and `)` has to be a program, whose
reader is given here as `body`; it takes the closing parenthesis along.
-/

namespace Workload.Shell

/-! ### Escapes of `$'` -/

/-- The character of an escape by a letter. -/
def escape? (c : Char) : Option Char :=
  match c with
  | 'a' => some '\x07'
  | 'b' => some '\x08'
  | 'f' => some '\x0c'
  | 'n' => some '\n'
  | 'r' => some '\x0d'
  | 't' => some '\t'
  | 'v' => some '\x0b'
  | '\\' => some '\\'
  | _ => none

/-- The value of a digit. -/
def digit (c : Char) : Nat :=
  if c.isDigit then c.toNat - 48
  else if 'a' ≤ c && c ≤ 'z' then c.toNat - 87
  else if 'A' ≤ c && c ≤ 'Z' then c.toNat - 55
  else 99

/-- The number that at most `n` digits of a base write, and what follows them. -/
def digits (base n : Nat) (s : List Char) : Option (Nat × List Char) :=
  let ds := (s.take n).takeWhile fun c => digit c < base
  if ds.isEmpty then none
  else some (ds.foldl (fun v c => base * v + digit c) 0, s.drop ds.length)

/-- The bytes of the character with a number. -/
def encoded (n : Nat) : List Char := numbers (Char.ofNat n)
where
  numbers (c : Char) : List Char :=
    if c.toNat < 128 then [c]
    else ((String.singleton c).toUTF8.toList.map fun b => Char.ofNat b.toNat)

/-- The bytes of the escape that follows a backslash, and what follows it. -/
def quotedEscape (s : List Char) : List Char × List Char :=
  match s with
  | [] => (['\\'], [])
  | c :: cs =>
    match escape? c with
    | some d => ([d], cs)
    | none =>
      match c with
      | '\'' | '"' | '?' => ([c], cs)
      | 'e' | 'E' => (['\x1b'], cs)
      | 'x' =>
        match digits 16 2 cs with
        | some (v, rest) => ([Char.ofNat v], rest)
        | none => (['\\', 'x'], cs)
      | 'u' =>
        match digits 16 4 cs with
        | some (v, rest) => (encoded v, rest)
        | none => (['\\', 'u'], cs)
      | 'U' =>
        match digits 16 8 cs with
        | some (v, rest) => (encoded v, rest)
        | none => (['\\', 'U'], cs)
      | 'c' =>
        match cs with
        | d :: rest => ([Char.ofNat (d.toUpper.toNat % 32)], rest)
        | [] => (['\\', 'c'], [])
      | _ =>
        match digits 8 3 (c :: cs) with
        | some (v, rest) => ([Char.ofNat (v % 256)], rest)
        | none => (['\\', c], cs)

/-- What stands up to the quote that closes `$'`, and what follows it. -/
def untilQuote : (fuel : Nat) → List Char → List Char → Option (List Char × List Char)
  | 0, _, _ => none
  | _, _, [] => none
  | fuel + 1, acc, c :: cs =>
    if c = '\'' then some (acc.reverse, cs)
    else if c = '\\' then
      let (ds, rest) := quotedEscape cs
      untilQuote fuel (ds.reverse ++ acc) rest
    else untilQuote fuel (c :: acc) cs

/-! ### Parts -/

section

variable (d : Dialect) (body : Reader Unit)

namespace Reader

/-- Reads a program up to its closing parenthesis: the line that it starts in, and its text. -/
def enclosed : Reader (Nat × String) := do
  let start ← get
  set { start with ahead := none, waiting := [], documents := [] }
  try body
  catch f =>
    if d.isBash && f.atEnd && f.text.startsWith "syntax error" then
      throw { f with text := "unexpected EOF while looking for matching \x60)'" }
    else throw f
  let stop ← get
  set { start with chars := stop.chars, line := stop.line }
  let inner := start.chars.take (start.chars.length - stop.chars.length - 1)
  return (start.line, String.ofList inner)

/-- What stands before a backquote that is not escaped, and what follows it; the text and what has been
taken off. -/
def untilBackquote (inQuotes : Bool) : (fuel : Nat) → List Char → List Char →
    Option (List Char × List Char)
  | 0, _, _ => none
  | _, _, [] => none
  | fuel + 1, acc, c :: cs =>
    if c = '\x60' then some (acc.reverse, cs)
    else if c = '\\' then
      match cs with
      | e :: rest =>
        if e = '\x60' || e = '\\' || e = '$' || (inQuotes && e = '"') then
          untilBackquote inQuotes fuel (e :: acc) rest
        else untilBackquote inQuotes fuel (e :: '\\' :: acc) rest
      | [] => none
    else untilBackquote inQuotes fuel (c :: acc) cs

/-- The program between backquotes, the first of which has been taken off. -/
def backquoted (quoted inQuotes : Bool) : Reader Part := do
  let s ← get
  match untilBackquote inQuotes (s.chars.length + 1) [] s.chars with
  | none =>
    fail (if d.isBash then "unexpected EOF while looking for matching \x60\x60'"
      else "EOF in backquote substitution")
  | some (inner, rest) =>
    drop (s.chars.length - rest.length)
    return .output s.line (String.ofList inner) quoted

/-- Takes off an arithmetic expression and the two parentheses that close it. -/
def formulaEnd (inner : Mode → Reader Word) (dollar : Reader Word) : (fuel depth : Nat) →
    Reader Unit
  | 0, _ => fail "Missing '))'"
  | fuel + 1, depth => do
    match ← chars with
    | [] => fail "Missing '))'"
    | c :: cs =>
      drop 1
      if c = ')' then
        match depth with
        | 0 => if cs.head? = some ')' then drop 1 else fail "Missing '))'"
        | depth + 1 => formulaEnd inner dollar fuel depth
      else if c = '(' then formulaEnd inner dollar fuel (depth + 1)
      else if c = '$' then
        let _ ← dollar
        formulaEnd inner dollar fuel depth
      else if c = '"' then
        let _ ← inner .quoted
        drop 1
        formulaEnd inner dollar fuel depth
      else if c = '\\' then
        drop 1
        formulaEnd inner dollar fuel depth
      else if c = '\x60' then
        let _ ← backquoted d true false
        formulaEnd inner dollar fuel depth
      else formulaEnd inner dollar fuel depth

/-- The operand of a parameter, up to a closing brace that is taken off. -/
def operand (inner : Mode → Reader Word) (mode : Mode) : Reader String := do
  let text ← taken (do let _ ← inner mode)
  drop 1
  return String.ofList text

/-- The name that stands here. -/
def nameHere : Reader String := do
  let s ← chars
  let name :=
    match s with
    | c :: _ =>
      if isNameStart c then s.takeWhile isNameChar
      else if c.isDigit then s.takeWhile Char.isDigit
      else if isSpecial c then [c]
      else []
    | [] => []
  drop name.length
  return String.ofList name

/-- Splits the text of a slice at its colon, which is outside of brackets. -/
def sliceParts : (depth : Nat) → List Char → List Char → List Char × Option (List Char)
  | _, acc, [] => (acc.reverse, none)
  | depth, acc, c :: cs =>
    if c = ':' && depth = 0 then (acc.reverse, some cs)
    else if c = '(' || c = '\x7b' || c = '[' || c = '?' then sliceParts (depth + 1) (c :: acc) cs
    else if (c = ')' || c = '\x7d' || c = ']' || c = ':') && depth ≠ 0 then
      sliceParts (depth - 1) (c :: acc) cs
    else sliceParts depth (c :: acc) cs

/-- The rest of a parameter behind its name, with the closing brace. -/
def useOf (inner : Mode → Reader Word) (quoted : Bool) : Reader Use := do
  let word : Mode := if quoted then .quotedBraced else .braced
  let bad : Reader Use := do
    let _ ← operand inner word
    return .bad
  let simple := fun (colon : Bool) (o : Char) => do
    drop 1
    let w ← operand inner word
    return match o with
      | '-' => Use.fallback colon w
      | '+' => .given colon w
      | '=' => .assign colon w
      | _ => .demand colon w
  let isSimple := fun (c : Char) => c = '-' || c = '+' || c = '=' || c = '?'
  match ← chars with
  | '\x7d' :: _ =>
    drop 1
    return .plain
  | ':' :: o :: _ =>
    drop 1
    if isSimple o then simple true o
    else if d.isBash then
      let text ← operand inner word
      let (start, length) := sliceParts 0 [] text.toList
      return .slice (String.ofList start) (length.map String.ofList)
    else bad
  | '#' :: '#' :: _ =>
    drop 2
    return .strip false true (← operand inner .braced)
  | '#' :: _ =>
    drop 1
    return .strip false false (← operand inner .braced)
  | '%' :: '%' :: _ =>
    drop 2
    return .strip true true (← operand inner .braced)
  | '%' :: _ =>
    drop 1
    return .strip true false (← operand inner .braced)
  | o :: more =>
    if isSimple o then simple false o
    else if !d.isBash then bad
    else if o = '/' then
      drop 1
      let which : Occurrence := match more.head? with
        | some '/' => .all
        | some '#' => .front
        | some '%' => .back
        | _ => .first
      if which ≠ .first then drop 1
      let pattern ← taken (do let _ ← inner .slashed)
      if (← chars).head? = some '/' then
        drop 1
        return .replace which (String.ofList pattern) (← operand inner word)
      else
        drop 1
        return .replace which (String.ofList pattern) ""
    else if o = '^' || o = ',' then
      let all := more.head? = some o
      drop (if all then 2 else 1)
      return .recase (o = '^') all (← operand inner .braced)
    else if o = '@' then
      match more with
      | c :: '\x7d' :: _ =>
        drop 3
        return .transform c
      | '\x7d' :: _ => bad
      | _ => bad
    else bad
  | [] => bad

/-- The index of an element, if one stands here. -/
def indexHere : Reader (Option String) := do
  match ← chars with
  | '[' :: cs =>
    if d.isBash then
      match untilClosed '[' ']' 0 cs with
      | some (inner, _) =>
        drop (inner.length + 2)
        return some (String.ofList inner)
      | none => return none
    else return none
  | _ => return none

/-- The parameter that is described behind `$` and an opening brace. -/
def parameter (inner : Mode → Reader Word) (quoted : Bool) : Reader Part := do
  let start ← get
  let counted : Reader (Option Part) := do
    drop 1
    let name ← nameHere
    let index ← indexHere d
    if name.isEmpty || (← chars).head? ≠ some '\x7d' then return none
    drop 1
    return some (.value { name, index, use := .length } quoted)
  let referred : Reader (Option Part) := do
    drop 1
    let name ← nameHere
    let index ← indexHere d
    if name.isEmpty then return none
    match ← chars, index with
    | '\x7d' :: _, some "@" | '\x7d' :: _, some "*" =>
      drop 1
      return some (.value { name, index, use := .keys } quoted)
    | '*' :: '\x7d' :: _, none | '@' :: '\x7d' :: _, none =>
      drop 2
      return some (.value { name, use := .names } quoted)
    | _, _ =>
      let use ← useOf d inner quoted
      return some (.value { name, index, indirect := true, use } quoted)
  let usual : Reader Part := do
    let name ← nameHere
    let index ← indexHere d
    if name.isEmpty then
      let _ ← operand inner (if quoted then .quotedBraced else .braced)
      return .value { name := "", use := .bad } quoted
    else
      let use ← useOf d inner quoted
      return .value { name, index, use } quoted
  let special ←
    match start.chars with
    | '#' :: c :: _ => if c = '\x7d' then pure none else counted
    | '!' :: c :: _ =>
      if d.isBash && (isNameStart c || c.isDigit || c = '#' || c = '@' || c = '*') then referred
      else pure none
    | _ => pure none
  match special with
  | some p => return p
  | none =>
    set start
    usual

/-- The part that follows a dollar sign. -/
def dollar (inner : Mode → Reader Word) (quoted bare : Bool) : (fuel : Nat) → Reader Word
  | 0 => fail "too deep"
  | fuel + 1 => do
    let command : Reader Word := do
      drop 1
      let (line, source) ← enclosed d body
      return [.output line source quoted]
    let formula : Reader Word := do
      drop 2
      let text ← taken (formulaEnd d inner (dollar inner true false fuel) fuel 0)
      return [.arithmetic (String.ofList (text.take (text.length - 2))) quoted]
    match ← chars with
    | '(' :: '(' :: _ =>
      if d.isBash then
        let start ← get
        try formula
        catch _ =>
          set start
          command
      else formula
    | '(' :: _ => command
    | '\x7b' :: _ =>
      drop 1
      return [← parameter d inner quoted]
    | c :: cs =>
      if isNameStart c then
        let name ← nameHere
        return [.value { name } quoted]
      else if isSpecial c then
        drop 1
        return [.value { name := String.singleton c } quoted]
      else if bare && d.isBash && c = '\'' then
        match untilQuote (cs.length + 1) [] cs with
        | some (inner, rest) =>
          drop (cs.length + 1 - rest.length)
          return [.text (String.ofList inner) true]
        | none => fail "unexpected EOF while looking for matching \x60''"
      else if bare && d.isBash && c = '"' then return []
      else if d.isBash && c = '[' then
        match untilClosed '[' ']' 0 cs with
        | some (inner, _) =>
          drop (inner.length + 2)
          return [.arithmetic (String.ofList inner) quoted]
        | none => return [.text "$" quoted]
      else return [.text "$" quoted]
    | [] => return [.text "$" quoted]

/-- Takes off the elements of an array and the closing parenthesis. -/
def skipItems (inner : Mode → Reader Word) : (fuel : Nat) → Reader Unit
  | 0 => fail "unexpected EOF"
  | fuel + 1 => do
    match ← chars with
    | [] => fail "unexpected EOF while looking for matching \x60)'"
    | c :: cs =>
      if c = ')' then drop 1
      else if c = ' ' || c = '\t' || c = '\n' then
        drop 1
        skipItems inner fuel
      else if c = '#' then
        drop (1 + (cs.takeWhile (· ≠ '\n')).length)
        skipItems inner fuel
      else if Mode.endsWord c then fail ("syntax error near unexpected token \x60" ++ c.toString ++ "'")
      else
        let _ ← inner .bare
        skipItems inner fuel

/-- Reads parts behind those of `acc`, which are read backwards. -/
def partsFrom : (fuel : Nat) → Mode → Word → Reader Word
  | 0, _, _ => fail "too deep"
  | fuel + 1, mode, acc => do
    let inner : Mode → Reader Word := fun m => partsFrom fuel m []
    let quoted := mode.isQuoted
    match ← chars with
    | [] =>
      if mode.mustEnd then
        throw
          { line := (← get).line
            text :=
              if mode = .quoted then
                if d.isBash then "unexpected EOF while looking for matching \x60\"'"
                else "Unterminated quoted string"
              else if d.isBash then "unexpected EOF while looking for matching \x60\x7d'"
              else "Missing '\x7d'"
            atEnd := true }
      else return acc.reverse
    | c :: cs =>
      if d.isBash && mode = .bare && c = '(' && acc.assigns then
        drop 1
        let text ← taken (skipItems inner fuel)
        partsFrom fuel mode (.items (String.ofList text.dropLast) :: acc)
      else if mode.ends c then return acc.reverse
      else if c = '\\' then
        match cs with
        | [] =>
          drop 1
          partsFrom fuel mode (acc.push '\\' true)
        | e :: _ =>
          drop 2
          if e = '\n' then partsFrom fuel mode acc
          else if mode.escapes e then partsFrom fuel mode (acc.push e true)
          else partsFrom fuel mode ((acc.push '\\' quoted).push e quoted)
      else if c = '\'' && !quoted then
        let text := cs.takeWhile (· ≠ '\'')
        if text.length = cs.length then
          throw
            { line := (← get).line
              text :=
                if d.isBash then "unexpected EOF while looking for matching \x60''"
                else "Unterminated quoted string"
              atEnd := true }
        else
          drop (text.length + 2)
          partsFrom fuel mode (.text (String.ofList text) true :: acc)
      else if c = '"' && mode ≠ .document then
        drop 1
        if mode = .formula then partsFrom fuel mode acc
        else
          let ps ← inner .quoted
          drop 1
          let ps := if ps.isEmpty then [.text "" true] else ps
          partsFrom fuel mode (ps.reverse ++ acc)
      else if c = '$' then
        drop 1
        let ps ← dollar d body inner quoted (!quoted) fuel
        partsFrom fuel mode (ps.reverse ++ acc)
      else if c = '\x60' then
        drop 1
        let p ← backquoted d quoted (mode = .quoted)
        partsFrom fuel mode (p :: acc)
      else
        drop 1
        let mode := match mode with
          | .regex depth =>
            if c = '(' then .regex (depth + 1) else if c = ')' then .regex (depth - 1) else mode
          | mode => mode
        partsFrom fuel mode (acc.push c quoted)

def parts (mode : Mode) : Reader Word := do partsFrom d body (← bound) mode []

/-- The element at the start of an assignment, if there is one. -/
def element? (s : List Char) : Option (Part × Nat) :=
  match s with
  | c :: _ =>
    if isNameStart c then
      let name := s.takeWhile isNameChar
      match s.drop name.length with
      | '[' :: rest => do
        let (index, rest) ← untilClosed '[' ']' 0 rest
        let adds ← match rest with
          | '=' :: _ => some false
          | '+' :: '=' :: _ => some true
          | _ => none
        pure (.target (String.ofList name) (String.ofList index) adds,
          name.length + index.length + 2 + if adds then 2 else 1)
      | _ => none
    else none
  | [] => none

/-- The word that starts here. -/
def wordHere : Reader Word := do
  let s ← chars
  match (if d.isBash then element? s else none) with
  | some (p, n) =>
    drop n
    partsFrom d body (← bound) .bare [p]
  | none => parts d body .bare

end Reader

end

end Workload.Shell
