import Workload.Shell.Grammar

/-!
# Reading commands

The grammar of commands.  A program is read a line at a time, and a line is carried out before the next
one is read, so that what is wrong with a line does not keep those before it from their work.
-/

namespace Workload.Shell

namespace Grammar

variable (g : Grammar)

/-- Reads the program between `$(` and the parenthesis that it takes along. -/
def enclosed : (fuel : Nat) → Reader Unit
  | 0 => Reader.fail "too deep"
  | fuel + 1 => do
    let _ ← g.listFrom (enclosed fuel) (← Reader.bound) .nothing
    g.expectOperator (enclosed fuel) ")"

section

variable (body : Reader Unit)

/-- A body between two reserved words, the first of which has been taken off. -/
def closedBy (word : String) : Reader Command := do
  let c ← g.list body
  g.expect body word
  return c

/-- The rest of a conditional behind `if` or `elif`. -/
def branches : (fuel : Nat) → Reader Command
  | 0 => Reader.fail "too deep"
  | fuel + 1 => do
    let test ← g.closedBy body "then"
    let yes ← g.list body
    match ← g.next body with
    | .word w =>
      match w.plain? with
      | some "elif" => return .conditional test yes (← branches fuel)
      | some "else" => return .conditional test yes (← g.closedBy body "fi")
      | some "fi" => return .conditional test yes .nothing
      | _ => g.unexpected (.word w) (some "fi")
    | t => g.unexpected t (some "fi")

/-- The words up to the end of a line or a semicolon. -/
def wordsFrom : (fuel : Nat) → List Word → Reader (List Word)
  | 0, ws => return ws.reverse
  | fuel + 1, ws => do
    match ← g.next body with
    | .word w => wordsFrom fuel (w :: ws)
    | .newline | .operator ";" => return ws.reverse
    | t => g.unexpected t

/-- The words up to the end of the text, in one line or more. -/
def itemsFrom : (fuel : Nat) → List Word → Reader (List Word)
  | 0, ws => return ws.reverse
  | fuel + 1, ws => do
    match ← g.next body with
    | .word w => itemsFrom fuel (w :: ws)
    | .newline => itemsFrom fuel ws
    | _ => return ws.reverse

/-- What is repeated: the commands between `do` and `done`, or between braces. -/
def repeated : Reader Command := do
  g.skipNewlines body (← Reader.bound)
  match ← g.next body with
  | .word w =>
    match w.plain? with
    | some "do" => g.closedBy body "done"
    | some "\x7b" =>
      if g.dialect.isBash then g.closedBy body "\x7d" else g.unexpected (.word w) (some "do")
    | _ => g.unexpected (.word w) (some "do")
  | t => g.unexpected t (some "do")

/-- Takes off the text up to the two parentheses that close an arithmetic command. -/
def formula : Reader String := do
  let bound ← Reader.bound
  let word := fun m => Reader.partsFrom g.dialect body bound m []
  let text ← Reader.taken
    (Reader.formulaEnd g.dialect word (Reader.dollar g.dialect body word true false bound) bound 0)
  return String.ofList (text.take (text.length - 2))

/-- A loop over words, behind `for`. -/
def forLoop (line : Nat) : Reader Command := do
  let s ← get
  Reader.skipBlanks (← Reader.bound)
  match ← Reader.chars with
  | '(' :: '(' :: _ =>
    if g.dialect.isBash then
      Reader.drop 2
      let text ← g.formula body
      let parts := (String.ofList (text.toList)).splitOn ";"
      if (← g.peek body) = .operator ";" then
        let _ ← g.next body
      let c ← g.repeated body
      return .counted (parts.getD 0 "") (parts.getD 1 "") (parts.getD 2 "") c
    else g.unexpected (.operator "(")
  | _ =>
    set s
    match ← g.next body with
    | .word w =>
      match w.plain? with
      | none => Reader.fail "Syntax error: Bad for loop variable"
      | some name =>
        if !isName name then Reader.fail "Syntax error: Bad for loop variable"
        else
          let ended ←
            if (← g.peek body) = .operator ";" then do
              let _ ← g.next body
              pure true
            else pure false
          g.skipNewlines body (← Reader.bound)
          let words ←
            match ended, ← g.peek body with
            | false, .word w =>
              if w.plain? = some "in" then do
                let _ ← g.next body
                let ws ← g.wordsFrom body (← Reader.bound) []
                pure (some ws)
              else pure none
            | _, _ => pure none
          return .each line name words (← g.repeated body)
    | t => if g.dialect.isBash then g.unexpected t else Reader.fail "Syntax error: Bad for loop variable"

/-- The patterns of a clause up to the closing parenthesis. -/
def patternsFrom : (fuel : Nat) → List Word → Reader (List Word)
  | 0, ws => return ws.reverse
  | fuel + 1, ws => do
    match ← g.next body with
    | .word w =>
      match ← g.next body with
      | .operator "|" => patternsFrom fuel (w :: ws)
      | .operator ")" => return (w :: ws).reverse
      | t => g.unexpected t (some ")")
    | t => if g.dialect.isBash then g.unexpected t else g.unexpected (← g.next body) (some ")")

/-- The clauses up to `esac`. -/
def clauses : (fuel : Nat) → Reader Command
  | 0 => Reader.fail "too deep"
  | fuel + 1 => do
    g.skipNewlines body (← Reader.bound)
    match ← g.peek body with
    | .word w =>
      if w.plain? = some "esac" then
        let _ ← g.next body
        return .nothing
    | .operator "(" =>
      let _ ← g.next body
    | _ => pure ()
    let ps ← g.patternsFrom body (← Reader.bound) []
    let c ← g.listFrom body (← Reader.bound) .nothing
    match ← g.next body with
    | .operator ";;" => return .clause ps c .leave (← clauses fuel)
    | .operator ";&" => return .clause ps c .enter (← clauses fuel)
    | .operator ";;&" => return .clause ps c .search (← clauses fuel)
    | .word w =>
      if w.plain? = some "esac" then return .clause ps c .leave .nothing
      else g.unexpected (.word w) (some ";;")
    | t => g.unexpected t (some ";;")

/-! ### Conditions between double brackets -/

/-- The operators of conditions that stand between two words. -/
def comparisons : List String :=
  ["=", "==", "!=", "=~", "-eq", "-ne", "-lt", "-le", "-gt", "-ge", "-nt", "-ot", "-ef"]

/-- A condition, from those that bind least to single tests. -/
def condition : (fuel : Nat) → (level : Nat) → Reader Condition
  | 0, _ => Reader.fail "too deep"
  | fuel + 1, level => do
    g.skipNewlines body (← Reader.bound)
    match level with
    | 0 =>
      let first ← condition fuel 1
      if (← g.peek body) = .operator "||" then
        let _ ← g.next body
        return .either first (← condition fuel 0)
      else return first
    | 1 =>
      let first ← condition fuel 2
      if (← g.peek body) = .operator "&&" then
        let _ ← g.next body
        return .both first (← condition fuel 1)
      else return first
    | _ =>
      match ← g.next body with
      | .operator "(" =>
        let c ← condition fuel 0
        g.expectOperator body ")"
        return c
      | .word w =>
        if w.plain? = some "!" then return .negated (← condition fuel 2)
        else
          match w.plain? with
          | some o =>
            if o.length = 2 && o.startsWith "-" && (o.toList.any Char.isAlpha) then
              match ← g.peek body with
              | .word v =>
                if v.plain? = some "]]" then return .word w
                else
                  let _ ← g.next body
                  return .unary o v
              | _ => return .word w
          | none => pure ()
          match ← g.peek body with
          | .redirect none o =>
            if o = "<" || o = ">" then
              let _ ← g.next body
              match ← g.next body with
              | .word v => return .binary o w v
              | t => g.unexpected t
            else g.unexpected (.redirect none o)
          | .word o =>
            match o.plain? with
            | some o =>
              if o = "=~" then
                modify fun s => { s with ahead := none }
                Reader.skipBlanks (← Reader.bound)
                return .binary o w (← Reader.partsFrom g.dialect body (← Reader.bound) (.regex 0) [])
              else if comparisons.contains o then
                let _ ← g.next body
                match ← g.next body with
                | .word v => return .binary o w v
                | t => g.unexpected t
              else return .word w
            | none => return .word w
          | _ => return .word w
      | t => g.unexpected t

/-- The body of a function, behind its name and parentheses. -/
def function (name : String) : Reader Command := do
  g.skipNewlines body (← Reader.bound)
  if g.dialect.isBash then
    match ← g.peek body with
    | .word w =>
      unless w.plain?.any compounds.contains do g.unexpected (.word w)
    | .operator "(" => pure ()
    | t => g.unexpected t
  return .define name (← g.one)

/-- One command. -/
def command : Reader Command := do
  g.expandAlias body (← Reader.bound)
  let t ← g.peek body
  let line := (← get).line
  match t with
  | .operator "(" =>
    let _ ← g.next body
    if g.dialect.isBash && (← Reader.chars).head? = some '(' then
      let start ← get
      try
        Reader.drop 1
        let text ← g.formula body
        g.withRedirects body line (.formula line text)
      catch _ =>
        set start
        let c ← g.list body
        g.expectOperator body ")"
        g.withRedirects body line (.subshell c)
    else
      let c ← g.list body
      g.expectOperator body ")"
      g.withRedirects body line (.subshell c)
  | .redirect .. => g.simpleFrom body line (← Reader.bound) [] []
  | .word w =>
    match w.plain? with
    | some "if" =>
      let _ ← g.next body
      g.withRedirects body line (← g.branches body (← Reader.bound))
    | some "while" =>
      let _ ← g.next body
      let test ← g.list body
      g.withRedirects body line (.loop false test (← g.repeated body))
    | some "until" =>
      let _ ← g.next body
      let test ← g.list body
      g.withRedirects body line (.loop true test (← g.repeated body))
    | some "for" =>
      let _ ← g.next body
      g.withRedirects body line (← g.forLoop body line)
    | some "case" =>
      let _ ← g.next body
      match ← g.next body with
      | .word subject =>
        g.skipNewlines body (← Reader.bound)
        g.expect body "in"
        g.withRedirects body line (.choice line subject (← g.clauses body (← Reader.bound)))
      | t => g.unexpected t
    | some "\x7b" =>
      let _ ← g.next body
      g.withRedirects body line (← g.closedBy body "\x7d")
    | plain =>
      if plain.any (closers ++ ["in"]).contains && plain ≠ some "in" then g.unexpected t
      else if g.dialect.isBash && plain = some "[[" then
        let _ ← g.next body
        let c ← g.condition body (← Reader.bound) 0
        g.expect body "]]"
        g.withRedirects body line (.condition line c)
      else if g.dialect.isBash && plain = some "function" then
        let _ ← g.next body
        match ← g.next body with
        | .word w =>
          if (← g.peek body) = .operator "(" then
            let _ ← g.next body
            g.expectOperator body ")"
          g.function body (w.plain?.getD "")
        | t => g.unexpected t
      else
        let _ ← g.next body
        match plain, ← g.peek body with
        | some name, .operator "(" =>
          if (name.toList.takeWhile (· ≠ '=')).length < name.length then
            g.unexpected (.operator "(")
          let _ ← g.next body
          g.expectOperator body ")"
          if !g.dialect.isBash && !isName name then Reader.fail "Syntax error: Bad function name"
          else g.function body name
        | _, _ => g.simpleFrom body line (← Reader.bound) [w] []
  | t => g.unexpected t

end

end Grammar

/-- Reads one command within `fuel` others. -/
def commandWithin (d : Dialect) : (fuel : Nat) → Reader Command
  | 0 => Reader.fail "too deep"
  | fuel + 1 =>
    let g : Grammar := { dialect := d, one := commandWithin d fuel }
    g.command (g.enclosed fuel)

/-- The commands of the next line; none at the end of a program. -/
def line? (d : Dialect) : Reader (Option Command) := do
  let bound ← Reader.bound
  let g : Grammar := { dialect := d, one := commandWithin d bound }
  let body := g.enclosed bound
  g.skipNewlines body bound
  modify fun s => { s with documents := [], expanding := [] }
  if (← g.peek body) = .final then return none
  else
    let c ← g.lineFrom body bound .nothing
    let s ← get
    return some (c.fill s.documents)

/-- The word that a text is, read as a part of another word. -/
def wordOf (d : Dialect) (mode : Mode) (text : String) : Word :=
  let bound := text.length + 2
  let g : Grammar := { dialect := d, one := commandWithin d bound }
  match (Reader.parts d (g.enclosed bound) mode).run { chars := text.toList } with
  | .ok (w, _) => w
  | .error _ => [.text text true]

/-- The words that a text is made of. -/
def wordsOf (d : Dialect) (text : String) : List Word :=
  let bound := text.length + 2
  let g : Grammar := { dialect := d, one := commandWithin d bound }
  let body := g.enclosed bound
  match (g.itemsFrom body bound []).run { chars := text.toList } with
  | .ok (ws, _) => ws
  | .error _ => []

end Workload.Shell
