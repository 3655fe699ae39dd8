import Workload.Shell.Command
import Workload.Shell.Token

/-!
# Lists of commands

Commands are put together to pipelines, lists and lines.
-/

namespace Workload.Shell

/-- The words with a meaning of their own at the beginning of a command. -/
def reserved : List String :=
  ["if", "then", "elif", "else", "fi", "while", "until", "for", "do", "done", "in", "case", "esac", "!",
    "\x7b", "\x7d"]

/-- The words that commands other than those of words begin with. -/
def compounds : List String := ["if", "while", "until", "for", "case", "\x7b", "[[", "select"]

/-- The reserved words that end a list of commands. -/
def closers : List String := ["then", "elif", "else", "fi", "do", "done", "esac", "\x7d"]

/-- How a token is named in a message. -/
def Token.describe (d : Dialect) : Token → String
  | .word w =>
    match w.plain? with
    | some s => if d.isBash then "\x60" ++ s ++ "'"
      else if reserved.contains s then "\"" ++ s ++ "\"" else "word"
    | none => if d.isBash then "\x60word'" else "word"
  | .operator o => if d.isBash then "\x60" ++ o ++ "'" else "\"" ++ o ++ "\""
  | .redirect _ o => if d.isBash then "\x60" ++ o ++ "'" else "redirection"
  | .newline => if d.isBash then "\x60newline'" else "newline"
  | .final => "end of file"

/-- What reads commands: single ones, of which lists are made. -/
structure Grammar where
  dialect : Dialect
  one : Reader Command

namespace Grammar

variable (g : Grammar)

/-- Refuses a token where another one is expected, or none is known. -/
def unexpected {α : Type} (t : Token) (expected : Option String := none) : Reader α := do
  let s ← get
  let line := if t = .newline then s.line - 1
    else if t = .final && g.dialect.isBash then s.lastLine
    else s.line
  throw
    { line
      atEnd := t = .final
      text :=
        if g.dialect.isBash then
          if t = .final then "syntax error: unexpected end of file"
          else "syntax error near unexpected token " ++ t.describe g.dialect
        else "Syntax error: " ++ t.describe g.dialect ++ " unexpected" ++
          match expected with
          | some e => " (expecting \"" ++ e ++ "\")"
          | none => "" }

section

variable (body : Reader Unit)

def peek : Reader Token := Reader.peek g.dialect body

def next : Reader Token := Reader.next g.dialect body

/-- Takes off newlines. -/
def skipNewlines : (fuel : Nat) → Reader Unit
  | 0 => return
  | fuel + 1 => do
    if (← g.peek body) = .newline then
      let _ ← g.next body
      skipNewlines fuel

/-- Takes off a word that has to come next. -/
def expect (word : String) : Reader Unit := do
  match ← g.next body with
  | .word w => if w.plain? = some word then return else g.unexpected (.word w) (some word)
  | t => g.unexpected t (some word)

/-- Takes off an operator that has to come next. -/
def expectOperator (o : String) : Reader Unit := do
  let t ← g.next body
  if t = .operator o then return else g.unexpected t (some o)

/-- Takes off the target of a redirection. -/
def redirect (stream : Option Nat) (o : String) : Reader Redirect := do
  match ← g.next body with
  | .word w =>
    if o = "<<" || o = "<<-" then
      let texts := w.map fun p => match p with
        | .text s q => (s, q)
        | .value p _ => ("$" ++ p.name, false)
        | _ => ("", false)
      let stop := String.join (texts.map Prod.fst)
      let s ← get
      let number := s.documents.length + s.waiting.length
      let document : Document := { stop, tabs := o = "<<-", alive := !texts.any Prod.snd }
      set { s with waiting := s.waiting ++ [document] }
      return { stream, operator := o, target := [], document := some number }
    else return { stream, operator := o, target := w }
  | t => g.unexpected t

/-- The redirections that stand here. -/
def redirects : (fuel : Nat) → List Redirect → Reader (List Redirect)
  | 0, acc => return acc.reverse
  | fuel + 1, acc => do
    match ← g.peek body with
    | .redirect stream o =>
      let _ ← g.next body
      redirects fuel ((← g.redirect body stream o) :: acc)
    | _ => return acc.reverse

/-- A command with the redirections that follow it. -/
def withRedirects (line : Nat) (c : Command) : Reader Command := do
  match ← g.redirects body (← Reader.bound) [] with
  | [] => return c
  | rs => return .redirected line c rs

/-- Puts the text of an alias in the place of a word that comes next. -/
def expandAlias : (fuel : Nat) → Reader Unit
  | 0 => return
  | fuel + 1 => do
    match ← g.peek body with
    | .word w =>
      match w.plain? with
      | none => return
      | some name =>
        let s ← get
        match s.aliases.find? fun a => a.1 = name with
        | none => return
        | some (_, text) =>
          if s.expanding.any fun e => e.1 = name && e.2 < s.chars.length then return
          else
            set
              { s with
                ahead := none
                chars := text.toList ++ ' ' :: s.chars
                expanding := (name, s.chars.length) :: s.expanding }
            expandAlias fuel
    | _ => return

/-- The words and redirections of a simple command. -/
def simpleFrom (line : Nat) : (fuel : Nat) → List Word → List Redirect → Reader Command
  | 0, ws, rs => return .simple line ws.reverse rs.reverse
  | fuel + 1, ws, rs => do
    match ← g.peek body with
    | .word w =>
      let _ ← g.next body
      simpleFrom line fuel (w :: ws) rs
    | .redirect stream o =>
      let _ ← g.next body
      simpleFrom line fuel ws ((← g.redirect body stream o) :: rs)
    | _ => return .simple line ws.reverse rs.reverse

/-! ### Lists -/

/-- More commands of a pipeline. -/
def pipedFrom : (fuel : Nat) → Command → Reader Command
  | 0, c => return c
  | fuel + 1, c => do
    match ← g.peek body with
    | .operator "|" =>
      let _ ← g.next body
      g.skipNewlines body (← Reader.bound)
      pipedFrom fuel (.piped c (← g.one))
    | .operator "|&" =>
      let _ ← g.next body
      g.skipNewlines body (← Reader.bound)
      let errors : Redirect :=
        { stream := some 2, operator := ">&", target := [.text "1" false] }
      pipedFrom fuel (.piped (.redirected (← get).line c [errors]) (← g.one))
    | _ => return c

def pipeline : (fuel : Nat) → Reader Command
  | 0 => g.one
  | fuel + 1 => do
    let isWord : Token → String → Bool := fun t s => match t with
      | .word w => w.plain? == some s
      | _ => false
    let t ← g.peek body
    if isWord t "!" then
      let _ ← g.next body
      if !g.dialect.isBash && isWord (← g.peek body) "!" then g.unexpected (← g.peek body)
      return .negated (← pipeline fuel)
    else if g.dialect.isBash && isWord t "time" then
      let _ ← g.next body
      if isWord (← g.peek body) "-p" then
        let _ ← g.next body
      pipeline fuel
    else g.pipedFrom body (← Reader.bound) (← g.one)

/-- Pipelines that depend on how the ones before them end. -/
def andOrFrom : (fuel : Nat) → Command → Reader Command
  | 0, c => return c
  | fuel + 1, c => do
    match ← g.peek body with
    | .operator "&&" =>
      let _ ← g.next body
      g.skipNewlines body (← Reader.bound)
      andOrFrom fuel (.both c (← g.pipeline body (← Reader.bound)))
    | .operator "||" =>
      let _ ← g.next body
      g.skipNewlines body (← Reader.bound)
      andOrFrom fuel (.either c (← g.pipeline body (← Reader.bound)))
    | _ => return c

def andOr : Reader Command := do
  g.andOrFrom body (← Reader.bound) (← g.pipeline body (← Reader.bound))

/-- Whether a list of commands ends here. -/
def endsList : Token → Bool
  | .final => true
  | .operator o => o = ")" || o = ";;" || o = ";&" || o = ";;&"
  | .word w => w.plain?.any closers.contains
  | _ => false

/-- A list of commands behind `acc`, up to what cannot go on with it. -/
def listFrom : (fuel : Nat) → Command → Reader Command
  | 0, acc => return acc
  | fuel + 1, acc => do
    g.skipNewlines body (← Reader.bound)
    if endsList (← g.peek body) then return acc
    else
      let c ← g.andOr body
      let join := fun (c : Command) => match acc with
        | .nothing => c
        | acc => .sequence acc c
      match ← g.peek body with
      | .operator ";" | .newline =>
        let _ ← g.next body
        listFrom fuel (join c)
      | .operator "&" =>
        let _ ← g.next body
        listFrom fuel (join (.background c))
      | _ => return join c

/-- A list of commands that is not empty. -/
def list : Reader Command := do
  match ← g.listFrom body (← Reader.bound) .nothing with
  | .nothing => g.unexpected (← g.peek body)
  | c => return c

/-- The rest of the commands of a line behind `acc`. -/
def lineFrom : (fuel : Nat) → Command → Reader Command
  | 0, acc => return acc
  | fuel + 1, acc => do
    let c ← g.andOr body
    let join := fun (c : Command) => match acc with
      | .nothing => c
      | acc => .sequence acc c
    let go := fun (c : Command) => do
      match ← g.peek body with
      | .newline =>
        let _ ← g.next body
        return c
      | .final => return c
      | _ => lineFrom fuel c
    match ← g.peek body with
    | .operator ";" =>
      let _ ← g.next body
      go (join c)
    | .operator "&" =>
      let _ ← g.next body
      go (join (.background c))
    | .newline =>
      let _ ← g.next body
      return join c
    | .final => return join c
    | t => g.unexpected t

end

end Grammar

end Workload.Shell
