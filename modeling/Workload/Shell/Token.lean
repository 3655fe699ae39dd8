import Workload.Shell.Reader

/-!
# Reading tokens

Words, operators and redirections, and the documents that follow a line.
-/

namespace Workload.Shell

namespace Reader

section

variable (d : Dialect) (body : Reader Unit)

/-- Goes on to the next token in the line. -/
def skipBlanks : (fuel : Nat) → Reader Unit
  | 0 => return
  | fuel + 1 => do
    match ← chars with
    | c :: cs =>
      if c = ' ' || c = '\t' then
        drop 1
        skipBlanks fuel
      else if c = '\\' && cs.head? = some '\n' then
        drop 2
        skipBlanks fuel
      else if c = '#' then drop (1 + (cs.takeWhile (· ≠ '\n')).length)
      else return
    | [] => return

/-- The lines of a document, and what follows it. -/
def documentLines (w : Document) : (fuel : Nat) → List Char → List Char → List Char × List Char
  | 0, acc, s => (acc, s)
  | _, acc, [] => (acc, [])
  | fuel + 1, acc, s =>
    let s := if w.tabs then s.dropWhile (· = '\t') else s
    let line := s.takeWhile (· ≠ '\n')
    let rest := s.drop line.length
    if String.ofList line = w.stop then (acc, rest.drop 1)
    else documentLines w fuel (acc ++ line ++ if d.isBash then ['\n'] else rest.take 1) (rest.drop 1)

/-- Reads the documents that follow a line. -/
def readDocuments : List Document → Reader Unit
  | [] => modify fun s => { s with waiting := [] }
  | w :: ws => do
    let s ← get
    let (text, rest) := documentLines d w (s.chars.length + 1) [] s.chars
    let word ←
      if w.alive then do
        set { s with chars := text }
        let word ← parts d body .document
        pure word
      else pure [.text (String.ofList text) true]
    set { s with documents := s.documents ++ [word] }
    drop (s.chars.length - rest.length)
    readDocuments ws

/-- The operators that stand for themselves, the longer ones first. -/
def operatorTokens : List String :=
  if d.isBash then [";;&", ";&", "|&", "&&", "||", ";;", ";", "&", "|", "(", ")"]
  else ["&&", "||", ";;", ";", "&", "|", "(", ")"]

/-- The operators that redirect a stream, the longer ones first. -/
def redirectTokens : List String :=
  if d.isBash then ["<<<", "<<-", "&>>", "&>", "<<", "<&", "<>", "<", ">>", ">&", ">|", ">"]
  else ["<<-", "<<", "<&", "<>", "<", ">>", ">&", ">|", ">"]

/-- The name that a text begins with. -/
def leading? (names : List String) (s : List Char) : Option String :=
  names.find? fun o => o.toList.isPrefixOf s

/-- Reads the next token. -/
def token : Reader Token := do
  skipBlanks (← bound)
  let s ← chars
  match s with
  | [] => return .final
  | '\n' :: _ =>
    drop 1
    readDocuments d body (← get).waiting
    return .newline
  | c :: cs =>
    let number := s.takeWhile Char.isDigit
    let behind := s.drop number.length
    match leading? (redirectTokens d) behind with
    | some o =>
      if d.isBash && number.isEmpty && (o = "<" || o = ">") && cs.head? = some '(' then
        drop 2
        let (line, source) ← enclosed d body
        let p := Part.stream line source (c = '<')
        return .word (← partsFrom d body (← bound) .bare [p])
      else if o.startsWith "&" && !number.isEmpty then return .word (← wordHere d body)
      else
        drop (number.length + o.length)
        return .redirect (String.ofList number).toNat? o
    | none =>
      match leading? (operatorTokens d) s with
      | some o =>
        drop o.length
        return .operator o
      | none => return .word (← wordHere d body)

/-- The next token, which is left there. -/
def peek : Reader Token := do
  match (← get).ahead with
  | some t => return t
  | none =>
    let t ← token d body
    modify fun s => { s with ahead := some t }
    return t

/-- Takes off the next token. -/
def next : Reader Token := do
  let t ← peek d body
  modify fun s => { s with ahead := none }
  return t

end

end Reader

end Workload.Shell
