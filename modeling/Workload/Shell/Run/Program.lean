import Workload.Shell.Builtin

/-!
# Programs within a shell

Programs are carried out line by line, what is to be done about signals in between, and what takes the
place of a command in a copy of the shell.
-/

namespace Workload.Shell

/-- Carries out a command; `tested` tells that somebody asks whether it fails. -/
abbrev Exec := (tested : Bool) → Command → State → State

section

variable (exec : Exec)

/-- What is wrong with a program that begins in a line, and how its shell ends. -/
def syntaxFault (f : SyntaxFault) (where_ text : String) (line : Nat) (s : State) : State :=
  if s.isBash then
    let name := if where_.isEmpty then s.title ++ ": -c" else s.title ++ ": " ++ where_
    let place := name ++ ": line " ++ toString f.line ++ ": "
    let s := s.complain (place ++ f.text)
    let s := if f.text.startsWith "syntax error near" then
        s.complain (place ++ "\x60" ++ (Text.pieces '\n' text).getD (f.line - line) "" ++ "'")
      else s
    s.finish 2
  else
    let text := if f.text.startsWith "Syntax error" then f.text else "Syntax error: " ++ f.text
    let context := if where_.isEmpty then "" else where_ ++ ": "
    ((s.complain (s.title ++ ": " ++ toString f.line ++ ": " ++ context ++ text)).finish 2).ends .failed

/-- Carries out a program line by line. -/
def runLines (tested : Bool) (where_ text : String) (line : Nat) : (fuel : Nat) → Source → State → State
  | 0, _, s => s
  | fuel + 1, source, s =>
    if s.flow.isSome || s.has "noexec" then s
    else
      let aliases := if s.isBash && !s.has "expand_aliases" then [] else s.aliases
      match (line? s.dialect).run { source with aliases } with
      | .error f =>
        let s := syntaxFault f where_ text line s
        if s.isBash && where_.isEmpty then s.ends (.exited 2) else s
      | .ok (none, _) => s
      | .ok (some c, rest) =>
        let read := source.chars.take (source.chars.length - rest.chars.length)
        let s := if s.isBash && s.has "verbose" then
            s.complain (String.ofList (if read.getLast? = some '\n' then read.dropLast else read))
          else s
        let s := exec tested c s
        let s := if s.flow = some .abandoned && !s.isCopy then { s with flow := none } else s
        runLines tested where_ text line fuel rest s

/-- Carries out a program that begins in a line. -/
def runText (tested : Bool) (where_ : String) (line : Nat) (text : String) (s : State) : State :=
  let chars := text.toList
  let lastLine := line + chars.count '\n' + if chars.getLast? = some '\n' then 0 else 1
  let t := runLines exec tested where_ text line (chars.length + 2) { chars, line, lastLine }
    { s with level := s.level + 1 }
  { t with level := s.level }

/-- Does what is to be done about the signals that have come. -/
def settle (s : State) : State :=
  s.pending.foldl
    (fun s name => match s.traps.get? name with
      | some action =>
        if s.flow.isSome then s
        else
          let t := runText exec false "" 1 action { s with pending := [] }
          if t.flow.isSome then t else { t with status := s.status, line := s.line }
      | none => s)
    { s with pending := [] }

/-- Does what is to be done when a shell ends. -/
def atExit (s : State) : State :=
  match s.flow with
  | some (.killed _) => s
  | flow =>
    match s.traps.get? "EXIT" with
    | none => s
    | some action =>
      let code := match flow with
        | some (.exited n) => n
        | _ => s.status
      let s := { s with traps := s.traps.filter (fun t => t.1 ≠ "EXIT"), flow := none, status := code, sources := 1 }
      let t := runText exec false "" 1 action s
      match t.flow with
      | some (.exited _) | some (.killed _) => t
      | some .failed => t.ends (.exited 2)
      | _ => t.ends (.exited code)

/-- Carries out something in a copy of a shell. -/
def inCopy (act : State → State) (s : State) : State :=
  (s.after (atExit exec (act s.copy))).receiveAll

/-- The file that a command without a name reads. -/
def readsFile? (s : State) (source : String) : Option Word :=
  if s.isBash then
    match (line? s.dialect).run { chars := source.toList } with
    | .ok (some (.simple _ [] [r]), rest) =>
      if r.operator = "<" && rest.chars.isEmpty then some r.target else none
    | _ => none
  else none

/-- Carries out a program in a copy of a shell; what it prints. -/
def captureAt : (fuel : Nat) → Capture
  | 0, _, _, s => ("", s)
  | fuel + 1, line, source, s =>
    match readsFile? s source with
    | some w =>
      let (path, s) := expandText (captureAt fuel) w s
      match s.readPath path with
      | .ok (text, s) => (text, { s with substituted := some 0 })
      | .error e => ("", (s.warn (path ++ ": " ++ reason e)).finish 1 |> fun s => { s with substituted := some 1 })
    | none =>
      let (n, sys) := s.sys.open (.written [])
      let inner := { s with sys, flow := none }.copy.connect 1 n
      let inner := if s.isBash && !s.has "posix" then inner.setOption "errexit" false else inner
      let t := atExit exec (runText exec false "command substitution" line source inner)
      let text := t.sys.writtenTo n
      let status := if s.isBash then t.code else s.status
      (text, { s with sys := t.sys.drop n, substituted := some t.code, status }.receiveAll)

def capture : Capture := captureAt exec 100

end

/-!
## What precedes a command

Commands are shown before they are carried out, if that is wanted, and bash has a trap for that time.
-/

/-- A word as `set -x` shows it. -/
def tracedWord (isBash : Bool) (w : String) : String :=
  let odd := fun (c : Char) => " \t\n'\"\\|&;()<>!*[?]^$\x60\x7b\x7d".toList.contains c
  let atStart := match w.toList with
    | '#' :: _ | '~' :: _ => true
    | cs => (Text.cutAt ['=', '~'] cs).isSome || (Text.cutAt [':', '~'] cs).isSome
  if !isBash then w
  else if w.isEmpty then "''"
  else if State.needsEscapes w || atStart || w.toList.any odd then State.bashQuoted w
  else w

/-- Shows a line before it is carried out. -/
def traceLine (text : String) (s : State) : State :=
  if s.has "xtrace" then
    let mark := ((s.text? "PS4").getD "+ ").toList
    let mark := if s.isBash then List.replicate (s.level - 1) (mark.headD ' ') ++ mark else mark
    s.complain (String.ofList mark ++ text)
  else s

/-- Shows a command before it is carried out. -/
def trace (words : List String) (s : State) : State :=
  if words.isEmpty then s
  else traceLine (String.intercalate " " (words.map (tracedWord s.isBash))) s

section

variable (exec : Exec)

/-- Does what is to be done before a command. -/
def beforeCommand (text : String) (s : State) : State :=
  if !s.isBash || s.trapping then s
  else
    let s := s.force "BASH_COMMAND" text
    match s.traps.get? "DEBUG" with
    | some action =>
      if s.frames.isEmpty || s.has "functrace" then
        let t := runText exec false "" s.line action { s with trapping := true }
        if t.flow.isSome then t else { t with status := s.status, line := s.line, trapping := false }
      else s
    | none => s

end

end Workload.Shell
