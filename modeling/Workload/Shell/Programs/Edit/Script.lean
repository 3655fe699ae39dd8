import Workload.Shell.Programs.Basic
import Workload.Shell.Regex

/-!
# Scripts of edits

The commands of a stream editor, and how they are written.
-/

namespace Workload.Shell.Programs.Edit

/-! ### Scripts -/

inductive Address where
  | line (n : Nat)
  | last
  /-- A line with a match; without an expression, with one of the expression used last. -/
  | found (r : Option Regex)
  | step (first by_ : Nat)
  deriving DecidableEq, Repr

/-- Where a range ends. -/
inductive RangeEnd where
  | address (a : Address)
  | plus (n : Nat)
  | multiple (n : Nat)
  deriving DecidableEq, Repr

/-- A part of what takes the place of a match. -/
inductive Filler where
  | text (s : String)
  | group (n : Nat)
  /-- A change of the case of what follows. -/
  | recase (c : Char)
  deriving DecidableEq, Repr

inductive Action where
  | substitute (r : Option Regex) (fold : Bool) (word : List Filler) (global : Bool) (nth : Nat) (prints : Bool)
    (file : Option String)
  | delete
  | deleteFirst
  | print
  | printFirst
  | quit (code : Nat) (silent : Bool)
  | next
  | nextToo
  | append (text : String)
  | insert (text : String)
  | change (text : String)
  | exchange (a b : List Char)
  | number
  | show_
  | hold
  | holdToo
  | get
  | getToo
  | swap
  | label (name : String)
  | branch (name : String)
  | branchIf (name : String) (changed : Bool)
  /-- A group of commands, which ends at a place in the script. -/
  | «open» (stop : Nat)
  | close
  | read (path : String)
  | write (path : String)
  | clear
  | nothing
  deriving DecidableEq, Repr

structure Step where
  first : Option Address := none
  last : Option RangeEnd := none
  negated : Bool := false
  action : Action
  deriving DecidableEq, Repr

/-! ### Reading scripts -/

/-- The text up to a delimiter that is not escaped and not in a set; an escaped one stands for itself. -/
def untilDelimiter (d : Char) (sets : Bool) : (fuel : Nat) → (inSet : Bool) → List Char → List Char →
    Option (List Char × List Char)
  | 0, _, _, _ => none
  | _, _, _, [] => none
  | fuel + 1, inSet, acc, c :: cs =>
    if c = d && !inSet then some (acc.reverse, cs)
    else if c = '\\' && !inSet then
      match cs with
      | e :: rest =>
        if e = d then untilDelimiter d sets fuel inSet (e :: acc) rest
        else if e = '\n' then untilDelimiter d sets fuel inSet ('\n' :: '\\' :: acc) rest
        else untilDelimiter d sets fuel inSet (e :: '\\' :: acc) rest
      | [] => none
    else if sets && c = '[' && !inSet then
      -- a bracket right after the start of a set belongs to it
      match cs with
      | '^' :: ']' :: rest => untilDelimiter d sets fuel true (']' :: '^' :: c :: acc) rest
      | ']' :: rest => untilDelimiter d sets fuel true (']' :: c :: acc) rest
      | _ => untilDelimiter d sets fuel true (c :: acc) cs
    else if c = '[' && inSet && cs.head? = some ':' then
      let name := cs.takeWhile (· ≠ ']')
      untilDelimiter d sets fuel true (']' :: name.reverse ++ c :: acc) (cs.drop (name.length + 1))
    else if c = ']' && inSet then untilDelimiter d sets fuel false (c :: acc) cs
    else untilDelimiter d sets fuel inSet (c :: acc) cs

/-- The parts of what takes the place of a match. -/
def fillers : (fuel : Nat) → String → List Char → List Filler
  | 0, acc, _ => [.text acc]
  | _, acc, [] => if acc.isEmpty then [] else [.text acc]
  | fuel + 1, acc, c :: cs =>
    let flush := fun (rest : List Filler) => if acc.isEmpty then rest else .text acc :: rest
    if c = '&' then flush (.group 0 :: fillers fuel "" cs)
    else if c = '\\' then
      match cs with
      | d :: rest =>
        if d.isDigit then flush (.group (d.toNat - 48) :: fillers fuel "" rest)
        else if d = 'n' then fillers fuel (acc.push '\n') rest
        else if d = 't' then fillers fuel (acc.push '\t') rest
        else if d = 'L' || d = 'U' || d = 'l' || d = 'u' || d = 'E' then flush (.recase d :: fillers fuel "" rest)
        else fillers fuel (acc.push d) rest
      | [] => flush [.text "\\"]
    else fillers fuel (acc.push c) cs

def blanks (s : List Char) : List Char := s.dropWhile fun c => c = ' ' || c = '\t'

/-- An address at the start of a text, and what follows it. -/
def address? (extended : Bool) (s : List Char) : Option (Address × List Char) :=
  match s with
  | '$' :: rest => some (.last, rest)
  | c :: rest =>
    if c.isDigit then
      let ds := s.takeWhile Char.isDigit
      let n := (Text.natOf? 10 ds).getD 0
      match s.drop ds.length with
      | '~' :: more =>
        let es := more.takeWhile Char.isDigit
        some (.step n ((Text.natOf? 10 es).getD 0), more.drop es.length)
      | more => some (.line n, more)
    else if c = '/' || (c = '\\' && !rest.isEmpty) then
      let (d, body) := if c = '/' then ('/', rest) else (rest.headD '/', rest.tail)
      match untilDelimiter d true (body.length + 1) false [] body with
      | none => none
      | some (text, more) =>
        let (fold, more) := match more with
          | 'I' :: more => (true, more)
          | more => (false, more)
        if text.isEmpty then some (.found none, more)
        else
          let text := if fold then text.map Char.toLower else text
          (Regex.read? extended (String.ofList text)).map fun r => (.found (some r), more)
    else none
  | [] => none

/-- The text of `a`, `i` or `c`, and what follows it. -/
def textArgument (s : List Char) : String × List Char :=
  let s := blanks s
  let s := match s with
    | '\\' :: '\n' :: rest => rest
    | '\\' :: rest => blanks rest
    | s => s
  let rec go : Nat → List Char → List Char → List Char × List Char
    | 0, acc, s => (acc.reverse, s)
    | _, acc, [] => (acc.reverse, [])
    | n + 1, acc, c :: cs =>
      if c = '\n' then (acc.reverse, cs)
      else if c = '\\' then
        match cs with
        | d :: rest => go n (d :: acc) rest
        | [] => (acc.reverse, [])
      else go n (c :: acc) cs
  let (text, rest) := go (s.length + 1) [] s
  (String.ofList text ++ "\n", rest)

/-- A name up to the end of a command. -/
def nameArgument (s : List Char) (stops : Bool) : String × List Char :=
  let s := blanks s
  let name := s.takeWhile fun c => c ≠ '\n' && !(stops && (c = ';' || c = '\x7d'))
  (String.ofList (name.reverse.dropWhile fun c => c = ' ' || c = '\t').reverse, s.drop name.length)

/-- The flags of a substitution. -/
structure Flags where
  global : Bool := false
  prints : Bool := false
  fold : Bool := false
  nth : Nat := 1
  file : Option String := none

def flags : (fuel : Nat) → Flags → List Char → Flags × List Char
  | 0, f, s => (f, s)
  | _, f, [] => (f, [])
  | fuel + 1, f, c :: cs =>
    match c with
    | 'g' => flags fuel { f with global := true } cs
    | 'p' => flags fuel { f with prints := true } cs
    | 'i' | 'I' => flags fuel { f with fold := true } cs
    | 'm' | 'M' | 'e' => flags fuel f cs
    | 'w' =>
      let (name, rest) := nameArgument cs false
      ({ f with file := some name }, rest)
    | _ =>
      if c.isDigit then
        let ds := (c :: cs).takeWhile Char.isDigit
        flags fuel { f with nth := (Text.natOf? 10 ds).getD 1 } ((c :: cs).drop ds.length)
      else (f, c :: cs)

/-- The action that a text begins with, and what follows it. -/
def action? (extended : Bool) (s : List Char) : Except String (Action × List Char) :=
  match s with
  | [] => .error "missing command"
  | c :: cs =>
    let simple := fun (a : Action) => Except.ok (a, cs)
    let named := fun (f : String → Action) =>
      let (name, rest) := nameArgument cs true
      Except.ok (f name, rest)
    let filed := fun (f : String → Action) =>
      let (name, rest) := nameArgument cs false
      Except.ok (f name, rest)
    match c with
    | 'd' => simple .delete
    | 'D' => simple .deleteFirst
    | 'p' => simple .print
    | 'P' => simple .printFirst
    | 'n' => simple .next
    | 'N' => simple .nextToo
    | '=' => simple .number
    | 'l' => simple .show_
    | 'h' => simple .hold
    | 'H' => simple .holdToo
    | 'g' => simple .get
    | 'G' => simple .getToo
    | 'x' => simple .swap
    | 'z' => simple .clear
    | '\x7b' => simple (.open 0)
    | '\x7d' => simple .close
    | 'q' | 'Q' =>
      let s := blanks cs
      let ds := s.takeWhile Char.isDigit
      .ok (.quit ((Text.natOf? 10 ds).getD 0) (c = 'Q'), s.drop ds.length)
    | 'a' =>
      let (t, rest) := textArgument cs
      .ok (.append t, rest)
    | 'i' =>
      let (t, rest) := textArgument cs
      .ok (.insert t, rest)
    | 'c' =>
      let (t, rest) := textArgument cs
      .ok (.change t, rest)
    | ':' => named .label
    | 'b' => named .branch
    | 't' => named fun n => .branchIf n true
    | 'T' => named fun n => .branchIf n false
    | 'r' => filed .read
    | 'w' => filed .write
    | '#' => .ok (.nothing, cs.dropWhile (· ≠ '\n'))
    | 'y' =>
      match cs with
      | d :: body =>
        match untilDelimiter d false (body.length + 1) false [] body with
        | some (a, rest) =>
          match untilDelimiter d false (rest.length + 1) false [] rest with
          | some (b, rest) =>
            let plain := fun (cs : List Char) => (String.ofList cs |> Text.replaceAll "\\n" "\n" |> Text.replaceAll "\\\\" "\\").toList
            if (plain a).length = (plain b).length then .ok (.exchange (plain a) (plain b), rest)
            else .error "strings for \x60y' command are different lengths"
          | none => .error "unterminated \x60y' command"
        | none => .error "unterminated \x60y' command"
      | [] => .error "unterminated \x60y' command"
    | 's' =>
      match cs with
      | d :: body =>
        match untilDelimiter d true (body.length + 1) false [] body with
        | some (pattern, rest) =>
          match untilDelimiter d false (rest.length + 1) false [] rest with
          | some (word, rest) =>
            let (f, rest) := flags (rest.length + 1) {} rest
            let make := fun (r : Option Regex) =>
              Except.ok (Action.substitute r f.fold (fillers (word.length + 1) "" word) f.global f.nth f.prints f.file, rest)
            if pattern.isEmpty then make none
            else
              let pattern := if f.fold then pattern.map Char.toLower else pattern
              match Regex.read? extended (String.ofList pattern) with
              | some r => make (some r)
              | none => .error "Invalid regular expression"
          | none => .error "unterminated \x60s' command"
        | none => .error "unterminated \x60s' command"
      | [] => .error "unterminated \x60s' command"
    | c => .error ("unknown command: \x60" ++ c.toString ++ "'")

/-- The steps of a script. -/
def steps (extended : Bool) : (fuel : Nat) → List Char → List Step → Except String (List Step)
  | 0, _, acc => .ok acc.reverse
  | fuel + 1, s, acc => do
    let s := s.dropWhile fun c => c = ' ' || c = '\t' || c = '\n' || c = ';'
    if s.isEmpty then return acc.reverse
    else
      let (first, rest) := match address? extended s with
        | some (a, rest) => (some a, blanks rest)
        | none => (none, s)
      let (last, rest) : Option RangeEnd × List Char := match first, rest with
        | some _, ',' :: more =>
          let more := blanks more
          match more with
          | '+' :: ds =>
            let n := ds.takeWhile Char.isDigit
            (some (.plus ((Text.natOf? 10 n).getD 0)), ds.drop n.length)
          | '~' :: ds =>
            let n := ds.takeWhile Char.isDigit
            (some (.multiple ((Text.natOf? 10 n).getD 0)), ds.drop n.length)
          | more =>
            match address? extended more with
            | some (a, rest) => (some (.address a), rest)
            | none => (none, more)
        | _, rest => (none, rest)
      let rest := blanks rest
      let (negated, rest) := match rest with
        | '!' :: more => (true, blanks more)
        | rest => (false, rest)
      let (action, rest) ← action? extended rest
      let behind := blanks rest
      let ends := match action, behind with
        | .open _, _ | .append _, _ | .insert _, _ | .change _, _ | .nothing, _ => true
        | _, [] => true
        | _, c :: _ => c = ';' || c = '\n' || c = '\x7d' || c = '#'
      if !ends then throw "unknown option to \x60s'"
      else steps extended fuel rest ({ first, last, negated, action } :: acc)

/-- The place behind the end of the group that begins before a place. -/
def groupEnd (ss : List Step) : (fuel depth : Nat) → Nat → Nat
  | 0, _, i => i
  | fuel + 1, depth, i =>
    match ss[i]? with
    | none => i
    | some s =>
      match s.action with
      | .open _ => groupEnd ss fuel (depth + 1) (i + 1)
      | .close => if depth = 0 then i + 1 else groupEnd ss fuel (depth - 1) (i + 1)
      | _ => groupEnd ss fuel depth (i + 1)

end Workload.Shell.Programs.Edit
