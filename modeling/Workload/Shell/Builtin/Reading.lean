import Workload.Shell.Builtin.Basic

/-!
# Commands that read

Lines that are read are split into variables or put into arrays.
-/

namespace Workload.Shell

namespace State

/-- Takes a line off; what it holds, with the characters that a backslash has quoted, whether it ends, and
how many bytes it has. -/
def takeLine (raw : Bool) (stop : Char) (limit : Option Nat) : List Char → Cells → Nat → Cells × Bool × Nat
  | [], acc, n => (acc.reverse, limit.any (· ≤ acc.length), n)
  | c :: cs, acc, n =>
    if limit.any (· ≤ acc.length) then (acc.reverse, true, n)
    else if c = stop then (acc.reverse, true, n + 1)
    else if c = '\\' && !raw then
      match cs with
      | [] => (acc.reverse, false, n + 1)
      | d :: rest =>
        if d = '\n' then takeLine raw stop limit rest acc (n + 2)
        else takeLine raw stop limit rest ((d, true) :: acc) (n + 2)
    else if c = '\x00' then takeLine raw stop limit cs acc (n + 1)
    else takeLine raw stop limit cs ((c, false) :: acc) (n + 1)

/-- Takes the next field off, which is all there is for the last name. -/
def takeField (separators : List Char) (isLast : Bool) (s : Cells) : Cells × Cells :=
  let blank := fun (c : Char × Bool) => !c.2 && (c.1 = ' ' || c.1 = '\t' || c.1 = '\n') && separators.contains c.1
  let separates := fun (c : Char × Bool) => !c.2 && separators.contains c.1
  let s := s.dropWhile blank
  let field := s.takeWhile fun c => !separates c
  let behind := (s.drop field.length).dropWhile blank
  let rest := match behind with
    | c :: cs => if separates c then cs.dropWhile blank else behind
    | [] => []
  if isLast then
    if rest.isEmpty then (field, [])
    else ((s.reverse.dropWhile blank).reverse, [])
  else (field, rest)

def fill (separators : List Char) : List String → Cells → State → State
  | [], _, s => s
  | [n], cs, s => s.assign n (Cells.text (takeField separators true cs).1)
  | n :: ns, cs, s =>
    let (field, rest) := takeField separators false cs
    fill separators ns rest (s.assign n (Cells.text field))

/-- How a line is to be read. -/
structure ReadOptions where
  raw : Bool := false
  stop : Char := '\n'
  limit : Option Nat := none
  /-- Whether nothing but the number of characters ends it. -/
  exactly : Bool := false
  array : Option String := none
  stream : Nat := 0
  names : List String := []

/-- The options of `read`; what is wrong with them otherwise. -/
def readOptions (isBash : Bool) : (fuel : Nat) → List String → ReadOptions → Except String ReadOptions
  | 0, _, o => .ok o
  | _, [], o => .ok o
  | fuel + 1, a :: rest, o =>
    match a.toList with
    | ['-', '-'] => .ok { o with names := rest }
    | '-' :: c :: more =>
      let argument := if more.isEmpty then rest.headD "" else String.ofList more
      let behind := if more.isEmpty then rest.tail else rest
      let next := if more.isEmpty then rest else String.ofList ('-' :: more) :: rest
      if c = 'r' then readOptions isBash fuel next { o with raw := true }
      else if c = 'p' then readOptions isBash fuel behind o
      else if !isBash then .error ("Illegal option -" ++ c.toString)
      else
        match c with
        | 's' | 'e' => readOptions isBash fuel next o
        | 'n' => readOptions isBash fuel behind { o with limit := Text.natOf? 10 argument.toList }
        | 'N' =>
          readOptions isBash fuel behind
            { o with limit := Text.natOf? 10 argument.toList, exactly := true }
        | 'd' => readOptions isBash fuel behind { o with stop := argument.toList.headD '\x00' }
        | 'a' => readOptions isBash fuel behind { o with array := some argument }
        | 't' | 'i' => readOptions isBash fuel behind o
        | 'u' => readOptions isBash fuel behind { o with stream := (Text.natOf? 10 argument.toList).getD 0 }
        | _ => .error ("-" ++ c.toString ++ ": invalid option")
    | _ => .ok { o with names := a :: rest }

def read (args : List String) (s : State) : State :=
  match readOptions s.isBash (2 * args.length + String.length (String.join args) + 2) args {} with
  | .error m => s.refuse "read" m 2
  | .ok o =>
    match o.names.find? fun n => !isName n with
    | some n =>
      if s.isBash then (s.warn ("read: \x60" ++ n ++ "': not a valid identifier")).finish 1
      else s.refuse "read" (n ++ ": bad variable name") 1
    | none =>
      if !s.isBash && o.names.isEmpty then s.refuse "read" "arg count" 2
      else
        match s.unread o.stream with
        | none =>
          if s.isBash then
            (s.warn ("read: read error: " ++ toString o.stream ++ ": Bad file descriptor")).finish 1
          else s.finish 1
        | some text =>
          let stop := if o.exactly then '\uFFFF' else o.stop
          let (cells, ended, n) := takeLine o.raw stop o.limit text [] 0
          let s := (s.consume o.stream n).finish (if ended then 0 else 1)
          let code := s.status
          let s := match o.array with
            | some a =>
              let fields := fieldsOf s.separators (cells.map fun c => .text c.1.toString c.2 (!c.2))
              let fields := (fields.map Cells.text).filter fun f => !f.isEmpty
              s.put a { content := .list (fields.zipIdx.map fun f => (f.2, f.1)) }
            | none =>
              if o.names.isEmpty then s.assign "REPLY" (Cells.text cells)
              else if o.exactly then
                o.names.tail.foldl (fun s n => s.assign n "") (s.assign (o.names.headD "") (Cells.text cells))
              else fill s.separators o.names cells s
          if s.flow.isSome then s else s.finish code

/-- How lines are to be read into an array. -/
structure LinesOptions where
  trims : Bool := false
  stop : Char := '\n'
  /-- How many lines are read, how many are left out before them, and the index of the first one. -/
  count : Nat := 0
  skip : Nat := 0
  origin : Option Nat := none
  stream : Nat := 0
  name : String := "MAPFILE"

/-- The options of `mapfile`; what is wrong with them otherwise. -/
def linesOptions : (fuel : Nat) → List String → LinesOptions → Except String LinesOptions
  | 0, _, o => .ok o
  | _, [], o => .ok o
  | fuel + 1, a :: rest, o =>
    match a.toList with
    | ['-', '-'] => .ok { o with name := rest.headD "MAPFILE" }
    | '-' :: 't' :: more =>
      linesOptions fuel (if more.isEmpty then rest else String.ofList ('-' :: more) :: rest) { o with trims := true }
    | '-' :: c :: more =>
      let argument := if more.isEmpty then rest.headD "" else String.ofList more
      let behind := if more.isEmpty then rest.tail else rest
      let number := (Text.natOf? 10 argument.toList).getD 0
      match c with
      | 'd' => linesOptions fuel behind { o with stop := argument.toList.headD '\x00' }
      | 'n' => linesOptions fuel behind { o with count := number }
      | 's' => linesOptions fuel behind { o with skip := number }
      | 'O' => linesOptions fuel behind { o with origin := some number }
      | 'u' => linesOptions fuel behind { o with stream := number }
      | 'C' | 'c' => linesOptions fuel behind o
      | _ => .error ("-" ++ c.toString ++ ": invalid option")
    | _ => .ok { o with name := a }

/-- Reads lines into an array. -/
def mapfile (args : List String) (s : State) : State :=
  match linesOptions (args.length + (String.join args).length + 1) args {} with
  | .error m => (s.warn ("mapfile: " ++ m)).finish 2
  | .ok o =>
    match s.unread o.stream with
    | none =>
      (s.warn ("mapfile: " ++ toString o.stream ++ ": invalid file descriptor: Bad file descriptor")).finish 1
    | some text =>
      let pieces := Text.pieces o.stop (String.ofList text)
      let lines := (pieces.dropLast.map fun p => (p, true)) ++
        match pieces.getLast? with
        | some "" | none => []
        | some p => [(p, false)]
      let lines := if o.count = 0 then lines else lines.take (o.skip + o.count)
      let used := lines.foldl (fun n l => n + l.1.length + (if l.2 then 1 else 0)) 0
      let items := (lines.drop o.skip).zipIdx.map fun (l, i) =>
        (i + o.origin.getD 0, if l.2 && !o.trims then l.1.push o.stop else l.1)
      let old := match o.origin, (s.varOf? o.name).map Variable.content with
        | some _, some (.list old) => old.filter fun e => !(items.any fun i => i.1 = e.1)
        | _, _ => []
      ((s.consume o.stream used).put o.name { content := .list (old ++ items) }).finish 0

end State

end Workload.Shell
