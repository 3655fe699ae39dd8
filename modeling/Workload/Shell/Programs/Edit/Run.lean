import Workload.Shell.Programs.Edit.Script

/-!
# Carrying out edits

Lines are taken one by one, and the commands whose addresses they meet are carried out on them.
-/

namespace Workload.Shell.Programs.Edit

/-- How far a script has come. -/
structure Run where
  space : String := ""
  hold : String := ""
  number : Nat := 0
  /-- The lines that are left, each with whether a newline ends it. -/
  rest : List (String × Bool)
  /-- Whether a newline ends the line at hand. -/
  closed : Bool := true
  /-- Whether the output still lacks a newline. -/
  owes : Bool := false
  output : List String := []
  /-- What is to be printed after the line. -/
  later : List String := []
  /-- The steps whose ranges have begun, and where they end if that is known. -/
  ranges : List (Nat × Option Nat) := []
  changed : Bool := false
  lastRegex : Option Regex := none
  files : Named String := []
  code : Option Nat := none

namespace Run

def isLast (r : Run) : Bool := r.rest.isEmpty

def say (text : String) (r : Run) : Run :=
  { r with output := text :: (if r.owes then "\n" :: r.output else r.output), owes := false }

/-- Prints a line as it ended in the input. -/
def sayLine (text : String) (r : Run) : Run :=
  let q := r.say (if r.closed then text ++ "\n" else text)
  { q with owes := !r.closed }

def flush (r : Run) : Run :=
  let q := r.later.foldl (fun r t => r.say t) r
  { q with later := [] }

/-- Goes to the next line. -/
def advance (r : Run) : Option Run :=
  match r.rest with
  | [] => none
  | (l, closed) :: rest => some { r with space := l, closed, rest, number := r.number + 1 }

def put (name text : String) (r : Run) : Run :=
  { r with files := r.files.put name ((r.files.get? name).getD "" ++ text) }

/-- Whether an address is that of the line at hand. -/
def isAt (a : Address) (r : Run) : Bool × Run :=
  match a with
  | .line n => (r.number = n, r)
  | .last => (r.isLast, r)
  | .step first by_ =>
    (if by_ = 0 then r.number = first else first ≤ r.number && (r.number - first) % by_ = 0, r)
  | .found e =>
    match e.or r.lastRegex with
    | none => (false, r)
    | some e => ((Regex.search r.space.toList.toArray e 0).isSome, { r with lastRegex := some e })

/-- Whether a step is for the line at hand. -/
def chosen (i : Nat) (st : Step) (r : Run) : Bool × Run :=
  match st.first with
  | none => (true, r)
  | some a =>
    match st.last with
    | none => r.isAt a
    | some stop =>
      let inside := r.ranges.find? fun e => e.1 = i
      let leave := fun (r : Run) => { r with ranges := r.ranges.filter fun e => e.1 ≠ i }
      match inside with
      | some (_, some n) => (r.number ≤ n, if r.number < n then r else leave r)
      | some (_, none) =>
        match stop with
        | .address b =>
          let (hit, r) := r.isAt b
          (true, if hit then leave r else r)
        | _ => (true, r)
      | none =>
        let zero : Bool := a = .line 0
        let (hit, r) := if zero then (r.number == 1, r) else r.isAt a
        if !hit then (false, r)
        else
          match stop with
          | .plus n =>
            (true, if n = 0 then r else { r with ranges := (i, some (r.number + n)) :: r.ranges })
          | .multiple n =>
            let target := if n = 0 then r.number else (r.number + n - 1) / n * n
            (true, if target ≤ r.number then r else { r with ranges := (i, some target) :: r.ranges })
          | .address (.line n) =>
            (true, if n ≤ r.number then r else { r with ranges := (i, some n) :: r.ranges })
          | .address .last =>
            (true, if r.isLast then r else { r with ranges := (i, none) :: r.ranges })
          | .address b =>
            if zero then
              let (hit, r) := r.isAt b
              (true, if hit then r else { r with ranges := (i, none) :: r.ranges })
            else (true, { r with ranges := (i, none) :: r.ranges })

/-- The text that takes the place of a match. -/
def filled (text : Array Char) (start : Nat) (p : Regex.Progress) (word : List Filler) : String :=
  (word.foldl
    (fun (acc, mode, once) f =>
      match f with
      | .recase c => if c = 'l' || c = 'u' then (acc, mode, some c) else (acc, c, none)
      | f =>
        let t := match f with
          | .text t => t
          | .group n => Regex.groupText text start p n
          | .recase _ => ""
        let t := if mode = 'U' then String.ofList (t.toList.map Char.toUpper)
          else if mode = 'L' then String.ofList (t.toList.map Char.toLower) else t
        let t := match once, t.toList with
          | some 'u', c :: cs => String.ofList (c.toUpper :: cs)
          | some 'l', c :: cs => String.ofList (c.toLower :: cs)
          | _, _ => t
        (acc ++ t, mode, if t.isEmpty then once else none))
    ("", 'E', (none : Option Char))).1

/-- Replaces matches from a position on: the `nth`, and those behind it if all are meant.  A match that is
empty does not follow another one right away. -/
def replaced (text : Array Char) (lower : Array Char) (r : Regex) (word : List Filler) (global : Bool) (nth : Nat) :
    (fuel : Nat) → (count start : Nat) → (last : Option Nat) → List String → Option (List String)
  | 0, _, _, _, _ => none
  | fuel + 1, count, start, last, acc =>
    let tail := fun (i : Nat) => String.ofList (text.extract i text.size).toList
    match Regex.search lower r start with
    | none => if nth ≤ count then some (tail start :: acc) else none
    | some (i, p) =>
      let before := String.ofList (text.extract start i).toList
      if p.position = i && last = some i then
        if i < text.size then
          replaced text lower r word global nth fuel count (i + 1) none
            (String.ofList (text.extract start (i + 1)).toList :: acc)
        else if nth ≤ count then some (tail start :: acc) else none
      else
        let count := count + 1
        let hit := count = nth || (global && nth ≤ count)
        let new := if hit then filled text i p word else String.ofList (text.extract i p.position).toList
        let acc := new :: before :: acc
        if hit && !global then some (tail p.position :: acc)
        else if p.position = i then
          if i < text.size then
            replaced text lower r word global nth fuel count (i + 1) none
              (String.ofList (text.extract i (i + 1)).toList :: acc)
          else if nth ≤ count then some acc else none
        else replaced text lower r word global nth fuel count p.position (some p.position) acc

/-- What a line does next. -/
inductive Then where
  | on
  | jump (place : Nat)
  | finish (prints : Bool)
  | again
  | stop

/-- Carries out an action. -/
def act (silent : Bool) (ss : List Step) (i : Nat) (st : Step) (r : Run) : Then × Run :=
  let goTo := fun (name : String) =>
    if name.isEmpty then Then.finish true
    else
      match ss.findIdx? fun s => s.action = .label name with
      | some i => .jump i
      | none => .finish true
  match st.action with
  | .delete => (.finish false, r)
  | .deleteFirst =>
    match Text.cut? "\n" r.space with
    | some (_, rest) => (.again, { r with space := rest })
    | none => (.finish false, r)
  | .print => (.on, r.sayLine r.space)
  | .printFirst =>
    match Text.cut? "\n" r.space with
    | some (first, _) => (.on, r.say (first ++ "\n"))
    | none => (.on, r.sayLine r.space)
  | .quit code quiet =>
    let r := if quiet || silent then r else r.sayLine r.space
    (.stop, { r with code := some code })
  | .next =>
    if r.isLast then (.finish true, { r with code := some 0 })
    else
      let r := (if silent then r else r.sayLine r.space).flush
      (.on, r.advance.getD r)
  | .nextToo =>
    if r.isLast then (.finish true, { r with code := some 0 })
    else
      let old := r.space
      let r := r.flush
      let r := r.advance.getD r
      (.on, { r with space := old ++ "\n" ++ r.space })
  | .append t => (.on, { r with later := r.later ++ [t] })
  | .insert t => (.on, r.say t)
  | .change t =>
    let inRange := st.last.isSome && !st.negated && (r.ranges.any fun e => e.1 = i)
    (.finish false, if inRange then r else r.say t)
  | .exchange a b =>
    (.on, { r with
      space := String.ofList (r.space.toList.map fun c => if a.contains c then b.getD (a.idxOf c) c else c) })
  | .number => (.on, r.say (toString r.number ++ "\n"))
  | .show_ =>
    let text := String.join (r.space.toList.map fun c => match c with
      | '\\' => "\\\\"
      | '\n' => "\\n"
      | '\t' => "\\t"
      | '\x07' => "\\a"
      | '\x08' => "\\b"
      | '\x0c' => "\\f"
      | '\x0d' => "\\r"
      | '\x0b' => "\\v"
      | c =>
        if ' ' ≤ c && c ≤ '~' then c.toString
        else "\\" ++ toString (c.toNat / 64) ++ toString (c.toNat / 8 % 8) ++ toString (c.toNat % 8))
    (.on, r.say (text ++ "$\n"))
  | .hold => (.on, { r with hold := r.space })
  | .holdToo => (.on, { r with hold := r.hold ++ "\n" ++ r.space })
  | .get => (.on, { r with space := r.hold })
  | .getToo => (.on, { r with space := r.space ++ "\n" ++ r.hold })
  | .swap => (.on, { r with space := r.hold, hold := r.space })
  | .label _ | .close | .nothing => (.on, r)
  | .branch n => (goTo n, r)
  | .branchIf n changed => if r.changed = changed then (goTo n, { r with changed := false }) else (.on, { r with changed := false })
  | .open _ => (.on, r)
  | .read path => (.on, { r with later := r.later ++ ["\x00" ++ path] })
  | .write path => (.on, if path = "/dev/stdout" then r.sayLine r.space else r.put path (r.space ++ "\n"))
  | .clear => (.on, { r with space := "" })
  | .substitute e fold word global nth prints file =>
    match e.or r.lastRegex with
    | none => (.on, r)
    | some e =>
      let r := { r with lastRegex := some e }
      let text := r.space.toList.toArray
      let lower := if fold then text.map Char.toLower else text
      match replaced text lower e word global nth (2 * text.size + 3) 0 0 none [] with
      | none => (.on, r)
      | some parts =>
        let r := { r with space := String.join parts.reverse, changed := true }
        let r := if prints then r.sayLine r.space else r
        (.on, match file with
          | some f => if f = "/dev/stdout" then r.sayLine r.space else r.put f (r.space ++ "\n")
          | none => r)

/-- Carries out the steps of a script from a place on for the line at hand; whether to stop, and whether to
begin again without a new line. -/
def steps (silent : Bool) (ss : List Step) : (fuel : Nat) → Nat → Run → Bool × Bool × Run
  | 0, _, r => (true, false, r)
  | fuel + 1, i, r =>
    match ss[i]? with
    | none => (false, false, if silent then r else r.sayLine r.space)
    | some st =>
      let (hit, r) := r.chosen i st
      if hit = st.negated then
        match st.action with
        | .open _ => steps silent ss fuel (groupEnd ss (ss.length + 1) 0 (i + 1)) r
        | _ => steps silent ss fuel (i + 1) r
      else
        match act silent ss i st r with
        | (.on, r) => steps silent ss fuel (i + 1) r
        | (.jump j, r) => steps silent ss fuel j r
        | (.finish prints, r) =>
          (r.code.isSome, false, if prints && !silent then r.sayLine r.space else r)
        | (.again, r) => (false, true, r)
        | (.stop, r) => (true, false, r)

/-- Carries out a script for the lines that are left. -/
def lines (silent : Bool) (ss : List Step) : (fuel : Nat) → Run → Run
  | 0, r => r
  | fuel + 1, r =>
    match r.advance with
    | none => r
    | some r =>
      let rec again : Nat → Run → Bool × Run
        | 0, r => (true, r)
        | n + 1, r =>
          let (stop, repeat_, r) := steps silent ss 100000 0 { r with changed := false }
          if repeat_ then again n r.flush else (stop, r)
      let (stop, r) := again 10000 r
      let r := r.flush
      if stop then r else lines silent ss fuel r

end Run

/-- The lines of a text, each with whether a newline ends it. -/
def markedLines (text : String) : List (String × Bool) :=
  (closedLines text).map fun l =>
    if l.endsWith "\n" then (String.ofList l.toList.dropLast, true) else (l, false)

/-- Puts the texts of files in the place of their names. -/
def withFiles (s : State) (output : List String) : String :=
  String.join (output.reverse.map fun t =>
    if t.startsWith "\x00" then (s.content? (String.ofList (t.toList.drop 1))).toOption.getD "" else t)

end Workload.Shell.Programs.Edit
