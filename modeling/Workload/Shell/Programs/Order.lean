import Workload.Shell.Programs.Basic

/-!
# Programs for the order of lines

Lines are put in order, and compared with their neighbours.
-/

namespace Workload.Shell.Programs

/-- The number that a line begins with, as it is compared: scaled by a million. -/
def lineNumber (l : String) : Int :=
  let cs := l.toList.dropWhile fun c => c = ' ' || c = '\t'
  let (negative, cs) := match cs with
    | '-' :: cs => (true, cs)
    | cs => (false, cs)
  let whole := cs.takeWhile Char.isDigit
  let part := match cs.drop whole.length with
    | '.' :: cs => (cs.takeWhile Char.isDigit).take 12
    | _ => []
  let ds := whole ++ part ++ List.replicate (12 - part.length) '0'
  let n : Int := ds.foldl (fun n c => 10 * n + digit c) (0 : Nat)
  if negative then -n else n

/-- The order of versions: runs of digits are compared as numbers. -/
def versionOrder : (fuel : Nat) → List Char → List Char → Ordering
  | 0, _, _ => .eq
  | _, [], [] => .eq
  | _, [], _ => .lt
  | _, _, [] => .gt
  | fuel + 1, a :: as_, b :: bs =>
    if a.isDigit && b.isDigit then
      let x := (a :: as_).takeWhile Char.isDigit
      let y := (b :: bs).takeWhile Char.isDigit
      let m := x.foldl (fun n c => 10 * n + digit c) 0
      let n := y.foldl (fun n c => 10 * n + digit c) 0
      (compare m n).then (versionOrder fuel ((a :: as_).drop x.length) ((b :: bs).drop y.length))
    else
      let rank := fun (c : Char) => if c = '~' then 0 else if c.isDigit then 1 else if c.isAlpha then c.toNat + 1 else c.toNat + 256
      (compare (rank a) (rank b)).then (versionOrder fuel as_ bs)

/-- A key that lines are ordered by: where it begins and ends, and how it is compared. -/
structure SortKey where
  startField : Nat := 1
  startChar : Nat := 1
  endField : Option Nat := none
  endChar : Nat := 0
  letters : List Char := []

/-- A position in a key, and the letters behind it. -/
def keyPosition (cs : List Char) : Nat × Option Nat × List Char × List Char :=
  let f := cs.takeWhile Char.isDigit
  let rest := cs.drop f.length
  let (c, rest) : Option Nat × List Char := match rest with
    | '.' :: rest =>
      let c := rest.takeWhile Char.isDigit
      (Text.natOf? 10 c, rest.drop c.length)
    | rest => (none, rest)
  let letters := rest.takeWhile Char.isAlpha
  ((Text.natOf? 10 f).getD 0, c, letters, rest.drop letters.length)

def sortKey (t : String) : SortKey :=
  let (f, c, letters, rest) := keyPosition t.toList
  match rest with
  | ',' :: rest =>
    let (g, e, more, _) := keyPosition rest
    { startField := f, startChar := c.getD 1, endField := some g, endChar := e.getD 0, letters := letters ++ more }
  | _ => { startField := f, startChar := c.getD 1, letters }

/-- The fields of a line, with the blanks before them if these separate them. -/
def sortFields (separator : Option Char) (l : List Char) : List (List Char) :=
  match separator with
  | some c => Text.splitAt c l
  | none => go (l.length + 1) l
where
  go : Nat → List Char → List (List Char)
    | 0, _ => []
    | _, [] => []
    | n + 1, s =>
      let blanks := s.takeWhile fun c => c = ' ' || c = '\t'
      let word := (s.drop blanks.length).takeWhile fun c => !(c = ' ' || c = '\t')
      (blanks ++ word) :: go n (s.drop (blanks.length + word.length))

/-- The text of a key in a line. -/
def keyText (separator : Option Char) (k : SortKey) (blanks : Bool) (l : String) : List Char :=
  let fields := sortFields separator l.toList
  let sep := match separator with
    | some c => [c]
    | none => []
  let trim := fun (cs : List Char) => if blanks then cs.dropWhile fun c => c = ' ' || c = '\t' else cs
  let joinFields := fun (fs : List (List Char)) => (fs.intersperse sep).flatten
  let first := fields.getD (k.startField - 1) []
  let startOff := (trim first).drop (k.startChar - 1)
  match k.endField with
  | none => joinFields (startOff :: fields.drop k.startField)
  | some g =>
    if g < k.startField then []
    else if g = k.startField then
      if k.endChar = 0 then startOff
      else startOff.take (k.endChar + 1 - k.startChar)
    else
      let middle := (fields.drop k.startField).take (g - 1 - k.startField)
      let last := fields.getD (g - 1) []
      joinFields (startOff :: middle ++ (if g ≤ fields.length then
        [if k.endChar = 0 then last else (trim last).take k.endChar] else []))

/-- Compares two texts as letters say. -/
def compareTexts (letters : List Char) (a b : List Char) : Ordering :=
  let trim := fun (cs : List Char) =>
    if letters.contains 'b' then cs.dropWhile fun c => c = ' ' || c = '\t' else cs
  let keep := fun (cs : List Char) =>
    let cs := if letters.contains 'd' then cs.filter fun c => c.isAlphanum || c = ' ' || c = '\t' else cs
    if letters.contains 'f' then cs.map Char.toUpper else cs
  let order :=
    if letters.contains 'n' || letters.contains 'g' then
      compare (lineNumber (String.ofList a)) (lineNumber (String.ofList b))
    else if letters.contains 'h' then
      let scale := fun (cs : List Char) =>
        let rest := (cs.dropWhile fun c => c = ' ' || c = '-').dropWhile fun c => c.isDigit || c = '.'
        let rank : Nat := match rest.head? with
          | some c => ("KMGTPE".toList.idxOf c.toUpper + 1) % 7
          | none => 0
        (rank, lineNumber (String.ofList cs))
      let (x, m) := scale a
      let (y, n) := scale b
      (compare x y).then (compare m n)
    else if letters.contains 'V' then versionOrder (a.length + b.length + 1) a b
    else compare (String.ofList (keep (trim a))) (String.ofList (keep (trim b)))
  if letters.contains 'r' then order.swap else order

def sort (args : List String) (s : State) : State :=
  withOptions "sort"
    { letters := "nrufbk:t:o:cCsVhgdimzMR", long := [("numeric-sort", 'n'), ("reverse", 'r'), ("unique", 'u'),
        ("ignore-case", 'f'), ("key", 'k'), ("field-separator", 't'), ("output", 'o'), ("check", 'c'),
        ("stable", 's'), ("version-sort", 'V'), ("human-numeric-sort", 'h')] } 2 args s
    fun o s =>
      let (ls, s) := inputLines "sort" 2 o.operands s
      if s.status ≠ 0 then s
      else
        let general := (o.given.map Prod.fst).filter fun c => "nfbdVhgi".toList.contains c
        let reverses := o.has 'r'
        let separator := (o.value? 't').bind fun t => if t = "\\t" then some '\t' else t.toList.head?
        let keys := (o.values 'k').map sortKey
        let byKeys := fun (a b : String) =>
          if keys.isEmpty then
            compareTexts (general ++ if reverses then ['r'] else []) a.toList b.toList
          else
            keys.foldl
              (fun order k =>
                let letters := if k.letters.isEmpty then general ++ (if reverses then ['r'] else []) else k.letters
                let blanks := letters.contains 'b'
                order.then (compareTexts letters (keyText separator k blanks a) (keyText separator k blanks b)))
              .eq
        let whole := fun (a b : String) => if reverses then compare b a else compare a b
        let stable := o.has 's' || o.has 'u'
        let order := fun (a b : String) => if stable then byKeys a b else (byKeys a b).then (whole a b)
        if o.has 'c' || o.has 'C' then
          let pairs := ls.zip (ls.drop 1)
          match pairs.zipIdx.find? fun p =>
              (order p.1.1 p.1.2 = .gt) || (o.has 'u' && byKeys p.1.1 p.1.2 = .eq) with
          | none => s
          | some ((_, b), i) =>
            (if o.has 'C' then s else
              s.complain ("sort: " ++ o.operands.headD "-" ++ ":" ++ toString (i + 2) ++ ": disorder: " ++ b)).finish 1
        else
          let sorted := ls.mergeSort fun a b => order a b ≠ .gt
          let sorted := if o.has 'u' then
            (sorted.foldl (fun (acc : List String) l => match acc with
              | m :: _ => if byKeys m l = .eq then acc else l :: acc
              | [] => [l]) []).reverse
            else sorted
          match o.value? 'o' with
          | none => s.print (ofLines sorted)
          | some p =>
            match s.store p (ofLines sorted) with
            | .ok s => s
            | .error e => (s.complain ("sort: open failed: " ++ p ++ ": " ++ reason e)).finish 2

/-- Puts equal lines that follow one another together. -/
def uniq (args : List String) (s : State) : State :=
  withOptions "uniq"
    { letters := "cduif:s:w:Dz", long := [("count", 'c'), ("repeated", 'd'), ("unique", 'u'), ("ignore-case", 'i')] } 1
    args s fun o s =>
      let (ls, s) := inputLines "uniq" 1 (o.operands.take 1) s
      let fields := ((o.value? 'f').bind natural?).getD 0
      let chars := ((o.value? 's').bind natural?).getD 0
      let width := (o.value? 'w').bind natural?
      let rec skip : Nat → List Char → List Char
        | 0, cs => cs
        | n + 1, cs =>
          let cs := cs.dropWhile fun c => c = ' ' || c = '\t'
          skip n (cs.dropWhile fun c => !(c = ' ' || c = '\t'))
      let key : String → List Char := fun l =>
        let cs := (skip fields l.toList).drop chars
        let cs := match width with
          | some w => cs.take w
          | none => cs
        if o.has 'i' then cs.map Char.toLower else cs
      let groups := ls.foldl
        (fun (acc : List (String × Nat)) l => match acc with
          | (m, n) :: rest => if key m = key l then (m, n + 1) :: rest else (l, 1) :: acc
          | [] => [(l, 1)])
        []
      let chosen := groups.reverse.filter fun g =>
        (!o.has 'd' || 1 < g.2) && (!o.has 'u' || g.2 = 1)
      let text := ofLines (chosen.map fun g => (if o.has 'c' then padded 7 g.2 ++ " " else "") ++ g.1)
      match o.operands with
      | [_, out] =>
        match s.store out text with
        | .ok s => s
        | .error e => (s.complain ("uniq: " ++ out ++ ": " ++ reason e)).finish 1
      | _ => if s.status = 0 then s.print text else s

/-- Finds the lines that two sorted files share, and those that they do not. -/
def comm (args : List String) (s : State) : State :=
  withOptions "comm" { letters := "123z" } 1 args s fun o s =>
    let (a, s) := inputLines "comm" 1 (o.operands.take 1) s
    let (b, s) := inputLines "comm" 1 ((o.operands.drop 1).take 1) s
    let rec merge : (fuel : Nat) → List String → List String → List (Nat × String)
      | 0, _, _ => []
      | _, [], bs => bs.map fun l => (2, l)
      | _, as_, [] => as_.map fun l => (1, l)
      | n + 1, x :: as_, y :: bs =>
        if x = y then (3, x) :: merge n as_ bs
        else if x < y then (1, x) :: merge n as_ (y :: bs)
        else (2, y) :: merge n (x :: as_) bs
    let shows := fun (n : Nat) => !o.has (Char.ofNat (48 + n))
    let tabs := fun (n : Nat) =>
      String.join ((List.range (n - 1)).map fun i => if shows (i + 1) then "\t" else "")
    s.print (ofLines ((merge (a.length + b.length + 1) a b).filterMap fun l =>
      if shows l.1 then some (tabs l.1 ++ l.2) else none))

end Workload.Shell.Programs
