import Workload.Shell.Programs.Basic
import Workload.Text

/-!
# Programs for lines

Lines are shown as they are, counted, turned round, or put together.
-/

namespace Workload.Shell.Programs

def cat (args : List String) (s : State) : State :=
  withOptions "cat"
    { letters := "nbsETAvetu", long := [("number", 'n'), ("number-nonblank", 'b'), ("squeeze-blank", 's'),
        ("show-ends", 'E'), ("show-tabs", 'T'), ("show-all", 'A')] } 1 args s
    fun o s =>
      let plain := o.given.all fun g => g.1 = 'u'
      let show_ := fun (texts : List String) =>
        let step := fun (acc : List String × Nat × Bool) (l : String) =>
          let (out, n, blank) := acc
          let isBlank := l = "\n"
          if o.has 's' && isBlank && blank then acc
          else
            let counts := (o.has 'n' || o.has 'b') && !(o.has 'b' && isBlank)
            let n := if counts then n + 1 else n
            let body := if o.has 'T' || o.has 'A' || o.has 't' then Text.replaceAll "\t" "^I" l else l
            let body := if (o.has 'E' || o.has 'A' || o.has 'e') && body.endsWith "\n" then
              String.ofList (body.toList.dropLast) ++ "$\n" else body
            (((if counts then padded 6 n ++ "\t" else "") ++ body) :: out, n, isBlank)
        String.join ((closedLines (String.join texts)).foldl step ([], 0, false)).1.reverse
      if plain then
        (if o.operands.isEmpty then ["-"] else o.operands).foldl
          (fun s p =>
            let (texts, s) := inputs "cat" 1 [p] s
            s.print (String.join (texts.map Prod.snd)))
          s
      else
        let (texts, s) := inputs "cat" 1 o.operands s
        s.print (show_ (texts.map Prod.snd))

/-! ### Starts and ends -/

/-- The number of an argument, with a factor that a letter behind it stands for. -/
def scaled? (t : String) : Option Nat :=
  let ds := t.toList.takeWhile Char.isDigit
  let unit : Option Nat := match String.ofList (t.toList.drop ds.length) with
    | "" => some 1
    | "b" => some 512
    | "k" | "K" | "KiB" => some 1024
    | "kB" | "KB" => some 1000
    | "M" => some 1048576
    | _ => none
  match Text.natOf? 10 ds, unit with
  | some n, some u => some (n * u)
  | _, _ => none

/-- Puts an option in the place of a number that is one by itself. -/
def withCount (args : List String) : List String :=
  match args with
  | a :: rest =>
    match a.toList with
    | '-' :: c :: cs => if c.isDigit && cs.all Char.isDigit then "-n" :: String.ofList (c :: cs) :: rest else args
    | _ => args
  | [] => []

/-- Prints parts of files, under their names if there are several. -/
def printParts (name : String) (o : Options) (part : String → String) (s : State) : State :=
  let titled := (1 < o.operands.length && !o.has 'q') || o.has 'v'
  ((if o.operands.isEmpty then ["-"] else o.operands).foldl
    (fun (s, first) p =>
      if p ≠ "-" && s.isDirectory p then
        ((s.complain (name ++ ": error reading '" ++ p ++ "': Is a directory")).finish 1, false)
      else
        let isThere := p = "-" || (s.entry? p).isSome
        if !isThere then
          let cause := match s.place? p with
            | .error e => reason e
            | .ok _ => "No such file or directory"
          ((s.complain (name ++ ": cannot open '" ++ p ++ "' for reading: " ++ cause)).finish 1, first)
        else
          let (texts, s) := inputs name 1 [p] s
          let title := if titled then
            (if first then "" else "\n") ++ "==> " ++ (if p = "-" then "standard input" else p) ++ " <==\n" else ""
          (s.print (title ++ String.join (texts.map fun t => part t.2)), false))
    (s, true)).1

/-- The first lines or bytes. -/
def head (args : List String) (s : State) : State :=
  withOptions "head" { letters := "n:c:qvz", long := [("lines", 'n'), ("bytes", 'c'), ("quiet", 'q')] } 1 (withCount args) s
    fun o s =>
      let spec := (o.given.filter fun g => g.1 = 'n' || g.1 = 'c').getLast?.getD ('n', "10")
      let (drops, text) := match spec.2.toList with
        | '-' :: cs => (true, String.ofList cs)
        | cs => (false, String.ofList cs)
      match scaled? text with
      | none =>
        (s.complain ("head: invalid number of " ++ (if spec.1 = 'c' then "bytes" else "lines") ++ ": '" ++ spec.2 ++ "'")).finish 1
      | some n =>
        let bytes : Bool := spec.1 = 'c'
        -- what is not read is left for others
        if o.operands.isEmpty && !bytes && !drops then
          let text := String.ofList ((s.unread 0).getD [])
          let part := String.join ((closedLines text).take n)
          (s.consume 0 part.length).print part
        else
          printParts "head" o
            (fun t =>
              if bytes then
                String.ofList (if drops then t.toList.take (t.length - n) else t.toList.take n)
              else
                let ls := closedLines t
                String.join (if drops then ls.take (ls.length - n) else ls.take n))
            s

/-- The last lines or bytes. -/
def tail (args : List String) (s : State) : State :=
  let args := match args with
    | a :: rest =>
      match a.toList with
      | '+' :: c :: cs => if (c :: cs).all Char.isDigit then "-n" :: a :: rest else args
      | _ => args
    | [] => []
  withOptions "tail" { letters := "n:c:qvfFz", long := [("lines", 'n'), ("bytes", 'c'), ("quiet", 'q')] } 1 (withCount args) s
    fun o s =>
      let spec := (o.given.filter fun g => g.1 = 'n' || g.1 = 'c').getLast?.getD ('n', "10")
      let (starts, text) := match spec.2.toList with
        | '+' :: cs => (true, String.ofList cs)
        | '-' :: cs => (false, String.ofList cs)
        | cs => (false, String.ofList cs)
      match scaled? text with
      | none =>
        (s.complain ("tail: invalid number of " ++ (if spec.1 = 'c' then "bytes" else "lines") ++ ": '" ++ spec.2 ++ "'")).finish 1
      | some n =>
        let bytes : Bool := spec.1 = 'c'
        printParts "tail" o
          (fun t =>
            if bytes then
              String.ofList (t.toList.drop (if starts then n - 1 else t.length - n))
            else
              let ls := closedLines t
              String.join (ls.drop (if starts then n - 1 else ls.length - n)))
          s

/-! ### Counts -/

def wc (args : List String) (s : State) : State :=
  withOptions "wc" { letters := "clwmL", long := [("bytes", 'c'), ("lines", 'l'), ("words", 'w'), ("chars", 'm')] } 1 args s
    fun o s =>
      let all := o.given.isEmpty
      let sizes := (if o.operands.isEmpty then ["-"] else o.operands).map fun p =>
        if p = "-" then
          match (s.channelOf? 0).bind s.sys.channel? with
          | some (.file place _ _) => (s.sys.content? place).toOption.map String.length
          | _ => none
        else match s.entry? p with
          | some .directory | none => if (s.entry? p).isNone then some 0 else none
          | some _ => if p = "/dev/null" then none else (s.content? p).toOption.map String.length
      let (texts, s) := (if o.operands.isEmpty then ["-"] else o.operands).foldl
        (fun (texts, s) p =>
          if p ≠ "-" && s.isDirectory p then
            (texts ++ [(p, "")], (s.complain ("wc: " ++ p ++ ": Is a directory")).finish 1)
          else
            let (more, s) := inputs "wc" 1 [p] s
            (texts ++ more, s))
        ([], s)
      let counts := fun (t : String) =>
        let cs := t.toList
        let lines := cs.count '\n'
        let words := (Text.runsWith (fun c => c = ' ' || ('\t' ≤ c && c ≤ '\x0d')) [] cs).length
        let longest := (Text.pieces '\n' t).foldl (fun n l => max n l.length) 0
        (if all || o.has 'l' then [lines] else []) ++ (if all || o.has 'w' then [words] else []) ++
          (if o.has 'm' then [cs.length] else []) ++ (if all || o.has 'c' then [cs.length] else []) ++
          (if o.has 'L' then [longest] else [])
      let columns := (counts "").length
      let rows := texts.map fun t => (counts t.2, if o.operands.isEmpty then "" else " " ++ t.1)
      let total := (List.range columns).map fun i => rows.foldl (fun n r => n + r.1.getD i 0) 0
      let rows := if 1 < o.operands.length then rows ++ [(total, " total")] else rows
      let width :=
        if columns = 1 && sizes.length = 1 then 1
        else
          let sum := sizes.foldl (fun n z => n + z.getD 0) 0
          max (if sizes.any Option.isNone then 7 else 1) (toString sum).length
      s.print (ofLines (rows.map fun r =>
        String.intercalate " " (r.1.map (padded width)) ++ r.2))

def nl (args : List String) (s : State) : State :=
  withOptions "nl" { letters := "b:w:s:n:v:i:", long := [("body-numbering", 'b'), ("number-width", 'w')] } 1 args s
    fun o s =>
      let (ls, s) := inputLines "nl" 1 o.operands s
      let width := ((o.value? 'w').bind natural?).getD 6
      let separator := (o.value? 's').getD "\t"
      let step := ((o.value? 'i').bind natural?).getD 1
      let first := ((o.value? 'v').bind natural?).getD 1
      let style := (o.value? 'b').getD "t"
      let format := fun (n : Nat) =>
        let t := toString n
        match (o.value? 'n').getD "rn" with
        | "ln" => t ++ String.ofList (List.replicate (width - t.length) ' ')
        | "rz" => String.ofList (List.replicate (width - t.length) '0') ++ t
        | _ => padded width n
      let (out, _) := ls.foldl
        (fun (out, n) l =>
          if style = "a" || (style = "t" && !l.isEmpty) then ((format n ++ separator ++ l) :: out, n + step)
          else ((String.ofList (List.replicate (width + separator.length) ' ') ++ l) :: out, n))
        (([] : List String), first)
      s.print (ofLines out.reverse)

/-! ### Lines as they are -/

def tac (args : List String) (s : State) : State :=
  let (texts, s) := inputs "tac" 1 args (s.finish 0)
  s.print (String.join (texts.map fun t => String.join (closedLines t.2).reverse))

def rev (args : List String) (s : State) : State :=
  let (texts, s) := inputs "rev" 1 args (s.finish 0)
  s.print (String.join (texts.flatMap fun t => (closedLines t.2).map fun l =>
    if l.endsWith "\n" then String.ofList (l.toList.dropLast.reverse ++ ['\n']) else String.ofList l.toList.reverse))

def fold (args : List String) (s : State) : State :=
  withOptions "fold" { letters := "w:sb", long := [("width", 'w'), ("spaces", 's')] } 1 args s fun o s =>
    let (texts, s) := inputs "fold" 1 o.operands s
    let width := max 1 (((o.value? 'w').bind natural?).getD 80)
    let rec cut : Nat → List Char → List Char
      | 0, cs => cs
      | n + 1, cs =>
        if cs.length ≤ width then cs
        else
          let line := cs.take width
          let keep := if o.has 's' then (line.reverse.dropWhile (· ≠ ' ')).length else 0
          let k := if keep = 0 then width else keep
          cs.take k ++ '\n' :: cut n (cs.drop k)
    s.print (String.join (texts.flatMap fun t => (closedLines t.2).map fun l =>
      let cs := l.toList
      let body := cs.takeWhile (· ≠ '\n')
      String.ofList (cut (body.length + 1) body ++ cs.drop body.length)))

/-- Puts the lines of files next to each other. -/
def paste (args : List String) (s : State) : State :=
  withOptions "paste" { letters := "d:sz", long := [("delimiters", 'd'), ("serial", 's')] } 1 args s fun o s =>
    let delimiters := (unescape .program false true 1000 [] ((o.value? 'd').getD "\t").toList).1
    let between := fun (i : Nat) =>
      if delimiters.isEmpty then "" else (delimiters.getD (i % delimiters.length) '\t').toString
    let row := fun (ws : List String) =>
      String.join (ws.zipIdx.map fun w => if w.2 = 0 then w.1 else between (w.2 - 1) ++ w.1)
    let dashes := (o.operands.filter (· = "-")).length
    let (columns, s) :=
      if 1 < dashes && dashes = o.operands.length then
        let (ls, s) := inputLines "paste" 1 [] s
        let n := (ls.length + dashes - 1) / dashes
        ((List.range dashes).map fun i => (List.range n).map fun k => ls.getD (k * dashes + i) "", s)
      else
        (if o.operands.isEmpty then ["-"] else o.operands).foldl
          (fun (columns, s) p =>
            let (ls, s) := inputLines "paste" 1 [p] s
            (columns ++ [ls], s))
          ([], s)
    if o.has 's' then s.print (ofLines (columns.map row))
    else
      let n := columns.foldl (fun n c => max n c.length) 0
      s.print (ofLines ((List.range n).map fun i => row (columns.map fun c => c.getD i "")))

end Workload.Shell.Programs
