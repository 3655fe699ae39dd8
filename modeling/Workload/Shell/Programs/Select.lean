import Workload.Shell.Programs.Basic
import Workload.Shell.Regex

/-!
# Selecting lines

Lines are selected by regular expressions.
-/

namespace Workload.Shell.Programs

/-- The expression of a text that stands for itself. -/
def literalRegex (t : String) : Regex :=
  t.toList.foldl (fun r c => if r = .empty then .char c else .seq r (.char c)) .empty

def lowered (t : String) : String := String.ofList (t.toList.map Char.toLower)

/-- The matches in a line, from left to right and none of them empty. -/
def matchesIn (r : Regex) (text : Array Char) : (fuel : Nat) → Nat → List (Nat × Nat)
  | 0, _ => []
  | fuel + 1, start =>
    match Regex.search text r start with
    | none => []
    | some (i, p) =>
      if p.position ≤ i then matchesIn r text fuel (i + 1)
      else (i, p.position) :: matchesIn r text fuel p.position

/-- The files below a path, in order. -/
def filesBelow (s : State) : (fuel : Nat) → String → List String → List String
  | 0, _, _ => []
  | fuel + 1, path, place =>
    if s.sys.isDirectoryAt place then
      (s.sys.names place).flatMap fun n =>
        filesBelow s fuel (if path.isEmpty then n else Path.join path n) (downTo place (textOf n))
    else [path]

/-- Lines with those around them: the places of the lines that are shown. -/
def around (before after total : Nat) (hits : List Nat) : List Nat :=
  (List.range total).filter fun i => hits.any fun h => h - before ≤ i && i ≤ h + after

/-- Selects lines; `mode` is the kind of pattern that the name of the program stands for. -/
def grep (mode : Char) (args : List String) (s : State) : State :=
  let args := match args with
    | a :: rest =>
      match a.toList with
      | '-' :: c :: cs => if (c :: cs).all Char.isDigit then "-C" :: String.ofList (c :: cs) :: rest else args
      | _ => args
    | [] => []
  withOptions "grep"
    { letters := "e:f:EFGPivcnolLqswxrRhHm:A:B:C:azuZIyK:", long := [("regexp", 'e'), ("extended-regexp", 'E'),
        ("fixed-strings", 'F'), ("ignore-case", 'i'), ("invert-match", 'v'), ("count", 'c'), ("line-number", 'n'),
        ("only-matching", 'o'), ("files-with-matches", 'l'), ("quiet", 'q'), ("silent", 'q'), ("no-messages", 's'),
        ("word-regexp", 'w'), ("line-regexp", 'x'), ("recursive", 'r'), ("no-filename", 'h'), ("with-filename", 'H'),
        ("max-count", 'm'), ("after-context", 'A'), ("before-context", 'B'), ("context", 'C'), ("color", 'K'),
        ("colour", 'K'), ("include", 'K'), ("exclude", 'K'), ("text", 'a')] } 2 args s
    fun o s =>
      let (patterns, operands) : Option (List String) × List String :=
        if o.has 'e' then (some (o.values 'e'), o.operands)
        else if o.has 'f' then
          ((o.value? 'f').map fun f => linesOf ((s.content? f).toOption.getD ""), o.operands)
        else match o.operands with
          | p :: rest => (some [p], rest)
          | [] => (none, [])
      match patterns with
      | none =>
        ((s.complain "Usage: grep [OPTION]... PATTERNS [FILE]...").complain
          "Try 'grep --help' for more information.").finish 2
      | some ps =>
        let ps := ps.flatMap (Text.pieces '\n')
        let kind := ((o.given.map Prod.fst).filter fun c => c = 'E' || c = 'F' || c = 'G' || c = 'P').getLast?.getD mode
        let folds := o.has 'i' || o.has 'y'
        let read := fun (p : String) =>
          let p := if folds then lowered p else p
          let r := if kind = 'F' then some (literalRegex p) else Regex.read? (kind = 'E' || kind = 'P') p
          r.map fun r =>
            if o.has 'x' then Regex.seq .lineStart (.seq r .lineEnd)
            else if o.has 'w' then .seq (.free false) (.seq r (.free true))
            else r
        match ps.mapM read with
        | none => (s.complain "grep: Unmatched ( or \\(").finish 2
        | some rs =>
          let r := (rs.drop 1).foldl Regex.alt (rs.headD (.set false []))
          let deep := o.has 'r' || o.has 'R'
          let paths := if operands.isEmpty then (if deep then ["."] else ["-"]) else operands
          let paths := if deep then
            paths.flatMap fun p => match s.place? p with
              | .ok place => if s.sys.isDirectoryAt place then
                  (if operands.isEmpty then filesBelow s 60 "" place else filesBelow s 60 p place) else [p]
              | .error _ => [p]
            else paths
          let titled := !o.has 'h' && (o.has 'H' || 1 < paths.length || deep)
          let limit := (o.value? 'm').bind natural?
          let context := (o.value? 'C').bind natural?
          let after := (((o.value? 'A').bind natural?).or context).getD 0
          let before := (((o.value? 'B').bind natural?).or context).getD 0
          let (s, found, failed, _) := paths.foldl
            (fun (s, found, failed, shown) path =>
              if o.has 'q' && found then (s, found, failed, shown)
              else
                let isDir := path ≠ "-" && s.isDirectory path
                let quiet := if o.has 's' then { s with streams := s.streams.filter fun e => e.1 ≠ 2 } else s
                let (texts, t) := if isDir then ([], quiet.complain ("grep: " ++ path ++ ": Is a directory"))
                  else inputs "grep" 2 [path] quiet
                let s := { t with streams := s.streams, status := s.status }
                match texts with
                | [(_, text)] =>
                  let ls := linesOf text
                  let marks := ls.map fun l =>
                    let cs := (if folds then l.toList.map Char.toLower else l.toList).toArray
                    (Regex.search cs r 0).isSome != o.has 'v'
                  let hits := (marks.zipIdx.filter Prod.fst).map Prod.snd
                  let hits := match limit with
                    | some n => hits.take n
                    | none => hits
                  let any := !hits.isEmpty
                  let name := if path = "-" then "(standard input)" else path
                  let label := fun (mark : String) (i : Nat) =>
                    (if titled then name ++ mark else "") ++ if o.has 'n' then toString (i + 1) ++ mark else ""
                  if o.has 'q' then (s, found || any, failed, shown)
                  else if o.has 'L' then
                    (if any then s else s.print (name ++ "\n"), found || !any, failed, shown)
                  else if o.has 'l' then (if any then s.print (name ++ "\n") else s, found || any, failed, shown)
                  else if o.has 'c' then
                    (s.print ((if titled then name ++ ":" else "") ++ toString hits.length ++ "\n"), found || any, failed, shown)
                  else if o.has 'o' then
                    let text := hits.flatMap fun i =>
                      if o.has 'v' then []
                      else
                        let l := ls.getD i ""
                        let cs := l.toList.toArray
                        let lower := if folds then cs.map Char.toLower else cs
                        (matchesIn r lower (l.length + 1) 0).map fun (a, b) =>
                          label ":" i ++ String.ofList (cs.extract a b).toList
                    (s.print (ofLines text), found || any, failed, shown)
                  else if before = 0 && after = 0 then
                    (s.print (ofLines (hits.map fun i => label ":" i ++ ls.getD i "")), found || any, failed, shown)
                  else
                    let lines := around before after ls.length hits
                    let (texts, _) := lines.foldl
                      (fun (texts, last) i =>
                        let gap : Bool := match last with
                          | some k => k + 1 < i
                          | none => shown
                        let texts := if gap then "--" :: texts else texts
                        ((label (if hits.contains i then ":" else "-") i ++ ls.getD i "") :: texts, some i))
                      (([] : List String), (none : Option Nat))
                    (s.print (ofLines texts.reverse), found || any, failed, shown || any)
                | _ => (s, found, true, shown))
            (s, false, false, false)
          s.finish (if failed && !(o.has 'q' && found) then 2 else if found then 0 else 1)

end Workload.Shell.Programs
