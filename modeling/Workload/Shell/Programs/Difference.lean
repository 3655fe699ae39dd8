import Workload.Shell.Programs.Basic

/-!
# Programs that compare

Two inputs are compared byte by byte or line by line.
-/

namespace Workload.Shell.Programs

def cmp (args : List String) (s : State) : State :=
  withOptions "cmp" { letters := "slbn:i:", long := [("silent", 's'), ("quiet", 's')] } 2 args s fun o s =>
    let a := o.operands.getD 0 ""
    let b := o.operands.getD 1 "-"
    let (x, s) := inputs "cmp" 2 [a] s
    let (y, s) := inputs "cmp" 2 [b] s
    match x, y with
    | [(_, x)], [(_, y)] =>
      if x = y then s
      else
        let same := ((x.toList.zip y.toList).takeWhile fun p => p.1 = p.2).map Prod.fst
        let line := same.count '\n' + 1
        let n := same.length
        if o.has 's' then s.finish 1
        else if n = x.length || n = y.length then
          let short := if n = x.length then a else b
          (s.complain ("cmp: EOF on " ++ short ++ (if n = 0 then " which is empty" else
            " after byte " ++ toString n ++ ", " ++
              (if same.getLast? = some '\n' then "line " ++ toString (line - 1) else "in line " ++ toString line)))).finish 1
        else (s.print (a ++ " " ++ b ++ " differ: byte " ++ toString (n + 1) ++ ", line " ++ toString line ++ "\n")).finish 1
    | _, _ => s

/-- The lengths of the longest common lines of what is left of two lists, row by row from the end. -/
def commonLengths (a b : List String) : List (List Nat) :=
  a.foldr
    (fun x rows =>
      let below := rows.headD (List.replicate (b.length + 1) 0)
      let row := (b.zip (below.zip (below.drop 1))).foldr
        (fun p row => (if x = p.1 then p.2.2 + 1 else max p.2.1 (row.headD 0)) :: row) [0]
      row :: rows)
    [List.replicate (b.length + 1) 0]

/-- What changes one list into another: what is kept, taken away and added. -/
def changes : (fuel : Nat) → List String → List String → List (List Nat) → List (Char × String)
  | 0, _, _, _ => []
  | _, [], bs, _ => bs.map fun l => ('>', l)
  | _, as_, [], _ => as_.map fun l => ('<', l)
  | n + 1, x :: as_, y :: bs, rows =>
    if x = y then ('=', x) :: changes n as_ bs ((rows.drop 1).map (List.drop 1))
    else
      let right := (rows.headD []).getD 1 0
      let down := (rows.getD 1 []).getD 0 0
      if right ≤ down then ('<', x) :: changes n as_ (y :: bs) (rows.drop 1)
      else ('>', y) :: changes n (x :: as_) bs (rows.map (List.drop 1))

def diff (args : List String) (s : State) : State :=
  withOptions "diff"
    { letters := "qsurNabwBiU:y", long := [("brief", 'q'), ("report-identical-files", 's'), ("unified", 'u')] } 2 args s
    fun o s =>
      let a := o.operands.getD 0 ""
      let b := o.operands.getD 1 ""
      let fault := fun (p : String) (s : State) =>
        (s.complain ("diff: " ++ p ++ ": No such file or directory")).finish 2
      let read := fun (p : String) (s : State) =>
        if p = "-" then
          let (t, s) := s.readAll 0
          (some t, s)
        else match s.readPath p with
          | .ok (t, s) => (some t, s)
          | .error _ => (none, fault p s)
      let (x, s) := read a s
      let (y, s) := read b s
      match x, y with
      | some x, some y =>
        if x = y then (if o.has 's' then s.print ("Files " ++ a ++ " and " ++ b ++ " are identical\n") else s)
        else if o.has 'q' then (s.print ("Files " ++ a ++ " and " ++ b ++ " differ\n")).finish 1
        else
          let xs := linesOf x
          let ys := linesOf y
          let steps := changes (xs.length + ys.length + 1) xs ys (commonLengths xs ys)
          -- runs of changes: where they begin, what is taken away and what is added
          let (runs, open_, _, _) := steps.foldl
            (fun (runs, open_, i, j) (c, l) =>
              let (start, gone, new) : (Nat × Nat) × List String × List String := open_.getD ((i, j), [], [])
              if c = '=' then (runs ++ open_.toList, none, i + 1, j + 1)
              else if c = '<' then (runs, some (start, gone ++ [l], new), i + 1, j)
              else (runs, some (start, gone, new ++ [l]), i, j + 1))
            (([] : List ((Nat × Nat) × List String × List String)), (none : Option ((Nat × Nat) × List String × List String)), 0, 0)
          let runs := runs ++ open_.toList
          let span := fun (first count : Nat) =>
            if count ≤ 1 then toString (first + count) else toString (first + 1) ++ "," ++ toString (first + count)
          let ending := fun (t : String) (isLast : Bool) =>
            if isLast && !t.endsWith "\n" then "\\ No newline at end of file\n" else ""
          let text := runs.map fun ((i, j), gone, new) =>
            let letter := if gone.isEmpty then "a" else if new.isEmpty then "d" else "c"
            span i gone.length ++ letter ++ span j new.length ++ "\n" ++
              String.join (gone.map fun l => "< " ++ l ++ "\n") ++
              (if gone.isEmpty then "" else ending x (i + gone.length = xs.length)) ++
              (if letter = "c" then "---\n" else "") ++
              String.join (new.map fun l => "> " ++ l ++ "\n") ++
              (if new.isEmpty then "" else ending y (j + new.length = ys.length))
          (s.print (String.join text)).finish 1
      | _, _ => s.finish 2

end Workload.Shell.Programs
