import Workload.Shell.Regex
import Workload.Shell.Run.Program

/-!
# Conditions between double brackets

The words of a condition are expanded as far as it depends on them.
-/

namespace Workload.Shell

section

variable (exec : Exec)

/-- Whether a condition holds. -/
def holds (command : String) : Condition → State → Except String Bool × State
  | .word w, s =>
    let (t, s) := expandText (capture exec) w s
    (.ok (!t.isEmpty), s)
  | .unary o w, s =>
    let (t, s) := expandText (capture exec) w s
    if o = "-v" then
      let e := expansion (capture exec)
      let (name, i) := match t.toList.span (· ≠ '[') with
        | (name, '[' :: i) => (String.ofList name, some (String.ofList i.dropLast))
        | _ => (t, none)
      let (v, s) := e.value name i s
      (.ok (match v with
        | .one v => v.isSome
        | .many _ ts => !ts.isEmpty), s)
    else (Test.question s o t, s)
  | .binary o a b, s =>
    let (x, s) := expandText (capture exec) a s
    if o = "=" || o = "==" || o = "!=" then
      let (cells, s) := expandPattern (capture exec) b s
      let cells := if s.has "nocasematch" then cells.map fun c => (c.1.toLower, c.2) else cells
      let x := if s.has "nocasematch" then String.ofList (x.toList.map Char.toLower) else x
      (.ok (fits (marksOf true cells) x.toList == (o != "!=")), s)
    else if o = "=~" then
      let (cells, s) := expandPattern (capture exec) b s
      let source := String.join (cells.map fun c =>
        if c.2 && "\\^$.[]()*+?|".toList.contains c.1 || (c.2 && (c.1 = '\x7b' || c.1 = '\x7d')) then "\\" ++ c.1.toString
        else c.1.toString)
      match Regex.read? true source with
      | none => (.error "", s.finish 2)
      | some r =>
        let text := x.toList.toArray
        match Regex.search text r 0 with
        | some (start, p) =>
          let groups := (List.range (r.groupCount + 1)).map fun n => (n, Regex.groupText text start p n)
          (.ok true, s.put "BASH_REMATCH" { content := .list groups })
        | none => (.ok false, s.put "BASH_REMATCH" { content := .list [] })
    else
      let (y, s) := expandText (capture exec) b s
      if ["-eq", "-ne", "-lt", "-le", "-gt", "-ge"].contains o then
        match s.calculate x with
        | .error f => (.error "", s.arithmeticFault "[[: " x f)
        | .ok (m, s) =>
          match s.calculate y with
          | .error f => (.error "", s.arithmeticFault "[[: " y f)
          | .ok (n, s) => (Test.compare s (toString m.toInt) o (toString n.toInt), s)
      else (Test.compare s x o y, s)
  | .negated c, s =>
    let (r, s) := holds command c s
    (r.map not, s)
  | .both a b, s =>
    match holds command a s with
    | (.ok true, s) => holds command b s
    | r => r
  | .either a b, s =>
    match holds command a s with
    | (.ok false, s) => holds command b s
    | r => r

end

end Workload.Shell
