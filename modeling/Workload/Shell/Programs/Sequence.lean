import Workload.Shell.Programs.Basic

/-!
# Sequences of numbers

Numbers with the same distance between them, with as many decimals as the ends and the distance have.
-/

namespace Workload.Shell.Programs

/-- Prints numbers from one to another. -/
def seq (args : List String) (s : State) : State :=
  let rec options : List String → String × Bool × Option String × List String → String × Bool × Option String × List String
    | "-s" :: t :: rest, (_, w, f, ns) => options rest (t, w, f, ns)
    | "-w" :: rest, (t, _, f, ns) => options rest (t, true, f, ns)
    | "-f" :: t :: rest, (u, w, _, ns) => options rest (u, w, some t, ns)
    | a :: rest, (t, w, f, ns) =>
      if a.startsWith "-s" then options rest (String.ofList (a.toList.drop 2), w, f, ns)
      else options rest (t, w, f, ns ++ [a])
    | [], r => r
  let (between, wide, format, ns) := options args ("\n", false, none, [])
  -- numbers with places behind the point
  let decimal? := fun (t : String) =>
    let cs := t.toList
    let (negative, cs) := match cs with
      | '-' :: cs => (true, cs)
      | '+' :: cs => (false, cs)
      | cs => (false, cs)
    let whole := cs.takeWhile Char.isDigit
    let rest := cs.drop whole.length
    let part := match rest with
      | '.' :: p => if p.all Char.isDigit then some p else none
      | [] => some []
      | _ => none
    match part with
    | some p =>
      if whole.isEmpty && p.isEmpty then none
      else
        let n : Int := (whole ++ p).foldl (fun n c => 10 * n + digit c) (0 : Nat)
        some (if negative then -n else n, p.length)
    | none => none
  let s := s.finish 0
  let (first, step, last) := match ns with
    | [c] => ("1", "1", c)
    | [a, c] => (a, "1", c)
    | a :: b :: c :: _ => (a, b, c)
    | [] => ("", "", "")
  match decimal? first, decimal? step, decimal? last with
  | some (a, i), some (b, j), some (c, k) =>
    let places := max i j
    let high := max places k
    let up := fun (n : Int) (p : Nat) => n * (Nat.pow 10 (high - p) : Nat)
    let x := up a i
    let d := up b j
    let y := up c k
    if d = 0 then
      (s.complain ("seq: invalid Zero increment value: '" ++ step ++ "'")).finish 1
    else
      let count : Nat := if 0 < d then (if y < x then 0 else ((y - x) / d).toNat + 1)
        else (if x < y then 0 else ((x - y) / (-d)).toNat + 1)
      let count := min count 200000
      let text := fun (n : Int) =>
        let ds := (toString n.natAbs).toList
        let ds := List.replicate (high + 1 - ds.length) '0' ++ ds
        let whole := ds.take (ds.length - high)
        let part := (ds.drop (ds.length - high)).take places
        (if n < 0 then "-" else "") ++ String.ofList whole ++
          if part.isEmpty then "" else "." ++ String.ofList part
      let texts := (List.range count).map fun (n : Nat) => text (x + d * (n : Int))
      let width := max (text x).length (text (x + d * ((count - 1 : Nat) : Int))).length
      let texts := if wide then texts.map fun t =>
        let (sign, t) := if t.startsWith "-" then ("-", String.ofList (t.toList.drop 1)) else ("", t)
        sign ++ String.ofList (List.replicate (width - sign.length - t.length) '0') ++ t else texts
      let texts := match format with
        | some f => texts.map fun t => (printFormat .program id f [t]).output
        | none => texts
      if texts.isEmpty then s else s.print (String.intercalate between texts ++ "\n")
  | _, _, _ =>
    match ns.find? fun n => (decimal? n).isNone with
    | some n =>
      ((s.complain ("seq: invalid floating point argument: '" ++ n ++ "'")).complain
        "Try 'seq --help' for more information.").finish 1
    | none => ((s.complain "seq: missing operand").complain "Try 'seq --help' for more information.").finish 1

end Workload.Shell.Programs
