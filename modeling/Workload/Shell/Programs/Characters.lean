import Workload.Shell.Programs.Basic

/-!
# Programs for characters

Characters are replaced, taken away, or cut out of lines.
-/

namespace Workload.Shell.Programs

/-- The characters of a set of `tr`. -/
def trSet : (fuel : Nat) → List Char → List Char
  | 0, _ => []
  | _, [] => []
  | fuel + 1, '[' :: ':' :: cs =>
    let name := cs.takeWhile Char.isAlpha
    match cs.drop name.length with
    | ':' :: ']' :: rest =>
      ((List.range 256).map Char.ofNat).filter (inClass (String.ofList name)) ++ trSet fuel rest
    | _ => '[' :: trSet fuel (':' :: cs)
  | fuel + 1, cs =>
    let one := fun (cs : List Char) => match cs with
      | '\\' :: rest =>
        match readEscape .program false true rest with
        | .bytes [c] more => (c, more)
        | .bytes _ more => (rest.headD '\\', more)
        | .stop => ('\\', rest)
      | c :: rest => (c, rest)
      | [] => ('\x00', [])
    let (a, rest) := one cs
    match rest with
    | '-' :: d :: more =>
      let (b, behind) := one (d :: more)
      if a ≤ b then ((List.range (b.toNat - a.toNat + 1)).map fun i => Char.ofNat (a.toNat + i)) ++ trSet fuel behind
      else a :: trSet fuel rest
    | rest => a :: trSet fuel rest

def tr (args : List String) (s : State) : State :=
  withOptions "tr" { letters := "cCdst", long := [("delete", 'd'), ("squeeze-repeats", 's'), ("complement", 'c')], mixed := false } 1 args s
    fun o s =>
      let set := fun (t : String) => trSet (t.length + 1) t.toList
      match o.operands with
      | [] => ((s.complain "tr: missing operand").complain "Try 'tr --help' for more information.").finish 1
      | first :: more =>
        let a := set first
        let a := if o.has 'c' || o.has 'C' then ((List.range 256).map Char.ofNat).filter fun c => !a.contains c else a
        let deletes := o.has 'd'
        if more.isEmpty && !deletes && !o.has 's' then
          ((s.complain ("tr: missing operand after '" ++ first ++ "'")).complain
            "Two strings must be given when translating.").finish 1
        else if deletes && !more.isEmpty && !o.has 's' then
          (s.complain ("tr: extra operand '" ++ more.headD "" ++ "'")).finish 1
        else
          let b := set (more.headD "")
          let (text, s) := s.readAll 0
          let cs := text.toList
          let cs := if deletes then cs.filter fun c => !a.contains c else cs
          let last := b.getLast?
          let cs := if deletes || more.isEmpty then cs
            else cs.map fun c =>
              let i := a.length - 1 - a.reverse.idxOf c
              if a.contains c then b.getD i (last.getD c) else c
          let squeezed := if !o.has 's' then []
            else if more.isEmpty then a else b
          let cs := if o.has 's' then
            (cs.foldl (fun (acc : List Char) c => match acc with
              | d :: _ => if d = c && squeezed.contains c then acc else c :: acc
              | [] => [c]) []).reverse
            else cs
          s.print (String.ofList cs)

/-- The ranges of a list, such as `1,3-5`. -/
def ranges? (t : String) : Option (List (Nat × Option Nat)) :=
  (Text.pieces ',' t).mapM fun r =>
    match Text.pieces '-' r with
    | [a] => (natural? a).map fun n => (n, some n)
    | [a, b] =>
      let low := if a.isEmpty then some 1 else natural? a
      let high := if b.isEmpty then some none else (natural? b).map some
      match low, high with
      | some l, some h => if a.isEmpty && b.isEmpty then none else some (l, h)
      | _, _ => none
    | _ => none

def inRanges (rs : List (Nat × Option Nat)) (n : Nat) : Bool :=
  rs.any fun r => r.1 ≤ n && (match r.2 with
    | some h => n ≤ h
    | none => true)

/-- Cuts fields or characters out of lines. -/
def cut (args : List String) (s : State) : State :=
  withOptions "cut"
    { letters := "d:f:c:b:snzO:", long := [("delimiter", 'd'), ("fields", 'f'), ("characters", 'c'), ("bytes", 'b'),
        ("only-delimited", 's'), ("complement", 'z'), ("output-delimiter", 'O')] } 1 args s
    fun o s =>
      let out := o.value? 'O'
      let list := (o.value? 'f').or ((o.value? 'c').or (o.value? 'b'))
      match list with
      | none =>
        ((s.complain "cut: you must specify a list of bytes, characters, or fields").complain
          "Try 'cut --help' for more information.").finish 1
      | some t =>
        match ranges? t with
        | none => (s.complain "cut: invalid field range").finish 1
        | some rs =>
          let chosen := fun (n : Nat) => inRanges rs n != o.has 'z'
          let (ls, s) := inputLines "cut" 1 o.operands s
          if o.has 'f' then
            let d := ((o.value? 'd').bind fun t => t.toList.head?).getD '\t'
            s.print (ofLines (ls.filterMap fun l =>
              let fields := Text.pieces d l
              if fields.length < 2 then (if o.has 's' then none else some l)
              else some (String.intercalate (out.getD d.toString)
                ((fields.zipIdx.filter fun f => chosen (f.2 + 1)).map Prod.fst))))
          else
            s.print (ofLines (ls.map fun l =>
              String.ofList ((l.toList.zipIdx.filter fun c => chosen (c.2 + 1)).map Prod.fst)))

end Workload.Shell.Programs
