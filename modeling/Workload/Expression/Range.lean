import Workload.Fault
import Workload.Limits
import Workload.Text

/-!
# Range blocks

A block opens with `range` and a header between double braces, and closes with `end` between double
braces.  Its body is repeated once for every value of the header, with the value in the place of the
marker, a dot between double braces.  A block ends at the first closing after its opening.
-/

namespace Workload.Range

/-- The marker that stands for the value in the body of a block. -/
def marker : List Char := ['{', '{', '.', '}', '}']

/-- The whole numbers from `a` up to before `b`. -/
def span (a b : Int) : List Int := (List.range (b - a).toNat).map fun (i : Nat) => a + (i : Int)

/-- The whole numbers from `a` up to before `b` as texts, if a list can hold them. -/
def numbers (a b : Int) : Except ExpressionFault (List String) :=
  if (maxListed : Int) < b - a then .error .rangeTooLong else .ok ((span a b).map toString)

/-- The values a header stands for: `a..b` the numbers from `a` to before `b`, a list its members, a
number `n` the numbers from zero to before `n`, and any other text itself. -/
def values (header : String) : Except ExpressionFault (List String) :=
  let h := Text.trim header.toList
  match Text.cutAt ['.', '.'] h with
  | some (a, b) =>
    match Text.int64Of? (Text.trim a), Text.int64Of? (Text.trim b) with
    | some a, some b => numbers a b
    | _, _ => .error (.badRange (String.ofList h))
  | none =>
    if h.contains ',' then
      .ok ((Text.splitAt ',' h).map fun v => String.ofList (Text.trim v))
    else
      match Text.int64Of? h with
      | some n => numbers 0 n
      | none =>
        if h.isEmpty then .error (.badRange (String.ofList h)) else .ok [String.ofList h]

/-- The header of a block that opens here, and what follows the opening. -/
def opening? (s : List Char) : Option (List Char × List Char) := do
  let s ← Text.dropStart? ['{', '{'] s
  let s ← Text.dropStart? ['r', 'a', 'n', 'g', 'e'] (Text.trimStart s)
  if !(s.headD 'x' |> Text.isBlank) then none
  let s := Text.trimStart s
  let rest ← Text.dropStart? ['}', '}'] (s.dropWhile (· ≠ '}'))
  pure (s.takeWhile (· ≠ '}'), rest)

/-- What follows a closing that stands here. -/
def closing? (s : List Char) : Option (List Char) := do
  let s ← Text.dropStart? ['{', '{'] s
  let s ← Text.dropStart? ['e', 'n', 'd'] (Text.trimStart s)
  Text.dropStart? ['}', '}'] (Text.trimStart s)

/-- The body up to the first closing, and what follows that. -/
def body? : List Char → Option (List Char × List Char)
  | [] => none
  | c :: cs =>
    match closing? (c :: cs) with
    | some rest => some ([], rest)
    | none => (body? cs).map fun r => (c :: r.1, r.2)

/-- The header and body of a block that stands here, and what follows it. -/
def block? (s : List Char) : Option (List Char × List Char × List Char) := do
  let (header, s) ← opening? s
  let (body, rest) ← body? s
  pure (header, body, rest)

/-- The bodies of a block, one for each value. -/
def repeated (body : List Char) (vs : List String) : List Char :=
  vs.flatMap fun v => Text.replaceFrom marker v.toList 0 body

/-- Expands the blocks after the next `skip` characters, which belong to the block just expanded. -/
def expandFrom : Nat → List Char → Except ExpressionFault (List Char)
  | _, [] => .ok []
  | skip + 1, _ :: cs => expandFrom skip cs
  | 0, c :: cs =>
    match block? (c :: cs) with
    | some (header, body, rest) => do
      let vs ← values (String.ofList header)
      let tail ← expandFrom (cs.length - rest.length) cs
      pure (repeated body vs ++ tail)
    | none => (expandFrom 0 cs).map (c :: ·)

/-- Expands every block of a text. -/
def expand (input : String) : Except ExpressionFault String :=
  (expandFrom 0 input.toList).map String.ofList

end Workload.Range
