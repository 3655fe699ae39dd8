import Workload.Decimal.Double
import Workload.Shell.Arithmetic

/-!
# Numbers of arguments

Arguments are read as numbers, which are rounded to as many bits as the shell computes with.
-/

namespace Workload.Shell

/-- A real number: its sign, and the quotient that it is; without one it is no finite number, and may be
no number at all. -/
structure RealNumber where
  negative : Bool
  ratio? : Option (Nat × Nat)
  isNumber : Bool := true

/-- The quotient nearest to a quotient among those with a mantissa of some bits. -/
def nearest (bits num den : Nat) : Nat × Nat :=
  if num = 0 then (0, 1)
  else
    let guess : Int := (num.log2 : Int) - (den.log2 : Int) - bits + 1
    let scaled := fun (e : Int) =>
      match e with
      | .ofNat k => (num, den * Nat.pow 2 k)
      | .negSucc k => (num * Nat.pow 2 (k + 1), den)
    let (n, d) := scaled guess
    let e := if n < d * Nat.pow 2 (bits - 1) then guess - 1 else guess
    let (n, d) := scaled e
    let m := roundDiv n d
    match e with
    | .ofNat k => (m * Nat.pow 2 k, 1)
    | .negSucc k => (m, Nat.pow 2 (k + 1))

/-- The real number that a text begins with, and what follows it. -/
def realOf? (bits : Nat) (text : String) : Option (RealNumber × List Char) :=
  let s := text.toList.dropWhile fun c => c = ' ' || ('\t' ≤ c && c ≤ '\x0d')
  let (negative, s) := match s with
    | '-' :: cs => (true, cs)
    | '+' :: cs => (false, cs)
    | cs => (false, cs)
  let word := fun (w : String) =>
    (s.take w.length).map Char.toLower = w.toList
  if word "infinity" then some ({ negative, ratio? := none }, s.drop 8)
  else if word "inf" then some ({ negative, ratio? := none }, s.drop 3)
  else if word "nan" then some ({ negative, ratio? := none, isNumber := false }, s.drop 3)
  else
    let hex := match s with
      | '0' :: x :: h :: _ => (x = 'x' || x = 'X') && (digit h < 16 || h = '.')
      | _ => false
    let base := if hex then 16 else 10
    let s := if hex then s.drop 2 else s
    let isDigit := fun (c : Char) => digit c < base
    let whole := s.takeWhile isDigit
    let rest := s.drop whole.length
    let (part, rest) := match rest with
      | '.' :: cs => (cs.takeWhile isDigit, cs.dropWhile isDigit)
      | cs => ([], cs)
    let value := (whole ++ part).foldl (fun n c => base * n + digit c) 0
    if whole.isEmpty && part.isEmpty then none
    else
      let exponent? : Option (Int × List Char) := match rest with
        | e :: cs =>
          if (if hex then e = 'p' || e = 'P' else e = 'e' || e = 'E') then
            let (minus, ds) := match cs with
              | '-' :: ds => (true, ds)
              | '+' :: ds => (false, ds)
              | ds => (false, ds)
            match digits 10 6 ds with
            | some (n, more) => some (if minus then -(n : Int) else n, more)
            | none => none
          else none
        | [] => none
      let (exponent, rest) := exponent?.getD (0, rest)
      let num := value * (match exponent with
        | .ofNat k => Nat.pow (if hex then 2 else 10) (min k 5000)
        | .negSucc _ => 1)
      let den := Nat.pow base part.length * (match exponent with
        | .ofNat _ => 1
        | .negSucc k => Nat.pow (if hex then 2 else 10) (min (k + 1) 5000))
      some ({ negative, ratio? := some (nearest bits num den) }, rest)

/-- The integer that an argument of `printf` begins with, the rest, and whether it lies out of range. -/
def integerOf (text : String) : Option (Int × List Char) :=
  let s := text.toList.dropWhile fun c => c = ' ' || ('\t' ≤ c && c ≤ '\x0d')
  let (negative, s) := match s with
    | '-' :: cs => (true, cs)
    | '+' :: cs => (false, cs)
    | cs => (false, cs)
  let n := Arithmetic.numeral .dash s
  if n.isEmpty then none
  else
    let (base, ds) := match n with
      | '0' :: x :: ds => if x = 'x' || x = 'X' then (16, ds) else (8, x :: ds)
      | ds => (10, ds)
    let v : Int := ds.foldl (fun v c => base * v + digit c) 0
    some (if negative then -v else v, s.drop n.length)

end Workload.Shell
