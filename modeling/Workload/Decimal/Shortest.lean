import Workload.Decimal.Double
import Workload.Yaml.Value

/-!
# Shortest decimals

A number in double precision is written with the fewest digits that read back as it, and of the
decimals with that many digits with the nearest.  Numbers from 1e-4 to below 1e16 are written
positionally, with at least one digit behind the point; all others with an exponent.
-/

namespace Workload.Double

/-- The denominator and the numerators of the number, and of the bounds within which a decimal reads
back as it, all over the same denominator. -/
def bounds (x : Double) : Nat × Nat × Nat × Nat :=
  let (num, den) := x.ratio
  let step := x.mant = Nat.pow 2 52 && x.exp ≠ -1074
  -- half a unit in the last place, over four times the denominator
  let unit := match x.exp with
    | .ofNat e => Nat.pow 2 e
    | .negSucc _ => 1
  let low := if step then unit else 2 * unit
  (4 * den, 4 * num, 4 * num - low, 4 * num + 2 * unit)

/-- Whether `m / den` lies within the bounds, which belong to them for an even mantissa. -/
def within (even : Bool) (m low high : Nat) : Bool :=
  if even then low ≤ m && m ≤ high else low < m && m < high

/-- The decimal `digits * 10 ^ power` of the grid that reads back, nearest to the number. -/
def onGrid? (x : Double) (power : Int) : Option Nat :=
  let (den, num, low, high) := x.bounds
  let even := x.mant % 2 = 0
  let (up, down) : Nat × Nat := match power with
    | .ofNat p => (1, Nat.pow 10 p)
    | .negSucc p => (Nat.pow 10 (p + 1), 1)
  -- a grid point is `k * down / up`
  let k := num * up / (den * down)
  let fits := fun k => within even (k * down * den) (low * up) (high * up)
  let below := k * down * den
  let above := (k + 1) * down * den
  match fits k, fits (k + 1) with
  | true, true =>
    let a := num * up - below
    let b := above - num * up
    some (if a < b then k else if b < a then k + 1 else if k % 2 = 0 then k else k + 1)
  | true, false => some k
  | false, true => some (k + 1)
  | false, false => none

/-- The first grid with a decimal that reads back, from coarse to fine. -/
def search (x : Double) : Nat → Int → Nat × Int
  | 0, power => (0, power)
  | n + 1, power =>
    match x.onGrid? power with
    | some k => if k = 0 then search x n (power - 1) else (k, power)
    | none => search x n (power - 1)

/-- The power of ten above a number. -/
def powerAbove (x : Double) : Int :=
  let bits : Int := x.exp + (x.mant.log2 : Int) + 1
  -- three bits are less than a digit
  if 0 ≤ bits then bits / 3 + 1 else -((-bits) * 3 / 10) + 1

/-- Drops the zeros at the end of a number, counting them. -/
def dropZeros : Nat → Nat → Int → Nat × Int
  | 0, k, p => (k, p)
  | n + 1, k, p => if k ≠ 0 ∧ k % 10 = 0 then dropZeros n (k / 10) (p + 1) else (k, p)

/-- The fewest digits that read back, and the power of ten of the last. -/
def shortest (x : Double) : Nat × Int :=
  if x.mant = 0 then (0, 0)
  else
    let (k, p) := x.search 400 x.powerAbove
    dropZeros 400 k p

end Workload.Double

namespace Workload.Yaml.Real

/-- From which power of ten on, and below which, numbers are written with an exponent. -/
def exponentFrom : Int := 16

def exponentBelow : Int := -4

/-- A positive number from its digits and the power of the last. -/
def decimalText (digits : Nat) (power : Int) : String :=
  let ds := (toString digits).toList
  let first := power + (ds.length : Int) - 1
  if digits = 0 then "0.0"
  else if exponentFrom ≤ first || first < exponentBelow then
    let tail := ds.drop 1
    String.ofList (ds.take 1 ++ (if tail.isEmpty then [] else '.' :: tail)) ++ "e" ++ toString first
  else
    match power with
    | .ofNat p => String.ofList (ds ++ List.replicate p '0') ++ ".0"
    | .negSucc p =>
      let places := p + 1
      let padded := List.replicate (places + 1 - ds.length) '0' ++ ds
      let whole := padded.length - places
      String.ofList (padded.take whole ++ '.' :: padded.drop whole)

/-- A number in double precision as it is shown. -/
def text : Real → String
  | .notANumber => "NaN"
  | .infinite false => "inf"
  | .infinite true => "-inf"
  | .finite negative x =>
    let (k, p) := x.shortest
    (if negative then "-" else "") ++ decimalText k p

end Workload.Yaml.Real
