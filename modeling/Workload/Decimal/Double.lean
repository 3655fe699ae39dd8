/-!
# Double precision

The finite numbers of double precision that are not negative, as `mant * 2 ^ exp`, and the rounding
of a quotient of natural numbers to the nearest of them.  A tie goes to the even mantissa, and a
quotient too large for the range has no nearest number.
-/

namespace Workload

/-- The number `mant * 2 ^ exp`. -/
structure Double where
  mant : Nat
  exp : Int
  deriving DecidableEq, Repr

/-- The natural number nearest to `num / den`; a tie goes to the even one. -/
def roundDiv (num den : Nat) : Nat :=
  let q := num / den
  let r := num % den
  if 2 * r < den then q
  else if den < 2 * r then q + 1
  else if q % 2 = 0 then q else q + 1

namespace Double

def zero : Double := ⟨0, 0⟩

/-- The numerator and denominator of the quotient that a number is. -/
def ratio (x : Double) : Nat × Nat :=
  match x.exp with
  | .ofNat e => (x.mant * Nat.pow 2 e, 1)
  | .negSucc e => (x.mant, Nat.pow 2 (e + 1))

/-- The exponent that gives `num / den` a mantissa of 53 bits, or the least exponent. -/
def exponentFor (num den : Nat) : Int :=
  let guess : Int := (num.log2 : Int) - (den.log2 : Int) - 52
  let small : Bool :=
    match guess with
    | .ofNat e => num < den * Nat.pow 2 e * Nat.pow 2 52
    | .negSucc e => num * Nat.pow 2 (e + 1) < den * Nat.pow 2 52
  max (if small then guess - 1 else guess) (-1074)

/-- The number nearest to `num / den`, unless that is too large. -/
def ofRatio? (num den : Nat) : Option Double :=
  if num = 0 then some zero
  else
    let e := exponentFor num den
    let m :=
      match e with
      | .ofNat k => roundDiv num (den * Nat.pow 2 k)
      | .negSucc k => roundDiv (num * Nat.pow 2 (k + 1)) den
    if 971 < e || (e = 971 && Nat.pow 2 53 ≤ m) then none
    else if m = Nat.pow 2 53 then some ⟨Nat.pow 2 52, e + 1⟩
    else some ⟨m, e⟩

/-- The number nearest to `digits * 10 ^ power`, unless that is too large.  Powers so far from zero
that the answer is plain are settled without computing them. -/
def ofDecimal? (digits : Nat) (power : Int) : Option Double :=
  if digits = 0 then some zero
  else
    let bits : Int := digits.log2
    if 400 < bits / 4 + power then none
    else if bits / 3 + 1 + power < -400 then some zero
    else
      match power with
      | .ofNat p => ofRatio? (digits * Nat.pow 10 p) 1
      | .negSucc p => ofRatio? digits (Nat.pow 10 (p + 1))

/-- The rounded product with a natural number. -/
def scale? (x : Double) (k : Nat) : Option Double :=
  ofRatio? (x.ratio.1 * k) x.ratio.2

/-- The rounded quotient by a natural number. -/
def shrink? (x : Double) (k : Nat) : Option Double :=
  ofRatio? x.ratio.1 (x.ratio.2 * k)

end Double

/-- The digits of a decimal text, as one number, and how many of them follow the point; there is at
most one point and at least one digit. -/
def pointDigits? (s : List Char) : Option (Nat × Nat) :=
  let whole := s.takeWhile Char.isDigit
  match s.dropWhile Char.isDigit with
  | [] => if whole.isEmpty then none else some (read whole, 0)
  | '.' :: tail =>
    if tail.all Char.isDigit && !(whole.isEmpty && tail.isEmpty) then
      some (read (whole ++ tail), tail.length)
    else none
  | _ => none
where
  read (ds : List Char) : Nat := ds.foldl (fun n c => 10 * n + (c.toNat - 48)) 0

end Workload
