import Workload.Text
import Workload.Yaml.Value

/-!
# What a plain scalar means

A plain scalar is null, a truth value, a whole number or a number in double precision if it is
written like one, and a text otherwise.  Digits behind a leading zero are a text.
-/

namespace Workload.Yaml

def isNull (s : List Char) : Bool :=
  [['~'], "null".toList, "Null".toList, "NULL".toList].contains s

def bool? (s : List Char) : Option Bool :=
  if ["true".toList, "True".toList, "TRUE".toList].contains s then some true
  else if ["false".toList, "False".toList, "FALSE".toList].contains s then some false
  else none

/-- Digits that are no number because they start with a zero. -/
def isPaddedDigits (s : List Char) : Bool :=
  let s := match s with
    | '-' :: cs => cs
    | '+' :: cs => cs
    | cs => cs
  match s with
  | '0' :: c :: cs => (c :: cs).all Char.isDigit
  | _ => false

/-- The base that a lead of two characters announces, and the digits behind it. -/
def based? : List Char → Option (Nat × List Char)
  | '0' :: 'x' :: cs => some (16, cs)
  | '0' :: 'o' :: cs => some (8, cs)
  | '0' :: 'b' :: cs => some (2, cs)
  | _ => none

/-- The text behind a plus sign, which no further sign may follow. -/
def dropPlus? : List Char → Option (List Char)
  | '+' :: cs => if cs.head? = some '+' || cs.head? = some '-' then none else some cs
  | cs => some cs

/-- A whole number below `limit`. -/
def unsigned? (limit : Nat) (s : List Char) : Option Nat := do
  let body := match s with
    | '+' :: cs => cs
    | cs => cs
  if let some (base, digits) := based? body then
    if digits.head? = some '+' || digits.head? = some '-' then none
    if let some n := Text.unsignedOf? base limit digits then return n
  if body.head? = some '+' || body.head? = some '-' || isPaddedDigits s then none
  Text.unsignedOf? 10 limit body

/-- A whole number of at least `-limit` and below `limit`. -/
def signed? (limit : Nat) (s : List Char) : Option Int := do
  let body ← dropPlus? s
  if let some (base, digits) := based? body then
    if digits.head? = some '+' || digits.head? = some '-' then none
    if let some n := Text.signedOf? base limit digits then return n
  if let '-' :: cs := s then
    if let some (base, digits) := based? cs then
      if let some n := Text.signedOf? base limit ('-' :: digits) then return n
  if isPaddedDigits s then none
  Text.signedOf? 10 limit body

/-- A whole number of at least `-limit` that is written with a minus sign or plainly. -/
def negative? (limit : Nat) (s : List Char) : Option Int := do
  if let '-' :: cs := s then
    if let some (base, digits) := based? cs then
      if let some n := Text.signedOf? base limit ('-' :: digits) then return n
  if isPaddedDigits s then none
  Text.signedOf? 10 limit s

/-- The exponent part of a decimal: its value, zero if there is none. -/
def exponent? (s : List Char) : Option Int :=
  match s with
  | [] => some 0
  | e :: cs =>
    if e = 'e' || e = 'E' then
      match cs with
      | '-' :: ds => (Text.natOf? 10 ds).map fun n => -(n : Int)
      | '+' :: ds => (Text.natOf? 10 ds).map fun n => (n : Int)
      | ds => (Text.natOf? 10 ds).map fun n => (n : Int)
    else none

/-- A decimal that is not negative, unless it is too large. -/
def decimal? (s : List Char) : Option Double := do
  let isExp := fun c : Char => c = 'e' || c = 'E'
  let (digits, places) ← pointDigits? (s.takeWhile fun c => !isExp c)
  let power ← exponent? (s.dropWhile fun c => !isExp c)
  Double.ofDecimal? digits (power - (places : Int))

/-- A number in double precision. -/
def real? (s : List Char) : Option Real := do
  let body ← dropPlus? s
  if [".inf".toList, ".Inf".toList, ".INF".toList].contains body then return .infinite false
  if ["-.inf".toList, "-.Inf".toList, "-.INF".toList].contains s then return .infinite true
  if [".nan".toList, ".NaN".toList, ".NAN".toList].contains s then return .notANumber
  match body with
  | '-' :: cs => (decimal? cs).map (.finite true)
  | cs => (decimal? cs).map (.finite false)

/-- What a plain scalar can mean. -/
inductive Plain where
  | null
  | bool (b : Bool)
  /-- A whole number of 64 bits. -/
  | int (n : Int)
  /-- A whole number of more than 64 bits, up to 128. -/
  | wide (n : Int)
  | real (x : Real)
  | text
  deriving DecidableEq, Repr

/-- A whole number of any width that a value can have. -/
def whole? (s : List Char) : Option Plain :=
  match unsigned? (Nat.pow 2 64) s with
  | some n => some (.int n)
  | none =>
    match negative? (Nat.pow 2 63) s with
    | some n => some (.int n)
    | none =>
      match unsigned? (Nat.pow 2 128) s with
      | some n => some (.wide n)
      | none => (negative? (Nat.pow 2 127) s).map .wide

/-- The meaning of a plain scalar. -/
def plain (s : List Char) : Plain :=
  if s.isEmpty || isNull s then .null
  else
    match bool? s with
    | some b => .bool b
    | none =>
      match whole? s with
      | some p => p
      | none =>
        if isPaddedDigits s then .text
        else
          match real? s with
          | some x => .real x
          | none => .text

end Workload.Yaml
