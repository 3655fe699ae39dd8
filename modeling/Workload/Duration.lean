import Workload.Decimal.Double
import Workload.Text

/-!
# Durations

A duration is a whole number of nanoseconds whose seconds fit 64 bits.  A text such as `1m30s` adds
up amounts with their units; every amount is scaled in double precision and then rounded to the
nearest nanosecond, a tie going to the even one.  A text that is a bare number counts nanoseconds.
-/

namespace Workload

/-- A span of time in nanoseconds. -/
structure Duration where
  nanos : Nat
  deriving DecidableEq, Repr, Inhabited

namespace Duration

def zero : Duration := ⟨0⟩

/-- The first number of seconds that no duration has. -/
def secondsLimit : Nat := Nat.pow 2 64

def ofMillis (ms : Nat) : Duration := ⟨ms * 1000000⟩

/-- The milliseconds after which a duration has passed. -/
def millisUp (d : Duration) : Nat := (d.nanos + 999999) / 1000000

/-- The whole seconds of a duration. -/
def seconds (d : Duration) : Nat := d.nanos / 1000000000

/-- The nanoseconds beyond the whole seconds. -/
def subsecNanos (d : Duration) : Nat := d.nanos % 1000000000

/-- Rounds seconds in double precision to nanoseconds, if they fit a duration. -/
def ofDouble? (x : Double) : Option Duration :=
  let n := roundDiv (x.ratio.1 * 1000000000) x.ratio.2
  if n < secondsLimit * 1000000000 then some ⟨n⟩ else none

/-- The sum, if it fits a duration. -/
def add? (a b : Duration) : Option Duration :=
  let n := a.nanos + b.nanos
  if n < secondsLimit * 1000000000 then some ⟨n⟩ else none

/-- The units an amount can be given in. -/
inductive TimeUnit where
  | nanosecond | microsecond | millisecond | second | minute | hour
  deriving DecidableEq, Repr

/-- Microseconds are written with a plain `u` or with the micro sign. -/
def TimeUnit.parse? (s : List Char) : Option TimeUnit :=
  if s = ['n', 's'] then some .nanosecond
  else if s = ['u', 's'] || s = ['µ', 's'] then some .microsecond
  else if s = ['m', 's'] then some .millisecond
  else if s = ['s'] then some .second
  else if s = ['m'] then some .minute
  else if s = ['h'] then some .hour
  else none

/-- An amount of a unit in seconds, unless it leaves the range of double precision. -/
def TimeUnit.seconds? (unit : TimeUnit) (amount : Double) : Option Double :=
  match unit with
  | .nanosecond => amount.shrink? 1000000000
  | .microsecond => amount.shrink? 1000000
  | .millisecond => amount.shrink? 1000
  | .second => some amount
  | .minute => amount.scale? 60
  | .hour => amount.scale? 3600

/-- Why a text gives no duration. -/
inductive ParseFailure where
  /-- The text does not follow the form. -/
  | malformed
  /-- The text follows the form as far as it was read, but the total is out of range. -/
  | outOfRange
  deriving DecidableEq, Repr

/-- The characters of an amount. -/
def isAmountChar (c : Char) : Bool := c.isDigit || c = '.'

/-- The duration of a decimal amount of a unit, if every step to it stays in range. -/
def ofAmount? (digits places : Nat) (unit : TimeUnit) : Option Duration := do
  let value ← Double.ofDecimal? digits (-(places : Int))
  let seconds ← unit.seconds? value
  ofDouble? seconds

/-- The duration of the first amount of a text, and what of the text is left behind its unit. -/
def readPart (s : List Char) : Except ParseFailure (Duration × List Char) :=
  let amount := s.takeWhile isAmountChar
  let rest := s.dropWhile isAmountChar
  if rest.isEmpty || amount.isEmpty then .error .malformed
  else
    match pointDigits? amount, TimeUnit.parse? (rest.takeWhile fun c => !isAmountChar c) with
    | some (digits, places), some unit =>
      match ofAmount? digits places unit with
      | some part => .ok (part, rest.dropWhile fun c => !isAmountChar c)
      | none => .error .outOfRange
    | _, _ => .error .malformed

/-- Adds the amounts of a text to `total`, reading at most `fuel` of them. -/
def addParts : Nat → Duration → List Char → Except ParseFailure Duration
  | _, total, [] => .ok total
  | 0, _, _ :: _ => .error .malformed
  | fuel + 1, total, s =>
    match readPart s with
    | .ok (part, rest) =>
      match total.add? part with
      | some sum => addParts fuel sum rest
      | none => .error .outOfRange
    | .error failure => .error failure

/-- Reads a duration such as `90s`, `1m30s`, `250ms` or `1h`. -/
def parse (text : String) : Except ParseFailure Duration :=
  let s := Text.trim text.toList
  if s.isEmpty then .error .malformed
  else
    match Text.nat64Of? s with
    | some n => .ok ⟨n⟩
    | none => addParts s.length .zero s

end Duration

end Workload
