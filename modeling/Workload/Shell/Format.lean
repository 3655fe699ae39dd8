import Workload.Shell.Escape
import Workload.Shell.Real
import Workload.Text

/-!
# Formats

How `printf` writes texts and numbers in the places that its format has for them.
-/

namespace Workload.Shell

/-! ### Conversions -/

/-- How a conversion is to be written. -/
structure Directive where
  left : Bool := false
  plus : Bool := false
  space : Bool := false
  zero : Bool := false
  alternate : Bool := false
  width : Nat := 0
  precision : Option Nat := none

namespace Directive

/-- Puts blanks or zeros next to a text with a sign. -/
def pad (d : Directive) (zeros : Bool) (sign body : String) : String :=
  let n := d.width - sign.length - body.length
  if d.left then sign ++ body ++ String.ofList (List.replicate n ' ')
  else if d.zero && zeros then sign ++ String.ofList (List.replicate n '0') ++ body
  else String.ofList (List.replicate n ' ') ++ sign ++ body

def text (d : Directive) (s : String) : String :=
  d.pad false "" (match d.precision with
    | some n => String.ofList (s.toList.take n)
    | none => s)

def signOf (d : Directive) (negative : Bool) : String :=
  if negative then "-" else if d.plus then "+" else if d.space then " " else ""

/-- Digits with at least as many of them as asked for. -/
def atLeast (d : Directive) (ds : List Char) : List Char :=
  match d.precision with
  | some n => if n = 0 && ds = ['0'] then [] else List.replicate (n - ds.length) '0' ++ ds
  | none => ds

def signed (d : Directive) (n : Int) : String :=
  d.pad d.precision.isNone (d.signOf (n < 0)) (String.ofList (d.atLeast (toString n.natAbs).toList))

def unsigned (d : Directive) (c : Char) (n : Nat) : String :=
  let base := if c = 'o' then 8 else if c = 'u' then 10 else 16
  let ds := Nat.toDigits base n
  let ds := if c = 'X' then ds.map Char.toUpper else ds
  let ds := d.atLeast ds
  let ds := if d.alternate && c = 'o' && ds.head? ≠ some '0' then '0' :: ds else ds
  let sign := if d.alternate && n ≠ 0 && base = 16 then (if c = 'X' then "0X" else "0x") else ""
  d.pad d.precision.isNone sign (String.ofList ds)

/-- The digits of a quotient with some places behind the point. -/
def fixedDigits (places num den : Nat) : List Char × List Char :=
  let ds := (toString (roundDiv (num * Nat.pow 10 places) den)).toList
  let ds := List.replicate (places + 1 - ds.length) '0' ++ ds
  (ds.take (ds.length - places), ds.drop (ds.length - places))

/-- The power of ten of the first digit, found from above. -/
def firstPower (num den : Nat) : (fuel : Nat) → Int → Int
  | 0, e => e
  | fuel + 1, e =>
    let fits : Bool := match e with
      | .ofNat k => den * Nat.pow 10 k ≤ num
      | .negSucc k => den ≤ num * Nat.pow 10 (k + 1)
    if fits then e else firstPower num den fuel (e - 1)

/-- The digits of a quotient with some places behind the first, and the power of ten of that. -/
def exponentDigits (places num den : Nat) : List Char × Int :=
  if num = 0 then (List.replicate (places + 1) '0', 0)
  else
    let guess : Int := ((num.log2 : Int) - (den.log2 : Int)) * 30103 / 100000 + 2
    let e := firstPower num den 8 guess
    let shift : Int := places - e
    let m := match shift with
      | .ofNat k => roundDiv (num * Nat.pow 10 k) den
      | .negSucc k => roundDiv num (den * Nat.pow 10 (k + 1))
    let ds := (toString m).toList
    if places + 1 < ds.length then (ds.take (places + 1), e + 1) else (ds, e)

def withPoint (d : Directive) (whole part : List Char) : List Char :=
  if part.isEmpty then (if d.alternate then whole ++ ['.'] else whole) else whole ++ '.' :: part

def exponentText (e : Int) : List Char :=
  let ds := (toString e.natAbs).toList
  'e' :: (if e < 0 then '-' else '+') :: (List.replicate (2 - ds.length) '0' ++ ds)

/-- A real number by one of the letters `f`, `e` and `g`. -/
def real (d : Directive) (c : Char) (x : RealNumber) : String :=
  let upper := c.isUpper
  let recase := fun (s : List Char) => String.ofList (if upper then s.map Char.toUpper else s)
  match x.ratio? with
  | none => d.pad false (d.signOf x.negative) (recase (if x.isNumber then "inf" else "nan").toList)
  | some (num, den) =>
    let places := d.precision.getD 6
    let body := match c.toLower with
      | 'f' =>
        let (whole, part) := fixedDigits places num den
        d.withPoint whole part
      | 'e' =>
        let (ds, e) := exponentDigits places num den
        d.withPoint (ds.take 1) (ds.drop 1) ++ exponentText e
      | _ =>
        let places := if places = 0 then 1 else places
        let (ds, e) := exponentDigits (places - 1) num den
        let strip := fun (part : List Char) =>
          if d.alternate then part else (part.reverse.dropWhile (· = '0')).reverse
        if e < -4 || (places : Int) ≤ e then
          d.withPoint (ds.take 1) (strip (ds.drop 1)) ++ exponentText e
        else
          let (whole, part) := fixedDigits ((places : Int) - 1 - e).toNat num den
          d.withPoint whole (strip part)
    d.pad true (d.signOf x.negative) (recase body)

end Directive

/-! ### printf -/

/-- What has been printed, what is to be said about it, and what arguments are left. -/
structure Printing where
  text : List String := []
  messages : List String := []
  code : Nat := 0
  args : List String
  /-- Whether nothing more is to be printed. -/
  stopped : Bool := false

namespace Printing

def add (t : String) (p : Printing) : Printing := { p with text := t :: p.text }

def complain (m : String) (p : Printing) : Printing :=
  { p with messages := p.messages ++ [m], code := 1 }

/-- Takes an argument off. -/
def pop (p : Printing) : Option String × Printing :=
  match p.args with
  | a :: rest => (some a, { p with args := rest })
  | [] => (none, p)

def badNumber (f : Flavor) (a : String) (some_ : Bool) : String :=
  match f with
  | .dash => a ++ ": " ++ if some_ then "not completely converted" else "expected numeric value"
  | .bash => a ++ ": invalid number"
  | .program => "'" ++ a ++ "': " ++
    if some_ then "value not completely converted" else "expected a numeric value"

/-- Takes an integer off, with what is to be said if it is none. -/
def popInteger (f : Flavor) (signed : Bool) (p : Printing) : Int × Printing :=
  match p.pop with
  | (none, p) => (0, p)
  | (some a, p) =>
    match a.toList with
    | '"' :: c :: _ | '\'' :: c :: _ => (c.toNat, p)
    | ['"'] | ['\''] => (0, p)
    | _ =>
      if a.isEmpty then (0, if f = .bash then p else p.complain (badNumber f a false))
      else
        match integerOf a with
        | none => (0, p.complain (badNumber f a false))
        | some (n, rest) =>
          let p := if rest.isEmpty then p else p.complain (badNumber f a true)
          let low : Int := -(Nat.pow 2 63 : Nat)
          let high : Int := if signed then (Nat.pow 2 63 : Nat) - 1 else (Nat.pow 2 64 : Nat) - 1
          let range := match f with
            | .dash => a ++ ": Numerical result out of range"
            | .bash => "warning: " ++ a ++ ": Numerical result out of range"
            | .program => "'" ++ a ++ "': Numerical result out of range"
          if n < (if signed then low else -(Nat.pow 2 64 : Nat) + 1) then
            (if signed then low else high, p.complain range)
          else if high < n then (high, p.complain range)
          else (n, p)

def popReal (f : Flavor) (p : Printing) : RealNumber × Printing :=
  let zero : RealNumber := { negative := false, ratio? := some (0, 1) }
  match p.pop with
  | (none, p) => (zero, p)
  | (some a, p) =>
    match a.toList with
    | '"' :: c :: _ | '\'' :: c :: _ => ({ negative := false, ratio? := some (c.toNat, 1) }, p)
    | _ =>
      match realOf? (if f = .dash then 53 else 64) a with
      | none => (zero, if a.isEmpty && f = .bash then p else p.complain (badNumber f a false))
      | some (x, rest) => (x, if rest.isEmpty then p else p.complain (badNumber f a true))

/-- Reads a number of a directive, which can be an argument. -/
def readCount (f : Flavor) (s : List Char) (p : Printing) : Option Int × List Char × Printing :=
  match s with
  | '*' :: rest =>
    let (n, p) := p.popInteger f true
    (some n, rest, p)
  | s =>
    let ds := s.takeWhile Char.isDigit
    (Text.natOf? 10 ds |>.map Int.ofNat, s.drop ds.length, p)

/-- Prints by a directive that follows a percent sign; what follows it. -/
def directive (f : Flavor) (quote : String → String) (s : List Char) (p : Printing) :
    List Char × Printing :=
  let flags := s.takeWhile fun c => c = '-' || c = '+' || c = ' ' || c = '0' || c = '#' || (c = '\'' && f ≠ .dash)
  let s' := s.drop flags.length
  let (width, s', p) := readCount f s' p
  let (precision, s', p) : Option Int × List Char × Printing := match s' with
    | '.' :: rest =>
      let (n, rest, p) := readCount f rest p
      (some (n.getD 0), rest, p)
    | rest => (none, rest, p)
  let d : Directive :=
    { left := flags.contains '-' || width.any (· < 0)
      plus := flags.contains '+'
      space := flags.contains ' '
      zero := flags.contains '0'
      alternate := flags.contains '#'
      width := (width.getD 0).natAbs
      precision := precision.bind fun n => if n < 0 then none else some n.toNat }
  let s' := if f = .dash then s'
    else s'.dropWhile fun c => c = 'h' || c = 'l' || c = 'L' || c = 'j' || c = 't' || c = 'z'
  let shown := String.ofList ('%' :: s.take (s.length - s'.length))
  match s' with
  | [] =>
    match f with
    | .dash => ([], { p.complain "missing format character" with stopped := true })
    | .bash =>
      ([], { p.complain ("\x60" ++ shown ++ "': missing format character") with stopped := true })
    | .program => ([], { p.complain (shown ++ ": invalid conversion specification") with stopped := true })
  | c :: rest =>
    match c with
    | 's' =>
      let (a, p) := p.pop
      (rest, p.add (d.text (a.getD "")))
    | 'b' =>
      let (a, p) := p.pop
      let (t, stop) := unescaped (if f = .bash then .program else f) (a.getD "")
      let t := if f = .bash then (unescape .bash true true ((a.getD "").length + 1) [] (a.getD "").toList).1
        |> String.ofList else t
      (rest, { p.add (d.text t) with stopped := stop })
    | 'c' =>
      let (a, p) := p.pop
      let one := (a.getD "").toList.take 1
      (rest, p.add (d.pad false "" (String.ofList
        (if one.isEmpty then (if f = .program then [] else ['\x00']) else one))))
    | 'q' =>
      if f = .dash then (rest, { p.complain (shown ++ "q: invalid directive") with stopped := true, code := 2 })
      else
        let (a, p) := p.pop
        (rest, p.add (d.text (quote (a.getD ""))))
    | 'd' | 'i' =>
      let (n, p) := p.popInteger f true
      (rest, p.add (d.signed n))
    | 'o' | 'u' | 'x' | 'X' =>
      let (n, p) := p.popInteger f false
      (rest, p.add (d.unsigned c (n % (Nat.pow 2 64 : Nat)).toNat))
    | 'f' | 'F' | 'e' | 'E' | 'g' | 'G' =>
      let (x, p) := p.popReal f
      (rest, p.add (d.real c x))
    | _ =>
      match f with
      | .dash =>
        ([], { p.complain (shown ++ c.toString ++ ": invalid directive") with stopped := true, code := 2 })
      | .bash =>
        ([], { p.complain ("\x60" ++ c.toString ++ "': invalid format character") with stopped := true })
      | .program =>
        ([], { p.complain (shown ++ c.toString ++ ": invalid conversion specification") with stopped := true })

/-- Prints a format once. -/
def once (f : Flavor) (quote : String → String) : (fuel : Nat) → List Char → Printing → Printing
  | 0, _, p => p
  | _, [], p => p
  | fuel + 1, c :: s, p =>
    if p.stopped then p
    else if c = '%' then
      if s.head? = some '%' then once f quote fuel s.tail (p.add "%")
      else
        let (rest, p) := p.directive f quote s
        once f quote fuel rest p
    else if c = '\\' then
      if f ≠ .dash && s.head? = some 'c' then { p with stopped := true }
      else
        match readEscape f false true s with
        | .stop => { p with stopped := true }
        | .bytes cs rest => once f quote fuel rest (p.add (String.ofList cs))
    else once f quote fuel s (p.add c.toString)

/-- Prints a format again until no argument is left. -/
def all (f : Flavor) (quote : String → String) (format : List Char) : (fuel : Nat) → Printing → Printing
  | 0, p => p
  | fuel + 1, p =>
    let q := p.once f quote (format.length + 1) format
    if q.stopped || q.args.isEmpty || q.args.length = p.args.length then q
    else all f quote format fuel q

def output (p : Printing) : String := String.join p.text.reverse

end Printing

/-- What `printf` prints. -/
def printFormat (f : Flavor) (quote : String → String) (format : String) (args : List String) :
    Printing :=
  Printing.all f quote format.toList (args.length + 2) { args }

end Workload.Shell
