import Workload.Shell.Arithmetic

/-!
# Escapes

The characters that backslashes and letters stand for, as `echo` and `printf` read them.
-/

namespace Workload.Shell

/-- Who prints: a shell itself, or a program. -/
inductive Flavor where
  | dash
  | bash
  | program
  deriving DecidableEq, Repr

/-- How an escape is read: the bytes and what follows, or the end of the output. -/
inductive Escape where
  | bytes (cs rest : List Char)
  | stop

/-- The escape that follows a backslash; `zero` tells that octal numbers begin with a further zero, and
`plain` that they can also do without. -/
def readEscape (f : Flavor) (zero plain : Bool) (s : List Char) : Escape :=
  match s with
  | [] => .bytes ['\\'] []
  | c :: cs =>
    match escape? c with
    | some d => .bytes [d] cs
    | none =>
      let keep := Escape.bytes ['\\', c] cs
      if c = 'c' && zero then .stop
      else if c = '0' && zero then
        match digits 8 3 cs with
        | some (v, rest) => .bytes [Char.ofNat (v % 256)] rest
        | none => .bytes ['\x00'] cs
      else if '0' ≤ c && c ≤ '7' then
        if plain then
          match digits 8 3 (c :: cs) with
          | some (v, rest) => .bytes [Char.ofNat (v % 256)] rest
          | none => keep
        else keep
      else if f = .dash then keep
      else
        match c with
        | 'e' | 'E' => .bytes ['\x1b'] cs
        | '"' => if zero then keep else .bytes ['"'] cs
        | '\'' => if f = .bash && !zero then .bytes ['\''] cs else keep
        | '?' => if f = .bash && !zero then .bytes ['?'] cs else keep
        | 'x' =>
          match digits 16 2 cs with
          | some (v, rest) => .bytes [Char.ofNat v] rest
          | none => keep
        | 'u' =>
          match digits 16 4 cs with
          | some (v, rest) => .bytes (encoded v) rest
          | none => keep
        | 'U' =>
          match digits 16 8 cs with
          | some (v, rest) => .bytes (encoded v) rest
          | none => keep
        | _ => keep

/-- Replaces escapes; the second result tells that nothing more is to be printed. -/
def unescape (f : Flavor) (zero plain : Bool) : (fuel : Nat) → List Char → List Char → List Char × Bool
  | 0, acc, s => (acc.reverse ++ s, false)
  | _, acc, [] => (acc.reverse, false)
  | fuel + 1, acc, '\\' :: s =>
    match readEscape f zero plain s with
    | .stop => (acc.reverse, true)
    | .bytes cs rest => unescape f zero plain fuel (cs.reverse ++ acc) rest
  | fuel + 1, acc, c :: s => unescape f zero plain fuel (c :: acc) s

/-- Replaces the escapes of a text. -/
def unescaped (f : Flavor) (s : String) : String × Bool :=
  let (cs, stop) := unescape f true (f ≠ .bash) (s.length + 1) [] s.toList
  (String.ofList cs, stop)

/-! ### echo -/

/-- Whether an argument of `echo` is made of its options. -/
def isEchoOption (a : String) : Bool :=
  match a.toList with
  | '-' :: c :: cs => (c :: cs).all fun d => d = 'n' || d = 'e' || d = 'E'
  | _ => false

/-- What `echo` prints. -/
def echoText (f : Flavor) (args : List String) : String :=
  if f = .dash then
    let silent := args.head? = some "-n"
    let (text, stop) := unescaped f (String.intercalate " " (if silent then args.tail else args))
    if silent || stop then text else text ++ "\n"
  else
    let options := args.takeWhile isEchoOption
    let letters := options.flatMap fun o => o.toList.drop 1
    let text := String.intercalate " " (args.drop options.length)
    let escapes := (letters.filter fun c => c = 'e' || c = 'E').getLast? = some 'e'
    let (text, stop) := if escapes then unescaped f text else (text, false)
    if letters.contains 'n' || stop then text else text ++ "\n"

end Workload.Shell
