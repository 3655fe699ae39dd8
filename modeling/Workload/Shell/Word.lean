/-!
# Words of shell commands

A shell command is made of words and operators.  A word is made of parts: text, values of parameters,
and outputs of commands.  What stands between quotes is one piece however blank it is.  Programs and
words within a part are kept as they are written, and read when they are needed.
-/

namespace Workload.Shell

/-- The shells. -/
inductive Dialect where
  | dash
  | bash
  deriving DecidableEq, Repr

def Dialect.isBash (d : Dialect) : Bool := d = .bash

/-- Which occurrences of a pattern are replaced. -/
inductive Occurrence where
  | first
  | all
  | front
  | back
  deriving DecidableEq, Repr

/-- What is done with the value of a parameter.  A `colon` lets an empty value count as none. -/
inductive Use where
  | plain
  | length
  /-- A word in the place of a value that is lacking. -/
  | fallback (colon : Bool) (word : String)
  /-- A word in the place of a value that there is. -/
  | given (colon : Bool) (word : String)
  /-- A word that becomes the value if that is lacking. -/
  | assign (colon : Bool) (word : String)
  /-- A message for the end of the shell if the value is lacking. -/
  | demand (colon : Bool) (word : String)
  /-- Takes away the shortest or the longest text at the start or the end that matches a pattern. -/
  | strip (back longest : Bool) (pattern : String)
  | slice (start : String) (length : Option String)
  | replace (which : Occurrence) (pattern word : String)
  /-- Changes the case of the first character or of all that match a pattern. -/
  | recase (upper all : Bool) (pattern : String)
  /-- The indices of an array. -/
  | keys
  /-- The names of the variables that begin with the name. -/
  | names
  | transform (operator : Char)
  /-- What no shell understands. -/
  | bad
  deriving DecidableEq, Repr

structure Parameter where
  name : String
  index : Option String := none
  /-- Whether the value is the name of the parameter that is meant. -/
  indirect : Bool := false
  use : Use := .plain
  deriving DecidableEq, Repr

inductive Part where
  | text (s : String) (quoted : Bool)
  | value (p : Parameter) (quoted : Bool)
  /-- The output of a program that is written from a line on. -/
  | output (line : Nat) (source : String) (quoted : Bool)
  | arithmetic (source : String) (quoted : Bool)
  /-- The path of a stream that a program writes to or reads from. -/
  | stream (line : Nat) (source : String) (writes : Bool)
  /-- An element of an array, at the start of an assignment. -/
  | target (name index : String) (adds : Bool)
  /-- The elements of an array, at the end of an assignment. -/
  | items (source : String)
  deriving DecidableEq, Repr

abbrev Word := List Part

/-- The texts of a word that is nothing but text. -/
def Word.literal? (w : Word) : Option (List (String × Bool)) :=
  w.mapM fun p => match p with
    | .text s q => some (s, q)
    | _ => none

/-- The word that stands unquoted for itself. -/
def Word.plain? : Word → Option String
  | [.text s false] => some s
  | _ => none

/-- A part as it can be written. -/
def Part.written : Part → String
  | .text s quoted => if quoted then "\"" ++ s ++ "\"" else s
  | .value p quoted =>
    let name := "$" ++ match p.use with
      | .plain => p.name
      | _ => "\x7b" ++ p.name ++ "\x7d"
    if quoted then "\"" ++ name ++ "\"" else name
  | .output _ source quoted => if quoted then "\"$(" ++ source ++ ")\"" else "$(" ++ source ++ ")"
  | .arithmetic source quoted => if quoted then "\"$((" ++ source ++ "))\"" else "$((" ++ source ++ "))"
  | .stream _ source writes => (if writes then "<(" else ">(") ++ source ++ ")"
  | .target name index adds => name ++ "[" ++ index ++ "]" ++ if adds then "+=" else "="
  | .items source => "(" ++ source ++ ")"

/-- A word as it can be written. -/
def Word.written (w : Word) : String := String.join (w.map Part.written)

/-- Where a stream goes to or comes from. -/
structure Redirect where
  stream : Option Nat
  operator : String
  target : Word
  /-- The number of the document that is read, among those of its line. -/
  document : Option Nat := none
  deriving DecidableEq, Repr

def isNameStart (c : Char) : Bool := c.isAlpha || c = '_'

def isNameChar (c : Char) : Bool := c.isAlphanum || c = '_'

/-- Whether a text can be the name of a variable. -/
def isName (s : String) : Bool :=
  match s.toList with
  | c :: cs => isNameStart c && cs.all isNameChar
  | [] => false

/-- The name and the equals sign that a word begins with, and the rest of the word. -/
def Word.assigned? : Word → Option (String × Word)
  | .text s false :: ps =>
    let cs := s.toList
    let name := cs.takeWhile isNameChar
    if isName (String.ofList name) && (cs.drop name.length).head? = some '=' then
      some (String.ofList (cs.take (name.length + 1)),
        .text (String.ofList (cs.drop (name.length + 1))) false :: ps)
    else none
  | _ => none

/-- The parameters with names of one character. -/
def isSpecial (c : Char) : Bool :=
  c.isDigit || c = '?' || c = '$' || c = '#' || c = '@' || c = '*' || c = '!' || c = '-'

/-!
## Quoted texts

How texts are written so that a shell reads them as they are.
-/

namespace State

/-- A text in quotes, so that a shell reads it as it is. -/
def quotedText (s : String) : String :=
  "'" ++ String.join (s.toList.map fun c => if c = '\'' then "'\\''" else c.toString) ++ "'"

/-- A text in quotes, with quotes of its own between others. -/
def doublyQuoted : (fuel : Nat) → List Char → String
  | 0, s => String.ofList s
  | fuel + 1, s =>
    let plain := s.takeWhile (· ≠ '\'')
    let behind := s.drop plain.length
    let quotes := behind.takeWhile (· = '\'')
    let rest := behind.drop quotes.length
    "'" ++ String.ofList plain ++ "'" ++
      if quotes.isEmpty then ""
      else
        "\"" ++ String.ofList quotes ++ "\"" ++ if rest.isEmpty then "" else doublyQuoted fuel rest

/-- A text so that dash reads it as it is. -/
def dashQuoted (s : String) : String := doublyQuoted (s.length + 1) s.toList

/-- Whether a text has characters that are shown by escapes. -/
def needsEscapes (s : String) : Bool := s.toList.any fun c => c < ' ' || '\x7e' < c

/-- A text between `$'` and `'`. -/
def escapedText (s : String) : String :=
  "$'" ++ String.join (s.toList.map fun c =>
    match c with
    | '\n' => "\\n"
    | '\t' => "\\t"
    | '\x0d' => "\\r"
    | '\x07' => "\\a"
    | '\x08' => "\\b"
    | '\x0b' => "\\v"
    | '\x0c' => "\\f"
    | '\x1b' => "\\E"
    | '\'' => "\\'"
    | '\\' => "\\\\"
    | c =>
      if c < ' ' || '\x7e' < c then
        let n := c.toNat
        "\\" ++ toString (n / 64) ++ toString (n / 8 % 8) ++ toString (n % 8)
      else c.toString) ++ "'"

/-- A text so that bash reads it as it is. -/
def bashQuoted (s : String) : String := if needsEscapes s then escapedText s else quotedText s

end State

end Workload.Shell
