import Workload.Shell.Word

/-!
# Sources

What is left of a program while it is read, and what ends the words in it.
-/

namespace Workload.Shell

inductive Token where
  | word (w : Word)
  | operator (text : String)
  /-- A redirection of a stream, and which one if it is not the usual one. -/
  | redirect (stream : Option Nat) (text : String)
  | newline
  | final
  deriving DecidableEq, Repr

/-- A document that follows the line: the line that ends it, whether tabs are taken off its lines, and
whether values are put into it. -/
structure Document where
  stop : String
  tabs : Bool
  alive : Bool
  deriving DecidableEq, Repr

/-- What is left of a program. -/
structure Source where
  chars : List Char
  line : Nat := 1
  /-- The number of the line behind the last one. -/
  lastLine : Nat := 1
  /-- A token that has been read already. -/
  ahead : Option Token := none
  /-- The documents that follow this line. -/
  waiting : List Document := []
  /-- The documents that have been read. -/
  documents : List Word := []
  /-- Texts that stand for the names of commands. -/
  aliases : List (String × String) := []
  /-- The names whose texts are being read, and how much there is behind those. -/
  expanding : List (String × Nat) := []

/-- What is no program, and in which line. -/
structure SyntaxFault where
  line : Nat
  text : String
  /-- Whether the program ends too early. -/
  atEnd : Bool := false
  deriving DecidableEq, Repr

/-- Reads from a source. -/
abbrev Reader (α : Type) := StateT Source (Except SyntaxFault) α

namespace Reader

def fail {α : Type} (text : String) : Reader α := do throw { line := (← get).line, text }

def chars : Reader (List Char) := return (← get).chars

/-- Takes characters off. -/
def drop (n : Nat) : Reader Unit :=
  modify fun s =>
    { s with
      chars := s.chars.drop n
      line := s.line + (s.chars.take n).count '\n' }

/-- More than the number of characters that are left. -/
def bound : Reader Nat := return (← get).chars.length + 2

/-- The characters that a reader takes off. -/
def taken (r : Reader Unit) : Reader (List Char) := do
  let before ← chars
  r
  let after ← chars
  return before.take (before.length - after.length)

end Reader

/-- Where parts of words are read. -/
inductive Mode where
  /-- A word by itself. -/
  | bare
  /-- Between braces. -/
  | braced
  /-- Between braces, up to a slash. -/
  | slashed
  /-- To the end of the text. -/
  | whole
  /-- Between double quotes. -/
  | quoted
  /-- Between braces that are between double quotes. -/
  | quotedBraced
  /-- To the end of a text that is between double quotes. -/
  | quotedWhole
  /-- A document with values. -/
  | document
  /-- To the end of an arithmetic expression. -/
  | formula
  /-- A regular expression, in which parentheses are open. -/
  | regex (depth : Nat)
  deriving DecidableEq, Repr

namespace Mode

def isQuoted : Mode → Bool
  | .quoted | .quotedBraced | .quotedWhole | .document | .formula => true
  | _ => false

/-- Whether the text ends too early if there is no end. -/
def mustEnd : Mode → Bool
  | .braced | .slashed | .quoted | .quotedBraced => true
  | _ => false

/-- The characters that end a word. -/
def endsWord (c : Char) : Bool :=
  c = ' ' || c = '\t' || c = '\n' || c = ';' || c = '&' || c = '|' || c = '<' || c = '>' ||
    c = '(' || c = ')'

/-- Whether a character ends what is read. -/
def ends (c : Char) : Mode → Bool
  | .bare => endsWord c
  | .braced | .quotedBraced => c = '\x7d'
  | .slashed => c = '\x7d' || c = '/'
  | .quoted => c = '"'
  | .regex 0 => c = ' ' || c = '\t' || c = '\n' || c = ')' || c = ';' || c = '&'
  | .regex (_ + 1) => c = '\n'
  | _ => false

/-- Whether a backslash takes the meaning of a character away. -/
def escapes (c : Char) : Mode → Bool
  | .quoted => c = '$' || c = '"' || c = '\\' || c = '\x60'
  | .quotedBraced | .quotedWhole => c = '$' || c = '"' || c = '\\' || c = '\x60' || c = '\x7d'
  | .formula => c = '$' || c = '"' || c = '\\' || c = '\x60'
  | .document => c = '$' || c = '\\' || c = '\x60'
  | _ => true

end Mode

/-- Adds a character to a word that is read backwards. -/
def Word.push (c : Char) (quoted : Bool) : Word → Word
  | .text s q :: ps => if q = quoted then .text (s.push c) q :: ps
    else .text (String.singleton c) quoted :: .text s q :: ps
  | ps => .text (String.singleton c) quoted :: ps

/-- What stands before a closing bracket of `depth` open ones, and what follows it. -/
def untilClosed (opening closing : Char) : Nat → List Char → Option (List Char × List Char)
  | _, [] => none
  | depth, c :: cs =>
    if c = closing then
      match depth with
      | 0 => some ([], cs)
      | depth + 1 => (untilClosed opening closing depth cs).map fun r => (c :: r.1, r.2)
    else
      (untilClosed opening closing (if c = opening then depth + 1 else depth) cs).map fun r =>
        (c :: r.1, r.2)

/-- Whether a word that is read backwards is the start of an assignment. -/
def Word.assigns : Word → Bool
  | [.text s false] =>
    match s.toList.reverse with
    | '=' :: '+' :: name | '=' :: name => isName (String.ofList name.reverse)
    | _ => false
  | _ => false

end Workload.Shell
