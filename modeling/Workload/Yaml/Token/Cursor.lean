/-!
# Reading position

A cursor is the text still to be read and the place it starts at.  Lines end at a line feed, a
carriage return, both, a next line, a line separator or a paragraph separator.
-/

namespace Workload.Yaml

def isBreak (c : Char) : Bool :=
  c = '\n' || c = '\r' || c = '\x85' || c = '\u2028' || c = '\u2029'

/-- A space or a tab. -/
def isSpace (c : Char) : Bool := c = ' ' || c = '\t'

/-- Whether a place holds a space, a tab, a line break or nothing. -/
def isGap : Option Char → Bool
  | none => true
  | some c => isSpace c || isBreak c

/-- The characters of names: letters, digits, the hyphen and the underscore. -/
def isWordChar (c : Char) : Bool := c.isAlphanum || c = '-' || c = '_'

/-- Characters that a document may hold. -/
def isAllowed (c : Char) : Bool :=
  let n := c.toNat
  n = 0x09 || n = 0x0A || n = 0x0D || (0x20 ≤ n && n ≤ 0x7E) || n = 0x85 ||
    (0xA0 ≤ n && n ≤ 0xD7FF) || (0xE000 ≤ n && n ≤ 0xFFFD) || 0x10000 ≤ n

structure Cursor where
  rest : List Char
  /-- How many bytes were passed. -/
  index : Nat := 0
  line : Nat := 0
  column : Nat := 0
  deriving Repr

namespace Cursor

def peek (c : Cursor) (k : Nat) : Option Char := c.rest[k]?

/-- How many bytes the next `n` characters take. -/
def width (c : Cursor) (n : Nat) : Nat := (c.rest.take n).foldl (fun w ch => w + ch.utf8Size) 0

/-- Passes characters that are not line breaks. -/
def advance (c : Cursor) (n : Nat) : Cursor :=
  ⟨c.rest.drop n, c.index + c.width n, c.line, c.column + n⟩

/-- Passes the characters that satisfy `p`, none of which is a line break. -/
def skipWhile (p : Char → Bool) (c : Cursor) : Cursor :=
  let n := (c.rest.takeWhile p).length
  c.advance n

/-- Passes a line break. -/
def skipLine (c : Cursor) : Cursor :=
  match c.rest with
  | '\r' :: '\n' :: r => ⟨r, c.index + 2, c.line + 1, 0⟩
  | ch :: r => ⟨r, c.index + ch.utf8Size, c.line + 1, 0⟩
  | [] => c

/-- What the line break here counts as: a line feed, or the separator itself. -/
def lineBreak (c : Cursor) : List Char :=
  match c.rest with
  | [] => []
  | ch :: _ => if ch = '\u2028' || ch = '\u2029' then [ch] else ['\n']

def atBreak (c : Cursor) : Bool := (c.peek 0).any isBreak

def atEnd (c : Cursor) : Bool := c.rest.isEmpty

/-- Whether a line starts here with three of the characters `ch` and a gap. -/
def atMark (c : Cursor) (ch : Char) : Bool :=
  c.column = 0 && c.rest.take 3 == [ch, ch, ch] && isGap (c.peek 3)

def atDocumentMark (c : Cursor) : Bool := c.atMark '-' || c.atMark '.'

end Cursor

end Workload.Yaml
