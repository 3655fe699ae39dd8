import Workload.Text
import Workload.Yaml.Token.Cursor

/-!
# Reading scalars

A scalar is read with its line breaks folded: one break between two lines counts as a space, further
ones as line feeds.  Each reader takes the cursor behind the scalar; without a result the text is not
a scalar of its style.
-/

namespace Workload.Yaml

/-- The blanks between two parts of a scalar. -/
structure Gap where
  /-- Spaces and tabs on the line of the part before, backwards. -/
  spaces : List Char := []
  /-- The first line break. -/
  first : List Char := []
  /-- The line breaks after the first, backwards. -/
  more : List Char := []
  /-- Whether the gap goes over the end of a line. -/
  broken : Bool := false

/-- What a gap counts as, in front of the next part. -/
def Gap.text (g : Gap) : List Char :=
  if g.broken then
    if g.first = ['\n'] then if g.more.isEmpty then [' '] else g.more.reverse
    else g.first ++ g.more.reverse
  else g.spaces.reverse

/-- Reads blanks and line breaks.  A tab in front of the column `margin` of a later line is
refused. -/
def readGap (margin : Int) : Nat → Cursor → Gap → Option (Gap × Cursor)
  | 0, c, g => some (g, c)
  | n + 1, c, g =>
    match c.peek 0 with
    | none => some (g, c)
    | some ch =>
      if isSpace ch then
        if g.broken then
          if ch = '\t' && (c.column : Int) < margin then none
          else readGap margin n (c.advance 1) g
        else readGap margin n (c.advance 1) { g with spaces := ch :: g.spaces }
      else if isBreak ch then
        if g.broken then
          readGap margin n c.skipLine { g with more := c.lineBreak.reverse ++ g.more }
        else readGap margin n c.skipLine { g with first := c.lineBreak, broken := true }
      else some (g, c)

/-- Characters that end a plain scalar, or may not follow a colon in one, within a flow
collection. -/
def isFlowMark (c : Char) : Bool := c = ',' || c = '[' || c = ']' || c = '{' || c = '}'

/-- The part of a plain scalar up to the next gap or the end, backwards onto `text`. -/
def readPlainPart (inFlow : Bool) : Nat → Cursor → List Char → Option (List Char × Cursor)
  | 0, c, text => some (text, c)
  | n + 1, c, text =>
    match c.peek 0 with
    | none => some (text, c)
    | some ch =>
      if isSpace ch || isBreak ch then some (text, c)
      else if inFlow && ch = ':' && (c.peek 1).any (fun d => isFlowMark d || d = '?') then none
      else if (ch = ':' && isGap (c.peek 1)) || (inFlow && isFlowMark ch) then some (text, c)
      else readPlainPart inFlow n (c.advance 1) (ch :: text)

/-- A plain scalar: its text, the cursor behind it and whether it ended on a later line. -/
def readPlain (inFlow : Bool) (margin : Int) :
    Nat → Cursor → List Char → Gap → Option (List Char × Cursor × Bool)
  | 0, _, _, _ => none
  | n + 1, c, text, gap => do
    if c.atDocumentMark || c.peek 0 = some '#' then return (text.reverse, c, gap.broken)
    let (part, c') ← readPlainPart inFlow (c.rest.length + 1) c []
    let (text, gap) := if part.isEmpty then (text, gap) else (part ++ gap.text.reverse ++ text, {})
    if !((c'.peek 0).any fun ch => isSpace ch || isBreak ch) then
      return (text.reverse, c', gap.broken)
    let (gap, c'') ← readGap margin (c'.rest.length + 1) c' gap
    if !inFlow && (c''.column : Int) < margin then return (text.reverse, c'', gap.broken)
    readPlain inFlow margin n c'' text gap

/-- The character that a one-letter escape stands for. -/
def simpleEscape? : Char → Option Char
  | '0' => some '\x00'
  | 'a' => some '\x07'
  | 'b' => some '\x08'
  | 't' => some '\t'
  | '\t' => some '\t'
  | 'n' => some '\n'
  | 'v' => some '\x0b'
  | 'f' => some '\x0c'
  | 'r' => some '\r'
  | 'e' => some '\x1b'
  | ' ' => some ' '
  | '"' => some '"'
  | '/' => some '/'
  | '\\' => some '\\'
  | 'N' => some '\x85'
  | '_' => some '\xa0'
  | 'L' => some '\u2028'
  | 'P' => some '\u2029'
  | _ => none

/-- How many hexadecimal digits follow an escape letter. -/
def escapeWidth? : Char → Option Nat
  | 'x' => some 2
  | 'u' => some 4
  | 'U' => some 8
  | _ => none

/-- The character with a code given in hexadecimal. -/
def escapedChar? (width : Nat) (digits : List Char) : Option Char := do
  if digits.length ≠ width then none
  let n ← Text.natOf? 16 digits
  if (0xD800 ≤ n && n ≤ 0xDFFF) || 0x10FFFF < n then none else pure (Char.ofNat n)

/-- The part of a quoted scalar up to the next gap or the closing quote, backwards onto `text`, and
whether it ended with an escaped line break. -/
def readQuotedPart (single : Bool) : Nat → Cursor → List Char → Option (List Char × Cursor × Bool)
  | 0, c, text => some (text, c, false)
  | n + 1, c, text =>
    match c.peek 0 with
    | none => some (text, c, false)
    | some ch =>
      if isSpace ch || isBreak ch then some (text, c, false)
      else if single then
        if ch = '\'' then
          if c.peek 1 = some '\'' then readQuotedPart single n (c.advance 2) ('\'' :: text)
          else some (text, c, false)
        else readQuotedPart single n (c.advance 1) (ch :: text)
      else if ch = '"' then some (text, c, false)
      else if ch = '\\' then
        match c.peek 1 with
        | none => none
        | some e =>
          if isBreak e then some (text, (c.advance 1).skipLine, true)
          else
            match escapeWidth? e with
            | some w =>
              match escapedChar? w ((c.rest.drop 2).take w) with
              | some ch => readQuotedPart single n (c.advance (2 + w)) (ch :: text)
              | none => none
            | none =>
              match simpleEscape? e with
              | some ch => readQuotedPart single n (c.advance 2) (ch :: text)
              | none => none
      else readQuotedPart single n (c.advance 1) (ch :: text)

/-- A quoted scalar behind its opening quote. -/
def readQuoted (single : Bool) : Nat → Cursor → List Char → Option (List Char × Cursor)
  | 0, _, _ => none
  | n + 1, c, text => do
    if c.atDocumentMark || c.atEnd then none
    let (text, c, escaped) ← readQuotedPart single (c.rest.length + 1) c text
    if !escaped && c.peek 0 = some (if single then '\'' else '"') then
      return (text.reverse, c.advance 1)
    if c.peek 0 = some (if single then '\'' else '"') then
      return (text.reverse, c.advance 1)
    let (gap, c) ← readGap 0 (c.rest.length + 1) c { broken := escaped }
    readQuoted single n c (gap.text.reverse ++ text)

/-- Which of its last line breaks a block scalar keeps. -/
inductive Chomping where
  | strip | clip | keep
  deriving DecidableEq, Repr

def chomping? : Option Char → Option Chomping
  | some '+' => some .keep
  | some '-' => some .strip
  | _ => none

/-- The indentation that a digit asks for; zero is refused. -/
def indentHint (c : Cursor) : Option (Nat × Cursor) :=
  match c.peek 0 with
  | some d => if d.isDigit then if d = '0' then none else some (d.toNat - 48, c.advance 1)
    else some (0, c)
  | none => some (0, c)

/-- The header of a block scalar: chomping and the indentation asked for, zero if none is. -/
def blockHeader (c : Cursor) : Option (Chomping × Nat × Cursor) :=
  match chomping? (c.peek 0) with
  | some ch => (indentHint (c.advance 1)).map fun r => (ch, r.1, r.2)
  | none => do
    let (hint, c) ← indentHint c
    if hint = 0 then return (.clip, hint, c)
    match chomping? (c.peek 0) with
    | some ch => return (ch, hint, c.advance 1)
    | none => return (.clip, hint, c)

/-- Reads the empty lines in front of a line of content, and the indentation of that line if none is
settled yet (`indent = 0`).  The breaks are returned backwards. -/
def readEmptyLines (indent : Nat) : Nat → Cursor → Nat → List Char →
    Option (List Char × Nat × Cursor)
  | 0, c, deepest, breaks => some (breaks, deepest, c)
  | n + 1, c, deepest, breaks => do
    let room := if indent = 0 then c.rest.length else indent - c.column
    let c := c.advance ((c.rest.take room).takeWhile (· = ' ')).length
    let deepest := max deepest c.column
    if (indent = 0 || c.column < indent) && c.peek 0 = some '\t' then none
    if c.atBreak then readEmptyLines indent n c.skipLine deepest (c.lineBreak.reverse ++ breaks)
    else return (breaks, deepest, c)

/-- The lines of content of a block scalar with a settled indentation: the text so far backwards,
the break after its last line, the breaks of the empty lines since, backwards, and whether the last
line started with a blank. -/
def readContent (literal : Bool) (indent : Nat) : Nat → Cursor → List Char → List Char →
    List Char → Bool → Option (List Char × List Char × List Char × Cursor)
  | 0, _, _, _, _, _ => none
  | n + 1, c, text, last, empty, blankBefore => do
    if c.column ≠ indent || c.atEnd then return (text, last, empty, c)
    let blank := (c.peek 0).any isSpace
    let joined :=
      if !literal && last.head? = some '\n' && !blankBefore && !blank then
        if empty.isEmpty then ' ' :: text else empty ++ text
      else empty ++ last.reverse ++ text
    let line := c.rest.takeWhile fun ch => !isBreak ch
    let c := c.advance line.length
    let last := c.lineBreak
    let c := if c.atBreak then c.skipLine else c
    let (empty, _, c) ← readEmptyLines indent (c.rest.length + 1) c 0 []
    readContent literal indent n c (line.reverse ++ joined) last empty blank

/-- A block scalar behind its indicator, within a collection of the indentation `parent`. -/
def readBlock (literal : Bool) (parent : Int) (c : Cursor) : Option (List Char × Cursor) := do
  let (chomp, hint, c) ← blockHeader c
  let c := c.skipWhile isSpace
  let c := if c.peek 0 = some '#' then c.skipWhile fun ch => !isBreak ch else c
  if !(c.atEnd || c.atBreak) then none
  let c := if c.atBreak then c.skipLine else c
  let asked := if hint = 0 then 0 else if 0 ≤ parent then parent.toNat + hint else hint
  let (empty, deepest, c) ← readEmptyLines asked (c.rest.length + 1) c 0 []
  let indent := if asked = 0 then max (max deepest (parent + 1).toNat) 1 else asked
  let (text, last, empty, c) ← readContent literal indent (c.rest.length + 2) c [] [] empty false
  let text := if chomp = .strip then text else last.reverse ++ text
  let text := if chomp = .keep then empty ++ text else text
  return (text.reverse, c)

end Workload.Yaml
