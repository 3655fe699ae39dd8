import Workload.Yaml.Token
import Workload.Yaml.Token.Scalar

/-!
# Reading tokens

The lexer keeps the indentation of the open block collections and, for every level of flow
collections, the last place at which a key could have started.  Only a colon decides that a key did
start there; its tokens are then put in at that place.
-/

namespace Workload.Yaml

/-- A place at which a key can have started. -/
structure KeyPlace where
  possible : Bool := false
  /-- Whether a token there has to be a key, because the indentation allows nothing else. -/
  required : Bool := false
  /-- How many tokens stand before it. -/
  position : Nat := 0
  index : Nat := 0
  line : Nat := 0
  column : Nat := 0

structure Lexer where
  cursor : Cursor
  /-- The tokens read so far, backwards. -/
  tokens : List Token := []
  /-- The column of the innermost block collection, -1 outside of all. -/
  indent : Int := -1
  outerIndents : List Int := []
  keyAllowed : Bool := true
  /-- The place for the innermost level. -/
  place : KeyPlace := {}
  /-- The places for the levels around it. -/
  outerPlaces : List KeyPlace := []

namespace Lexer

def inFlow (l : Lexer) : Bool := !l.outerPlaces.isEmpty

def push (l : Lexer) (t : Token) : Lexer := { l with tokens := t :: l.tokens }

/-- Puts a token in behind the first `position` tokens. -/
def insertAt (l : Lexer) (position : Nat) (t : Token) : Lexer :=
  let later := l.tokens.length - position
  { l with tokens := l.tokens.take later ++ t :: l.tokens.drop later }

/-- Passes blanks, comments and line breaks, and the byte order mark that a line may start with.  A
new line allows a key, except in a flow collection; a tab is a blank only where no key can start. -/
def skipGap : Nat → Lexer → Lexer
  | 0, l => l
  | n + 1, l =>
    let c := l.cursor
    let c := if c.column = 0 && c.peek 0 = some '\uFEFF' then c.advance 1 else c
    let c := c.skipWhile fun ch => ch = ' ' || ((l.inFlow || !l.keyAllowed) && ch = '\t')
    let c := if c.peek 0 = some '#' then c.skipWhile fun ch => !isBreak ch else c
    if c.atBreak then
      skipGap n { l with cursor := c.skipLine, keyAllowed := l.keyAllowed || !l.inFlow }
    else { l with cursor := c }

/-- A key stays on its line and within 1024 bytes; a required one that does not is refused. -/
def expire (c : Cursor) (k : KeyPlace) : Option KeyPlace :=
  if k.possible && (k.line < c.line || k.index + 1024 < c.index) then
    if k.required then none else some { k with possible := false }
  else some k

def expirePlaces (l : Lexer) : Option Lexer := do
  let place ← expire l.cursor l.place
  let outer ← l.outerPlaces.mapM (expire l.cursor)
  pure { l with place := place, outerPlaces := outer }

/-- Forgets the place of the innermost level. -/
def dropPlace (l : Lexer) : Option Lexer :=
  if l.place.possible && l.place.required then none
  else some { l with place := { l.place with possible := false } }

/-- Notes that a key can start here, if one is allowed. -/
def notePlace (l : Lexer) : Option Lexer :=
  if l.keyAllowed then do
    let l' ← l.dropPlace
    pure { l' with
      place :=
        { possible := true
          required := !l.inFlow && l.indent = (l.cursor.column : Int)
          position := l.tokens.length
          index := l.cursor.index
          line := l.cursor.line
          column := l.cursor.column } }
  else some l

/-- Opens a block collection at a column deeper than the innermost one; its start token goes behind
the first `position` tokens. -/
def openBlock (l : Lexer) (column position : Nat) (t : Token) : Lexer :=
  if !l.inFlow && l.indent < (column : Int) then
    { l.insertAt position t with
      indent := (column : Int), outerIndents := l.indent :: l.outerIndents }
  else l

/-- Closes the block collections deeper than a column. -/
def closeBlocks (column : Int) : List Int → Lexer → Lexer
  | [], l => l
  | outer :: rest, l =>
    if l.indent ≤ column then l
    else closeBlocks column rest
      { l.push .blockEnd with indent := outer, outerIndents := rest }

def unwind (l : Lexer) (column : Int) : Lexer :=
  if l.inFlow then l else closeBlocks column l.outerIndents l

/-- Passes `n` characters, which are the token `t`. -/
def take (l : Lexer) (n : Nat) (t : Token) : Lexer :=
  { l with cursor := l.cursor.advance n }.push t

def lexDocumentMark (l : Lexer) (t : Token) : Option Lexer := do
  let l ← (l.unwind (-1)).dropPlace
  pure ({ l with keyAllowed := false }.take 3 t)

def lexFlowStart (l : Lexer) (t : Token) : Option Lexer := do
  let l ← l.notePlace
  pure ({ l with
    place := {}, outerPlaces := l.place :: l.outerPlaces, keyAllowed := true }.take 1 t)

def lexFlowEnd (l : Lexer) (t : Token) : Option Lexer := do
  let l ← l.dropPlace
  let l := match l.outerPlaces with
    | [] => l
    | p :: ps => { l with place := p, outerPlaces := ps }
  pure ({ l with keyAllowed := false }.take 1 t)

def lexFlowEntry (l : Lexer) : Option Lexer := do
  let l ← l.dropPlace
  pure ({ l with keyAllowed := true }.take 1 .flowEntry)

def lexBlockEntry (l : Lexer) : Option Lexer := do
  if !l.inFlow && !l.keyAllowed then none
  let l := l.openBlock l.cursor.column l.tokens.length .blockSequenceStart
  let l ← l.dropPlace
  pure ({ l with keyAllowed := true }.take 1 .blockEntry)

def lexKey (l : Lexer) : Option Lexer := do
  if !l.inFlow && !l.keyAllowed then none
  let l := l.openBlock l.cursor.column l.tokens.length .blockMappingStart
  let l ← l.dropPlace
  pure ({ l with keyAllowed := !l.inFlow }.take 1 .key)

def lexValue (l : Lexer) : Option Lexer := do
  if l.place.possible then
    let p := l.place
    let l := (l.insertAt p.position .key).openBlock p.column p.position .blockMappingStart
    pure ({ l with place := { p with possible := false }, keyAllowed := false }.take 1 .value)
  else
    if !l.inFlow && !l.keyAllowed then none
    let l := l.openBlock l.cursor.column l.tokens.length .blockMappingStart
    pure ({ l with keyAllowed := !l.inFlow }.take 1 .value)

/-- The name of an anchor or an alias, which has to end with a gap or an indicator. -/
def lexName (l : Lexer) (make : List Char → Token) : Option Lexer := do
  let l ← l.notePlace
  let c := l.cursor.advance 1
  let name := c.rest.takeWhile isWordChar
  let c := c.advance name.length
  let closed := isGap (c.peek 0) ||
    (c.peek 0).any fun ch => [ '?', ':', ',', ']', '}', '%', '@', '\x60' ].contains ch
  if name.isEmpty || !closed then none
  pure ({ l with cursor := c, keyAllowed := false }.push (make name))

/-- The characters that may stand in a tag as they are, each of one byte. -/
def isTagChar (verbatim : Bool) (c : Char) : Bool :=
  isWordChar c || ";/?:@&=+$.!~*'()".toList.contains c || (verbatim && ",[]".toList.contains c)

/-- How many bytes an escaped character takes whose first byte is `b`. -/
def leadWidth? (b : Nat) : Option Nat :=
  if b < 0x80 then some 1
  else if 0xC0 ≤ b && b < 0xE0 then some 2
  else if 0xE0 ≤ b && b < 0xF0 then some 3
  else if 0xF0 ≤ b && b < 0xF8 then some 4
  else none

/-- The byte that an escape in a tag gives. -/
def escapedByte? (c : Cursor) : Option Nat :=
  match c.rest with
  | '%' :: a :: b :: _ => Text.natOf? 16 [a, b]
  | _ => none

/-- Further bytes of an escaped character. -/
def escapedTail : Nat → Cursor → Option (Tag × Cursor)
  | 0, c => some ([], c)
  | n + 1, c => do
    let b ← escapedByte? c
    if b < 0x80 || 0xC0 ≤ b then none
    let (bytes, c) ← escapedTail n (c.advance 3)
    pure (UInt8.ofNat b :: bytes, c)

/-- The bytes of the escaped character here; the first one says how many there are. -/
def escapedBytes? (c : Cursor) : Option (Tag × Cursor) := do
  let b ← escapedByte? c
  let w ← leadWidth? b
  let (bytes, c) ← escapedTail (w - 1) (c.advance 3)
  pure (UInt8.ofNat b :: bytes, c)

/-- The rest of a tag, backwards onto `text`. -/
def tagText (verbatim : Bool) : Nat → Cursor → Tag → Option (Tag × Cursor)
  | 0, c, text => some (text.reverse, c)
  | n + 1, c, text =>
    match c.peek 0 with
    | none => some (text.reverse, c)
    | some ch =>
      if ch = '%' then
        match escapedBytes? c with
        | some (bytes, c) => tagText verbatim n c (bytes.reverse ++ text)
        | none => none
      else if isTagChar verbatim ch then
        tagText verbatim n (c.advance 1) (UInt8.ofNat ch.toNat :: text)
      else some (text.reverse, c)

/-- A tag handle: an exclamation mark, a name and perhaps another exclamation mark. -/
def tagHandle (c : Cursor) : List Char × Cursor :=
  let name := (c.rest.drop 1).takeWhile isWordChar
  let c := c.advance (1 + name.length)
  if c.peek 0 = some '!' then ('!' :: name ++ ['!'], c.advance 1) else ('!' :: name, c)

/-- Handle and suffix of the tag here.  A lone exclamation mark is a suffix without a handle. -/
def tagParts (c : Cursor) : Option (List Char × Tag × Cursor) := do
  if c.peek 1 = some '<' then
    let c := c.advance 2
    let (suffix, c) ← tagText true (c.rest.length + 1) c []
    if suffix.isEmpty || c.peek 0 ≠ some '>' then none
    pure ([], suffix, c.advance 1)
  else
    let (handle, c) := tagHandle c
    let (suffix, c) ← tagText false (c.rest.length + 1) c []
    if 2 ≤ handle.length && handle.getLast? = some '!' then
      if suffix.isEmpty then none
      pure (handle, suffix, c)
    else
      let suffix := Tag.ofChars (handle.drop 1) ++ suffix
      if (Tag.ended suffix).isEmpty then pure ([], [Tag.mark], c) else pure (['!'], suffix, c)

def lexTag (l : Lexer) : Option Lexer := do
  let l ← l.notePlace
  let (handle, suffix, c) ← tagParts l.cursor
  if !(isGap (c.peek 0) || (l.inFlow && c.peek 0 = some ',')) then none
  pure ({ l with cursor := c, keyAllowed := false }.push (.tag handle suffix))

def lexBlockScalar (l : Lexer) (literal : Bool) : Option Lexer := do
  let l ← l.dropPlace
  let (text, c) ← readBlock literal l.indent (l.cursor.advance 1)
  pure ({ l with cursor := c, keyAllowed := true }.push
    (.scalar text (if literal then .literal else .folded)))

def lexQuoted (l : Lexer) (single : Bool) : Option Lexer := do
  let l ← l.notePlace
  let c := l.cursor.advance 1
  let (text, c) ← readQuoted single (c.rest.length + 1) c []
  pure ({ l with cursor := c, keyAllowed := false }.push
    (.scalar text (if single then .singleQuoted else .doubleQuoted)))

def lexPlain (l : Lexer) : Option Lexer := do
  let l ← l.notePlace
  let (text, c, broken) ←
    readPlain l.inFlow (l.indent + 1) (l.cursor.rest.length + 1) l.cursor [] {}
  pure ({ l with cursor := c, keyAllowed := broken }.push (.scalar text .plain))

/-- The digits of a version number, at most nine of them. -/
def versionPart (c : Cursor) : Option (Nat × Cursor) := do
  let digits := c.rest.takeWhile Char.isDigit
  if digits.isEmpty || 9 < digits.length then none
  let n ← Text.natOf? 10 digits
  pure (n, c.advance digits.length)

/-- The token of a directive behind its name. -/
def directiveToken (name : List Char) (c : Cursor) : Option (Token × Cursor) := do
  if name = ['Y', 'A', 'M', 'L'] then
    let (major, c) ← versionPart (c.skipWhile isSpace)
    if c.peek 0 ≠ some '.' then none
    let (minor, c) ← versionPart (c.advance 1)
    pure (.versionDirective major minor, c)
  else if name = ['T', 'A', 'G'] then
    let c := c.skipWhile isSpace
    if c.peek 0 ≠ some '!' then none
    let (handle, c) := tagHandle c
    if handle ≠ ['!'] && (handle.length < 2 || handle.getLast? ≠ some '!') then none
    if !(c.peek 0).any isSpace then none
    let c := c.skipWhile isSpace
    let (lead, c) ← tagText true (c.rest.length + 1) c []
    if lead.isEmpty || !isGap (c.peek 0) then none
    pure (.tagDirective handle lead, c)
  else none

def lexDirective (l : Lexer) : Option Lexer := do
  let l ← (l.unwind (-1)).dropPlace
  let c := l.cursor.advance 1
  let name := c.rest.takeWhile isWordChar
  let c := c.advance name.length
  if name.isEmpty || !isGap (c.peek 0) then none
  let (token, c) ← directiveToken name c
  let c := c.skipWhile isSpace
  let c := if c.peek 0 = some '#' then c.skipWhile fun ch => !isBreak ch else c
  if !(c.atEnd || c.atBreak) then none
  pure ({ l with cursor := c.skipLine, keyAllowed := false }.push token)

/-- Characters that start no plain scalar. -/
def isIndicator (c : Char) : Bool := "-?:,[]{}#&*!|>'\"%@\x60".toList.contains c

/-- Reads the token that starts with `ch`. -/
def lexToken (l : Lexer) (ch : Char) : Option Lexer :=
  let c := l.cursor
  let next := c.peek 1
  if c.column = 0 && ch = '%' then l.lexDirective
  else if c.atMark '-' then l.lexDocumentMark .documentStart
  else if c.atMark '.' then l.lexDocumentMark .documentEnd
  else if ch = '[' then l.lexFlowStart .flowSequenceStart
  else if ch = '{' then l.lexFlowStart .flowMappingStart
  else if ch = ']' then l.lexFlowEnd .flowSequenceEnd
  else if ch = '}' then l.lexFlowEnd .flowMappingEnd
  else if ch = ',' then l.lexFlowEntry
  else if ch = '-' && isGap next then l.lexBlockEntry
  else if ch = '?' && (l.inFlow || isGap next) then l.lexKey
  else if ch = ':' && (l.inFlow || isGap next) then l.lexValue
  else if ch = '*' then l.lexName .reference
  else if ch = '&' then l.lexName .anchor
  else if ch = '!' then l.lexTag
  else if ch = '|' && !l.inFlow then l.lexBlockScalar true
  else if ch = '>' && !l.inFlow then l.lexBlockScalar false
  else if ch = '\'' then l.lexQuoted true
  else if ch = '"' then l.lexQuoted false
  else if !(isGap (some ch) || isIndicator ch) || (ch = '-' && !next.any isSpace) ||
      (!l.inFlow && (ch = '?' || ch = ':') && !isGap next) then l.lexPlain
  else none

/-- Reads all tokens, at most `fuel` of them. -/
def lexAll : Nat → Lexer → Option (List Token)
  | 0, _ => none
  | fuel + 1, l => do
    let l ← (skipGap (l.cursor.rest.length + 1) l).expirePlaces
    let l := l.unwind l.cursor.column
    match l.cursor.peek 0 with
    | none =>
      let l ← (l.unwind (-1)).dropPlace
      pure l.tokens.reverse
    | some ch => lexAll fuel (← l.lexToken ch)

end Lexer

/-- The tokens of a document, if it can be read. -/
def tokens? (text : List Char) : Option (List Token) :=
  if text.all isAllowed then Lexer.lexAll (text.length + 2) { cursor := { rest := text } } else none

end Workload.Yaml
