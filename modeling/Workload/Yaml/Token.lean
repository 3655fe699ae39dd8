/-!
# Tokens of a document

What a document is read as before its structure is known.  Indentation has become explicit: a block
collection opens with a start token and closes with an end token.
-/

/-!
## Tags

A tag says what kind of value a node is.  The tags of a document's own start with an exclamation mark;
those of the standard kinds share a lead.
-/

namespace Workload.Yaml

/-- The bytes of a tag.  Escapes can make them anything, also the encoding of no text. -/
abbrev Tag := List UInt8

namespace Tag

def ofChars (cs : List Char) : Tag := cs.flatMap String.utf8EncodeChar

/-- The tag up to its first zero byte, where it ends. -/
def ended (t : Tag) : Tag := t.takeWhile (· ≠ 0)

/-- What the tags of the standard kinds begin with. -/
def standardLead : Tag := ofChars "tag:yaml.org,2002:".toList

def standard (kind : String) : Tag := standardLead ++ ofChars kind.toList

/-- The exclamation mark. -/
def mark : UInt8 := 33

/-- Whether a tag starts with an exclamation mark. -/
def isMarked (t : Tag) : Bool := t.head? = some mark

/-- The name that a tag of the document's own gives: the text behind the mark, or the mark if there is
none. -/
def localName? (t : Tag) : Option String :=
  if t.isMarked then
    String.fromUTF8? ⟨(if t.tail.isEmpty then t else t.tail).toArray⟩
  else none

end Tag

/-! ## Tokens -/

/-- How a scalar is written. -/
inductive ScalarStyle where
  | plain | singleQuoted | doubleQuoted | literal | folded
  deriving DecidableEq, Repr

inductive Token where
  | versionDirective (major minor : Nat)
  | tagDirective (handle : List Char) (lead : Tag)
  | documentStart
  | documentEnd
  | blockSequenceStart
  | blockMappingStart
  | blockEnd
  | flowSequenceStart
  | flowSequenceEnd
  | flowMappingStart
  | flowMappingEnd
  | blockEntry
  | flowEntry
  | key
  | value
  | reference (name : List Char)
  | anchor (name : List Char)
  | tag (handle : List Char) (suffix : Tag)
  | scalar (text : List Char) (style : ScalarStyle)
  deriving DecidableEq, Repr

end Workload.Yaml
