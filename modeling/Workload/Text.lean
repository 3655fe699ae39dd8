/-!
# Text

Texts are lists of characters where they are read, cut and changed: what is blank, where a text is cut, and which
characters are digits.
-/

/-!
## Blank characters

Documents, conditions and counts are read after their surrounding blanks are removed.  A blank is a
character with the property White_Space; a trimmed text neither starts nor ends with one.
-/

namespace Workload.Text

/-- The property White_Space, range by range. -/
def blankRanges : List (Nat × Nat) :=
  [(0x09, 0x0D), (0x20, 0x20), (0x85, 0x85), (0xA0, 0xA0), (0x1680, 0x1680), (0x2000, 0x200A),
    (0x2028, 0x2029), (0x202F, 0x202F), (0x205F, 0x205F), (0x3000, 0x3000)]

def isBlank (c : Char) : Bool :=
  blankRanges.any fun r => r.1 ≤ c.toNat && c.toNat ≤ r.2

def trimStart (s : List Char) : List Char := s.dropWhile isBlank

def trimEnd (s : List Char) : List Char := (s.reverse.dropWhile isBlank).reverse

def trim (s : List Char) : List Char := trimEnd (trimStart s)

/-- The text without the blanks around it. -/
def trimmed (s : String) : String := String.ofList (trim s.toList)

/-- The maximal runs of characters that do not satisfy `p`, with `word` read so far. -/
def runsWith (p : Char → Bool) : List Char → List Char → List (List Char)
  | word, [] => if word.isEmpty then [] else [word.reverse]
  | word, c :: cs =>
    if p c then
      if word.isEmpty then runsWith p [] cs else word.reverse :: runsWith p [] cs
    else runsWith p (c :: word) cs

/-- The words of a text: its maximal runs of characters that are not blank. -/
def words (s : String) : List String :=
  (runsWith isBlank [] s.toList).map String.ofList

/-!
## Cutting and replacing

Texts are cut at a separator and changed by replacing every occurrence of a marker, from left to
right and without looking at what was put in.
-/

/-- The rest of a text that starts with `pat`. -/
def dropStart? : List Char → List Char → Option (List Char)
  | [], s => some s
  | _ :: _, [] => none
  | p :: ps, c :: cs => if p = c then dropStart? ps cs else none

/-- What stands before and after the first occurrence of `pat`. -/
def cutAt (pat : List Char) : List Char → Option (List Char × List Char)
  | [] => if pat.isEmpty then some ([], []) else none
  | c :: cs =>
    match dropStart? pat (c :: cs) with
    | some rest => some ([], rest)
    | none => (cutAt pat cs).map fun r => (c :: r.1, r.2)

/-- `cutAt` on strings. -/
def cut? (pat : String) (s : String) : Option (String × String) :=
  (cutAt pat.toList s.toList).map fun r => (String.ofList r.1, String.ofList r.2)

/-- The pieces of a text between the characters `sep`; a text without any is its only piece. -/
def splitAt (sep : Char) : List Char → List (List Char)
  | [] => [[]]
  | c :: cs =>
    if c = sep then [] :: splitAt sep cs
    else
      match splitAt sep cs with
      | [] => [[c]]
      | piece :: pieces => (c :: piece) :: pieces

/-- `splitAt` on strings. -/
def pieces (sep : Char) (s : String) : List String := (splitAt sep s.toList).map String.ofList

/-- Whether `pat` occurs in a text. -/
def occurs (pat : List Char) (s : List Char) : Bool := (cutAt pat s).isSome

/-- `occurs` on strings. -/
def contains (pat s : String) : Bool := occurs pat.toList s.toList

/-- Replaces the occurrences of `old` after the next `skip` characters, which belong to the
occurrence just replaced. -/
def replaceFrom (old new : List Char) : Nat → List Char → List Char
  | _, [] => []
  | skip + 1, _ :: cs => replaceFrom old new skip cs
  | 0, c :: cs =>
    if old.isPrefixOf (c :: cs) then new ++ replaceFrom old new (old.length - 1) cs
    else c :: replaceFrom old new 0 cs

/-- Replaces every occurrence of a marker that is not empty. -/
def replaceAll (old new s : String) : String :=
  String.ofList (replaceFrom old.toList new.toList 0 s.toList)

/-- The lines of a text: a line ends with a line feed, before which a carriage return is dropped,
and a text that ends with one has no further line. -/
def lines (s : String) : List String :=
  let ps := splitAt '\n' s.toList
  let ps := if ps.getLast? = some [] then ps.dropLast else ps
  let closed := ps.length < (splitAt '\n' s.toList).length
  let last := ps.length - 1
  (ps.zipIdx).map fun p =>
    let dropReturn := p.2 < last || closed
    if dropReturn && p.1.getLast? = some '\r' then String.ofList p.1.dropLast
    else String.ofList p.1

/-- Whether a program can get a text as an argument: it ends with a NUL character, of which there is no
other, and has at most 128 KiB with it. -/
def isArgument (s : String) : Bool := !s.toList.contains '\x00' && s.utf8ByteSize < 131072

/-!
## Decimal digits

Placeholders are numbered with characters of the category Nd; the numbers themselves are read from
the ASCII digits alone.
-/

/-- The category Nd, range by range; each range is a run of digits from zero to nine. -/
def digitRanges : List (Nat × Nat) :=
  [(0x30, 0x39), (0x660, 0x669), (0x6F0, 0x6F9), (0x7C0, 0x7C9), (0x966, 0x96F), (0x9E6,
    0x9EF), (0xA66, 0xA6F), (0xAE6, 0xAEF), (0xB66, 0xB6F), (0xBE6, 0xBEF), (0xC66, 0xC6F),
    (0xCE6, 0xCEF), (0xD66, 0xD6F), (0xDE6, 0xDEF), (0xE50, 0xE59), (0xED0, 0xED9), (0xF20,
    0xF29), (0x1040, 0x1049), (0x1090, 0x1099), (0x17E0, 0x17E9), (0x1810, 0x1819), (0x1946,
    0x194F), (0x19D0, 0x19D9), (0x1A80, 0x1A89), (0x1A90, 0x1A99), (0x1B50, 0x1B59), (0x1BB0,
    0x1BB9), (0x1C40, 0x1C49), (0x1C50, 0x1C59), (0xA620, 0xA629), (0xA8D0, 0xA8D9), (0xA900,
    0xA909), (0xA9D0, 0xA9D9), (0xA9F0, 0xA9F9), (0xAA50, 0xAA59), (0xABF0, 0xABF9), (0xFF10,
    0xFF19), (0x104A0, 0x104A9), (0x10D30, 0x10D39), (0x10D40, 0x10D49), (0x11066, 0x1106F),
    (0x110F0, 0x110F9), (0x11136, 0x1113F), (0x111D0, 0x111D9), (0x112F0, 0x112F9), (0x11450,
    0x11459), (0x114D0, 0x114D9), (0x11650, 0x11659), (0x116C0, 0x116C9), (0x116D0, 0x116E3),
    (0x11730, 0x11739), (0x118E0, 0x118E9), (0x11950, 0x11959), (0x11BF0, 0x11BF9), (0x11C50,
    0x11C59), (0x11D50, 0x11D59), (0x11DA0, 0x11DA9), (0x11F50, 0x11F59), (0x16A60, 0x16A69),
    (0x16AC0, 0x16AC9), (0x16B50, 0x16B59), (0x1CCF0, 0x1CCF9), (0x1D7CE, 0x1D7FF), (0x1E140,
    0x1E149), (0x1E2F0, 0x1E2F9), (0x1E4F0, 0x1E4F9), (0x1E5F1, 0x1E5FA), (0x1E950, 0x1E959),
    (0x1FBF0, 0x1FBF9)]

/-- Whether a character is a decimal digit of some script. -/
def isDecimal (c : Char) : Bool :=
  digitRanges.any fun r => r.1 ≤ c.toNat && c.toNat ≤ r.2

/-- The value of a digit in a base of at most sixteen. -/
def digitValue? (base : Nat) (c : Char) : Option Nat :=
  let v :=
    if c.isDigit then some (c.toNat - 48)
    else if 'a' ≤ c && c ≤ 'f' then some (c.toNat - 87)
    else if 'A' ≤ c && c ≤ 'F' then some (c.toNat - 55)
    else none
  v.filter (· < base)

/-- Reads digits after the value `acc` read so far. -/
def readDigits (base : Nat) : Nat → List Char → Option Nat
  | acc, [] => some acc
  | acc, c :: cs =>
    match digitValue? base c with
    | some v => readDigits base (acc * base + v) cs
    | none => none

/-- The number that a nonempty run of digits writes. -/
def natOf? (base : Nat) (s : List Char) : Option Nat :=
  if s.isEmpty then none else readDigits base 0 s

/-- A number below `limit`, with an optional plus sign. -/
def unsignedOf? (base limit : Nat) (s : List Char) : Option Nat :=
  let digits := match s with
    | '+' :: cs => cs
    | cs => cs
  (natOf? base digits).filter (· < limit)

/-- A number from `-limit` up to below `limit`, with an optional sign. -/
def signedOf? (base limit : Nat) (s : List Char) : Option Int :=
  match s with
  | '-' :: cs => ((natOf? base cs).filter (· ≤ limit)).map fun n => -(n : Int)
  | cs => (unsignedOf? base limit cs).map fun n => (n : Int)

/-- Reads a 64-bit signed decimal. -/
def int64Of? (s : List Char) : Option Int := signedOf? 10 (Nat.pow 2 63) s

/-- Reads a 64-bit unsigned decimal. -/
def nat64Of? (s : List Char) : Option Nat := unsignedOf? 10 (Nat.pow 2 64) s

end Workload.Text
