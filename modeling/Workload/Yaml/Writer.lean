import Workload.Yaml.Plain
import Workload.Yaml.Token
import Workload.Yaml.Token.Cursor

/-!
# Writing documents

Lists and records are written in block style, a text in the plainest style that reads back as that
text: plain, in single quotes, as a literal block if it has line feeds, or else in double quotes.
-/

namespace Workload.Yaml

/-- What documents are written from. -/
inductive Tree where
  | text (s : String)
  /-- A scalar whose text is written as it is. -/
  | bare (s : String)
  | list (items : List Tree)
  | record (fields : List (String × Tree))

namespace Writer

/-- Characters that are written as they are outside double quotes. -/
def isPrintable (c : Char) : Bool :=
  let n := c.toNat
  n = 0x0A || (0x20 ≤ n && n ≤ 0x7E) || (0xA0 ≤ n && n ≤ 0xD7FF) ||
    (0xE000 ≤ n && n ≤ 0xFFFD && n ≠ 0xFEFF) || 0x10000 ≤ n

/-- A text that means something other than itself when it is plain. -/
def isAmbiguous (s : List Char) : Bool :=
  match plain s with
  | .text => isPaddedDigits s
  | _ => true

/-- Characters that mean something in front of a plain scalar. -/
def isLeadingMark (c : Char) : Bool := "#,[]{}&*!|>'\"%@\x60".toList.contains c

/-- Whether the rest of a text, behind `before`, holds a mark that a plain scalar may not hold: a
colon in front of a gap, or a hash behind one. -/
def holdsMark : Char → List Char → Bool
  | _, [] => false
  | before, c :: cs =>
    (c = ':' && isGap cs.head?) || (c = '#' && isGap (some before)) || holdsMark c cs

/-- Whether a text looks like something else than a plain scalar. -/
def looksMarked : List Char → Bool
  | [] => false
  | c :: cs =>
    (c :: cs).take 3 = ['-', '-', '-'] || (c :: cs).take 3 = ['.', '.', '.'] ||
      isLeadingMark c || ((c = '?' || c = ':' || c = '-') && isGap cs.head?) || holdsMark c cs

/-- Whether a character that satisfies `p` stands directly in front of one that satisfies `q`. -/
def meets (p q : Char → Bool) : List Char → Bool
  | a :: b :: cs => (p a && q b) || meets p q (b :: cs)
  | _ => false

/-- Whether a text starts or ends with a character that satisfies `p`. -/
def bordered (p : Char → Bool) (s : List Char) : Bool := s.head?.any p || s.getLast?.any p

/-- Texts that fit no other style than double quotes. -/
def isSpecial (s : List Char) : Bool :=
  meets (· = ' ') isBreak s || s.any fun c => !isPrintable c

/-- The style of a text. -/
def style (s : List Char) : ScalarStyle :=
  if s.contains '\n' then
    if isSpecial s || s.getLast? = some ' ' then .doubleQuoted else .literal
  else if isSpecial s then .doubleQuoted
  else
    let plainFits := !(isAmbiguous s || bordered (· = ' ') s || s.any isBreak || looksMarked s)
    if plainFits then .plain
    else if meets isBreak (· = ' ') s then .doubleQuoted
    else .singleQuoted

/-- `n` spaces. -/
def spaces (n : Nat) : List Char := List.replicate n ' '

/-- The inside of single quotes: a quote is doubled, and what follows line breaks is indented. -/
def singleQuoted (indent : Nat) : Bool → List Char → List Char
  | broken, [] => if broken then spaces indent else []
  | broken, c :: cs =>
    if isBreak c then c :: singleQuoted indent true cs
    else if c = ' ' then c :: singleQuoted indent broken cs
    else
      (if broken then spaces indent else []) ++
        (if c = '\'' then ['\'', '\''] else [c]) ++ singleQuoted indent false cs

/-- The last `n` hexadecimal digits of a number. -/
def hexDigits : Nat → Nat → List Char
  | 0, _ => []
  | n + 1, v => hexDigits n (v / 16) ++ ["0123456789ABCDEF".toList.getD (v % 16) '0']

/-- How a character is escaped in double quotes. -/
def escape (c : Char) : List Char :=
  let n := c.toNat
  let short : List (Nat × Char) :=
    [(0, '0'), (7, 'a'), (8, 'b'), (9, 't'), (10, 'n'), (11, 'v'), (12, 'f'), (13, 'r'),
      (0x1B, 'e'), (0x22, '"'), (0x5C, '\\'), (0x85, 'N'), (0xA0, '_'), (0x2028, 'L'),
      (0x2029, 'P')]
  match short.find? fun p => p.1 = n with
  | some p => ['\\', p.2]
  | none =>
    if n ≤ 0xFF then '\\' :: 'x' :: hexDigits 2 n
    else if n ≤ 0xFFFF then '\\' :: 'u' :: hexDigits 4 n
    else '\\' :: 'U' :: hexDigits 8 n

/-- The inside of double quotes. -/
def doubleQuoted (s : List Char) : List Char :=
  s.flatMap fun c =>
    if !isPrintable c || isBreak c || c = '"' || c = '\\' then escape c else [c]

/-- The indicator of a literal block: its indentation if the text starts with a blank, and how its
last line feeds are kept. -/
def literalHeader (s : List Char) : List Char :=
  let hint := if s.head?.any fun c => c = ' ' || isBreak c then ['2'] else []
  let chomp :=
    match s.reverse with
    | [] => ['-']
    | c :: before =>
      if !isBreak c then ['-']
      else if before.isEmpty || before.head?.any isBreak then ['+'] else []
  '|' :: hint ++ chomp

/-- The lines of a literal block. -/
def literalBody (indent : Nat) : Bool → List Char → List Char
  | _, [] => []
  | broken, c :: cs =>
    if isBreak c then c :: literalBody indent true cs
    else (if broken then spaces indent else []) ++ c :: literalBody indent false cs

/-- Whether a scalar ended behind a line break. -/
def endsLine (s : List Char) : Bool := s.getLast?.any isBreak

/-- A text behind its key or dash, up to the end of its line; what it continues on further lines is
indented. -/
def text (indent : Nat) (s : List Char) : List Char :=
  match style s with
  | .plain => (if s.isEmpty then [] else ' ' :: s) ++ ['\n']
  | .singleQuoted => ' ' :: '\'' :: singleQuoted indent false s ++ ['\'', '\n']
  | .literal | .folded =>
    ' ' :: literalHeader s ++ '\n' :: literalBody indent true s ++
      (if endsLine s then [] else ['\n'])
  | .doubleQuoted => ' ' :: '"' :: doubleQuoted s ++ ['"', '\n']

mutual

/-- A tree behind its key or dash, within a collection of the given indentation. -/
def tree (indent : Nat) : Tree → List Char
  | .text s => text (indent + 2) s.toList
  | .bare s => ' ' :: s.toList ++ ['\n']
  | .list [] => " []\n".toList
  | .record [] => [' ', '{', '}', '\n']
  | .list (t :: ts) => '\n' :: items indent (t :: ts)
  | .record (f :: fs) => '\n' :: spaces (indent + 2) ++ fields (indent + 2) (f :: fs)

/-- The items of a list, each behind a dash.  A record starts on the line of its dash. -/
def items (indent : Nat) : List Tree → List Char
  | [] => []
  | t :: ts => spaces indent ++ '-' :: item indent t ++ items indent ts

/-- An item behind its dash. -/
def item (indent : Nat) : Tree → List Char
  | .record (f :: fs) => ' ' :: fields (indent + 2) (f :: fs)
  | .list (t :: ts) => ' ' :: nested (indent + 2) (t :: ts)
  | .text s => text (indent + 2) s.toList
  | .bare s => ' ' :: s.toList ++ ['\n']
  | .list [] => " []\n".toList
  | .record [] => [' ', '{', '}', '\n']

/-- The items of a list that starts on the line of a dash. -/
def nested (indent : Nat) : List Tree → List Char
  | [] => []
  | t :: ts => '-' :: item indent t ++ items indent ts

/-- The fields of a record, the first of which starts on the current line. -/
def fields (indent : Nat) : List (String × Tree) → List Char
  | [] => []
  | f :: fs =>
    f.1.toList ++ ':' :: tree indent f.2 ++
      (if fs.isEmpty then [] else spaces indent ++ fields indent fs)

end

end Writer

/-- The document that holds a list. -/
def render (ts : List Tree) : String :=
  String.ofList (if ts.isEmpty then "[]\n".toList else Writer.items 0 ts)

end Workload.Yaml
