import Workload.Shell.Pattern
import Workload.Text

/-!
# Regular expressions

Basic and extended regular expressions.  Of the texts that match, the one that begins first is found,
and of those the longest.
-/

namespace Workload.Shell

inductive Regex where
  | empty
  | char (c : Char)
  | any
  | set (negated : Bool) (members : List Member)
  | lineStart
  | lineEnd
  | wordStart
  | wordEnd
  /-- An end of a word, or a place that is none. -/
  | wordEdge (is : Bool)
  /-- A place with no letter of a word before it, or with none behind it. -/
  | free (ahead : Bool)
  | seq (a b : Regex)
  | alt (a b : Regex)
  | rep (r : Regex) (least : Nat) (most : Option Nat)
  | group (n : Nat) (r : Regex)
  /-- What a group has matched. -/
  | back (n : Nat)
  deriving DecidableEq, Repr

namespace Regex

def isWordChar (c : Char) : Bool := c.isAlphanum || c = '_'

/-! ### Reading -/

/-- The members of a set up to the closing bracket. -/
def readSet : (fuel : Nat) → (first : Bool) → List Char → Option (List Member × List Char)
  | 0, _, _ => none
  | _, _, [] => none
  | fuel + 1, first, c :: cs =>
    if c = ']' && !first then some ([], cs)
    else if c = '[' && cs.head? = some ':' then
      let name := (cs.drop 1).takeWhile Char.isAlpha
      match cs.drop (1 + name.length) with
      | ':' :: ']' :: rest =>
        (readSet fuel false rest).map fun r => (.named (String.ofList name) :: r.1, r.2)
      | _ => (readSet fuel false cs).map fun r => (.range c c :: r.1, r.2)
    else
      match cs with
      | '-' :: d :: rest =>
        if d = ']' then (readSet fuel false cs).map fun r => (.range c c :: r.1, r.2)
        else (readSet fuel false rest).map fun r => (.range c d :: r.1, r.2)
      | cs => (readSet fuel false cs).map fun r => (.range c c :: r.1, r.2)

/-- How often something is repeated, up to the closing brace. -/
def readCounts (extended : Bool) (s : List Char) : Option ((Nat × Option Nat) × List Char) :=
  let low := s.takeWhile Char.isDigit
  let rest := s.drop low.length
  let (most, rest) : Option (Option Nat) × List Char := match rest with
    | ',' :: rest =>
      let high := rest.takeWhile Char.isDigit
      (if high.isEmpty then some none else (Text.natOf? 10 high).map some, rest.drop high.length)
    | rest => ((Text.natOf? 10 low).map some, rest)
  let least := (Text.natOf? 10 low).getD 0
  match most, extended, rest with
  | some m, true, '\x7d' :: rest => some ((least, m), rest)
  | some m, false, '\\' :: '\x7d' :: rest => some ((least, m), rest)
  | _, _, _ => none

/-- What is read of an expression: it, what follows it, and how many groups there are so far. -/
structure Reading where
  regex : Regex
  rest : List Char
  groups : Nat

/-- Puts repetitions on what stands before them. -/
def repeated (extended : Bool) : (fuel : Nat) → Regex → List Char → Regex × List Char
  | 0, r, s => (r, s)
  | fuel + 1, r, s =>
    match extended, s with
    | _, '*' :: s => repeated extended fuel (.rep r 0 none) s
    | true, '+' :: s => repeated extended fuel (.rep r 1 none) s
    | true, '?' :: s => repeated extended fuel (.rep r 0 (some 1)) s
    | false, '\\' :: '+' :: s => repeated extended fuel (.rep r 1 none) s
    | false, '\\' :: '?' :: s => repeated extended fuel (.rep r 0 (some 1)) s
    | true, '\x7b' :: t =>
      match readCounts true t with
      | some ((least, most), rest) => repeated extended fuel (.rep r least most) rest
      | none => (r, s)
    | false, '\\' :: '\x7b' :: t =>
      match readCounts false t with
      | some ((least, most), rest) => repeated extended fuel (.rep r least most) rest
      | none => (r, s)
    | _, s => (r, s)

/-- The expression of an escape by a letter. -/
def escaped (c : Char) : Regex :=
  let word : List Member := [.named "alnum", .range '_' '_']
  match c with
  | 'w' => .set false word
  | 'W' => .set true word
  | 's' => .set false [.named "space"]
  | 'S' => .set true [.named "space"]
  | 'b' => .wordEdge true
  | 'B' => .wordEdge false
  | '<' => .wordStart
  | '>' => .wordEnd
  | '\x60' => .lineStart
  | '\'' => .lineEnd
  | 'n' => .char '\n'
  | 't' => .char '\t'
  | c => if '1' ≤ c && c ≤ '9' then .back (c.toNat - 48) else .char c

section

variable (extended : Bool)

/-- Whether an alternative or a group ends here. -/
def endsBranch (s : List Char) (depth : Nat) : Bool :=
  match s with
  | [] => true
  | '|' :: _ => extended
  | ')' :: _ => extended && depth ≠ 0
  | '\\' :: '|' :: _ => !extended
  | '\\' :: ')' :: _ => !extended
  | _ => false

mutual

/-- Alternatives, up to the end of their group. -/
def readAlternatives : (fuel depth groups : Nat) → List Char → Option Reading
  | 0, _, _, _ => none
  | fuel + 1, depth, groups, s => do
    let a ← readBranch fuel depth groups .empty true s
    match extended, a.rest with
    | true, '|' :: rest | false, '\\' :: '|' :: rest =>
      let b ← readAlternatives fuel depth a.groups rest
      pure { b with regex := .alt a.regex b.regex }
    | _, _ => pure a

/-- Expressions that follow one another, behind those that are read; `first` tells that there are
none. -/
def readBranch : (fuel depth groups : Nat) → Regex → (first : Bool) → List Char → Option Reading
  | 0, _, _, _, _, _ => none
  | fuel + 1, depth, groups, acc, first, s => do
    if endsBranch extended s depth then return { regex := acc, rest := s, groups }
    else
      let go := fun (r : Regex) (s : List Char) (groups : Nat) =>
        let (r, s) := repeated extended (s.length + 1) r s
        readBranch fuel depth groups (if acc = .empty then r else .seq acc r) false s
      let bare := fun (r : Regex) (s : List Char) (first : Bool) =>
        readBranch fuel depth groups (if acc = .empty then r else .seq acc r) first s
      match s with
      | [] => return { regex := acc, rest := [], groups }
      | c :: cs =>
        match c with
        | '.' => go .any cs groups
        | '[' =>
          let (negated, body) := match cs with
            | '^' :: body => (true, body)
            | body => (false, body)
          let (members, rest) ← readSet (body.length + 1) true body
          go (.set negated members) rest groups
        | '^' => if extended || first then bare .lineStart cs true else go (.char '^') cs groups
        | '$' =>
          if extended || endsBranch extended cs (depth + 1) then bare .lineEnd cs false
          else go (.char '$') cs groups
        | '*' => if first then go (.char '*') cs groups else none
        | '(' =>
          if extended then
            let n := groups + 1
            let inner ← readAlternatives fuel (depth + 1) n cs
            match inner.rest with
            | ')' :: rest => go (.group n inner.regex) rest inner.groups
            | _ => none
          else go (.char '(') cs groups
        | '\\' =>
          match cs with
          | [] => none
          | d :: rest =>
            if d = '(' && !extended then
              let n := groups + 1
              let inner ← readAlternatives fuel (depth + 1) n rest
              match inner.rest with
              | '\\' :: ')' :: rest => go (.group n inner.regex) rest inner.groups
              | _ => none
            else if d = '\x7b' && !extended && first then go (.char d) rest groups
            else go (escaped d) rest groups
        | c =>
          if extended && (c = '+' || c = '?') && first then go (.char c) cs groups
          else go (.char c) cs groups

end

/-- The expression that a text writes. -/
def read? (s : String) : Option Regex := do
  let r ← readAlternatives extended (3 * s.length + 3) 0 0 s.toList
  if r.rest.isEmpty then pure r.regex else none

end

/-! ### Matching -/

/-- How far a match has come, and what its groups have matched. -/
structure Progress where
  position : Nat
  groups : List (Nat × Nat × Nat) := []
  deriving DecidableEq, Repr

/-- Goes on with what is repeated, longer matches first. -/
def repeats (step : Progress → List Progress) (least : Nat) (most : Option Nat) :
    (fuel count : Nat) → Progress → List Progress
  | 0, count, p => if least ≤ count then [p] else []
  | fuel + 1, count, p =>
    let more := if most.any (· ≤ count) then []
      else ((step p).filter fun q => p.position < q.position || count < least).flatMap
        (repeats step least most fuel (count + 1))
    if least ≤ count then more ++ [p] else more

/-- The ends of matches that have come so far. -/
def ends (text : Array Char) : Regex → Progress → List Progress
  | .empty, p => [p]
  | .char c, p => if text[p.position]? = some c then [{ p with position := p.position + 1 }] else []
  | .any, p => if p.position < text.size then [{ p with position := p.position + 1 }] else []
  | .set negated ms, p =>
    match text[p.position]? with
    | some c => if ms.any (·.has c) != negated then [{ p with position := p.position + 1 }] else []
    | none => []
  | .lineStart, p => if p.position = 0 then [p] else []
  | .lineEnd, p => if p.position = text.size then [p] else []
  | .wordStart, p => if !before p && behind p then [p] else []
  | .wordEnd, p => if before p && !behind p then [p] else []
  | .wordEdge is, p => if (before p != behind p) = is then [p] else []
  | .free ahead, p => if (if ahead then behind p else before p) then [] else [p]
  | .seq a b, p => (ends text a p).flatMap (ends text b)
  | .alt a b, p => ends text a p ++ ends text b p
  | .rep r least most, p => repeats (ends text r) least most (text.size + least + 1) 0 p
  | .group n r, p =>
    (ends text r p).map fun q =>
      { q with groups := (n, p.position, q.position) :: q.groups.filter fun g => g.1 ≠ n }
  | .back n, p =>
    match p.groups.find? fun g => g.1 = n with
    | some (_, i, j) =>
      let found := (text.extract i j).toList
      if (text.extract p.position (p.position + found.length)).toList = found then
        [{ p with position := p.position + found.length }]
      else []
    | none => []
where
  before (p : Progress) : Bool := p.position ≠ 0 && (text[p.position - 1]?).any isWordChar
  behind (p : Progress) : Bool := (text[p.position]?).any isWordChar

/-- The longest match that begins at a position. -/
def matchAt (text : Array Char) (r : Regex) (start : Nat) : Option Progress :=
  (ends text r { position := start }).foldl
    (fun best p => match best with
      | none => some p
      | some b => if b.position < p.position then some p else some b)
    none

/-- The first match from a position on: where it begins, and how it ends. -/
def search (text : Array Char) (r : Regex) (start : Nat) : Option (Nat × Progress) :=
  (List.range (text.size + 1 - start)).findSome? fun i =>
    (matchAt text r (start + i)).map fun p => (start + i, p)

/-- The text of a group of a match; the group zero is all of it. -/
def groupText (text : Array Char) (start : Nat) (p : Progress) (n : Nat) : String :=
  if n = 0 then String.ofList (text.extract start p.position).toList
  else
    match p.groups.find? fun g => g.1 = n with
    | some (_, i, j) => String.ofList (text.extract i j).toList
    | none => ""

/-- How many groups there are. -/
def groupCount : Regex → Nat
  | .seq a b | .alt a b => groupCount a + groupCount b
  | .rep r _ _ => groupCount r
  | .group _ r => groupCount r + 1
  | _ => 0

end Regex

end Workload.Shell
