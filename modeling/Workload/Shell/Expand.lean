import Workload.Shell.Fields
import Workload.Shell.Parser
import Workload.Shell.Value

/-!
# Expansion

What words make: values take the place of parameters, outputs the place of commands, and what is not
quoted is split into fields.
-/

namespace Workload.Shell

/-!
## Changes of values

Parts of a value are replaced, or written in other letters.
-/

namespace State

def recaseText (upper all : Bool) (ms : List Mark) (text : String) : String :=
  let change := fun (c : Char) =>
    if fits ms [c] then (if upper then c.toUpper else c.toLower) else c
  match text.toList with
  | [] => ""
  | c :: cs => String.ofList (change c :: if all then cs.map change else cs)

/-- Puts what a match was in the place of an unquoted `&`. -/
def withMatch (word : Cells) (found : List Char) : List Char :=
  word.flatMap fun (c, quoted) => if c = '&' && !quoted then found else [c]

/-- Replaces the longest matches. -/
def replaceIn (ms : List Mark) (word : Cells) (all : Bool) : (fuel : Nat) → List Char → List Char
  | 0, s => s
  | _, [] => []
  | fuel + 1, c :: cs =>
    let s := c :: cs
    match (List.range (s.length + 1)).reverse.find? fun n => n ≠ 0 && fits ms (s.take n) with
    | some n =>
      withMatch word (s.take n) ++ if all then replaceIn ms word all fuel (s.drop n) else s.drop n
    | none => c :: replaceIn ms word all fuel cs

def replaceText (which : Occurrence) (ms : List Mark) (word : Cells) (text : String) : String :=
  let s := text.toList
  let lengths := (List.range (s.length + 1)).reverse
  String.ofList <|
    match which with
    | .first => replaceIn ms word false (s.length + 1) s
    | .all => replaceIn ms word true (s.length + 1) s
    | .front =>
      match lengths.find? fun n => fits ms (s.take n) with
      | some n => withMatch word (s.take n) ++ s.drop n
      | none => s
    | .back =>
      match lengths.reverse.find? fun n => fits ms (s.drop n) with
      | some n => s.take n ++ withMatch word (s.drop n)
      | none => s

/-- The elements from a position on; a negative length counts from the end. -/
def sliceList {α : Type} (start : Int) (length : Option Int) (l : List α) : List α :=
  let n : Int := l.length
  let start := if start < 0 then start + n else start
  if start < 0 || n < start then []
  else
    let rest := l.drop start.toNat
    match length with
    | none => rest
    | some k =>
      if k < 0 then rest.take ((n + k) - start).toNat else rest.take k.toNat

end State

/-! ## Words -/

/-- Carries out a program that is written from a line on, in a copy of the shell; its output. -/
abbrev Capture := (line : Nat) → (source : String) → State → String × State

open State

/-- What a word stands in: an argument, or something that is no list of fields. -/
inductive Place where
  | argument
  | single
  deriving DecidableEq, Repr

/-- What a home directory abbreviation at the start of a word stands for. -/
def expandTilde (s : State) (inAssignment : Bool) (w : Word) : Word :=
  let home? : String → Option String := fun name =>
    if name = "~" then (s.text? "HOME")
    else if name = "~root" then some "/root"
    else if name = "~+" && s.isBash then s.text? "PWD"
    else if name = "~-" && s.isBash then s.text? "OLDPWD"
    else none
  let start : Word → Word := fun w =>
    match w with
    | .text t false :: ps =>
      match t.toList with
      | '~' :: _ =>
        let name := String.ofList (t.toList.takeWhile fun c => c ≠ '/' && !(inAssignment && c = ':'))
        let rest := t.toList.drop name.length
        if rest.isEmpty && !ps.isEmpty then w
        else
          match home? name with
          | some h => .text h true :: (if rest.isEmpty then ps else .text (String.ofList rest) false :: ps)
          | none => w
      | _ => w
    | w => w
  if inAssignment then
    match w with
    | .text t false :: ps =>
      let pieces := Text.pieces ':' t
      let n := pieces.length
      if n < 2 then start w
      else
        let each := pieces.zipIdx.map fun (p, i) =>
          if i + 1 < n then start [.text p false] ++ [.text ":" false]
          else start (.text p false :: ps)
        each.flatten
    | w => w
  else start w

section

variable (capture : Capture)

/-- The pieces of a value. -/
def valuePieces (place : Place) (s : State) (quoted : Bool) : Value → List Piece
  | .one t => [.text (t.getD "") quoted (!quoted)]
  | .many star ts =>
    if star && quoted then [.text (String.intercalate s.joint ts) true false]
    else if star && place = .single then [.text (String.intercalate s.joint ts) quoted false]
    else (ts.map fun t => Piece.text t quoted (!quoted)).intersperse .boundary

/-- Applies a function to all texts of a value. -/
def mapValue (f : String → String) : Value → Value
  | .one t => .one (t.map f)
  | .many star ts => .many star (ts.map f)

/-- Whether a value counts as lacking. -/
def lacks (colon : Bool) : Value → Bool
  | .one none => true
  | .one (some t) => colon && t.isEmpty
  | .many _ [] => true
  | .many _ ts => colon && ts.all String.isEmpty && ts.length = 1

/-- The message about a parameter that nothing was given for. -/
def unsetFault (name : String) (s : State) : State :=
  if s.isBash then
    let name := if name.toList.all Char.isDigit then "$" ++ name else name
    ((s.warn (name ++ ": unbound variable")).finish s.lackCode).ends (.exited s.lackCode)
  else s.fault (name ++ ": parameter not set")

/-- The names of options that are shown for a variable. -/
def attributes (s : State) (name : String) : String :=
  match s.varOf? name with
  | none => ""
  | some v =>
    (match v.content with
      | .list _ => "a"
      | .table _ => "A"
      | _ => "") ++ (if v.integer then "i" else "") ++ (if v.fixed then "r" else "") ++
      (if v.exported then "x" else "") ++
      match v.recase with
      | some true => "u"
      | some false => "l"
      | none => ""

/-- What an operator makes of a text. -/
def transformed (s : State) (name : String) (o : Char) (t : String) : String :=
  match o with
  | 'Q' => bashQuoted t
  | 'U' => String.ofList (t.toList.map Char.toUpper)
  | 'L' => String.ofList (t.toList.map Char.toLower)
  | 'u' => recaseText true false [.anyChar] t
  | 'E' => String.ofList ((untilQuote (t.length + 2) [] (t.toList ++ ['\''])).getD ([], [])).1
  | 'A' => name ++ "=" ++ quotedText t
  | 'a' => attributes s name
  | _ => t

/-- Expands words at one level of nesting, given what expands words within them. -/
structure Expansion where
  /-- The pieces of a word. -/
  word : Place → Word → State → List Piece × State

namespace Expansion

variable (e : Expansion)

/-- The pieces of a text that is read as a word. -/
def text (mode : Mode) (place : Place) (t : String) (s : State) : List Piece × State :=
  e.word place (wordOf s.dialect mode t) s

/-- The number that a text is worth. -/
def number (t : String) (s : State) : Option Int64 × State :=
  let (ps, s) := e.text .formula .single t s
  if s.flow.isSome then (none, s)
  else
    match s.calculate (joined " " ps) with
    | .ok (n, s) => (some n, s)
    | .error f => (none, s.arithmeticFault "" (joined " " ps) f)

/-- The index of an element: its number, or its name in a table. -/
def index (name i : String) (s : State) : String × State :=
  match (s.varOf? name).map Variable.content with
  | some (.table _) =>
    let (ps, s) := e.text .whole .single i s
    (joined " " ps, s)
  | _ =>
    let (n, s) := e.number i s
    (toString ((n.getD 0).toInt), s)

/-- The value of a parameter. -/
def value (name : String) (i : Option String) (s : State) : Value × State :=
  match i with
  | none => (s.valueOf name, s)
  | some "@" => (.many false ((s.elements name).map Prod.snd), s)
  | some "*" => (.many true ((s.elements name).map Prod.snd), s)
  | some i =>
    let (key, s) := e.index name i s
    match (s.varOf? name).map Variable.content with
    | some (.table items) => (.one (items.get? key), s)
    | _ => (.one ((key.toInt?).bind (s.element? name)), s)

/-- Lets a parameter have a text. -/
def assign (name : String) (i : Option String) (text : String) (s : State) : State :=
  match i with
  | none => s.assign name text
  | some i =>
    let (key, s) := e.index name i s
    match s.varOf? name with
    | some { content := .table items, fixed := false, exported, integer, recase } =>
      s.put name { content := .table (Named.put items key text), exported, integer, recase }
    | some { fixed := true, .. } => s.assign name text
    | _ => s.putElement name (key.toInt?.getD 0) text

/-- The marks of a text that is read as a pattern. -/
def pattern (t : String) (s : State) : List Mark × State :=
  let (ps, s) := e.text .whole .single t s
  (marksOf s.isBash (cellsOf ps), s)

/-- The pieces of a parameter whose name and index are settled. -/
def parameter (place : Place) (p : Parameter) (quoted : Bool) (s : State) : List Piece × State :=
  let (v, s) := e.value p.name p.index s
  let pieces := fun (v : Value) (s : State) => (valuePieces place s quoted v, s)
  let word := fun (t : String) (s : State) =>
    let (ps, s) := e.text (if quoted then .quotedWhole else .whole) place t s
    (ps.map fun p => match p with
      | .text t false _ => Piece.text t false true
      | p => p, s)
  let unset := s.has "nounset" && (match v with
    | .one none => true
    | _ => false)
  let shown := p.name ++ (match p.index with
    | some i => "[" ++ i ++ "]"
    | none => "")
  match p.use with
  | .bad =>
    if s.isBash then
      ((s.warn ("$\x7b" ++ p.name ++ "\x7d: bad substitution")).finish 1 |>.ends .abandoned) |> fun s => ([], s)
    else ([], s.fault "Bad substitution")
  | .fallback colon w => if lacks colon v then word w s else pieces v s
  | .given colon w => if lacks colon v then pieces (.one none) s else word w s
  | .assign colon w =>
    if lacks colon v then
      let (ps, s) := word w s
      let t := joined " " ps
      if !isName p.name then
        ([], if s.isBash then (s.warn ("$" ++ p.name ++ ": cannot assign in this way")).finish 1 |>.ends .abandoned
          else s.fault (p.name ++ ": bad variable name"))
      else
        let s := e.assign p.name p.index t s
        ([.text t quoted (!quoted)], s)
    else pieces v s
  | .demand colon w =>
    if lacks colon v then
      let (ps, s) := e.text (if quoted then .quotedWhole else .whole) .single w s
      let message :=
        if w.isEmpty then
          if s.isBash then (if colon then "parameter null or not set" else "parameter not set")
          else (if colon then "parameter not set or null" else "parameter not set")
        else joined " " ps
      ([], if s.isBash then ((s.warn (shown ++ ": " ++ message)).finish s.lackCode).ends (.exited s.lackCode)
        else s.fault (p.name ++ ": " ++ message))
    else pieces v s
  | .length =>
    match v with
    | .many _ ts => pieces (.one (some (toString ts.length))) s
    | .one t =>
      if unset then ([], unsetFault shown s)
      else pieces (.one (some (toString (t.getD "").length))) s
  | .keys => pieces (.many (p.index = some "*") ((s.elements p.name).map Prod.fst)) s
  | .names =>
    let names := (s.vars.map Prod.fst).filter fun n => n.startsWith p.name
    pieces (.many true (names.mergeSort fun a b => a ≤ b)) s
  | .plain => if unset then ([], unsetFault shown s) else pieces v s
  | .strip back longest w =>
    if unset then ([], unsetFault shown s)
    else
      let (ms, s) := e.pattern w s
      let f := fun (t : String) =>
        String.ofList ((if back then withoutEnd else withoutStart) longest ms t.toList)
      pieces (mapValue f v) s
  | .slice start length =>
    let (a, s) := e.number start s
    let (b, s) := match length with
      | some l =>
        let (b, s) := e.number l s
        (some b, s)
      | none => (none, s)
    match a, b with
    | none, _ | _, some none => ([], s)
    | some a, b =>
      let a := a.toInt
      let b := (b.bind id).map Int64.toInt
      match v with
      | .one t =>
        let t := t.getD ""
        let from_ := if a < 0 then a + t.length else a
        match b with
        | some k =>
          if k < 0 && 0 ≤ from_ && from_ ≤ t.length && t.length + k < from_ then
            ([], (s.warn (toString k ++ ": substring expression < 0")).finish 1 |>.ends .abandoned)
          else pieces (.one (some (String.ofList (sliceList a b t.toList)))) s
        | none => pieces (.one (some (String.ofList (sliceList a b t.toList)))) s
      | .many star ts =>
        if p.name = "@" || p.name = "*" then
          pieces (.many star (sliceList a b (s.title :: ts))) s
        else pieces (.many star (sliceList a b ts)) s
  | .replace which w by_ =>
    let (ms, s) := e.pattern w s
    let (ps, s) := e.text (if quoted then .quotedWhole else .whole) .single by_ s
    let ps := ps.map fun p => match p with
      | .text t q _ => Piece.text t (q && !quoted) false
      | p => p
    if ms.isEmpty && (which = .first || which = .all) then pieces v s
    else pieces (mapValue (replaceText which ms (cellsOf ps)) v) s
  | .recase upper all w =>
    let (ms, s) := if w.isEmpty then ([Mark.anyChar], s) else e.pattern w s
    pieces (mapValue (recaseText upper all ms) v) s
  | .transform o => pieces (mapValue (transformed s p.name o) v) s

/-- The pieces of a part of a word. -/
def part (place : Place) (p : Part) (s : State) : List Piece × State :=
  match p with
  | .text t quoted => ([.text t quoted false], s)
  | .target name i adds => ([.text (name ++ "[" ++ i ++ "]" ++ if adds then "+=" else "=") false false], s)
  | .items source => ([.text ("(" ++ source ++ ")") false false], s)
  | .arithmetic source quoted =>
    let (ps, s) := e.text .formula .single source s
    if s.flow.isSome then ([], s)
    else
      match s.calculate (joined " " ps) with
      | .ok (n, s) => ([.text (toString n.toInt) quoted (!quoted)], s)
      | .error f => ([], s.arithmeticFault "" (joined " " ps) f)
  | .output line source quoted =>
    let (text, s) := capture line source s
    let text := String.ofList
      (((text.toList.filter (· ≠ '\x00')).reverse.dropWhile (· = '\n')).reverse)
    ([.text text quoted (!quoted)], s)
  | .stream line source writes =>
    if writes then
      let (text, t) := capture line source s
      let s := { t with status := s.status }
      let number := ((List.range 64).reverse.find? fun n => (s.channelOf? n).isNone).getD 63
      ([.text ("/dev/fd/" ++ toString number) true false], s.openStream number (.input text.toList))
    else ([.text "/dev/null" true false], s)
  | .value p quoted =>
    if p.indirect then
      let (v, s) := e.value p.name p.index s
      match v with
      | .one (some n) =>
        let (name, i) := match n.toList.span (· ≠ '[') with
          | (name, '[' :: i) => (String.ofList name, some (String.ofList i.dropLast))
          | _ => (n, none)
        e.parameter place { p with name, index := i, indirect := false } quoted s
      | _ =>
        match p.use with
        | .plain =>
          ([], (s.warn (p.name ++ ": invalid indirect expansion")).finish 1 |>.ends .abandoned)
        | _ => e.parameter place { p with name := "", indirect := false } quoted s
    else e.parameter place p quoted s

/-- The pieces of the parts of a word, one after the other. -/
def parts (place : Place) (w : Word) (s : State) : List Piece × State :=
  w.foldl
    (fun (ps, s) p =>
      if s.flow.isSome then (ps, s)
      else
        let (qs, s) := e.part capture place p s
        (ps ++ qs, s))
    ([], s)

end Expansion

/-- The pieces of a word that has words within it to some depth. -/
def pieces : (fuel : Nat) → Place → Word → State → List Piece × State
  | 0, _, _, s => ([], s)
  | fuel + 1, place, w, s => Expansion.parts capture ⟨pieces fuel⟩ place w s

/-- How deep words can be within words. -/
def maxNesting : Nat := 200

def expansion : Expansion := ⟨pieces capture maxNesting⟩

/-- The text of a word that is no list of fields. -/
def expandText (w : Word) (s : State) : String × State :=
  let (ps, s) := pieces capture maxNesting .single (expandTilde s false w) s
  (joined (if s.isBash then " " else s.joint) ps, s)

/-- The text of a value that is assigned. -/
def expandValue (w : Word) (s : State) : String × State :=
  let (ps, s) := pieces capture maxNesting .single (expandTilde s true w) s
  (joined (if s.isBash then " " else s.joint) ps, s)

/-- The pattern that a word is. -/
def expandPattern (w : Word) (s : State) : Cells × State :=
  let (ps, s) := pieces capture maxNesting .single (expandTilde s false w) s
  (cellsOf ps, s)

/-- The arguments that a word makes. -/
def expandArgument (w : Word) (s : State) : List String × State :=
  (if s.isBash && s.has "braceexpand" then bracesOf w else [w]).foldl
    (fun (args, s) w =>
      let w := match w.assigned? with
        | some (name, value) =>
          if s.isBash then .text name false :: expandTilde s true value else expandTilde s false w
        | none => expandTilde s false w
      let (ps, s) := pieces capture maxNesting .argument w s
      (args ++ (fieldsOf s.separators ps).flatMap s.pathsOf, s))
    ([], s)

/-- The arguments that words make. -/
def expandArguments (ws : List Word) (s : State) : List String × State :=
  ws.foldl
    (fun (args, s) w =>
      if s.flow.isSome then (args, s)
      else
        let (more, s) := expandArgument capture w s
        (args ++ more, s))
    ([], s)

end

end Workload.Shell
