import Workload.Yaml.Node.Parser
import Workload.Yaml.Plain

/-!
# Reading values out of a document

A decoder reads a value of a wanted shape out of a node.  An alias is read as the node it stands for;
how often that may happen is limited by the size of the document.  A plain scalar without characters
is also an empty list and an empty record.
-/

namespace Workload.Yaml

/-- The document that is read. -/
structure Source where
  root : Node
  /-- How often aliases may be followed. -/
  budget : Nat

abbrev Decoder := ReaderT Source (StateT Nat Option)

namespace Decode

def fail {α : Type} : Decoder α := fun _ _ => none

/-- The node that an alias stands for. -/
def follow (n : Node) : Decoder Node :=
  match n with
  | .reference id => fun src followed =>
    if src.budget < followed + 1 then none
    else (Node.anchored id none src.root).map fun n => (n, followed + 1)
  | n => pure n

/-- A scalar of any style, tagged or not. -/
def text (n : Node) : Decoder String := do
  match ← follow n with
  | .scalar _ _ _ s => pure s
  | _ => fail

/-- Whether a scalar can be read as a value other than a text: it is plain, or a literal with the
tag of the wanted kind. -/
def opens (kind : String) : Node → Option (List Char)
  | .scalar _ _ .plain s => some s.toList
  | .scalar _ (some t) .literal s => if t = Tag.standard kind then some s.toList else none
  | _ => none

def bool (n : Node) : Decoder Bool := do
  match (opens "bool" (← follow n)).bind bool? with
  | some b => pure b
  | none => fail

def int64 (n : Node) : Decoder Int := do
  match (opens "int" (← follow n)).bind (signed? (Nat.pow 2 63)) with
  | some i => pure i
  | none => fail

def nat64 (n : Node) : Decoder Nat := do
  match (opens "int" (← follow n)).bind (unsigned? (Nat.pow 2 64)) with
  | some i => pure i
  | none => fail

def nat8 (n : Node) : Decoder Nat := do
  let i ← nat64 n
  if i < 256 then pure i else fail

/-- A value that null stands for the absence of. -/
def optional {α : Type} (dec : Node → Decoder α) (n : Node) : Decoder (Option α) := do
  match ← follow n with
  | .scalar a t .plain s =>
    if t = some (Tag.standard "null") then
      if isNull s.toList then pure none else fail
    else if t.isNone && (s.isEmpty || isNull s.toList) then pure none
    else some <$> dec (.scalar a t .plain s)
  | n => some <$> dec n

/-- The items of a list. -/
def items (n : Node) : Decoder (List Node) := do
  match ← follow n with
  | .sequence _ _ ns => pure ns
  | .scalar _ _ .plain "" => pure []
  | _ => fail

def list {α : Type} (dec : Node → Decoder α) (n : Node) : Decoder (List α) := do
  (← items n).mapM dec

/-- The fields of a record, whose names are scalars. -/
def fields (n : Node) : Decoder (List (String × Node)) := do
  match ← follow n with
  | .mapping _ _ entries => entries.mapM fun e => do pure (← text e.1, e.2)
  | .scalar _ _ .plain "" => pure []
  | _ => fail

/-- A field that may be given once. -/
def field? {α : Type} (fs : List (String × Node)) (name : String) (dec : Node → Decoder α) :
    Decoder (Option α) :=
  match fs.filter fun f => f.1 = name with
  | [] => pure none
  | [f] => some <$> dec f.2
  | _ => fail

/-- A field with a value for its absence. -/
def fieldD {α : Type} (fs : List (String × Node)) (name : String) (dec : Node → Decoder α)
    (absent : α) : Decoder α := do
  pure ((← field? fs name dec).getD absent)

/-- A field that has to be given. -/
def field {α : Type} (fs : List (String × Node)) (name : String) (dec : Node → Decoder α) :
    Decoder α := do
  match ← field? fs name dec with
  | some a => pure a
  | none => fail

/-- A choice between names, given as a scalar or as a tag on nothing. -/
def choice {α : Type} (names : List (String × α)) (n : Node) : Decoder α := do
  let pick := fun (s : String) => match names.find? fun p => p.1 = s with
    | some p => pure p.2
    | none => fail
  match ← follow n with
  | .scalar _ t style s =>
    match t.bind Tag.localName? with
    | some name => if style = .plain && (s.isEmpty || isNull s.toList) then pick name else fail
    | none => pick s
  | _ => fail

/-- A scalar as a value of its own kind. -/
def scalarValue (tag : Option Tag) (style : ScalarStyle) (s : String) : Option Value :=
  let cs := s.toList
  let ofPlain : Plain → Option Value
    | .null => some .null
    | .bool b => some (.bool b)
    | .int n => some (.int n)
    | .wide _ => none
    | .real x => some (.real x)
    | .text => some (.text s)
  match tag with
  | none => if style = .plain then ofPlain (plain cs) else some (.text s)
  | some t =>
    if t = Tag.standard "bool" then (bool? cs).map .bool
    else if t = Tag.standard "int" then (whole? cs).bind ofPlain
    else if t = Tag.standard "float" then (real? cs).map .real
    else if t = Tag.standard "null" then if isNull cs then some .null else none
    else if t.isMarked && style = .plain then ofPlain (plain cs)
    else some (.text s)

/-- Whether a tag is one of the document's own, which no value can carry. -/
def isLocalTag (tag : Option Tag) : Bool := (tag.bind Tag.localName?).isSome

/-- A value of whatever kind, nested at most as deep as the first argument says. -/
def value : Nat → Node → Decoder Value
  | depth, n => do
    match ← follow n with
    | .scalar _ t style s =>
      if isLocalTag t then fail
      else
        match scalarValue t style s with
        | some v => pure v
        | none => fail
    | .sequence _ t ns =>
      if isLocalTag t then fail
      else
        match depth with
        | 0 => fail
        | d + 1 => .list <$> ns.mapM (value d)
    | .mapping _ t es =>
      if isLocalTag t then fail
      else
        match depth with
        | 0 => fail
        | d + 1 => do
          let entries ← es.mapM fun e => do pure (← value d e.1, ← value d e.2)
          if hasDuplicateKey entries then fail
          pure (.mapping entries)
    | .reference _ => fail

/-- How deep the collections of a document may be nested. -/
def maxDepth : Nat := 128

end Decode

/-- Reads a value out of a text; a text without a document reads as `none` where that is given. -/
def decode {α : Type} (dec : Node → Decoder α) (ofEmpty : Option α) (text : String) : Option α :=
  match parse? text with
  | none => none
  | some .empty => ofEmpty
  | some (.content root) =>
    (dec root { root := root, budget := 100 * root.size } 0).map Prod.fst

end Workload.Yaml
