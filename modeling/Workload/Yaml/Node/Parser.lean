import Workload.Yaml.Node
import Workload.Yaml.Token.Lexer

/-!
# Reading nodes

A document is read from its tokens by recursive descent.  A stream with more than one document is
refused.
-/

namespace Workload.Yaml

/-- What is known while a document is read. -/
structure ParseState where
  tokens : List Token
  /-- The anchors set so far. -/
  anchors : List (List Char × Nat) := []
  /-- What the tag handles stand for. -/
  handles : List (List Char × Tag) := []

abbrev Parser := StateT ParseState Option

namespace Parser

def refuse {α : Type} : Parser α := fun _ => none

/-- The next token, none at the end of the stream. -/
def next : Parser (Option Token) := fun s => some (s.tokens.head?, s)

/-- Passes the next token. -/
def pass : Parser Unit := fun s => some ((), { s with tokens := s.tokens.tail })

/-- Sets an anchor and gives its number. -/
def setAnchor (name : List Char) : Parser Nat := fun s =>
  let id := s.anchors.length
  let others := s.anchors.filter fun a => a.1 ≠ name
  some (id, { s with anchors := others ++ [(name, id)] })

/-- The number of an anchor that is set. -/
def findAnchor (name : List Char) : Parser Nat := fun s =>
  (s.anchors.find? fun a => a.1 = name).map fun a => (a.2, s)

/-- A tag in full. -/
def fullTag (handle : List Char) (suffix : Tag) : Parser Tag := fun s =>
  if handle.isEmpty then some (suffix.ended, s)
  else (s.handles.find? fun h => h.1 = handle).map fun h => (h.2.ended ++ suffix.ended, s)

/-- Anchor and tag in front of a node, in either order. -/
def properties : Parser (Option (List Char) × Option Tag) := do
  match ← next with
  | some (.anchor name) =>
    pass
    match ← next with
    | some (.tag handle suffix) => pass; return (some name, some (← fullTag handle suffix))
    | _ => return (some name, none)
  | some (.tag handle suffix) =>
    pass
    match ← next with
    | some (.anchor name) => pass; return (some name, some (← fullTag handle suffix))
    | _ => return (none, some (← fullTag handle suffix))
  | _ => return (none, none)

/-- Whether a block node is left out in front of this token. -/
def leavesOut : Option Token → Bool
  | some .key | some .value | some .blockEnd => true
  | _ => false

mutual

/-- A node.  Block collections are allowed only if `block` is set, and a sequence that is not
indented only if `bare` is. -/
def node (block bare : Bool) : Nat → Parser Node
  | 0 => refuse
  | fuel + 1 => do
    match ← next with
    | some (.reference name) =>
      pass
      return .reference (← findAnchor name)
    | _ => do
      let (name, tag) ← properties
      let anchor ← match name with
        | some n => some <$> setAnchor n
        | none => pure none
      match ← next with
      | some .blockEntry =>
        if bare then return .sequence anchor tag (← bareEntries fuel)
        else if name.isSome || tag.isSome then return .scalar anchor tag .plain ""
        else refuse
      | some (.scalar text style) =>
        pass
        return .scalar anchor tag style (String.ofList text)
      | some .flowSequenceStart =>
        pass
        return .sequence anchor tag (← flowItems true fuel)
      | some .flowMappingStart =>
        pass
        return .mapping anchor tag (← flowEntries true fuel)
      | some .blockSequenceStart =>
        if block then
          pass
          return .sequence anchor tag (← blockItems fuel)
        else if name.isSome || tag.isSome then return .scalar anchor tag .plain ""
        else refuse
      | some .blockMappingStart =>
        if block then
          pass
          return .mapping anchor tag (← blockEntries fuel)
        else if name.isSome || tag.isSome then return .scalar anchor tag .plain ""
        else refuse
      | _ =>
        if name.isSome || tag.isSome then return .scalar anchor tag .plain ""
        else refuse

/-- The items of an indented sequence up to its end. -/
def blockItems : Nat → Parser (List Node)
  | 0 => refuse
  | fuel + 1 => do
    match ← next with
    | some .blockEntry =>
      pass
      let item ← match ← next with
        | some .blockEntry | some .blockEnd => pure Node.absent
        | _ => node true false fuel
      return item :: (← blockItems fuel)
    | some .blockEnd => pass; return []
    | _ => refuse

/-- The items of a sequence that is not indented. -/
def bareEntries : Nat → Parser (List Node)
  | 0 => refuse
  | fuel + 1 => do
    match ← next with
    | some .blockEntry =>
      pass
      let following ← next
      let item ←
        if following = some .blockEntry || leavesOut following then pure Node.absent
        else node true false fuel
      return item :: (← bareEntries fuel)
    | _ => return []

/-- The entries of a block mapping up to its end. -/
def blockEntries : Nat → Parser (List (Node × Node))
  | 0 => refuse
  | fuel + 1 => do
    match ← next with
    | some .key =>
      pass
      let key ← if leavesOut (← next) then pure Node.absent else node true true fuel
      let value ← blockValue fuel
      return (key, value) :: (← blockEntries fuel)
    | some .blockEnd => pass; return []
    | _ => refuse

/-- The value of an entry of a block mapping. -/
def blockValue : Nat → Parser Node
  | 0 => refuse
  | fuel + 1 => do
    match ← next with
    | some .value =>
      pass
      if leavesOut (← next) then pure Node.absent else node true true fuel
    | _ => return Node.absent

/-- The items of a flow sequence up to its end. -/
def flowItems (first : Bool) : Nat → Parser (List Node)
  | 0 => refuse
  | fuel + 1 => do
    match ← next with
    | some .flowSequenceEnd => pass; return []
    | t =>
      if !first then
        if t = some .flowEntry then pass else refuse
      match ← next with
      | some .flowSequenceEnd => pass; return []
      | some .key =>
        pass
        let pair ← flowPair fuel
        return pair :: (← flowItems false fuel)
      | _ =>
        let item ← node false false fuel
        return item :: (← flowItems false fuel)

/-- A mapping of one entry within a flow sequence, behind its key token. -/
def flowPair : Nat → Parser Node
  | 0 => refuse
  | fuel + 1 => do
    let key ← match ← next with
      | some .value | some .flowEntry | some .flowSequenceEnd => pass; pure Node.absent
      | _ => node false false fuel
    let value ← match ← next with
      | some .value =>
        pass
        match ← next with
        | some .flowEntry | some .flowSequenceEnd => pure Node.absent
        | _ => node false false fuel
      | _ => pure Node.absent
    return .mapping none none [(key, value)]

/-- The entries of a flow mapping up to its end. -/
def flowEntries (first : Bool) : Nat → Parser (List (Node × Node))
  | 0 => refuse
  | fuel + 1 => do
    match ← next with
    | some .flowMappingEnd => pass; return []
    | t =>
      if !first then
        if t = some .flowEntry then pass else refuse
      match ← next with
      | some .flowMappingEnd => pass; return []
      | some .key =>
        pass
        let key ← match ← next with
          | some .value | some .flowEntry | some .flowMappingEnd => pure Node.absent
          | _ => node false false fuel
        let value ← match ← next with
          | some .value =>
            pass
            match ← next with
            | some .flowEntry | some .flowMappingEnd => pure Node.absent
            | _ => node false false fuel
          | _ => pure Node.absent
        return (key, value) :: (← flowEntries false fuel)
      | _ =>
        let key ← node false false fuel
        return (key, Node.absent) :: (← flowEntries false fuel)

end

/-- The handles known without a directive. -/
def standardHandles : List (List Char × Tag) :=
  [(['!'], [Tag.mark]), (['!', '!'], Tag.standardLead)]

/-- Reads the directives in front of a document.  Each is given at most once, and the version is
1.1 or 1.2. -/
def directives (versioned : Bool) (handles : List (List Char × Tag)) : Nat → Parser Unit
  | 0 => refuse
  | fuel + 1 => do
    match ← next with
    | some (.versionDirective major minor) =>
      if versioned || major ≠ 1 || !(minor = 1 || minor = 2) then refuse
      pass
      directives true handles fuel
    | some (.tagDirective handle lead) =>
      if handles.any fun h => h.1 = handle then refuse
      pass
      directives versioned (handles ++ [(handle, lead)]) fuel
    | _ =>
      let standard := standardHandles.filter fun h => !handles.any fun g => g.1 = h.1
      fun s => some ((), { s with handles := handles ++ standard })

/-- Whether a document without content ends in front of this token. -/
def endsDocument : Option Token → Bool
  | none => true
  | some t =>
    match t with
    | .versionDirective .. | .tagDirective .. | .documentStart | .documentEnd => true
    | _ => false

/-- Passes the marks behind a document, after which the stream has to end. -/
def streamEnd : Nat → Parser Unit
  | 0 => refuse
  | fuel + 1 => do
    match ← next with
    | none => return ()
    | some .documentEnd => pass; streamEnd fuel
    | _ => refuse

/-- The document of a stream. -/
def document (fuel : Nat) : Parser Document := do
  match ← next with
  | none => return .empty
  | some t =>
    directives false [] fuel
    let explicit :=
      match t with
      | .versionDirective .. | .tagDirective .. | .documentStart => true
      | _ => false
    if explicit then
      match ← next with
      | some .documentStart => pass
      | _ => refuse
    let root ←
      if explicit && endsDocument (← next) then pure Node.absent else node true false fuel
    streamEnd fuel
    return .content root

end Parser

/-- Reads a text as a document. -/
def parse? (text : String) : Option Document := do
  let tokens ← tokens? text.toList
  let (d, _) ← (Parser.document (4 * tokens.length + 16)).run { tokens := tokens }
  pure d

end Workload.Yaml
