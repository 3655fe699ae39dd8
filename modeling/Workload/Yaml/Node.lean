import Workload.Yaml.Token

/-!
# Nodes of a document

A document is a tree of nodes.  A node can carry an anchor; an alias stands for the node that carries
its anchor.  Anchors are numbered by how many names were in use when they were set.
-/

namespace Workload.Yaml

inductive Node where
  | scalar (anchor : Option Nat) (tag : Option Tag) (style : ScalarStyle) (text : String)
  | sequence (anchor : Option Nat) (tag : Option Tag) (items : List Node)
  | mapping (anchor : Option Nat) (tag : Option Tag) (entries : List (Node × Node))
  | reference (anchor : Nat)
  deriving Repr, Inhabited

namespace Node

/-- What stands where a node is left out. -/
def absent : Node := .scalar none none .plain ""

mutual

/-- How many events a node is: its scalars, aliases, starts and ends of collections. -/
def size : Node → Nat
  | .scalar .. => 1
  | .reference _ => 1
  | .sequence _ _ items => sizeAll items + 2
  | .mapping _ _ entries => sizeEntries entries + 2

def sizeAll : List Node → Nat
  | [] => 0
  | n :: ns => n.size + sizeAll ns

def sizeEntries : List (Node × Node) → Nat
  | [] => 0
  | (k, v) :: es => k.size + v.size + sizeEntries es

end

mutual

/-- The last node, in the order of the document, that carries an anchor, or `found`. -/
def anchored (id : Nat) (found : Option Node) : Node → Option Node
  | .scalar a t s x => if a = some id then some (.scalar a t s x) else found
  | .reference _ => found
  | .sequence a t items =>
    anchoredIn id (if a = some id then some (.sequence a t items) else found) items
  | .mapping a t entries =>
    anchoredInEntries id (if a = some id then some (.mapping a t entries) else found) entries

def anchoredIn (id : Nat) (found : Option Node) : List Node → Option Node
  | [] => found
  | n :: ns => anchoredIn id (anchored id found n) ns

def anchoredInEntries (id : Nat) (found : Option Node) : List (Node × Node) → Option Node
  | [] => found
  | (k, v) :: es => anchoredInEntries id (anchored id (anchored id found k) v) es

end

end Node

/-- A stream holds no document, or one. -/
inductive Document where
  | empty
  | content (root : Node)
  deriving Repr, Inhabited

end Workload.Yaml
