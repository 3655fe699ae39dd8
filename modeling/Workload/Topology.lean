import Workload.Limits
import Workload.Text
import Workload.Yaml.Value

/-!
# Topologies

A topology is a list of groups of cluster nodes.  The nodes of a group are numbered, and the number
goes into the name of the group in front of its first dot.
-/

namespace Workload

structure ServerGroup where
  name : String
  count : Int := 1
  initNodes : Int := 0
  /-- How many nodes of the group run already; the others are numbered after them. -/
  offset : Int := 0
  deriving Repr, DecidableEq

structure Topology where
  servers : List ServerGroup := []
  /-- Further settings, in the order of the document. -/
  extra : List (String × Yaml.Value) := []
  deriving Repr, Inhabited

namespace ServerGroup

/-- The name of the node with a number. -/
def nodeName (name : String) (number : Int) : String :=
  match Text.cut? "." name with
  | some (host, domain) => host ++ toString number ++ "." ++ domain
  | none => name ++ toString number

/-- The numbers of the nodes of a group. -/
def numbers (g : ServerGroup) : List Int :=
  (List.range g.count.toNat).map fun (i : Nat) => g.offset + 1 + (i : Int)

def nodeNames (g : ServerGroup) : List String := g.numbers.map (nodeName g.name)

/-- Whether the nodes of a group can be numbered and listed. -/
def inRange (g : ServerGroup) : Bool :=
  isWhole (g.offset + 1) && isWhole (g.offset + 1 + max g.count 0) && g.count ≤ (maxListed : Int)

/-- What a group lacks of a target: as many nodes as the target has more, numbered after those that
run already. -/
def missing (target current : ServerGroup) : ServerGroup :=
  let count := max (target.count - current.count) 0
  { target with
    count := count
    initNodes := max (target.initNodes - current.initNodes) 0
    offset := target.count - count }

end ServerGroup

namespace Topology

/-- The names of all nodes, group after group. -/
def nodeNames (t : Topology) : List String := t.servers.flatMap ServerGroup.nodeNames

/-- The names of all nodes, unless those of some group cannot be listed. -/
def nodeNames? (t : Topology) : Option (List String) :=
  if t.servers.all ServerGroup.inRange then some t.nodeNames else none

/-- Pairs groups by their place; a group beyond the current ones is wanted as a whole. -/
def missingGroups : List ServerGroup → List ServerGroup → List ServerGroup
  | [], _ => []
  | ts, [] => ts
  | t :: ts, c :: cs => t.missing c :: missingGroups ts cs

/-- What has to be provided to get from one topology to another. -/
def delta (target current : Topology) : Topology :=
  { target with servers := missingGroups target.servers current.servers }

/-- What has to be provided to get from one topology to another, unless a difference is no number. -/
def delta? (target current : Topology) : Option Topology :=
  if (target.servers.zip current.servers).all fun (t, c) =>
      isWhole (t.count - c.count) && isWhole (t.initNodes - c.initNodes) then
    some (target.delta current)
  else none

end Topology

end Workload
