import Workload.Topology
import Workload.Yaml.Decode

/-!
# Topology documents

A topology document lists its groups under `servers`; every other field is a further setting.  The
offset of a group is never read.
-/

namespace Workload

open Yaml (Decoder Node)

def ServerGroup.decode (n : Node) : Decoder ServerGroup := do
  let fs ← Yaml.Decode.fields n
  pure
    { name := ← Yaml.Decode.field fs "name" Yaml.Decode.text
      count := ← Yaml.Decode.fieldD fs "count" Yaml.Decode.int64 1
      initNodes := ← Yaml.Decode.fieldD fs "init_nodes" Yaml.Decode.int64 0 }

/-- Whether a name stands twice in a list. -/
def hasDuplicate : List String → Bool
  | [] => false
  | s :: ss => ss.contains s || hasDuplicate ss

def Topology.decode (n : Node) : Decoder Topology := do
  let fs ← Yaml.Decode.fields n
  let others := fs.filter fun f => f.1 ≠ "servers"
  if hasDuplicate (others.map Prod.fst) then Yaml.Decode.fail
  pure
    { servers := ← Yaml.Decode.fieldD fs "servers" (Yaml.Decode.list ServerGroup.decode) []
      extra := ← others.mapM fun f => do
        pure (f.1, ← Yaml.Decode.value (Yaml.Decode.maxDepth - 1) f.2) }

/-- The topology of a document. -/
def Topology.ofText? (text : String) : Option Topology :=
  Yaml.decode Topology.decode (some {}) text

end Workload
