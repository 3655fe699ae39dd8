import Workload.Environment

/-!
# Nodes on demand

A provider that stands for one that creates nodes: every node is reached under its own name, and
nothing has to be done for it.
-/

namespace Workload.Provider

variable {σ : Type}

/-- Nodes that are there when they are asked for; `links` are the names of those that run. -/
def onDemand (links : String) : Provider σ where
  provide _ w := (.done (), w)
  host name w := (.done (name ++ ".local"), w)
  rest name w := (.done (name ++ ".local:8091"), w)
  provisioning := some
    { links := fun _ => links
      saveLogs := fun _ w => (.done (), w)
      removeServers := fun _ w => (.done (), w) }

end Workload.Provider
