import Workload.Fault
import Workload.Text

/-!
# Provider specs

A provider is chosen by a text: its kind, and after a colon what the kind needs to know.
-/

namespace Workload

inductive ProviderSpec where
  /-- Nodes that are created as containers. -/
  | docker
  /-- Nodes on the hosts of a file. -/
  | file (name : String)
  /-- Nodes that share a host. -/
  | dev (endpoint : String)
  deriving DecidableEq, Repr

namespace ProviderSpec

def parse (spec : String) : Except ConfigFault ProviderSpec :=
  let (kind, argument) :=
    match Text.cut? ":" spec with
    | some (kind, argument) => (kind, some argument)
    | none => (spec, none)
  match kind with
  | "docker" => .ok .docker
  | "file" => .ok (.file (argument.getD "default.yml"))
  | "dev" => .ok (.dev (argument.getD "127.0.0.1"))
  | _ => .error (.unknownProvider spec)

def kind : ProviderSpec → String
  | .docker => "docker"
  | .file _ => "file"
  | .dev _ => "dev"

/-- Whether the nodes are created on demand. -/
def isDynamic : ProviderSpec → Bool
  | .docker => true
  | .file _ | .dev _ => false

end ProviderSpec

end Workload
