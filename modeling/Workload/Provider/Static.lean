import Workload.Environment
import Workload.Provider.Spec
import Workload.Yaml.Decode

/-!
# Nodes that exist beforehand

Two providers just know where the nodes of a cluster are: one counts ports up from a first one on a
single host, the other reads hosts from a file.  What they once knew about a node they keep until they
are told otherwise.
-/

namespace Workload.Provider

variable {ρ : Type}

/-- The address recorded for a node. -/
def recorded (name : String) : Call (World ρ) ProviderFault String := fun w =>
  match w.addresses.get? name with
  | some a => (.done a, w)
  | none => (.failed (.unknownNode name), w)

/-! ### Consecutive ports -/

/-- The port of the first node. -/
def firstPort : Nat := 9000

/-- The addresses of nodes on consecutive ports. -/
def portAddresses (endpoint : String) : (port : Nat) → List String → List (String × String)
  | _, [] => []
  | port, name :: names =>
    (name, endpoint ++ ":" ++ toString port) :: portAddresses endpoint (port + 1) names

/-- Nodes that share a host. -/
def dev (endpoint : String) : Provider (World ρ) where
  provide t w :=
    match t.nodeNames? with
    | some names => (.done (), w.address (portAddresses endpoint firstPort names))
    | none => (.impossible (.ok ()), w)
  host := recorded
  rest := recorded

/-! ### Hosts from a file -/

/-- The directory of the host files. -/
def hostFileDirectory : String := "providers/file"

/-- The hosts in a host file. -/
def readHosts (path : String) (fs : Files) : Except ProviderFault (List String) :=
  match fs.readText path with
  | .error cause => .error (.hostFile path (.file cause))
  | .ok text =>
    match Yaml.decode Yaml.Decode.text none text with
    | some hosts => .ok (Text.words hosts)
    | none => .error (.hostFile path .notAString)

/-- Nodes on the hosts of a file, in order; nodes beyond the last host are nowhere. -/
def file (name : String) : Provider (World ρ) where
  provide t w :=
    match readHosts (Path.join hostFileDirectory name) w.files with
    | .error fault => (.failed fault, w)
    | .ok hosts =>
      match t.nodeNames? with
      | some names => (.done (), w.address (names.zip hosts))
      | none => (.impossible (.ok ()), w)
  host := recorded
  rest node w :=
    let (r, w) := recorded node w
    ({ r with result := r.result.map (· ++ ":8091") }, w)

/-- The provider of a spec where no containers are created: in the place of nodes that are containers
there are nodes that share the local host. -/
def ofSpec : ProviderSpec → Provider (World ρ)
  | .docker => dev "127.0.0.1"
  | .file name => file name
  | .dev endpoint => dev endpoint

end Workload.Provider
