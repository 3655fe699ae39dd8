import Workload.Docker.Runtime
import Workload.Yaml.Decode

/-!
# Docker as a provider

The nodes of a cluster are containers, each with a port of the host that it is reached through.  New
nodes get the ports after those of the nodes that are there.
-/

namespace Workload.Docker

structure Options where
  /-- The build of the server that the nodes run. -/
  build : String := "latest"
  /-- The image of the nodes, if it is not that of the build. -/
  image : Option String := none
  /-- Where the ports are reached. -/
  host : String := "127.0.0.1"
  deriving DecidableEq, Repr

namespace Options

def serverImage (o : Options) : String := o.image.getD ("couchbase/server:" ++ o.build)

/-- Where the options are read from. -/
def path : String := "providers/docker/options.yml"

def decode (n : Yaml.Node) : Yaml.Decoder Options := do
  let fs ← Yaml.Decode.fields n
  let d : Options := {}
  pure
    { build := ← Yaml.Decode.fieldD fs "build" Yaml.Decode.text d.build
      image := ← Yaml.Decode.fieldD fs "image" (Yaml.Decode.optional Yaml.Decode.text) none
      host := ← Yaml.Decode.fieldD fs "host" Yaml.Decode.text d.host }

/-- The options of a run; without a file they are the usual ones, and with one that cannot be read
they are, too, but that is noted. -/
def read (fs : Files) : Options × List LogLine :=
  match fs.readText path with
  | .error _ => ({}, [])
  | .ok text =>
    match Yaml.decode decode (some {}) text with
    | some o => (o, [])
    | none => ({}, [.warn "invalid docker provider options, using defaults"])

end Options

/-- The port of the first node. -/
def firstPort : Nat := 8091

/-- The port of a node with as many before it, if there is such a port; of their number only the lowest
sixteen bits count. -/
def portOf? (before : Nat) : Option Nat :=
  let port := firstPort + before % (maxPort + 1)
  if port ≤ maxPort then some port else none

variable {π : Type} (p : Program π) (o : Options)

/-- Starts nodes with `before` nodes before them.  The first that does not start ends it. -/
def startServers : (before : Nat) → List String → Engine π →
    Reply RuntimeFault Unit × Engine π
  | _, [], e => (.done (), e)
  | before, name :: names, e =>
    match portOf? before with
    | none => (.impossible (.ok ()), e)
    | some port =>
      match runServer p name o.serverImage port e.program with
      | (.ok id, program) =>
        let e := { e with program, servers := e.servers.put name ⟨id, port⟩ }
        let (r, e) := startServers (before + 1) names e
        let line := LogLine.info ("started server http://" ++ o.host ++ ":" ++ toString port)
        ({ r with log := line :: r.log }, e)
      | (.error fault, program) => (.failed fault, { e with program })

/-- Starts the nodes of a topology after those that are there. -/
def provide (t : Topology) : Call (World (Engine π)) ProviderFault Unit := fun w =>
  match countServers p w.containers.program with
  | (.error fault, program) =>
    (.failed (.runtime fault), { w with containers := { w.containers with program } })
  | (.ok n, program) =>
    match t.nodeNames? with
    | none => (.impossible (.ok ()), { w with containers := { w.containers with program } })
    | some names =>
      let (r, containers) := startServers p o n names { w.containers with program }
      ({ r with result := r.result.mapError .runtime }, { w with containers })

/-- The address of a node, or of any other container of that name. -/
def host (name : String) : Call (World (Engine π)) ProviderFault String := fun w =>
  let id := (w.containers.servers.get? name).elim name Server.id
  let (reply, w) := onProgram (ipAddress p id) w
  ({ result := reply.result.mapError .runtime }, w)

def rest (name : String) : Call (World (Engine π)) ProviderFault String := fun w =>
  match w.containers.servers.get? name with
  | some s => (.done (o.host ++ ":" ++ toString s.port), w)
  | none => (.failed (.unknownNode name), w)

/-- Inserts a node by its name. -/
def insertServer (e : String × Server) : List (String × Server) → List (String × Server)
  | [] => [e]
  | f :: fs => if e.1 ≤ f.1 then e :: f :: fs else f :: insertServer e fs

/-- The nodes that were started, by name. -/
def sortedServers (e : Engine π) : List (String × Server) := e.servers.foldr insertServer []

def links (w : World (Engine π)) : String :=
  String.intercalate "," ((sortedServers w.containers).map Prod.fst)

/-- Writes the logs of nodes into a directory.  A log that cannot be read ends it, one that cannot be
written is noted. -/
def saveServerLogs (directory : String) : List (String × Server) → World (Engine π) →
    Reply ProviderFault Unit × World (Engine π)
  | [], w => (.done (), w)
  | (name, server) :: rest, w =>
    let (r, program) := logs p server.id w.containers.program
    let w := { w with containers := { w.containers with program } }
    match r with
    | .error fault => (.failed (.runtime fault), w)
    | .ok text =>
      match w.files.writeText (Path.join directory (name ++ ".log")) text with
      | .ok files => saveServerLogs directory rest { w with files }
      | .error _ =>
        let (reply, w) := saveServerLogs directory rest w
        ({ reply with log := .warn "could not write server log" :: reply.log }, w)

def saveLogs (directory : String) : Call (World (Engine π)) ProviderFault Unit := fun w =>
  match w.files.createDirectory directory with
  | .error cause => (.failed (.io cause), w)
  | .ok files =>
    saveServerLogs p directory (sortedServers w.containers) { w with files }

/-- Takes the nodes away, or just stops them, in which case they stay known. -/
def dismiss (soft : Bool) : Call (World (Engine π)) ProviderFault Unit := fun w =>
  match onProgram (removeServers p soft) w with
  | ({ result := .error fault, .. }, w) => (.failed (.runtime fault), w)
  | ({ result := .ok _, .. }, w) =>
    (.done (),
      if soft then w else { w with containers := { w.containers with servers := [] } })

/-- The provider whose nodes are containers of the docker program. -/
def provider : Provider (World (Engine π)) where
  provide := provide p o
  host := host p
  rest := rest o
  provisioning := some { links, saveLogs := saveLogs p, removeServers := dismiss p }

end Workload.Docker
