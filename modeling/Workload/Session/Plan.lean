import Workload.CommandLine.Options
import Workload.Docker.Provider
import Workload.Documents
import Workload.Provider.Spec

/-!
# Sessions

A session is a run that a command line asks for.  First its configuration is settled, then its plan,
which is what is read before the run begins; only the plan decides whether it begins at all.
-/

namespace Workload

/-- How much of the log is shown. -/
inductive Verbosity where
  | quiet | normal | verbose
  deriving DecidableEq, Repr

namespace Verbosity

def text : Verbosity → String
  | .quiet => "quiet"
  | .normal => "normal"
  | .verbose => "verbose"

/-- The least severity that is shown. -/
def filter : Verbosity → String
  | .quiet => "warn"
  | .normal => "info"
  | .verbose => "debug"

def shows : Verbosity → Severity → Bool
  | .quiet, .info => false
  | _, _ => true

def ofOptions (o : CommandLine.Options) : Verbosity :=
  if o.has .quiet then .quiet
  else if o.has .verbose then .verbose
  else .normal

end Verbosity

structure Session where
  config : RunConfig
  /-- Where the configuration was read from. -/
  configPath : Option String
  verbosity : Verbosity
  /-- Whether the run is only rehearsed. -/
  rehearses : Bool
  deriving DecidableEq, Repr

/-- Why there is no session. -/
inductive SessionFault where
  | usage (cause : CommandLine.UsageFault)
  | configuration (cause : Fault)
  deriving DecidableEq, Repr

/-- What is known of a run before it begins. -/
structure Plan where
  actions : List Action
  topology : Topology
  provider : ProviderSpec
  /-- How nodes are created, where they are containers. -/
  options : Docker.Options

namespace Session

/-- The session of a command line.  The configuration is read from the file that the command line
names, or else from the one in the working directory, if there is one. -/
def ofArgs (fs : Files) (args : List String) : Except SessionFault Session := do
  let o ← (CommandLine.Options.parse args).mapError .usage
  let configPath := o.file.or (fs.findConfig "").toOption
  let file ← (configPath.elim (.ok {}) fs.readConfig).mapError .configuration
  let config := o.apply file
  config.validate.mapError fun cause => .configuration (.config cause)
  pure
    { config, configPath, verbosity := .ofOptions o, rehearses := o.has .dryRun }

variable (s : Session)

/-- The actions of the run, which have to be valid. -/
def actions (fs : Files) : Except Fault (List Action) := do
  let as ← fs.loadActions s.config
  (Action.validateAll as).mapError .config
  pure as

/-- The cluster of the run, and where its nodes come from. -/
def cluster (fs : Files) : Except Fault (Topology × ProviderSpec) := do
  let topology ← s.config.scope.elim (.ok {}) fs.readTopology
  let provider ← (ProviderSpec.parse s.config.provider).mapError .config
  pure (topology, provider)

/-- The plan of the run, and what is noted while it is made. -/
def plan (fs : Files) : Except Fault Plan × List LogLine :=
  match s.actions fs with
  | .error fault => (.error fault, [])
  | .ok actions =>
    let log := (Action.sharedAliases actions).map fun _ =>
      LogLine.warn "alias shared by concurrent actions, the last launch wins"
    match s.cluster fs with
    | .error fault => (.error fault, log)
    | .ok (topology, provider) =>
      let (options, warnings) :=
        if provider = .docker then Docker.Options.read fs else ({}, [])
      let rehearsal : List LogLine :=
        if s.rehearses then [.info "dry run, no containers will be created"] else []
      (.ok { actions, topology, provider, options }, log ++ warnings ++ rehearsal)

end Session

end Workload
