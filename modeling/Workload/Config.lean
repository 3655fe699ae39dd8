import Workload.Action
import Workload.Fault
import Workload.Text

/-!
# Run configurations

A run is configured by a document whose settings all have a default, and by the command line.
-/

namespace Workload

/-- Where the actions of a run come from. -/
inductive RunMode where
  /-- From the test document. -/
  | document
  /-- From a single image. -/
  | image
  deriving DecidableEq, Repr

structure ImageSpec where
  name : String := ""
  command : String := ""
  wait : Bool := false
  deriving DecidableEq, Repr

/-- The shell commands that prepare and clear the cluster. -/
structure HookConfig where
  setup : Option String := none
  teardown : Option String := none
  initCli : Option String := none
  deriving DecidableEq, Repr

/-- The template that collects diagnostics, and the documents to load for it. -/
structure CollectSpec where
  include_ : String
  template : String
  deriving DecidableEq, Repr

/-- Pauses in milliseconds. -/
structure Timings where
  beforePoll : Nat := 5000
  untilPoll : Nat := 1000
  repeatPoll : Nat := 1000
  /-- The pause after every dispatch. -/
  settle : Nat := 5000
  deriving DecidableEq, Repr

structure RunConfig where
  mode : RunMode := .document
  test : Option String := none
  scope : Option String := none
  provider : String := "docker"
  /-- How many passes follow the first; -1 is without end. -/
  repeats : Int := 0
  /-- The time for the passes in seconds; zero is without a limit. -/
  duration : Nat := 0
  skipSetup : Bool := false
  skipTest : Bool := false
  skipTeardown : Bool := false
  skipCleanup : Bool := false
  softCleanup : Bool := false
  collectOnError : Bool := false
  stopOnError : Bool := false
  logLevel : Nat := 0
  logDir : String := "logs"
  containerName : String := "canopy"
  image : Option ImageSpec := none
  hooks : HookConfig := {}
  collect : Option CollectSpec := none
  timings : Timings := {}
  deriving DecidableEq, Repr

namespace Action

/-- Refuses a repeat count below -1 and an operation on no container. -/
def validate (index : Nat) (a : Action) : Except ConfigFault Unit :=
  if a.repeats < -1 then .error (.actionRepeat index a.repeats)
  else if !a.client.isEmpty && (Text.trim a.client.container.toList).isEmpty then
    .error (.clientWithoutContainer index a.client.op)
  else .ok ()

/-- Validates actions numbered from `index` on. -/
def validateFrom : Nat → List Action → Except ConfigFault Unit
  | _, [] => .ok ()
  | index, a :: as => do
    validate index a
    validateFrom (index + 1) as

def validateAll (as : List Action) : Except ConfigFault Unit := validateFrom 0 as

/-- Inserts a text into a sorted list. -/
def insertSorted (s : String) : List String → List String
  | [] => [s]
  | t :: ts => if s ≤ t then s :: t :: ts else t :: insertSorted s ts

/-- The aliases that more than one action gives that is not waited for, sorted. -/
def sharedAliases (as : List Action) : List String :=
  let given := (as.filter fun a => !a.wait && !a.alias_.isEmpty).map Action.alias_
  (given.eraseDups.filter fun s => 1 < given.count s).foldr insertSorted []

end Action

namespace RunConfig

/-- Refuses a repeat count below -1 and a run without actions. -/
def validate (c : RunConfig) : Except ConfigFault Unit :=
  if c.repeats < -1 then .error (.runRepeat c.repeats)
  else
    match c.mode with
    | .image =>
      match c.image with
      | some image => if image.name.isEmpty then .error .missingImage else .ok ()
      | none => .error .missingImage
    | .document => if c.test.isNone then .error .noTestDocument else .ok ()

end RunConfig

/-- The phases that a run goes through. -/
structure Phases where
  setup : Bool
  test : Bool
  teardown : Bool
  cleanup : Bool
  report : Bool
  /-- Whether the time for the passes is limited. -/
  watchdog : Bool
  repeats : Int
  deriving DecidableEq, Repr

namespace Phases

/-- The phases of the run as a whole. -/
def ofConfig (c : RunConfig) : Phases :=
  { setup := !c.skipSetup
    test := !c.skipTest
    teardown := !c.skipTeardown
    cleanup := !c.skipCleanup
    report := true
    watchdog := true
    repeats := c.repeats }

/-- The phases of a test within the run: its passes and a report. -/
def nested (c : RunConfig) : Phases :=
  { setup := false
    test := true
    teardown := false
    cleanup := false
    report := true
    watchdog := false
    repeats := c.repeats }

end Phases

end Workload
