import Workload.CommandLine.Scan
import Workload.Config
import Workload.Text

/-!
# Options of a command line

What is given on a command line, checked one by one in the order in which it stands there.  Options
win over the configuration: a setting takes the place of the one there, and a switch can only be
switched on.
-/

namespace Workload.CommandLine

/-- Why a command line is not carried out. -/
inductive UsageFault where
  | scan (cause : ScanFault)
  /-- A setting lacks its value, or has an empty path for it. -/
  | noValue
  /-- A value is not of the wanted kind. -/
  | badValue
  /-- Something is given twice, or with something it excludes. -/
  | conflict
  /-- Something is given that needs an image, without one. -/
  | withoutImage
  /-- Help is asked for. -/
  | help
  /-- The version is asked for. -/
  | version
  deriving DecidableEq, Repr

structure Options where
  file : Option String := none
  test : Option String := none
  scope : Option String := none
  provider : Option String := none
  repeats : Option Int := none
  duration : Option Nat := none
  logLevel : Option Nat := none
  logDir : Option String := none
  containerName : Option String := none
  image : Option String := none
  command : Option String := none
  switches : List Switch := []
  deriving DecidableEq, Repr

namespace Options

/-- Fills the place of a setting, if it is empty. -/
def once {α : Type} (old : Option α) (new : Except UsageFault α) :
    Except UsageFault (Option α) :=
  if old.isSome then .error .conflict else new.map some

def path (v : String) : Except UsageFault String :=
  if v.isEmpty then .error .noValue else .ok v

def number {α : Type} (n : Option α) : Except UsageFault α := n.elim (.error .badValue) .ok

/-- A log level has eight bits. -/
def level? (v : String) : Option Nat :=
  (Text.int64Of? v.toList).bind fun n => if 0 ≤ n ∧ n < 256 then some n.toNat else none

def set (o : Options) (s : Setting) (v : String) : Except UsageFault Options :=
  match s with
  | .file => (once o.file (path v)).map fun x => { o with file := x }
  | .test => (once o.test (path v)).map fun x => { o with test := x }
  | .scope => (once o.scope (path v)).map fun x => { o with scope := x }
  | .provider => (once o.provider (.ok v)).map fun x => { o with provider := x }
  | .repeats =>
    (once o.repeats (number (Text.int64Of? v.toList))).map fun x => { o with repeats := x }
  | .duration =>
    (once o.duration (number (Text.nat64Of? v.toList))).map fun x => { o with duration := x }
  | .logLevel => (once o.logLevel (number (level? v))).map fun x => { o with logLevel := x }
  | .logDir => (once o.logDir (path v)).map fun x => { o with logDir := x }
  | .containerName =>
    (once o.containerName (.ok v)).map fun x => { o with containerName := x }
  | .image => (once o.image (.ok v)).map fun x => { o with image := x }
  | .command => (once o.command (.ok v)).map fun x => { o with command := x }

/-- Whether a switch is given. -/
def has (o : Options) (w : Switch) : Bool := o.switches.contains w

def switchOn (o : Options) : Switch → Except UsageFault Options
  | .help => .error .help
  | .version => .error .version
  | w => if o.has w then .error .conflict else .ok { o with switches := w :: o.switches }

def take (o : Options) : Given → Except UsageFault Options
  | .setting _ none => .error .noValue
  | .setting s (some v) => o.set s v
  | .switch w => o.switchOn w

/-- Refuses options that exclude each other, and those for an image where none is given. -/
def check (o : Options) : Except UsageFault Options :=
  if o.has .quiet && o.has .verbose then .error .conflict
  else if (o.command.isSome || o.has .wait) && o.image.isNone then .error .withoutImage
  else .ok o

/-- Reads a command line. -/
def parse (args : List String) : Except UsageFault Options := do
  let (given, fault) := scan none args
  let o ← given.foldlM take {}
  match fault with
  | some cause => .error (.scan cause)
  | none => o.check

/-- The image that is run in the place of a test document. -/
def imageSpec (o : Options) : Option ImageSpec :=
  o.image.map fun name => ⟨name, o.command.getD "", o.has .wait⟩

/-- A configuration with the options in place. -/
def apply (o : Options) (c : RunConfig) : RunConfig :=
  { c with
    mode := if o.image.isSome then .image else c.mode
    test := o.test.or c.test
    scope := o.scope.or c.scope
    provider := o.provider.getD c.provider
    repeats := o.repeats.getD c.repeats
    duration := o.duration.getD c.duration
    skipSetup := c.skipSetup || o.has .skipSetup
    skipTest := c.skipTest || o.has .skipTest
    skipTeardown := c.skipTeardown || o.has .skipTeardown
    skipCleanup := c.skipCleanup || o.has .skipCleanup
    softCleanup := c.softCleanup || o.has .softCleanup
    collectOnError := c.collectOnError || o.has .collectOnError
    stopOnError := c.stopOnError || o.has .stopOnError
    logLevel := o.logLevel.getD c.logLevel
    logDir := o.logDir.getD c.logDir
    containerName := o.containerName.getD c.containerName
    image := o.imageSpec.or c.image }

end Options

end Workload.CommandLine
