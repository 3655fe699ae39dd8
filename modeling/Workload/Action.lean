/-!
# Actions

An action is one step of a test document.  A text field that is not given is empty, a flag is false
and a count is zero, so that an explicit value of this kind means the same as none.
-/

namespace Workload

/-- An operation on the container recorded under an alias. -/
structure ClientOp where
  op : String := ""
  container : String := ""
  filename : String := ""
  frompath : String := ""
  topath : String := ""
  deriving DecidableEq, Repr

/-- Without an operation the rest has no meaning. -/
def ClientOp.isEmpty (c : ClientOp) : Bool := c.op.isEmpty

structure Action where
  describe : String := ""
  image : String := ""
  command : String := ""
  /-- Whether resolution waits for the task. -/
  wait : Bool := false
  /-- Holds before the task is launched. -/
  before : String := ""
  entrypoint : String := ""
  /-- Holds, or the task is skipped. -/
  requires : String := ""
  concurrency : String := ""
  duration : String := ""
  /-- The name under which the launched container is recorded. -/
  alias_ : String := ""
  /-- How often the container is restarted; -1 is without end. -/
  repeats : Int := 0
  /-- Ends the task once it holds. -/
  until_ : String := ""
  /-- The template documents to load. -/
  include_ : String := ""
  template : String := ""
  args : String := ""
  /-- A document to run as a test of its own. -/
  test : String := ""
  /-- A topology document that replaces the current topology. -/
  scope : String := ""
  foreach : String := ""
  client : ClientOp := {}
  deriving DecidableEq, Repr

namespace Action

/-- The one action of a run of a single image. -/
def ofImage (image command : String) (wait : Bool) : Action := { image, command, wait }

/-- What an action is called: its description, else its command, else its image. -/
def label (a : Action) : String :=
  if !a.describe.isEmpty then a.describe
  else if !a.command.isEmpty then a.command
  else a.image

end Action

/-- What an action asks for. -/
inductive Directive where
  | client (op : ClientOp)
  | scope (spec : String)
  | test (path : String)
  | includes (files : String)
  | foreach (text : String)
  | template (name : String)
  | plain
  deriving DecidableEq, Repr

/-- The first field that is set decides, in the order of the constructors. -/
def Action.directive (a : Action) : Directive :=
  if !a.client.isEmpty then .client a.client
  else if !a.scope.isEmpty then .scope a.scope
  else if !a.test.isEmpty then .test a.test
  else if !a.include_.isEmpty then .includes a.include_
  else if !a.foreach.isEmpty then .foreach a.foreach
  else if !a.template.isEmpty then .template a.template
  else .plain

/-- `a`, or `b` where `a` is empty. -/
def orText (a b : String) : String := if a.isEmpty then b else a

/-- An action that names no image takes the image of the previous plain action, and of its
requirement, duration and concurrency those that it does not give itself. -/
def Action.carryForward (previous : Option Action) (a : Action) : Action :=
  match previous with
  | none => a
  | some p =>
    if a.image.isEmpty then
      { a with
        image := p.image
        requires := orText a.requires p.requires
        duration := orText a.duration p.duration
        concurrency := orText a.concurrency p.concurrency }
    else a

end Workload
