import Workload.Documents
import Workload.Run.Passes

/-!
# Resolution

The actions of a list are resolved in order.  A plain action is dispatched; every other one is done at
once, or stands for a list of actions that is resolved in its place.
-/

namespace Workload

/-- The file to copy out of a container. -/
def ClientOp.source (op : ClientOp) : String :=
  if op.filename.isEmpty then op.frompath else Path.join op.frompath op.filename

namespace Run

variable {σ : Type} (st : Settings σ)

namespace State

/-- What goes wrong with an operation on a container is noted, and no more. -/
def clientCall (f : Scope σ → Except RuntimeFault Unit × Scope σ) (s : State σ) : State σ :=
  s.attempt f (.warn "client op failed")

/-- Does an operation on the container under an alias. -/
def clientOp (op : ClientOp) (s : State σ) : State σ :=
  match s.scope.aliases.get? op.container with
  | none => s.note (.warn "no such container alias")
  | some handle =>
    match op.op with
    | "kill" =>
      (s.note (.info ("kill " ++ op.container))).clientCall (Scope.kill st.env handle)
    | "rm" | "remove" =>
      (s.note (.info ("remove " ++ op.container))).clientCall (Scope.remove st.env handle)
    | "cp" | "copy" =>
      let source := op.source
      (s.note (.info
          ("copying files from " ++ handle ++ ":" ++ source ++ " to " ++ op.topath))).clientCall
        (Scope.copy st.env handle source op.topath)
    | _ => s.note (.warn "unknown client op")

/-- The path that the spec of a topology document evaluates to; one without a value is taken as it
stands. -/
def scopePath (spec : String) (s : State σ) : String × State σ :=
  match s.within (Scope.evaluate st.env spec) with
  | (.ok path, s) => (Text.trimmed path, s)
  | (.error _, s) => (spec, s.note (.warn "could not evaluate scope path"))

/-- Starts to change to the topology of a document. -/
def changeScope (i : ThreadId) (spec : String) (s : State σ) : State σ :=
  let (path, s) := s.scopePath st spec
  match (s.scope.files st.env).readTopology path with
  | .ok target => s.push i [.leaveScope target, .provideScope target, .enterScope]
  | .error _ => s.note (.warn "could not load scope, skipping")

def leaveScope (s : State σ) : State σ :=
  s.attempt (Scope.hook st.env .teardown) (.warn "teardown before scope change failed")

/-- What has to be provided for a topology: all of it, or what is missing if nodes are created. -/
def provision? (target : Topology) (s : State σ) : Option Topology :=
  if st.env.provider.isDynamic then target.delta? s.scope.topology else some target

/-- Provides a topology and takes it for the current one, whose nodes are listed then. -/
def provideScope (target : Topology) (s : State σ) : State σ :=
  match s.provision? st target with
  | none => { s with scope := s.scope.break_ }
  | some t =>
    let s := s.attempt (Scope.provide st.env t) (.error "could not provide servers for new scope")
    if s.scope.broken then s
    else
      let scope := { s.scope with topology := target }
      let scope := if target.nodeNames?.isSome then scope else scope.break_
      { s with scope }.note (.info "scope changed")

def enterScope (s : State σ) : State σ :=
  s.attempt (Scope.hook st.env .setup) (.warn "setup after scope change failed")

/-- Runs the passes of another document, and comes back to the pass that goes on. -/
def nestedTest (i : ThreadId) (path : String) (s : State σ) : State σ :=
  match (s.scope.files st.env).readActions path with
  | .ok actions =>
    (s.note (.info "running nested test")).push i
      [Invocation.job st ⟨.nested st.config, actions, true⟩, .setLoops s.scope.loops]
  | .error _ => s.note (.warn "could not load nested test, skipping")

/-- Takes over the templates of a file; one that cannot be read adds none. -/
def includeFile (fs : Files) (s : State σ) (path : String) : State σ :=
  match fs.readTemplates path with
  | .ok templates => { s with templates := s.templates.insertAll templates }
  | .error _ => s.note (.warn "could not include templates")

def includeFiles (files : String) (s : State σ) : State σ :=
  let fs := s.scope.files st.env
  let (paths, bad) := fs.includePaths files
  let s := (List.range bad).foldl (fun s _ => s.note (.warn "invalid include pattern")) s
  paths.foldl (includeFile fs) s

/-- The actions that a loop stands for. -/
def unrolled (a : Action) (s : State σ) : Option (List Action) × State σ :=
  match s.within (Scope.evaluate st.env a.loopExpression) with
  | (.error _, s) => (none, s.note (.warn "could not evaluate foreach"))
  | (.ok text, s) =>
    match Action.listOfBlankOrText? text with
    | some actions => (some actions, s)
    | none => (none, s.note (.warn "foreach produced invalid actions"))

/-- The actions that a reference to a template stands for.  Arguments without a value are taken as
they stand. -/
def referred (a : Action) (s : State σ) : Option (List Action) × State σ :=
  match s.templates.get? a.template with
  | none => (none, s.note (.warn "template not found"))
  | some body =>
    match s.within (Scope.evaluate st.env a.args) with
    | (.ok args, s) => (some (Template.expand body a (Template.splitArgs args)), s)
    | (.error _, s) =>
      (some (Template.expand body a (Template.splitArgs a.args)),
        s.note (.warn "could not evaluate template args"))

/-- Goes on with the actions that another one stands for. -/
def enter (i : ThreadId) (pass : Nat) (r : Option (List Action) × State σ) : State σ :=
  match r with
  | (some actions, s) => s.push i [.setLoops pass, .walk pass none actions]
  | (none, s) => s

/-- Resolves one action that is not plain. -/
def resolve (i : ThreadId) (pass : Nat) (a : Action) (s : State σ) : State σ :=
  match a.directive with
  | .client op => s.clientOp st op
  | .scope spec => s.changeScope st i spec
  | .test path => s.nestedTest st i path
  | .includes files => s.includeFiles st files
  | .foreach _ => enter i pass (s.unrolled st a)
  | .template _ => enter i pass (s.referred st a)
  | .plain => s

/-- Resolves the next action of a list. -/
def walk (i : ThreadId) (pass : Nat) (last : Option Action) (rest : List Action) (s : State σ) :
    State σ :=
  match rest with
  | [] => s
  | a :: rest =>
    match a.directive with
    | .plain =>
      let a := a.carryForward last
      s.push i [.dispatch a, .walk pass (some a) rest]
    | _ => (s.push i [.walk pass last rest]).resolve st i pass a

end State

end Run

end Workload
