import Workload.Run.Resolve

/-!
# Dispatch

A plain action is launched as a task if its requirement holds and its command can be read.  What
cannot be read of its duration and its number of instances counts as not given.
-/

namespace Workload.Run

variable {σ : Type} (st : Settings σ)

/-- What becomes of a plain action. -/
inductive Decision where
  | skip
  | launch (task : Task)
  /-- The duration is a duration, but out of range, and ends the thread. -/
  | crash

namespace Settings

/-- Whether a requirement is met; one that cannot be read is not. -/
def requirement (requires : String) (s : Scope σ) : Bool × Scope σ :=
  if requires.isEmpty then (true, s)
  else
    let skipped : LogLine := .info ("skipping due to requirements: " ++ requires)
    match s.condition st.env requires with
    | (.ok true, s) => (true, s)
    | (.ok false, s) => (false, s.note skipped)
    | (.error _, s) => (false, (s.note (.warn "unreadable requirement")).note skipped)

/-- The duration of an action; without a result it is out of range. -/
def duration (text : String) (s : Scope σ) : Option Duration × Scope σ :=
  if text.isEmpty then (some .zero, s)
  else
    match s.evaluate st.env text with
    | (.ok value, s) =>
      match Duration.parse value with
      | .ok d => (some d, s)
      | .error .malformed => (some .zero, s.note (.warn "invalid duration"))
      | .error .outOfRange => (none, s)
    | (.error _, s) => (some .zero, s.note (.warn "invalid duration"))

/-- The number of instances of an action; zero is none in particular. -/
def concurrency (text : String) (s : Scope σ) : Nat × Scope σ :=
  if text.isEmpty then (0, s)
  else
    match s.evaluate st.env text with
    | (r, s) =>
      match r.bind Expression.parseInt with
      | .ok n => (n.toNat, s)
      | .error _ => (0, s.note (.warn "invalid concurrency"))

/-- What a task is called if its action does not say. -/
def describe (a : Action) (command : List String) : String :=
  if a.describe.isEmpty then "start " ++ a.image ++ ": " ++ String.intercalate " " command
  else a.describe

/-- Compiles a plain action. -/
def decide (a : Action) (s : Scope σ) : Decision × Scope σ :=
  match st.requirement a.requires s with
  | (false, s) => (.skip, s)
  | (true, s) =>
    match s.compileCommand st.env a.command with
    | (.error _, s) => (.skip, s.note (.warn "could not compile command, skipping"))
    | (.ok command, s) =>
      match st.duration a.duration s with
      | (none, s) => (.crash, s)
      | (some limit, s) =>
        let (instances, s) := st.concurrency a.concurrency s
        (.launch
          { name := st.config.containerName
            describe := describe a command
            image := a.image
            command
            entrypoint := if a.entrypoint.isEmpty then none else some a.entrypoint
            isAsync := !a.wait
            duration := limit
            concurrency := instances
            logLevel := st.config.logLevel
            logDir := st.config.logDir
            links := s.links st.env }, s)

end Settings

namespace State

/-- Dispatches a plain action, and pauses if there was something to launch. -/
def dispatch (i : ThreadId) (a : Action) (s : State σ) : State σ :=
  match s.within (st.decide a) with
  | (.skip, s) => s
  | (.crash, s) => s.crash i
  | (.launch task, s) =>
    if s.scope.broken then s
    else if a.wait then s.push i [.control task a, .sleep st.config.timings.settle]
    else (s.spawn [.control task a]).push i [.sleep st.config.timings.settle]

end State

end Workload.Run
