import Workload.Run.State

/-!
# Phases and passes

A run opens with calls that may fail, and these are the only ones that make it fail.  Then its actions
are resolved pass after pass, and the containers of a pass are reclaimed after it.  After the last
pass the report is printed, the cluster is taken down and cleared.
-/

namespace Workload.Run

variable {σ : Type} (st : Settings σ)

/-- The calls before the passes.  A provider that knows its nodes beforehand has them provided even
where the cluster is not set up. -/
def openingCalls (setup : Bool) : List OpeningCall :=
  if setup then
    (match st.config.mode with
    | .document => [.purge]
    | .image => []) ++ [.provide, .setup]
  else if st.env.provider.isDynamic then [.initCli]
  else [.provide, .initCli]

/-- The job that an invocation begins with. -/
def Invocation.job (inv : Invocation) : Job := .opening (openingCalls st inv.phases.setup) inv

namespace State

def makeOpeningCall (c : OpeningCall) (s : State σ) : Except Fault Unit × State σ :=
  match c with
  | .purge =>
    let (r, s) := s.within (Scope.purge st.env)
    (r.mapError .runtime, s)
  | .provide =>
    let (r, s) := s.within fun sc => sc.provide st.env sc.topology
    (r.mapError .provider, s)
  | .setup =>
    let (r, s) := s.within (Scope.hook st.env .setup)
    (r.mapError .execution, s)
  | .initCli =>
    let (r, s) := s.within (Scope.hook st.env .initCli)
    (r.mapError .execution, s)

/-- The number of the last pass; a run whose time is limited goes on until it is over unless it counts
its passes. -/
def passLimit (phases : Phases) (limited : Bool) : Int :=
  if limited && phases.repeats = 0 then -1 else phases.repeats

/-- Goes on after the opening. -/
def opened (i : ThreadId) (inv : Invocation) (s : State σ) : State σ :=
  if inv.phases.test then
    let limited := inv.phases.watchdog && st.config.duration ≠ 0
    let s := if limited then s.spawn [.sleep (1000 * st.config.duration), .elapsed] else s
    s.push i [.passes inv (passLimit inv.phases limited) 0]
  else s.note (.info "skipping test")

/-- A failed opening makes the run fail; that of a nested test is just noted. -/
def openingFailed (inv : Invocation) (fault : Fault) (s : State σ) : State σ :=
  if inv.nested then s.note (.warn "nested test failed") else { s with failure := some fault }

def opening (i : ThreadId) (calls : List OpeningCall) (inv : Invocation) (s : State σ) : State σ :=
  match calls with
  | [] => s.opened st i inv
  | c :: cs =>
    match s.makeOpeningCall st c with
    | (.ok _, s) => s.push i [.opening cs inv]
    | (.error fault, s) => s.openingFailed inv fault

/-- The jobs after the last pass. -/
def closingJobs (phases : Phases) : List Job :=
  (if phases.report then [.emit] else []) ++
  (if phases.teardown then [.teardown] else []) ++
  (if phases.cleanup then
    .reclaim .cleanup ::
      (if st.env.provider.isDynamic then
        (if st.config.logLevel = 0 then [] else [.saveLogs]) ++ [.removeServers]
      else [])
  else [])

def passes (i : ThreadId) (inv : Invocation) (limit : Int) (pass : Nat) (s : State σ) : State σ :=
  if limit < 0 ∨ (pass : Int) ≤ limit then
    s.push i
      [.setLoops pass, .walk pass none inv.actions, .reclaim .pass, .passes inv limit (pass + 1)]
  else s.push i (closingJobs st inv.phases)

def reclaim (occasion : ReclaimOccasion) (s : State σ) : State σ :=
  s.attempt (Scope.reclaim st.env st.config.softCleanup) <|
    match occasion with
    | .pass => .warn "could not reclaim task containers"
    | .cleanup => .warn "could not remove task containers"

def teardown (s : State σ) : State σ :=
  s.attempt (Scope.hook st.env .teardown) (.warn "teardown failed")

def saveLogs (s : State σ) : State σ :=
  match st.env.provider.provisioning with
  | some p =>
    s.attempt
      (fun sc => sc.call (p.saveLogs st.config.logDir) (.saveLogs st.config.logDir))
      (.warn "could not save server logs")
  | none => s

def removeServers (s : State σ) : State σ :=
  match st.env.provider.provisioning with
  | some p =>
    s.attempt
      (fun sc => sc.call (p.removeServers st.config.softCleanup)
        (.removeServers st.config.softCleanup))
      (.warn "could not remove servers")
  | none => s

/-- The watchdog ends the run as a success. -/
def elapsed (s : State σ) : State σ :=
  (s.note (.info "duration elapsed, stopping")).terminate 0

end State

end Workload.Run
