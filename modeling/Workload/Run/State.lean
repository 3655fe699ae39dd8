import Workload.Report
import Workload.Run.Job
import Workload.Scope
import Workload.Template

/-!
# States of a run

The state of a run is its scope, its report, its templates, and its threads with what connects them.
A launch has a channel for the signals of its containers; a promise delivers the handle of a launch to
the thread that watches it.  The receiving end of a channel belongs to a job, and goes with it.
-/

namespace Workload.Run

structure Thread where
  /-- What is left to do, the next job first. -/
  jobs : List Job
  /-- How often the thread has done what it counts: restarts, evaluations, signals received. -/
  tally : Nat := 0
  /-- Whether the thread ended in the middle of its work. -/
  crashed : Bool := false
  deriving Repr

def Thread.finished (t : Thread) : Bool := t.jobs.isEmpty

structure Channel where
  /-- The signals that were sent and not received, the first one sent first. -/
  queue : List Signal
  /-- How many containers may still send. -/
  senders : Nat
  /-- How many signals may be waiting to be received. -/
  capacity : Nat
  closed : Bool := false
  deriving Repr

def Channel.release (ch : Channel) : Channel := { ch with senders := ch.senders - 1 }

inductive Promise where
  | pending
  | kept (handle : String)
  | broken
  deriving DecidableEq, Repr

structure State (σ : Type) where
  scope : Scope σ
  report : Report := {}
  templates : TemplateCache := {}
  /-- Whether diagnostics are being collected. -/
  collecting : Bool := false
  /-- Whether the end of the run has been asked for. -/
  stopped : Bool := false
  /-- The aliases drawn for tasks without one, the latest first. -/
  draws : List String := []
  threads : List Thread := []
  channels : List Channel := []
  promises : List Promise := []
  /-- What made the opening of the run fail. -/
  failure : Option Fault := none

/-- What does not change in a run. -/
structure Settings (σ : Type) where
  env : Environment σ
  config : RunConfig
  /-- Whether a failed task leads to diagnostics or to the end of the run. -/
  escalates : Bool := true

namespace State

variable {σ α : Type}

/-! ### Threads -/

/-- Puts jobs in front of those of a thread. -/
def push (i : ThreadId) (jobs : List Job) (s : State σ) : State σ :=
  { s with threads := s.threads.modify i fun t => { t with jobs := jobs ++ t.jobs } }

/-- Takes the next job off a thread. -/
def pop (i : ThreadId) (s : State σ) : State σ :=
  { s with threads := s.threads.modify i fun t => { t with jobs := t.jobs.tail } }

/-- A new thread; its number is that of the threads before it. -/
def spawn (jobs : List Job) (s : State σ) : State σ :=
  { s with threads := s.threads ++ [{ jobs }] }

/-- Ends a thread. -/
def cancel (i : ThreadId) (s : State σ) : State σ :=
  { s with threads := s.threads.modify i fun t => { t with jobs := [] } }

/-- Ends a thread whose work cannot go on.  What its jobs held is lost with them: a channel whose receiving end was
theirs accepts nothing any more. -/
def crash (i : ThreadId) (s : State σ) : State σ :=
  { s with threads := s.threads.modify i fun t => { t with jobs := [], crashed := true } }

/-- Ends a thread in whose work something was asked for that cannot be done. -/
def endBroken (i : ThreadId) (s : State σ) : State σ :=
  if s.scope.broken then crash i { s with scope := { s.scope with broken := false } } else s

def count (i : ThreadId) (s : State σ) : State σ :=
  { s with threads := s.threads.modify i fun t => { t with tally := t.tally + 1 } }

def finished (s : State σ) (i : ThreadId) : Bool := (s.threads[i]?).all Thread.finished

/-- Whether what is sent into a channel may still be received: it is not closed, and a job of some thread holds its
receiving end. -/
def accepts (s : State σ) (c : ChannelId) : Bool :=
  (s.channels[c]?).any (fun ch => !ch.closed) && s.threads.any fun t => t.jobs.any (Job.takes c)

/-! ### The scope -/

def note (line : LogLine) (s : State σ) : State σ := { s with scope := s.scope.note line }

def record (e : Event) (s : State σ) : State σ := { s with scope := s.scope.record e }

/-- Does something in the scope, and takes over what became of it. -/
def within (f : Scope σ → α × Scope σ) (s : State σ) : α × State σ :=
  let (a, scope) := f s.scope
  (a, { s with scope })

/-- Does something in the scope that may fail, and notes a failure in the log. -/
def attempt {ε : Type} (f : Scope σ → Except ε Unit × Scope σ) (warning : LogLine)
    (s : State σ) : State σ :=
  match s.within f with
  | (.ok _, s) => s
  | (.error _, s) => s.note warning

/-! ### The report -/

def pass (describe : String) (s : State σ) : State σ :=
  { s with report := s.report.pass describe }

def fail (describe : String) (fault : RuntimeFault) (s : State σ) : State σ :=
  { s with report := s.report.fail describe fault.message }

/-- Prints the report. -/
def emit (s : State σ) : State σ :=
  { s with scope := (s.scope.print s.report.render).record .emitted }

/-- Prints the report and asks for the end of the run, but for no more than one. -/
def terminate (code : Int) (s : State σ) : State σ :=
  if s.stopped then s
  else { s.emit with stopped := true }.record (.exited code)

/-! ### Channels and promises -/

def openChannel (c : Channel) (s : State σ) : State σ := { s with channels := s.channels ++ [c] }

def onChannel (c : ChannelId) (f : Channel → Channel) (s : State σ) : State σ :=
  { s with channels := s.channels.modify c f }

/-- One container less may send. -/
def release (c : ChannelId) (s : State σ) : State σ := s.onChannel c Channel.release

def openPromise (s : State σ) : State σ := { s with promises := s.promises ++ [.pending] }

def settle (p : PromiseId) (handle : Option String) (s : State σ) : State σ :=
  { s with promises := s.promises.set p (handle.elim .broken .kept) }

end State

/-- Whether a job has to wait, for the clock, for a thread, for a signal or for a promise. -/
def Job.blocked {σ : Type} (s : State σ) : Job → Bool
  | .wake t => s.scope.clock < t
  | .join ids => !ids.all s.finished
  | .drain c _ left =>
    left ≠ 0 && (s.channels[c]?).any fun ch => ch.queue.isEmpty && ch.senders ≠ 0
  | .send c _ => s.accepts c && (s.channels[c]?).any fun ch => ch.capacity ≤ ch.queue.length
  | .awaitLaunch p _ => s.promises[p]? = some .pending
  | .hang => true
  | _ => false

end Workload.Run
