import Workload.Config
import Workload.Container.Basic
import Workload.Topology

/-!
# Jobs

A run is carried out by threads.  What a thread still has to do is a list of jobs; it takes the first
one, and a job that has more than one step puts the rest of its work in front of the others.
-/

namespace Workload.Run

/-- The calls with which a run or a test begins. -/
inductive OpeningCall where
  | purge | provide | setup | initCli
  deriving DecidableEq, Repr

/-- A run of the phases: that of the whole run, or that of a test nested in it. -/
structure Invocation where
  phases : Phases
  actions : List Action
  nested : Bool
  deriving DecidableEq, Repr

/-- A task on its way to its launch. -/
structure Ticket where
  task : Task
  /-- The name under which the launched container is recorded. -/
  alias_ : String
  repeats : Int
  until_ : String
  deriving DecidableEq, Repr

/-- Why the containers of the tasks are reclaimed. -/
inductive ReclaimOccasion where
  /-- A pass is over. -/
  | pass
  /-- The run is over. -/
  | cleanup
  deriving DecidableEq, Repr

abbrev ThreadId := Nat

abbrev ChannelId := Nat

abbrev PromiseId := Nat

inductive Job where
  /-- Makes the calls that are left before the passes. -/
  | opening (calls : List OpeningCall) (inv : Invocation)
  /-- Goes on with a pass, or ends after the last one; below zero there is no last one. -/
  | passes (inv : Invocation) (limit : Int) (pass : Nat)
  | reclaim (occasion : ReclaimOccasion)
  | emit
  | teardown
  | saveLogs
  | removeServers
  /-- The time for the passes is over. -/
  | elapsed
  | setLoops (pass : Nat)
  /-- Resolves the actions that are left of a list; `last` is the latest plain one before them. -/
  | walk (pass : Nat) (last : Option Action) (rest : List Action)
  /-- Leaves the topology for another one, and has the teardown hook yet to come. -/
  | leaveScope (target : Topology)
  | provideScope (target : Topology)
  | enterScope
  | dispatch (action : Action)
  /-- Drives a task from its dispatch on. -/
  | control (task : Task) (action : Action)
  /-- Waits until a condition holds. -/
  | gate (condition : String)
  | launch (ticket : Ticket)
  /-- Goes on after a successful launch. -/
  | launched (ticket : Ticket) (watcher : Option (ThreadId × PromiseId)) (launch : Launch)
      (channel : ChannelId)
  | removeAll (handles : List String)
  /-- Reacts to the failure of a task. -/
  | failed (describe : String) (fault : RuntimeFault)
  | endCollection
  | stopOnError
  /-- Receives the signals of a launch, `left` more of them. -/
  | drain (channel : ChannelId) (describe : String) (left : Nat)
  /-- Restarts a container whenever it has exited, `left` more times; below zero always. -/
  | repeatLoop (handle : String) (left : Int)
  /-- Waits for the launch of the task it watches. -/
  | awaitLaunch (promise : PromiseId) (condition : String)
  /-- Ends when the container is gone or the condition holds. -/
  | untilLoop (handle condition : String)
  /-- Keeps a promise, or breaks it. -/
  | settlePromise (promise : PromiseId) (handle : Option String)
  | watch (task : Task) (container : String) (channel : ChannelId)
  | expire (task : Task) (container : String) (channel : ChannelId)
  | send (channel : ChannelId) (signal : Signal)
  | sleep (milliseconds : Nat)
  | wake (time : Nat)
  /-- Waits for the ends of threads. -/
  | join (threads : List ThreadId)
  /-- Waits without an end. -/
  | hang
  deriving Repr

/-- Whether a job holds the receiving end of a channel: it receives from it, or starts the thread that will. -/
def Job.takes (c : ChannelId) : Job → Bool
  | .drain c' _ _ | .launched _ _ _ c' => c' = c
  | _ => false

end Workload.Run
