import Workload.Run.Control
import Workload.Run.Dispatch

/-!
# Steps

A thread whose next job does not have to wait can take a step.  Which thread does is left open here; a
run is any sequence of steps, and the clock goes on to the next time that a thread waits for when no
thread can take a step.
-/

namespace Workload.Run

variable {σ : Type}

/-- Does a job of a thread. -/
def Job.perform (st : Settings σ) (i : ThreadId) (j : Job) (s : State σ) : State σ :=
  match j with
  | .opening calls inv => s.opening st i calls inv
  | .passes inv limit pass => s.passes st i inv limit pass
  | .reclaim occasion => s.reclaim st occasion
  | .emit => s.emit
  | .teardown => s.teardown st
  | .saveLogs => s.saveLogs st
  | .removeServers => s.removeServers st
  | .elapsed => s.elapsed
  | .setLoops pass => { s with scope := { s.scope with loops := pass } }
  | .walk pass last rest => s.walk st i pass last rest
  | .leaveScope _ => s.leaveScope st
  | .provideScope target => s.provideScope st target
  | .enterScope => s.enterScope st
  | .dispatch a => s.dispatch st i a
  | .control task a => s.control st i task a
  | .gate condition => s.gate st i condition
  | .launch k => s.launch st i k
  | .launched k watcher l c => s.launched i k watcher l c
  | .removeAll handles => s.removeAll st i handles
  | .failed describe fault => s.failed st i describe fault
  | .endCollection => s.endCollection
  | .stopOnError => s.stopOnError st
  | .drain c describe left => s.drain i c describe left
  | .repeatLoop handle left => s.repeatLoop st i handle left
  | .awaitLaunch p condition => s.awaitLaunch i p condition
  | .untilLoop handle condition => s.untilLoop st i handle condition
  | .settlePromise p handle => s.settle p handle
  | .watch task id c => s.watch st i task id c
  | .expire task id c => s.expire st i task id c
  | .send c signal => s.send c signal
  | .sleep ms => s.push i [.wake (s.scope.clock + ms)]
  | .wake _ => s
  | .join _ => s
  | .hang => s

/-- The time a thread waits for. -/
def Thread.wakeTime? (t : Thread) : Option Nat :=
  match t.jobs.head? with
  | some (.wake time) => some time
  | _ => none

namespace State

/-- The next job of a thread. -/
def next? (s : State σ) (i : ThreadId) : Option Job := (s.threads[i]?).bind fun t => t.jobs.head?

/-- Whether a thread can take a step. -/
def enabled (s : State σ) (i : ThreadId) : Bool := (s.next? i).any fun j => !j.blocked s

/-- The next step of a thread. -/
def step? (st : Settings σ) (i : ThreadId) (s : State σ) : Option (State σ) :=
  match s.next? i with
  | some j => if j.blocked s then none else some ((j.perform st i (s.pop i)).endBroken i)
  | none => none

/-- The next time that a thread waits for. -/
def nextWake? (s : State σ) : Option Nat := (s.threads.filterMap Thread.wakeTime?).min?

def setClock (time : Nat) (s : State σ) : State σ :=
  { s with scope := { s.scope with clock := time } }

end State

/-- One step of a thread, or of the clock. -/
inductive Step (st : Settings σ) : State σ → State σ → Prop
  | thread {s s' : State σ} (i : ThreadId) : s.step? st i = some s' → Step st s s'
  | clock {s : State σ} {time : Nat} : (∀ i, s.enabled i = false) → s.nextWake? = some time →
      Step st s (s.setClock time)

/-- What can come of a state. -/
inductive Reaches (st : Settings σ) : State σ → State σ → Prop
  | refl (s : State σ) : Reaches st s s
  | step {s s' s'' : State σ} : Reaches st s s' → Step st s' s'' → Reaches st s s''

end Workload.Run
