import Workload.Run.Step

/-!
# Schedules

How a run is carried out: a thread goes on until it has to wait, then the next one that can does, in
the order in which the threads were started.  When all of them wait, the clock goes on to the next
time that one of them waits for, and the first thread is the first one to be asked again.
-/

namespace Workload.Run

variable {σ : Type} (st : Settings σ)

namespace State

/-- The first thread from number `i` on that can take a step, of the next `n` ones; after the last
thread comes the first one. -/
def nextEnabled? (s : State σ) : (n i : Nat) → Option ThreadId
  | 0, _ => none
  | n + 1, i =>
    let i := if i < s.threads.length then i else 0
    if s.enabled i then some i else nextEnabled? s n (i + 1)

/-- Goes on from thread `i` until the clock would have to pass `limit`, `halt` holds, or `fuel` steps
are taken. -/
def advance (limit : Nat) (halt : State σ → Bool) : (fuel : Nat) → ThreadId → State σ → State σ
  | 0, _, s => s
  | fuel + 1, i, s =>
    if halt s then s
    else
      match s.nextEnabled? (s.threads.length + 1) i with
      | some i =>
        match s.step? st i with
        | some s => advance limit halt fuel i s
        | none => s
      | none =>
        match s.nextWake? with
        | some time =>
          if time < limit then advance limit halt fuel 0 (s.setClock time) else s
        | none => s

/-- Lets one thread go on until it has to wait. -/
def advanceThread (i : ThreadId) : (fuel : Nat) → State σ → State σ
  | 0, s => s
  | fuel + 1, s =>
    match s.step? st i with
    | some s => advanceThread i fuel s
    | none => s

end State

/-- How many steps a run may take. -/
def maxSteps : Nat := 10000000

/-- What became of the first thread of a run. -/
inductive Outcome where
  | done
  /-- It was given up at the deadline. -/
  | deadline
  | crashed
  deriving DecidableEq, Repr

/-- Runs until the first thread is done or the deadline is reached, where it is asked for the last
time; then the time and what became of it. -/
def runToDeadline (deadline : Nat) (s : State σ) : Outcome × Nat × State σ :=
  let s := if s.scope.clock < deadline then s.advance st deadline (fun s => s.finished 0) maxSteps 0
    else s
  let s := if s.finished 0 then s
    else (s.setClock deadline).advanceThread st 0 maxSteps
  let outcome :=
    if s.finished 0 then (if (s.threads[0]?).any Thread.crashed then .crashed else .done)
    else .deadline
  (outcome, s.scope.clock, s.cancel 0)

/-- Lets the threads go on for some time. -/
def runOn (milliseconds : Nat) (s : State σ) : State σ :=
  s.advance st (s.scope.clock + milliseconds) (fun _ => false) maxSteps 0

/-- A state with one thread. -/
def State.ofJobs (sc : Scope σ) (jobs : List Job) : State σ := { scope := sc, threads := [{ jobs }] }

/-- The state in which a run begins. -/
def start (sc : Scope σ) (actions : List Action) (report : Report) : State σ :=
  { State.ofJobs sc [Invocation.job st ⟨.ofConfig st.config, actions, false⟩] with report }

end Workload.Run
