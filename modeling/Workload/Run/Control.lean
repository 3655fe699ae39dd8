import Workload.Run.State

/-!
# Control of a task

A task waits for its condition, is launched, and then watched by threads of its own: one receives the
signals of its containers, one restarts it, and one waits for the condition that ends it.

A failed task is noted; then diagnostics are collected, unless that goes on already, and the run is
ended, each if the configuration asks for it.
-/

namespace Workload

/-- The actions that collect diagnostics. -/
def CollectSpec.actions (c : CollectSpec) : List Action :=
  [{ include_ := c.include_ }, { template := c.template, wait := true }]

namespace Run

variable {σ : Type} (st : Settings σ)

namespace State

/-- The alias of an action, drawn if it has none. -/
def aliasOf (a : Action) (s : State σ) : String × State σ :=
  if a.alias_.isEmpty then
    let name := st.env.drawn s.draws.length
    (name, { s with draws := name :: s.draws })
  else (a.alias_, s)

/-- Begins with a task. -/
def control (i : ThreadId) (task : Task) (a : Action) (s : State σ) : State σ :=
  let (alias_, s) := s.aliasOf st a
  s.push i <|
    (if a.before.isEmpty then [] else [.gate a.before]) ++
      [.launch ⟨task, alias_, a.repeats, a.until_⟩]

/-- Asks for a condition, and again after a pause until it holds. -/
def gate (i : ThreadId) (condition : String) (s : State σ) : State σ :=
  match s.within (Scope.check st.env condition) with
  | (true, s) => s
  | (false, s) => s.push i [.sleep st.config.timings.beforePoll, .gate condition]

/-- Watches the launch of a promise until a condition holds, in which the task may be meant itself. -/
def untilJob (p : PromiseId) (alias_ condition : String) : Job :=
  .awaitLaunch p (Expression.bindSelf condition alias_)

/-- Starts the thread that waits for the condition that ends a task. -/
def spawnWatcher (k : Ticket) (s : State σ) : Option (ThreadId × PromiseId) × State σ :=
  if k.until_.isEmpty then (none, s)
  else
    let p := s.promises.length
    (some (s.threads.length, p),
      s.openPromise.spawn [untilJob p k.alias_ k.until_])

/-- Ends the thread that watches a launch which does not come off. -/
def forsake (watcher : Option (ThreadId × PromiseId)) (s : State σ) : State σ :=
  watcher.elim s fun w => s.cancel w.1

/-- A refused launch ends the task; nothing goes on for it. -/
def refused (i : ThreadId) (k : Ticket) (watcher : Option (ThreadId × PromiseId))
    (fault : RuntimeFault) (s : State σ) : State σ :=
  let s := (s.note (.warn "launch failed")).forsake watcher
  (s.fail k.task.describe fault).push i [.failed k.task.describe fault]

/-- Records a launch, and starts the threads that receive its signals and that restart it. -/
def launched (i : ThreadId) (k : Ticket) (watcher : Option (ThreadId × PromiseId)) (l : Launch)
    (c : ChannelId) (s : State σ) : State σ :=
  let s := { s with scope := { s.scope with aliases := s.scope.aliases.put k.alias_ l.handle } }
  let s := watcher.elim s fun w => s.settle w.2 (some l.handle)
  let s := s.note (.info k.task.describe)
  let s := s.spawn [.drain c k.task.describe k.task.instances]
  let restarter := s.threads.length
  let s := if k.repeats = 0 then s else s.spawn [.repeatLoop l.handle k.repeats]
  s.push i <|
    (if 0 < k.repeats then [.join [restarter], .removeAll l.containers] else []) ++
      watcher.elim [] fun w => [.join [w.1], .removeAll l.containers]

/-- Goes on with the containers of a task: at once if their signals are known, else when they are
watched, and for a task that is waited for when they are done. -/
def created (i : ThreadId) (k : Ticket) (watcher : Option (ThreadId × PromiseId)) (l : Launch)
    (s : State σ) : State σ :=
  let c := s.channels.length
  match l.signals with
  | some signals =>
    (s.openChannel ⟨signals, 0, k.task.instances, false⟩).launched i k watcher l c
  | none =>
    let first := s.threads.length
    let s := s.openChannel ⟨[], l.containers.length, k.task.instances, false⟩
    let s := l.containers.foldl (fun s id => s.spawn [.watch k.task id c]) s
    if k.task.isAsync then s.launched i k watcher l c
    else
      s.push i
        [.join ((List.range l.containers.length).map (first + ·)), .launched k watcher l c]

/-- Launches a task; one without a command has nothing to launch.  If the thread breaks off in the launch,
its promise is lost, and nobody waits for it any more. -/
def launch (i : ThreadId) (k : Ticket) (s : State σ) : State σ :=
  if k.task.command.isEmpty then s
  else
    let (watcher, s) := s.spawnWatcher k
    let (r, s) := s.within (Scope.launch st.env k.task)
    if s.scope.broken then s.forsake watcher
    else
      match r with
      | .ok l => s.created i k watcher l
      | .error fault => s.refused i k watcher fault

/-- Removes containers one after the other, whether they are still there or not. -/
def removeAll (i : ThreadId) (handles : List String) (s : State σ) : State σ :=
  match handles with
  | [] => s
  | h :: hs => (s.within (Scope.remove st.env h)).2.push i [.removeAll hs]

/-! ### Signals -/

/-- Receives the next signal of a channel.  The channel is closed after the last one that is expected,
or when nobody is left to send. -/
def drain (i : ThreadId) (c : ChannelId) (describe : String) (left : Nat) (s : State σ) :
    State σ :=
  let queue := (s.channels[c]?).elim [] Channel.queue
  match left, queue with
  | left + 1, signal :: rest =>
    let s := (s.onChannel c fun ch => { ch with queue := rest }).count i
    match signal with
    | none => (s.pass describe).push i [.drain c describe left]
    | some fault =>
      ((s.note (.warn "task reported an error")).fail describe fault).push i
        [.failed describe fault, .drain c describe left]
  | _, _ => s.onChannel c fun ch => { ch with closed := true }

/-- Sends the only signal of a sender, unless the channel is closed. -/
def send (c : ChannelId) (signal : Signal) (s : State σ) : State σ :=
  s.onChannel c fun ch =>
    { ch with
      queue := if ch.closed then ch.queue else ch.queue ++ [signal]
      senders := ch.senders - 1 }

/-- The signal that a result stands for. -/
def signalOf (r : Except RuntimeFault Unit) : Signal :=
  match r with
  | .ok _ => none
  | .error fault => some fault

/-- Sends what a container came to; if the thread has broken off over it, its sender is lost. -/
def tell (i : ThreadId) (c : ChannelId) (r : Except RuntimeFault Unit) (s : State σ) : State σ :=
  if s.scope.broken then s.release c else s.push i [.send c (signalOf r)]

/-- Watches a container until it is done or its time is up. -/
def watch (i : ThreadId) (task : Task) (id : String) (c : ChannelId) (s : State σ) : State σ :=
  let (reply, world) := st.env.runtime.watch task id s.scope.world
  match reply with
  | some reply =>
    let (r, s) := s.within (Scope.take reply world)
    s.tell i c r
  | none =>
    let s := { s with scope := { s.scope with world } }
    if task.duration = .zero then s.push i [.hang]
    else s.push i [.sleep task.duration.millisUp, .expire task id c]

def expire (i : ThreadId) (task : Task) (id : String) (c : ChannelId) (s : State σ) : State σ :=
  let (r, s) := s.within fun sc => sc.ask (st.env.runtime.expire task id)
  s.tell i c r

/-! ### Restarts and ends -/

/-- Goes on after a restart, unless it was the last one. -/
def restarted (i : ThreadId) (handle : String) (left : Int) (s : State σ) : State σ :=
  if left = 1 then s
  else
    s.push i
      [.sleep st.config.timings.repeatPoll,
        .repeatLoop handle (if 0 < left then left - 1 else left)]

/-- Restarts a container that has exited.  A failed restart is noted, but counts. -/
def repeatLoop (i : ThreadId) (handle : String) (left : Int) (s : State σ) : State σ :=
  if left = 0 then s
  else
    match s.within (Scope.status st.env handle) with
    | (.ok .exited, s) =>
      match s.within (Scope.start st.env handle) with
      | (.ok _, s) => (s.count i).restarted st i handle left
      | (.error _, s) => (s.note (.warn "restart failed")).restarted st i handle left
    | (.ok _, s) =>
      s.push i [.sleep st.config.timings.repeatPoll, .repeatLoop handle left]
    | (.error fault, s) =>
      if fault.isNotFound then s
      else s.note (.warn "status lookup failed, stopping repeats")

/-- Begins to watch a launch; a launch that never happens is not watched. -/
def awaitLaunch (i : ThreadId) (p : PromiseId) (condition : String) (s : State σ) : State σ :=
  match s.promises[p]? with
  | some (.kept handle) => s.push i [.untilLoop handle condition]
  | _ => s

/-- Ends when the container is gone or the condition holds, and else asks again after a pause. -/
def untilLoop (i : ThreadId) (handle condition : String) (s : State σ) : State σ :=
  match s.within (Scope.status st.env handle) with
  | (.error fault, s) =>
    if fault.isNotFound then s else s.note (.warn "status lookup failed")
  | (.ok _, s) =>
    match (s.count i).within (Scope.check st.env condition) with
    | (true, s) => s
    | (false, s) =>
      s.push i [.sleep st.config.timings.untilPoll, .untilLoop handle condition]

/-! ### Failures -/

/-- Begins to collect diagnostics. -/
def collect (i : ThreadId) (s : State σ) : State σ :=
  match st.config.collect with
  | none => s
  | some c =>
    if s.collecting then s
    else
      ({ s with collecting := true }.note (.info "collecting diagnostics")).push i
        [.setLoops s.scope.loops, .walk s.scope.loops none c.actions, .endCollection]

/-- Reacts to the failure of a task. -/
def failed (i : ThreadId) (describe : String) (fault : RuntimeFault) (s : State σ) : State σ :=
  let s := s.record (.failed describe fault)
  if st.escalates then
    let s := (s.note (.error "task failed")).push i [.stopOnError]
    if st.config.collectOnError then s.collect st i else s
  else s

def endCollection (s : State σ) : State σ := { s with collecting := false }

def stopOnError (s : State σ) : State σ :=
  if st.config.stopOnError then s.terminate 1 else s

end State

end Run

end Workload
