import Workload.Proofs.Moves

/-!
# Tables of the jobs

Four tables say what doing a job can bring about: the events it may note (`Job.notes`), what it changes
on the board (`Job.Posts`), the jobs it leaves for its thread and the threads it starts
(`Job.Yields`), and whether it can break off (`Job.steady`).  `Job.Leaves` and `Job.Starts` are the
coarser tables of which job can come of which (`Job.Yields.leaves`, `Job.Yields.starts`).
-/

namespace Workload.Run

variable {σ α : Type}

/-- The kinds of the events that a job may note. -/
def Job.notes : Job → List EventKind
  | .opening (_ :: _) _ => [.status, .purge, .provide, .hook]
  | .reclaim _ => [.reclaim]
  | .emit => [.emitted]
  | .teardown | .leaveScope _ | .enterScope => [.status, .hook]
  | .saveLogs => [.saveLogs]
  | .removeServers => [.removeServers]
  | .elapsed | .stopOnError => [.emitted, .exited]
  | .walk .. => [.status, .kill, .remove, .copy]
  | .provideScope _ => [.provide]
  | .dispatch _ | .gate _ | .untilLoop .. => [.status]
  | .repeatLoop .. => [.status, .start]
  | .launch _ => [.run]
  | .removeAll _ => [.remove]
  | .failed .. => [.failed]
  | _ => []

/-- What a job may change on the board. -/
def Job.Posts (j : Job) (b b' : Board) : Prop :=
  match j with
  | .opening .. => ∃ f, b' = { b with failure := f }
  | .elapsed | .stopOnError => ∃ x, b' = { b with stopped := x }
  | .failed .. => ∃ x, b' = { b with collecting := x }
  | .endCollection => b' = { b with collecting := false }
  | .launch _ => ∃ r c p, b' = { b with report := r, channels := c, promises := p }
  | .launched .. | .settlePromise .. => ∃ p, b' = { b with promises := p }
  | .drain .. => ∃ r c, b' = { b with report := r, channels := c }
  | .send .. => ∃ c, b' = { b with channels := c }
  | .watch _ _ c | .expire _ _ c => b' = b ∨ b' = { b with channels := b.channels.modify c Channel.release }
  | _ => b' = b

/-- The channel of a job that waits for a container. -/
def Job.observes? : Job → Option ChannelId
  | .watch _ _ c | .expire _ _ c => some c
  | _ => none

theorem Job.Posts.report {j : Job} {b b' : Board} (h : j.Posts b b') :
    b'.report = b.report ∨ (∃ k, j = .launch k) ∨ ∃ c describe left, j = .drain c describe left := by
  cases j with
  | launch k => exact .inr (.inl ⟨k, rfl⟩)
  | drain c describe left => exact .inr (.inr ⟨c, describe, left, rfl⟩)
  | opening | elapsed | stopOnError | failed | launched | settlePromise | send =>
    obtain ⟨_, rfl⟩ := h
    exact .inl rfl
  | endCollection =>
    obtain rfl := h
    exact .inl rfl
  | watch | expire => exact .inl (h.elim (congrArg Board.report) (congrArg Board.report))
  | _ => exact .inl (congrArg Board.report h)

theorem Job.Posts.channels {j : Job} {b b' : Board} (h : j.Posts b b') :
    b'.channels = b.channels ∨ (∃ k, j = .launch k) ∨
      (∃ c describe left, j = .drain c describe left) ∨ (∃ c signal, j = .send c signal) ∨
      ∃ c, j.observes? = some c ∧ b'.channels = b.channels.modify c Channel.release := by
  cases j with
  | launch k => exact .inr (.inl ⟨k, rfl⟩)
  | drain c describe left => exact .inr (.inr (.inl ⟨c, describe, left, rfl⟩))
  | send c signal => exact .inr (.inr (.inr (.inl ⟨c, signal, rfl⟩)))
  | watch _ _ c | expire _ _ c =>
    rcases h with h | h
    · exact .inl (congrArg Board.channels h)
    · exact .inr (.inr (.inr (.inr ⟨c, rfl, congrArg Board.channels h⟩)))
  | opening | elapsed | stopOnError | failed | launched | settlePromise =>
    obtain ⟨_, rfl⟩ := h
    exact .inl rfl
  | endCollection =>
    obtain rfl := h
    exact .inl rfl
  | _ => exact .inl (congrArg Board.channels h)

theorem Job.Posts.collecting {j : Job} {b b' : Board} (h : j.Posts b b') :
    b'.collecting = b.collecting ∨ (∃ describe fault, j = .failed describe fault) ∨
      j = .endCollection ∧ b'.collecting = false := by
  cases j with
  | failed describe fault => exact .inr (.inl ⟨describe, fault, rfl⟩)
  | endCollection => exact .inr (.inr ⟨rfl, congrArg Board.collecting h⟩)
  | opening | elapsed | stopOnError | launched | settlePromise | send =>
    obtain ⟨_, rfl⟩ := h
    exact .inl rfl
  | drain =>
    obtain ⟨_, _, rfl⟩ := h
    exact .inl rfl
  | launch =>
    obtain ⟨_, _, _, rfl⟩ := h
    exact .inl rfl
  | watch | expire => exact .inl (h.elim (congrArg Board.collecting) (congrArg Board.collecting))
  | _ => exact .inl (congrArg Board.collecting h)

theorem Job.Posts.stopped {j : Job} {b b' : Board} (h : j.Posts b b') :
    b'.stopped = b.stopped ∨ j = .elapsed ∨ j = .stopOnError := by
  cases j with
  | elapsed => exact .inr (.inl rfl)
  | stopOnError => exact .inr (.inr rfl)
  | opening | failed | launched | settlePromise | send =>
    obtain ⟨_, rfl⟩ := h
    exact .inl rfl
  | drain =>
    obtain ⟨_, _, rfl⟩ := h
    exact .inl rfl
  | launch =>
    obtain ⟨_, _, _, rfl⟩ := h
    exact .inl rfl
  | endCollection =>
    obtain rfl := h
    exact .inl rfl
  | watch | expire => exact .inl (h.elim (congrArg Board.stopped) (congrArg Board.stopped))
  | _ => exact .inl (congrArg Board.stopped h)

theorem Job.Posts.failure {j : Job} {b b' : Board} (h : j.Posts b b') :
    b'.failure = b.failure ∨ ∃ calls inv, j = .opening calls inv := by
  cases j with
  | opening calls inv => exact .inr ⟨calls, inv, rfl⟩
  | elapsed | stopOnError | failed | launched | settlePromise | send =>
    obtain ⟨_, rfl⟩ := h
    exact .inl rfl
  | drain =>
    obtain ⟨_, _, rfl⟩ := h
    exact .inl rfl
  | launch =>
    obtain ⟨_, _, _, rfl⟩ := h
    exact .inl rfl
  | endCollection =>
    obtain rfl := h
    exact .inl rfl
  | watch | expire => exact .inl (h.elim (congrArg Board.failure) (congrArg Board.failure))
  | _ => exact .inl (congrArg Board.failure h)

/-- Whether a job asks for nothing that might not be done, so that its thread goes on. -/
def Job.steady : Job → Bool
  | .opening [] _ | .passes .. | .emit | .elapsed | .setLoops _ | .control .. | .launched .. | .failed ..
  | .endCollection | .stopOnError | .drain .. | .awaitLaunch .. | .settlePromise .. | .send ..
  | .sleep _ | .wake _ | .join _ | .hang => true
  | _ => false

namespace Ticket

/-- The thread that waits for the condition that ends a task. -/
def watchers (k : Ticket) (p : PromiseId) : List (List Job) :=
  if k.until_.isEmpty then [] else [[State.untilJob p k.alias_ k.until_]]

/-- The threads that a recorded launch starts. -/
def followers (k : Ticket) (l : Launch) (c : ChannelId) : List (List Job) :=
  [.drain c k.task.describe k.task.instances] ::
    if k.repeats = 0 then [] else [[.repeatLoop l.handle k.repeats]]

/-- What a task waits for after its launch. -/
def awaits (k : Ticket) (watcher : Option (ThreadId × PromiseId)) (l : Launch)
    (restarter : ThreadId) : List Job :=
  (if 0 < k.repeats then [.join [restarter], .removeAll l.containers] else []) ++
    watcher.elim [] fun w => [.join [w.1], .removeAll l.containers]

/-- The threads that watch the containers of a launch. -/
def observers (k : Ticket) (l : Launch) (c : ChannelId) : List (List Job) :=
  l.containers.map fun id => [.watch k.task id c]

end Ticket

/-- The jobs that an action which is not plain stands for. -/
def Unfolds (st : Settings σ) (s : State σ) (pass : Nat) (a : Action) (new : List Job) : Prop :=
  match a.directive with
  | .scope _ => new = [] ∨ ∃ t, new = [.leaveScope t, .provideScope t, .enterScope]
  | .test _ => new = [] ∨ ∃ actions,
      new = [Invocation.job st ⟨.nested st.config, actions, true⟩, .setLoops s.scope.loops]
  | .foreach _ | .template _ =>
    new = [] ∨ ∃ actions, new = [.setLoops pass, .walk pass none actions]
  | _ => new = []

/-- What a launch with the given result leaves for its thread, the threads it starts, and what becomes
of the report and the channels. -/
inductive Ticket.Yields (k : Ticket) (b b' : Board) :
    Except RuntimeFault Launch → List Job → List (List Job) → Prop
  | refused (fault : RuntimeFault) (p : PromiseId) :
      b'.report = b.report.fail k.task.describe fault.message → b'.channels = b.channels →
      Yields k b b' (.error fault) [.failed k.task.describe fault] ((k.watchers p).map fun _ => [])
  | known (l : Launch) (signals : List Signal) (p : PromiseId)
      (watcher : Option (ThreadId × PromiseId)) (restarter : ThreadId) :
      l.signals = some signals → b'.report = b.report →
      b'.channels = b.channels ++ [⟨signals, 0, k.task.instances, false⟩] →
      Yields k b b' (.ok l) (k.awaits watcher l restarter)
        (k.watchers p ++ k.followers l b.channels.length)
  | watched (l : Launch) (p : PromiseId) (watcher : Option (ThreadId × PromiseId))
      (restarter : ThreadId) :
      l.signals = none → b'.report = b.report →
      b'.channels = b.channels ++ [⟨[], l.containers.length, k.task.instances, false⟩] →
      Yields k b b' (.ok l) (k.awaits watcher l restarter)
        (k.watchers p ++ (k.observers l b.channels.length ++ k.followers l b.channels.length))
  | awaited (l : Launch) (p : PromiseId) (watcher : Option (ThreadId × PromiseId))
      (observers : List ThreadId) :
      l.signals = none → b'.report = b.report →
      b'.channels = b.channels ++ [⟨[], l.containers.length, k.task.instances, false⟩] →
      Yields k b b' (.ok l) [.join observers, .launched k watcher l b.channels.length]
        (k.watchers p ++ k.observers l b.channels.length)

theorem Ticket.Yields.of_board_eq {k : Ticket} {b₀ b b' : Board}
    {r : Except RuntimeFault Launch} {new : List Job} {spawned : List (List Job)}
    (h : k.Yields b b' r new spawned) (hr : b.report = b₀.report)
    (hc : b.channels = b₀.channels) : k.Yields b₀ b' r new spawned := by
  cases h with
  | refused fault p hr' hc' => exact .refused fault p (by rw [hr', hr]) (by rw [hc', hc])
  | known l signals p watcher restarter hs hr' hc' =>
    rw [hc]
    exact .known l signals p watcher restarter hs (by rw [hr', hr]) (by rw [hc', hc])
  | watched l p watcher restarter hs hr' hc' =>
    rw [hc]
    exact .watched l p watcher restarter hs (by rw [hr', hr]) (by rw [hc', hc])
  | awaited l p watcher observers hs hr' hc' =>
    rw [hc]
    exact .awaited l p watcher observers hs (by rw [hr', hr]) (by rw [hc', hc])

/-- The jobs that a job leaves for its thread, and those of the threads it starts. -/
def Job.Yields (st : Settings σ) (s s' : State σ) (j : Job) (new : List Job)
    (spawned : List (List Job)) : Prop :=
  match j with
  | .opening (c :: cs) inv => spawned = [] ∧
    match (s.makeOpeningCall st c).1 with
    | .ok _ => new = [.opening cs inv] ∧ s'.failure = s.failure
    | .error fault => new = [] ∧ s'.failure = if inv.nested then s.failure else some fault
  | .opening [] inv =>
    s'.failure = s.failure ∧
    if inv.phases.test then
      let limited := inv.phases.watchdog && st.config.duration ≠ 0
      new = [.passes inv (State.passLimit inv.phases limited) 0] ∧
        spawned = if limited then [[.sleep (1000 * st.config.duration), .elapsed]] else []
    else new = [] ∧ spawned = []
  | .passes inv limit pass =>
    (new = if limit < 0 ∨ (pass : Int) ≤ limit then
        [.setLoops pass, .walk pass none inv.actions, .reclaim .pass, .passes inv limit (pass + 1)]
      else State.closingJobs st inv.phases) ∧ spawned = []
  | .walk pass last (a :: rest) =>
    spawned = [] ∧
    if a.directive = .plain then
      new = [.dispatch (a.carryForward last), .walk pass (some (a.carryForward last)) rest]
    else ∃ front, Unfolds st s pass a front ∧ new = front ++ [.walk pass last rest]
  | .dispatch a =>
    (new = [] ∧ spawned = []) ∨ ∃ task,
      if a.wait then new = [.control task a, .sleep st.config.timings.settle] ∧ spawned = []
      else new = [.sleep st.config.timings.settle] ∧ spawned = [[.control task a]]
  | .control task a => spawned = [] ∧ ∃ alias_,
      new = (if a.before.isEmpty then [] else [.gate a.before]) ++
        [.launch ⟨task, alias_, a.repeats, a.until_⟩]
  | .gate c => (new = [] ∨ new = [.sleep st.config.timings.beforePoll, .gate c]) ∧ spawned = []
  | .launch k =>
    (∃ p, s'.report = s.report ∧ s'.channels = s.channels ∧ s'.scope.trace = s.scope.trace ∧
      new = [] ∧ (spawned = [] ∨ spawned = (k.watchers p).map fun _ => [])) ∨
    s'.scope.broken = false ∧
      s'.scope.trace =
        ⟨s.scope.clock, .run k.task (s.scope.launch st.env k.task).1⟩ :: s.scope.trace ∧
      k.Yields s.board s'.board (s.scope.launch st.env k.task).1 new spawned
  | .launched k watcher l c =>
    (∃ restarter, new = k.awaits watcher l restarter) ∧ spawned = k.followers l c
  | .removeAll (_ :: hs) => new = [.removeAll hs] ∧ spawned = []
  | .failed _ _ => spawned = [] ∧
    (st.escalates = false ∧ new = [] ∧ s'.collecting = s.collecting ∨
      new = [.stopOnError] ∧ s'.collecting = s.collecting ∨
      ∃ c, st.config.collect = some c ∧ s.collecting = false ∧ s'.collecting = true ∧
        new = [.setLoops s.scope.loops, .walk s.scope.loops none c.actions, .endCollection,
          .stopOnError])
  | .drain c describe left => spawned = [] ∧
    match left, (s.channels[c]?).elim [] Channel.queue with
    | left + 1, none :: rest => new = [.drain c describe left] ∧
      s'.report = s.report.pass describe ∧
      s'.channels = s.channels.modify c fun ch => { ch with queue := rest }
    | left + 1, some fault :: rest => new = [.failed describe fault, .drain c describe left] ∧
      s'.report = s.report.fail describe fault.message ∧
      s'.channels = s.channels.modify c fun ch => { ch with queue := rest }
    | _, _ => new = [] ∧ s'.report = s.report ∧
      s'.channels = s.channels.modify c fun ch => { ch with closed := true }
  | .repeatLoop h _ =>
    (new = [] ∨ ∃ left, new = [.sleep st.config.timings.repeatPoll, .repeatLoop h left]) ∧
      spawned = []
  | .awaitLaunch _ c => (new = [] ∨ ∃ h, new = [.untilLoop h c]) ∧ spawned = []
  | .untilLoop h c =>
    (new = [] ∨ new = [.sleep st.config.timings.untilPoll, .untilLoop h c]) ∧ spawned = []
  | .watch task id c => spawned = [] ∧ (new = [] ∨ (∃ signal, new = [.send c signal]) ∨ new = [.hang] ∨
      new = [.sleep task.duration.millisUp, .expire task id c])
  | .expire _ _ c => (new = [] ∨ ∃ signal, new = [.send c signal]) ∧ spawned = []
  | .sleep ms => new = [.wake (s.scope.clock + ms)] ∧ spawned = []
  | _ => new = [] ∧ spawned = []

/-! ## Which job comes of which -/

/-- The first job can leave the second one for its thread. -/
inductive Job.Leaves (st : Settings σ) : Job → Job → Prop
  | nextCall (c : OpeningCall) (cs : List OpeningCall) (inv : Invocation) :
    Leaves st (.opening (c :: cs) inv) (.opening cs inv)
  | firstPass (inv : Invocation) (limit : Int) : inv.phases.test = true →
    Leaves st (.opening [] inv) (.passes inv limit 0)
  | counter (j : Job) (pass : Nat) : Leaves st j (.setLoops pass)
  | walk (j : Job) (pass : Nat) (last : Option Action) (rest : List Action) :
    Leaves st j (.walk pass last rest)
  | pause (j : Job) (ms : Nat) : Leaves st j (.sleep ms)
  | reclaim (inv : Invocation) (limit : Int) (pass : Nat) (occasion : ReclaimOccasion) :
    Leaves st (.passes inv limit pass) (.reclaim occasion)
  | nextPass (inv : Invocation) (limit : Int) (pass : Nat) :
    Leaves st (.passes inv limit pass) (.passes inv limit (pass + 1))
  | emit (inv : Invocation) (limit : Int) (pass : Nat) : Leaves st (.passes inv limit pass) .emit
  | teardown (inv : Invocation) (limit : Int) (pass : Nat) :
    Leaves st (.passes inv limit pass) .teardown
  | saveLogs (inv : Invocation) (limit : Int) (pass : Nat) :
    Leaves st (.passes inv limit pass) .saveLogs
  | removeServers (inv : Invocation) (limit : Int) (pass : Nat) :
    Leaves st (.passes inv limit pass) .removeServers
  | dispatch (pass : Nat) (last : Option Action) (rest : List Action) (a : Action) :
    Leaves st (.walk pass last rest) (.dispatch a)
  | leaveScope (pass : Nat) (last : Option Action) (rest : List Action) (target : Topology) :
    Leaves st (.walk pass last rest) (.leaveScope target)
  | provideScope (pass : Nat) (last : Option Action) (rest : List Action) (target : Topology) :
    Leaves st (.walk pass last rest) (.provideScope target)
  | enterScope (pass : Nat) (last : Option Action) (rest : List Action) :
    Leaves st (.walk pass last rest) .enterScope
  | nested (pass : Nat) (last : Option Action) (rest actions : List Action)
      (calls : List OpeningCall) :
    Leaves st (.walk pass last rest) (.opening calls ⟨.nested st.config, actions, true⟩)
  | control (a : Action) (task : Task) : Leaves st (.dispatch a) (.control task a)
  | gate (task : Task) (a : Action) (condition : String) :
    Leaves st (.control task a) (.gate condition)
  | askAgain (condition : String) : Leaves st (.gate condition) (.gate condition)
  | launch (task : Task) (a : Action) (k : Ticket) : k.task = task →
    Leaves st (.control task a) (.launch k)
  | launched (k : Ticket) (watcher : Option (ThreadId × PromiseId)) (l : Launch) (c : ChannelId) :
    l.signals = none → Leaves st (.launch k) (.launched k watcher l c)
  | refused (k : Ticket) (fault : RuntimeFault) :
    Leaves st (.launch k) (.failed k.task.describe fault)
  | restart (handle : String) (left left' : Int) :
    Leaves st (.repeatLoop handle left) (.repeatLoop handle left')
  | join (j : Job) (ids : List ThreadId) : Leaves st j (.join ids)
  | removeAll (j : Job) (handles : List String) : Leaves st j (.removeAll handles)
  | escalate (describe : String) (fault : RuntimeFault) :
    Leaves st (.failed describe fault) .stopOnError
  | endCollection (describe : String) (fault : RuntimeFault) :
    Leaves st (.failed describe fault) .endCollection
  | receiveNext (c : ChannelId) (describe : String) (left : Nat) :
    Leaves st (.drain c describe (left + 1)) (.drain c describe left)
  | told (c : ChannelId) (describe : String) (left : Nat) (fault : RuntimeFault) :
    Leaves st (.drain c describe (left + 1)) (.failed describe fault)
  | untilLoop (p : PromiseId) (condition handle : String) :
    Leaves st (.awaitLaunch p condition) (.untilLoop handle condition)
  | untilAgain (handle condition : String) :
    Leaves st (.untilLoop handle condition) (.untilLoop handle condition)
  | hang (task : Task) (id : String) (c : ChannelId) : Leaves st (.watch task id c) .hang
  | expire (task : Task) (id : String) (c : ChannelId) :
    Leaves st (.watch task id c) (.expire task id c)
  | send (task : Task) (id : String) (c : ChannelId) (signal : Signal) :
    Leaves st (.watch task id c) (.send c signal)
  | sendExpired (task : Task) (id : String) (c : ChannelId) (signal : Signal) :
    Leaves st (.expire task id c) (.send c signal)
  | wake (ms time : Nat) : Leaves st (.sleep ms) (.wake time)

/-- A thread that the first job starts can have the second one. -/
inductive Job.Starts (st : Settings σ) : Job → Job → Prop
  | budget (inv : Invocation) : Starts st (.opening [] inv) (.sleep (1000 * st.config.duration))
  | elapsed (inv : Invocation) : inv.phases.watchdog = true → st.config.duration ≠ 0 →
    Starts st (.opening [] inv) .elapsed
  | control (a : Action) (task : Task) : Starts st (.dispatch a) (.control task a)
  | untilLaunch (k : Ticket) (p : PromiseId) (condition : String) :
    Starts st (.launch k) (.awaitLaunch p condition)
  | watch (k : Ticket) (l : Launch) (id : String) (c : ChannelId) : l.signals = none →
    Starts st (.launch k) (.watch k.task id c)
  | receive (k : Ticket) (c : ChannelId) :
    Starts st (.launch k) (.drain c k.task.describe k.task.instances)
  | receiveLaunched (k : Ticket) (watcher : Option (ThreadId × PromiseId)) (l : Launch)
      (c : ChannelId) :
    Starts st (.launched k watcher l c) (.drain c k.task.describe k.task.instances)
  | restart (k : Ticket) (handle : String) (left : Int) :
    Starts st (.launch k) (.repeatLoop handle left)
  | restartLaunched (k : Ticket) (watcher : Option (ThreadId × PromiseId)) (l : Launch)
      (c : ChannelId) (handle : String) (left : Int) :
    Starts st (.launched k watcher l c) (.repeatLoop handle left)

section Lineage

variable {st : Settings σ} {s s' : State σ}

theorem leaves_closing {inv : Invocation} {limit : Int} {pass : Nat} {x : Job}
    (hx : x ∈ State.closingJobs st inv.phases) : Job.Leaves st (.passes inv limit pass) x := by
  unfold State.closingJobs at hx
  rw [List.mem_append, List.mem_append] at hx
  rcases hx with (hx | hx) | hx
  · split_ifs at hx
    · obtain rfl := List.mem_singleton.1 hx
      exact .emit inv limit pass
    · cases hx
  · split_ifs at hx
    · obtain rfl := List.mem_singleton.1 hx
      exact .teardown inv limit pass
    · cases hx
  · split_ifs at hx
    · simp only [List.mem_cons, List.nil_append, List.not_mem_nil, or_false] at hx
      rcases hx with rfl | rfl
      · exact .reclaim inv limit pass .cleanup
      · exact .removeServers inv limit pass
    · simp only [List.mem_cons, List.singleton_append, List.not_mem_nil, or_false] at hx
      rcases hx with rfl | rfl | rfl
      · exact .reclaim inv limit pass .cleanup
      · exact .saveLogs inv limit pass
      · exact .removeServers inv limit pass
    · obtain rfl := List.mem_singleton.1 hx
      exact .reclaim inv limit pass .cleanup
    · cases hx

theorem leaves_unfolds {pass : Nat} {last : Option Action} {a : Action} {new : List Job}
    {x : Job} {as : List Action} {pass' : Nat} (h : Unfolds st s pass a new) (hx : x ∈ new) :
    Job.Leaves st (.walk pass' last as) x := by
  unfold Unfolds at h
  split at h
  · rcases h with rfl | ⟨target, rfl⟩
    · cases hx
    · simp only [List.mem_cons, List.not_mem_nil, or_false] at hx
      rcases hx with rfl | rfl | rfl
      · exact .leaveScope pass' last as target
      · exact .provideScope pass' last as target
      · exact .enterScope pass' last as
  · rcases h with rfl | ⟨actions, rfl⟩
    · cases hx
    · simp only [List.mem_cons, List.not_mem_nil, or_false] at hx
      rcases hx with rfl | rfl
      · exact .nested pass' last as actions _
      · exact .counter _ _
  · rcases h with rfl | ⟨actions, rfl⟩
    · cases hx
    · simp only [List.mem_cons, List.not_mem_nil, or_false] at hx
      rcases hx with rfl | rfl
      · exact .counter _ _
      · exact .walk _ _ _ _
  · rcases h with rfl | ⟨actions, rfl⟩
    · cases hx
    · simp only [List.mem_cons, List.not_mem_nil, or_false] at hx
      rcases hx with rfl | rfl
      · exact .counter _ _
      · exact .walk _ _ _ _
  · rw [h] at hx
    cases hx

theorem leaves_awaits {j : Job} (k : Ticket) (watcher : Option (ThreadId × PromiseId)) (l : Launch)
    (restarter : ThreadId) : ∀ x ∈ k.awaits watcher l restarter, Job.Leaves st j x := by
  have hpair : ∀ ids handles, ∀ x ∈ [Job.join ids, .removeAll handles], Job.Leaves st j x := by
    intro ids handles x hx
    simp only [List.mem_cons, List.not_mem_nil, or_false] at hx
    rcases hx with rfl | rfl
    · exact .join j ids
    · exact .removeAll j handles
  intro x hx
  unfold Ticket.awaits at hx
  rcases List.mem_append.1 hx with hx | hx
  · split_ifs at hx
    · exact hpair _ _ x hx
    · cases hx
  · cases watcher with
    | none => cases hx
    | some w => exact hpair _ _ x hx

theorem starts_watchers (k : Ticket) (p : PromiseId) :
    ∀ l ∈ k.watchers p, ∀ x ∈ l, Job.Starts st (.launch k) x := by
  intro l hl x hx
  unfold Ticket.watchers at hl
  split_ifs at hl
  · cases hl
  · obtain rfl := List.mem_singleton.1 hl
    obtain rfl := List.mem_singleton.1 hx
    exact .untilLaunch k p _

theorem starts_followers {j : Job} (k : Ticket) (l : Launch) (c : ChannelId)
    (hd : Job.Starts st j (.drain c k.task.describe k.task.instances))
    (hr : Job.Starts st j (.repeatLoop l.handle k.repeats)) :
    ∀ jobs ∈ k.followers l c, ∀ x ∈ jobs, Job.Starts st j x := by
  intro jobs hj x hx
  unfold Ticket.followers at hj
  rcases List.mem_cons.1 hj with rfl | hj
  · obtain rfl := List.mem_singleton.1 hx
    exact hd
  · split_ifs at hj
    · cases hj
    · obtain rfl := List.mem_singleton.1 hj
      obtain rfl := List.mem_singleton.1 hx
      exact hr

theorem starts_observers (k : Ticket) (l : Launch) (c : ChannelId) (hs : l.signals = none) :
    ∀ jobs ∈ k.observers l c, ∀ x ∈ jobs, Job.Starts st (.launch k) x := by
  intro jobs hj x hx
  obtain ⟨id, -, rfl⟩ := List.mem_map.1 hj
  obtain rfl := List.mem_singleton.1 hx
  exact .watch k l id c hs

theorem Ticket.Yields.leaves {k : Ticket} {b b' : Board} {r : Except RuntimeFault Launch}
    {new : List Job} {spawned : List (List Job)} (h : k.Yields b b' r new spawned) :
    ∀ x ∈ new, Job.Leaves st (.launch k) x := by
  cases h with
  | refused fault p _ _ => exact List.forall_mem_singleton.2 (.refused k fault)
  | known l signals p watcher restarter _ _ _ => exact leaves_awaits k watcher l restarter
  | watched l p watcher restarter _ _ _ => exact leaves_awaits k watcher l restarter
  | awaited l p watcher observers hs _ _ =>
    intro x hx
    simp only [List.mem_cons, List.not_mem_nil, or_false] at hx
    rcases hx with rfl | rfl
    · exact .join _ _
    · exact .launched k watcher l _ hs

theorem Ticket.Yields.starts {k : Ticket} {b b' : Board} {r : Except RuntimeFault Launch}
    {new : List Job} {spawned : List (List Job)} (h : k.Yields b b' r new spawned) :
    ∀ l ∈ spawned, ∀ x ∈ l, Job.Starts st (.launch k) x := by
  intro jobs hj
  cases h with
  | refused fault p _ _ =>
    obtain ⟨_, -, rfl⟩ := List.mem_map.1 hj
    exact fun x hx => (nomatch hx)
  | known l signals p watcher restarter _ _ _ =>
    rcases List.mem_append.1 hj with hj | hj
    · exact starts_watchers k p jobs hj
    · exact starts_followers k l _ (.receive k _) (.restart k _ _) jobs hj
  | watched l p watcher restarter hs _ _ =>
    rcases List.mem_append.1 hj with hj | hj
    · exact starts_watchers k p jobs hj
    rcases List.mem_append.1 hj with hj | hj
    · exact starts_observers k l _ hs jobs hj
    · exact starts_followers k l _ (.receive k _) (.restart k _ _) jobs hj
  | awaited l p watcher observers hs _ _ =>
    rcases List.mem_append.1 hj with hj | hj
    · exact starts_watchers k p jobs hj
    · exact starts_observers k l _ hs jobs hj

end Lineage

variable {st : Settings σ} {s s' : State σ} {j : Job} {new : List Job} {spawned : List (List Job)}

/-- What a job leaves for its thread comes of it. -/
theorem Job.Yields.leaves (h : j.Yields st s s' new spawned) : ∀ x ∈ new, j.Leaves st x := by
  intro x hx
  cases j with
  | opening calls inv =>
    cases calls with
    | nil =>
      obtain ⟨-, h⟩ := h
      split_ifs at h with ht
      · rw [h.1] at hx
        obtain rfl := List.mem_singleton.1 hx
        exact .firstPass inv _ ht
      · rw [h.1] at hx
        cases hx
    | cons c cs =>
      obtain ⟨-, h⟩ := h
      split at h
      · rw [h.1] at hx
        obtain rfl := List.mem_singleton.1 hx
        exact .nextCall c cs inv
      · rw [h.1] at hx
        cases hx
  | passes inv limit pass =>
    obtain ⟨rfl, -⟩ := h
    split_ifs at hx
    · simp only [List.mem_cons, List.not_mem_nil, or_false] at hx
      rcases hx with rfl | rfl | rfl | rfl
      · exact .counter _ _
      · exact .walk _ _ _ _
      · exact .reclaim inv limit pass .pass
      · exact .nextPass inv limit pass
    · exact leaves_closing hx
  | walk pass last rest =>
    cases rest with
    | nil =>
      rw [h.1] at hx
      cases hx
    | cons a rest =>
      obtain ⟨-, h⟩ := h
      split_ifs at h
      · rw [h] at hx
        simp only [List.mem_cons, List.not_mem_nil, or_false] at hx
        rcases hx with rfl | rfl
        · exact .dispatch pass last _ _
        · exact .walk _ _ _ _
      · obtain ⟨front, hu, rfl⟩ := h
        rcases List.mem_append.1 hx with hx | hx
        · exact leaves_unfolds hu hx
        · obtain rfl := List.mem_singleton.1 hx
          exact .walk _ _ _ _
  | dispatch a =>
    rcases h with ⟨rfl, -⟩ | ⟨task, h⟩
    · cases hx
    · split_ifs at h
      · rw [h.1] at hx
        simp only [List.mem_cons, List.not_mem_nil, or_false] at hx
        rcases hx with rfl | rfl
        · exact .control a task
        · exact .pause _ _
      · rw [h.1] at hx
        obtain rfl := List.mem_singleton.1 hx
        exact .pause _ _
  | control task a =>
    obtain ⟨-, alias_, rfl⟩ := h
    rcases List.mem_append.1 hx with hx | hx
    · split_ifs at hx
      · cases hx
      · obtain rfl := List.mem_singleton.1 hx
        exact .gate task a _
    · obtain rfl := List.mem_singleton.1 hx
      exact .launch task a _ rfl
  | gate condition =>
    obtain ⟨rfl | rfl, -⟩ := h
    · cases hx
    · simp only [List.mem_cons, List.not_mem_nil, or_false] at hx
      rcases hx with rfl | rfl
      · exact .pause _ _
      · exact .askAgain condition
  | launch k =>
    rcases h with ⟨p, -, -, -, rfl, -⟩ | ⟨-, -, h⟩
    · cases hx
    · exact h.leaves x hx
  | launched k watcher l c =>
    obtain ⟨⟨restarter, rfl⟩, -⟩ := h
    exact leaves_awaits k watcher l restarter x hx
  | removeAll handles =>
    cases handles with
    | nil =>
      rw [h.1] at hx
      cases hx
    | cons handle handles =>
      rw [h.1] at hx
      obtain rfl := List.mem_singleton.1 hx
      exact .removeAll _ _
  | failed describe fault =>
    obtain ⟨-, ⟨-, rfl, -⟩ | ⟨rfl, -⟩ | ⟨c, -, -, -, rfl⟩⟩ := h
    · cases hx
    · obtain rfl := List.mem_singleton.1 hx
      exact .escalate describe fault
    · simp only [List.mem_cons, List.not_mem_nil, or_false] at hx
      rcases hx with rfl | rfl | rfl | rfl
      · exact .counter _ _
      · exact .walk _ _ _ _
      · exact .endCollection describe fault
      · exact .escalate describe fault
  | drain c describe left =>
    obtain ⟨-, h⟩ := h
    split at h
    · rw [h.1] at hx
      obtain rfl := List.mem_singleton.1 hx
      exact .receiveNext c describe _
    · rw [h.1] at hx
      simp only [List.mem_cons, List.not_mem_nil, or_false] at hx
      rcases hx with rfl | rfl
      · exact .told c describe _ _
      · exact .receiveNext c describe _
    · rw [h.1] at hx
      cases hx
  | repeatLoop handle left =>
    obtain ⟨rfl | ⟨left', rfl⟩, -⟩ := h
    · cases hx
    · simp only [List.mem_cons, List.not_mem_nil, or_false] at hx
      rcases hx with rfl | rfl
      · exact .pause _ _
      · exact .restart _ _ _
  | awaitLaunch p condition =>
    obtain ⟨rfl | ⟨handle, rfl⟩, -⟩ := h
    · cases hx
    · obtain rfl := List.mem_singleton.1 hx
      exact .untilLoop p condition handle
  | untilLoop handle condition =>
    obtain ⟨rfl | rfl, -⟩ := h
    · cases hx
    · simp only [List.mem_cons, List.not_mem_nil, or_false] at hx
      rcases hx with rfl | rfl
      · exact .pause _ _
      · exact .untilAgain handle condition
  | watch task id c =>
    obtain ⟨-, rfl | ⟨signal, rfl⟩ | rfl | rfl⟩ := h
    · cases hx
    · obtain rfl := List.mem_singleton.1 hx
      exact .send task id c signal
    · obtain rfl := List.mem_singleton.1 hx
      exact .hang task id c
    · simp only [List.mem_cons, List.not_mem_nil, or_false] at hx
      rcases hx with rfl | rfl
      · exact .pause _ _
      · exact .expire task id c
  | expire task id c =>
    obtain ⟨rfl | ⟨signal, rfl⟩, -⟩ := h
    · cases hx
    · obtain rfl := List.mem_singleton.1 hx
      exact .sendExpired task id c signal
  | sleep ms =>
    obtain ⟨rfl, -⟩ := h
    obtain rfl := List.mem_singleton.1 hx
    exact .wake ms _
  | _ =>
    rw [h.1] at hx
    cases hx

/-- What a thread has that a job starts comes of the job. -/
theorem Job.Yields.starts (h : j.Yields st s s' new spawned) :
    ∀ l ∈ spawned, ∀ x ∈ l, j.Starts st x := by
  intro l hl x hx
  cases j with
  | opening calls inv =>
    cases calls with
    | nil =>
      obtain ⟨-, h⟩ := h
      split_ifs at h
      · rw [h.2] at hl
        split_ifs at hl with hw
        · obtain rfl := List.mem_singleton.1 hl
          rw [Bool.and_eq_true, decide_eq_true_eq] at hw
          simp only [List.mem_cons, List.not_mem_nil, or_false] at hx
          rcases hx with rfl | rfl
          · exact .budget inv
          · exact .elapsed inv hw.1 hw.2
        · cases hl
      · rw [h.2] at hl
        cases hl
    | cons c cs =>
      rw [h.1] at hl
      cases hl
  | dispatch a =>
    rcases h with ⟨-, rfl⟩ | ⟨task, h⟩
    · cases hl
    · split_ifs at h
      · rw [h.2] at hl
        cases hl
      · rw [h.2] at hl
        obtain rfl := List.mem_singleton.1 hl
        obtain rfl := List.mem_singleton.1 hx
        exact .control a task
  | launch k =>
    rcases h with ⟨p, -, -, -, -, rfl | rfl⟩ | ⟨-, -, h⟩
    · cases hl
    · obtain ⟨_, -, rfl⟩ := List.mem_map.1 hl
      cases hx
    · exact h.starts l hl x hx
  | launched k watcher launch c =>
    rw [h.2] at hl
    exact starts_followers k launch c (.receiveLaunched k watcher launch c)
      (.restartLaunched k watcher launch c _ _) l hl x hx
  | passes | gate | repeatLoop | awaitLaunch | untilLoop | expire | sleep =>
    rw [h.2] at hl
    cases hl
  | control | failed | drain | watch =>
    rw [h.1] at hl
    cases hl
  | walk pass last rest =>
    cases rest with
    | nil =>
      rw [h.2] at hl
      cases hl
    | cons a rest =>
      rw [h.1] at hl
      cases hl
  | removeAll handles =>
    cases handles with
    | nil =>
      rw [h.2] at hl
      cases hl
    | cons handle handles =>
      rw [h.2] at hl
      cases hl
  | _ =>
    rw [h.2] at hl
    cases hl

end Workload.Run
