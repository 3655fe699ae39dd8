import Workload.Docker.Runtime
import Workload.Proofs.Removals

/-!
# Control of a task

From its dispatch to its end a task is controlled by one thread.  A launch that comes off leaves the thread to
wait for the threads that it starts (`Returns.recorded`), so that its containers are removed as often as there
is one of those to wait for, and not otherwise.  What is restarted is named when the threads are started
(`Moment.Serves.restarts`), and that is the first container.  Both make up `control_removes`.
-/

namespace Workload

/-! ## The first container of a launch -/

/-- The handle of a launch is that of its first container. -/
def Runtime.NamesFirst {σ : Type} (r : Runtime σ) : Prop :=
  ∀ task w l, (r.run task w).1.result = .ok l → l.containers.head? = some l.handle

theorem Rehearsal.namesFirst : Rehearsal.runtime.NamesFirst := by
  intro task w l hl
  have hl' : (Rehearsal.launch task w.containers).1.result = .ok l := hl
  unfold Rehearsal.launch at hl'
  simp only [] at hl'
  split_ifs at hl'
  · cases hl'
  · cases hl'
  · cases hl'
  · obtain rfl := Except.ok.inj hl'
    obtain ⟨n, hn⟩ := Nat.exists_eq_succ_of_ne_zero
      (Nat.ne_of_gt (Nat.lt_of_lt_of_le Nat.zero_lt_one (Nat.le_max_right task.concurrency 1)))
    unfold Rehearsal.handles Task.instances
    rw [hn, List.range_succ_eq_map]
    rfl

/-- Scripted faults leave a launch that comes off as it is. -/
theorem Faulty.namesFirst {σ : Type} {r : Runtime σ} (h : r.NamesFirst) : (Faulty.runtime r).NamesFirst := by
  intro task w l hl
  have hl' : (Faulty.scripted Faults.run (fun f => { f with run := f.run.tail }) (r.run task) w).1.result =
      .ok l := hl
  unfold Faulty.scripted at hl'
  split at hl'
  · exact h task _ l hl'
  · exact h task _ l hl'
  · cases hl'

namespace Docker

variable {π : Type} (p : Program π) (t : Task)

/-- If no container fails to start, all have been started. -/
theorem length_startInstances :
    ∀ (n k : Nat) (started : List String) (s : π), (startInstances p t n k started s).1.1 = .ok () →
      (startInstances p t n k started s).1.2.length = started.length + n
  | 0, _, _, _, _ => rfl
  | n + 1, k, started, s, h => by
    unfold startInstances at h ⊢
    split at h
    · rename_i id s' _
      rw [length_startInstances n (k + 1) (started ++ [id]) s' h, List.length_append, List.length_singleton]
      omega
    · cases h

theorem namesFirst : (runtime p).NamesFirst := by
  intro task w l hl
  have hl' : (launch p task w.containers.drawn w.containers.program).1.result = .ok l := hl
  unfold launch at hl'
  split_ifs at hl'
  · cases hl'
  rcases hstart : startInstances p task task.instances w.containers.drawn [] w.containers.program with
    ⟨⟨r, ids⟩, s⟩
  rw [hstart] at hl'
  simp only [] at hl'
  split_ifs at hl'
  · cases hl'
  cases r with
  | error fault => cases hl'
  | ok _ =>
    obtain rfl := Except.ok.inj hl'
    have hlength := length_startInstances p task task.instances w.containers.drawn [] w.containers.program
    rw [hstart] at hlength
    cases ids with
    | nil =>
      have hnone : 0 = 0 + task.instances := hlength rfl
      have := Nat.le_max_right task.concurrency 1
      unfold Task.instances at hnone
      omega
    | cons id ids => rfl

end Docker

namespace Run

variable {σ : Type}

/-- At one of the moments thread `i` starts thread `t`, with the given jobs. -/
def StartedBy (st : Settings σ) (i : ThreadId) (c : List (Moment σ)) (t : ThreadId) (jobs : List Job) : Prop :=
  ∃ m ∈ c, m.thread = i ∧ m.before.threads.length ≤ t ∧
    (m.after st).threads[t]? = some (Thread.ofJobs jobs)

/-! ## What a launch leaves -/

/-- What a launch that comes off leaves for its thread and the threads it starts, where there are `n` threads:
it is recorded, or will be when its containers are done. -/
inductive Ticket.GoesOn (k : Ticket) (watcher : Option (ThreadId × PromiseId)) (l : Launch) (n : Nat) :
    List Job → List (List Job) → Prop
  | recorded (observers : List (List Job)) (c : ChannelId) :
    GoesOn k watcher l n (k.awaits watcher l (n + observers.length + 1)) (observers ++ k.followers l c)
  | watched (ids : List ThreadId) (observers : List (List Job)) (c : ChannelId) :
    GoesOn k watcher l n [.join ids, .launched k watcher l c] observers

namespace State

section

variable {kinds : List EventKind} {i : ThreadId} {new js : List Job} {spawned : List (List Job)}
  {s s' : State σ}

/-- The threads that are started get the numbers behind those there are. -/
theorem Moves.leaves (h : Moves kinds i new spawned s s') (hs : s.At i js) :
    s'.At i (new ++ js) ∧
      ∀ n, s'.threads[s.threads.length + n]? = (spawned[n]?).map Thread.ofJobs := by
  obtain ⟨t, ht, rfl⟩ := hs
  have hi : i < s.threads.length := (List.getElem?_eq_some_iff.1 ht).1
  obtain ⟨n, hn⟩ := h.threads t ht
  refine ⟨⟨⟨new ++ t.jobs, n, t.crashed⟩, ?_, rfl⟩, fun n => ?_⟩
  · rw [hn, List.getElem?_append_left (by simpa using hi), List.getElem?_set_self hi]
  · rw [hn, List.getElem?_append_right (by simp), List.length_set, Nat.add_sub_cancel_left,
      List.getElem?_map]

end

variable (st : Settings σ) (i : ThreadId) (s : State σ) (k : Ticket) (l : Launch)

theorem observe_length (c : ChannelId) (ids : List String) :
    (ids.foldl (fun s id => s.spawn [.watch k.task id c]) s).threads.length =
      s.threads.length + ids.length := by
  induction ids generalizing s with
  | nil => rfl
  | cons id ids ih =>
    have hspawn : (s.spawn [.watch k.task id c]).threads.length = s.threads.length + 1 :=
      List.length_append
    rw [List.foldl_cons, ih, hspawn, List.length_cons]
    omega

theorem created_goesOn (watcher : Option (ThreadId × PromiseId)) :
    ∃ new spawned, Moves [] i new spawned s (s.created i k watcher l) ∧
      k.GoesOn watcher l s.threads.length new spawned := by
  unfold created
  simp only []
  split
  · rename_i signals _
    have ho : Moves [] i [] [] s (s.openChannel ⟨signals, 0, k.task.instances, false⟩) :=
      .of_eq rfl (.refl _)
    obtain ⟨hm, -⟩ := launched_waits i (s.openChannel ⟨signals, 0, k.task.instances, false⟩) k watcher l
      s.channels.length
    have h := ho.trans hm
    rw [List.append_nil] at h
    exact ⟨_, _, h, .recorded [] s.channels.length⟩
  · have ho : Moves [] i [] [] s (s.openChannel ⟨[], l.containers.length, k.task.instances, false⟩) :=
      .of_eq rfl (.refl _)
    obtain ⟨hm, -⟩ := observe_moves i
      (s.openChannel ⟨[], l.containers.length, k.task.instances, false⟩) k s.channels.length l.containers
    have hlength := observe_length
      (s.openChannel ⟨[], l.containers.length, k.task.instances, false⟩) k s.channels.length l.containers
    generalize (l.containers.foldl (fun s' id => s'.spawn [.watch k.task id s.channels.length])
      (s.openChannel ⟨[], l.containers.length, k.task.instances, false⟩)) = s₂ at hm hlength ⊢
    have h := ho.trans hm
    split_ifs
    · obtain ⟨hm', -⟩ := launched_waits i s₂ k watcher l s.channels.length
      have h' := h.trans hm'
      rw [hlength, List.append_nil, List.append_nil, List.nil_append] at h'
      refine ⟨_, _, h', ?_⟩
      have hrecorded : k.GoesOn watcher l s.threads.length _ _ :=
        .recorded (k.observers l s.channels.length) s.channels.length
      rwa [Ticket.observers, List.length_map] at hrecorded
    · exact ⟨_, _, h.then_push _, .watched _ _ s.channels.length⟩

/-- The thread that waits for the condition is the first one that is started. -/
theorem spawnWatcher_goesOn :
    Moves [.run] i [] (k.watchers s.promises.length) s (s.spawnWatcher k).2 ∧
      (s.spawnWatcher k).2.threads.length = s.threads.length + (k.watchers s.promises.length).length ∧
      (s.spawnWatcher k).2.scope = s.scope ∧
      (s.spawnWatcher k).1 = if k.until_.isEmpty then none else some (s.threads.length, s.promises.length) := by
  unfold spawnWatcher Ticket.watchers
  split_ifs
  · exact ⟨.refl s, rfl, rfl, rfl⟩
  · have h : Moves [.run] i [] [] s s.openPromise := .of_eq rfl (.refl _)
    exact ⟨h.then_spawn _, List.length_append, rfl, rfl⟩

/-- The thread that waits for the end of a task is there, and the runtime has been asked to launch the task. -/
def asked : State σ := { (s.spawnWatcher k).2 with scope := (s.scope.launch st.env k.task).2 }

/-- A launch goes on with what the runtime answers. -/
theorem launch_eq (hk : k.task.command ≠ []) :
    s.launch st i k =
      if (s.asked st k).scope.broken then (s.asked st k).forsake (s.spawnWatcher k).1
      else
        match (s.scope.launch st.env k.task).1 with
        | .ok l => (s.asked st k).created i k (s.spawnWatcher k).1 l
        | .error fault => (s.asked st k).refused i k (s.spawnWatcher k).1 fault := by
  have hscope := (spawnWatcher_goesOn i s k).2.2.1
  have hwithin : (s.spawnWatcher k).2.within (Scope.launch st.env k.task) =
      ((s.scope.launch st.env k.task).1, s.asked st k) := by
    unfold within asked
    rw [show (s.spawnWatcher k).2.scope = s.scope from hscope]
  unfold launch
  rw [if_neg (by simpa using hk)]
  exact congrArg (fun q : Except RuntimeFault Launch × State σ =>
    if q.2.scope.broken then q.2.forsake (s.spawnWatcher k).1
    else
      match q.1 with
      | .ok l => q.2.created i k (s.spawnWatcher k).1 l
      | .error fault => q.2.refused i k (s.spawnWatcher k).1 fault) hwithin

theorem asked_moves : Moves [.run] i [] (k.watchers s.promises.length) s (s.asked st k) := by
  obtain ⟨hm, -, hscope, -⟩ := spawnWatcher_goesOn i s k
  have hcall : s.scope.Grows [.run] (s.scope.launch st.env k.task).2 :=
    Scope.grows_call _ (by intro; rfl) _
  exact hm.then_eq rfl (by rwa [show (s.spawnWatcher k).2.scope = s.scope from hscope])

/-- If there is a condition that ends the task, the thread that waits for it is the one that the launch has
started. -/
theorem spawnWatcher_first :
    (s.spawnWatcher k).1 = none ∧ k.watchers s.promises.length = [] ∨ ∃ w jobs,
      (s.spawnWatcher k).1 = some w ∧ w.1 = s.threads.length ∧ k.watchers s.promises.length = [jobs] := by
  unfold spawnWatcher Ticket.watchers
  split_ifs
  · exact .inl ⟨rfl, rfl⟩
  · exact .inr ⟨_, _, rfl, rfl, rfl⟩

/-- A launch that is refused leaves the thread that waits for its end nothing to do. -/
theorem asked_refused (fault : RuntimeFault) :
    Moves [.run] i [.failed k.task.describe fault] ((k.watchers s.promises.length).map fun _ => []) s
      ((s.asked st k).refused i k (s.spawnWatcher k).1 fault) :=
  refused_moves i _ s fault (asked_moves st i s k) (spawnWatcher_first s k)

/-- So does a launch in the middle of which its thread breaks off. -/
theorem asked_forsaken :
    Moves [.run] i [] ((k.watchers s.promises.length).map fun _ => []) s
      ((s.asked st k).forsake (s.spawnWatcher k).1) :=
  forsake_moves i _ s (asked_moves st i s k) (spawnWatcher_first s k)

/-- A launch that comes off goes on. -/
theorem launch_goesOn (hk : k.task.command ≠ []) (hl : (s.scope.launch st.env k.task).1 = .ok l)
    (hb : (s.launch st i k).scope.broken = false) :
    ∃ new spawned, Moves [.run] i new (k.watchers s.promises.length ++ spawned) s (s.launch st i k) ∧
      k.GoesOn (if k.until_.isEmpty then none else some (s.threads.length, s.promises.length)) l
        (s.threads.length + (k.watchers s.promises.length).length) new spawned := by
  obtain ⟨-, hlength, -, hwatcher⟩ := spawnWatcher_goesOn i s k
  rw [launch_eq st i s k hk, hl] at hb ⊢
  by_cases hbroken : (s.asked st k).scope.broken = true
  · rw [if_pos hbroken, forsake_scope, hbroken] at hb
    cases hb
  rw [if_neg hbroken]
  obtain ⟨new, spawned, hm, hgoes⟩ := created_goesOn i (s.asked st k) k l (s.spawnWatcher k).1
  have h := (asked_moves st i s k).trans (hm.mono (List.nil_subset _))
  rw [List.append_nil] at h
  refine ⟨new, spawned, h, ?_⟩
  rw [← hlength, ← hwatcher]
  exact hgoes

end State

section

variable {st : Settings σ} {i t : ThreadId} {js jobs : List Job} {b s : State σ} {m : Moment σ}
  {c c' : List (Moment σ)} {k : Ticket} {l : Launch} {p : PromiseId} {watcher : Option (ThreadId × PromiseId)}

theorem StartedBy.mono (h : StartedBy st i c t jobs) (hc : c ⊆ c') : StartedBy st i c' t jobs := by
  obtain ⟨m, hm, hstarted⟩ := h
  exact ⟨m, hc hm, hstarted⟩

/-- The threads that were started are there. -/
theorem StartedBy.lt (h : StartedBy st i c t jobs) (hc : Chronicle st b c s) (hb : b.scope.broken = false) :
    t < s.threads.length := by
  obtain ⟨m, hm, -, -, ht⟩ := h
  obtain ⟨c₁, c₂, rfl⟩ := List.append_of_mem hm
  exact (List.getElem?_eq_some_iff.1 ht).1.trans_le
    ((hc.after hb).threads_le (hc.stepped hb).unbroken)

/-- The thread that waits for the condition that ends a task is among those started, if there is such a
condition. -/
def Ticket.Watched (k : Ticket) (st : Settings σ) (i : ThreadId) (c : List (Moment σ)) :
    Option (ThreadId × PromiseId) → Prop
  | none => k.until_.isEmpty = true
  | some w => k.until_.isEmpty = false ∧ StartedBy st i c w.1 [State.untilJob w.2 k.alias_ k.until_]

theorem Ticket.Watched.mono (h : k.Watched st i c watcher) (hc : c ⊆ c') : k.Watched st i c' watcher := by
  cases watcher with
  | none => exact h
  | some w => exact ⟨h.1, h.2.mono hc⟩

theorem pop_length (i : ThreadId) (s : State σ) : (s.pop i).threads.length = s.threads.length :=
  List.length_modify _ _ _

/-- What a moment starts, read off what its job makes of the state. -/
theorem Moment.Does.startedBy {j : Job} {kinds : List EventKind} {new : List Job} {spawned : List (List Job)}
    (hm : m.Does st i j js)
    (hmoves : State.Moves kinds i new spawned (m.before.pop i) (j.perform st i (m.before.pop i))) :
    (m.after st).At i (new ++ js) ∧
      ∀ n jobs, spawned[n]? = some jobs → StartedBy st i [m] (m.before.threads.length + n) jobs := by
  obtain ⟨hat, hstarted⟩ := hmoves.leaves hm.popped
  rw [← hm.after_eq] at hat hstarted
  refine ⟨hat, fun n jobs hn => ⟨m, List.mem_singleton_self m, hm.thread, Nat.le_add_right _ _, ?_⟩⟩
  rw [← pop_length i, hstarted, hn]
  rfl

/-- If there is a condition that ends the task, the thread that waits for it is started first. -/
theorem Ticket.watched_of_started {spawned : List (List Job)}
    (hstarted : ∀ n jobs, (k.watchers p ++ spawned)[n]? = some jobs → StartedBy st i c (t + n) jobs) :
    k.Watched st i c (if k.until_.isEmpty then none else some (t, p)) := by
  by_cases huntil : k.until_.isEmpty = true
  · rw [if_pos huntil]
    exact huntil
  · rw [if_neg huntil]
    refine ⟨Bool.not_eq_true _ ▸ huntil, hstarted 0 _ ?_⟩
    unfold Ticket.watchers
    rw [if_neg huntil]
    rfl

/-- If the task is restarted, the thread that does so is the second one of those that follow the launch. -/
theorem Ticket.getElem?_followers (before : List (List Job)) (ch : ChannelId) (hrepeats : k.repeats ≠ 0) :
    (before ++ k.followers l ch)[before.length + 1]? = some [.repeatLoop l.handle k.repeats] := by
  rw [List.getElem?_append_right (Nat.le_add_right _ _), Nat.add_sub_cancel_left]
  unfold Ticket.followers
  rw [if_neg hrepeats]
  rfl

/-- A thread whose launch has come off comes to wait for the threads that it has started. -/
theorem Returns.recorded (h : Returns st i js (m.after st) c s) (hm : m.Does st i (.launch k) js)
    (hk : k.task.command ≠ []) (hl : (m.before.scope.launch st.env k.task).1 = .ok l) :
    ∃ watcher r c₁ b' c₂, c = c₁ ++ c₂ ∧ Chronicle st (m.after st) c₁ b' ∧ removals st i c₁ = [] ∧
      b'.At i (k.awaits watcher l r ++ js) ∧ Returns st i js b' c₂ s ∧
      k.Watched st i (m :: c₁) watcher ∧
      (k.repeats ≠ 0 → StartedBy st i (m :: c₁) r [.repeatLoop l.handle k.repeats]) ∧
      ∀ m' ∈ c₁, m'.thread = i → m'.job.attends = true ∨ ∃ w ch, m'.job = .launched k w l ch := by
  obtain ⟨new, spawned, hmoves, hgoes⟩ :=
    State.launch_goesOn st i (m.before.pop i) k l hk hl hm.goesOn
  obtain ⟨hat, hstarted⟩ := hm.startedBy hmoves
  rw [pop_length] at hgoes
  have hwatched := Ticket.watched_of_started hstarted
  generalize (m.before.pop i).promises.length = p at hstarted hgoes hwatched
  generalize (if k.until_.isEmpty then none else some (m.before.threads.length, p)) = watcher
    at hgoes hwatched
  cases hgoes with
  | recorded observers ch =>
    refine ⟨watcher, _, [], m.after st, c, rfl, .refl, rfl, hat, h, hwatched, fun hrepeats => ?_,
      fun m' hm' => nomatch hm'⟩
    rw [Nat.add_assoc, Nat.add_assoc]
    refine hstarted _ _ ?_
    rw [← List.append_assoc, ← Nat.add_assoc, ← List.length_append]
    exact Ticket.getElem?_followers _ ch hrepeats
  | watched ids observers ch =>
    obtain ⟨d, m₁, e, new₁, spawned₁, rfl, hm₁, hfront, ⟨rfl, -⟩, hat₁, hrest₁⟩ :=
      h.attend [.launched k watcher l ch] hat rfl
    rw [Moment.removals_eq_nil hm₁.stepped (by simp [Job.notes])] at hfront
    obtain ⟨d', m₂, e', rfl, hquiet, hm₂, hrest₂⟩ := hrest₁.next hat₁ (List.cons_ne_self _ _)
    obtain ⟨hmoves₂, -⟩ := State.launched_waits i (m₂.before.pop i) k watcher l ch
    obtain ⟨hat₂, hstarted₂⟩ := hm₂.startedBy hmoves₂
    have hsilent := Moment.removals_eq_nil hm₂.stepped (by simp [Job.notes])
    refine ⟨watcher, _, (d ++ [m₁]) ++ (d' ++ [m₂]), m₂.after st, e', by simp,
      hfront.chronicle.trans (hrest₁.chronicle.before.1.trans hm₂.chronicle), ?_, hat₂, hrest₂,
      hwatched.mono (by simp), fun hrepeats => ?_, fun m' hm' hi => ?_⟩
    · rw [removals_append, hfront.calls, removals_append, removals_of_quiet hquiet,
        removals_singleton hm₂.thread, hsilent]
      rfl
    · rw [pop_length]
      exact (hstarted₂ 1 _ (Ticket.getElem?_followers [] ch hrepeats)).mono (by simp)
    · rcases List.mem_append.1 hm' with hm' | hm'
      · exact .inl (hfront.jobs m' hm' hi)
      rcases List.mem_append.1 hm' with hm' | hm'
      · exact absurd hi (hquiet m' hm')
      · obtain rfl := List.mem_singleton.1 hm'
        exact .inr ⟨watcher, ch, hm₂.job⟩

end

/-! ## What is restarted -/

/-- The container that a job restarts. -/
def Job.restarts? : Job → Option String
  | .repeatLoop handle _ => some handle
  | _ => none

/-- From one scope to the other no container is started but the given one. -/
def StartsOnly (handle : String) (sc sc' : Scope σ) : Prop :=
  ∃ new, sc'.trace = new ++ sc.trace ∧ ∀ e ∈ new, ∀ h, e.event.started? = some h → h = handle

namespace StartsOnly

variable {handle : String} {sc sc' sc'' : Scope σ} {ε α : Type}

theorem of_eq (h : sc'.trace = sc.trace) : StartsOnly handle sc sc' :=
  ⟨[], h, fun _ he => nomatch he⟩

theorem trans (h : StartsOnly handle sc sc') (h' : StartsOnly handle sc' sc'') :
    StartsOnly handle sc sc'' := by
  obtain ⟨new, hnew, hstarts⟩ := h
  obtain ⟨new', hnew', hstarts'⟩ := h'
  refine ⟨new' ++ new, by rw [hnew', hnew, List.append_assoc], fun e he => ?_⟩
  rcases List.mem_append.1 he with he | he
  · exact hstarts' e he
  · exact hstarts e he

theorem note (line : LogLine) : StartsOnly handle sc (sc.note line) :=
  .of_eq (Scope.grows_note line sc).trace_eq

theorem call (c : Call σ ε α) {event : Except ε α → Event}
    (he : ∀ r h, (event r).started? = some h → h = handle) : StartsOnly handle sc (sc.call c event).2 := by
  cases hb : (sc.call c event).2.broken with
  | true => exact .of_eq (Scope.call_trace_of_broken hb)
  | false =>
    refine ⟨[⟨sc.clock, event (sc.call c event).1⟩], Scope.call_trace hb, fun e hmem h hh => ?_⟩
    obtain rfl := List.mem_singleton.1 hmem
    exact he _ h hh

end StartsOnly

/-- A thread that restarts a container starts no other one. -/
theorem State.repeatLoop_startsOnly (st : Settings σ) (i : ThreadId) (s : State σ) (handle : String)
    (left : Int) : StartsOnly handle s.scope (s.repeatLoop st i handle left).scope := by
  have hrestarted : ∀ s : State σ, (s.restarted st i handle left).scope = s.scope := by
    intro s
    unfold restarted
    split_ifs <;> rfl
  have hstatus : StartsOnly handle s.scope (s.within (Scope.status st.env handle)).2.scope :=
    .call _ fun r h hh => nomatch hh
  unfold repeatLoop
  split_ifs
  · exact .of_eq rfl
  rcases hw : s.within (Scope.status st.env handle) with ⟨r, s₁⟩
  rw [hw] at hstatus
  split
  · rename_i s₂ heq
    obtain rfl := (Prod.mk.inj heq).2
    have hstart : StartsOnly handle s₁.scope (s₁.within (Scope.start st.env handle)).2.scope :=
      .call _ fun r h hh => (Option.some.inj hh).symm
    rcases hw' : s₁.within (Scope.start st.env handle) with ⟨r', s₃⟩
    rw [hw'] at hstart
    cases r' with
    | ok _ =>
      simp only [hrestarted]
      exact hstatus.trans hstart
    | error _ =>
      simp only [hrestarted]
      exact (hstatus.trans hstart).trans (.note _)
  · rename_i heq
    obtain rfl := (Prod.mk.inj heq).2
    exact hstatus
  · rename_i heq
    obtain rfl := (Prod.mk.inj heq).2
    split_ifs
    · exact hstatus
    · exact hstatus.trans (.note _)

section

variable {st : Settings σ} {i t : ThreadId} {j : Job} {new jobs : List Job} {spawned : List (List Job)}
  {b s s' : State σ} {m : Moment σ} {c : List (Moment σ)} {l : Launch} {handle : String}

/-- At a moment only the container is started that the job restarts. -/
theorem Moment.restarts_of_starts (h : Stepped st i j m.before (m.after st)) :
    ∀ handle ∈ m.starts st, j.restarts? = some handle := by
  intro handle hhandle
  cases j with
  | repeatLoop handle' left =>
    have htrace : StartsOnly handle' m.before.scope (m.after st).scope := by
      obtain ⟨new, hnew, hstarts⟩ :=
        State.repeatLoop_startsOnly st i (m.before.pop i) handle' left
      refine ⟨new, ?_, hstarts⟩
      rw [h.result, State.endBroken_trace]
      exact hnew
    obtain ⟨new, hnew, hstarts⟩ := htrace
    obtain ⟨e, he, hstarted⟩ := List.mem_filterMap.1 hhandle
    rw [Moment.noted_eq hnew, List.mem_reverse] at he
    obtain ⟨e', he', rfl⟩ := List.mem_map.1 (List.mem_filter.1 he).1
    exact congrArg some (hstarts e' he' handle hstarted).symm
  | opening calls inv =>
    rw [Moment.starts_eq_nil h (by cases calls <;> simp [Job.notes])] at hhandle
    cases hhandle
  | _ =>
    rw [Moment.starts_eq_nil h (by simp [Job.notes])] at hhandle
    cases hhandle

/-- A job leaves no restarts but those of the container that it restarts itself. -/
theorem Job.Leaves.restarts {x : Job} (h : j.Leaves st x) (hx : x.restarts? = some handle) :
    j.restarts? = some handle := by
  cases h with
  | restart => exact hx
  | _ => cases hx

/-- What a thread attends to starts no thread. -/
theorem spawned_of_attends (hy : j.Yields st s s' new spawned) (hj : j.attends = true) : spawned = [] := by
  cases j with
  | control task a => exact hy.1
  | gate condition => exact hy.2
  | sleep ms => exact hy.2
  | wake time => exact hy.2
  | join ids => exact hy.2
  | removeAll handles => cases handles <;> exact hy.2
  | _ => cases hj

/-- The threads that follow a launch restart its first container, or none. -/
theorem restarts_followers {k : Ticket} {ch : ChannelId} (hjobs : jobs ∈ k.followers l ch) :
    ∀ x ∈ jobs, ∀ h, x.restarts? = some h → h = l.handle := by
  intro x hx h hh
  unfold Ticket.followers at hjobs
  rcases List.mem_cons.1 hjobs with rfl | hjobs
  · obtain rfl := List.mem_singleton.1 hx
    cases hh
  · split_ifs at hjobs
    · cases hjobs
    · obtain rfl := List.mem_singleton.1 hjobs
      obtain rfl := List.mem_singleton.1 hx
      exact (Option.some.inj hh).symm

theorem restarts_watchers {k : Ticket} {p : PromiseId} (hjobs : jobs ∈ k.watchers p) :
    ∀ x ∈ jobs, x.restarts? = none := by
  intro x hx
  unfold Ticket.watchers at hjobs
  split_ifs at hjobs
  · cases hjobs
  · obtain rfl := List.mem_singleton.1 hjobs
    obtain rfl := List.mem_singleton.1 hx
    rfl

theorem restarts_observers {k : Ticket} {ch : ChannelId} (hjobs : jobs ∈ k.observers l ch) :
    ∀ x ∈ jobs, x.restarts? = none := by
  obtain ⟨id, -, rfl⟩ := List.mem_map.1 hjobs
  intro x hx
  obtain rfl := List.mem_singleton.1 hx
  rfl

/-- At a moment a thread does something for a task whose launch, if it has come to it, is the given one. -/
def Moment.Serves (st : Settings σ) (l : Launch) (m : Moment σ) : Prop :=
  m.job.attends = true ∨
    (∃ k, m.job = .launch k ∧ (m.before.scope.launch st.env k.task).1 = .ok l) ∨
    ∃ k w ch, m.job = .launched k w l ch

/-- A thread that serves a task starts no container itself. -/
theorem Moment.Serves.starts (h : m.Serves st l) (hm : Stepped st i m.job m.before (m.after st)) :
    m.starts st = [] := by
  refine List.eq_nil_iff_forall_not_mem.2 fun handle hhandle => ?_
  have hrestarts := Moment.restarts_of_starts hm handle hhandle
  rcases h with h | ⟨k, h, -⟩ | ⟨k, w, ch, h⟩
  · cases hj : m.job with
    | repeatLoop =>
      rw [hj] at h
      cases h
    | _ =>
      rw [hj] at hrestarts
      cases hrestarts
  · rw [h] at hrestarts
    cases hrestarts
  · rw [h] at hrestarts
    cases hrestarts

/-- The threads that are started for a task restart the first container of its launch, or none. -/
theorem Moment.Serves.restarts (h : m.Serves st l)
    (hy : m.job.Yields st m.before (m.after st) new spawned) (hjobs : jobs ∈ spawned) :
    ∀ x ∈ jobs, ∀ h, x.restarts? = some h → h = l.handle := by
  have hnone : (∀ x ∈ jobs, x.restarts? = none) → ∀ x ∈ jobs, ∀ h, x.restarts? = some h → h = l.handle := by
    intro hnone x hx h hh
    rw [hnone x hx] at hh
    cases hh
  rcases h with h | ⟨k, h, hl⟩ | ⟨k, w, ch, h⟩
  · rw [spawned_of_attends hy h] at hjobs
    cases hjobs
  · rw [h] at hy
    rcases hy with ⟨p, -, -, -, -, rfl | rfl⟩ | ⟨-, -, hy⟩
    · cases hjobs
    · obtain ⟨_, -, rfl⟩ := List.mem_map.1 hjobs
      exact fun x hx => nomatch hx
    · rw [hl] at hy
      cases hy with
      | known =>
        rcases List.mem_append.1 hjobs with hjobs | hjobs
        · exact hnone (restarts_watchers hjobs)
        · exact restarts_followers hjobs
      | watched =>
        rcases List.mem_append.1 hjobs with hjobs | hjobs
        · exact hnone (restarts_watchers hjobs)
        rcases List.mem_append.1 hjobs with hjobs | hjobs
        · exact hnone (restarts_observers hjobs)
        · exact restarts_followers hjobs
      | awaited =>
        rcases List.mem_append.1 hjobs with hjobs | hjobs
        · exact hnone (restarts_watchers hjobs)
        · exact hnone (restarts_observers hjobs)
  · rw [h] at hy
    rw [hy.2] at hjobs
    exact restarts_followers hjobs

theorem StartedBy.restarts (h : StartedBy st i c t jobs) (hc : Chronicle st b c s)
    (hb : b.scope.broken = false) (hserves : ∀ m ∈ c, m.thread = i → m.Serves st l) :
    ∀ x ∈ jobs, ∀ h, x.restarts? = some h → h = l.handle := by
  obtain ⟨m, hm, hi, hnew, ht⟩ := h
  obtain ⟨c₁, c₂, rfl⟩ := List.append_of_mem hm
  obtain ⟨u, js, u', new, spawned, hu, -, hy, hth, -⟩ := (hc.stepped hb).moves
  have hlen : m.thread < m.before.threads.length := (List.getElem?_eq_some_iff.1 hu).1
  rcases (Stepped.getElem?_threads hth hlen).2.2 t _ ht (hlen.trans_le hnew).ne' with hold | ⟨-, jobs', hjobs, heq⟩
  · exact absurd (List.getElem?_eq_some_iff.1 hold).1 (Nat.not_lt.2 hnew)
  · obtain rfl : jobs = jobs' := congrArg Thread.jobs heq
    exact (hserves m hm hi).restarts hy hjobs

/-- A thread that restarts no other container than the given one keeps to it. -/
theorem Chronicle.starts_only (hc : Chronicle st b c s) (hb : b.scope.broken = false) {u : Thread}
    (ht : b.threads[t]? = some u) (hu : ∀ x ∈ u.jobs, ∀ h, x.restarts? = some h → h = handle) :
    ∀ m ∈ c, m.thread = t → ∀ h ∈ m.starts st, h = handle := by
  refine (hc.invariant (P := fun c s =>
    (∃ u, s.threads[t]? = some u ∧ ∀ x ∈ u.jobs, ∀ h, x.restarts? = some h → h = handle) ∧
      ∀ m ∈ c, m.thread = t → ∀ h ∈ m.starts st, h = handle) hb
    ⟨⟨u, ht, hu⟩, fun m hm => nomatch hm⟩ ?_ fun _ _ _ hs _ _ => hs).2
  rintro c k j s s' ⟨⟨u, ht, hu⟩, hstarts⟩ hstep -
  obtain ⟨v, js, v', new, spawned, hv, hj, hy, hth, hv'⟩ := hstep.moves
  have hlater : ∃ u, s'.threads[t]? = some u ∧ ∀ x ∈ u.jobs, ∀ h, x.restarts? = some h → h = handle := by
    by_cases hk : k = t
    · subst hk
      obtain rfl := Option.some.inj (hv.symm.trans ht)
      refine ⟨v', (Stepped.getElem?_threads hth (List.getElem?_eq_some_iff.1 hv).1).1, fun x hx h hh => ?_⟩
      rcases hv' with ⟨hjobs, -⟩ | ⟨-, -, hjobs, -⟩
      · rw [hjobs] at hx
        rcases List.mem_append.1 hx with hx | hx
        · exact hu j (hj ▸ List.mem_cons_self) h ((hy.leaves x hx).restarts hh)
        · exact hu x (hj ▸ List.mem_cons_of_mem j hx) h hh
      · rw [hjobs] at hx
        cases hx
    · exact ⟨u, Stepped.getElem?_other hth hk ht, hu⟩
  refine ⟨hlater, fun m hm hmt h hh => ?_⟩
  rcases List.mem_append.1 hm with hm | hm
  · exact hstarts m hm hmt h hh
  · obtain rfl := List.mem_singleton.1 hm
    obtain rfl : k = t := hmt
    obtain rfl := Option.some.inj (hv.symm.trans ht)
    have hafter : (⟨s, k, j⟩ : Moment σ).after st = s' := hstep.result.symm
    exact hu j (hj ▸ List.mem_cons_self) h (Moment.restarts_of_starts (m := ⟨s, k, j⟩) (hafter ▸ hstep) h hh)

/-- The threads that are started for a task start no container but the first one of its launch. -/
theorem StartedBy.starts (h : StartedBy st i c m.thread jobs) {c' : List (Moment σ)} {s' : State σ}
    (hc : Chronicle st b c s) (hc' : Chronicle st s c' s') (hb : b.scope.broken = false)
    (hserves : ∀ m ∈ c, m.thread = i → m.Serves st l) (hm : m ∈ c ++ c') :
    ∀ h ∈ m.starts st, h = l.handle := by
  have hrestarts := h.restarts hc hb hserves
  obtain ⟨m₀, hm₀, -, hnew, ht⟩ := h
  obtain ⟨c₁, c₂, rfl⟩ := List.append_of_mem hm₀
  have hall := hc.trans hc'
  rw [List.append_assoc, List.cons_append] at hall hm
  rcases List.mem_append.1 hm with hm | hm
  · exact absurd (hall.before.1.thread_lt hb hm) (Nat.not_lt.2 hnew)
  rcases List.mem_cons.1 hm with rfl | hm
  · obtain ⟨u, -, -, -, -, hu, -⟩ := (hall.stepped hb).moves
    exact absurd (List.getElem?_eq_some_iff.1 hu).1 (Nat.not_lt.2 hnew)
  · exact (hall.after hb).starts_only (hall.stepped hb).unbroken ht hrestarts m hm rfl

end

/-! ## The whole of it -/

section

variable {st : Settings σ} {i : ThreadId} {js : List Job} {b s : State σ} {c : List (Moment σ)} {task : Task}
  {a : Action}

/-- The thread that controls a task comes to its launch, and removes nothing on the way. -/
theorem Returns.controls (h : Returns st i js b c s) (hb : b.At i (.control task a :: js)) :
    ∃ c₁ m c₂ alias_, c = c₁ ++ m :: c₂ ∧
      m.Does st i (.launch ⟨task, alias_, a.repeats, a.until_⟩) js ∧ Attends st i [] b c₁ m.before ∧
      Returns st i js (m.after st) c₂ s := by
  obtain ⟨c₁, m, c₂, new, spawned, rfl, hm, hfront, ⟨-, alias_, rfl⟩, hat, hrest⟩ :=
    h.attend [] hb rfl
  rw [Moment.removals_eq_nil hm.stepped (by simp [Job.notes])] at hfront
  have hgated : Ticket.Gated ⟨task, alias_, a.repeats, a.until_⟩
      ((if a.before.isEmpty then [] else [.gate a.before]) ++
        [.launch ⟨task, alias_, a.repeats, a.until_⟩]) := by
    split_ifs
    · exact .launch
    · exact .gate a.before
  obtain ⟨d, m', d', rfl, hm', hd, hret⟩ := hrest.reaches_launch hgated hat
  exact ⟨(c₁ ++ [m]) ++ d, m', d', alias_, by simp, hm', hfront.trans hd, hret⟩

/-- The thread that controls a task comes to its launch.  If the launch comes off, what the thread then removes
until it is done with the task are all containers of the launch, in order and whatever comes of each removal:
when the thread that restarts the task has ended, if the restarts are counted, and when the one that waits for
the condition that ends the task has, if there is such a condition; and it removes nothing else.  It starts no
container, and the threads that it starts for the task start none but the first one, then or later. -/
theorem control_removes (h : Returns st i js b c s) (hb : b.At i (.control task a :: js)) :
    ∃ m ∈ c, m.thread = i ∧ ∃ alias_, m.job = .launch ⟨task, alias_, a.repeats, a.until_⟩ ∧
      ∀ l, task.command ≠ [] → (m.before.scope.launch st.env task).1 = .ok l →
        (∃ c₀ c₁ c₂, c = c₀ ++ c₁ ++ c₂ ∧ removals st i c₀ = [] ∧
          (if 0 < a.repeats then
            ∃ r, StartedBy st i c₀ r [.repeatLoop l.handle a.repeats] ∧ RemovesAfter st i r l.containers c₁
          else removals st i c₁ = []) ∧
          (if a.until_.isEmpty then removals st i c₂ = []
          else
            ∃ w p, StartedBy st i c₀ w [State.untilJob p alias_ a.until_] ∧
              RemovesAfter st i w l.containers c₂)) ∧
        (∀ m' ∈ c, m'.thread = i → m'.starts st = []) ∧
        (∀ c' s', Chronicle st s c' s' → ∀ m' ∈ c ++ c', (∃ jobs, StartedBy st i c m'.thread jobs) →
          ∀ handle ∈ m'.starts st, handle = l.handle) ∧
        (st.env.runtime.NamesFirst → l.containers.head? = some l.handle) := by
  obtain ⟨d, m, d', alias_, rfl, hm, hd, hret⟩ := h.controls hb
  refine ⟨m, by simp, hm.thread, alias_, hm.job, fun l hk hl => ?_⟩
  obtain ⟨watcher, r, e, b', e', rfl, he, hsilent, hat, hret', hwatched, hrestarter, hjobs⟩ :=
    hret.recorded hm hk hl
  have hprefix : Chronicle st m.before (m :: e) b' := hm.chronicle.trans he
  obtain ⟨c₁, c₂, rfl, hcounted, hended, hattends⟩ := hret'.awaited hat
    (fun hr => (hrestarter (Int.ne_of_gt hr)).lt hprefix hm.unbroken)
    (fun w hw => by
      obtain rfl := hw
      exact hwatched.2.lt hprefix hm.unbroken)
  have hsub : m :: e ⊆ d ++ m :: e := List.subset_append_right _ _
  have hserves : ∀ m' ∈ d ++ m :: (e ++ (c₁ ++ c₂)), m'.thread = i → m'.Serves st l := by
    intro m' hm' hi
    rcases List.mem_append.1 hm' with hm' | hm'
    · exact .inl (hd.jobs m' hm' hi)
    rcases List.mem_cons.1 hm' with rfl | hm'
    · exact .inr (.inl ⟨_, hm.job, hl⟩)
    rcases List.mem_append.1 hm' with hm' | hm'
    · exact (hjobs m' hm' hi).imp_right fun ⟨w, ch, hj⟩ => .inr ⟨_, w, ch, hj⟩
    · exact .inl (hattends m' hm' hi)
  refine ⟨⟨d ++ m :: e, c₁, c₂, by simp, ?_, ?_, ?_⟩, fun m' hm' hi => ?_, fun c' s' hc' m' hm' hstarted => ?_,
    fun hfirst => hfirst task _ l hl⟩
  · have hlaunch : m.removals st = [] := Moment.removals_eq_nil hm.stepped (by simp [Job.notes])
    rw [removals_append, hd.calls, ← List.singleton_append, removals_append, removals_singleton hm.thread,
      hlaunch, hsilent]
    rfl
  · by_cases hr : 0 < a.repeats
    · rw [if_pos hr] at hcounted ⊢
      exact ⟨r, (hrestarter (Int.ne_of_gt hr)).mono hsub, hcounted⟩
    · rwa [if_neg hr] at hcounted ⊢
  · cases watcher with
    | none =>
      rw [if_pos (show a.until_.isEmpty = true from hwatched)]
      exact hended
    | some w =>
      rw [if_neg (by rw [hwatched.1]; exact Bool.false_ne_true)]
      exact ⟨w.1, w.2, hwatched.2.mono hsub, hended⟩
  · obtain ⟨f, f', heq⟩ := List.append_of_mem hm'
    have hstep := (heq ▸ h.chronicle).stepped h.unbroken
    exact (hserves m' hm' hi).starts hstep
  · obtain ⟨jobs, hstarted⟩ := hstarted
    exact hstarted.starts h.chronicle hc' h.unbroken hserves hm'

end

/-! ## A task that is restarted once and then ended -/

/-- A task with two containers. -/
def pairTask : Task := { describe := "pair", image := "busybox", command := ["echo", "again"], concurrency := 2 }

def pairAction : Action := { alias_ := "watched", repeats := 1, until_ := "$\x7bwatched\x7d == mock-1" }

/-- The first container has exited when it is asked for a second time, and the first removal fails. -/
def pairScope : Scope (Faulty (World Rehearsal)) :=
  rehearsalScope { statuses := [("mock-1", [.ok .running, .ok .exited])] }
    { remove := [some (.command "busy")] }

def pairStart : State (Faulty (World Rehearsal)) := State.ofJobs pairScope [.control pairTask pairAction]

def pairRun : List (Moment (Faulty (World Rehearsal))) × State (Faulty (World Rehearsal)) :=
  pairStart.chronicle (rehearsed {}) (fun s => s.finished 0) 40 0

def pairLaunch : Launch := ⟨"mock-1", ["mock-1", "mock-2"], some [none, none]⟩

/-- A thread that is not done has jobs left. -/
theorem not_at_nil {s : State σ} {i : ThreadId} (h : s.finished i = false) : ¬s.At i [] := by
  rintro ⟨t, ht, hj⟩
  unfold State.finished at h
  rw [ht] at h
  simp [Thread.finished, hj] at h

theorem pair_returns : Returns (rehearsed {}) 0 [] pairStart pairRun.1 pairRun.2 := by
  refine ⟨State.chronicle_spec _ _ _ _ _, rfl, fun m hm hi => not_at_nil ?_, ?_⟩
  · have hbusy : ∀ m ∈ pairRun.1, m.thread = 0 → m.before.finished 0 = false := by decide +kernel
    exact hbusy m hm hi
  · have hdone : (pairRun.2.threads[0]?).any (fun t => t.finished && !t.crashed) = true := by decide +kernel
    obtain ⟨t, ht, h⟩ := (Option.any_eq_true _ _).1 hdone
    rw [Bool.and_eq_true, Bool.not_eq_true'] at h
    exact ⟨t, ht, List.isEmpty_iff.1 h.1, h.2⟩

/-- The first container is restarted once.  Both are removed after that, and again when the condition holds,
although the first removal fails. -/
theorem control_removes_pair :
    Returns (rehearsed {}) 0 [] pairStart pairRun.1 pairRun.2 ∧
      pairStart.At 0 [.control pairTask pairAction] ∧
      pairRun.2.noted.any (· matches .remove "mock-1" (.error _)) = true ∧
      (∃ m ∈ pairRun.1, m.starts (rehearsed {}) = ["mock-1"]) ∧
      ∃ c₀ c₁ c₂ r w, pairRun.1 = c₀ ++ c₁ ++ c₂ ∧
        StartedBy (rehearsed {}) 0 c₀ r [.repeatLoop "mock-1" 1] ∧
        RemovesAfter (rehearsed {}) 0 r ["mock-1", "mock-2"] c₁ ∧
        (∃ p alias_, StartedBy (rehearsed {}) 0 c₀ w
          [State.untilJob p alias_ pairAction.until_]) ∧
        RemovesAfter (rehearsed {}) 0 w ["mock-1", "mock-2"] c₂ := by
  have hat : pairStart.At 0 [.control pairTask pairAction] := ⟨_, rfl, rfl⟩
  have hlaunch : ∀ m ∈ pairRun.1, (m.job matches .launch _) = true →
      (m.before.scope.launch (rehearsed {}).env pairTask).1.toOption = some pairLaunch := by
    decide +kernel
  obtain ⟨m, hm, -, alias_, hj, hremoves⟩ := control_removes pair_returns hat
  have hok : (m.before.scope.launch (rehearsed {}).env pairTask).1 = .ok pairLaunch := by
    have := hlaunch m hm (by rw [hj])
    cases hr : (m.before.scope.launch (rehearsed {}).env pairTask).1 with
    | ok l =>
      rw [hr] at this
      exact congrArg _ (Option.some.inj this)
    | error fault =>
      rw [hr] at this
      cases this
  obtain ⟨⟨c₀, c₁, c₂, hc, -, hcounted, hended⟩, -⟩ := hremoves pairLaunch (by decide) hok
  rw [if_pos (by decide)] at hcounted
  rw [if_neg (by decide)] at hended
  obtain ⟨r, hrestarter, hcounted⟩ := hcounted
  obtain ⟨w, p, hwatcher, hended⟩ := hended
  exact ⟨pair_returns, hat, by decide +kernel, by decide +kernel, c₀, c₁, c₂, r, w, hc, hrestarter, hcounted,
    ⟨p, alias_, hwatcher⟩, hended⟩

end Run

end Workload
