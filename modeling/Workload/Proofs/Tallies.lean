import Workload.Proofs.Steps

/-!
# Tallies

A thread has a tally of the signals that it received, of its restarts of a container or of its checks of a condition.
Only the jobs that do these count (`Job.counts`); no other job changes a tally, of its own thread or of another one
(`Stepped.tally`).
-/

namespace Workload.Run

variable {σ α : Type}

namespace State

/-- What was counted stays so, by every thread; threads may have been started. -/
def KeepsTallies (s s' : State σ) : Prop := s.threads.map Thread.tally <+: s'.threads.map Thread.tally

namespace KeepsTallies

variable {s s' s'' : State σ}

theorem of_eq (h : s'.threads = s.threads) : s.KeepsTallies s' := ⟨[], by rw [List.append_nil, h]⟩

theorem refl (s : State σ) : s.KeepsTallies s := of_eq rfl

theorem trans (h : s.KeepsTallies s') (h' : s'.KeepsTallies s'') : s.KeepsTallies s'' :=
  List.IsPrefix.trans h h'

/-- A thread may be changed but for what it has counted. -/
theorem of_modify {i : ThreadId} {f : Thread → Thread} (h : s'.threads = s.threads.modify i f)
    (hf : ∀ t, (f t).tally = t.tally) : s.KeepsTallies s' := by
  have hmap : s'.threads.map Thread.tally = s.threads.map Thread.tally := by
    refine List.ext_getElem? fun k => ?_
    rw [h, List.getElem?_map, List.getElem?_map, List.getElem?_modify]
    rcases s.threads[k]? with _ | t
    · rfl
    · by_cases hk : i = k <;> simp [hk, hf]
  exact ⟨[], (List.append_nil _).trans hmap.symm⟩

theorem push (i : ThreadId) (jobs : List Job) (s : State σ) : s.KeepsTallies (s.push i jobs) :=
  of_modify rfl fun _ => rfl

theorem pop (i : ThreadId) (s : State σ) : s.KeepsTallies (s.pop i) := of_modify rfl fun _ => rfl

theorem cancel (i : ThreadId) (s : State σ) : s.KeepsTallies (s.cancel i) := of_modify rfl fun _ => rfl

theorem crash (i : ThreadId) (s : State σ) : s.KeepsTallies (s.crash i) := of_modify rfl fun _ => rfl

theorem spawn (jobs : List Job) (s : State σ) : s.KeepsTallies (s.spawn jobs) := by
  unfold KeepsTallies State.spawn
  rw [List.map_append]
  exact List.prefix_append _ _

theorem endBroken (i : ThreadId) (s : State σ) : s.KeepsTallies (s.endBroken i) := by
  unfold State.endBroken
  split_ifs
  · exact crash i { s with scope := { s.scope with broken := false } }
  · exact refl s

theorem foldl {f : State σ → α → State σ} (hf : ∀ (s : State σ) (a : α), s.KeepsTallies (f s a)) (l : List α)
    (h : s.KeepsTallies s') : s.KeepsTallies (l.foldl f s') := by
  induction l generalizing s' with
  | nil => exact h
  | cons a l ih => exact ih (h.trans (hf s' a))

theorem getElem? (h : s.KeepsTallies s') {k : ThreadId} {t : Thread} (ht : s.threads[k]? = some t) :
    ∃ t', s'.threads[k]? = some t' ∧ t'.tally = t.tally := by
  obtain ⟨l, hl⟩ := h
  have hget : (s'.threads.map Thread.tally)[k]? = some t.tally := by
    have hmap : (s.threads.map Thread.tally)[k]? = some t.tally := by rw [List.getElem?_map, ht]; rfl
    rw [← hl, List.getElem?_append_left (List.getElem?_eq_some_iff.1 hmap).1, hmap]
  rw [List.getElem?_map] at hget
  exact Option.map_eq_some_iff.1 hget

end KeepsTallies

section

variable (st : Settings σ) (i : ThreadId) (s : State σ)

theorem attempt_threads {ε : Type} (f : Scope σ → Except ε Unit × Scope σ) (warning : LogLine) :
    (s.attempt f warning).threads = s.threads := by
  unfold attempt within
  rcases f s.scope with ⟨r, sc⟩
  cases r <;> rfl

theorem terminate_threads (code : Int) : (s.terminate code).threads = s.threads := by
  unfold terminate
  split_ifs <;> rfl

theorem makeOpeningCall_threads (c : OpeningCall) : (s.makeOpeningCall st c).2.threads = s.threads := by
  cases c <;> rfl

theorem opening_keepsTallies (calls : List OpeningCall) (inv : Invocation) :
    s.KeepsTallies (s.opening st i calls inv) := by
  unfold opening
  cases calls with
  | nil =>
    simp only []
    unfold opened
    simp only []
    split_ifs
    · exact (KeepsTallies.spawn _ s).trans (.push i _ _)
    · exact .push i _ s
    · exact .of_eq rfl
  | cons c cs =>
    have ht := makeOpeningCall_threads st s c
    rcases hr : s.makeOpeningCall st c with ⟨r, s'⟩
    rw [hr] at ht
    have hs' : s.KeepsTallies s' := .of_eq ht
    simp only [hr]
    cases r with
    | ok _ => exact hs'.trans (.push i _ s')
    | error fault =>
      refine hs'.trans (.of_eq ?_)
      simp only []
      unfold openingFailed
      split_ifs <;> rfl

theorem saveLogs_threads : (s.saveLogs st).threads = s.threads := by
  unfold saveLogs
  split
  · exact attempt_threads s _ _
  · rfl

theorem removeServers_threads : (s.removeServers st).threads = s.threads := by
  unfold removeServers
  split
  · exact attempt_threads s _ _
  · rfl

theorem clientOp_threads (op : ClientOp) : (s.clientOp st op).threads = s.threads := by
  unfold clientOp
  split
  · rfl
  · split
    · exact attempt_threads (s.note _) _ _
    · exact attempt_threads (s.note _) _ _
    · exact attempt_threads (s.note _) _ _
    · exact attempt_threads (s.note _) _ _
    · exact attempt_threads (s.note _) _ _
    · rfl

theorem includeFiles_keepsTallies (files : String) : s.KeepsTallies (s.includeFiles st files) := by
  unfold includeFiles
  refine .foldl (fun s path => ?_) _ (.foldl ?_ _ (.refl s))
  · unfold includeFile
    split <;> exact .of_eq rfl
  · exact fun s _ => .of_eq rfl

theorem enter_keepsTallies (pass : Nat) {r : Option (List Action) × State σ} (hr : r.2.threads = s.threads) :
    s.KeepsTallies (enter i pass r) := by
  have hs : s.KeepsTallies r.2 := .of_eq hr
  obtain ⟨_ | actions, s'⟩ := r
  · exact hs
  · exact hs.trans (.push i _ s')

theorem unrolled_threads (a : Action) : (s.unrolled st a).2.threads = s.threads := by
  unfold unrolled within
  rcases s.scope.evaluate st.env a.loopExpression with ⟨r, sc⟩
  cases r with
  | error _ => rfl
  | ok text =>
    simp only []
    split <;> rfl

theorem referred_threads (a : Action) : (s.referred st a).2.threads = s.threads := by
  unfold referred within
  split
  · rfl
  · rcases s.scope.evaluate st.env a.args with ⟨r, sc⟩
    cases r <;> rfl

theorem changeScope_keepsTallies (spec : String) : s.KeepsTallies (s.changeScope st i spec) := by
  have ht : (s.scopePath st spec).2.threads = s.threads := by
    unfold scopePath within
    rcases s.scope.evaluate st.env spec with ⟨r, sc⟩
    cases r <;> rfl
  unfold changeScope
  rcases hr : s.scopePath st spec with ⟨path, s'⟩
  rw [hr] at ht
  have hs' : s.KeepsTallies s' := .of_eq ht
  simp only []
  split
  · exact hs'.trans (.push i _ s')
  · exact hs'

theorem walk_keepsTallies (pass : Nat) (last : Option Action) (rest : List Action) :
    s.KeepsTallies (s.walk st i pass last rest) := by
  unfold walk
  split
  · exact .refl s
  simp only []
  split
  · exact .push i _ s
  · rename_i a rest _ _
    refine (KeepsTallies.push i [.walk pass last rest] s).trans ?_
    generalize s.push i [.walk pass last rest] = s
    unfold resolve
    split
    · exact .of_eq (clientOp_threads st s _)
    · exact changeScope_keepsTallies st i s _
    · unfold nestedTest
      split
      · exact .push i _ (s.note _)
      · exact .of_eq rfl
    · exact includeFiles_keepsTallies st s _
    · exact enter_keepsTallies i s pass (unrolled_threads st s _)
    · exact enter_keepsTallies i s pass (referred_threads st s _)
    · exact .refl s

theorem provideScope_threads (target : Topology) : (s.provideScope st target).threads = s.threads := by
  unfold provideScope
  split
  · rfl
  · simp only []
    split_ifs <;> exact attempt_threads s _ _

theorem dispatch_keepsTallies (a : Action) : s.KeepsTallies (s.dispatch st i a) := by
  unfold dispatch within
  rcases st.decide a s.scope with ⟨_ | task | _, sc⟩
  · exact .of_eq rfl
  · simp only []
    split_ifs
    · exact .of_eq rfl
    · exact .push i _ { s with scope := sc }
    · exact (KeepsTallies.spawn _ { s with scope := sc }).trans (.push i _ _)
  · exact .crash i { s with scope := sc }

theorem control_keepsTallies (task : Task) (a : Action) : s.KeepsTallies (s.control st i task a) := by
  unfold control aliasOf
  simp only []
  split_ifs
  · exact .push i _ { s with draws := st.env.drawn s.draws.length :: s.draws }
  · exact .push i _ { s with draws := st.env.drawn s.draws.length :: s.draws }
  · exact .push i _ s
  · exact .push i _ s

theorem gate_keepsTallies (condition : String) : s.KeepsTallies (s.gate st i condition) := by
  unfold gate within
  rcases s.scope.check st.env condition with ⟨b, sc⟩
  cases b
  · exact .push i _ { s with scope := sc }
  · exact .of_eq rfl

theorem launched_keepsTallies (k : Ticket) (watcher : Option (ThreadId × PromiseId)) (l : Launch) (c : ChannelId) :
    s.KeepsTallies (s.launched i k watcher l c) := by
  unfold launched
  simp only []
  refine (KeepsTallies.spawn [.drain c k.task.describe k.task.instances] s).trans ?_
  refine .trans ?_ (.push i _ _)
  split_ifs
  · cases watcher <;> exact .of_eq rfl
  · cases watcher <;> exact .spawn _ (s.spawn _)

theorem created_keepsTallies (k : Ticket) (watcher : Option (ThreadId × PromiseId)) (l : Launch) :
    s.KeepsTallies (s.created i k watcher l) := by
  unfold created
  simp only []
  split
  · exact launched_keepsTallies i (s.openChannel _) k watcher l _
  · split_ifs
    · refine .trans ?_ (launched_keepsTallies i _ k watcher l _)
      exact .foldl (fun s _ => .spawn _ s) _ (.of_eq rfl)
    · refine .trans ?_ (.push i _ _)
      exact .foldl (fun s _ => .spawn _ s) _ (.of_eq rfl)

theorem forsake_keepsTallies (watcher : Option (ThreadId × PromiseId)) : s.KeepsTallies (s.forsake watcher) := by
  cases watcher with
  | none => exact .refl s
  | some w => exact .cancel w.1 s

theorem launch_keepsTallies (k : Ticket) : s.KeepsTallies (s.launch st i k) := by
  have hwatcher : s.KeepsTallies (s.spawnWatcher k).2 := by
    unfold spawnWatcher
    split_ifs
    · exact .refl s
    · exact .spawn _ s.openPromise
  unfold launch
  split_ifs
  · exact .refl s
  rcases hw : s.spawnWatcher k with ⟨watcher, s'⟩
  rw [hw] at hwatcher
  refine hwatcher.trans ?_
  unfold within
  simp only []
  rcases s'.scope.launch st.env k.task with ⟨r, sc⟩
  simp only []
  split_ifs
  · exact forsake_keepsTallies { s' with scope := sc } watcher
  · cases r with
    | ok l => exact created_keepsTallies i { s' with scope := sc } k watcher l
    | error fault =>
      simp only []
      unfold refused
      simp only []
      refine KeepsTallies.trans ?_ (.push i _ _)
      exact forsake_keepsTallies (note _ { s' with scope := sc }) watcher

theorem removeAll_keepsTallies (handles : List String) : s.KeepsTallies (s.removeAll st i handles) := by
  unfold removeAll
  split
  · exact .refl s
  · exact .push i _ _

theorem failed_keepsTallies (describe : String) (fault : RuntimeFault) :
    s.KeepsTallies (s.failed st i describe fault) := by
  unfold failed
  simp only []
  have hpush : s.KeepsTallies
      (((s.record (.failed describe fault)).note (.error "task failed")).push i [.stopOnError]) :=
    .push i _ s
  split_ifs
  · refine hpush.trans ?_
    unfold collect
    split
    · exact .refl _
    · split_ifs
      · exact .refl _
      · exact .push i _ _
  · exact hpush
  · exact .of_eq rfl

theorem awaitLaunch_keepsTallies (p : PromiseId) (condition : String) :
    s.KeepsTallies (s.awaitLaunch i p condition) := by
  unfold awaitLaunch
  split
  · exact .push i _ s
  · exact .refl s

theorem tell_keepsTallies (c : ChannelId) (r : Except RuntimeFault Unit) : s.KeepsTallies (s.tell i c r) := by
  unfold tell
  split_ifs
  · exact .of_eq rfl
  · exact .push i _ s

theorem watch_keepsTallies (task : Task) (id : String) (c : ChannelId) : s.KeepsTallies (s.watch st i task id c) := by
  unfold watch
  simp only []
  split
  · exact tell_keepsTallies i (s.within _).2 c _
  · split_ifs <;> exact .push i _ _

end

end State

/-- Whether a job counts something. -/
def Job.counts : Job → Bool
  | .drain .. | .repeatLoop .. | .untilLoop .. => true
  | _ => false

open State in
theorem Job.perform_keepsTallies {j : Job} (hj : j.counts = false) (st : Settings σ) (i : ThreadId) (s : State σ) :
    s.KeepsTallies (j.perform st i s) := by
  cases j with
  | opening calls inv => exact opening_keepsTallies st i s calls inv
  | passes inv limit pass =>
    simp only [Job.perform]
    unfold State.passes
    split_ifs <;> exact .push i _ s
  | reclaim | teardown | leaveScope | enterScope => exact .of_eq (attempt_threads s _ _)
  | emit | setLoops | endCollection | settlePromise | send | wake | join | hang => exact .of_eq rfl
  | saveLogs => exact .of_eq (saveLogs_threads st s)
  | removeServers => exact .of_eq (removeServers_threads st s)
  | elapsed => exact .of_eq (terminate_threads (s.note _) 0)
  | walk pass last rest => exact walk_keepsTallies st i s pass last rest
  | provideScope target => exact .of_eq (provideScope_threads st s target)
  | dispatch a => exact dispatch_keepsTallies st i s a
  | control task a => exact control_keepsTallies st i s task a
  | gate condition => exact gate_keepsTallies st i s condition
  | launch k => exact launch_keepsTallies st i s k
  | launched k watcher l c => exact launched_keepsTallies i s k watcher l c
  | removeAll handles => exact removeAll_keepsTallies st i s handles
  | failed describe fault => exact failed_keepsTallies st i s describe fault
  | stopOnError =>
    simp only [Job.perform]
    unfold State.stopOnError
    split_ifs
    · exact .of_eq (terminate_threads s 1)
    · exact .refl s
  | awaitLaunch p condition => exact awaitLaunch_keepsTallies i s p condition
  | watch task id c => exact watch_keepsTallies st i s task id c
  | expire task id c =>
    exact tell_keepsTallies i (s.within fun sc => sc.ask (st.env.runtime.expire task id)).2 c _
  | sleep => exact .push i _ _
  | drain | repeatLoop | untilLoop => cases hj

/-- A job that counts nothing leaves every thread its tally. -/
theorem Stepped.tally {st : Settings σ} {i k : ThreadId} {j : Job} {s s' : State σ} {t : Thread}
    (h : Stepped st i j s s') (hj : j.counts = false) (ht : s.threads[k]? = some t) :
    ∃ t', s'.threads[k]? = some t' ∧ t'.tally = t.tally := by
  have hkeeps : s.KeepsTallies s' := by
    rw [h.result]
    exact (State.KeepsTallies.pop i s).trans ((Job.perform_keepsTallies hj st i _).trans (.endBroken i _))
  exact hkeeps.getElem? ht

end Workload.Run
