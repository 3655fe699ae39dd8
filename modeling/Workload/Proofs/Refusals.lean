import Workload.Proofs.Exits
import Workload.Proofs.Watchers

/-!
# Refused launches

A thread that controls a task does nothing but wait until it launches the task (`Chronicle.approaches`).  If the
launch is refused, that is noted in the report and handed over to whoever reacts to it, and the thread is done
with the task (`Stepped.refused`).  The thread that waits for the end of the task, the only one that is there
by then, has had no turn and gets none, however long the runtime takes (`Chronicle.unkept`); all of it makes up
`refusal_leaves_nothing`.
-/

namespace Workload.Run

variable {σ : Type}

/-! ## On the way to the launch -/

section

variable {st : Settings σ} {i : ThreadId} {js jobs : List Job} {b s s' : State σ} {c : List (Moment σ)}
  {j : Job} {k : Ticket} {task : Task} {a : Action}

/-- A thread that waits for a launch is about to do it, or goes on to wait. -/
theorem Ticket.Gated.cases (h : k.Gated jobs) :
    jobs = [.launch k] ∨ ∃ x rest, jobs = x :: rest ∧ x.attends = true ∧
      ∀ (s s' : State σ) new spawned, x.Yields st s s' new spawned → k.Gated (new ++ rest) := by
  cases h with
  | launch => exact .inl rfl
  | gate condition =>
    refine .inr ⟨_, _, rfl, rfl, ?_⟩
    rintro s s' new spawned ⟨rfl | rfl, -⟩
    · exact .launch
    · exact .sleep _ condition
  | sleep ms condition =>
    refine .inr ⟨_, _, rfl, rfl, ?_⟩
    rintro s s' new spawned ⟨rfl, -⟩
    exact .wake _ condition
  | wake time condition =>
    refine .inr ⟨_, _, rfl, rfl, ?_⟩
    rintro s s' new spawned ⟨rfl, -⟩
    exact .gate condition

/-- A task on its way to its launch, or one whose control breaks off before that. -/
inductive Approaching (task : Task) (a : Action) (js : List Job) : List Job → Prop
  | controls : Approaching task a js (.control task a :: js)
  | waits (k : Ticket) (x : List Job) : k.task = task → k.repeats = a.repeats → k.until_ = a.until_ →
    k.Gated x → Approaching task a js (x ++ js)
  | broken : Approaching task a js []

/-- Until it launches the task, a thread that controls it does what it does besides the launch. -/
theorem Chronicle.approaches (hc : Chronicle st b c s) (hb : b.scope.broken = false)
    (hat : b.At i (.control task a :: js)) (hfirst : ∀ x ∈ c, x.thread = i → ∀ k, x.job ≠ .launch k) :
    (∀ x ∈ c, x.thread = i → x.job.attends = true) ∧ ∃ jobs, s.At i jobs ∧ Approaching task a js jobs := by
  refine hc.invariant (P := fun c s => (∀ x ∈ c, x.thread = i → ∀ k, x.job ≠ .launch k) →
    (∀ x ∈ c, x.thread = i → x.job.attends = true) ∧ ∃ jobs, s.At i jobs ∧ Approaching task a js jobs) hb
    (fun _ => ⟨fun x hx => (nomatch hx), _, hat, .controls⟩) ?_ (fun _ _ _ hs _ _ => hs) hfirst
  rintro c t x s s' hs hstep - hfirst
  obtain ⟨hattends, jobs, hat, happroach⟩ := hs fun y hy => hfirst y (List.mem_append_left _ hy)
  have hmore : (t = i → x.attends = true) → ∀ y ∈ c ++ [(⟨s, t, x⟩ : Moment σ)], y.thread = i →
      y.job.attends = true := by
    intro hx y hy hi
    rcases List.mem_append.1 hy with hy | hy
    · exact hattends y hy hi
    · obtain rfl := List.mem_singleton.1 hy
      exact hx hi
  by_cases ht : t = i
  swap
  · exact ⟨hmore fun h => absurd h ht, jobs, hstep.at_other ht hat, happroach⟩
  subst ht
  obtain ⟨rest, rfl⟩ := hstep.eq_cons hat
  obtain ⟨new, spawned, hy, hat'⟩ := hstep.at_self hat
  have hgoes : x.attends = true → Approaching task a js (new ++ rest) →
      (∀ y ∈ c ++ [(⟨s, t, x⟩ : Moment σ)], y.thread = t → y.job.attends = true) ∧
        ∃ jobs, s'.At t jobs ∧ Approaching task a js jobs := by
    intro hx hnew
    refine ⟨hmore fun _ => hx, ?_⟩
    rcases hat' with hat' | ⟨-, hat'⟩
    · exact ⟨_, hat', hnew⟩
    · exact ⟨_, hat', .broken⟩
  generalize hjobs : x :: rest = jobs at happroach
  cases happroach with
  | controls =>
    obtain ⟨rfl, rfl⟩ := List.cons.inj hjobs
    obtain ⟨-, alias_, rfl⟩ := hy
    refine hgoes rfl (.waits ⟨task, alias_, a.repeats, a.until_⟩ _ rfl rfl rfl ?_)
    split_ifs
    · exact .launch
    · exact .gate a.before
  | waits k y htask hrepeats huntil hgated =>
    rcases hgated.cases with rfl | ⟨z, rest', rfl, hz, hgoesOn⟩
    · obtain ⟨rfl, rfl⟩ := List.cons.inj hjobs
      exact absurd rfl (hfirst ⟨s, t, .launch k⟩ (by simp) rfl k)
    · obtain ⟨rfl, rfl⟩ := List.cons.inj hjobs
      have hwaits : Approaching task a js ((new ++ rest') ++ js) :=
        .waits k _ htask hrepeats huntil (hgoesOn s s' new spawned hy)
      rw [List.append_assoc] at hwaits
      exact hgoes hz hwaits
  | broken => cases hjobs

/-- A thread that comes to launch a task does so for the action that it controls the task for. -/
theorem Approaching.launches (h : Approaching task a js (.launch k :: jobs)) :
    k.task = task ∧ k.repeats = a.repeats ∧ k.until_ = a.until_ ∧ jobs = js := by
  generalize hjobs : Job.launch k :: jobs = jobs' at h
  cases h with
  | controls => cases hjobs
  | waits k' y htask hrepeats huntil hgated =>
    cases hgated with
    | launch =>
      obtain ⟨heq, rfl⟩ := List.cons.inj hjobs
      obtain rfl := Job.launch.inj heq
      exact ⟨htask, hrepeats, huntil, rfl⟩
    | _ => cases (List.cons.inj hjobs).1
  | broken => cases hjobs

/-- What a thread does for a task besides the launch leaves the report, the aliases and the other threads. -/
theorem Stepped.attends (h : Stepped st i j s s') (hj : j.attends = true) :
    s'.report = s.report ∧ s'.scope.aliases = s.scope.aliases ∧ s'.threads.length = s.threads.length := by
  have hboard : s'.board = s.board := by
    have hposts := h.board
    cases j with
    | control | gate | sleep | wake | join | removeAll => exact hposts
    | _ => cases hj
  refine ⟨congrArg Board.report hboard, h.keeps.aliases ?_ ?_, ?_⟩
  · rintro k rfl
    cases hj
  · rintro k w l c rfl
    cases hj
  · obtain ⟨v, js, v', new, spawned, -, -, hy, hth, -⟩ := h.moves
    rw [spawned_of_attends hy hj] at hth
    rw [hth, List.length_append, List.length_set]
    rfl

end

/-! ## The refusal -/

section

variable {st : Settings σ} {i t : ThreadId} {js : List Job} {b s s' : State σ} {c : List (Moment σ)}
  {k : Ticket} {fault : RuntimeFault}

/-- A launch that is refused is noted in the report and handed over, and starts no thread that has something
to do. -/
theorem Stepped.refused (h : Stepped st i (.launch k) s s') (hat : s.At i (.launch k :: js))
    (hcommand : k.task.command ≠ []) (hl : (s.scope.launch st.env k.task).1 = .error fault)
    (hunbroken : (s.scope.launch st.env k.task).2.broken = false) :
    s'.scope.aliases = s.scope.aliases ∧ s'.report = s.report.fail k.task.describe fault.message ∧
      s'.scope.trace = ⟨s.scope.clock, .run k.task (.error fault)⟩ :: s.scope.trace ∧
      s'.At i (.failed k.task.describe fault :: js) ∧
      ∃ t', s'.threads = s.threads.set i t' ++
        (k.watchers s.promises.length).map fun _ => Thread.ofJobs [] := by
  obtain ⟨v, hv, hjobs⟩ := hat
  have hpop : (s.pop i).threads[i]? = some { v with jobs := js } := by
    rw [State.pop_getElem? hv, hjobs, List.tail_cons]
  have hresult : (s.pop i).launch st i k =
      ((s.pop i).asked st k).refused i k ((s.pop i).spawnWatcher k).1 fault := by
    rw [State.launch_eq st i (s.pop i) k hcommand, if_neg]
    · rw [show ((s.pop i).scope.launch st.env k.task).1 = .error fault from hl]
    · rw [Bool.not_eq_true]
      exact hunbroken
  have hs' : s' = ((s.pop i).asked st k).refused i k ((s.pop i).spawnWatcher k).1 fault := by
    rw [h.result, ← hresult]
    refine State.endBroken_of_unbroken ?_ i
    show ((s.pop i).launch st i k).scope.broken = false
    rw [hresult, State.refused_broken]
    exact hunbroken
  have hasked : ((s.pop i).asked st k).report = s.report := by
    unfold State.asked State.spawnWatcher
    split_ifs <;> rfl
  have hrests : s.scope.Rests (s.scope.launch st.env k.task).2 := Scope.rests_call _ _ _
  have hmoves : State.Moves [.run] i [.failed k.task.describe fault]
      ((k.watchers s.promises.length).map fun _ => []) (s.pop i) s' := by
    rw [hs']
    exact State.asked_refused st i (s.pop i) k fault
  refine ⟨?_, ?_, ?_, (hmoves.leaves ⟨_, hpop, rfl⟩).1, ?_⟩
  · rw [hs', State.refused_aliases]
    exact hrests.aliases
  · rw [hs', ← hasked]
    exact congrArg Board.report (State.refused_board i _ k _ fault)
  · rw [hs', State.refused_trace, ← hl]
    exact Scope.call_trace hunbroken
  · obtain ⟨n, hthreads⟩ := hmoves.threads _ hpop
    rw [State.pop_threads hv, List.set_set, List.map_map] at hthreads
    exact ⟨_, hthreads⟩

/-- What a failure leaves for its thread: nothing, or the end of the run, behind a collection of diagnostics. -/
inductive Reacts (st : Settings σ) : List Job → Prop
  | ignored : st.escalates = false → Reacts st []
  | stops : Reacts st [.stopOnError]
  | collects (spec : CollectSpec) (loops : Nat) : st.config.collect = some spec →
    Reacts st [.setLoops loops, .walk loops none spec.actions, .endCollection, .stopOnError]

/-- A failure is handed over, and its thread goes on with what this leads to. -/
theorem Stepped.handsOver {describe : String} (h : Stepped st i (.failed describe fault) s s')
    (hb : s.scope.broken = false) (hat : s.At i (.failed describe fault :: js)) :
    (⟨s, i, .failed describe fault⟩ : Moment σ).calls st = [.failed describe fault] ∧ s'.report = s.report ∧
      s'.scope.aliases = s.scope.aliases ∧ ∃ reaction, Reacts st reaction ∧ s'.At i (reaction ++ js) := by
  have hresult : s' = (s.pop i).failed st i describe fault := h.of_steady rfl hb
  have htrace : s'.scope.trace = [⟨s.scope.clock, .failed describe fault⟩] ++ s.scope.trace := by
    rw [hresult]
    exact failed_trace (s := s.pop i) describe fault hb
  obtain ⟨x, hboard⟩ := h.board
  refine ⟨h.calls_eq htrace, congrArg Board.report hboard,
    h.keeps.aliases (fun _ hj => nomatch hj) (fun _ _ _ _ hj => nomatch hj), ?_⟩
  obtain ⟨new, spawned, ⟨-, hnew⟩, hat' | ⟨hns, -⟩⟩ := h.at_self hat
  swap
  · cases hns
  refine ⟨new, ?_, hat'⟩
  rcases hnew with ⟨hno, rfl, -⟩ | ⟨rfl, -⟩ | ⟨spec, hspec, -, -, rfl⟩
  · exact .ignored hno
  · exact .stops
  · exact .collects spec _ hspec

end

/-! ## A runtime that takes its time -/

/-- Nobody is left to keep a promise. -/
def Unkept (p : PromiseId) (s : State σ) : Prop :=
  s.promises[p]? = some .pending ∧ s.Stacks fun jobs => ∀ j ∈ jobs, j.settles? ≠ some p

section

variable {st : Settings σ} {i w : ThreadId} {p : PromiseId} {condition : String} {b s s' : State σ}
  {c : List (Moment σ)} {k : Ticket} {fault : RuntimeFault}

theorem State.Sealed.pop (hs : s.Sealed) (i : ThreadId) : (s.pop i).Sealed := by
  intro u hu j hj
  obtain ⟨n, hn⟩ := List.mem_iff_getElem?.1 hu
  unfold State.pop at hn
  rw [List.getElem?_modify] at hn
  obtain ⟨v, hv, rfl⟩ := Option.map_eq_some_iff.1 hn
  refine hs v (List.mem_of_getElem? hv) j ?_
  split_ifs at hj
  · exact List.mem_of_mem_tail hj
  · exact hj

/-- A thread that waits for a promise that nobody is left to keep does nothing, whatever other threads do. -/
theorem Chronicle.unkept (hc : Chronicle st b c s) (hb : b.scope.broken = false) (hp : Unkept p b)
    (hw : b.threads[w]? = some (Thread.ofJobs [.awaitLaunch p condition])) :
    (∀ x ∈ c, x.thread ≠ w) ∧ s.threads[w]? = some (Thread.ofJobs [.awaitLaunch p condition]) := by
  have hall : Unkept p s ∧ (∀ x ∈ c, x.thread ≠ w) ∧
      s.threads[w]? = some (Thread.ofJobs [.awaitLaunch p condition]) := by
    refine hc.invariant (P := fun c s => Unkept p s ∧ (∀ x ∈ c, x.thread ≠ w) ∧
      s.threads[w]? = some (Thread.ofJobs [.awaitLaunch p condition])) hb ⟨hp, fun x hx => (nomatch hx), hw⟩ ?_
      fun _ _ _ hs _ _ => hs
    rintro c t x s s' ⟨⟨hpending, hnobody⟩, hquiet, hw⟩ hstep -
    obtain ⟨v, js, v', new, spawned, hv, hjobs, -, hth, -⟩ := hstep.moves
    have hlen : p < s.promises.length := (List.getElem?_eq_some_iff.1 hpending).1
    have hx : x.settles? ≠ some p := hnobody v (List.mem_of_getElem? hv) x (hjobs ▸ List.mem_cons_self)
    have ht : t ≠ w := by
      rintro rfl
      obtain rfl := Option.some.inj (hv.symm.trans hw)
      obtain rfl := (List.cons.inj hjobs).1
      have hready : decide (s.promises[p]? = some .pending) = false := hstep.ready
      rw [hpending, decide_eq_true rfl] at hready
      cases hready
    refine ⟨⟨(hstep.promises.2.1 hlen hx).trans hpending, fun u hu j hj hp => ?_⟩, fun y hy => ?_,
      Stepped.getElem?_other hth ht hw⟩
    · obtain ⟨n, hn⟩ := List.mem_iff_getElem?.1 hu
      rcases hstep.settlers hn hj hp with ⟨u', hu', hj⟩ | ⟨-, heq, -⟩
      · exact hnobody u' (List.mem_of_getElem? hu') j hj hp
      · exact absurd heq (Nat.ne_of_lt hlen)
    · rcases List.mem_append.1 hy with hy | hy
      · exact hquiet y hy
      · obtain rfl := List.mem_singleton.1 hy
        exact ht
  exact hall.2

/-- The thread that is started before the launch waits for a promise that nobody but the launch can keep. -/
theorem spawnWatcher_unkept (hs : s.Sealed) (huntil : k.until_.isEmpty = false) :
    (s.spawnWatcher k).1 = some (s.threads.length, s.promises.length) ∧
      Unkept s.promises.length (s.spawnWatcher k).2 ∧
      (s.spawnWatcher k).2.threads[s.threads.length]? =
        some (Thread.ofJobs [State.untilJob s.promises.length k.alias_ k.until_]) := by
  unfold State.spawnWatcher
  rw [if_neg (by rw [huntil]; exact Bool.false_ne_true)]
  refine ⟨rfl, ⟨List.getElem?_concat_length, fun u hu j hj hp => ?_⟩, List.getElem?_concat_length⟩
  rcases List.mem_append.1 hu with hu | hu
  · exact absurd (hs u hu j hj _ hp) (Nat.lt_irrefl _)
  · obtain rfl := List.mem_singleton.1 hu
    obtain rfl := List.mem_singleton.1 hj
    cases hp

/-- The thread that waits for a launch has nothing left to do when it is refused. -/
theorem refused_ends {u : Thread} (hw : s.threads[w]? = some u) (hi : i ≠ w) :
    (s.refused i k (some (w, p)) fault).At w [] := by
  refine ⟨{ u with jobs := [] }, ?_, rfl⟩
  show ((s.threads.modify w fun t => { t with jobs := [] }).modify i _)[w]? = _
  rw [List.getElem?_modify_ne _ _ hi, List.getElem?_modify_eq, hw]
  rfl

/-- However long the runtime takes to refuse a launch, the thread that waits for the end of the task does nothing
meanwhile, and nothing afterwards. -/
theorem refused_unattended {s₁ : State σ} {d : List (Moment σ)} (hs : s.Sealed) (hb : s.scope.broken = false)
    (hi : i < s.threads.length) (huntil : k.until_.isEmpty = false)
    (hd : Chronicle st (s.spawnWatcher k).2 d s₁) :
    (∀ x ∈ d, x.thread ≠ s.threads.length) ∧
      ∀ d' s₂, Chronicle st (s₁.refused i k (s.spawnWatcher k).1 fault) d' s₂ →
        ∀ x ∈ d', x.thread ≠ s.threads.length := by
  obtain ⟨hwatcher, hunkept, hwaits⟩ := spawnWatcher_unkept hs huntil
  have hspawned : (s.spawnWatcher k).2.scope.broken = false :=
    (congrArg Scope.broken (State.spawnWatcher_goesOn i s k).2.2.1).trans hb
  obtain ⟨hquiet, hwaiting⟩ := hd.unkept hspawned hunkept hwaits
  refine ⟨hquiet, fun d' s₂ hd' => ?_⟩
  rw [hwatcher] at hd'
  obtain ⟨u, hu, hended⟩ := refused_ends hwaiting (Nat.ne_of_lt hi)
  exact (hd'.ended ((State.refused_broken ..).trans (hd.unbroken hspawned)) hu hended).2

end

/-! ## The whole of it -/

section

variable {st : Settings σ} {i : ThreadId} {js : List Job} {b s : State σ} {c₁ c₂ : List (Moment σ)} {m : Moment σ}
  {k : Ticket} {task : Task} {a : Action} {fault : RuntimeFault}

/-- The thread that controls a task comes to launch it, and is refused.  Until then it has left the report, the
aliases and the threads as they were.  Then there is one more entry in the report and the aliases are still as
they were; what comes next for the thread is to hand the failure over, once, and after what this leads to it is
done with the task.  No thread that it has started does anything from then on; and that holds of the one that
waits for the end of the task also while the runtime takes its time to refuse the launch. -/
theorem refusal_leaves_nothing (hb : b.scope.broken = false) (hat : b.At i (.control task a :: js))
    (hc : Chronicle st b (c₁ ++ m :: c₂) s) (hi : m.thread = i) (hj : m.job = .launch k)
    (hfirst : ∀ x ∈ c₁, x.thread = i → ∀ k, x.job ≠ .launch k) (hcommand : task.command ≠ [])
    (hl : (m.before.scope.launch st.env task).1 = .error fault)
    (hunbroken : (m.before.scope.launch st.env task).2.broken = false) :
    (k.task = task ∧ k.repeats = a.repeats ∧ k.until_ = a.until_) ∧
    (∀ x ∈ c₁, x.thread = i → x.job.attends = true ∧ (x.after st).report = x.before.report ∧
      (x.after st).scope.aliases = x.before.scope.aliases) ∧
    (m.calls st = [.run task (.error fault)] ∧ (m.after st).scope.aliases = m.before.scope.aliases ∧
      (m.after st).report.entries =
        m.before.report.entries ++ [⟨false, task.describe, some fault.message⟩]) ∧
    (s.At i (.failed task.describe fault :: js) ∧ s.enabled i = true ∧ (∀ x ∈ c₂, x.thread ≠ i) ∨
      ∃ d y e, c₂ = d ++ y :: e ∧ (∀ x ∈ d, x.thread ≠ i) ∧ y.thread = i ∧
        y.job = .failed task.describe fault ∧ y.calls st = [.failed task.describe fault] ∧
        (y.after st).report = y.before.report ∧ (y.after st).scope.aliases = y.before.scope.aliases ∧
        ∃ reaction, Reacts st reaction ∧ (y.after st).At i (reaction ++ js)) ∧
    (∀ t jobs, StartedBy st i (c₁ ++ [m]) t jobs → jobs = [] ∧ ∀ x ∈ c₂, x.thread ≠ t) ∧
    (b.Sealed → k.until_.isEmpty = false → ∀ d s₁, Chronicle st ((m.before.pop i).spawnWatcher k).2 d s₁ →
      (∀ x ∈ d, x.thread ≠ m.watcher) ∧
      ∀ d' s₂, Chronicle st (s₁.refused i k ((m.before.pop i).spawnWatcher k).1 fault) d' s₂ →
        ∀ x ∈ d', x.thread ≠ m.watcher) := by
  have hstep := hc.stepped hb
  have hbefore := hc.before.1
  have hrest := hc.after hb
  rw [hi, hj] at hstep
  obtain ⟨hattends, jobs, hjobs, happroaching⟩ := hbefore.approaches hb hat hfirst
  obtain ⟨rest, rfl⟩ := hstep.eq_cons hjobs
  obtain ⟨rfl, hrepeats, huntil, rfl⟩ := happroaching.launches
  obtain ⟨haliases, hreport, htrace, hleft, t', hthreads⟩ := hstep.refused hjobs hcommand hl hunbroken
  have hearlier : ∀ x ∈ c₁, x.thread = i → (x.after st).report = x.before.report ∧
      (x.after st).scope.aliases = x.before.scope.aliases ∧
      (x.after st).threads.length = x.before.threads.length := by
    intro x hx hxi
    obtain ⟨d, e, rfl⟩ := List.append_of_mem hx
    exact (hbefore.stepped hb).attends (hattends x hx hxi)
  refine ⟨⟨rfl, hrepeats, huntil⟩, fun x hx hxi => ⟨hattends x hx hxi, (hearlier x hx hxi).1,
    (hearlier x hx hxi).2.1⟩, ⟨?_, haliases, ?_⟩, ?_, fun t jobs hstarted => ?_, ?_⟩
  · have hcalled : (m.after st).scope.trace =
        [⟨m.before.scope.clock, .run k.task (.error fault)⟩] ++ m.before.scope.trace := htrace
    exact Moment.calls_eq hcalled
  · rw [hreport]
    rfl
  · rcases hrest.next_moment hstep.unbroken hleft with
      ⟨hat', hquiet⟩ | ⟨d, y, e, rfl, hquiet, hy, hyjob, hyat, hyb, hystep⟩
    · exact .inl ⟨hat', hat'.enabled rfl, hquiet⟩
    · obtain ⟨y, t, x⟩ := y
      obtain rfl : t = i := hy
      obtain rfl : x = _ := hyjob
      obtain ⟨hcalls, hreport', haliases', hreacts⟩ := Stepped.handsOver hystep hyb hyat
      exact .inr ⟨d, _, e, rfl, hquiet, rfl, rfl, hcalls, hreport', haliases', hreacts⟩
  · obtain ⟨x, hx, hxi, hnew, hthread⟩ := hstarted
    have hlt := (List.getElem?_eq_some_iff.1 hthread).1
    rcases List.mem_append.1 hx with hx | hx
    · exact absurd ((hearlier x hx hxi).2.2 ▸ hlt) (Nat.not_lt.2 hnew)
    · obtain rfl := List.mem_singleton.1 hx
      have hjobs' : jobs = [] := by
        rw [hthreads, List.getElem?_append_right (by rwa [List.length_set])] at hthread
        obtain ⟨w, -, hw⟩ := List.mem_map.1 (List.mem_of_getElem? hthread)
        exact (congrArg Thread.jobs hw).symm
      exact ⟨hjobs', (hrest.ended hstep.unbroken hthread hjobs').2⟩
  · intro hsealed huntil' d s₁ hd
    obtain ⟨u, hu, -⟩ := hjobs.popped
    rw [show m.watcher = (m.before.pop i).threads.length from (pop_length i m.before).symm]
    exact refused_unattended ((hbefore.sealed hb hsealed).pop i) (hbefore.unbroken hb)
      (List.getElem?_eq_some_iff.1 hu).1 huntil' hd

end

/-! ## A runtime that is busy -/

def busyTask : Task := { describe := "refused", image := "busybox", command := ["serve"], concurrency := 2 }

def busyAction : Action := { alias_ := "job", repeats := 2, until_ := "$\x7bstatus:job\x7d == exited" }

/-- A handle stands under the alias, and the first launch is refused. -/
def busyStart : State (Faulty (World Rehearsal)) :=
  State.ofJobs { rehearsalScope {} { run := [some (.command "busy")] } with aliases := [("job", "mock-9")] }
    [.control busyTask busyAction]

def busyRun : List (Moment (Faulty (World Rehearsal))) × State (Faulty (World Rehearsal)) :=
  busyStart.chronicle (rehearsed {}) (fun s => s.finished 0) 60 0

/-- The launch, as it is found in the run. -/
def Moment.busy (m : Moment (Faulty (World Rehearsal))) : Bool :=
  (match m.job with
    | .launch k => !k.until_.isEmpty
    | _ => false) &&
  m.thread == 0 && m.watcher == 1 && m.before.scope.aliases == [("job", "mock-9")] &&
  m.before.report.entries.isEmpty &&
  (match m.before.scope.launch (rehearsed {}).env busyTask with
    | (.error fault, sc) => fault == .command "busy" && !sc.broken
    | _ => false)

/-- The handle that was there stays, there is one entry in the report, and the failure is handed over; the thread
that waits for the end of the task was started and does nothing, however long the launch takes. -/
theorem refusal_leaves_old_handle :
    busyStart.scope.broken = false ∧ busyStart.At 0 [.control busyTask busyAction] ∧ busyTask.command ≠ [] ∧
      busyStart.Sealed ∧
      ∃ c₁ m c₂ k, busyRun.1 = c₁ ++ m :: c₂ ∧ m.thread = 0 ∧ m.job = .launch k ∧
        Chronicle (rehearsed {}) busyStart (c₁ ++ m :: c₂) busyRun.2 ∧
        (∀ x ∈ c₁, x.thread = 0 → ∀ k, x.job ≠ .launch k) ∧
        (m.before.scope.launch (rehearsed {}).env busyTask).1 = .error (.command "busy") ∧
        (m.after (rehearsed {})).scope.aliases = [("job", "mock-9")] ∧
        (m.after (rehearsed {})).report.entries = [⟨false, "refused", some "Runtime command failed: busy"⟩] ∧
        (∃ y ∈ c₂, y.thread = 0 ∧ y.calls (rehearsed {}) = [.failed "refused" (.command "busy")]) ∧
        ∀ d s₁, Chronicle (rehearsed {}) ((m.before.pop 0).spawnWatcher k).2 d s₁ → ∀ x ∈ d, x.thread ≠ 1 := by
  have hat : busyStart.At 0 [.control busyTask busyAction] := ⟨_, rfl, rfl⟩
  have hcommand : busyTask.command ≠ [] := by decide
  have hsealed : busyStart.Sealed :=
    sealed_of_none (List.forall_mem_singleton.2 (List.forall_mem_singleton.2 rfl))
  have hfound : (busyRun.1.find? fun m => m.job matches .launch _).any Moment.busy = true := by decide +kernel
  have hdone : busyRun.2.finished 0 = true := by decide +kernel
  obtain ⟨m, hm, hbusy⟩ := (Option.any_eq_true _ _).1 hfound
  obtain ⟨hjob, c₁, c₂, hsplit, hfirst⟩ := List.find?_eq_some_iff_append.1 hm
  have hc : Chronicle (rehearsed {}) busyStart (c₁ ++ m :: c₂) busyRun.2 :=
    hsplit ▸ State.chronicle_spec _ _ _ _ _
  obtain ⟨k, hj⟩ : ∃ k, m.job = .launch k := by
    cases h : m.job with
    | launch k => exact ⟨k, rfl⟩
    | _ =>
      rw [h] at hjob
      cases hjob
  have hfirst : ∀ x ∈ c₁, x.thread = 0 → ∀ k, x.job ≠ .launch k := by
    intro x hx _ k' hj'
    have := hfirst x hx
    rw [hj'] at this
    cases this
  unfold Moment.busy at hbusy
  rw [hj] at hbusy
  simp only [Bool.and_eq_true, Bool.not_eq_true', beq_iff_eq] at hbusy
  obtain ⟨⟨⟨⟨⟨huntil, hi⟩, hwatcher⟩, haliases⟩, hentries⟩, hfault⟩ := hbusy
  have hl : (m.before.scope.launch (rehearsed {}).env busyTask).1 = .error (.command "busy") ∧
      (m.before.scope.launch (rehearsed {}).env busyTask).2.broken = false := by
    split at hfault
    · rename_i fault sc heq
      rw [Bool.and_eq_true, beq_iff_eq, Bool.not_eq_true'] at hfault
      rw [heq, hfault.1]
      exact ⟨rfl, hfault.2⟩
    · cases hfault
  obtain ⟨-, -, ⟨-, hkept, hreport⟩, hfailed, -, hslow⟩ :=
    refusal_leaves_nothing rfl hat hc hi hj hfirst hcommand hl.1 hl.2
  refine ⟨rfl, hat, hcommand, hsealed, c₁, m, c₂, k, hsplit, hi, hj, hc, hfirst, hl.1, hkept.trans haliases, ?_,
    ?_, fun d s₁ hd => ?_⟩
  · rw [hreport, List.isEmpty_iff.1 hentries]
    decide
  · rcases hfailed with ⟨⟨u, hu, hjobs⟩, -⟩ | ⟨d, y, e, rfl, -, hy, -, hcalls, -⟩
    · unfold State.finished at hdone
      rw [hu] at hdone
      simp [Thread.finished, hjobs] at hdone
    · exact ⟨y, by simp, hy, hcalls⟩
  · rw [← hwatcher]
    exact (hslow hsealed huntil d s₁ hd).1

end Workload.Run
