import Workload.Proofs.Aliases
import Workload.Proofs.Control
import Workload.Proofs.Restarts

/-!
# The thread that waits for the end of a task

A launch starts the thread that waits for the condition that ends its task before it is known what becomes of
the launch, and leaves it a promise.  No other launch can keep that promise (`Stepped.settlers`), so the thread
does nothing until the handle of its own launch has been recorded and delivered, and asks for nothing else
after that (`watcher_follows_launch`).
-/

namespace Workload.Run

variable {σ : Type}

/-! ## Promises -/

/-- The promise that a job keeps or breaks. -/
def Job.settles? : Job → Option PromiseId
  | .launched _ watcher _ _ => watcher.map Prod.snd
  | .settlePromise p _ => some p
  | _ => none

/-- Only promises that were made are kept or broken. -/
def State.Sealed (s : State σ) : Prop :=
  s.Stacks fun jobs => ∀ j ∈ jobs, ∀ p, j.settles? = some p → p < s.promises.length

theorem sealed_of_none {s : State σ} (h : s.Stacks fun jobs => ∀ j ∈ jobs, j.settles? = none) : s.Sealed := by
  intro t ht j hj p hp
  rw [h t ht j hj] at hp
  cases hp

namespace State

variable (i : ThreadId) (s : State σ)

theorem launched_promises (k : Ticket) (watcher : Option (ThreadId × PromiseId)) (l : Launch)
    (c : ChannelId) :
    (s.launched i k watcher l c).promises =
      watcher.elim s.promises fun w => s.promises.set w.2 (.kept l.handle) := by
  unfold launched
  cases watcher <;> simp only [] <;> split_ifs <;> rfl

theorem observe_promises (k : Ticket) (c : ChannelId) (ids : List String) :
    (ids.foldl (fun s id => s.spawn [.watch k.task id c]) s).promises = s.promises :=
  congrArg Board.promises (observe_moves 0 s k c ids).2

/-- A launch that is completed at once keeps its promise. -/
theorem created_promises (k : Ticket) (watcher : Option (ThreadId × PromiseId)) (l : Launch) :
    (s.created i k watcher l).promises =
      if l.signals.isSome || k.task.isAsync then
        watcher.elim s.promises fun w => s.promises.set w.2 (.kept l.handle)
      else s.promises := by
  unfold created
  simp only []
  cases hsignals : l.signals with
  | some signals => exact launched_promises i _ k watcher l _
  | none =>
    have hobserve := observe_promises
      (s.openChannel ⟨[], l.containers.length, k.task.instances, false⟩) k s.channels.length l.containers
    simp only [Option.isSome_none, Bool.false_or]
    split_ifs
    · rw [launched_promises, hobserve]
      rfl
    · exact hobserve

theorem refused_promises (k : Ticket) (watcher : Option (ThreadId × PromiseId)) (fault : RuntimeFault) :
    (s.refused i k watcher fault).promises = s.promises :=
  congrArg Board.promises (refused_board i s k watcher fault)

/-- A launch makes a promise to the thread that waits for the end of its task, and keeps it as soon as it is
completed. -/
theorem launch_promises (st : Settings σ) (k : Ticket) :
    (s.launch st i k).promises =
      if k.task.command.isEmpty || k.until_.isEmpty then s.promises
      else
        s.promises ++ [(k.completes? (s.scope.launch st.env k.task)).elim .pending fun e => .kept e.2] := by
  unfold Ticket.completes?
  by_cases hempty : k.task.command = []
  · unfold launch
    simp only [hempty, List.isEmpty_nil, if_true, Bool.true_or]
  obtain ⟨-, -, -, hwatcher⟩ := spawnWatcher_goesOn i s k
  have hasked : (s.asked st k).promises =
      if k.until_.isEmpty then s.promises else s.promises ++ [.pending] := by
    unfold asked spawnWatcher
    split_ifs <;> rfl
  have hkept : ∀ handle, ((s.spawnWatcher k).1.elim (s.asked st k).promises fun w =>
      (s.asked st k).promises.set w.2 (.kept handle)) =
      if k.until_.isEmpty then s.promises else s.promises ++ [.kept handle] := by
    intro handle
    rw [hwatcher, hasked]
    split_ifs
    · rfl
    · simp
  have hnonempty : k.task.command.isEmpty = false := by simpa using hempty
  rw [launch_eq st i s k hempty, hnonempty, Bool.false_or, Bool.false_or]
  by_cases hbroken : (s.scope.launch st.env k.task).2.broken = true
  · rw [if_pos hbroken, if_pos (show (s.asked st k).scope.broken = true from hbroken)]
    exact (congrArg Board.promises (forsake_board _ _)).trans hasked
  rw [if_neg hbroken, if_neg (show ¬(s.asked st k).scope.broken = true from hbroken)]
  cases (s.scope.launch st.env k.task).1 with
  | error fault => exact (refused_promises i _ k _ fault).trans hasked
  | ok l =>
    simp only [created_promises]
    by_cases hdone : (l.signals.isSome || k.task.isAsync) = true
    · rw [if_pos hdone, if_pos hdone]
      exact hkept l.handle
    · rw [if_neg hdone, if_neg hdone]
      exact hasked

end State

theorem Job.Posts.promises {j : Job} {b b' : Board} (h : j.Posts b b') :
    b'.promises = b.promises ∨ (∃ k, j = .launch k) ∨ (∃ k watcher l c, j = .launched k watcher l c) ∨
      ∃ p handle, j = .settlePromise p handle := by
  cases j with
  | launch k => exact .inr (.inl ⟨k, rfl⟩)
  | launched k watcher l c => exact .inr (.inr (.inl ⟨k, watcher, l, c, rfl⟩))
  | settlePromise p handle => exact .inr (.inr (.inr ⟨p, handle, rfl⟩))
  | opening | elapsed | stopOnError | failed | send =>
    obtain ⟨_, rfl⟩ := h
    exact .inl rfl
  | drain =>
    obtain ⟨_, _, rfl⟩ := h
    exact .inl rfl
  | endCollection =>
    obtain rfl := h
    exact .inl rfl
  | watch | expire => exact .inl (h.elim (congrArg Board.promises) (congrArg Board.promises))
  | _ => exact .inl (congrArg Board.promises h)

section

variable {st : Settings σ} {i : ThreadId} {j x : Job} {s s' : State σ} {p : PromiseId}

/-- A promise stays as it is until a job keeps or breaks it, and no promise is forgotten. -/
theorem Stepped.promises (h : Stepped st i x s s') :
    s.promises.length ≤ s'.promises.length ∧
      (p < s.promises.length → x.settles? ≠ some p → s'.promises[p]? = s.promises[p]?) ∧
      ∀ k w l c, p < s.promises.length → x = .launched k (some (w, p)) l c →
        s'.promises[p]? = some (.kept l.handle) := by
  have hresult : s'.promises = (x.perform st i (s.pop i)).promises := by
    rw [h.result]
    exact congrArg Board.promises (State.endBroken_board i _)
  rcases h.board.promises with hsame | ⟨k, rfl⟩ | ⟨k, watcher, l, c, rfl⟩ | ⟨q, handle, rfl⟩
  · rw [show s'.promises = s.promises from hsame]
    refine ⟨Nat.le_refl _, fun _ _ => rfl, ?_⟩
    rintro k w l c hp rfl
    have hlaunched : s'.promises = s.promises.set p (.kept l.handle) :=
      hresult.trans (State.launched_promises i (s.pop i) k (some (w, p)) l c)
    rw [show s'.promises = s.promises from hsame] at hlaunched
    rw [hlaunched, List.getElem?_set_self hp]
  · have hlaunch : s'.promises = _ := hresult.trans (State.launch_promises i (s.pop i) st k)
    rw [hlaunch]
    split_ifs
    · exact ⟨Nat.le_refl _, fun _ _ => rfl, fun _ _ _ _ _ hx => nomatch hx⟩
    · refine ⟨?_, fun hp _ => List.getElem?_append_left hp, fun _ _ _ _ _ hx => nomatch hx⟩
      rw [List.length_append]
      exact Nat.le_add_right _ _
  · have hlaunched : s'.promises = _ := hresult.trans (State.launched_promises i (s.pop i) k watcher l c)
    rw [hlaunched]
    cases watcher with
    | none => exact ⟨Nat.le_refl _, fun _ _ => rfl, fun _ _ _ _ _ hx => nomatch hx⟩
    | some w =>
      refine ⟨Nat.le_of_eq (List.length_set ..).symm, fun _ hne => ?_, ?_⟩
      · exact List.getElem?_set_ne fun heq => hne (congrArg some heq)
      · rintro k' w' l' c' hp heq
        simp only [Job.launched.injEq, Option.some.injEq] at heq
        obtain ⟨-, rfl, rfl, -⟩ := heq
        exact List.getElem?_set_self hp
  · have hsettle : s'.promises = s.promises.set q (handle.elim .broken .kept) := hresult
    rw [hsettle]
    refine ⟨Nat.le_of_eq (List.length_set ..).symm, fun _ hne => ?_, fun _ _ _ _ _ hx => nomatch hx⟩
    exact List.getElem?_set_ne fun heq => hne (congrArg some heq)

/-! ### Who keeps a promise -/

/-- A job that keeps a promise is left by the launch whose handle it delivers. -/
theorem Job.Leaves.settles (h : x.Leaves st j) (hj : j.settles? = some p) :
    ∃ k watcher l c, x = .launch k ∧ j = .launched k watcher l c := by
  cases h with
  | launched k watcher l c => exact ⟨k, watcher, l, c, rfl, rfl⟩
  | _ => cases hj

theorem Job.Starts.settles (h : x.Starts st j) : j.settles? = none := by
  cases h <;> rfl

theorem settles_awaits {k : Ticket} {watcher : Option (ThreadId × PromiseId)} {l : Launch} {r : ThreadId}
    (hj : j ∈ k.awaits watcher l r) : j.settles? = none := by
  unfold Ticket.awaits at hj
  rcases List.mem_append.1 hj with hj | hj
  · split_ifs at hj
    · simp only [List.mem_cons, List.not_mem_nil, or_false] at hj
      rcases hj with rfl | rfl <;> rfl
    · cases hj
  · cases watcher with
    | none => cases hj
    | some w =>
      simp only [Option.elim_some, List.mem_cons, List.not_mem_nil, or_false] at hj
      rcases hj with rfl | rfl <;> rfl

/-- A launch that is completed later has come off. -/
theorem Ticket.Yields.settles {k : Ticket} {b b' : Board} {r : Except RuntimeFault Launch} {new : List Job}
    {spawned : List (List Job)} {watcher : Option (ThreadId × PromiseId)} {l : Launch} {c : ChannelId}
    (h : k.Yields b b' r new spawned) (hj : .launched k watcher l c ∈ new)
    (hp : watcher.map Prod.snd = some p) : r = .ok l := by
  have hsettles : (Job.launched k watcher l c).settles? = some p := hp
  cases h with
  | refused fault q => cases List.mem_singleton.1 hj
  | known | watched =>
    rw [settles_awaits hj] at hsettles
    cases hsettles
  | awaited l' q watcher' observers =>
    simp only [List.mem_cons, reduceCtorEq, Job.launched.injEq, List.not_mem_nil, or_false, false_or] at hj
    rw [hj.2.2.1]

/-- A launch leaves its thread to keep the promise that it made itself. -/
theorem Ticket.GoesOn.settles {k : Ticket} {watcher watcher' : Option (ThreadId × PromiseId)} {l l' : Launch}
    {n : Nat} {new : List Job} {spawned : List (List Job)} {c : ChannelId}
    (h : k.GoesOn watcher l n new spawned) (hj : .launched k watcher' l' c ∈ new)
    (hp : watcher'.map Prod.snd = some p) : watcher' = watcher := by
  have hsettles : (Job.launched k watcher' l' c).settles? = some p := hp
  cases h with
  | recorded =>
    rw [settles_awaits hj] at hsettles
    cases hsettles
  | watched ids observers ch =>
    simp only [List.mem_cons, reduceCtorEq, Job.launched.injEq, List.not_mem_nil, or_false, false_or] at hj
    exact hj.2.1

/-- What is left to keep a promise was left before, or a launch leaves it to keep its own. -/
theorem Stepped.settlers (h : Stepped st i x s s') {t : ThreadId} {u : Thread}
    (hu : s'.threads[t]? = some u) (hj : j ∈ u.jobs) (hp : j.settles? = some p) :
    (∃ u, s.threads[t]? = some u ∧ j ∈ u.jobs) ∨
      t = i ∧ p = s.promises.length ∧ p < s'.promises.length ∧ ∃ k l c, x = .launch k ∧
        (s.scope.launch st.env k.task).1 = .ok l ∧
        j = .launched k (some (s.threads.length, s.promises.length)) l c := by
  obtain ⟨v, js, new, spawned, hv, hjobs, hy, hcases⟩ := h.thread_cases
  rcases hcases t u hu with ⟨rfl, ⟨hnew, -⟩ | ⟨hnil, -⟩⟩ | ⟨-, hold⟩ | ⟨-, -, jobs, hmem, rfl⟩
  · rw [hnew] at hj
    rcases List.mem_append.1 hj with hj | hj
    swap
    · exact .inl ⟨v, hv, hjobs ▸ List.mem_cons_of_mem x hj⟩
    obtain ⟨k, watcher, l, c, rfl, rfl⟩ := (hy.leaves j hj).settles hp
    refine .inr ⟨rfl, ?_⟩
    rcases hy with ⟨-, -, -, -, rfl, -⟩ | ⟨-, -, hy⟩
    · cases hj
    have hl := hy.settles hj hp
    have hperform : ((s.pop t).launch st t k).scope.broken = false := by
      by_contra hbroken
      rw [Bool.not_eq_false] at hbroken
      rw [(h.breaksOff hbroken u hu).1] at hnew
      rw [(List.append_eq_nil_iff.1 hnew.symm).1] at hj
      cases hj
    have hresult : s' = (s.pop t).launch st t k := h.result.trans (State.endBroken_of_unbroken hperform t)
    have hpop : (s.pop t).At t js := State.At.popped ⟨v, hv, hjobs⟩
    have hcommand : k.task.command ≠ [] := by
      intro hnil
      have hidle : (s.pop t).launch st t k = s.pop t := if_pos (by rw [hnil]; rfl)
      rw [hresult, hidle] at hu
      have hsame := State.At.eq ⟨u, hu, hnew⟩ hpop
      rw [List.append_left_eq_self.1 hsame] at hj
      cases hj
    obtain ⟨new', spawned', hmoves, hgoes⟩ := State.launch_goesOn st t (s.pop t) k l hcommand hl hperform
    have hnew' : new = new' :=
      List.append_cancel_right (State.At.eq ⟨u, hu, hnew⟩ (hresult ▸ (hmoves.leaves hpop).1))
    have hwatcher := hgoes.settles (hnew' ▸ hj) hp
    rw [pop_length] at hwatcher
    split_ifs at hwatcher with huntil
    · rw [hwatcher] at hp
      cases hp
    · rw [hwatcher] at hp ⊢
      obtain rfl := Option.some.inj hp
      refine ⟨rfl, ?_, k, l, c, rfl, hl, rfl⟩
      rw [hresult, State.launch_promises, if_neg (by simpa using ⟨hcommand, by simpa using huntil⟩),
        List.length_append]
      exact Nat.lt_succ_self _
  · rw [hnil] at hj
    cases hj
  · exact .inl ⟨u, hold, hj⟩
  · rw [(hy.starts jobs hmem j hj).settles] at hp
    cases hp

theorem Chronicle.sealed {b : State σ} {c : List (Moment σ)} (hc : Chronicle st b c s)
    (hb : b.scope.broken = false) (hs : b.Sealed) : s.Sealed := by
  refine hc.invariant (P := fun _ s => s.Sealed) hb hs ?_ fun _ _ _ hs _ _ => hs
  rintro - i x s s' hs hstep - u hu j hj p hp
  obtain ⟨t, ht⟩ := List.mem_iff_getElem?.1 hu
  rcases hstep.settlers ht hj hp with ⟨v, hv, hj⟩ | ⟨-, -, hlt, -⟩
  · exact (hs v (List.mem_of_getElem? hv) j hj p hp).trans_le (hstep.promises (p := p)).1
  · exact hlt

end

/-! ## The watcher of a launch -/

namespace State

/-- A launch starts the thread that waits for its promise, and ends it at once if it is refused or breaks off. -/
theorem launch_watcher (st : Settings σ) (i : ThreadId) (s : State σ) (k : Ticket) {js : List Job}
    (hs : s.At i js) (hcommand : k.task.command ≠ []) (huntil : k.until_.isEmpty = false) :
    (s.launch st i k).threads[s.threads.length]? =
      some (Thread.ofJobs [untilJob s.promises.length k.alias_ k.until_]) ∨
    ((s.scope.launch st.env k.task).2.broken = true ∨ ∃ fault, (s.scope.launch st.env k.task).1 = .error fault) ∧
      (s.launch st i k).threads[s.threads.length]? = some (Thread.ofJobs []) := by
  have hwatchers : k.watchers s.promises.length = [[untilJob s.promises.length k.alias_ k.until_]] :=
    if_neg (by rw [huntil]; exact Bool.false_ne_true)
  by_cases hbroken : (s.asked st k).scope.broken = true
  · have hforsaken := asked_forsaken st i s k
    rw [hwatchers] at hforsaken
    refine .inr ⟨.inl hbroken, ?_⟩
    rw [launch_eq st i s k hcommand, if_pos hbroken]
    exact (hforsaken.leaves hs).2 0
  rcases hr : (s.scope.launch st.env k.task).1 with fault | l
  · have hrefused := asked_refused st i s k fault
    rw [hwatchers] at hrefused
    refine .inr ⟨.inr ⟨fault, rfl⟩, ?_⟩
    rw [launch_eq st i s k hcommand, if_neg hbroken, hr]
    exact (hrefused.leaves hs).2 0
  · have hunbroken : (s.launch st i k).scope.broken = false := by
      rw [launch_eq st i s k hcommand, if_neg hbroken, hr]
      exact (created_broken i _ k _ l).trans (Bool.not_eq_true _ ▸ hbroken)
    obtain ⟨new, spawned, hmoves, -⟩ := launch_goesOn st i s k l hcommand hr hunbroken
    rw [hwatchers] at hmoves
    exact .inl ((hmoves.leaves hs).2 0)

end State

/-! ## What the watcher does -/

/-- Whether a thread that waits for a condition is told the status of its container at a moment. -/
def Moment.told (st : Settings σ) (x : Moment σ) : Bool :=
  match x.job with
  | .untilLoop handle _ => (x.before.scope.status st.env handle).1.toOption.isSome
  | _ => false

/-- What a thread does at a moment that waits for the promise of a container and then for a condition, and the
jobs that it has left after it. -/
inductive Moment.Watches (st : Settings σ) (p : PromiseId) (handle condition : String) (x : Moment σ) :
    List Job → Prop
  | begins : x.job = .awaitLaunch p condition → x.calls st = [] →
    Watches st p handle condition x [.untilLoop handle condition]
  | pauses (jobs : List Job) : x.job.idles = true → x.calls st = [] →
    Asking st.config.timings.untilPoll (.untilLoop handle condition) jobs → Watches st p handle condition x jobs
  /-- The container has no status, and the condition is not evaluated. -/
  | gone (fault : RuntimeFault) (sc : Scope σ) : x.job = .untilLoop handle condition →
    x.before.scope.status st.env handle = (.error fault, sc) → x.calls st = [.status handle (.error fault)] →
    ((x.after st).scope = sc ∨ ∃ line, (x.after st).scope = sc.note line) → Watches st p handle condition x []
  /-- The container has a status, and the condition is evaluated after that; what it holds is what matters,
  unless the evaluation cannot be done. -/
  | asks (status : ContainerStatus) (sc : Scope σ) (asked : List Event) : x.job = .untilLoop handle condition →
    x.before.scope.status st.env handle = (.ok status, sc) →
    x.calls st = .status handle (.ok status) :: asked → (∀ e ∈ asked, e.kind = .status) →
    (x.after st).scope = { (sc.check st.env condition).2 with broken := false } →
    Watches st p handle condition x
      (if (sc.check st.env condition).1 || (sc.check st.env condition).2.broken then []
      else [.sleep st.config.timings.untilPoll, .untilLoop handle condition])

section

variable {st : Settings σ} {i : ThreadId} {s s' : State σ} {p : PromiseId} {handle condition : String} {u : Thread}

/-- A thread that waits for a condition looks at its container, and evaluates the condition if it is there. -/
theorem State.untilLoop_spec (st : Settings σ) (i : ThreadId) (s : State σ) (handle condition : String) :
    (∃ fault sc, s.scope.status st.env handle = (.error fault, sc) ∧
      (s.untilLoop st i handle condition).threads = s.threads ∧
      ((s.untilLoop st i handle condition).scope = sc ∨
        ∃ line, (s.untilLoop st i handle condition).scope = sc.note line)) ∨
    ∃ status sc, s.scope.status st.env handle = (.ok status, sc) ∧
      (s.untilLoop st i handle condition).scope = (sc.check st.env condition).2 ∧
      (s.untilLoop st i handle condition).threads = s.threads.modify i fun t =>
        { t with
          jobs := (if (sc.check st.env condition).1 then []
            else [.sleep st.config.timings.untilPoll, .untilLoop handle condition]) ++ t.jobs
          tally := t.tally + 1 } := by
  rcases hr : s.scope.status st.env handle with ⟨r, sc⟩
  have hwithin : s.within (Scope.status st.env handle) = (r, { s with scope := sc }) := by
    unfold within
    rw [hr]
  unfold untilLoop
  simp only [hwithin]
  cases r with
  | error fault =>
    refine .inl ⟨fault, sc, rfl, ?_⟩
    simp only []
    split_ifs
    · exact ⟨rfl, .inl rfl⟩
    · exact ⟨rfl, .inr ⟨_, rfl⟩⟩
  | ok status =>
    refine .inr ⟨status, sc, rfl, ?_⟩
    rcases hc : sc.check st.env condition with ⟨holds, sc'⟩
    have hchecked : (({ s with scope := sc } : State σ).count i).within (Scope.check st.env condition) =
        (holds, { ({ s with scope := sc } : State σ).count i with scope := sc' }) := by
      unfold within
      rw [show ((({ s with scope := sc } : State σ).count i).scope) = sc from rfl, hc]
    simp only [hchecked]
    cases holds with
    | true => exact ⟨rfl, rfl⟩
    | false => exact ⟨rfl, List.modify_modify_eq ..⟩

/-- A thread whose turn it is to look does so once, and goes on as the outcome says. -/
theorem Stepped.watches {s s' : State σ} (h : Stepped st i (.untilLoop handle condition) s s')
    (hans : st.env.runtime.Answers) (hb : s.scope.broken = false) (hu : s.threads[i]? = some u)
    (hj : u.jobs = [.untilLoop handle condition]) (p : PromiseId) :
    ∃ u', s'.threads[i]? = some u' ∧
      (⟨s, i, .untilLoop handle condition⟩ : Moment σ).Watches st p handle condition u'.jobs ∧
      u'.tally = u.tally + ((⟨s, i, .untilLoop handle condition⟩ : Moment σ).told st).toNat := by
  have hresult : s' = ((s.pop i).untilLoop st i handle condition).endBroken i := h.result
  have hunbroken : (s.scope.status st.env handle).2.broken = false :=
    Scope.call_unbroken (.status handle) hb (hans.status handle)
  have hcalled : (s.scope.status st.env handle).2.trace =
      ⟨s.scope.clock, .status handle (s.scope.status st.env handle).1⟩ :: s.scope.trace :=
    Scope.call_trace hunbroken
  have hpop := State.pop_getElem? hu
  rw [hj, List.tail_cons] at hpop
  have htold : (⟨s, i, .untilLoop handle condition⟩ : Moment σ).told st =
      (s.scope.status st.env handle).1.toOption.isSome := rfl
  rcases State.untilLoop_spec st i (s.pop i) handle condition with
    ⟨fault, sc, hstatus, hthreads, hscope⟩ | ⟨status, sc, hstatus, hscope, hthreads⟩
  · rw [show s.scope.status st.env handle = _ from hstatus] at hunbroken hcalled htold
    have hsame : (s.pop i).untilLoop st i handle condition = s' := by
      refine (hresult.trans (State.endBroken_of_unbroken ?_ i)).symm
      rcases hscope with hscope | ⟨line, hscope⟩
      · rw [hscope]
        exact hunbroken
      · rw [hscope]
        exact (State.note_broken ({ s with scope := sc } : State σ) line).trans hunbroken
    rw [hsame] at hthreads hscope
    refine ⟨_, hthreads ▸ hpop, .gone fault sc rfl hstatus ?_ (h.after_eq.symm ▸ hscope), by rw [htold]; rfl⟩
    have htrace : s'.scope.trace = [⟨s.scope.clock, .status handle (.error fault)⟩] ++ s.scope.trace := by
      rcases hscope with hscope | ⟨line, hscope⟩
      · rw [hscope]
        exact hcalled
      · rw [hscope, (Scope.grows_note line sc).trace_eq]
        exact hcalled
    exact h.calls_eq htrace
  · rw [show s.scope.status st.env handle = _ from hstatus] at hcalled htold
    obtain ⟨-, new, hnew, hkinds⟩ := Scope.check_grows st.env condition sc
    have hwatches : ∀ jobs, s'.scope = { (sc.check st.env condition).2 with broken := false } →
        jobs = (if (sc.check st.env condition).1 || (sc.check st.env condition).2.broken then []
          else [.sleep st.config.timings.untilPoll, .untilLoop handle condition]) →
        (⟨s, i, .untilLoop handle condition⟩ : Moment σ).Watches st p handle condition jobs := by
      rintro jobs hs' rfl
      have htrace : s'.scope.trace = (new ++ [⟨s.scope.clock, .status handle (.ok status)⟩]) ++ s.scope.trace := by
        rw [hs', List.append_assoc]
        exact hnew.trans (congrArg (new ++ ·) hcalled)
      refine .asks status sc (new.map TimedEvent.event).reverse rfl hstatus ?_ (fun e he => ?_) (h.after_eq.symm ▸ hs')
      · rw [h.calls_eq htrace, List.map_append, List.reverse_append]
        rfl
      · obtain ⟨t, ht, rfl⟩ := List.mem_map.1 (List.mem_reverse.1 he)
        exact List.mem_singleton.1 (hkinds t ht).2
    have hlooked : ((s.pop i).untilLoop st i handle condition).threads[i]? =
        some { u with
          jobs := (if (sc.check st.env condition).1 then []
            else [.sleep st.config.timings.untilPoll, .untilLoop handle condition]) ++ []
          tally := u.tally + 1 } := by
      rw [hthreads, List.getElem?_modify_eq, hpop]
      rfl
    cases hbroken : (sc.check st.env condition).2.broken with
    | true =>
      have hends : s' = State.crash i { (s.pop i).untilLoop st i handle condition with
          scope := { ((s.pop i).untilLoop st i handle condition).scope with broken := false } } :=
        hresult.trans (State.endBroken_of_broken (hscope ▸ hbroken) i)
      have hcrashed : s'.threads[i]? = some ⟨[], u.tally + 1, true⟩ := by
        rw [hends]
        unfold State.crash
        rw [List.getElem?_modify_eq]
        show Option.map _ ((s.pop i).untilLoop st i handle condition).threads[i]? = _
        rw [hlooked]
        rfl
      refine ⟨_, hcrashed, hwatches [] ?_ ?_, by rw [htold]; rfl⟩
      · rw [hends, ← hscope]
        rfl
      · rw [hbroken, Bool.or_true, if_pos rfl]
    | false =>
      have hsame : s' = (s.pop i).untilLoop st i handle condition :=
        hresult.trans (State.endBroken_of_unbroken (hscope ▸ hbroken) i)
      rw [← hsame, List.append_nil] at hlooked
      refine ⟨_, hlooked, hwatches _ ?_ ?_, by rw [htold]; rfl⟩
      · rw [hsame, hscope, ← hbroken]
      · rw [hbroken, Bool.or_false]

end

/-! ## The watcher and its launch -/

/-- The thread that waits for the end of the task that is launched at a moment. -/
def Moment.watcher (m : Moment σ) : ThreadId := m.before.threads.length

/-- What it is promised. -/
def Moment.promise (m : Moment σ) : PromiseId := m.before.promises.length

/-- At a moment `y` the thread that launched the task at `m` records the launch under its alias, and delivers its
handle to the thread that waits for it. -/
structure Moment.Delivers (st : Settings σ) (m : Moment σ) (k : Ticket) (l : Launch) (y : Moment σ) : Prop where
  thread : y.thread = m.thread
  own : y = m ∨ ∃ c, y.job = .launched k (some (m.watcher, m.promise)) l c
  recorded : (y.after st).scope.aliases = y.before.scope.aliases.put k.alias_ l.handle
  kept : (y.after st).promises[m.promise]? = some (.kept l.handle)

/-- The condition that the task may mean itself in. -/
def Ticket.condition (k : Ticket) : String := Expression.bindSelf k.until_ k.alias_

/-- How far the thread has come that waits for the end of the task launched at `m`, when some moments have passed
after it. -/
inductive Watching (st : Settings σ) (m : Moment σ) (k : Ticket) (d : List (Moment σ)) (s : State σ) : Prop
  | waits : s.promises[m.promise]? = some .pending →
    s.threads[m.watcher]? = some (Thread.ofJobs [.awaitLaunch m.promise k.condition]) →
    (∀ x ∈ d, x.thread ≠ m.watcher) → Watching st m k d s
  | refused (fault : RuntimeFault) : (m.before.scope.launch st.env k.task).1 = .error fault →
    s.threads[m.watcher]? = some (Thread.ofJobs []) → (∀ x ∈ d, x.thread ≠ m.watcher) → Watching st m k d s
  /-- The launch broke off, and its promise is lost. -/
  | brokeOff : (m.before.scope.launch st.env k.task).2.broken = true →
    s.threads[m.watcher]? = some (Thread.ofJobs []) → (∀ x ∈ d, x.thread ≠ m.watcher) → Watching st m k d s
  | delivered (l : Launch) (y : Moment σ) (u : Thread) : (m.before.scope.launch st.env k.task).1 = .ok l →
    y ∈ m :: d → m.Delivers st k l y → s.promises[m.promise]? = some (.kept l.handle) →
    s.threads[m.watcher]? = some u → u.tally = d.countP (fun x => x.thread = m.watcher && x.told st) →
    (u.jobs = [.awaitLaunch m.promise k.condition] ∨
      Asking st.config.timings.untilPoll (.untilLoop l.handle k.condition) u.jobs ∨
      u.jobs = [] ∧ ∃ x ∈ d, x.thread = m.watcher ∧ x.Watches st m.promise l.handle k.condition []) →
    Watching st m k d s

/-- Nobody is left to keep the promise but the launch itself, and that with its handle. -/
def Reserved (st : Settings σ) (m : Moment σ) (k : Ticket) (s : State σ) : Prop :=
  m.promise < s.promises.length ∧
    ∀ t u, s.threads[t]? = some u → ∀ j ∈ u.jobs, j.settles? = some m.promise →
      t = m.thread ∧ ∃ l c, (m.before.scope.launch st.env k.task).1 = .ok l ∧
        j = .launched k (some (m.watcher, m.promise)) l c

section

variable {st : Settings σ} {m : Moment σ} {k : Ticket} {d : List (Moment σ)} {b s s' : State σ} {t : ThreadId}
  {x : Job}

theorem Reserved.step (h : Stepped st t x s s') (hs : Reserved st m k s) : Reserved st m k s' := by
  refine ⟨hs.1.trans_le (h.promises (p := m.promise)).1, fun t' u hu j hj hp => ?_⟩
  rcases h.settlers hu hj hp with ⟨v, hv, hj⟩ | ⟨-, heq, -⟩
  · exact hs.2 t' v hv j hj hp
  · exact absurd heq (Nat.ne_of_lt hs.1)

/-- A job that settles the promise delivers the handle. -/
theorem Reserved.delivers (h : Stepped st t x s s') (hs : Reserved st m k s) (hb : s.scope.broken = false)
    (hx : x.settles? = some m.promise) :
    ∃ l, (m.before.scope.launch st.env k.task).1 = .ok l ∧ m.Delivers st k l ⟨s, t, x⟩ := by
  obtain ⟨v, js, -, -, -, hv, hjobs, -⟩ := h.moves
  obtain ⟨rfl, l, c, hl, rfl⟩ := hs.2 t v hv x (hjobs ▸ List.mem_cons_self) hx
  refine ⟨l, hl, rfl, .inr ⟨c, rfl⟩, ?_, ?_⟩
  · rw [h.after_eq, h.of_steady rfl hb]
    exact State.launched_aliases m.thread (s.pop m.thread) k _ l c
  · rw [h.after_eq]
    exact h.promises.2.2 k m.watcher l c hs.1 rfl

/-- What is completed has come off. -/
theorem Ticket.eq_ok_of_completes {r : Except RuntimeFault Launch × Scope σ} {e : String × String}
    (h : k.completes? r = some e) : ∃ l, r.1 = .ok l ∧ e = (k.alias_, l.handle) := by
  unfold completes? at h
  split_ifs at h
  split at h
  · rename_i l hl
    split_ifs at h
    exact ⟨l, hl, (Option.some.inj h).symm⟩
  · cases h

theorem State.endBroken_other {i : ThreadId} (h : t ≠ i) : (s.endBroken t).threads[i]? = s.threads[i]? := by
  unfold endBroken crash
  split_ifs
  · exact List.getElem?_modify_ne _ _ h
  · rfl

/-- Where the thread that waits for the end of a task stands after the launch. -/
theorem Stepped.launches (h : Stepped st t (.launch k) s s') (hb : s.scope.broken = false)
    (hs : s.Sealed) (hcommand : k.task.command ≠ []) (huntil : k.until_.isEmpty = false) :
    Reserved st ⟨s, t, .launch k⟩ k s' ∧ Watching st ⟨s, t, .launch k⟩ k [] s' := by
  obtain ⟨v, js, -, -, -, hv, hjobs, -⟩ := h.moves
  have hpop : (s.pop t).At t js := State.At.popped ⟨v, hv, hjobs⟩
  have ht : t ≠ s.threads.length := Nat.ne_of_lt (List.getElem?_eq_some_iff.1 hv).1
  have hpromises : s'.promises = s.promises ++
      [(k.completes? (s.scope.launch st.env k.task)).elim .pending fun e => .kept e.2] := by
    have hlaunch := State.launch_promises t (s.pop t) st k
    rw [if_neg (by rw [huntil, Bool.or_false]; simpa using hcommand)] at hlaunch
    rw [h.result]
    exact (congrArg Board.promises (State.endBroken_board t _)).trans hlaunch
  have hpromise : s'.promises[s.promises.length]? =
      some ((k.completes? (s.scope.launch st.env k.task)).elim .pending fun e => .kept e.2) := by
    rw [hpromises, List.getElem?_concat_length]
  have hthread : s'.threads[s.threads.length]? = ((s.pop t).launch st t k).threads[s.threads.length]? := by
    rw [h.result]
    exact State.endBroken_other ht
  refine ⟨⟨?_, fun t' u hu j hj hp => ?_⟩, ?_⟩
  · rw [hpromises, List.length_append]
    exact Nat.lt_succ_self _
  · rcases h.settlers hu hj hp with ⟨u', hu', hj'⟩ | ⟨rfl, -, -, k', l, c, heq, hl, rfl⟩
    · exact absurd (hs u' (List.mem_of_getElem? hu') j hj' _ hp) (Nat.lt_irrefl _)
    · obtain rfl := Job.launch.inj heq
      exact ⟨rfl, l, c, hl, rfl⟩
  · have hwatcher := State.launch_watcher st t (s.pop t) k hpop hcommand huntil
    rw [pop_length, ← hthread] at hwatcher
    rcases hwatcher with hwaits | ⟨hbroken | ⟨fault, hfault⟩, hnothing⟩
    rotate_left
    · exact .brokeOff hbroken hnothing fun x hx => nomatch hx
    · exact .refused fault hfault hnothing fun x hx => nomatch hx
    cases hcompletes : k.completes? (s.scope.launch st.env k.task) with
    | none =>
      rw [hcompletes] at hpromise
      exact .waits hpromise hwaits fun x hx => nomatch hx
    | some e =>
      rw [hcompletes] at hpromise
      obtain ⟨l, hl, rfl⟩ := Ticket.eq_ok_of_completes hcompletes
      have haliases := aliases_step h hb
      rw [show Moment.completes? st.env ⟨s, t, .launch k⟩ = _ from hcompletes] at haliases
      refine .delivered l ⟨s, t, .launch k⟩ _ hl List.mem_cons_self ⟨rfl, .inl rfl, ?_, ?_⟩ hpromise hwaits rfl
        (.inl rfl)
      · rw [h.after_eq]
        exact haliases
      · rw [h.after_eq]
        exact hpromise

/-- What has been delivered stays so. -/
theorem Reserved.stays (h : Stepped st t x s s') (hs : Reserved st m k s) (hb : s.scope.broken = false) {l : Launch}
    (hl : (m.before.scope.launch st.env k.task).1 = .ok l)
    (hkept : s.promises[m.promise]? = some (.kept l.handle)) :
    s'.promises[m.promise]? = some (.kept l.handle) := by
  by_cases hx : x.settles? = some m.promise
  · obtain ⟨l', hl', hdelivers⟩ := hs.delivers h hb hx
    obtain rfl := Except.ok.inj (hl.symm.trans hl')
    exact h.after_eq ▸ hdelivers.kept
  · exact (h.promises.2.1 hs.1 hx).trans hkept

theorem told_concat (y : Moment σ) : (d ++ [y]).countP (fun x => x.thread = m.watcher && x.told st) =
    d.countP (fun x => x.thread = m.watcher && x.told st) +
      (decide (y.thread = m.watcher) && y.told st).toNat := by
  rw [List.countP_append, List.countP_singleton]
  cases (decide (y.thread = m.watcher) && y.told st) <;> rfl

theorem told_of_quiet (h : ∀ x ∈ d, x.thread ≠ m.watcher) :
    d.countP (fun x => x.thread = m.watcher && x.told st) = 0 := by
  refine List.countP_eq_zero.2 fun x hx => ?_
  rw [decide_eq_false (h x hx)]
  exact Bool.false_ne_true

/-- What other threads do leaves the thread that waits for the end of a task as it is, or delivers the handle that
it waits for. -/
theorem Watching.other (h : Stepped st t x s s') (hb : s.scope.broken = false) (hs : Reserved st m k s)
    (hw : Watching st m k d s) (ht : t ≠ m.watcher) : Watching st m k (d ++ [⟨s, t, x⟩]) s' := by
  obtain ⟨v, js, v', new, spawned, -, -, -, hth, -⟩ := h.moves
  have hquiet : (∀ x ∈ d, x.thread ≠ m.watcher) → ∀ y ∈ d ++ [⟨s, t, x⟩], y.thread ≠ m.watcher := by
    intro hquiet y hy
    rcases List.mem_append.1 hy with hy | hy
    · exact hquiet y hy
    · obtain rfl := List.mem_singleton.1 hy
      exact ht
  cases hw with
  | waits hpending hthread hsilent =>
    have hthread' := Stepped.getElem?_other hth ht hthread
    by_cases hx : x.settles? = some m.promise
    · obtain ⟨l, hl, hdelivers⟩ := hs.delivers h hb hx
      exact .delivered l ⟨s, t, x⟩ _ hl (by simp) hdelivers (h.after_eq ▸ hdelivers.kept) hthread'
        (told_of_quiet (hquiet hsilent)).symm (.inl rfl)
    · exact .waits ((h.promises.2.1 hs.1 hx).trans hpending) hthread' (hquiet hsilent)
  | refused fault hfault hthread hsilent =>
    exact .refused fault hfault (Stepped.getElem?_other hth ht hthread) (hquiet hsilent)
  | brokeOff hbroken hthread hsilent =>
    exact .brokeOff hbroken (Stepped.getElem?_other hth ht hthread) (hquiet hsilent)
  | delivered l y u hl hy hdelivers hkept hthread htally hjobs =>
    refine .delivered l y u hl ?_ hdelivers (hs.stays h hb hl hkept) (Stepped.getElem?_other hth ht hthread) ?_ ?_
    · exact List.mem_append_left [_] hy
    · rw [told_concat, htally, decide_eq_false ht]
      rfl
    · refine hjobs.imp_right fun hjobs => hjobs.imp_right fun ⟨hnil, z, hz, hended⟩ => ?_
      exact ⟨hnil, z, List.mem_append_left _ hz, hended⟩

theorem Moment.Watches.asking {p : PromiseId} {handle condition : String} {y : Moment σ} {jobs : List Job}
    (h : y.Watches st p handle condition jobs) :
    Asking st.config.timings.untilPoll (.untilLoop handle condition) jobs ∨ jobs = [] := by
  cases h with
  | begins => exact .inl .asks
  | pauses _ _ _ hjobs => exact .inl hjobs
  | gone => exact .inr rfl
  | asks =>
    split_ifs
    · exact .inr rfl
    · exact .inl .pauses

/-- A thread to which a handle has been delivered begins to look at its container, or goes on to do so. -/
theorem Stepped.watching {p : PromiseId} {handle condition : String} {u : Thread} (h : Stepped st t x s s')
    (hans : st.env.runtime.Answers) (hb : s.scope.broken = false) (hu : s.threads[t]? = some u)
    (hkept : s.promises[p]? = some (.kept handle))
    (hjobs : u.jobs = [.awaitLaunch p condition] ∨
      Asking st.config.timings.untilPoll (.untilLoop handle condition) u.jobs) :
    ∃ u', s'.threads[t]? = some u' ∧ (⟨s, t, x⟩ : Moment σ).Watches st p handle condition u'.jobs ∧
      u'.tally = u.tally + ((⟨s, t, x⟩ : Moment σ).told st).toNat := by
  have hpop := State.pop_getElem? hu
  rcases hjobs with hjobs | hjobs
  · obtain ⟨rest, hx⟩ := h.eq_cons ⟨u, hu, hjobs⟩
    obtain ⟨rfl, rfl⟩ := List.cons.inj hx
    have hresult : s' = (s.pop t).push t [.untilLoop handle condition] := by
      have hawait : s' = (s.pop t).awaitLaunch t p condition := h.of_steady rfl hb
      rw [hawait]
      unfold State.awaitLaunch
      rw [show (s.pop t).promises[p]? = _ from hkept]
    refine ⟨{ u with jobs := [.untilLoop handle condition] }, ?_, .begins rfl ?_, rfl⟩
    · rw [hresult]
      unfold State.push
      rw [List.getElem?_modify_eq, hpop, hjobs]
      rfl
    · exact h.calls_eq_nil rfl
  · rcases h.asking hb hu hjobs with ⟨rfl, hjobs⟩ | ⟨hidles, jobs, hjobs, hu'⟩
    · exact h.watches hans hb hu hjobs p
    · refine ⟨_, hu', .pauses jobs hidles ?_ hjobs, ?_⟩
      · exact h.calls_eq_nil (Job.notes_of_idles hidles)
      · cases x with
        | sleep | wake => rfl
        | _ => cases hidles

/-- When it is the turn of the thread that waits for the end of a task, the handle has been delivered. -/
theorem Watching.own (hans : st.env.runtime.Answers) (h : Stepped st m.watcher x s s')
    (hb : s.scope.broken = false) (hs : Reserved st m k s) (hw : Watching st m k d s) :
    Watching st m k (d ++ [⟨s, m.watcher, x⟩]) s' ∧
      ∃ l y jobs, (m.before.scope.launch st.env k.task).1 = .ok l ∧ y ∈ m :: d ∧ m.Delivers st k l y ∧
        (⟨s, m.watcher, x⟩ : Moment σ).Watches st m.promise l.handle k.condition jobs ∧
        s'.At m.watcher jobs := by
  obtain ⟨v, js, -, -, -, hv, hcons, -⟩ := h.moves
  cases hw with
  | waits hpending hthread =>
    -- the thread cannot go on before the promise is kept
    obtain rfl := Option.some.inj (hv.symm.trans hthread)
    obtain rfl := (List.cons.inj hcons).1
    have hready : decide (s.promises[m.promise]? = some .pending) = false := h.ready
    rw [hpending, decide_eq_true rfl] at hready
    cases hready
  | refused _ _ hthread | brokeOff _ hthread =>
    obtain rfl := Option.some.inj (hv.symm.trans hthread)
    cases hcons
  | delivered l y u hl hy hdelivers hkept hthread htally hjobs =>
    obtain rfl := Option.some.inj (hv.symm.trans hthread)
    have hjobs' : v.jobs = [.awaitLaunch m.promise k.condition] ∨
        Asking st.config.timings.untilPoll (.untilLoop l.handle k.condition) v.jobs := by
      refine hjobs.imp_right fun hjobs => hjobs.resolve_right fun hended => ?_
      rw [hended.1] at hcons
      cases hcons
    obtain ⟨u', hu', hwatches, htold⟩ := h.watching hans hb hv hkept hjobs'
    have hlater : y ∈ m :: (d ++ [⟨s, m.watcher, x⟩]) := List.mem_append_left [_] hy
    refine ⟨.delivered l y u' hl hlater hdelivers (hs.stays h hb hl hkept) hu' ?_ (.inr ?_),
      l, y, u'.jobs, hl, hy, hdelivers, hwatches, u', hu', rfl⟩
    · rw [told_concat, ← htally, htold, decide_eq_true rfl, Bool.true_and]
    · exact hwatches.asking.imp_right fun hnil => ⟨hnil, _, by simp, rfl, hnil ▸ hwatches⟩

/-- Whatever threads do after a launch, it is known where the thread stands that waits for the end of its task. -/
theorem Chronicle.watching {c₁ c₂ : List (Moment σ)} (hc : Chronicle st b (c₁ ++ m :: c₂) s)
    (hb : b.scope.broken = false) (hs : b.Sealed) (hans : st.env.runtime.Answers) (hj : m.job = .launch k)
    (hcommand : k.task.command ≠ []) (huntil : k.until_.isEmpty = false) :
    Reserved st m k s ∧ Watching st m k c₂ s := by
  have hstep := hc.stepped hb
  have hbefore := hc.before.1
  obtain ⟨s₀, t, j⟩ := m
  obtain rfl : j = .launch k := hj
  refine (hc.after hb).invariant (P := fun d s => Reserved st ⟨s₀, t, .launch k⟩ k s ∧
    Watching st ⟨s₀, t, .launch k⟩ k d s) hstep.unbroken ?_ ?_ ?_
  · exact hstep.launches (hbefore.unbroken hb) (hbefore.sealed hb hs) hcommand huntil
  · rintro d i x s s' ⟨hreserved, hwatching⟩ hstep hb
    refine ⟨hreserved.step hstep, ?_⟩
    by_cases hi : i = (⟨s₀, t, .launch k⟩ : Moment σ).watcher
    · subst hi
      exact (hwatching.own hans hstep hb hreserved).1
    · exact hwatching.other hstep hb hreserved hi
  · rintro d s time ⟨hreserved, hwatching⟩ - -
    refine ⟨hreserved, ?_⟩
    cases hwatching with
    | waits hpending hthread hsilent => exact .waits hpending hthread hsilent
    | refused fault hfault hthread hsilent => exact .refused fault hfault hthread hsilent
    | brokeOff hbroken hthread hsilent => exact .brokeOff hbroken hthread hsilent
    | delivered l y u hl hy hdelivers hkept hthread htally hjobs =>
      exact .delivered l y u hl hy hdelivers hkept hthread htally hjobs

/-- The thread that waits for the end of a task does nothing before its own launch has recorded its handle and
delivered it, whatever stands under the alias and whoever writes there.  Each time that it looks it asks for the
status of this handle, and evaluates the condition only if there is one; it ends at the first status that it
does not get or the first time that the condition holds, and counts the statuses that it gets. -/
theorem watcher_follows_launch {c₁ c₂ : List (Moment σ)} (hans : st.env.runtime.Answers)
    (hb : b.scope.broken = false) (hs : b.Sealed) (hc : Chronicle st b (c₁ ++ m :: c₂) s)
    (hj : m.job = .launch k) (hcommand : k.task.command ≠ []) (huntil : k.until_.isEmpty = false) :
    (∀ x ∈ c₁ ++ [m], x.thread ≠ m.watcher) ∧
      (∀ d x e, c₂ = d ++ x :: e → x.thread = m.watcher →
        ∃ l y jobs, (m.before.scope.launch st.env k.task).1 = .ok l ∧ y ∈ m :: d ∧ m.Delivers st k l y ∧
          x.Watches st m.promise l.handle k.condition jobs ∧ (x.after st).At m.watcher jobs ∧
          (jobs = [] → ∀ x' ∈ e, x'.thread ≠ m.watcher)) ∧
      Watching st m k c₂ s := by
  refine ⟨fun x hx => ?_, ?_, (hc.watching hb hs hans hj hcommand huntil).2⟩
  · obtain ⟨v, -, -, -, -, hv, -⟩ := (hc.stepped hb).moves
    rcases List.mem_append.1 hx with hx | hx
    · exact Nat.ne_of_lt (hc.before.1.thread_lt hb hx)
    · obtain rfl := List.mem_singleton.1 hx
      exact Nat.ne_of_lt (List.getElem?_eq_some_iff.1 hv).1
  · rintro d x e rfl hx
    have hrest := hc.after hb
    have hunbroken := (hc.stepped hb).unbroken
    have hfront : Chronicle st b (c₁ ++ m :: d) x.before := by
      have hall : Chronicle st b ((c₁ ++ m :: d) ++ x :: e) s := by simpa using hc
      exact hall.before.1
    obtain ⟨hreserved, hwatching⟩ := hfront.watching hb hs hans hj hcommand huntil
    have hstep := hrest.stepped hunbroken
    rw [hx] at hstep
    obtain ⟨-, l, y, jobs, hl, hy, hdelivers, hwatches, hat⟩ :=
      hwatching.own hans hstep (hfront.unbroken hb) hreserved
    rw [← hx] at hwatches
    refine ⟨l, y, jobs, hl, hy, hdelivers, hwatches, hat, ?_⟩
    rintro rfl
    obtain ⟨u, hu, hnil⟩ := hat
    exact ((hrest.after hunbroken).ended hstep.unbroken hu hnil).2

end

/-! ## A handle that is left over -/

def watchedTask : Task := { describe := "watched", image := "busybox", command := ["serve"] }

/-- The task ends when its container has exited. -/
def watchedAction : Action := { alias_ := "job", until_ := "$\x7bstatus:job\x7d == exited" }

/-- A handle stands under the alias before the launch.  The new container has exited when its status is asked for
the fourth time, in the second evaluation. -/
def watchedStart : State (Faulty (World Rehearsal)) :=
  State.ofJobs
    { rehearsalScope { statuses := [("mock-1", [.ok .running, .ok .running, .ok .running, .ok .exited])] } {} with
      aliases := [("job", "mock-9")] }
    [.control watchedTask watchedAction]

def watchedRun : List (Moment (Faulty (World Rehearsal))) × State (Faulty (World Rehearsal)) :=
  watchedStart.chronicle (rehearsed {}) (fun s => s.finished 0) 60 0

/-- The container that is left over is never asked for, and the new one twice before the condition holds. -/
theorem watcher_follows_new_container :
    (rehearsed {}).env.runtime.Answers ∧ watchedStart.Sealed ∧
      ∃ c₁ m c₂ k u, watchedRun.1 = c₁ ++ m :: c₂ ∧ m.job = .launch k ∧ k.task.command ≠ [] ∧
        k.until_.isEmpty = false ∧ Chronicle (rehearsed {}) watchedStart (c₁ ++ m :: c₂) watchedRun.2 ∧
        (∀ x ∈ c₁ ++ [m], x.thread ≠ m.watcher) ∧
        watchedRun.2.threads[m.watcher]? = some u ∧ u.tally = 2 ∧
        ∃ x ∈ c₂, x.thread = m.watcher ∧ x.Watches (rehearsed {}) m.promise "mock-1" k.condition [] := by
  have hans : (rehearsed {}).env.runtime.Answers := Faulty.answers Rehearsal.answers
  have hsealed : watchedStart.Sealed :=
    sealed_of_none (List.forall_mem_singleton.2 (List.forall_mem_singleton.2 rfl))
  have hlaunches : (watchedRun.1.any fun m => m.job matches .launch _) = true := by decide +kernel
  have hlaunch : ∀ m ∈ watchedRun.1, ∀ k, m.job = .launch k → k.task.command ≠ [] ∧ k.until_.isEmpty = false ∧
      m.watcher = 1 ∧ (m.before.scope.launch (rehearsed {}).env k.task).2.broken = false ∧
        (m.before.scope.launch (rehearsed {}).env k.task).1.toOption.map Launch.handle = some "mock-1" := by
    have hall : ∀ m ∈ watchedRun.1, (match m.job with
        | .launch k => !k.task.command.isEmpty && !k.until_.isEmpty && m.watcher == 1 &&
          !(m.before.scope.launch (rehearsed {}).env k.task).2.broken &&
          (m.before.scope.launch (rehearsed {}).env k.task).1.toOption.map Launch.handle == some "mock-1"
        | _ => true) = true := by decide +kernel
    intro m hm k hj
    have h := hall m hm
    rw [hj] at h
    simp only [Bool.and_eq_true, Bool.not_eq_true', beq_iff_eq, List.isEmpty_eq_false_iff] at h
    exact ⟨h.1.1.1.1, h.1.1.1.2, h.1.1.2, h.1.2, h.2⟩
  have hdone : (watchedRun.2.threads[1]?).any (fun u => u.finished && u.tally == 2) = true := by decide +kernel
  obtain ⟨m, hm, hj⟩ := List.any_eq_true.1 hlaunches
  obtain ⟨k, hj⟩ : ∃ k, m.job = .launch k := by
    cases h : m.job with
    | launch k => exact ⟨k, rfl⟩
    | _ =>
      rw [h] at hj
      cases hj
  obtain ⟨hcommand, huntil, hwatcher, hunbroken, hhandle⟩ := hlaunch m hm k hj
  obtain ⟨c₁, c₂, hsplit⟩ := List.append_of_mem hm
  have hc : Chronicle (rehearsed {}) watchedStart (c₁ ++ m :: c₂) watchedRun.2 :=
    hsplit ▸ State.chronicle_spec _ _ _ _ _
  obtain ⟨hbefore, -, hwatching⟩ := watcher_follows_launch hans rfl hsealed hc hj hcommand huntil
  obtain ⟨u, hu, hended⟩ := (Option.any_eq_true _ _).1 hdone
  rw [Bool.and_eq_true, beq_iff_eq] at hended
  have hnil : u.jobs = [] := List.isEmpty_iff.1 hended.1
  rw [← hwatcher] at hu
  refine ⟨hans, hsealed, c₁, m, c₂, k, u, hsplit, hj, hcommand, huntil, hc, hbefore, hu, hended.2, ?_⟩
  cases hwatching with
  | waits _ hthread =>
    obtain rfl := Option.some.inj (hu.symm.trans hthread)
    cases hnil
  | refused fault hfault =>
    rw [hfault] at hhandle
    cases hhandle
  | brokeOff hbroken =>
    rw [hbroken] at hunbroken
    cases hunbroken
  | delivered l y v hl _ _ _ hthread _ hjobs =>
    obtain rfl := Option.some.inj (hu.symm.trans hthread)
    rw [hl] at hhandle
    rw [← show l.handle = "mock-1" from Option.some.inj hhandle]
    rcases hjobs with hjobs | hjobs | ⟨-, hx⟩
    · rw [hnil] at hjobs
      cases hjobs
    · rw [hnil] at hjobs
      cases hjobs
    · exact hx

end Workload.Run
