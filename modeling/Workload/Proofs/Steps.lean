import Mathlib.Algebra.GroupWithZero.Nat
import Mathlib.Data.List.Chain
import Workload.Proofs.Effects
import Workload.Run.Schedule

/-!
# What a step does

`State.step?_stepped` inverts a step of a thread: which job was done, and what the tables say of it.
A step leaves a scope in which nothing has been asked for that cannot be done, and a thread breaks off
only in the middle of a job that is not steady.
-/

namespace Workload.Run

variable {σ : Type}

/-! ## Steady jobs -/

theorem State.terminate_broken (code : Int) (s : State σ) :
    (s.terminate code).scope.broken = s.scope.broken := by
  unfold terminate
  split_ifs
  · rfl
  · rw [record_broken]
    exact record_broken { s with scope := s.scope.print s.report.render } .emitted

theorem State.failed_broken (st : Settings σ) (i : ThreadId) (describe : String)
    (fault : RuntimeFault) (s : State σ) :
    (s.failed st i describe fault).scope.broken = s.scope.broken := by
  have hn : ((s.record (.failed describe fault)).note (.error "task failed")).scope.broken
      = s.scope.broken := by
    rw [note_broken, record_broken]
  unfold failed
  simp only []
  split_ifs
  · unfold collect
    split
    · exact hn
    · split_ifs
      · exact hn
      · exact (note_broken _ _).trans hn
  · exact hn
  · exact record_broken s _

theorem State.drain_broken (i : ThreadId) (c : ChannelId) (describe : String) (left : Nat)
    (s : State σ) : (s.drain i c describe left).scope.broken = s.scope.broken := by
  unfold drain
  simp only []
  split
  · split
    · rfl
    · exact note_broken (State.count i (s.onChannel c _)) _
  · rfl

theorem State.opened_broken (st : Settings σ) (i : ThreadId) (inv : Invocation) (s : State σ) :
    (s.opened st i inv).scope.broken = s.scope.broken := by
  unfold opened
  simp only []
  split_ifs
  · rfl
  · rfl
  · exact note_broken s _

/-- After a steady job nothing has been asked for that cannot be done. -/
theorem Job.steady_broken {j : Job} (hj : j.steady = true) (st : Settings σ) (i : ThreadId)
    (s : State σ) : (j.perform st i s).scope.broken = s.scope.broken := by
  cases j with
  | opening calls inv =>
    cases calls with
    | nil => exact State.opened_broken st i inv s
    | cons c cs => cases hj
  | passes inv limit pass =>
    simp only [Job.perform]
    unfold State.passes
    split_ifs <;> rfl
  | emit => exact State.record_broken { s with scope := s.scope.print s.report.render } .emitted
  | elapsed =>
    exact (State.terminate_broken 0 (s.note _)).trans (State.note_broken s _)
  | control task a =>
    simp only [Job.perform]
    unfold State.control State.aliasOf
    split_ifs <;> rfl
  | launched k watcher l c => exact State.launched_broken i s k watcher l c
  | failed describe fault => exact State.failed_broken st i describe fault s
  | stopOnError =>
    simp only [Job.perform]
    unfold State.stopOnError
    split_ifs
    · exact State.terminate_broken 1 s
    · rfl
  | drain c describe left => exact State.drain_broken i c describe left s
  | awaitLaunch p condition =>
    simp only [Job.perform]
    unfold State.awaitLaunch
    split <;> rfl
  | setLoops | endCollection | settlePromise | send | sleep | wake | join | hang => rfl
  | reclaim | teardown | saveLogs | removeServers | walk | leaveScope | provideScope
  | enterScope | dispatch | gate | launch | removeAll | repeatLoop | untilLoop | watch | expire =>
    cases hj

/-! ## Steps of threads -/

/-- A launch in the middle of which its thread breaks off is none. -/
def Job.Vain (s s' : State σ) (j : Job) : Prop :=
  ∀ k, j = .launch k →
    s'.report = s.report ∧ s'.channels = s.channels ∧ s'.scope.trace = s.scope.trace

/-- From `s` to `s'` thread `i` did `j`, the next of its jobs. -/
structure Stepped (st : Settings σ) (i : ThreadId) (j : Job) (s s' : State σ) : Prop where
  ready : j.blocked s = false
  result : s' = (j.perform st i (s.pop i)).endBroken i
  moves : ∃ t js t' new spawned, s.threads[i]? = some t ∧ t.jobs = j :: js ∧
    j.Yields st s s' new spawned ∧
    s'.threads = s.threads.set i t' ++ spawned.map Thread.ofJobs ∧
    (t'.jobs = new ++ js ∧ t'.crashed = t.crashed ∨
      j.steady = false ∧ j.Vain s s' ∧ t'.jobs = [] ∧ t'.crashed = true)
  board : j.Posts s.board s'.board
  scope : s.scope.Grows j.notes s'.scope
  unbroken : s'.scope.broken = false

namespace State

theorem endBroken_of_broken {s : State σ} (hb : s.scope.broken = true) (i : ThreadId) :
    s.endBroken i = crash i { s with scope := { s.scope with broken := false } } :=
  if_pos hb

theorem endBroken_of_unbroken {s : State σ} (hb : s.scope.broken = false) (i : ThreadId) :
    s.endBroken i = s :=
  if_neg (by rw [hb]; exact Bool.false_ne_true)

theorem endBroken_board (i : ThreadId) (s : State σ) : (s.endBroken i).board = s.board := by
  unfold endBroken
  split_ifs <;> rfl

theorem endBroken_unbroken (i : ThreadId) (s : State σ) : (s.endBroken i).scope.broken = false := by
  unfold endBroken
  split_ifs with h
  · rfl
  · exact Bool.not_eq_true _ ▸ h

theorem pop_getElem? {i : ThreadId} {t : Thread} {s : State σ} (h : s.threads[i]? = some t) :
    (s.pop i).threads[i]? = some { t with jobs := t.jobs.tail } := by
  unfold pop
  rw [List.getElem?_modify, h]
  simp

theorem pop_threads {i : ThreadId} {t : Thread} {s : State σ} (h : s.threads[i]? = some t) :
    (s.pop i).threads = s.threads.set i { t with jobs := t.jobs.tail } :=
  modify_eq_set_of_getElem? _ h

theorem endBroken_yields {st : Settings σ} {i : ThreadId} {j : Job} {s s' : State σ}
    {new : List Job} {spawned : List (List Job)} (h : j.Yields st (s.pop i) s' new spawned) :
    j.Yields st s (s'.endBroken i) new spawned := by
  unfold endBroken
  split_ifs
  all_goals
    cases j with
    | opening calls inv =>
      cases calls with
      | nil => exact h
      | cons c cs => cases c <;> exact h
    | walk pass last rest => cases rest <;> exact h
    | removeAll handles => cases handles <;> exact h
    | launch k =>
      rcases h with h | ⟨hb, h⟩
      · exact .inl h
      · exact .inr ⟨by first | rfl | exact hb, h⟩
    | _ => exact h

theorem endBroken_trace (i : ThreadId) (s : State σ) :
    (s.endBroken i).scope.trace = s.scope.trace := by
  unfold endBroken
  split_ifs <;> rfl

/-- A thread goes on after a job, or breaks off in the middle of one that is not steady. -/
theorem endBroken_moves {st : Settings σ} {i : ThreadId} {j : Job} {s s' : State σ}
    (h : Effect st i j s s') (hj : j.steady = true → s'.scope.broken = false) :
    ∃ new spawned, j.Yields st s s' new spawned ∧
      (s.Moves j.notes i new spawned (s'.endBroken i) ∨
        j.steady = false ∧ j.Vain s s' ∧ s.Breaks j.notes i spawned (s'.endBroken i)) := by
  obtain ⟨⟨new, spawned, hy, hm⟩, -⟩ := h
  refine ⟨new, spawned, hy, ?_⟩
  unfold endBroken
  split_ifs with hb
  · have hns : j.steady = false := by
      cases hs : j.steady with
      | false => rfl
      | true => rw [hj hs] at hb; cases hb
    have hv : j.Vain s s' := by
      rintro k rfl
      rcases hy with ⟨-, hr, hc, ht, -, -⟩ | ⟨hub, -⟩
      · exact ⟨hr, hc, ht⟩
      · rw [hub] at hb
        cases hb
    have hc : s.Breaks j.notes i spawned (s'.crash i) := by
      rcases hm with hm | ⟨-, hm⟩
      · exact hm.crash
      · exact hm.crash
    exact .inr ⟨hns, hv, hc.threads, hc.scope.trans (.of_eq rfl rfl)⟩
  · rcases hm with hm | ⟨⟨a, rfl⟩, hm⟩
    · exact .inl hm
    · exact .inr ⟨rfl, fun k hk => (nomatch hk), hm⟩

/-- A step of a thread is that of its next job, and nothing else happens in it. -/
theorem step?_stepped {st : Settings σ} {i : ThreadId} {s s' : State σ} (hb : s.scope.broken = false)
    (h : s.step? st i = some s') : ∃ j, Stepped st i j s s' := by
  unfold step? next? at h
  rcases ht : s.threads[i]? with _ | t
  · rw [ht] at h
    cases h
  rcases hj : t.jobs with _ | ⟨j, js⟩
  · rw [ht] at h
    simp only [Option.bind_some, hj, List.head?_nil] at h
    cases h
  rw [ht] at h
  simp only [Option.bind_some, hj, List.head?_cons] at h
  split_ifs at h with hr
  rw [Bool.not_eq_true] at hr
  have hs' : (j.perform st i (s.pop i)).endBroken i = s' := Option.some.inj h
  have he := j.perform_effect st i (s.pop i)
  obtain ⟨new, spawned, hy, hm⟩ :=
    endBroken_moves he fun hj => (Job.steady_broken hj st i _).trans hb
  have hy' := endBroken_yields hy
  have hp : j.Posts s.board ((j.perform st i (s.pop i)).endBroken i).board := by
    rw [endBroken_board]
    exact he.board
  have hpop := pop_getElem? ht
  rw [hj, List.tail_cons] at hpop
  have hv' : j.Vain (s.pop i) (j.perform st i (s.pop i)) → j.Vain s s' := by
    intro hv k hk
    rw [← hs']
    obtain ⟨hr, hc, ht⟩ := hv k hk
    have hb := endBroken_board i (j.perform st i (s.pop i))
    exact ⟨(congrArg Board.report hb).trans hr, (congrArg Board.channels hb).trans hc,
      (endBroken_trace i _).trans ht⟩
  rw [hs'] at hm hy' hp
  rcases hm with hm | ⟨hns, hv, hm⟩
  · obtain ⟨n, hn⟩ := hm.threads _ hpop
    rw [pop_threads ht, List.set_set] at hn
    exact ⟨j, hr, hs'.symm, ⟨t, js, _, new, spawned, ht, hj, hy', hn, .inl ⟨rfl, rfl⟩⟩, hp, hm.scope,
      hs' ▸ endBroken_unbroken i _⟩
  · obtain ⟨n, hn⟩ := hm.threads _ hpop
    rw [pop_threads ht, List.set_set] at hn
    exact ⟨j, hr, hs'.symm, ⟨t, js, _, new, spawned, ht, hj, hy', hn, .inr ⟨hns, hv' hv, rfl, rfl⟩⟩, hp,
      hm.scope, hs' ▸ endBroken_unbroken i _⟩

/-! ## The clock -/

theorem mem_of_wakeTime? {t : Thread} {time : Nat} (h : t.wakeTime? = some time) :
    ∃ js, t.jobs = .wake time :: js := by
  unfold Thread.wakeTime? at h
  split at h
  · rename_i u hu
    cases h
    rcases hj : t.jobs with _ | ⟨j, js⟩
    · rw [hj] at hu
      cases hu
    · rw [hj] at hu
      cases hu
      exact ⟨js, rfl⟩
  · cases h

theorem wakeTime?_of_jobs {t : Thread} {time : Nat} {js : List Job} (h : t.jobs = .wake time :: js) :
    t.wakeTime? = some time := by
  unfold Thread.wakeTime?
  rw [h]
  rfl

/-- The clock goes on to a time that is yet to come, and past none that a thread waits for. -/
theorem nextWake?_spec {s : State σ} {time : Nat} (hn : ∀ i, s.enabled i = false)
    (h : s.nextWake? = some time) :
    s.scope.clock < time ∧ ∀ t ∈ s.threads, ∀ u js, t.jobs = .wake u :: js → time ≤ u := by
  unfold nextWake? at h
  obtain ⟨hmem, hle⟩ := List.min?_eq_some_iff.1 h
  refine ⟨?_, fun t ht u js hj => hle u (List.mem_filterMap.2 ⟨t, ht, wakeTime?_of_jobs hj⟩)⟩
  obtain ⟨t, ht, hw⟩ := List.mem_filterMap.1 hmem
  obtain ⟨js, hj⟩ := mem_of_wakeTime? hw
  obtain ⟨i, hi⟩ := List.mem_iff_getElem?.1 ht
  have he := hn i
  unfold enabled next? at he
  rw [hi] at he
  simpa [hj, Job.blocked] using he

/-- A thread whose next job does not have to wait keeps the clock from going on. -/
theorem blocked_of_not_enabled {s : State σ} (hn : ∀ i, s.enabled i = false) {t : Thread}
    (ht : t ∈ s.threads) {j : Job} {js : List Job} (hj : t.jobs = j :: js) :
    j.blocked s = true := by
  obtain ⟨i, hi⟩ := List.mem_iff_getElem?.1 ht
  have he := hn i
  unfold enabled next? at he
  rw [hi] at he
  simpa [hj] using he

/-! ## The jobs of all threads -/

/-- Every thread has jobs of the given kind. -/
def Stacks (P : List Job → Prop) (s : State σ) : Prop := ∀ t ∈ s.threads, P t.jobs

/-- How many jobs of all threads are of the given kind. -/
def pending (p : Job → Bool) (s : State σ) : Nat := (s.threads.map fun t => t.jobs.countP p).sum

theorem sum_map_set {α : Type} (f : α → Nat) {l : List α} {i : Nat} {a : α} (b : α)
    (h : l[i]? = some a) : ((l.set i b).map f).sum + f a = (l.map f).sum + f b := by
  induction l generalizing i with
  | nil => cases h
  | cons x l ih =>
    cases i with
    | zero =>
      cases h
      simp only [List.set_cons_zero, List.map_cons, List.sum_cons]
      omega
    | succ i =>
      have := ih (i := i) h
      simp only [List.set_cons_succ, List.map_cons, List.sum_cons]
      omega

theorem pending_eq_zero {p : Job → Bool} {s : State σ} :
    s.pending p = 0 ↔ ∀ t ∈ s.threads, ∀ j ∈ t.jobs, p j = false := by
  unfold pending
  rw [List.sum_eq_zero_iff_forall_eq_nat, List.forall_mem_map]
  simp only [List.countP_eq_zero, Bool.not_eq_true]

theorem sum_countP_eq_zero {p : Job → Bool} {ls : List (List Job)}
    (h : ∀ l ∈ ls, ∀ x ∈ l, p x = false) : (ls.map fun l => l.countP p).sum = 0 := by
  rw [List.sum_eq_zero_iff_forall_eq_nat, List.forall_mem_map]
  intro l hl
  rw [List.countP_eq_zero]
  exact fun x hx => Bool.not_eq_true _ ▸ h l hl x hx

theorem pending_pos {p : Job → Bool} {s : State σ} {t : Thread} (ht : t ∈ s.threads) {j : Job}
    (hj : j ∈ t.jobs) (hp : p j = true) : s.pending p ≠ 0 := by
  intro h
  rw [pending_eq_zero.1 h t ht j hj] at hp
  cases hp

/-- A channel accepts nothing if no job holds its receiving end. -/
theorem accepts_eq_false_of_pending {c : ChannelId} {s : State σ} (h : s.pending (Job.takes c) = 0) :
    s.accepts c = false := by
  refine Bool.and_eq_false_iff.2 (.inr (List.any_eq_false.2 fun t ht => ?_))
  rw [Bool.not_eq_true]
  refine List.any_eq_false.2 fun j hj => ?_
  rw [pending_eq_zero.1 h t ht j hj]
  exact Bool.false_ne_true

/-- Nobody holds the receiving end of a channel that is open but accepts nothing. -/
theorem pending_takes_eq_zero {c : ChannelId} {ch : Channel} {s : State σ} (hch : s.channels[c]? = some ch)
    (hopen : ch.closed = false) (h : s.accepts c = false) : s.pending (Job.takes c) = 0 := by
  unfold accepts at h
  rw [hch, Option.any_some, hopen, Bool.not_false, Bool.true_and, List.any_eq_false] at h
  refine pending_eq_zero.2 fun t ht j hj => Bool.not_eq_true _ ▸ ?_
  exact List.any_eq_false.1 (Bool.not_eq_true _ ▸ h t ht) j hj

/-- Jobs of which none has to stand behind particular ones are in order. -/
theorem isChain_of_tail {R : Job → Job → Prop} {jobs : List Job} (h : ∀ a, ∀ b ∈ jobs.tail, R a b) :
    jobs.IsChain R := by
  induction jobs with
  | nil => exact .nil
  | cons a jobs ih =>
    cases jobs with
    | nil => exact .singleton a
    | cons b jobs =>
      refine List.isChain_cons_cons.2 ⟨h a b List.mem_cons_self, ih fun x y hy => ?_⟩
      exact h x y (List.mem_cons_of_mem b hy)

end State

namespace Stepped

variable {st : Settings σ} {i : ThreadId} {j : Job} {s s' : State σ}

/-- The threads after a step are those before it, the one that took the step and those it started. -/
theorem mem_threads {l : List (List Job)} {t' u : Thread}
    (hth : s'.threads = s.threads.set i t' ++ l.map Thread.ofJobs) (hu : u ∈ s'.threads) :
    u ∈ s.threads ∨ u = t' ∨ ∃ jobs ∈ l, u = Thread.ofJobs jobs := by
  rw [hth, List.mem_append] at hu
  rcases hu with hu | hu
  · rcases List.mem_or_eq_of_mem_set hu with hu | hu
    · exact .inl hu
    · exact .inr (.inl hu)
  · obtain ⟨jobs, hm, rfl⟩ := List.mem_map.1 hu
    exact .inr (.inr ⟨jobs, hm, rfl⟩)

/-- After a step the thread that took it is where it was, like the others, and the new ones follow. -/
theorem getElem?_threads {l : List (List Job)} {t' : Thread}
    (hth : s'.threads = s.threads.set i t' ++ l.map Thread.ofJobs) (hi : i < s.threads.length) :
    s'.threads[i]? = some t' ∧ s.threads.length ≤ s'.threads.length ∧
      ∀ k u, s'.threads[k]? = some u → k ≠ i →
        s.threads[k]? = some u ∨ s.threads.length ≤ k ∧ ∃ jobs ∈ l, u = Thread.ofJobs jobs := by
  refine ⟨?_, ?_, fun k u hu hk => ?_⟩
  · rw [hth, List.getElem?_append_left (by simpa using hi), List.getElem?_set_self hi]
  · rw [hth, List.length_append, List.length_set]
    exact Nat.le_add_right _ _
  · rw [hth] at hu
    by_cases hlen : k < s.threads.length
    · rw [List.getElem?_append_left (by simpa using hlen), List.getElem?_set_ne (Ne.symm hk)] at hu
      exact .inl hu
    · rw [List.getElem?_append_right (by simpa using Nat.le_of_not_lt hlen)] at hu
      obtain ⟨jobs, hm, hju⟩ := List.mem_map.1 (List.mem_of_getElem? hu)
      exact .inr ⟨Nat.le_of_not_lt hlen, jobs, hm, hju.symm⟩

/-- What holds of the jobs of every thread, of what a job leaves and of what it starts, holds of
the jobs of every thread after the step. -/
theorem forall_stacks {P : List Job → Prop} (h : Stepped st i j s s') (hP : s.Stacks P) (hnil : P [])
    (hnew : ∀ js new spawned, (∃ t ∈ s.threads, t.jobs = j :: js) → P (j :: js) →
      j.Yields st s s' new spawned → P (new ++ js) ∧ ∀ l ∈ spawned, P l) : s'.Stacks P := by
  obtain ⟨t, js, t', new, spawned, ht, hj, hy, hth, ht'⟩ := h.moves
  have hPt := hP t (List.mem_of_getElem? ht)
  rw [hj] at hPt
  obtain ⟨hthis, hspawned⟩ := hnew js new spawned ⟨t, List.mem_of_getElem? ht, hj⟩ hPt hy
  intro u hu
  rcases mem_threads hth hu with hu | rfl | ⟨jobs, hm, rfl⟩
  · exact hP u hu
  · rcases ht' with ⟨hjobs, -⟩ | ⟨-, -, hjobs, -⟩
    · rw [hjobs]
      exact hthis
    · rw [hjobs]
      exact hnil
  · exact hspawned jobs hm

/-- The jobs of a thread stay in order if what a job leaves is in order, and may stand before whatever
the job may stand before. -/
theorem chained {R : Job → Job → Prop} (h : Stepped st i j s s') (hc : s.Stacks (List.IsChain R))
    (hnew : ∀ new spawned, j.Yields st s s' new spawned →
      new.IsChain R ∧ (∀ x ∈ new, ∀ y, R j y → R x y) ∧ ∀ l ∈ spawned, l.IsChain R) :
    s'.Stacks (List.IsChain R) := by
  refine h.forall_stacks hc .nil fun js new spawned _ hjs hy => ?_
  obtain ⟨hchain, hjoin, hspawned⟩ := hnew new spawned hy
  refine ⟨List.isChain_append.2 ⟨hchain, hjs.tail, fun x hx y hy' => ?_⟩, hspawned⟩
  obtain ⟨js', rfl⟩ := List.head?_eq_some_iff.1 hy'
  exact hjoin x (List.mem_of_getLast? hx) y (List.isChain_cons_cons.1 hjs).1

/-- The law for the jobs of any kind: those of the job that is done go, those that it leaves and those
that it starts come, and a thread that breaks off loses all of its own. -/
theorem pending (h : Stepped st i j s s') : ∃ js new spawned,
    (∃ t ∈ s.threads, t.jobs = j :: js) ∧ j.Yields st s s' new spawned ∧
    ((∀ p, s'.pending p + [j].countP p =
        s.pending p + new.countP p + (spawned.map fun l => l.countP p).sum) ∨
      j.steady = false ∧ j.Vain s s' ∧ (∃ t ∈ s'.threads, t.crashed = true) ∧
        ∀ p, s'.pending p + (j :: js).countP p =
          s.pending p + (spawned.map fun l => l.countP p).sum) := by
  obtain ⟨t, js, t', new, spawned, ht, hj, hy, hth, ht'⟩ := h.moves
  refine ⟨js, new, spawned, ⟨t, List.mem_of_getElem? ht, hj⟩, hy, ?_⟩
  have hset := fun p => State.sum_map_set (fun t => t.jobs.countP p) t' ht
  have hsum : ∀ p, s'.pending p = ((s.threads.set i t').map fun t => t.jobs.countP p).sum +
      (spawned.map fun l => l.countP p).sum := fun p => by
    unfold State.pending
    rw [hth, List.map_append, List.sum_append, List.map_map]
    rfl
  rcases ht' with ⟨hjobs, -⟩ | ⟨hns, hv, hjobs, hcr⟩
  · refine .inl fun p => ?_
    have hp := hset p
    rw [hj, hjobs, List.countP_append, ← List.singleton_append, List.countP_append] at hp
    have := hsum p
    unfold State.pending at *
    omega
  · have hi : i < s.threads.length := (List.getElem?_eq_some_iff.1 ht).1
    have hmem : t' ∈ s'.threads := by
      rw [hth]
      exact List.mem_append_left _ (List.mem_of_getElem? (List.getElem?_set_self hi))
    refine .inr ⟨hns, hv, ⟨t', hmem, hcr⟩, fun p => ?_⟩
    have hp := hset p
    rw [hj, hjobs, List.countP_nil] at hp
    have := hsum p
    unfold State.pending at *
    omega

/-- The jobs of a thread after a step, by its number: that of the one that took the step, of another one,
or of one that it started. -/
theorem thread_cases (h : Stepped st i j s s') : ∃ t js new spawned,
    s.threads[i]? = some t ∧ t.jobs = j :: js ∧ j.Yields st s s' new spawned ∧
    ∀ k u, s'.threads[k]? = some u →
      k = i ∧ (u.jobs = new ++ js ∧ u.crashed = t.crashed ∨ u.jobs = [] ∧ u.crashed = true) ∨
      k ≠ i ∧ s.threads[k]? = some u ∨
      k ≠ i ∧ s.threads.length ≤ k ∧ ∃ jobs ∈ spawned, u = Thread.ofJobs jobs := by
  obtain ⟨t, js, t', new, spawned, ht, hj, hy, hth, ht'⟩ := h.moves
  obtain ⟨hself, -, hothers⟩ := getElem?_threads hth (List.getElem?_eq_some_iff.1 ht).1
  refine ⟨t, js, new, spawned, ht, hj, hy, fun k u hu => ?_⟩
  by_cases hki : k = i
  · subst hki
    rw [hself] at hu
    obtain rfl := Option.some.inj hu
    rcases ht' with ht' | ⟨-, -, hjobs, hcr⟩
    · exact .inl ⟨rfl, .inl ht'⟩
    · exact .inl ⟨rfl, .inr ⟨hjobs, hcr⟩⟩
  · rcases hothers k u hu hki with hold | hnew
    · exact .inr (.inl ⟨hki, hold⟩)
    · exact .inr (.inr ⟨hki, hnew⟩)

/-- A step leaves the jobs of the other threads as they are. -/
theorem getElem?_other {l : List (List Job)} {t' : Thread} {k : ThreadId} {u : Thread}
    (hth : s'.threads = s.threads.set i t' ++ l.map Thread.ofJobs) (hk : i ≠ k)
    (hu : s.threads[k]? = some u) : s'.threads[k]? = some u := by
  have hlen : k < s.threads.length := (List.getElem?_eq_some_iff.1 hu).1
  rw [hth, List.getElem?_append_left (by simpa using hlen), List.getElem?_set_ne hk, hu]

/-- A thread that has broken off stays so. -/
theorem crashed_at (h : Stepped st i j s s') {k : ThreadId} {u : Thread}
    (hu : s.threads[k]? = some u) (hcr : u.crashed = true) :
    ∃ u', s'.threads[k]? = some u' ∧ u'.crashed = true := by
  obtain ⟨t, js, t', new, spawned, ht, hj, -, hth, ht'⟩ := h.moves
  by_cases hki : i = k
  · subst hki
    rw [hu] at ht
    obtain rfl := Option.some.inj ht
    refine ⟨t', (getElem?_threads hth (List.getElem?_eq_some_iff.1 hu).1).1, ?_⟩
    rcases ht' with ⟨-, h⟩ | ⟨-, -, -, h⟩
    · rw [h, hcr]
    · exact h
  · exact ⟨u, getElem?_other hth hki hu, hcr⟩

theorem crashed (h : Stepped st i j s s') (hc : ∃ t ∈ s.threads, t.crashed = true) :
    ∃ t ∈ s'.threads, t.crashed = true := by
  obtain ⟨u, hu, hcr⟩ := hc
  obtain ⟨k, hk⟩ := List.mem_iff_getElem?.1 hu
  obtain ⟨u', hu', hcr'⟩ := h.crashed_at hk hcr
  exact ⟨u', List.mem_of_getElem? hu', hcr'⟩

/-- What a steady job makes of a state stands. -/
theorem of_steady (h : Stepped st i j s s') (hj : j.steady = true) (hb : s.scope.broken = false) :
    s' = j.perform st i (s.pop i) := by
  rw [h.result]
  exact State.endBroken_of_unbroken ((Job.steady_broken hj st i (s.pop i)).trans hb) i

end Stepped

/-! ## Reachable states -/

theorem Step.unbroken {st : Settings σ} {s s' : State σ} (h : Step st s s')
    (hb : s.scope.broken = false) : s'.scope.broken = false := by
  cases h with
  | thread i h =>
    obtain ⟨j, hs⟩ := State.step?_stepped hb h
    exact hs.unbroken
  | clock _ _ => exact hb

/-- An invariant of the steps of the threads and of the clock holds in every state that is reached. -/
theorem Reaches.invariant {st : Settings σ} {P : State σ → Prop} {s₀ s : State σ}
    (h : Reaches st s₀ s) (hb : s₀.scope.broken = false) (h₀ : P s₀)
    (hthread : ∀ i j s s', P s → Stepped st i j s s' → P s')
    (hclock : ∀ s time, P s → (∀ i, s.enabled i = false) → s.nextWake? = some time →
      P (s.setClock time)) : s.scope.broken = false ∧ P s := by
  induction h with
  | refl => exact ⟨hb, h₀⟩
  | step _ hstep ih =>
    obtain ⟨hb', hP⟩ := ih
    refine ⟨hstep.unbroken hb', ?_⟩
    cases hstep with
    | thread i h =>
      obtain ⟨j, hs⟩ := State.step?_stepped hb' h
      exact hthread i j _ _ hP hs
    | clock hn hw => exact hclock _ _ hP hn hw

/-!
## Histories

The history of a run lists what its threads did, job by job, with the events that were noted.  Every
run has one (`runs_of_reaches`), and a history tells in which order a thread did its jobs.
-/

/-- One job done by a thread, and what was noted, the latest first. -/
structure Deed where
  thread : ThreadId
  job : Job
  noted : List TimedEvent

/-- What can come of a state, and what the threads did on the way. -/
inductive Runs (st : Settings σ) (s₀ : State σ) : List Deed → State σ → Prop
  | refl : Runs st s₀ [] s₀
  | thread {h : List Deed} {s s' : State σ} {i : ThreadId} {j : Job} {noted : List TimedEvent} :
    Runs st s₀ h s → s.next? i = some j → s.step? st i = some s' →
    s'.scope.trace = noted ++ s.scope.trace → Runs st s₀ (h ++ [⟨i, j, noted⟩]) s'
  | clock {h : List Deed} {s : State σ} {time : Nat} :
    Runs st s₀ h s → (∀ i, s.enabled i = false) → s.nextWake? = some time →
    Runs st s₀ h (s.setClock time)

section

variable {st : Settings σ} {s₀ s s' : State σ}

theorem Runs.reaches {h : List Deed} (hr : Runs st s₀ h s) : Reaches st s₀ s := by
  induction hr with
  | refl => exact .refl s₀
  | thread _ _ hs _ ih => exact .step ih (.thread _ hs)
  | clock _ hn hw ih => exact .step ih (.clock hn hw)

theorem Runs.unbroken {h : List Deed} (hr : Runs st s₀ h s) (hb : s₀.scope.broken = false) :
    s.scope.broken = false :=
  (hr.reaches.invariant (P := fun _ => True) hb trivial (fun _ _ _ _ _ _ => trivial)
    fun _ _ _ _ _ => trivial).1

theorem Stepped.next? {i : ThreadId} {j : Job} (h : Stepped st i j s s') : s.next? i = some j := by
  obtain ⟨t, js, -, -, -, ht, hj, -⟩ := h.moves
  unfold State.next?
  rw [ht]
  show t.jobs.head? = some j
  rw [hj]
  rfl

/-- The job that a step does is the next one. -/
theorem stepped_of_next? {i : ThreadId} {j : Job} (hb : s.scope.broken = false)
    (hj : s.next? i = some j) (hs : s.step? st i = some s') : Stepped st i j s s' := by
  obtain ⟨k, hk⟩ := State.step?_stepped hb hs
  rw [hk.next?] at hj
  obtain rfl := Option.some.inj hj
  exact hk

/-- Every run has a history. -/
theorem runs_of_reaches (hr : Reaches st s₀ s) (hb : s₀.scope.broken = false) :
    ∃ h, Runs st s₀ h s := by
  induction hr with
  | refl => exact ⟨[], .refl⟩
  | step _ hstep ih =>
    obtain ⟨h, hh⟩ := ih
    cases hstep with
    | thread i hs =>
      obtain ⟨j, hj⟩ := State.step?_stepped (hh.unbroken hb) hs
      obtain ⟨-, noted, hn, -⟩ := hj.scope
      exact ⟨h ++ [⟨i, j, noted⟩], .thread hh hj.next? hs hn⟩
    | clock hn hw => exact ⟨h, .clock hh hn hw⟩

/-- An invariant of a state with its history, shown step by step. -/
theorem Runs.invariant {P : List Deed → State σ → Prop} {h : List Deed} (hr : Runs st s₀ h s)
    (hb : s₀.scope.broken = false) (h₀ : P [] s₀)
    (hthread : ∀ h i j noted s s', P h s → Stepped st i j s s' →
      s'.scope.trace = noted ++ s.scope.trace → P (h ++ [⟨i, j, noted⟩]) s')
    (hclock : ∀ h s time, P h s → (∀ i, s.enabled i = false) → s.nextWake? = some time →
      P h (s.setClock time)) : P h s := by
  induction hr with
  | refl => exact h₀
  | thread hr hj hs hn ih =>
    exact hthread _ _ _ _ _ _ ih (stepped_of_next? (hr.unbroken hb) hj hs) hn
  | clock _ hn hw ih => exact hclock _ _ _ ih hn hw

end

end Workload.Run
