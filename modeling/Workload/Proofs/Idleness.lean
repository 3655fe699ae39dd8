import Workload.Proofs.Alike
import Workload.Proofs.Straight

/-!
# Jobs that do not matter

Jobs that receive signals, wait or print the report have no part in what is launched: nothing changes with
them that a later command could tell (`idle_still`), and they leave nothing but such jobs
(`idle_moves`).  Where launches tell their signals at once none of them has to wait, but for the clock.
-/

namespace Workload.Run

variable {σ : Type}

/-! ## Jobs and what they matter -/

/-- A job of the run as a whole, or one that resolves actions. -/
def Job.staged : Job → Bool
  | .opening .. | .passes .. | .reclaim _ | .emit | .teardown | .saveLogs | .removeServers | .setLoops _
  | .walk .. | .leaveScope _ | .provideScope _ | .enterScope | .dispatch _ | .endCollection => true
  | _ => false

/-- A job that brings a task to its launch, which waits for no condition. -/
def Job.bound : Job → Bool
  | .control _ a => a.brief
  | .launch k => k.until_.isEmpty && k.repeats = 0
  | _ => false

/-- A job that receives signals or reacts to them. -/
def Job.chore : Job → Bool
  | .failed .. | .stopOnError | .drain .. => true
  | _ => false

/-- A job that waits for the clock, or does what is due when the time of the run is over. -/
def Job.timed : Job → Bool
  | .sleep _ | .wake _ | .elapsed => true
  | _ => false

/-- A job that has no part in what is launched. -/
def Job.idle (j : Job) : Bool := j.chore || j.timed

/-- The jobs of a thread that has no part in what is launched. -/
def Idling (jobs : List Job) : Prop :=
  (∀ j ∈ jobs, j.chore = true) ∨ ∀ j ∈ jobs, j.timed = true

section Kinds

variable {j : Job}

theorem idle_of_chore (h : j.chore = true) : j.idle = true := by
  unfold Job.idle
  rw [h, Bool.true_or]

theorem idle_of_timed (h : j.timed = true) : j.idle = true := by
  unfold Job.idle
  rw [h, Bool.or_true]

theorem not_staged_of_idle (h : j.idle = true) : j.staged = false := by
  cases j <;> first | rfl | cases h

theorem not_bound_of_idle (h : j.idle = true) : j.bound = false := by
  cases j <;> first | rfl | cases h

theorem not_bound_of_staged (h : j.staged = true) : j.bound = false := by
  cases j <;> first | rfl | cases h

theorem not_chore_of_timed (h : j.timed = true) : j.chore = false := by
  cases j <;> first | rfl | cases h

theorem steady_of_idle (h : j.idle = true) : j.steady = true := by
  cases j <;> first | rfl | cases h

theorem Idling.idle {jobs : List Job} (h : Idling jobs) (hj : j ∈ jobs) : j.idle = true :=
  h.elim (fun h => idle_of_chore (h j hj)) fun h => idle_of_timed (h j hj)

/-- A job that belongs to the run or brings a task to its launch does not have to wait. -/
theorem not_blocked_of_staged {s : State σ} (h : j.staged = true) : j.blocked s = false := by
  cases j <;> first | rfl | cases h

theorem not_blocked_of_bound {s : State σ} (h : j.bound = true) : j.blocked s = false := by
  cases j <;> first | rfl | cases h

end Kinds

/-! ## Channels -/

/-- Nobody is left to send signals. -/
def Unsent (s : State σ) : Prop := ∀ c ∈ s.channels, c.senders = 0

section Channels

variable {st : Settings σ} {s s' : State σ} {i : ThreadId} {j : Job}

/-- Where nobody is left to send, those that receive do not have to wait. -/
theorem not_blocked_of_chore (hs : Unsent s) (h : j.chore = true) : j.blocked s = false := by
  cases j with
  | failed | stopOnError => rfl
  | drain c describe left =>
    have hnone : (s.channels[c]?).any (fun ch => ch.queue.isEmpty && ch.senders ≠ 0) = false := by
      cases hc : s.channels[c]? with
      | none => rfl
      | some ch => simp [hs ch (List.mem_of_getElem? hc)]
    exact Bool.and_eq_false_iff.2 (.inr hnone)
  | _ => cases h

theorem unsent_modify {c : ChannelId} {f : Channel → Channel} (hf : ∀ ch, ch.senders = 0 → (f ch).senders = 0)
    (hs : Unsent s) : ∀ ch ∈ s.channels.modify c f, ch.senders = 0 := by
  intro ch hch
  obtain ⟨n, hn⟩ := List.mem_iff_getElem?.1 hch
  rw [List.getElem?_modify] at hn
  obtain ⟨ch', hch', rfl⟩ := Option.map_eq_some_iff.1 hn
  have h0 := hs ch' (List.mem_of_getElem? hch')
  split_ifs
  · exact hf ch' h0
  · exact h0

/-- Where launches tell their signals at once nobody is left to send any. -/
theorem unsent_step (hp : st.env.Prompt) (hs : Unsent s) (h : Stepped st i j s s') : Unsent s' := by
  obtain ⟨t, js, t', new, spawned, -, -, hy, -⟩ := h.moves
  have hkeep : s'.channels = s.channels → Unsent s' := fun hc ch hch => hs ch (hc ▸ hch)
  have hmodify : ∀ {c : ChannelId} {f : Channel → Channel}, s'.channels = s.channels.modify c f →
      (∀ ch, ch.senders = 0 → (f ch).senders = 0) → Unsent s' := fun hc hf ch hch =>
    unsent_modify hf hs ch (hc ▸ hch)
  rcases h.board.channels with hc | ⟨k, rfl⟩ | ⟨c, describe, left, rfl⟩ | ⟨c, signal, rfl⟩ | ⟨c, -, hc⟩
  · exact hkeep hc
  · rcases hy with ⟨p, -, hc, -⟩ | ⟨-, -, hy⟩
    · exact hkeep hc
    · generalize hres : (s.scope.launch st.env k.task).1 = r at hy
      cases hy with
      | refused fault p _ hc => exact hkeep hc
      | known l signals p watcher restarter _ _ hc =>
        intro ch hch
        rw [show s'.channels = _ from hc] at hch
        rcases List.mem_append.1 hch with hch | hch
        · exact hs ch hch
        · rw [List.mem_singleton.1 hch]
      | watched l p watcher restarter hsig =>
        obtain ⟨signals, hsome⟩ := hp _ _ _ hres
        rw [hsig] at hsome
        cases hsome
      | awaited l p watcher observers hsig =>
        obtain ⟨signals, hsome⟩ := hp _ _ _ hres
        rw [hsig] at hsome
        cases hsome
  · obtain ⟨-, hy⟩ := hy
    split at hy
    · exact hmodify hy.2.2 fun _ h0 => h0
    · exact hmodify hy.2.2 fun _ h0 => h0
    · exact hmodify hy.2.2 fun _ h0 => h0
  · have hc : s'.channels = ((s.pop i).send c signal).channels := by
      rw [h.result]
      exact congrArg Board.channels (State.endBroken_board i _)
    refine hmodify hc fun ch h0 => ?_
    show ch.senders - 1 = 0
    rw [h0]
  · refine hmodify hc fun ch h0 => ?_
    show ch.senders - 1 = 0
    rw [h0]

end Channels

/-! ## Idle steps -/

section Idle

variable {st : Settings σ} {s s' : State σ} {i : ThreadId} {j : Job}

/-- Two states between which nothing happened that has a part in what is launched. -/
structure Still (s s' : State σ) : Prop where
  world : s'.scope.world = s.scope.world
  rests : s.Rests s'
  launched : s'.scope.launched = s.scope.launched

theorem launched_of_grows {kinds : List EventKind} {sc sc' : Scope σ} (h : sc.Grows kinds sc')
    (hk : EventKind.run ∉ kinds) : sc'.launched = sc.launched := by
  obtain ⟨-, new, hn, he⟩ := h
  have hnone : new.filterMap TimedEvent.launch? = [] := by
    refine List.filterMap_eq_nil_iff.2 fun e hm => ?_
    have hkind := (he e hm).2
    unfold TimedEvent.launch?
    cases hev : e.event with
    | run task r =>
      rw [hev] at hkind
      exact absurd hkind hk
    | _ => rfl
  unfold Scope.launched
  rw [hn, List.filterMap_append, hnone, List.nil_append]

theorem idle_world (hj : j.idle = true) : (j.perform st i s).scope.world = s.scope.world := by
  cases j with
  | drain c describe left => exact s.drain_world i c describe left
  | failed describe fault => exact s.failed_world st i describe fault
  | stopOnError =>
    show (s.stopOnError st).scope.world = _
    unfold State.stopOnError
    split_ifs
    · exact s.terminate_world 1
    · rfl
  | elapsed => exact (State.terminate_world _ 0).trans (s.note_world _)
  | sleep | wake => rfl
  | _ => cases hj

theorem idle_still (h : Stepped st i j s s') (hj : j.idle = true) : Still s s' := by
  have hk := h.keeps
  have hworld : s'.scope.world = (j.perform st i (s.pop i)).scope.world := by
    rw [h.result]
    unfold State.endBroken
    split_ifs <;> rfl
  refine ⟨hworld.trans (idle_world hj), ⟨⟨hk.aliases ?_ ?_, hk.loops ?_, hk.topology ?_⟩,
    hk.templates ?_, hk.draws ?_⟩, launched_of_grows h.scope ?_⟩
  case refine_7 => cases j <;> first | (simp [Job.notes]; done) | cases hj
  all_goals
    intros
    rintro rfl
    cases hj

/-- What an idle job leaves is as idle as the job itself. -/
structure Leaving (s : State σ) (j : Job) (new : List Job) : Prop where
  chore : j.chore = true → ∀ x ∈ new, x.chore = true
  timed : j.timed = true → ∀ x ∈ new, x.timed = true
  sleep : ∀ ms, j = .sleep ms → new = [.wake (s.scope.clock + ms)]
  wake : ∀ time, j = .wake time → new = []

theorem leaving_of_chore {new : List Job} (hj : j.chore = true) (h : ∀ x ∈ new, x.chore = true) :
    Leaving s j new := by
  refine ⟨fun _ => h, fun ht => ?_, ?_, ?_⟩
  · rw [not_chore_of_timed ht] at hj
    cases hj
  · rintro ms rfl
    cases hj
  · rintro time rfl
    cases hj

/-- A thread goes on after an idle job, and no thread is started. -/
theorem idle_moves (hc : st.collects = false) (hb : s.scope.broken = false) (h : Stepped st i j s s')
    (hj : j.idle = true) : ∃ t js t' new, s.threads[i]? = some t ∧ t.jobs = j :: js ∧
      s'.threads = s.threads.set i t' ∧ t'.jobs = new ++ js ∧ t'.crashed = t.crashed ∧
      Leaving s j new := by
  obtain ⟨t, js, t', new, spawned, ht, hjobs, hy, hth, hcases⟩ := h.moves
  obtain ⟨hjobs', hcrashed⟩ := hcases.resolve_right fun hbr => by
    rw [steady_of_idle hj] at hbr
    cases hbr.1
  have hself := (Stepped.getElem?_threads hth (List.getElem?_eq_some_iff.1 ht).1).1
  have hspawned : spawned = [] := by
    cases j with
    | failed | drain => exact hy.1
    | stopOnError | elapsed | sleep | wake => exact hy.2
    | _ => cases hj
  rw [hspawned, List.map_nil, List.append_nil] at hth
  cases j with
  | failed describe fault =>
    obtain ⟨left, hleft, hleave⟩ := quiet_failed hc hb h ht hjobs hself
    refine ⟨t, js, t', left, ht, hjobs, hth, hleave, hcrashed, leaving_of_chore rfl ?_⟩
    rcases hleft with rfl | rfl <;> simp [Job.chore]
  | stopOnError =>
    obtain ⟨rfl, -⟩ := hy
    exact ⟨t, js, t', [], ht, hjobs, hth, hjobs', hcrashed, leaving_of_chore rfl (by simp)⟩
  | drain c describe left =>
    refine ⟨t, js, t', new, ht, hjobs, hth, hjobs', hcrashed, leaving_of_chore rfl ?_⟩
    obtain ⟨-, hy⟩ := hy
    split at hy <;> simp [hy.1, Job.chore]
  | elapsed | wake =>
    obtain ⟨rfl, -⟩ := hy
    exact ⟨t, js, t', [], ht, hjobs, hth, hjobs', hcrashed, by simp, by simp, by simp, by simp⟩
  | sleep ms =>
    obtain ⟨rfl, -⟩ := hy
    refine ⟨t, js, t', _, ht, hjobs, hth, hjobs', hcrashed, ?_, by simp [Job.timed], ?_, by simp⟩
    · intro hchore
      cases hchore
    · rintro ms' hms
      cases hms
      rfl
  | _ => cases hj

end Idle

/-! ## Threads -/

/-- A thread that has no part in what is launched. -/
def Thread.Idle (t : Thread) : Prop := t.crashed = false ∧ Idling t.jobs

/-- A thread that has received all signals. -/
def Thread.Done (t : Thread) : Prop := t.crashed = false ∧ ∀ j ∈ t.jobs, j.timed = true

/-- What holds of all threads but the first one and another one. -/
def State.Besides (i : ThreadId) (P : Thread → Prop) (s : State σ) : Prop :=
  ∀ (k : ThreadId) t, k ≠ 0 → k ≠ i → s.threads[k]? = some t → P t

section Threads

variable {st : Settings σ} {s s' : State σ} {i k : ThreadId} {j : Job} {P : Thread → Prop} {t' : Thread}
  {spawned : List (List Job)}

theorem Thread.Done.idle {t : Thread} (h : t.Done) : t.Idle := ⟨h.1, .inr h.2⟩

theorem Thread.Idle.job {t : Thread} (h : t.Idle) {js : List Job} (hj : t.jobs = j :: js) :
    j.idle = true :=
  h.2.idle (hj ▸ List.mem_cons_self)

/-- An idle thread stays so. -/
theorem Thread.Idle.leave {t t' : Thread} {js new : List Job} (h : t.Idle) (hj : t.jobs = j :: js)
    (hj' : t'.jobs = new ++ js) (hcr : t'.crashed = t.crashed) (hl : Leaving s j new) : t'.Idle := by
  refine ⟨hcr.trans h.1, ?_⟩
  have hi := h.2
  unfold Idling at hi ⊢
  rw [hj] at hi
  rw [hj']
  refine hi.imp (fun hi x hx => ?_) fun hi x hx => ?_
  · exact (List.mem_append.1 hx).elim (hl.chore (hi j List.mem_cons_self) x) fun hx =>
      hi x (List.mem_cons_of_mem j hx)
  · exact (List.mem_append.1 hx).elim (hl.timed (hi j List.mem_cons_self) x) fun hx =>
      hi x (List.mem_cons_of_mem j hx)

/-- A thread that has received all signals has. -/
theorem Thread.Done.leave {t t' : Thread} {js new : List Job} (h : t.Done) (hj : t.jobs = j :: js)
    (hj' : t'.jobs = new ++ js) (hcr : t'.crashed = t.crashed) (hl : Leaving s j new) : t'.Done := by
  refine ⟨hcr.trans h.1, fun x hx => ?_⟩
  have hi := h.2
  rw [hj] at hi
  rw [hj'] at hx
  exact (List.mem_append.1 hx).elim (hl.timed (hi j List.mem_cons_self) x) fun hx =>
    hi x (List.mem_cons_of_mem j hx)

namespace State

theorem Besides.mono {Q : Thread → Prop} (h : s.Besides k P) (hPQ : ∀ t, P t → Q t) : s.Besides k Q :=
  fun n t h0 hn ht => hPQ t (h n t h0 hn ht)

/-- What holds of the other threads still does if it does of the one that went on, and of the new ones. -/
theorem Besides.step (h : s.Besides k P) (hi : i < s.threads.length)
    (hth : s'.threads = s.threads.set i t' ++ spawned.map Thread.ofJobs)
    (ht' : i ≠ 0 → i ≠ k → P t') (hspawned : ∀ l ∈ spawned, P (.ofJobs l)) : s'.Besides k P := by
  obtain ⟨hself, -, hothers⟩ := Stepped.getElem?_threads hth hi
  intro n u h0 hn hu
  by_cases hni : n = i
  · subst hni
    obtain rfl := Option.some.inj (hself.symm.trans hu)
    exact ht' h0 hn
  · rcases hothers n u hu hni with hold | ⟨-, l, hl, rfl⟩
    · exact h n u h0 hn hold
    · exact hspawned l hl

end State

/-- The first thread is as it was after a step of another one. -/
theorem main_other (h : Stepped st i j s s') (hi : i ≠ 0) : s'.main = s.main :=
  (main_step h).elim (fun h => absurd h.1 hi) fun h => h.2.2.1

/-- Thread `i` did an idle job. -/
structure Idled (i : ThreadId) (j : Job) (s s' : State σ) : Prop where
  ready : j.blocked s = false
  clock : s'.scope.clock = s.scope.clock
  idle : ∀ k, s.Besides k Thread.Idle → s'.Besides k Thread.Idle
  done : s.Besides 0 Thread.Done → s'.Besides 0 Thread.Done
  other : i ≠ 0 → s'.main = s.main
  first : i = 0 → ∃ js new, s.main = j :: js ∧ s'.main = new ++ js ∧ Leaving s j new
  elsewhere : ∀ (k : ThreadId) t, s.threads[k]? = some t → t.jobs.head? ≠ some j → s'.threads[k]? = some t

theorem idled_of_stepped (hc : st.collects = false) (hb : s.scope.broken = false)
    (h : Stepped st i j s s') (hj : j.idle = true) : Idled i j s s' := by
  obtain ⟨t, js, t', new, ht, hjobs, hth, hjobs', hcr, hl⟩ := idle_moves hc hb h hj
  have hi : i < s.threads.length := (List.getElem?_eq_some_iff.1 ht).1
  have hth' : s'.threads = s.threads.set i t' ++ ([] : List (List Job)).map Thread.ofJobs := by
    rw [hth, List.map_nil, List.append_nil]
  refine ⟨h.ready, h.scope.1, fun k hbes => ?_, fun hbes => ?_, main_other h, ?_, fun k u hu hhead => ?_⟩
  · exact hbes.step hi hth' (fun h0 hk => (hbes i t h0 hk ht).leave hjobs hjobs' hcr hl) (by simp)
  · exact hbes.step hi hth' (fun h0 hk => (hbes i t h0 hk ht).leave hjobs hjobs' hcr hl) (by simp)
  · rintro rfl
    exact ⟨js, new, (main_eq ht).trans hjobs,
      (main_eq (Stepped.getElem?_threads hth' hi).1).trans hjobs', hl⟩
  · refine Stepped.getElem?_other hth' ?_ hu
    rintro rfl
    obtain rfl := Option.some.inj (hu.symm.trans ht)
    rw [hjobs] at hhead
    exact hhead rfl

/-- A thread that is idle while no thread can go on has received all signals. -/
theorem Thread.Idle.done {t : Thread} (h : t.Idle) (hu : Unsent s) (hn : ∀ i, s.enabled i = false)
    (ht : t ∈ s.threads) : t.Done := by
  refine ⟨h.1, ?_⟩
  rcases h.2 with hchore | htimed
  · cases hj : t.jobs with
    | nil => simp
    | cons j js =>
      have hblocked := State.blocked_of_not_enabled hn ht hj
      rw [not_blocked_of_chore hu (hchore j (hj ▸ List.mem_cons_self))] at hblocked
      cases hblocked
  · exact htimed

theorem State.Besides.next (h : s.Besides k Thread.Idle) (h0 : i ≠ 0) (hk : i ≠ k)
    (hnext : s.next? i = some j) : j.idle = true := by
  unfold State.next? at hnext
  cases ht : s.threads[i]? with
  | none =>
    rw [ht] at hnext
    cases hnext
  | some t =>
    rw [ht] at hnext
    obtain ⟨js, hjs⟩ := List.head?_eq_some_iff.1 (show t.jobs.head? = some j from hnext)
    exact (h i t h0 hk ht).job hjs

/-- Another thread is as it was if only the first one or the given one is another. -/
theorem State.Besides.modify (h : s.Besides k P) {f : Thread → Thread} (hi : i = 0 ∨ i = k)
    (hth : s'.threads = s.threads.modify i f) : s'.Besides k P := by
  intro n t h0 hn ht
  have hni : i ≠ n := by
    rintro rfl
    exact hi.elim h0 hn
  rw [hth, List.getElem?_modify_ne _ _ hni] at ht
  exact h n t h0 hn ht

/-! ## What comes of the jobs of a run -/

theorem staged_of_closes (h : j.closes = true) : j.staged = true := by
  cases j <;> first | rfl | cases h

/-- What comes of a job that belongs to the run, but for dispatches. -/
theorem staged_new {new : List Job} (hj : j.staged = true) (hd : ∀ a, j ≠ .dispatch a)
    (hy : j.Yields st s s' new spawned) :
    (∀ x ∈ new, x.staged = true) ∧ ∀ l ∈ spawned, ∀ x ∈ l, x.timed = true := by
  cases j with
  | opening calls inv =>
    cases calls with
    | nil =>
      obtain ⟨-, hy⟩ := hy
      split_ifs at hy
      · obtain ⟨rfl, rfl⟩ := hy
        refine ⟨by simp [Job.staged], ?_⟩
        split_ifs <;> simp [Job.timed]
      · obtain ⟨rfl, rfl⟩ := hy
        simp
    | cons c cs =>
      obtain ⟨rfl, hy⟩ := hy
      split at hy <;> simp [hy.1, Job.staged]
  | passes inv limit pass =>
    obtain ⟨rfl, rfl⟩ := hy
    refine ⟨?_, by simp⟩
    split_ifs
    · simp [Job.staged]
    · exact fun x hx => staged_of_closes (closes_of_mem x hx)
  | walk pass last rest =>
    cases rest with
    | nil =>
      obtain ⟨rfl, rfl⟩ := hy
      simp
    | cons a rest =>
      obtain ⟨rfl, hy⟩ := hy
      refine ⟨?_, by simp⟩
      split_ifs at hy
      · rw [hy]
        simp [Job.staged]
      · obtain ⟨front, hu, rfl⟩ := hy
        rcases unfolds_cases hu with rfl | ⟨t, rfl⟩ | ⟨inner, rfl⟩ | ⟨inner, rfl⟩ <;>
          simp [Job.staged, Invocation.job]
  | dispatch a => exact absurd rfl (hd a)
  | reclaim | emit | teardown | saveLogs | removeServers | setLoops | leaveScope | provideScope | enterScope
  | endCollection =>
    obtain ⟨rfl, rfl⟩ := hy
    simp
  | _ => cases hj

end Threads

end Workload.Run
