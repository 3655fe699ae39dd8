import Workload.Proofs.Chronicles
import Workload.Proofs.Loop

/-!
# Endings

A task that waits for nothing but the clock is done after so many steps (`brief_moves`): each of them
leaves less to do (`State.work`).  So a run ends that has, besides, a bounded number of other steps before
it (`acc_of_plan`).
-/

/-!
## Errands

What comes of a task for the thread that carries it out belongs to that task (`Job.errand`): without
collections of diagnostics no pass, no list of actions and no call of the run as a whole does.
-/

namespace Workload.Run

variable {σ : Type}

/-- A job that is done for a task. -/
def Job.errand : Job → Bool
  | .control .. | .gate _ | .launch _ | .launched .. | .removeAll _ | .failed .. | .stopOnError
  | .drain .. | .repeatLoop .. | .awaitLaunch .. | .untilLoop .. | .settlePromise .. | .watch ..
  | .expire .. | .send .. | .sleep _ | .wake _ | .join _ | .hang => true
  | _ => false

section

variable {st : Settings σ} {s s' : State σ} {j : Job} {new js : List Job} {spawned : List (List Job)}

theorem errand_new (hj : j.errand = true) (hf : ∀ describe fault, j ≠ .failed describe fault)
    (hy : j.Yields st s s' new spawned) : ∀ x ∈ new, x.errand = true := by
  have hp : ∀ inv limit pass, j ≠ .passes inv limit pass := by
    rintro inv limit pass rfl
    cases hj
  have hw : ∀ pass last rest, j ≠ .walk pass last rest := by
    rintro pass last rest rfl
    cases hj
  intro x hx
  have hsets := sets?_new hy hp hw hf x hx
  cases hy.leaves x hx with
  | counter | walk => cases hsets
  | nextCall | firstPass | reclaim | nextPass | emit | teardown | saveLogs | removeServers | dispatch
  | leaveScope | provideScope | enterScope | nested => cases hj
  | endCollection describe fault => exact absurd rfl (hf describe fault)
  | _ => rfl

/-- The first thread goes on with the errands of a task, or breaks off in the middle of one. -/
theorem errand_step (hc : st.collects = false) (hb : s.scope.broken = false)
    (h : Stepped st 0 j s s') (hmain : s.main = j :: js) (hj : j.errand = true) :
    ∃ new, (∀ x ∈ new, x.errand = true) ∧
      (s'.main = new ++ js ∧ s'.fell = s.fell ∨ s'.main = [] ∧ s'.fell = true) := by
  rcases main_step h with ⟨-, js', new, spawned, hmain', hy, -, hcases⟩ | ⟨h0, -⟩
  · obtain ⟨-, rfl⟩ := List.cons.inj (hmain.symm.trans hmain')
    by_cases hf : ∃ describe fault, j = .failed describe fault
    · obtain ⟨describe, fault, rfl⟩ := hf
      obtain ⟨t, js₁, t', -, spawned₁, ht, hjobs, -, hth, -⟩ := h.moves
      have hu := (Stepped.getElem?_threads hth (List.getElem?_eq_some_iff.1 ht).1).1
      obtain ⟨left, hleft, hleave⟩ := quiet_failed hc hb h ht hjobs hu
      obtain ⟨-, rfl⟩ := List.cons.inj (hjobs.symm.trans ((main_eq ht).symm.trans hmain))
      have herr : ∀ x ∈ left, x.errand = true := by
        rcases hleft with rfl | rfl <;> simp [Job.errand]
      refine ⟨left, herr, ?_⟩
      refine hcases.imp (fun hgo => ⟨?_, hgo.2⟩) id
      exact (main_eq hu).trans hleave
    · exact ⟨new, errand_new hj (fun describe fault h => hf ⟨describe, fault, h⟩) hy, hcases⟩
  · exact absurd rfl h0

/-- What a dispatch leaves for its thread. -/
theorem errand_dispatch {a : Action} (hy : (Job.dispatch a).Yields st s s' new spawned) :
    ∀ x ∈ new, x.errand = true := by
  rcases hy with ⟨rfl, -⟩ | ⟨task, hy⟩
  · simp
  · split_ifs at hy <;> simp [hy.1, Job.errand]

end

end Workload.Run

namespace Workload

variable {σ : Type}

/-- A launch that comes off tells the signals of its containers at once. -/
def Environment.Prompt (env : Environment σ) : Prop :=
  ∀ task w l, (env.runtime.run task w).1.result = .ok l → ∃ signals, l.signals = some signals

/-- Whether an action waits for no condition and is not restarted. -/
def Action.brief (a : Action) : Bool := a.before.isEmpty && a.until_.isEmpty && a.repeats = 0

theorem Action.brief_carryForward {a : Action} (latest : Option Action) (h : a.brief = true) :
    (a.carryForward latest).brief = true := by
  unfold carryForward
  cases latest with
  | none => exact h
  | some p =>
    simp only []
    split_ifs <;> exact h

namespace Run

/-- In a rehearsal the signals of a launch are known at once. -/
theorem prompt_of_rehearsal {env : Environment (World Rehearsal)} (h : env.runtime = Rehearsal.runtime) :
    env.Prompt := by
  intro task w l hl
  rw [h] at hl
  change (Rehearsal.launch task w.containers).1.result = .ok l at hl
  unfold Rehearsal.launch at hl
  simp only [] at hl
  split_ifs at hl
  all_goals cases hl
  exact ⟨_, rfl⟩

/-- Whether a job is done for a task that waits for nothing but the clock, where a thread may receive the
signals of a launch, or end the run when its time is over, or may not. -/
def Job.brief (receives : Bool) : Job → Bool
  | .control _ a => a.brief
  | .launch k => k.until_.isEmpty && k.repeats = 0
  | .failed .. | .stopOnError | .sleep _ | .wake _ => true
  | .drain .. | .elapsed => receives
  | _ => false

/-- How many steps come of a job, at least. -/
def Job.work : Job → Nat
  | .wake _ | .stopOnError | .elapsed => 1
  | .sleep _ | .failed .. => 2
  | .drain _ _ left => 3 * left + 1
  | .launch k => 3 * k.task.instances + 4
  | .control task _ => 3 * task.instances + 5
  | _ => 0

def workOf (jobs : List Job) : Nat := (jobs.map Job.work).sum

def State.work (s : State σ) : Nat := (s.threads.map fun t => workOf t.jobs).sum

theorem workOf_cons (j : Job) (js : List Job) : workOf (j :: js) = j.work + workOf js := by
  unfold workOf
  rw [List.map_cons, List.sum_cons]

theorem workOf_append (js js' : List Job) : workOf (js ++ js') = workOf js + workOf js' := by
  unfold workOf
  rw [List.map_append, List.sum_append]

/-- What a job does that leaves `new` and starts `spawned`, all of it brief and less than the job. -/
structure Lessens (receives : Bool) (j : Job) (new : List Job) (spawned : List (List Job)) : Prop where
  leaves : ∀ x ∈ new, x.brief receives = true
  starts : ∀ l ∈ spawned, ∀ x ∈ l, x.brief true = true
  less : workOf new + (spawned.map workOf).sum < j.work

section

variable {st : Settings σ} {s s' : State σ} {i : ThreadId} {j : Job} {new js : List Job}
  {spawned : List (List Job)} {receives : Bool}

/-! ## Launches -/

/-- A launch that is watched by nobody leaves its thread nothing but its failure. -/
theorem launch_jobs {k : Ticket} {t : Thread} (hp : st.env.Prompt) (hk : (Job.launch k).brief false = true)
    (ht : s.threads[i]? = some t) :
    ∃ u new, (s.launch st i k).threads[i]? = some u ∧ u.jobs = new ++ t.jobs ∧ u.crashed = t.crashed ∧
      (new = [] ∨ ∃ describe fault, new = [.failed describe fault]) := by
  obtain ⟨hu, hr⟩ : k.until_.isEmpty = true ∧ k.repeats = 0 := by
    simpa [Job.brief] using hk
  have hw : s.spawnWatcher k = (none, s) := if_pos hu
  have hnone : ∃ u new, s.threads[i]? = some u ∧ u.jobs = new ++ t.jobs ∧ u.crashed = t.crashed ∧
      (new = [] ∨ ∃ describe fault, new = [.failed describe fault]) := ⟨t, [], ht, rfl, rfl, .inl rfl⟩
  unfold State.launch
  split_ifs with he
  · exact hnone
  simp only [hw]
  split_ifs with hb
  · exact hnone
  rcases hl : s.within (Scope.launch st.env k.task) with ⟨r, s₂⟩
  have hs₂ : s₂ = { s with scope := (s.scope.launch st.env k.task).2 } :=
    (congrArg Prod.snd hl).symm
  have ht₂ : s₂.threads[i]? = some t := by rw [hs₂]; exact ht
  cases r with
  | ok l =>
    have hl' : (st.env.runtime.run k.task s.scope.world).1.result = .ok l := congrArg Prod.fst hl
    obtain ⟨signals, hsig⟩ := hp _ _ _ hl'
    have hc : s₂.created i k none l = (s₂.openChannel ⟨signals, 0, k.task.instances, false⟩).launched i k
        none l s₂.channels.length := by
      unfold State.created
      rw [hsig]
    obtain ⟨⟨restarter, hm⟩, -⟩ := State.launched_moves i
      (s₂.openChannel ⟨signals, 0, k.task.instances, false⟩) k none l s₂.channels.length
    have ha : k.awaits none l restarter = [] := by
      unfold Ticket.awaits
      rw [hr]
      rfl
    rw [ha] at hm
    obtain ⟨n, hn⟩ := hm.threads t ht₂
    have hi : i < s₂.threads.length := (List.getElem?_eq_some_iff.1 ht₂).1
    refine ⟨⟨t.jobs, n, t.crashed⟩, [], ?_, rfl, rfl, .inl rfl⟩
    show (s₂.created i k none l).threads[i]? = _
    rw [hc, hn]
    refine (List.getElem?_append_left ?_).trans (List.getElem?_set_self hi)
    rw [List.length_set]
    exact hi
  | error fault =>
    refine ⟨{ t with jobs := [.failed k.task.describe fault] ++ t.jobs }, _, ?_, rfl, rfl,
      .inr ⟨_, _, rfl⟩⟩
    show (s₂.threads.modify i fun t => { t with jobs := [.failed k.task.describe fault] ++ t.jobs })[i]? = _
    rw [List.getElem?_modify_eq, ht₂]
    rfl

theorem launch_spawned {k : Ticket} (hp : st.env.Prompt) (hk : (Job.launch k).brief false = true)
    (hy : (Job.launch k).Yields st s s' new spawned) :
    spawned = [] ∨ ∃ c, spawned = [[.drain c k.task.describe k.task.instances]] := by
  obtain ⟨hu, hr⟩ : k.until_.isEmpty = true ∧ k.repeats = 0 := by
    simpa [Job.brief] using hk
  have hw : ∀ p, k.watchers p = [] := fun p => if_pos hu
  have hf : ∀ l c, k.followers l c = [[.drain c k.task.describe k.task.instances]] := fun l c => by
    unfold Ticket.followers
    rw [if_pos hr]
  rcases hy with ⟨p, -, -, -, -, rfl | rfl⟩ | ⟨-, -, hy⟩
  · exact .inl rfl
  · exact .inl (by rw [hw p, List.map_nil])
  · generalize hres : (s.scope.launch st.env k.task).1 = r at hy
    cases hy with
    | refused fault p =>
      rw [hw]
      exact .inl rfl
    | known l signals p watcher restarter =>
      rw [hw, hf]
      exact .inr ⟨_, rfl⟩
    | watched l p watcher restarter hsig =>
      obtain ⟨signals, hsome⟩ := hp _ _ _ hres
      rw [hsig] at hsome
      cases hsome
    | awaited l p watcher observers hsig =>
      obtain ⟨signals, hsome⟩ := hp _ _ _ hres
      rw [hsig] at hsome
      cases hsome

/-! ## Steps of brief jobs -/

theorem brief_launch {k : Ticket} (hp : st.env.Prompt) (hk : (Job.launch k).brief receives = true)
    (h : Stepped st i (.launch k) s s') : ∃ t js t' new spawned, s.threads[i]? = some t ∧
      t.jobs = .launch k :: js ∧ s'.threads = s.threads.set i t' ++ spawned.map Thread.ofJobs ∧
      (t'.jobs = new ++ js ∨ t'.jobs = []) ∧ Lessens receives (.launch k) new spawned := by
  obtain ⟨t, js, t', new₀, spawned, ht, hj, hy, hth, -⟩ := h.moves
  have hi : i < s.threads.length := (List.getElem?_eq_some_iff.1 ht).1
  have hself := (Stepped.getElem?_threads hth hi).1
  have hpop := State.pop_getElem? ht
  rw [hj, List.tail_cons] at hpop
  obtain ⟨u, new, hu, hjobs, -, hnew⟩ := launch_jobs (s := s.pop i) hp hk hpop
  have hspawned := launch_spawned hp hk hy
  refine ⟨t, js, t', new, spawned, ht, hj, hth, ?_, ?_, ?_, ?_⟩
  · cases hb : (s.pop i |>.launch st i k).scope.broken with
    | false =>
      have hs' : s' = (s.pop i).launch st i k := h.result.trans (State.endBroken_of_unbroken hb i)
      rw [hs', hu] at hself
      obtain rfl := Option.some.inj hself
      exact .inl hjobs
    | true => exact .inr (h.breaksOff hb t' hself).1
  · rcases hnew with rfl | ⟨describe, fault, rfl⟩ <;> simp [Job.brief]
  · rcases hspawned with rfl | ⟨c, rfl⟩ <;> simp [Job.brief]
  · have hworked : workOf new ≤ 2 := by
      rcases hnew with rfl | ⟨describe, fault, rfl⟩ <;> simp [workOf, Job.work]
    have hstarted : (spawned.map workOf).sum ≤ 3 * k.task.instances + 1 := by
      rcases hspawned with rfl | ⟨c, rfl⟩ <;> simp [workOf, Job.work]
    exact Nat.lt_of_le_of_lt (Nat.add_le_add hworked hstarted) (show _ < 3 * k.task.instances + 4 by omega)

theorem brief_failed {describe : String} {fault : RuntimeFault} (hc : st.collects = false)
    (hb : s.scope.broken = false) (h : Stepped st i (.failed describe fault) s s') :
    ∃ t js t' new spawned, s.threads[i]? = some t ∧ t.jobs = .failed describe fault :: js ∧
      s'.threads = s.threads.set i t' ++ spawned.map Thread.ofJobs ∧
      (t'.jobs = new ++ js ∨ t'.jobs = []) ∧ Lessens receives (.failed describe fault) new spawned := by
  obtain ⟨t, js, t', new, spawned, ht, hj, hy, hth, -⟩ := h.moves
  obtain ⟨rfl, -⟩ := hy
  have hself := (Stepped.getElem?_threads hth (List.getElem?_eq_some_iff.1 ht).1).1
  obtain ⟨left, hleft, hjobs⟩ := quiet_failed hc hb h ht hj hself
  refine ⟨t, js, t', left, [], ht, hj, hth, .inl hjobs, ?_, by simp, ?_⟩
  · rcases hleft with rfl | rfl <;> simp [Job.brief]
  · rcases hleft with rfl | rfl <;> simp [workOf, Job.work]

theorem lessens_drain {c : ChannelId} {describe : String} {left : Nat}
    (hj : (Job.drain c describe left).brief receives = true)
    (hy : (Job.drain c describe left).Yields st s s' new spawned) :
    Lessens receives (.drain c describe left) new spawned := by
  obtain ⟨rfl, hy⟩ := hy
  have hr : receives = true := hj
  split at hy
  · rw [hy.1]
    exact ⟨by simp [Job.brief, hr], by simp, by simp [workOf, Job.work]⟩
  · rw [hy.1]
    refine ⟨by simp [Job.brief, hr], by simp, ?_⟩
    simp only [workOf, Job.work, List.map_cons, List.map_nil, List.sum_cons, List.sum_nil]
    omega
  · rw [hy.1]
    exact ⟨by simp, by simp, by simp [workOf, Job.work]⟩

/-- A brief job leaves less to do, and nothing that is not brief. -/
theorem brief_moves (hp : st.env.Prompt) (hc : st.collects = false) (hb : s.scope.broken = false)
    (h : Stepped st i j s s') (hj : j.brief receives = true) :
    ∃ t js t' new spawned, s.threads[i]? = some t ∧ t.jobs = j :: js ∧
      s'.threads = s.threads.set i t' ++ spawned.map Thread.ofJobs ∧
      (t'.jobs = new ++ js ∨ t'.jobs = []) ∧ Lessens receives j new spawned := by
  obtain ⟨t, js, t', new, spawned, ht, hjobs, hy, hth, hcases⟩ := h.moves
  have hmoves : Lessens receives j new spawned →
      ∃ t js t' new spawned, s.threads[i]? = some t ∧ t.jobs = j :: js ∧
        s'.threads = s.threads.set i t' ++ spawned.map Thread.ofJobs ∧
        (t'.jobs = new ++ js ∨ t'.jobs = []) ∧ Lessens receives j new spawned := fun hl =>
    ⟨t, js, t', new, spawned, ht, hjobs, hth, hcases.imp And.left fun h => h.2.2.1, hl⟩
  cases j with
  | control task a =>
    obtain ⟨rfl, alias_, rfl⟩ := hy
    obtain ⟨⟨hbefore, huntil⟩, hrepeats⟩ :
        (a.before.isEmpty = true ∧ a.until_.isEmpty = true) ∧ a.repeats = 0 := by
      simpa [Job.brief, Action.brief] using hj
    refine hmoves ⟨?_, by simp, ?_⟩
    · rw [if_pos hbefore]
      simp [Job.brief, huntil, hrepeats]
    · rw [if_pos hbefore]
      simp [workOf, Job.work]
  | launch k => exact brief_launch hp hj h
  | failed describe fault => exact brief_failed hc hb h
  | drain c describe left => exact hmoves (lessens_drain hj hy)
  | stopOnError | wake | elapsed =>
    obtain ⟨rfl, rfl⟩ := hy
    exact hmoves ⟨by simp, by simp, by simp [workOf, Job.work]⟩
  | sleep =>
    obtain ⟨rfl, rfl⟩ := hy
    exact hmoves ⟨by simp [Job.brief], by simp, by simp [workOf, Job.work]⟩
  | _ => cases hj

theorem work_of_moves {t t' : Thread} (ht : s.threads[i]? = some t) (hj : t.jobs = j :: js)
    (hth : s'.threads = s.threads.set i t' ++ spawned.map Thread.ofJobs)
    (ht' : t'.jobs = new ++ js ∨ t'.jobs = []) (hl : Lessens receives j new spawned) :
    s'.work < s.work := by
  have hset := State.sum_map_set (fun t => workOf t.jobs) t' ht
  have hsum : s'.work = ((s.threads.set i t').map fun t => workOf t.jobs).sum +
      (spawned.map workOf).sum := by
    unfold State.work
    rw [hth, List.map_append, List.sum_append, List.map_map]
    rfl
  have hle : workOf t'.jobs ≤ workOf new + workOf js := by
    rcases ht' with h | h
    · rw [h, workOf_append]
    · rw [h]
      exact Nat.zero_le _
  have hless := hl.less
  rw [hj, workOf_cons] at hset
  unfold State.work at *
  omega

/-! ## Tidy threads -/

/-- What is done for tasks is brief, and only that is done by other threads than the first. -/
structure Tidy (s : State σ) : Prop where
  main : ∀ j ∈ s.main, j.errand = true → j.brief false = true
  others : ∀ (k : ThreadId) t, k ≠ 0 → s.threads[k]? = some t → ∀ j ∈ t.jobs, j.brief true = true

theorem errand_of_closes (h : j.closes = true) : j.errand = false := by
  cases j <;> first | rfl | cases h

/-- What comes of a job that is not done for a task. -/
theorem brief_new (ha : ∀ a, j = .dispatch a → a.brief = true)
    (hj : j.errand = false) (hy : j.Yields st s s' new spawned) :
    (∀ x ∈ new, x.errand = true → x.brief false = true) ∧
      ∀ l ∈ spawned, ∀ x ∈ l, x.brief true = true := by
  cases j with
  | opening calls inv =>
    cases calls with
    | nil =>
      obtain ⟨-, hy⟩ := hy
      split_ifs at hy
      · obtain ⟨rfl, rfl⟩ := hy
        refine ⟨by simp [Job.errand], ?_⟩
        split_ifs <;> simp [Job.brief]
      · obtain ⟨rfl, rfl⟩ := hy
        simp
    | cons c cs =>
      obtain ⟨rfl, hy⟩ := hy
      split at hy <;> simp [hy.1, Job.errand]
  | passes inv limit pass =>
    obtain ⟨rfl, rfl⟩ := hy
    refine ⟨?_, by simp⟩
    split_ifs
    · simp [Job.errand]
    · intro x hx herr
      rw [errand_of_closes (closes_of_mem x hx)] at herr
      cases herr
  | walk pass last rest =>
    cases rest with
    | nil =>
      obtain ⟨rfl, rfl⟩ := hy
      simp
    | cons a rest =>
      obtain ⟨rfl, hy⟩ := hy
      refine ⟨?_, by simp⟩
      split_ifs at hy
      · rw [hy]
        simp [Job.errand]
      · obtain ⟨front, hu, rfl⟩ := hy
        rcases unfolds_cases hu with rfl | ⟨t, rfl⟩ | ⟨inner, rfl⟩ | ⟨inner, rfl⟩ <;>
          simp [Job.errand, Invocation.job]
  | dispatch a =>
    have hbrief := ha a rfl
    rcases hy with ⟨rfl, rfl⟩ | ⟨task, hy⟩
    · simp
    · split_ifs at hy <;> obtain ⟨rfl, rfl⟩ := hy <;> simp [Job.brief, hbrief]
  | reclaim | emit | teardown | saveLogs | removeServers | elapsed | setLoops | leaveScope
  | provideScope | enterScope | endCollection =>
    obtain ⟨rfl, rfl⟩ := hy
    simp
  | _ => cases hj

/-- Threads stay tidy. -/
theorem tidy_of_threads {t t' : Thread} (ht : s.threads[i]? = some t) (hj : t.jobs = j :: js)
    (hth : s'.threads = s.threads.set i t' ++ spawned.map Thread.ofJobs)
    (ht' : t'.jobs = new ++ js ∨ t'.jobs = [])
    (hmain : i = 0 → ∀ x ∈ new, x.errand = true → x.brief false = true)
    (hother : i ≠ 0 → ∀ x ∈ new, x.brief true = true)
    (hspawned : ∀ l ∈ spawned, ∀ x ∈ l, x.brief true = true) (hs : Tidy s) : Tidy s' := by
  have hi : i < s.threads.length := (List.getElem?_eq_some_iff.1 ht).1
  obtain ⟨hself, -, hothers⟩ := Stepped.getElem?_threads hth hi
  refine ⟨?_, fun k u hk hu => ?_⟩
  · by_cases hi0 : i = 0
    · subst hi0
      have hjs : ∀ x ∈ js, x.errand = true → x.brief false = true := fun x hx =>
        hs.main x (by rw [main_eq ht, hj]; exact List.mem_cons_of_mem j hx)
      rw [main_eq hself]
      rcases ht' with h | h
      · rw [h]
        exact fun x hx => (List.mem_append.1 hx).elim (hmain rfl x) (hjs x)
      · rw [h]
        simp
    · obtain ⟨u, hu⟩ : ∃ u, s.threads[0]? = some u :=
        ⟨_, List.getElem?_eq_getElem (Nat.zero_lt_of_lt hi)⟩
      rw [main_eq (Stepped.getElem?_other hth hi0 hu), ← main_eq hu]
      exact hs.main
  · by_cases hki : k = i
    · subst hki
      obtain rfl := Option.some.inj (hself.symm.trans hu)
      rcases ht' with h | h
      · rw [h]
        exact fun x hx => (List.mem_append.1 hx).elim (hother hk x) fun hx =>
          hs.others k t hk ht x (hj ▸ List.mem_cons_of_mem j hx)
      · rw [h]
        simp
    · rcases hothers k u hu hki with hold | ⟨-, l, hl, rfl⟩
      · exact hs.others k u hk hold
      · exact hspawned l hl

theorem tidy_step (hp : st.env.Prompt) (hc : st.collects = false) (hb : s.scope.broken = false)
    (h : Stepped st i j s s') (ha : ∀ a, j = .dispatch a → a.brief = true) (hs : Tidy s) :
    Tidy s' ∧ ((i = 0 → j.errand = true) → s'.work < s.work) := by
  obtain ⟨t, js, t', new, spawned, ht, hj, hy, hth, hcases⟩ := h.moves
  by_cases hi0 : i = 0
  · subst hi0
    cases he : j.errand with
    | true =>
      have hbrief := hs.main j (by rw [main_eq ht, hj]; exact List.mem_cons_self) he
      obtain ⟨t, js, t', new, spawned, ht, hj, hth, ht', hl⟩ := brief_moves hp hc hb h hbrief
      refine ⟨?_, fun _ => work_of_moves ht hj hth ht' hl⟩
      exact tidy_of_threads ht hj hth ht' (fun _ x hx _ => hl.leaves x hx) (fun h0 => absurd rfl h0)
        hl.starts hs
    | false =>
      obtain ⟨hnew, hspawned⟩ := brief_new ha he hy
      refine ⟨?_, fun herr => absurd (herr rfl) Bool.false_ne_true⟩
      exact tidy_of_threads ht hj hth (hcases.imp And.left fun h => h.2.2.1) (fun _ => hnew)
        (fun h0 => absurd rfl h0) hspawned hs
  · have hbrief := hs.others i t hi0 ht j (hj ▸ List.mem_cons_self)
    obtain ⟨t, js, t', new, spawned, ht, hj, hth, ht', hl⟩ := brief_moves hp hc hb h hbrief
    refine ⟨?_, fun _ => work_of_moves ht hj hth ht' hl⟩
    exact tidy_of_threads ht hj hth ht' (fun h0 => absurd h0 hi0) (fun _ => hl.leaves) hl.starts hs

theorem tidy_start (sc : Scope σ) (actions : List Action) (report : Report) :
    Tidy (start st sc actions report) := by
  refine ⟨fun x hx he => ?_, fun k t hk ht => ?_⟩
  · obtain rfl := List.mem_singleton.1 hx
    cases he
  · cases k with
    | zero => exact absurd rfl hk
    | succ k => cases ht

/-! ## Ends -/

/-- When the clock goes on a thread can. -/
theorem enabled_setClock {time : Nat} (hw : s.nextWake? = some time) :
    ∃ i, (s.setClock time).enabled i = true := by
  unfold State.nextWake? at hw
  obtain ⟨hmem, -⟩ := List.min?_eq_some_iff.1 hw
  obtain ⟨t, ht, hwake⟩ := List.mem_filterMap.1 hmem
  obtain ⟨js, hj⟩ := State.mem_of_wakeTime? hwake
  obtain ⟨i, hi⟩ := List.mem_iff_getElem?.1 ht
  refine ⟨i, ?_⟩
  unfold State.enabled State.next?
  rw [show (s.setClock time).threads[i]? = some t from hi, Option.bind_some, hj]
  simp [Job.blocked, State.setClock]

/-- As long as it is `Active` a run goes on for so many steps only, if a plan gets smaller with each of
them, but for those that leave less to do for the tasks and for those of the clock. -/
theorem acc_of_plan {α : Type} {r : α → α → Prop} (hr : WellFounded r) {Active : State σ → Prop}
    {Plan : State σ → α → Prop}
    (hthread : ∀ s i j s' n, Active s → Plan s n → s.step? st i = some s' → Stepped st i j s s' →
      (∃ m, r m n ∧ Plan s' m) ∨ Plan s' n ∧ s'.work < s.work)
    (hclock : ∀ s time n, Plan s n → (∀ i, s.enabled i = false) → s.nextWake? = some time →
      Plan (s.setClock time) n) (hb : ∀ s n, Plan s n → s.scope.broken = false) :
    ∀ (n : α) (s : State σ), Plan s n → Acc (fun s' s => Active s ∧ Step st s s') s := by
  intro n
  induction n using hr.induction with
  | _ n ihn =>
    suffices h : ∀ (w : Nat) (s : State σ), Plan s n → s.work = w →
        Acc (fun s' s => Active s ∧ Step st s s') s from
      fun s hs => h s.work s hs rfl
    intro w
    induction w using Nat.strong_induction_on with
    | _ w ihw =>
      have hstep : ∀ s i s', Active s → Plan s n → s.work = w → s.step? st i = some s' →
          Acc (fun s' s => Active s ∧ Step st s s') s' := by
        rintro s i s' ha hs rfl hstep
        obtain ⟨j, hj⟩ := State.step?_stepped (hb s n hs) hstep
        rcases hthread s i j s' n ha hs hstep hj with ⟨m, hm, hplan⟩ | ⟨hplan, hwork⟩
        · exact ihn m hm s' hplan
        · exact ihw _ hwork s' hplan rfl
      have henabled : ∀ s, Plan s n → s.work = w → (∃ i, s.enabled i = true) →
          Acc (fun s' s => Active s ∧ Step st s s') s := by
        rintro s hs hw ⟨i, hi⟩
        refine .intro s fun s' ⟨ha, h⟩ => ?_
        cases h with
        | thread k h => exact hstep s k s' ha hs hw h
        | clock hn _ =>
          rw [hn i] at hi
          cases hi
      intro s hs hw
      refine .intro s fun s' ⟨ha, h⟩ => ?_
      cases h with
      | thread k h => exact hstep s k s' ha hs hw h
      | clock hn hwake => exact henabled _ (hclock s _ n hs hn hwake) hw (enabled_setClock hwake)

theorem step_of_enabled (h : s.enabled i = true) : ∃ s', Step st s s' := by
  unfold State.enabled at h
  cases hnext : s.next? i with
  | none =>
    rw [hnext] at h
    cases h
  | some k =>
    rw [hnext] at h
    have hready : k.blocked s = false := by simpa using h
    refine ⟨_, .thread i (?_ : s.step? st i = some ((k.perform st i (s.pop i)).endBroken i))⟩
    unfold State.step?
    rw [hnext]
    exact if_neg (by rw [hready]; exact Bool.false_ne_true)

/-- A run in which all threads are done goes no further. -/
theorem not_step_of_finished (h : s.threads.all Thread.finished = true) (s' : State σ) : ¬Step st s s' := by
  have hnone : ∀ t ∈ s.threads, t.jobs = [] := fun t ht => List.isEmpty_iff.1 (List.all_eq_true.1 h t ht)
  intro hstep
  cases hstep with
  | thread i hi =>
    have hnext : s.next? i = none := by
      unfold State.next?
      cases ht : s.threads[i]? with
      | none => rfl
      | some t =>
        rw [Option.bind_some, hnone t (List.mem_of_getElem? ht)]
        rfl
    unfold State.step? at hi
    rw [hnext] at hi
    cases hi
  | clock _ hw =>
    unfold State.nextWake? at hw
    obtain ⟨hmem, -⟩ := List.min?_eq_some_iff.1 hw
    obtain ⟨t, ht, hwake⟩ := List.mem_filterMap.1 hmem
    obtain ⟨js, hj⟩ := State.mem_of_wakeTime? hwake
    rw [hnone t ht] at hj
    cases hj

/-- As long as the first thread has something to do, be it brief, the run goes on. -/
theorem goes_on (hmain : s.main = j :: js) (hj : j.errand = true → j.brief false = true) :
    ∃ s', Step st s s' := by
  by_cases hen : ∃ i, s.enabled i = true
  · obtain ⟨i, hi⟩ := hen
    exact step_of_enabled hi
  have hn : ∀ i, s.enabled i = false := fun i => by simpa using fun hi => hen ⟨i, hi⟩
  obtain ⟨t, ht⟩ : ∃ t, s.threads[0]? = some t := by
    cases ht : s.threads[0]? with
    | some t => exact ⟨t, rfl⟩
    | none =>
      unfold State.main at hmain
      rw [ht] at hmain
      cases hmain
  have hmem := List.mem_of_getElem? ht
  have hjobs : t.jobs = j :: js := (main_eq ht).symm.trans hmain
  have hblocked := State.blocked_of_not_enabled hn hmem hjobs
  have hwake : ∃ time, j = .wake time := by
    cases j with
    | wake time => exact ⟨time, rfl⟩
    | join | drain | send | awaitLaunch | hang => cases hj rfl
    | _ => cases hblocked
  obtain ⟨time, rfl⟩ := hwake
  cases hw : s.nextWake? with
  | some time => exact ⟨_, .clock hn hw⟩
  | none =>
    have hwakes : time ∈ s.threads.filterMap Thread.wakeTime? :=
      List.mem_filterMap.2 ⟨t, hmem, State.wakeTime?_of_jobs hjobs⟩
    unfold State.nextWake? at hw
    rw [List.min?_eq_none_iff.1 hw] at hwakes
    cases hwakes

end

end Run

end Workload
