import Workload.Proofs.Chronicles

/-!
# Threads that ask again

A thread that waits for a condition, or for a container to exit, asks, pauses and asks again.  Between two
times it asks it does nothing but pause (`Chronicle.paced`), whatever other threads do meanwhile.  What a thread
calls is read off its own moments (`callsOf`).
-/

namespace Workload.Run

variable {σ : Type}

/-! ## What a thread does and calls -/

/-- The calls that are made at a moment, in order. -/
def Moment.calls (st : Settings σ) (m : Moment σ) : List Event :=
  (((m.after st).scope.trace.take
    ((m.after st).scope.trace.length - m.before.scope.trace.length)).map TimedEvent.event).reverse

/-- The calls that a thread makes, in order. -/
def callsOf (st : Settings σ) (i : ThreadId) (c : List (Moment σ)) : List Event :=
  c.flatMap fun m => if m.thread = i then m.calls st else []

/-- The jobs that a thread does, in order. -/
def doneBy (i : ThreadId) (c : List (Moment σ)) : List Job :=
  c.flatMap fun m => if m.thread = i then [m.job] else []

section

variable {st : Settings σ} {i k : ThreadId} {j : Job} {m : Moment σ} {c : List (Moment σ)}
  {b s s' : State σ} {js : List Job}

theorem Moment.calls_eq {new : List TimedEvent}
    (h : (m.after st).scope.trace = new ++ m.before.scope.trace) :
    m.calls st = (new.map TimedEvent.event).reverse := by
  unfold Moment.calls
  rw [h, List.length_append, Nat.add_sub_cancel, List.take_left]

/-- The calls of a moment are those that its job makes. -/
theorem Moment.kind_of_calls (h : Stepped st i j m.before (m.after st)) :
    ∀ e ∈ m.calls st, e.kind ∈ j.notes := by
  obtain ⟨-, new, hnew, hkinds⟩ := h.scope
  intro e he
  rw [Moment.calls_eq hnew, List.mem_reverse] at he
  obtain ⟨x, hx, rfl⟩ := List.mem_map.1 he
  exact (hkinds x hx).2

/-- A job that notes nothing makes no call. -/
theorem Moment.calls_eq_nil (h : Stepped st i j m.before (m.after st)) (hj : j.notes = []) :
    m.calls st = [] := by
  have hkinds := Moment.kind_of_calls h
  rw [hj] at hkinds
  exact List.eq_nil_iff_forall_not_mem.2 fun e he => nomatch hkinds e he

theorem Stepped.after_eq (h : Stepped st i j s s') : (⟨s, i, j⟩ : Moment σ).after st = s' := h.result.symm

/-- The calls of a step are what it adds to the trace. -/
theorem Stepped.calls_eq (h : Stepped st i j s s') {new : List TimedEvent}
    (htrace : s'.scope.trace = new ++ s.scope.trace) :
    (⟨s, i, j⟩ : Moment σ).calls st = (new.map TimedEvent.event).reverse := by
  refine Moment.calls_eq ?_
  rw [h.after_eq]
  exact htrace

theorem Stepped.calls_eq_nil (h : Stepped st i j s s') (hj : j.notes = []) :
    (⟨s, i, j⟩ : Moment σ).calls st = [] := by
  have hstep : Stepped st i j s ((⟨s, i, j⟩ : Moment σ).after st) := h.after_eq.symm ▸ h
  exact Moment.calls_eq_nil hstep hj

theorem callsOf_concat :
    callsOf st i (c ++ [m]) = callsOf st i c ++ if m.thread = i then m.calls st else [] := by
  unfold callsOf
  rw [List.flatMap_append, List.flatMap_singleton]

theorem callsOf_concat_self (hm : m.thread = i) :
    callsOf st i (c ++ [m]) = callsOf st i c ++ m.calls st := by
  rw [callsOf_concat, if_pos hm]

theorem callsOf_concat_other (hm : m.thread ≠ i) : callsOf st i (c ++ [m]) = callsOf st i c := by
  rw [callsOf_concat, if_neg hm, List.append_nil]

theorem doneBy_concat_self (hm : m.thread = i) : doneBy i (c ++ [m]) = doneBy i c ++ [m.job] := by
  unfold doneBy
  rw [List.flatMap_append, List.flatMap_singleton, if_pos hm]

theorem doneBy_concat_other (hm : m.thread ≠ i) : doneBy i (c ++ [m]) = doneBy i c := by
  unfold doneBy
  rw [List.flatMap_append, List.flatMap_singleton, if_neg hm, List.append_nil]

theorem callsOf_eq_nil (hc : ∀ x ∈ c, x.thread ≠ i) : callsOf st i c = [] :=
  List.flatMap_eq_nil_iff.2 fun x hx => if_neg (hc x hx)

theorem doneBy_eq_nil (hc : ∀ x ∈ c, x.thread ≠ i) : doneBy i c = [] :=
  List.flatMap_eq_nil_iff.2 fun x hx => if_neg (hc x hx)

/-- What a thread calls that does one thing only. -/
theorem callsOf_once {c' : List (Moment σ)} (hc : ∀ x ∈ c, x.thread ≠ i) (hm : m.thread = i)
    (hc' : ∀ x ∈ c', x.thread ≠ i) : callsOf st i (c ++ m :: c') = m.calls st := by
  have hcalls : callsOf st i c' = [] := callsOf_eq_nil hc'
  rw [List.append_cons]
  unfold callsOf at hcalls ⊢
  rw [List.flatMap_append, hcalls, List.append_nil]
  exact (callsOf_concat_self hm).trans (by rw [callsOf_eq_nil hc, List.nil_append])

theorem doneBy_once {c' : List (Moment σ)} (hc : ∀ x ∈ c, x.thread ≠ i) (hm : m.thread = i)
    (hc' : ∀ x ∈ c', x.thread ≠ i) : doneBy i (c ++ m :: c') = [m.job] := by
  have hdone : doneBy i c' = [] := doneBy_eq_nil hc'
  rw [List.append_cons]
  unfold doneBy at hdone ⊢
  rw [List.flatMap_append, hdone, List.append_nil]
  exact (doneBy_concat_self hm).trans (by rw [doneBy_eq_nil hc, List.nil_append])

/-- The time a step takes is none. -/
theorem Stepped.clock (h : Stepped st k j s s') : s'.scope.clock = s.scope.clock := h.scope.clock

/-- What other threads do leaves a thread the jobs it has. -/
theorem Stepped.at_other (h : Stepped st k j s s') (hk : k ≠ i) (hs : s.At i js) : s'.At i js := by
  obtain ⟨u, hu, hjs⟩ := hs
  obtain ⟨t, js', t', new, spawned, -, -, -, hth, -⟩ := h.moves
  exact ⟨u, Stepped.getElem?_other hth hk hu, hjs⟩

/-- The job that a thread does is the first one it has. -/
theorem Stepped.eq_cons (h : Stepped st i j s s') (hs : s.At i js) : ∃ rest, js = j :: rest := by
  obtain ⟨u, hu, rfl⟩ := hs
  obtain ⟨t, rest, -, -, -, ht, hj, -⟩ := h.moves
  obtain rfl := Option.some.inj (hu.symm.trans ht)
  exact ⟨rest, hj⟩

/-- A thread goes on with what its job leaves it, or breaks off in the middle of it. -/
theorem Stepped.at_self (h : Stepped st i j s s') (hs : s.At i (j :: js)) :
    ∃ new spawned, j.Yields st s s' new spawned ∧ (s'.At i (new ++ js) ∨ j.steady = false ∧ s'.At i []) := by
  obtain ⟨u, hu, hjs⟩ := hs
  obtain ⟨t, rest, t', new, spawned, ht, hj, hy, hth, ht'⟩ := h.moves
  obtain rfl := Option.some.inj (hu.symm.trans ht)
  obtain ⟨-, rfl⟩ := List.cons.inj (hjs.symm.trans hj)
  have hself := (Stepped.getElem?_threads hth (List.getElem?_eq_some_iff.1 ht).1).1
  refine ⟨new, spawned, hy, ?_⟩
  rcases ht' with ⟨hjobs, -⟩ | ⟨hns, -, hjobs, -⟩
  · exact .inl ⟨t', hself, hjobs⟩
  · exact .inr ⟨hns, t', hself, hjobs⟩

/-- A thread has its jobs still, or has done the first of them. -/
theorem Chronicle.next_moment (hc : Chronicle st b c s) (hb : b.scope.broken = false) (hat : b.At i (j :: js)) :
    (s.At i (j :: js) ∧ ∀ x ∈ c, x.thread ≠ i) ∨
      ∃ c₁ y c₂, c = c₁ ++ y :: c₂ ∧ (∀ x ∈ c₁, x.thread ≠ i) ∧ y.thread = i ∧ y.job = j ∧
        y.before.At i (j :: js) ∧ y.before.scope.broken = false ∧ Stepped st i j y.before (y.after st) := by
  obtain ⟨u, hu, hjobs⟩ := hat
  rcases hc.first_moment hb hu with ⟨hs, hquiet⟩ | ⟨c₁, y, c₂, rfl, hquiet, hy, hbefore⟩
  · exact .inl ⟨⟨u, hs, hjobs⟩, hquiet⟩
  · have hstep := hc.stepped hb
    have hat : y.before.At i (j :: js) := ⟨u, hbefore, hjobs⟩
    rw [hy] at hstep
    obtain ⟨rest, heq⟩ := hstep.eq_cons hat
    obtain ⟨hj, -⟩ := List.cons.inj heq
    rw [← hj] at hstep
    exact .inr ⟨c₁, y, c₂, rfl, hquiet, hy, hj.symm, hat, hc.before.1.unbroken hb, hstep⟩

/-- A job is taken off its thread before it is done. -/
theorem State.At.popped (h : s.At i (j :: js)) : (s.pop i).At i js := by
  obtain ⟨u, hu, hjobs⟩ := h
  exact ⟨_, State.pop_getElem? hu, by rw [hjobs, List.tail_cons]⟩

/-- A thread can do its first job unless that has to wait. -/
theorem State.At.enabled (h : s.At i (j :: js)) (hj : j.blocked s = false) : s.enabled i = true := by
  obtain ⟨u, hu, hjobs⟩ := h
  unfold State.enabled State.next?
  rw [hu, Option.bind_some, hjobs, List.head?_cons, Option.any_some, hj]
  rfl

/-- A thread that does something has jobs. -/
theorem Chronicle.not_at_nil (hc : Chronicle st b c s) (hm : m ∈ c) : ¬m.before.At m.thread [] := by
  rintro ⟨u, hu, hnil⟩
  obtain ⟨c₁, c₂, rfl⟩ := List.append_of_mem hm
  have hnext := hc.before.2
  unfold State.next? at hnext
  rw [hu, Option.bind_some, hnil] at hnext
  cases hnext

/-- A thread has one list of jobs. -/
theorem State.At.eq {js' : List Job} (h : s.At i js) (h' : s.At i js') : js = js' := by
  obtain ⟨t, ht, rfl⟩ := h
  obtain ⟨u, hu, rfl⟩ := h'
  rw [Option.some.inj (ht.symm.trans hu)]

/-- A thread that has other jobs first is not back at the later ones. -/
theorem State.At.not_at (front : List Job) (h : s.At i (j :: (front ++ js))) : ¬s.At i js := by
  intro hat
  have hlength := congrArg List.length (h.eq hat)
  rw [List.length_cons, List.length_append] at hlength
  omega

/-- A steady job that does not have to wait can be done at once. -/
theorem State.At.does (hat : s.At i (j :: js)) (hb : s.scope.broken = false) (hready : j.blocked s = false)
    (hj : j.steady = true) : (⟨s, i, j⟩ : Moment σ).Does st i j js := by
  have hnext : s.next? i = some j := by
    obtain ⟨u, hu, hjobs⟩ := hat
    unfold State.next?
    rw [hu, Option.bind_some, hjobs]
    rfl
  have hgoes : (j.perform st i (s.pop i)).scope.broken = false := (Job.steady_broken hj st i (s.pop i)).trans hb
  refine ⟨rfl, rfl, hat, hb, stepped_of_next? hb hnext ?_, hgoes⟩
  unfold State.step?
  rw [hnext]
  simp only [hready, Bool.false_eq_true, if_false]
  rfl

/-- A thread has its steady job still, or has done it. -/
theorem Chronicle.next_steady (hc : Chronicle st b c s) (hb : b.scope.broken = false) (hat : b.At i (j :: js))
    (hj : j.steady = true) :
    (s.At i (j :: js) ∧ ∀ x ∈ c, x.thread ≠ i) ∨
      ∃ c₁ y c₂, c = c₁ ++ y :: c₂ ∧ Chronicle st b c₁ y.before ∧ (∀ x ∈ c₁, x.thread ≠ i) ∧ y.Does st i j js ∧
        Chronicle st (y.after st) c₂ s := by
  rcases hc.next_moment hb hat with hwaits | ⟨c₁, y, c₂, rfl, hquiet, hy, hjob, hbefore, hunbroken, hstep⟩
  · exact .inl hwaits
  · exact .inr ⟨c₁, y, c₂, rfl, hc.before.1, hquiet,
      ⟨hy, hjob, hbefore, hunbroken, hstep, (Job.steady_broken hj st i _).trans hunbroken⟩, hc.after hb⟩

/-- What comes from a moment on goes on from the state before it. -/
theorem Chronicle.from_moment {c₁ c₂ : List (Moment σ)} (hc : Chronicle st b (c₁ ++ m :: c₂) s)
    (hb : b.scope.broken = false) : Chronicle st m.before (m :: c₂) s :=
  (Chronicle.thread .refl hc.before.2 (hc.stepped hb).step?).trans (hc.after hb)

end

/-! ## Pauses -/

/-- How long a thread pauses before it asks again, if the job is one that asks. -/
def Job.pause? (st : Settings σ) : Job → Option Nat
  | .gate _ => some st.config.timings.beforePoll
  | .repeatLoop .. => some st.config.timings.repeatPoll
  | .untilLoop .. => some st.config.timings.untilPoll
  | _ => none

/-- Whether a job is part of a pause. -/
def Job.idles : Job → Bool
  | .sleep _ | .wake _ => true
  | _ => false

theorem Job.notes_of_idles {j : Job} (h : j.idles = true) : j.notes = [] := by
  cases j with
  | sleep | wake => rfl
  | _ => cases h

/-- A thread is about to do a job, or pauses before it. -/
inductive Asking (ms : Nat) (j : Job) : List Job → Prop
  | asks : Asking ms j [j]
  | pauses : Asking ms j [.sleep ms, j]
  | sleeps (time : Nat) : Asking ms j [.wake time, j]

/-- A thread that pauses before a job comes closer to it. -/
theorem Stepped.asking {st : Settings σ} {i : ThreadId} {j x : Job} {ms : Nat} {s s' : State σ} {u : Thread}
    (h : Stepped st i x s s') (hb : s.scope.broken = false) (hu : s.threads[i]? = some u)
    (ha : Asking ms j u.jobs) :
    x = j ∧ u.jobs = [j] ∨
      x.idles = true ∧ ∃ jobs, Asking ms j jobs ∧ s'.threads[i]? = some { u with jobs } := by
  obtain ⟨rest, hx⟩ := h.eq_cons ⟨u, hu, rfl⟩
  generalize hjobs : u.jobs = jobs at ha hx
  cases ha with
  | asks => exact .inl ⟨(List.cons.inj hx).1.symm, rfl⟩
  | pauses =>
    obtain ⟨rfl, rfl⟩ := List.cons.inj hx
    refine .inr ⟨rfl, _, .sleeps (s.scope.clock + ms), ?_⟩
    have hpop := State.pop_getElem? hu
    rw [h.of_steady rfl hb]
    show ((s.pop i).push i [.wake (s.scope.clock + ms)]).threads[i]? = _
    unfold State.push
    rw [List.getElem?_modify_eq, hpop, hjobs]
    rfl
  | sleeps time =>
    obtain ⟨rfl, rfl⟩ := List.cons.inj hx
    refine .inr ⟨rfl, _, .asks, ?_⟩
    rw [h.of_steady rfl hb]
    exact (State.pop_getElem? hu).trans (by rw [hjobs]; rfl)

/-- How far a thread has come since it began to pause at a time, with what it has done since. -/
inductive Pausing (st : Settings σ) (pause begin now : Nat) : (done jobs : List Job) → Prop
  | begins (j : Job) : j.pause? st = some pause → begin ≤ now → Pausing st pause begin now [] [.sleep pause, j]
  | waits (j : Job) (time : Nat) : j.pause? st = some pause → begin + pause ≤ time →
    Pausing st pause begin now [.sleep pause] [.wake time, j]
  | ended (j : Job) (time : Nat) : j.pause? st = some pause → begin + pause ≤ time → time ≤ now →
    Pausing st pause begin now [.sleep pause, .wake time] [j]

section

variable {st : Settings σ} {i : ThreadId} {j : Job} {b s s' : State σ} {m m' : Moment σ}
  {c c₁ c₂ c₃ : List (Moment σ)} {pause begin : Nat}

theorem Pausing.later {now now' : Nat} {done jobs : List Job} (h : Pausing st pause begin now done jobs)
    (hn : now ≤ now') : Pausing st pause begin now' done jobs := by
  cases h with
  | begins j hj hb => exact .begins j hj (hb.trans hn)
  | waits j time hj hb => exact .waits j time hj hb
  | ended j time hj hb ht => exact .ended j time hj hb (ht.trans hn)

/-- A thread that begins to pause does nothing else until it asks again. -/
theorem Chronicle.pausing (hc : Chronicle st b c s) (hb : b.scope.broken = false)
    (hat : b.At i [.sleep pause, j]) (hj : j.pause? st = some pause)
    (hsilent : ∀ m ∈ c, m.thread = i → m.job.pause? st = none) :
    ∃ jobs, s.At i jobs ∧ Pausing st pause b.scope.clock s.scope.clock (doneBy i c) jobs := by
  refine hc.invariant (P := fun c s => (∀ m ∈ c, m.thread = i → m.job.pause? st = none) →
    ∃ jobs, s.At i jobs ∧ Pausing st pause b.scope.clock s.scope.clock (doneBy i c) jobs) hb
    (fun _ => ⟨_, hat, .begins j hj (Nat.le_refl _)⟩) ?_ ?_ hsilent
  · rintro c k x s s' hs hstep - hsilent
    obtain ⟨jobs, hat, hp⟩ := hs fun m hm => hsilent m (List.mem_append_left _ hm)
    by_cases hk : k = i
    · subst hk
      have hx := hsilent ⟨s, k, x⟩ (by simp) rfl
      obtain ⟨rest, rfl⟩ := hstep.eq_cons hat
      rw [doneBy_concat_self (m := ⟨s, k, x⟩) rfl, hstep.clock]
      obtain ⟨new, spawned, hy, hat' | ⟨hns, -⟩⟩ := hstep.at_self hat
      · generalize hdone : doneBy k c = done at hp
        cases hp with
        | begins j hj hbegin =>
          obtain ⟨rfl, -⟩ := hy
          exact ⟨_, hat', .waits j _ hj (Nat.add_le_add_right hbegin pause)⟩
        | waits j time hj hbegin =>
          obtain ⟨rfl, -⟩ := hy
          have hready : time ≤ s.scope.clock := by simpa [Job.blocked] using hstep.ready
          exact ⟨_, hat', .ended j time hj hbegin hready⟩
        | ended j time hj => cases hj.symm.trans hx
      · generalize doneBy k c = done at hp
        cases hp with
        | ended j time hj => cases hj.symm.trans hx
        | _ => cases hns
    · rw [doneBy_concat_other (m := ⟨s, k, x⟩) hk, hstep.clock]
      exact ⟨jobs, hstep.at_other hk hat, hp⟩
  · rintro c s time hs hn hw hsilent
    obtain ⟨jobs, hat, hp⟩ := hs hsilent
    exact ⟨jobs, hat, hp.later (Nat.le_of_lt (State.nextWake?_spec hn hw).1)⟩

/-- A job that asks leaves nothing, or a pause after which its thread asks again. -/
theorem Job.Yields.asks {new : List Job} {spawned : List (List Job)} (hy : j.Yields st s s' new spawned)
    (hj : j.pause? st = some pause) :
    spawned = [] ∧ (new = [] ∨ ∃ j', j'.pause? st = some pause ∧ new = [.sleep pause, j']) := by
  cases j with
  | gate condition =>
    obtain rfl := Option.some.inj hj
    exact ⟨hy.2, hy.1.imp_right fun h => ⟨.gate condition, rfl, h⟩⟩
  | repeatLoop handle left =>
    obtain rfl := Option.some.inj hj
    exact ⟨hy.2, hy.1.imp_right fun ⟨left', h⟩ => ⟨.repeatLoop handle left', rfl, h⟩⟩
  | untilLoop handle condition =>
    obtain rfl := Option.some.inj hj
    exact ⟨hy.2, hy.1.imp_right fun h => ⟨.untilLoop handle condition, rfl, h⟩⟩
  | _ => cases hj

/-- Between two times that a thread asks it pauses once, and that takes its time. -/
theorem Chronicle.paced (hc : Chronicle st b (c₁ ++ m :: (c₂ ++ m' :: c₃)) s) (hb : b.scope.broken = false)
    (hm : m.before.At i [m.job]) (hi : m.thread = i) (hj : m.job.pause? st = some pause)
    (hi' : m'.thread = i) (hj' : m'.job.pause? st ≠ none)
    (hsilent : ∀ x ∈ c₂, x.thread = i → x.job.pause? st = none) :
    ∃ time, doneBy i c₂ = [.sleep pause, .wake time] ∧ m.before.scope.clock + pause ≤ time ∧
      time ≤ m'.before.scope.clock := by
  have hstep := hc.stepped hb
  have hrest := hc.after hb
  rw [hi] at hstep
  have hclock : (m.after st).scope.clock = m.before.scope.clock := hstep.clock
  have hmoves : ∀ u, (m.after st).threads[i]? = some u → u.jobs ≠ [] := by
    intro u hu hnil
    exact (hrest.ended hstep.unbroken hu hnil).2 m' (by simp) hi'
  obtain ⟨new, spawned, hy, hat | ⟨-, u, hu, hnil⟩⟩ := hstep.at_self hm
  swap
  · exact absurd hnil (hmoves u hu)
  rw [List.append_nil] at hat
  obtain ⟨-, rfl | ⟨j, hpause, rfl⟩⟩ := hy.asks hj
  · obtain ⟨u, hu, hnil⟩ := hat
    exact absurd hnil (hmoves u hu)
  obtain ⟨hbefore, hnext⟩ := hrest.before
  obtain ⟨jobs, hat', hp⟩ := hbefore.pausing hstep.unbroken hat hpause hsilent
  obtain ⟨rest, rfl⟩ := (hi' ▸ hrest.stepped hstep.unbroken).eq_cons hat'
  rw [hclock] at hp
  generalize doneBy i c₂ = done at hp ⊢
  generalize m'.job = asks at hp hj'
  cases hp with
  | begins => exact absurd rfl hj'
  | waits => exact absurd rfl hj'
  | ended _ time _ hbegin htime => exact ⟨time, rfl, hbegin, htime⟩

end

end Workload.Run
