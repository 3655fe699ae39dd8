import Workload.Proofs.Chronicles
import Workload.Proofs.Opening

/-!
# Passes and their ends

A thread that begins a pass has the reclaim that ends it among its jobs from then on, and the next pass
behind that.  `Paced` counts both along the history of a run: of every thread that has not broken off,
each pass that is over was followed by just one reclaim, which is one call.  `run_result` puts this
together with the stages of a run.
-/

namespace Workload.Run

variable {σ : Type}

namespace Job

/-- Whether a job begins a pass. -/
def beginsPass : Job → Bool
  | .passes _ limit pass => limit < 0 ∨ (pass : Int) ≤ limit
  | _ => false

/-- Whether a job ends a pass. -/
def endsPass : Job → Bool
  | .reclaim .pass => true
  | _ => false

/-- Behind which jobs another pass may stand. -/
def Paces (a b : Job) : Prop := ∀ inv limit pass, b = .passes inv limit (pass + 1) → a = .reclaim .pass

end Job

/-- How many jobs of the given kind a thread has done. -/
def countOf (p : Job → Bool) (i : ThreadId) (h : List Deed) : Nat :=
  h.countP fun d => decide (d.thread = i) && p d.job

/-- The last job that a thread has done. -/
def lastJob? (i : ThreadId) (h : List Deed) : Option Job :=
  ((h.filter fun d => d.thread = i).getLast?).map Deed.job

theorem countOf_append (p : Job → Bool) (k : ThreadId) (h : List Deed) (i : ThreadId) (j : Job)
    (noted : List TimedEvent) :
    countOf p k (h ++ [⟨i, j, noted⟩]) = countOf p k h + if i = k then [j].countP p else 0 := by
  unfold countOf
  rw [List.countP_append]
  split_ifs with hd
  · simp [List.countP_cons, hd]
  · simp [hd]

theorem lastJob?_append_self (h : List Deed) (i : ThreadId) (j : Job) (noted : List TimedEvent) :
    lastJob? i (h ++ [⟨i, j, noted⟩]) = some j := by
  unfold lastJob?
  rw [List.filter_append]
  simp

theorem lastJob?_append_other {h : List Deed} {d : Deed} {i : ThreadId} (hd : d.thread ≠ i) :
    lastJob? i (h ++ [d]) = lastJob? i h := by
  unfold lastJob?
  rw [List.filter_append]
  simp [hd]

section Steps

variable {st : Settings σ} {i : ThreadId} {j : Job} {s s' : State σ}

theorem endsPass_cases {j : Job} (h : j.endsPass = true) : j = .reclaim .pass := by
  cases j with
  | reclaim occasion =>
    cases occasion with
    | pass => rfl
    | cleanup => cases h
  | _ => cases h

theorem closingJobs_endsPass (phases : Phases) :
    (State.closingJobs st phases).countP Job.endsPass = 0 := by
  unfold State.closingJobs
  split_ifs <;> rfl

/-- A job leaves the end of a pass just if it begins one. -/
theorem countP_endsPass {new : List Job} {spawned : List (List Job)}
    (hy : j.Yields st s s' new spawned) :
    new.countP Job.endsPass = [j].countP Job.beginsPass := by
  by_cases hp : ∃ inv limit pass, j = .passes inv limit pass
  · obtain ⟨inv, limit, pass, rfl⟩ := hp
    obtain ⟨rfl, -⟩ := hy
    split_ifs with hc
    · simp [List.countP_cons, Job.endsPass, Job.beginsPass, hc]
    · rw [closingJobs_endsPass]
      simp [Job.beginsPass, hc]
  · have hzero : [j].countP Job.beginsPass = 0 := by
      rw [List.countP_eq_zero]
      refine List.forall_mem_singleton.2 fun hb => ?_
      cases j with
      | passes inv limit pass => exact hp ⟨inv, limit, pass, rfl⟩
      | _ => cases hb
    rw [hzero, List.countP_eq_zero]
    intro x hx he
    obtain rfl := endsPass_cases he
    cases hy.leaves _ hx with
    | reclaim inv limit pass => exact hp ⟨inv, limit, pass, rfl⟩

/-- Jobs among which no later pass stands are in order. -/
theorem isChain_paces {jobs : List Job} (h : ∀ inv limit pass, .passes inv limit (pass + 1) ∉ jobs) :
    jobs.IsChain Job.Paces := by
  refine State.isChain_of_tail ?_
  rintro a b hb inv limit pass rfl
  exact absurd (List.mem_of_mem_tail hb) (h inv limit pass)

theorem passes_not_mem_closingJobs {phases : Phases} {inv : Invocation} {limit : Int} {pass : Nat} :
    .passes inv limit pass ∉ State.closingJobs st phases := by
  unfold State.closingJobs
  split_ifs <;> simp

/-- No job leaves a later pass for the very next. -/
theorem later_pass_not_next {inv : Invocation} {limit : Int} {pass : Nat} {new : List Job}
    {spawned : List (List Job)} :
    ¬j.Yields st s s' (.passes inv limit (pass + 1) :: new) spawned := by
  intro hy
  by_cases hp : ∃ inv limit pass, j = .passes inv limit pass
  · obtain ⟨inv', limit', pass', rfl⟩ := hp
    obtain ⟨hnew, -⟩ := hy
    split_ifs at hnew
    · cases hnew
    · exact passes_not_mem_closingJobs (hnew ▸ List.mem_cons_self)
  · cases hy.leaves _ List.mem_cons_self with
    | nextPass inv limit pass => exact hp ⟨inv, limit, pass, rfl⟩

theorem isChain_paces_new {new : List Job} {spawned : List (List Job)}
    (hy : j.Yields st s s' new spawned) : new.IsChain Job.Paces := by
  by_cases hp : ∃ inv limit pass, j = .passes inv limit pass
  · obtain ⟨inv, limit, pass, rfl⟩ := hp
    obtain ⟨rfl, -⟩ := hy
    split_ifs with hc
    · simp [Job.Paces]
    · exact isChain_paces fun _ _ _ => passes_not_mem_closingJobs
  · refine isChain_paces fun inv limit pass hm => ?_
    cases hy.leaves _ hm with
    | nextPass inv limit pass => exact hp ⟨inv, limit, pass, rfl⟩

theorem paces_step (h : Stepped st i j s s') (hc : s.Stacks (List.IsChain Job.Paces)) :
    s'.Stacks (List.IsChain Job.Paces) := by
  refine h.chained hc fun new spawned hy => ⟨isChain_paces_new hy, fun x hx y hjy => ?_, fun l hl => ?_⟩
  · rintro inv limit pass rfl
    obtain rfl := hjy inv limit pass rfl
    rw [hy.1] at hx
    cases hx
  · refine isChain_paces fun inv limit pass hm => ?_
    cases hy.starts l hl _ hm

/-! ## The reclaim at the end of a pass -/

theorem attempt_spec {ε : Type} (f : Scope σ → Except ε Unit × Scope σ) (warning : LogLine)
    (s : State σ) : (s.attempt f warning).threads = s.threads ∧
      (s.attempt f warning).scope.trace = (f s.scope).2.trace ∧
      (s.attempt f warning).scope.broken = (f s.scope).2.broken := by
  unfold State.attempt State.within
  rcases hf : f s.scope with ⟨r, sc⟩
  simp only []
  cases r with
  | ok _ => exact ⟨rfl, rfl, rfl⟩
  | error _ =>
    refine ⟨rfl, (Scope.grows_note warning sc).trace_eq, ?_⟩
    exact State.note_broken { s with scope := sc } warning

/-- The reclaim after a pass is one call, unless its thread breaks off. -/
theorem reclaim_noted {noted : List TimedEvent}
    (h : Stepped st i (.reclaim .pass) s s') (hn : s'.scope.trace = noted ++ s.scope.trace) :
    (∃ time r, noted = [⟨time, .reclaim st.config.softCleanup r⟩]) ∨
      noted = [] ∧ ∃ t, s'.threads[i]? = some t ∧ t.crashed = true := by
  obtain ⟨t, js, -, -, -, ht, -⟩ := h.moves
  have hs' : s' = ((s.pop i).attempt (Scope.reclaim st.env st.config.softCleanup)
      (.warn "could not reclaim task containers")).endBroken i := h.result
  obtain ⟨hth, htr, hbr⟩ := attempt_spec (Scope.reclaim st.env st.config.softCleanup)
    (.warn "could not reclaim task containers") (s.pop i)
  cases hb : (s.scope.reclaim st.env st.config.softCleanup).2.broken with
  | true =>
    right
    have hnone : (s.scope.reclaim st.env st.config.softCleanup).2.trace = s.scope.trace :=
      Scope.call_trace_of_broken hb
    rw [State.endBroken_of_broken (hbr.trans hb)] at hs'
    have hget : s'.threads[i]? = some ⟨[], t.tally, true⟩ := by
      rw [hs']
      unfold State.crash
      simp only []
      rw [hth, List.getElem?_modify, State.pop_getElem? ht]
      simp
    refine ⟨List.append_cancel_right (hn.symm.trans ?_), _, hget, rfl⟩
    rw [hs']
    exact htr.trans hnone
  | false =>
    left
    have hcall : (s.scope.reclaim st.env st.config.softCleanup).2.trace =
        ⟨s.scope.clock, .reclaim st.config.softCleanup
          (s.scope.reclaim st.env st.config.softCleanup).1⟩ :: s.scope.trace :=
      Scope.call_trace hb
    rw [State.endBroken_of_unbroken (hbr.trans hb)] at hs'
    refine ⟨s.scope.clock, (s.scope.reclaim st.env st.config.softCleanup).1,
      List.append_cancel_right (hn.symm.trans ?_)⟩
    rw [hs', htr]
    exact hcall

end Steps

/-! ## Passes along a history -/

/-- The passes that the history `h` of a run tells of are reclaimed: of a thread that has not broken
off, each is over or its reclaim is yet to come (`balance`), a reclaim stands before whatever comes
after a pass (`order`), it is one call (`calls`), and no job but a reclaim makes one (`others`). -/
structure Reclaimed (st : Settings σ) (h : List Deed) (s : State σ) : Prop where
  balance : ∀ (i : ThreadId) t, s.threads[i]? = some t → t.crashed = false →
    countOf Job.beginsPass i h = countOf Job.endsPass i h + t.jobs.countP Job.endsPass
  order : ∀ before d after inv limit pass, h = before ++ d :: after →
    d.job = .passes inv limit (pass + 1) → lastJob? d.thread before = some (.reclaim .pass)
  calls : ∀ d ∈ h, d.job = .reclaim .pass →
    (∃ time r, d.noted = [⟨time, .reclaim st.config.softCleanup r⟩]) ∨
      d.noted = [] ∧ ∃ t, s.threads[d.thread]? = some t ∧ t.crashed = true
  others : ∀ d ∈ h, ∀ e ∈ d.noted, e.event.kind = .reclaim → ∃ occasion, d.job = .reclaim occasion

/-- What carries `Reclaimed` along a history. -/
structure Paced (st : Settings σ) (h : List Deed) (s : State σ) : Prop extends Reclaimed st h s where
  bounded : ∀ d ∈ h, d.thread < s.threads.length
  chained : s.Stacks (List.IsChain Job.Paces)
  last : ∀ (i : ThreadId) t inv limit pass js, s.threads[i]? = some t →
    t.jobs = .passes inv limit (pass + 1) :: js → lastJob? i h = some (.reclaim .pass)

section Paced

variable {st : Settings σ} {i : ThreadId} {j : Job} {s s' : State σ} {h : List Deed}
  {noted : List TimedEvent}

theorem reclaim_mem_notes {j : Job} (hj : EventKind.reclaim ∈ j.notes) :
    ∃ occasion, j = .reclaim occasion := by
  cases j with
  | reclaim occasion => exact ⟨occasion, rfl⟩
  | opening calls inv => cases calls <;> simp [Job.notes] at hj
  | _ => simp [Job.notes] at hj

theorem countOf_eq_zero {p : Job → Bool} {k : ThreadId} {n : Nat} (hb : ∀ d ∈ h, d.thread < n)
    (hk : n ≤ k) : countOf p k h = 0 := by
  unfold countOf
  rw [List.countP_eq_zero]
  intro d hd
  have := hb d hd
  simp only [Bool.and_eq_true, decide_eq_true_eq, not_and]
  intro he
  rw [he] at this
  exact absurd hk (Nat.not_le_of_lt this)

theorem balance_step (hp : Paced st h s) (hs : Stepped st i j s s') (k : ThreadId) (u : Thread)
    (hu : s'.threads[k]? = some u) (hcr : u.crashed = false) :
    countOf Job.beginsPass k (h ++ [⟨i, j, noted⟩]) =
      countOf Job.endsPass k (h ++ [⟨i, j, noted⟩]) + u.jobs.countP Job.endsPass := by
  obtain ⟨t, js, new, spawned, ht, hj, hy, hthreads⟩ := hs.thread_cases
  rw [countOf_append, countOf_append]
  rcases hthreads k u hu with
    ⟨rfl, ⟨hjobs, hcr'⟩ | ⟨-, hcr'⟩⟩ | ⟨hki, hold⟩ | ⟨hki, hlen, jobs, hm, rfl⟩
  · have hold := hp.balance k t ht (by rw [← hcr', hcr])
    have hnew := countP_endsPass hy
    rw [hj, ← List.singleton_append, List.countP_append] at hold
    rw [hjobs, List.countP_append, if_pos rfl, if_pos rfl]
    omega
  · rw [hcr] at hcr'
    cases hcr'
  · rw [if_neg (Ne.symm hki), if_neg (Ne.symm hki)]
    exact hp.balance k u hold hcr
  · have hz : (Thread.ofJobs jobs).jobs.countP Job.endsPass = 0 := by
      rw [List.countP_eq_zero]
      intro x hx he
      obtain rfl := endsPass_cases he
      cases hy.starts jobs hm _ hx
    rw [if_neg (Ne.symm hki), if_neg (Ne.symm hki), countOf_eq_zero hp.bounded hlen,
      countOf_eq_zero hp.bounded hlen, hz]

theorem last_step (hp : Paced st h s) (hs : Stepped st i j s s') (k : ThreadId) (u : Thread)
    (inv : Invocation) (limit : Int) (pass : Nat) (js' : List Job) (hu : s'.threads[k]? = some u)
    (hjs : u.jobs = .passes inv limit (pass + 1) :: js') :
    lastJob? k (h ++ [⟨i, j, noted⟩]) = some (.reclaim .pass) := by
  obtain ⟨t, js, new, spawned, ht, hj, hy, hthreads⟩ := hs.thread_cases
  rcases hthreads k u hu with
    ⟨rfl, ⟨hjobs, -⟩ | ⟨hjobs, -⟩⟩ | ⟨hki, hold⟩ | ⟨hki, -, jobs, hm, rfl⟩
  · rw [lastJob?_append_self]
    rw [hjobs] at hjs
    cases new with
    | nil =>
      have hchain := hp.chained t (List.mem_of_getElem? ht)
      rw [hj, show js = _ from hjs] at hchain
      rw [(List.isChain_cons_cons.1 hchain).1 inv limit pass rfl]
    | cons x new =>
      obtain ⟨rfl, -⟩ := List.cons.inj hjs
      exact (later_pass_not_next hy).elim
  · rw [hjobs] at hjs
    cases hjs
  · rw [lastJob?_append_other (Ne.symm hki)]
    exact hp.last k u inv limit pass js' hold hjs
  · have hx : Job.passes inv limit (pass + 1) ∈ jobs := by
      rw [show jobs = _ from hjs]
      exact List.mem_cons_self
    cases hy.starts jobs hm _ hx

theorem order_step (hp : Paced st h s) (hs : Stepped st i j s s') {before after : List Deed} {d : Deed}
    {inv : Invocation} {limit : Int} {pass : Nat} (hd : h ++ [⟨i, j, noted⟩] = before ++ d :: after)
    (hj : d.job = .passes inv limit (pass + 1)) :
    lastJob? d.thread before = some (.reclaim .pass) := by
  rcases List.eq_nil_or_concat after with rfl | ⟨after, d', rfl⟩
  · obtain ⟨rfl, hlast⟩ := List.append_inj' hd rfl
    obtain rfl := List.head_eq_of_cons_eq hlast
    obtain ⟨t, js, -, -, -, ht, hjs, -⟩ := hs.moves
    rw [show j = _ from hj] at hjs
    exact hp.last i t inv limit pass js ht hjs
  · rw [List.concat_eq_append, ← List.cons_append, ← List.append_assoc] at hd
    exact hp.order before d after inv limit pass (List.append_inj' hd rfl).1 hj

theorem calls_step (hp : Paced st h s) (hs : Stepped st i j s s')
    (hn : s'.scope.trace = noted ++ s.scope.trace) {d : Deed} (hd : d ∈ h ++ [⟨i, j, noted⟩])
    (hj : d.job = .reclaim .pass) :
    (∃ time r, d.noted = [⟨time, .reclaim st.config.softCleanup r⟩]) ∨
      d.noted = [] ∧ ∃ t, s'.threads[d.thread]? = some t ∧ t.crashed = true := by
  rcases List.mem_append.1 hd with hd | hd
  · rcases hp.calls d hd hj with hc | ⟨hnone, t, ht, hcr⟩
    · exact .inl hc
    · exact .inr ⟨hnone, hs.crashed_at ht hcr⟩
  · obtain rfl := List.mem_singleton.1 hd
    obtain rfl : j = _ := hj
    exact reclaim_noted hs hn

theorem others_step (hp : Paced st h s) (hs : Stepped st i j s s')
    (hn : s'.scope.trace = noted ++ s.scope.trace) {d : Deed} (hd : d ∈ h ++ [⟨i, j, noted⟩])
    {e : TimedEvent} (he : e ∈ d.noted) (hk : e.event.kind = .reclaim) :
    ∃ occasion, d.job = .reclaim occasion := by
  rcases List.mem_append.1 hd with hd | hd
  · exact hp.others d hd e he hk
  · obtain rfl := List.mem_singleton.1 hd
    obtain ⟨-, new, hnew, hkinds⟩ := hs.scope
    obtain rfl : noted = new := List.append_cancel_right (hn.symm.trans hnew)
    refine reclaim_mem_notes ?_
    rw [← hk]
    exact (hkinds e he).2

theorem bounded_step (hp : Paced st h s) (hs : Stepped st i j s s') {d : Deed}
    (hd : d ∈ h ++ [⟨i, j, noted⟩]) : d.thread < s'.threads.length := by
  obtain ⟨t, -, t', -, spawned, ht, -, -, hth, -⟩ := hs.moves
  have hi : i < s.threads.length := (List.getElem?_eq_some_iff.1 ht).1
  have hlen := (Stepped.getElem?_threads hth hi).2.1
  rcases List.mem_append.1 hd with hd | hd
  · exact Nat.lt_of_lt_of_le (hp.bounded d hd) hlen
  · obtain rfl := List.mem_singleton.1 hd
    exact Nat.lt_of_lt_of_le hi hlen

theorem paced_step (hp : Paced st h s) (hs : Stepped st i j s s')
    (hn : s'.scope.trace = noted ++ s.scope.trace) : Paced st (h ++ [⟨i, j, noted⟩]) s' where
  balance := balance_step hp hs
  order _ _ _ _ _ _ hd hj := order_step hp hs hd hj
  calls _ hd hj := calls_step hp hs hn hd hj
  others _ hd _ he hk := others_step hp hs hn hd he hk
  bounded _ hd := bounded_step hp hs hd
  chained := paces_step hs hp.chained
  last := last_step hp hs

/-- The jobs of a thread at the start say nothing of passes. -/
theorem paced_start (sc : Scope σ) (actions : List Action) (report : Report) :
    Paced st [] (start st sc actions report) where
  balance k t ht _ := by
    obtain rfl := List.mem_singleton.1 (List.mem_of_getElem? ht)
    rfl
  order before d after inv limit pass hd _ := by simp at hd
  calls d hd _ := nomatch hd
  others d hd _ _ _ := nomatch hd
  bounded d hd := nomatch hd
  chained t ht := by
    obtain rfl := List.mem_singleton.1 ht
    exact .singleton _
  last k t inv limit pass js ht hj := by
    obtain rfl := List.mem_singleton.1 (List.mem_of_getElem? ht)
    cases hj

theorem paced_of_runs {sc : Scope σ} {actions : List Action} {report : Report}
    (hb : sc.broken = false) (hr : Runs st (start st sc actions report) h s) : Paced st h s :=
  hr.invariant hb (paced_start sc actions report) (fun _ _ _ _ _ _ hp hs hn => paced_step hp hs hn)
    fun _ _ _ hp _ _ => ⟨⟨hp.balance, hp.order, hp.calls, hp.others⟩, hp.bounded, hp.chained, hp.last⟩

/-- A run returns with a fault just if a call of its opening fails, namely with that of the first such
call, after which nothing is done.  With all of them passed it can only return as a success: without
the passes nothing is done either, and otherwise every pass is reclaimed. -/
theorem run_result {sc : Scope σ} {actions : List Action} {report : Report} (ht : sc.trace = [])
    (hb : sc.broken = false) (hr : Runs st (start st sc actions report) h s) :
    (∀ fault, s.result? = some (.error fault) → ∃ done c rest,
      openingCalls st (!st.config.skipSetup) = done ++ c :: rest ∧
      s.noted.map Event.opening? = done.map passed ++ [some (c, .error fault)] ∧
      s.report = report) ∧
    (∀ done c rest fault, openingCalls st (!st.config.skipSetup) = done ++ c :: rest →
      done.map passed ++ [some (c, .error fault)] <+: s.noted.map Event.opening? →
      s.result? = some (.error fault)) ∧
    ((openingCalls st (!st.config.skipSetup)).map passed <+: s.noted.map Event.opening? →
      (∀ r, s.result? = some r → r = .ok ()) ∧
      (st.config.skipTest = true →
        s.noted.map Event.opening? = (openingCalls st (!st.config.skipSetup)).map passed ∧
        s.report = report ∧
        (s.result? = some (.ok ()) ∨
          ∃ s', s.step? st 0 = some s' ∧ s'.result? = some (.ok ()))) ∧
      Reclaimed st h s) := by
  have hstage := stage_of_reaches ht hb hr.reaches
  refine ⟨fun fault hf => hstage.failed_call hf,
    fun done c rest fault ho hf => hstage.result?_of_failing ho hf, fun hp => ⟨?_, ?_, ?_⟩⟩
  · exact fun r hr => hstage.result?_of_passed hp hr
  · exact fun hs => hstage.skipped_of_passed (hr.unbroken hb) hs hp
  · exact (paced_of_runs hb hr).toReclaimed

end Paced

/-- A run of two passes that is cleared in vain: no launch, reclaim or teardown of it works. -/
def spoiledRun : State (Faulty (World Rehearsal)) :=
  rehearse { repeats := 1 } {}
    { run := [some (.command "no space left"), some (.command "no space left")]
      reclaim := [some (.command "busy"), some (.command "busy"), some (.command "busy")]
      teardown := [some (.commandFailed (some 1))] }
    [{ image := "probe", command := "ping", wait := true }] 60

theorem run_result_spoiledRun :
    ∃ h, Reclaimed (rehearsed { repeats := 1 }) h spoiledRun ∧
      spoiledRun.result? = some (.ok ()) := by
  obtain ⟨h, hr⟩ := runs_of_reaches
    (rehearse_reaches { repeats := 1 } {}
      { run := [some (.command "no space left"), some (.command "no space left")]
        reclaim := [some (.command "busy"), some (.command "busy"), some (.command "busy")]
        teardown := [some (.commandFailed (some 1))] }
      [{ image := "probe", command := "ping", wait := true }] 60) rfl
  have hp : (openingCalls (rehearsed { repeats := 1 }) true).map passed <+:
      spoiledRun.noted.map Event.opening? := by decide +kernel
  obtain ⟨-, -, hpassed⟩ := run_result rfl rfl hr
  exact ⟨h, (hpassed hp).2.2, by decide +kernel⟩

end Workload.Run
