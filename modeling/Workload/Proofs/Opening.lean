import Workload.Proofs.Steps

/-!
# The opening of a run

A run begins with a single thread that makes the opening calls one after the other.  `Stage` says how
far it has come: as long as no call has failed, only calls of the opening were made, and once they are
over nothing can make the run fail any more, for every other opening is that of a nested test
(`Nested`).  `stage_of_reaches` is the invariant.
-/

namespace Workload

/-- The call of the opening that an event is about, and its result. -/
def Event.opening? : Event → Option (Run.OpeningCall × Except Fault Unit)
  | .purge r => some (.purge, r.mapError .runtime)
  | .provide _ r => some (.provide, r.mapError .provider)
  | .hook .setup r => some (.setup, r.mapError .execution)
  | .hook .initCli r => some (.initCli, r.mapError .execution)
  | _ => none

namespace Run

variable {σ : Type}

/-- The run as a whole. -/
def Invocation.whole (st : Settings σ) (actions : List Action) : Invocation :=
  ⟨.ofConfig st.config, actions, false⟩

namespace State

/-- What was noted, in order, but for the lookups of statuses on the way. -/
def noted (s : State σ) : List Event :=
  ((s.scope.trace.map TimedEvent.event).filter fun e => e.kind ≠ .status).reverse

/-- What the run has returned with, if it has. -/
def result? (s : State σ) : Option (Except Fault Unit) :=
  match s.threads[0]? with
  | some t =>
    if t.finished && !t.crashed then
      some (match s.failure with
        | some fault => .error fault
        | none => .ok ())
    else none
  | none => none

end State

/-! ## What was noted -/

theorem filter_asked {asked : List TimedEvent} (h : ∀ e ∈ asked, e.event.kind = .status) :
    (asked.map TimedEvent.event).filter (fun e => e.kind ≠ .status) = [] := by
  rw [List.filter_eq_nil_iff, List.forall_mem_map]
  intro e he
  simp [h e he]

theorem noted_of_trace {s s' : State σ} (h : s'.scope.trace = s.scope.trace) : s'.noted = s.noted := by
  unfold State.noted
  rw [h]

theorem noted_of_asked {s s' : State σ} {asked : List TimedEvent}
    (ht : s'.scope.trace = asked ++ s.scope.trace) (h : ∀ e ∈ asked, e.event.kind = .status) :
    s'.noted = s.noted := by
  unfold State.noted
  rw [ht, List.map_append, List.filter_append, filter_asked h, List.nil_append]

theorem noted_of_call {s s' : State σ} {asked : List TimedEvent} {e : TimedEvent}
    (ht : s'.scope.trace = e :: (asked ++ s.scope.trace))
    (h : ∀ e ∈ asked, e.event.kind = .status) (he : e.event.kind ≠ .status) :
    s'.noted = s.noted ++ [e.event] := by
  unfold State.noted
  rw [ht, List.map_cons, List.filter_cons_of_pos (by simpa using he), List.reverse_cons,
    List.map_append, List.filter_append, filter_asked h, List.nil_append]

theorem noted_grows {kinds : List EventKind} {s s' : State σ} (h : s.scope.Grows kinds s'.scope) :
    s.noted <+: s'.noted := by
  obtain ⟨-, new, hn, -⟩ := h
  unfold State.noted
  rw [hn, List.map_append, List.filter_append, List.reverse_append]
  exact List.prefix_append _ _

/-! ## The calls of the opening -/

section Calls

variable (st : Settings σ) (c : OpeningCall) (s : State σ)

/-- A call of the opening changes nothing but the scope. -/
theorem makeOpeningCall_eq :
    (s.makeOpeningCall st c).2 = { s with scope := (s.makeOpeningCall st c).2.scope } := by
  cases c <;> rfl

/-- A call of the opening that can be made is noted with its result. -/
theorem makeOpeningCall_noted (hb : (s.makeOpeningCall st c).2.scope.broken = false) :
    ∃ e, (s.makeOpeningCall st c).2.noted = s.noted ++ [e] ∧
      e.opening? = some (c, (s.makeOpeningCall st c).1) := by
  cases c with
  | purge =>
    have ht : (s.scope.purge st.env).2.trace =
        ⟨s.scope.clock, .purge (s.scope.purge st.env).1⟩ :: ([] ++ s.scope.trace) :=
      Scope.call_trace hb
    exact ⟨_, noted_of_call ht (by simp) (by simp [Event.kind]), rfl⟩
  | provide =>
    have ht : (s.scope.provide st.env s.scope.topology).2.trace =
        ⟨s.scope.clock, .provide s.scope.topology (s.scope.provide st.env s.scope.topology).1⟩ ::
          ([] ++ s.scope.trace) :=
      Scope.call_trace hb
    exact ⟨_, noted_of_call ht (by simp) (by simp [Event.kind]), rfl⟩
  | setup =>
    have hb' : (s.scope.hook st.env .setup).2.broken = false := hb
    obtain ⟨asked, ht, hk⟩ := Scope.hook_trace st.env hb'
    exact ⟨_, noted_of_call ht hk (by simp [Event.kind]), rfl⟩
  | initCli =>
    have hb' : (s.scope.hook st.env .initCli).2.broken = false := hb
    obtain ⟨asked, ht, hk⟩ := Scope.hook_trace st.env hb'
    exact ⟨_, noted_of_call ht hk (by simp [Event.kind]), rfl⟩

/-- A call of the opening that asks for what cannot be done is not noted. -/
theorem makeOpeningCall_noted_of_broken (hb : (s.makeOpeningCall st c).2.scope.broken = true) :
    (s.makeOpeningCall st c).2.noted = s.noted := by
  cases c with
  | purge =>
    have ht : (s.scope.purge st.env).2.trace = [] ++ s.scope.trace :=
      Scope.call_trace_of_broken hb
    exact noted_of_asked ht (by simp)
  | provide =>
    have ht : (s.scope.provide st.env s.scope.topology).2.trace = [] ++ s.scope.trace :=
      Scope.call_trace_of_broken hb
    exact noted_of_asked ht (by simp)
  | setup =>
    have hb' : (s.scope.hook st.env .setup).2.broken = true := hb
    obtain ⟨asked, ht, hk⟩ := Scope.hook_trace_of_broken st.env hb'
    exact noted_of_asked ht hk
  | initCli =>
    have hb' : (s.scope.hook st.env .initCli).2.broken = true := hb
    obtain ⟨asked, ht, hk⟩ := Scope.hook_trace_of_broken st.env hb'
    exact noted_of_asked ht hk

end Calls

/-! ## The steps of the opening -/

section Steps

variable {st : Settings σ} {actions : List Action} {s s' : State σ}

theorem singleton_of_stepped {i : ThreadId} {j : Job} {t : Thread} (h : Stepped st i j s s')
    (ht : s.threads = [t]) : i = 0 ∧ ∃ js, t.jobs = j :: js := by
  obtain ⟨u, js, -, -, -, hu, hj, -⟩ := h.moves
  rw [ht] at hu
  cases i with
  | zero =>
    cases hu
    exact ⟨rfl, js, hj⟩
  | succ i => cases hu

/-- What the calls of the opening have come to. -/
inductive Called (inv : Invocation) (c : OpeningCall) (cs : List OpeningCall) (s s' : State σ) : Prop
  | ok (e : Event) (n : Nat) : e.opening? = some (c, .ok ()) → s'.noted = s.noted ++ [e] →
    s'.threads = [⟨[.opening cs inv], n, false⟩] → s'.failure = s.failure → Called inv c cs s s'
  | failed (e : Event) (fault : Fault) (n : Nat) : e.opening? = some (c, .error fault) →
    s'.noted = s.noted ++ [e] → s'.threads = [⟨[], n, false⟩] → s'.failure = some fault →
    Called inv c cs s s'
  | broken (n : Nat) : s'.noted = s.noted → s'.threads = [⟨[], n, true⟩] → Called inv c cs s s'

/-- The failure of a call that does not open a nested test is what the run returns with. -/
theorem openingFailed_of_not_nested {inv : Invocation} (hn : inv.nested = false) (fault : Fault)
    (s : State σ) : s.openingFailed inv fault = { s with failure := some fault } := by
  unfold State.openingFailed
  rw [if_neg (by rw [hn]; exact Bool.false_ne_true)]

/-- A thread whose opening call cannot be made breaks off. -/
theorem called_broken {inv : Invocation} {c : OpeningCall} {cs : List OpeningCall} {n : Nat}
    {r : Except Fault Unit} {s₁ : State σ} (hth : s₁.threads = [⟨[], n, false⟩])
    (hb : s₁.scope.broken = true) (hnoted : s₁.noted = s.noted) (hn : inv.nested = false) :
    Called inv c cs s ((match r with
      | .ok _ => s₁.push 0 [.opening cs inv]
      | .error fault => s₁.openingFailed inv fault).endBroken 0) := by
  cases r with
  | ok _ =>
    simp only []
    rw [State.endBroken_of_broken (show (s₁.push 0 [.opening cs inv]).scope.broken = true from hb)]
    refine .broken n ?_ ?_
    · rw [← hnoted]
      rfl
    · simp [State.crash, State.push, hth]
  | error fault =>
    simp only [openingFailed_of_not_nested hn]
    have hb' : ({ s₁ with failure := some fault } : State σ).scope.broken = true := hb
    rw [State.endBroken_of_broken hb']
    refine .broken n ?_ ?_
    · rw [← hnoted]
      rfl
    · simp [State.crash, hth]

/-- An opening call that can be made is noted, and its failure ends the run. -/
theorem called_made {inv : Invocation} {c : OpeningCall} {cs : List OpeningCall} {n : Nat}
    {r : Except Fault Unit} {s₁ : State σ} {e : Event} (hth : s₁.threads = [⟨[], n, false⟩])
    (hb : s₁.scope.broken = false) (hnoted : s₁.noted = s.noted ++ [e])
    (he : e.opening? = some (c, r)) (hf : s₁.failure = s.failure) (hn : inv.nested = false) :
    Called inv c cs s ((match r with
      | .ok _ => s₁.push 0 [.opening cs inv]
      | .error fault => s₁.openingFailed inv fault).endBroken 0) := by
  cases r with
  | ok _ =>
    simp only []
    rw [State.endBroken_of_unbroken (show (s₁.push 0 [.opening cs inv]).scope.broken = false from hb)]
    refine .ok e n he ?_ ?_ hf
    · rw [← hnoted]
      rfl
    · simp [State.push, hth]
  | error fault =>
    simp only [openingFailed_of_not_nested hn]
    have hb' : ({ s₁ with failure := some fault } : State σ).scope.broken = false := hb
    rw [State.endBroken_of_unbroken hb']
    refine .failed e fault n he ?_ hth rfl
    rw [← hnoted]
    rfl

theorem called_of_stepped {inv : Invocation} {c : OpeningCall} {cs : List OpeningCall} {n : Nat}
    {i : ThreadId} {j : Job} (h : Stepped st i j s s')
    (ht : s.threads = [⟨[.opening (c :: cs) inv], n, false⟩]) (hn : inv.nested = false) :
    Called inv c cs s s' := by
  obtain ⟨rfl, js, hjs⟩ := singleton_of_stepped h ht
  obtain ⟨rfl, rfl⟩ := List.cons.inj hjs
  have hpop : (s.pop 0).threads = [⟨[], n, false⟩] := by
    unfold State.pop
    rw [ht]
    rfl
  have hs' : s' = ((s.pop 0).opening st 0 (c :: cs) inv).endBroken 0 := h.result
  have heq := makeOpeningCall_eq st c (s.pop 0)
  have hmade := makeOpeningCall_noted st c (s.pop 0)
  have hbroken := makeOpeningCall_noted_of_broken st c (s.pop 0)
  unfold State.opening at hs'
  simp only [] at hs'
  rcases hr : (s.pop 0).makeOpeningCall st c with ⟨r, s₁⟩
  rw [hr] at heq hmade hbroken hs'
  have hth : s₁.threads = [⟨[], n, false⟩] := by
    rw [show s₁ = _ from heq]
    exact hpop
  have hf : s₁.failure = s.failure := by
    rw [show s₁ = _ from heq]
    rfl
  have hcalled : Called inv c cs s ((match r with
      | .ok _ => s₁.push 0 [.opening cs inv]
      | .error fault => s₁.openingFailed inv fault).endBroken 0) := by
    cases hb : s₁.scope.broken with
    | true => exact called_broken hth hb (hbroken hb) hn
    | false =>
      obtain ⟨e, hnoted, he⟩ := hmade hb
      exact called_made hth hb hnoted he hf hn
  rw [hs']
  cases r with
  | ok _ => exact hcalled
  | error fault => exact hcalled

/-- After the calls of the opening the passes begin, beside the watchdog if their time is limited,
or the run is over. -/
theorem opened_of_stepped {inv : Invocation} {n : Nat} {i : ThreadId} {j : Job}
    (h : Stepped st i j s s') (ht : s.threads = [⟨[.opening [] inv], n, false⟩]) :
    s'.noted = s.noted ∧ s'.failure = s.failure ∧ s'.report = s.report ∧ ∃ n',
      s'.threads =
        if inv.phases.test then
          let limited := inv.phases.watchdog && st.config.duration ≠ 0
          ⟨[.passes inv (State.passLimit inv.phases limited) 0], n', false⟩ ::
            if limited then [.ofJobs [.sleep (1000 * st.config.duration), .elapsed]] else []
        else [⟨[], n', false⟩] := by
  obtain ⟨rfl, js, hjs⟩ := singleton_of_stepped h ht
  obtain ⟨rfl, rfl⟩ := List.cons.inj hjs
  obtain ⟨t, js, t', new, spawned, htt, htj, hy, hth, ht' | ⟨hns, -⟩⟩ := h.moves
  · rw [ht] at htt hth
    obtain rfl : (⟨[.opening [] inv], n, false⟩ : Thread) = t := Option.some.inj htt
    obtain ⟨-, rfl⟩ := List.cons.inj htj
    obtain ⟨hjobs, hcr⟩ := ht'
    rw [List.append_nil] at hjobs
    obtain ⟨hf, hy⟩ := hy
    obtain ⟨f, hboard⟩ := h.board
    have hnoted : s'.noted = s.noted := by
      unfold State.noted
      rw [h.scope.trace_eq]
    have heta : t' = ⟨new, t'.tally, false⟩ := by
      rw [← hjobs]
      exact congrArg (Thread.mk t'.jobs t'.tally) hcr
    refine ⟨hnoted, hf, congrArg Board.report hboard, t'.tally, ?_⟩
    rw [hth, heta]
    split_ifs at hy ⊢ with htest
    · obtain ⟨rfl, rfl⟩ := hy
      simp only []
      split_ifs <;> rfl
    · obtain ⟨rfl, rfl⟩ := hy
      rfl
  · cases hns

end Steps

/-! ## How far a run has come -/

/-- An opening call that has not failed, as it is noted. -/
def passed (c : OpeningCall) : Option (OpeningCall × Except Fault Unit) := some (c, .ok ())

/-- Other openings than that of the run as a whole are those of nested tests. -/
def Nested (st : Settings σ) (jobs : List Job) : Prop :=
  ∀ calls inv, .opening calls inv ∈ jobs → inv.nested = true ∧ inv.phases = .nested st.config

/-- How far a run has come that began with an empty trace and the given report. -/
inductive Stage (st : Settings σ) (actions : List Action) (report : Report) (s : State σ) : Prop
  | opening (done rest : List OpeningCall) (n : Nat) :
    openingCalls st (!st.config.skipSetup) = done ++ rest →
    s.threads = [⟨[.opening rest (.whole st actions)], n, false⟩] →
    s.noted.map Event.opening? = done.map passed → s.failure = none → s.report = report →
    Stage st actions report s
  | failed (done rest : List OpeningCall) (c : OpeningCall) (fault : Fault) (n : Nat) :
    openingCalls st (!st.config.skipSetup) = done ++ c :: rest →
    s.threads = [⟨[], n, false⟩] →
    s.noted.map Event.opening? = done.map passed ++ [some (c, .error fault)] →
    s.failure = some fault → s.report = report → Stage st actions report s
  | broken (done rest : List OpeningCall) (c : OpeningCall) (n : Nat) :
    openingCalls st (!st.config.skipSetup) = done ++ c :: rest →
    s.threads = [⟨[], n, true⟩] →
    s.noted.map Event.opening? = done.map passed → s.report = report → Stage st actions report s
  | skipped (n : Nat) : st.config.skipTest = true →
    s.threads = [⟨[], n, false⟩] →
    s.noted.map Event.opening? = (openingCalls st (!st.config.skipSetup)).map passed →
    s.failure = none → s.report = report → Stage st actions report s
  | running : st.config.skipTest = false →
    (openingCalls st (!st.config.skipSetup)).map passed <+: s.noted.map Event.opening? →
    s.failure = none → s.Stacks (Nested st) → Stage st actions report s

section Stages

variable {st : Settings σ} {actions : List Action} {report : Report} {s s' : State σ}

theorem nested_step {i : ThreadId} {j : Job} (h : Stepped st i j s s')
    (hn : s.Stacks (Nested st)) : s'.Stacks (Nested st) := by
  refine h.forall_stacks hn (fun _ _ hm => (nomatch hm)) fun js new spawned _ hjs hy => ⟨?_, ?_⟩
  · intro calls inv hm
    rcases List.mem_append.1 hm with hm | hm
    · cases hy.leaves _ hm with
      | nextCall c cs inv => exact hjs _ _ List.mem_cons_self
      | nested pass last rest actions calls => exact ⟨rfl, rfl⟩
    · exact hjs _ _ (List.mem_cons_of_mem j hm)
  · intro l hl calls inv hm
    cases hy.starts l hl _ hm

theorem failure_step {i : ThreadId} {j : Job} (h : Stepped st i j s s')
    (hn : s.Stacks (Nested st)) : s'.failure = s.failure := by
  rcases h.board.failure with hf | ⟨calls, inv, rfl⟩
  · exact hf
  obtain ⟨t, js, t', new, spawned, ht, hj, hy, -⟩ := h.moves
  have htn := hn t (List.mem_of_getElem? ht)
  rw [hj] at htn
  have hnested := (htn _ _ List.mem_cons_self).1
  cases calls with
  | nil => exact hy.1
  | cons c cs =>
    obtain ⟨-, hy⟩ := hy
    split at hy
    · exact hy.2
    · rw [hy.2, if_pos hnested]

theorem whole_test {skip : Bool} (hs : st.config.skipTest = skip) :
    (Invocation.whole st actions).phases.test = !skip := by
  rw [← hs]
  rfl

/-- With all calls of the opening passed the run is over, or its passes begin. -/
theorem stage_opened {n : Nat} {i : ThreadId} {j : Job} (h : Stepped st i j s s')
    (ht : s.threads = [⟨[.opening [] (.whole st actions)], n, false⟩])
    (hc : s.noted.map Event.opening? = (openingCalls st (!st.config.skipSetup)).map passed)
    (hf : s.failure = none) (hr : s.report = report) : Stage st actions report s' := by
  obtain ⟨hn, hf', hr', n', hth⟩ := opened_of_stepped h ht
  rw [← hn] at hc
  cases hs : st.config.skipTest with
  | true =>
    rw [whole_test hs] at hth
    exact .skipped n' hs hth hc (hf'.trans hf) (hr'.trans hr)
  | false =>
    rw [whole_test hs, Bool.not_false, if_pos rfl] at hth
    refine .running hs ?_ (hf'.trans hf) ?_
    · exact hc ▸ List.prefix_rfl
    · intro t htm calls inv hm
      rw [hth] at htm
      rcases List.mem_cons.1 htm with rfl | htm
      · simp at hm
      · split_ifs at htm
        · obtain rfl := List.mem_singleton.1 htm
          simp [Thread.ofJobs] at hm
        · cases htm

theorem stage_called {done cs : List OpeningCall} {c : OpeningCall} {n : Nat} {i : ThreadId} {j : Job}
    (h : Stepped st i j s s')
    (ho : openingCalls st (!st.config.skipSetup) = done ++ c :: cs)
    (ht : s.threads = [⟨[.opening (c :: cs) (.whole st actions)], n, false⟩])
    (hc : s.noted.map Event.opening? = done.map passed) (hf : s.failure = none)
    (hr : s.report = report) : Stage st actions report s' := by
  have hr' : s'.report = report := by
    obtain ⟨rfl, js, hjs⟩ := singleton_of_stepped h ht
    obtain ⟨rfl, -⟩ := List.cons.inj hjs
    obtain ⟨f, hb⟩ := h.board
    exact (congrArg Board.report hb).trans hr
  cases called_of_stepped h ht rfl with
  | ok e n' he hn hth hf' =>
    refine .opening (done ++ [c]) cs n' (by rw [ho, List.append_assoc]; rfl) hth ?_
      (hf'.trans hf) hr'
    rw [hn, List.map_append, hc, List.map_append]
    simp [he, passed]
  | failed e fault n' he hn hth hf' =>
    refine .failed done cs c fault n' ho hth ?_ hf' hr'
    rw [hn, List.map_append, hc]
    simp [he]
  | broken n' hn hth =>
    exact .broken done cs c n' ho hth (by rw [hn, hc]) hr'

theorem not_stepped {n : Nat} {crashed : Bool} {i : ThreadId} {j : Job} (h : Stepped st i j s s')
    (ht : s.threads = [⟨[], n, crashed⟩]) : False := by
  obtain ⟨-, js, hjs⟩ := singleton_of_stepped h ht
  cases hjs

theorem stage_step {i : ThreadId} {j : Job} (h : Stepped st i j s s')
    (hs : Stage st actions report s) : Stage st actions report s' := by
  cases hs with
  | opening done rest n ho ht hc hf hr =>
    cases rest with
    | nil =>
      rw [List.append_nil] at ho
      exact stage_opened h ht (ho ▸ hc) hf hr
    | cons c cs => exact stage_called h ho ht hc hf hr
  | failed done rest c fault n ho ht hc hf hr => exact (not_stepped h ht).elim
  | broken done rest c n ho ht hc hr => exact (not_stepped h ht).elim
  | skipped n hs ht hc hf hr => exact (not_stepped h ht).elim
  | running htest hc hf hn =>
    refine .running htest ?_ ((failure_step h hn).trans hf) (nested_step h hn)
    obtain ⟨more, hm⟩ := noted_grows h.scope
    rw [← hm, List.map_append]
    exact hc.trans (List.prefix_append _ _)

theorem stage_clock {time : Nat} (hs : Stage st actions report s) :
    Stage st actions report (s.setClock time) := by
  cases hs with
  | opening done rest n ho ht hc hf hr => exact .opening done rest n ho ht hc hf hr
  | failed done rest c fault n ho ht hc hf hr => exact .failed done rest c fault n ho ht hc hf hr
  | broken done rest c n ho ht hc hr => exact .broken done rest c n ho ht hc hr
  | skipped n hs ht hc hf hr => exact .skipped n hs ht hc hf hr
  | running htest hc hf hn => exact .running htest hc hf hn

/-- Every state of a run is in one of its stages. -/
theorem stage_of_reaches {sc : Scope σ} (ht : sc.trace = []) (hb : sc.broken = false)
    (h : Reaches st (start st sc actions report) s) : Stage st actions report s := by
  refine (h.invariant hb ?_ (fun _ _ _ _ hs h => stage_step h hs)
    (fun _ _ hs _ _ => stage_clock hs)).2
  refine .opening [] (openingCalls st (!st.config.skipSetup)) 0 rfl rfl ?_ rfl rfl
  unfold State.noted
  rw [show (start st sc actions report).scope.trace = [] from ht]
  rfl

/-! ## What the run returns with -/

theorem result?_of_finished {n : Nat} (ht : s.threads = [⟨[], n, false⟩]) :
    s.result? = some (match s.failure with
      | some fault => .error fault
      | none => .ok ()) := by
  unfold State.result?
  rw [ht]
  rfl

theorem result?_of_failure_none (hf : s.failure = none) {r : Except Fault Unit}
    (hr : s.result? = some r) : r = .ok () := by
  unfold State.result? at hr
  rw [hf] at hr
  split at hr
  · split_ifs at hr
    exact (Option.some.inj hr).symm
  · cases hr

/-- A run that returns with a fault has made no other call than those of its opening, the last of which
is the first that has failed, and has that fault. -/
theorem Stage.failed_call (h : Stage st actions report s) {fault : Fault}
    (hr : s.result? = some (.error fault)) :
    ∃ done c rest, openingCalls st (!st.config.skipSetup) = done ++ c :: rest ∧
      s.noted.map Event.opening? = done.map passed ++ [some (c, .error fault)] ∧
      s.report = report := by
  have hnone : s.failure = none → False := fun hf => by cases result?_of_failure_none hf hr
  cases h with
  | opening done rest n ho ht hc hf hrep => exact (hnone hf).elim
  | failed done rest c fault' n ho ht hc hf hrep =>
    rw [result?_of_finished ht, hf] at hr
    cases hr
    exact ⟨done, c, rest, ho, hc, hrep⟩
  | broken done rest c n ho ht hc hrep =>
    unfold State.result? at hr
    rw [ht] at hr
    cases hr
  | skipped n hs ht hc hf hrep => exact (hnone hf).elim
  | running hs hc hf hn => exact (hnone hf).elim

/-- Where a list of results passes, it does not fail. -/
theorem not_failing_of_passed {done more : List OpeningCall} {c : OpeningCall} {fault : Fault}
    {calls : List (Option (OpeningCall × Except Fault Unit))}
    (h : done.map passed ++ [some (c, .error fault)] <+: calls)
    (hm : more.map passed <+: calls) (hlen : done.length < more.length) : False := by
  have hget : calls[done.length]? = some (some (c, .error fault)) := by
    obtain ⟨tail, rfl⟩ := h
    simp
  obtain ⟨tail, rfl⟩ := hm
  rw [List.getElem?_append_left (by simpa using hlen), List.getElem?_map] at hget
  rcases hd : more[done.length]? with _ | d
  · rw [hd] at hget
    cases hget
  · rw [hd] at hget
    simp [passed] at hget

/-- As soon as a call of the opening has failed, the run has returned with its fault. -/
theorem Stage.result?_of_failing (h : Stage st actions report s) {done rest : List OpeningCall}
    {c : OpeningCall} {fault : Fault}
    (ho : openingCalls st (!st.config.skipSetup) = done ++ c :: rest)
    (hf : done.map passed ++ [some (c, .error fault)] <+: s.noted.map Event.opening?) :
    s.result? = some (.error fault) := by
  have hlen : done.length < (openingCalls st (!st.config.skipSetup)).length := by
    rw [ho]
    simp
  have hshort : ∀ done' : List OpeningCall, s.noted.map Event.opening? = done'.map passed → False := by
    intro done' hc
    rw [hc] at hf
    have hle := hf.length_le
    simp only [List.length_append, List.length_map, List.length_singleton] at hle
    exact not_failing_of_passed hf List.prefix_rfl (by omega)
  cases h with
  | opening done' rest' n ho' ht hc hfail hrep => exact (hshort done' hc).elim
  | failed done' rest' c' fault' n ho' ht hc hfail hrep =>
    rw [hc] at hf
    have hle := hf.length_le
    simp only [List.length_append, List.length_map, List.length_singleton] at hle
    have heq : done.map passed ++ [some (c, .error fault)] =
        done'.map passed ++ [some (c', .error fault')] := by
      by_cases hlt : done.length < done'.length
      · exact (not_failing_of_passed hf (List.prefix_append _ _) hlt).elim
      · exact hf.eq_of_length (by simp; omega)
    have hlast := List.append_inj_right' heq rfl
    cases hlast
    rw [result?_of_finished ht, hfail]
  | broken done' rest' c' n ho' ht hc hrep => exact (hshort done' hc).elim
  | skipped n hs ht hc hfail hrep => exact (hshort _ hc).elim
  | running hs hc hfail hn => exact (not_failing_of_passed hf hc hlen).elim

/-- A run whose opening has not failed never returns with a fault. -/
theorem Stage.result?_of_passed (h : Stage st actions report s)
    (hp : (openingCalls st (!st.config.skipSetup)).map passed <+: s.noted.map Event.opening?)
    {r : Except Fault Unit} (hr : s.result? = some r) : r = .ok () := by
  cases r with
  | ok u => rfl
  | error fault =>
    obtain ⟨done, c, rest, ho, hc, -⟩ := h.failed_call hr
    have hpre : done.map passed ++ [some (c, .error fault)] <+: s.noted.map Event.opening? :=
      hc ▸ List.prefix_rfl
    refine (not_failing_of_passed hpre hp ?_).elim
    rw [ho]
    simp

/-- A run without the passes is over with its opening. -/
theorem Stage.skipped_of_passed (h : Stage st actions report s) (hb : s.scope.broken = false)
    (hs : st.config.skipTest = true)
    (hp : (openingCalls st (!st.config.skipSetup)).map passed <+: s.noted.map Event.opening?) :
    s.noted.map Event.opening? = (openingCalls st (!st.config.skipSetup)).map passed ∧
      s.report = report ∧
      (s.result? = some (.ok ()) ∨
        ∃ s', s.step? st 0 = some s' ∧ s'.result? = some (.ok ())) := by
  have hle := hp.length_le
  cases h with
  | opening done rest n ho ht hc hf hrep =>
    rw [hc, ho, List.length_map, List.length_map, List.length_append] at hle
    obtain rfl : rest = [] := List.length_eq_zero_iff.1 (by omega)
    rw [List.append_nil] at ho
    refine ⟨by rw [hc, ho], hrep, .inr ?_⟩
    have hstep : s.step? st 0 = some
        (((Job.opening [] (.whole st actions)).perform st 0 (s.pop 0)).endBroken 0) := by
      unfold State.step? State.next?
      rw [ht]
      rfl
    refine ⟨_, hstep, ?_⟩
    obtain ⟨j, hj⟩ := State.step?_stepped hb hstep
    obtain ⟨-, hf', -, n', hth⟩ := opened_of_stepped hj ht
    rw [whole_test hs] at hth
    rw [result?_of_finished hth, hf', hf]
  | failed done rest c fault n ho ht hc hf hrep =>
    have hpre : done.map passed ++ [some (c, .error fault)] <+: s.noted.map Event.opening? :=
      hc ▸ List.prefix_rfl
    refine (not_failing_of_passed hpre hp ?_).elim
    rw [ho]
    simp
  | broken done rest c n ho ht hc hrep =>
    rw [hc, ho, List.length_map, List.length_map, List.length_append, List.length_cons] at hle
    omega
  | skipped n _ ht hc hf hrep =>
    refine ⟨hc, hrep, .inl ?_⟩
    rw [result?_of_finished ht, hf]
  | running hs' _ _ _ =>
    rw [hs] at hs'
    cases hs'

end Stages

end Run

end Workload
