import Mathlib.Data.List.Nodup
import Workload.Proofs.Chronicles
import Workload.Proofs.Passes
import Workload.Proofs.ScopeChanges

/-!
# The phases of a run are its own

The calls that set a cluster up and take it down are noted one by one (`phaseCalls_of_chronicle`).  They
are made by the run as a whole, each at most once and in their order, and by changes of the scope;
a nested test makes none of them.
-/

namespace Workload

namespace Run

/-- The calls that only the run as a whole makes, and the two that a change of the scope makes too. -/
inductive PhaseCall where
  | purge | setup | teardown | saveLogs | removeServers
  deriving DecidableEq, Repr

def OpeningCall.phaseCall? : OpeningCall → Option PhaseCall
  | .purge => some .purge
  | .setup => some .setup
  | .provide | .initCli => none

/-- The call that a job makes. -/
def Job.phaseCall? : Job → Option PhaseCall
  | .opening (c :: _) _ => c.phaseCall?
  | .teardown | .leaveScope _ => some .teardown
  | .enterScope => some .setup
  | .saveLogs => some .saveLogs
  | .removeServers => some .removeServers
  | _ => none

/-- The call that a job makes for the run as a whole. -/
def Job.wholeCall? : Job → Option PhaseCall
  | .opening (c :: _) inv => if inv.nested then none else c.phaseCall?
  | .teardown => some .teardown
  | .saveLogs => some .saveLogs
  | .removeServers => some .removeServers
  | _ => none

end Run

/-- The call that an event tells of. -/
def Event.phaseCall? : Event → Option Run.PhaseCall
  | .purge _ => some .purge
  | .hook .setup _ => some .setup
  | .hook .teardown _ => some .teardown
  | .saveLogs .. => some .saveLogs
  | .removeServers .. => some .removeServers
  | _ => none

namespace Run

variable {σ : Type}

/-- The calls that were made, in order. -/
def State.phaseCalls (s : State σ) : List PhaseCall := s.noted.filterMap Event.phaseCall?

/-- The call that was made at a moment, unless the thread broke off in it. -/
def Moment.phaseCall? (st : Settings σ) (m : Moment σ) : Option PhaseCall :=
  if m.breaks st then none else m.job.phaseCall?

/-! ## What was noted -/

section Noted

variable {st : Settings σ} {s s' s'' : State σ} {i : ThreadId} {j : Job}

theorem phaseCall?_of_opening? {e : Event} {c : OpeningCall} {r : Except Fault Unit}
    (h : e.opening? = some (c, r)) : e.phaseCall? = c.phaseCall? := by
  unfold Event.opening? at h
  split at h
  · cases h
    rfl
  · cases h
    rfl
  · cases h
    rfl
  · cases h
    rfl
  · cases h

theorem phaseCalls_append {s s' : State σ} {e : Event} (h : s'.noted = s.noted ++ [e]) :
    s'.phaseCalls = s.phaseCalls ++ e.phaseCall?.toList := by
  unfold State.phaseCalls
  rw [h, List.filterMap_append]
  cases he : e.phaseCall? <;> simp [he]

theorem phaseCalls_of_noted {s s' : State σ} (h : s'.noted = s.noted) :
    s'.phaseCalls = s.phaseCalls := by
  unfold State.phaseCalls
  rw [h]

/-- A call of the opening is made unless its thread breaks off in it. -/
theorem phaseCalls_opening {c : OpeningCall} {cs : List OpeningCall} {inv : Invocation} :
    (s.opening st i (c :: cs) inv).phaseCalls = s.phaseCalls ++
      if (s.opening st i (c :: cs) inv).scope.broken then [] else c.phaseCall?.toList := by
  have hmade := makeOpeningCall_noted st c s
  have hbroken := makeOpeningCall_noted_of_broken st c s
  rcases hr : s.makeOpeningCall st c with ⟨r, s₁⟩
  rw [hr] at hmade hbroken
  have heq : (s.opening st i (c :: cs) inv).noted = s₁.noted ∧
      (s.opening st i (c :: cs) inv).scope.broken = s₁.scope.broken := by
    unfold State.opening
    simp only [hr]
    cases r with
    | ok _ => exact ⟨rfl, rfl⟩
    | error fault =>
      simp only []
      unfold State.openingFailed
      split_ifs
      · exact ⟨noted_of_trace (Scope.grows_note _ _).trace_eq, State.note_broken _ _⟩
      · exact ⟨rfl, rfl⟩
  rw [phaseCalls_of_noted heq.1, heq.2]
  cases hb : s₁.scope.broken with
  | true => simp [phaseCalls_of_noted (hbroken hb)]
  | false =>
    obtain ⟨e, hn, he⟩ := hmade hb
    simp [phaseCalls_append hn, phaseCall?_of_opening? he]

/-- A hook is noted unless its thread breaks off in it. -/
theorem phaseCalls_hook (name : HookName) (warning : LogLine) :
    (s.attempt (Scope.hook st.env name) warning).phaseCalls = s.phaseCalls ++
      if (s.attempt (Scope.hook st.env name) warning).scope.broken then []
      else (Event.hook name (s.scope.hook st.env name).1).phaseCall?.toList := by
  obtain ⟨-, htrace, hbroken⟩ := attempt_spec (Scope.hook st.env name) warning s
  rw [hbroken]
  cases hb : (s.scope.hook st.env name).2.broken with
  | true =>
    obtain ⟨asked, ha, hk⟩ := Scope.hook_trace_of_broken st.env hb
    simp [phaseCalls_of_noted (noted_of_asked (htrace.trans ha) hk)]
  | false =>
    obtain ⟨asked, ha, hk⟩ := Scope.hook_trace st.env hb
    simp [phaseCalls_append (noted_of_call (htrace.trans ha) hk (by simp [Event.kind]))]

/-- A call is noted unless its thread breaks off in it. -/
theorem phaseCalls_call {ε : Type} (call : Call σ ε Unit) (event : Except ε Unit → Event)
    (he : ∀ r, (event r).kind ≠ .status) (warning : LogLine) :
    (s.attempt (fun sc => sc.call call event) warning).phaseCalls = s.phaseCalls ++
      if (s.attempt (fun sc => sc.call call event) warning).scope.broken then []
      else (event (s.scope.call call event).1).phaseCall?.toList := by
  obtain ⟨-, htrace, hbroken⟩ := attempt_spec (fun sc => sc.call call event) warning s
  rw [hbroken]
  cases hb : (s.scope.call call event).2.broken with
  | true =>
    simp [phaseCalls_of_noted (noted_of_trace (htrace.trans (Scope.call_trace_of_broken hb)))]
  | false =>
    have hnoted := noted_of_call (htrace.trans (Scope.call_trace hb) :
      _ = _ :: ([] ++ s.scope.trace)) (by simp) (he _)
    simp [phaseCalls_append hnoted]

/-- What tells of none of the calls. -/
theorem phaseCalls_grows {kinds : List EventKind} (h : s.scope.Grows kinds s'.scope)
    (hk : ∀ e : Event, e.kind ∈ kinds → e.phaseCall? = none) : s'.phaseCalls = s.phaseCalls := by
  obtain ⟨-, new, hn, hnew⟩ := h
  have hnone : ((new.map TimedEvent.event).filter fun e => e.kind ≠ .status).filterMap
      Event.phaseCall? = [] := by
    rw [List.filterMap_eq_nil_iff]
    intro e he
    obtain ⟨x, hx, rfl⟩ := List.mem_map.1 (List.mem_filter.1 he).1
    exact hk _ (hnew x hx).2
  unfold State.phaseCalls State.noted
  rw [hn, List.map_append, List.filter_append, List.reverse_append, List.filterMap_append,
    List.filterMap_reverse (l := List.filter _ (List.map _ new)), hnone]
  simp

/-- A job tells of no other call than its own. -/
theorem phaseCalls_perform (hp : j = .saveLogs ∨ j = .removeServers → st.env.provider.isDynamic = true) :
    (j.perform st i s).phaseCalls = s.phaseCalls ++
      if (j.perform st i s).scope.broken then [] else j.phaseCall?.toList := by
  obtain ⟨⟨new, spawned, -, hm⟩, -⟩ := j.perform_effect st i s
  have hg : s.scope.Grows j.notes (j.perform st i s).scope := by
    rcases hm with hm | ⟨-, hm⟩
    · exact hm.scope
    · exact hm.scope
  have hquiet : j.phaseCall? = none → (∀ e : Event, e.kind ∈ j.notes → e.phaseCall? = none) →
      (j.perform st i s).phaseCalls = s.phaseCalls ++
        if (j.perform st i s).scope.broken then [] else j.phaseCall?.toList := by
    intro hnone hk
    rw [phaseCalls_grows hg hk, hnone]
    simp
  cases j with
  | opening calls inv =>
    cases calls with
    | nil => exact hquiet rfl fun e he => (nomatch he)
    | cons c cs => exact phaseCalls_opening
  | teardown | leaveScope => exact phaseCalls_hook .teardown _
  | enterScope => exact phaseCalls_hook .setup _
  | saveLogs =>
    obtain ⟨p, hprov⟩ := Option.isSome_iff_exists.1 (hp (.inl rfl))
    have hj : Job.perform st i .saveLogs s = s.attempt
        (fun sc => sc.call (p.saveLogs st.config.logDir) (.saveLogs st.config.logDir))
        (.warn "could not save server logs") := by
      show s.saveLogs st = _
      unfold State.saveLogs
      rw [hprov]
    rw [hj]
    exact phaseCalls_call _ (.saveLogs st.config.logDir) (fun r => by simp [Event.kind]) _
  | removeServers =>
    obtain ⟨p, hprov⟩ := Option.isSome_iff_exists.1 (hp (.inr rfl))
    have hj : Job.perform st i .removeServers s = s.attempt
        (fun sc => sc.call (p.removeServers st.config.softCleanup)
          (.removeServers st.config.softCleanup)) (.warn "could not remove servers") := by
      show s.removeServers st = _
      unfold State.removeServers
      rw [hprov]
    rw [hj]
    exact phaseCalls_call _ (.removeServers st.config.softCleanup) (fun r => by simp [Event.kind]) _
  | _ =>
    refine hquiet rfl fun e he => ?_
    cases e <;> simp [Event.kind, Job.notes] at he <;> rfl

theorem phaseCalls_stepped (h : Stepped st i j s s')
    (hp : j = .saveLogs ∨ j = .removeServers → st.env.provider.isDynamic = true) :
    s'.phaseCalls = s.phaseCalls ++ ((⟨s, i, j⟩ : Moment σ).phaseCall? st).toList := by
  have hn : s'.noted = (j.perform st i (s.pop i)).noted := by
    rw [h.result]
    exact noted_of_trace (State.endBroken_trace i _)
  rw [phaseCalls_of_noted hn, phaseCalls_perform hp]
  unfold Moment.phaseCall? Moment.breaks
  simp only []
  split_ifs <;> rfl

end Noted

/-! ## The run as a whole -/

/-- The calls after the last pass. -/
def closingCalls (st : Settings σ) : List PhaseCall :=
  (State.closingJobs st (.ofConfig st.config)).filterMap Job.wholeCall?

/-- The calls that a run as a whole makes if nothing of it breaks off, in order. -/
def plannedCalls (st : Settings σ) : List PhaseCall :=
  (openingCalls st (!st.config.skipSetup)).filterMap OpeningCall.phaseCall? ++ closingCalls st

theorem openingCalls_sublist (st : Settings σ) (setup : Bool) :
    ((openingCalls st setup).filterMap OpeningCall.phaseCall?).Sublist [.purge, .setup] := by
  unfold openingCalls
  split_ifs
  · cases st.config.mode <;> decide
  · decide
  · decide

theorem closingCalls_sublist (st : Settings σ) :
    (closingCalls st).Sublist [.teardown, .saveLogs, .removeServers] := by
  unfold closingCalls State.closingJobs
  rw [List.filterMap_append, List.filterMap_append]
  split_ifs <;> decide

/-- A run as a whole makes each of its calls at most once. -/
theorem plannedCalls_nodup (st : Settings σ) : (plannedCalls st).Nodup :=
  .sublist ((openingCalls_sublist st _).append (closingCalls_sublist st)) (by decide)

/-- The calls that a job has yet to lead to. -/
def Job.leads (st : Settings σ) : Job → List PhaseCall
  | .opening calls inv =>
    if inv.nested then [] else calls.filterMap OpeningCall.phaseCall? ++ closingCalls st
  | .passes inv _ _ => if inv.nested then [] else closingCalls st
  | j => j.wholeCall?.toList

section Whole

variable {st : Settings σ} {actions : List Action} {s s' : State σ} {i : ThreadId} {j : Job}
  {new js : List Job} {spawned : List (List Job)}

theorem wholeCall?_of_inner (hj : j.Inner st) : j.wholeCall? = none := by
  cases j with
  | opening calls inv =>
    cases calls with
    | nil => rfl
    | cons c cs => simp [Job.wholeCall?, hj.2.1]
  | teardown | saveLogs | removeServers => cases hj
  | _ => rfl

theorem leads_of_inner (hj : j.Inner st) : j.leads st = [] := by
  cases j with
  | opening calls inv => simp [Job.leads, hj.2.1]
  | passes inv limit pass => simp [Job.leads, hj.1]
  | teardown | saveLogs | removeServers => cases hj
  | _ => rfl

theorem flatMap_leads_of_inner {l : List Job} (hl : ∀ x ∈ l, x.Inner st) :
    l.flatMap (Job.leads st) = [] :=
  List.flatMap_eq_nil_iff.2 fun x hx => leads_of_inner (hl x hx)

theorem leads_of_closes (hj : j.closes = true) : j.leads st = j.wholeCall?.toList := by
  cases j with
  | opening | passes => cases hj
  | _ => rfl

theorem flatMap_leads_of_closes {l : List Job} (hl : ∀ x ∈ l, x.closes = true) :
    l.flatMap (Job.leads st) = l.filterMap Job.wholeCall? := by
  induction l with
  | nil => rfl
  | cons x l ih =>
    rw [List.flatMap_cons, leads_of_closes (hl x List.mem_cons_self),
      ih fun y hy => hl y (List.mem_cons_of_mem x hy)]
    cases hx : x.wholeCall? <;> simp [hx]

/-- A step makes the first of the calls that are left, and perhaps none of the others. -/
theorem leads_step (hc : Course st actions (j :: js)) (hy : j.Yields st s s' new spawned) :
    j.wholeCall?.toList ++ (new ++ js).flatMap (Job.leads st) <+:
      (j :: js).flatMap (Job.leads st) := by
  rw [List.flatMap_append, List.flatMap_cons]
  rcases course_cases hc with ⟨rfl, ⟨calls, -, rfl⟩ | ⟨pass, rfl⟩⟩ | ⟨-, inner, -, hinner, -⟩ | hj
  · rw [List.flatMap_nil, List.append_nil, List.append_nil]
    cases calls with
    | nil =>
      obtain ⟨-, hy⟩ := hy
      split_ifs at hy
      · rw [hy.1]
        simp [Job.leads, Job.wholeCall?, Invocation.whole]
      · rw [hy.1]
        exact List.nil_prefix
    | cons c cs =>
      obtain ⟨-, hy⟩ := hy
      have hleads : (Job.opening (c :: cs) (.whole st actions)).leads st =
          (Job.opening (c :: cs) (.whole st actions)).wholeCall?.toList ++
            (Job.opening cs (.whole st actions)).leads st := by
        cases hcall : c.phaseCall? <;> simp [Job.leads, Job.wholeCall?, Invocation.whole, hcall]
      rw [hleads]
      split at hy
      · rw [hy.1]
        simp
      · rw [hy.1, List.flatMap_nil, List.append_nil]
        exact List.prefix_append _ _
  · rw [List.flatMap_nil, List.append_nil, List.append_nil]
    obtain ⟨rfl, -⟩ := hy
    split_ifs
    · simp [Job.leads, Job.wholeCall?, Invocation.whole]
    · rw [flatMap_leads_of_closes closes_of_mem]
      exact List.prefix_rfl
  · have hj := hinner j List.mem_cons_self
    rw [wholeCall?_of_inner hj, leads_of_inner hj, flatMap_leads_of_inner (inner_new hj hy)]
    exact List.prefix_rfl
  · have hclose := closes_of_mem j (hj.subset List.mem_cons_self)
    rw [closing_new hclose hy, leads_of_closes hclose]
    exact List.prefix_rfl

/-- Where another call of the run as a whole is made no nested test goes on. -/
theorem not_nests_of_wholeCall? (hc : Course st actions (j :: js)) {call : PhaseCall}
    (hj : j.wholeCall? = some call) : ∀ x ∈ j :: js, x.nests = false := by
  rcases course_cases hc with ⟨rfl, ⟨calls, -, rfl⟩ | ⟨pass, rfl⟩⟩ | ⟨-, inner, -, hinner, -⟩ | hsuf
  · simp [Job.nests]
  · cases hj
  · rw [wholeCall?_of_inner (hinner j List.mem_cons_self)] at hj
    cases hj
  · intro x hx
    have hclose := closes_of_mem x (hsuf.subset hx)
    cases x with
    | passes => cases hclose
    | _ => rfl

/-- What belongs to no phase of the run as a whole makes no calls but those of a change of the scope. -/
theorem phaseCall?_of_inner (hj : j.Inner st) {call : PhaseCall} (hcall : j.phaseCall? = some call) :
    j.isLeave = true ∧ call = .teardown ∨ j.isEnter = true ∧ call = .setup := by
  cases j with
  | opening calls inv =>
    cases calls with
    | nil => cases hcall
    | cons c cs =>
      have hmem : c ∈ openingCalls st false := hj.1.subset List.mem_cons_self
      have hcalls : openingCalls st false =
          if st.env.provider.isDynamic then [.initCli] else [.provide, .initCli] := rfl
      have hc : c.phaseCall? = some call := hcall
      rw [hcalls] at hmem
      split_ifs at hmem
      · obtain rfl := List.mem_singleton.1 hmem
        cases hc
      · simp only [List.mem_cons, List.not_mem_nil, or_false] at hmem
        rcases hmem with rfl | rfl <;> cases hc
  | leaveScope => exact .inl ⟨rfl, (Option.some.inj hcall).symm⟩
  | enterScope => exact .inr ⟨rfl, (Option.some.inj hcall).symm⟩
  | teardown | saveLogs | removeServers => cases hj
  | _ => cases hcall

theorem wholeCall?_of_closes (hj : j.closes = true) : j.wholeCall? = j.phaseCall? := by
  cases j with
  | opening => cases hj
  | leaveScope | enterScope => cases hj
  | _ => rfl

/-- A call that does not belong to a change of the scope is made for the run as a whole. -/
theorem phaseCall?_cases (hc : Course st actions (j :: js)) {call : PhaseCall}
    (hcall : j.phaseCall? = some call) : j.wholeCall? = some call ∨
      j.isLeave = true ∧ call = .teardown ∨ j.isEnter = true ∧ call = .setup := by
  rcases course_cases hc with ⟨rfl, ⟨calls, -, rfl⟩ | ⟨pass, rfl⟩⟩ | ⟨-, inner, -, hinner, -⟩ | hsuf
  · cases calls with
    | nil => cases hcall
    | cons c cs => exact .inl hcall
  · cases hcall
  · exact .inr (phaseCall?_of_inner (hinner j List.mem_cons_self) hcall)
  · exact .inl ((wholeCall?_of_closes (closes_of_mem j (hsuf.subset List.mem_cons_self))).trans hcall)

theorem passes_mem {l : List Job} {x : Job} : x ∈ new ++ (l ++ [x]) :=
  List.mem_append_right _ (List.mem_append_right _ List.mem_cons_self)

/-- The run as a whole is opened by going on with its opening. -/
theorem opening_of_new {calls : List OpeningCall} (hc : Course st actions (j :: js))
    (hy : j.Yields st s s' new spawned) (hnew : new ++ js = [.opening calls (.whole st actions)]) :
    ∃ calls', j = .opening calls' (.whole st actions) ∧ js = [] := by
  rcases course_cases hc with ⟨rfl, ⟨calls', -, rfl⟩ | ⟨pass, rfl⟩⟩ | ⟨pass, inner, -, -, rfl⟩ | hsuf
  · exact ⟨calls', rfl, rfl⟩
  · rw [hy.1, List.append_nil] at hnew
    split_ifs at hnew
    · cases hnew
    · cases closes_of_mem _ (hnew ▸ List.mem_cons_self)
  · have hmem := hnew ▸ passes_mem
    cases List.mem_singleton.1 hmem
  · rw [closing_new (closes_of_mem _ (hsuf.subset List.mem_cons_self)) hy, List.nil_append] at hnew
    cases closes_of_mem _ (hsuf.subset (List.mem_cons_of_mem j (hnew ▸ List.mem_cons_self)))

/-- The run comes to be closed by the end of its last pass. -/
theorem closes_of_new (hc : Course st actions (j :: js)) (hy : j.Yields st s s' new spawned)
    (hne : new ++ js ≠ []) (hclose : ∀ x ∈ new ++ js, x.closes = true) :
    (∃ pass : Nat, j = .passes (.whole st actions) (lastPass st) pass ∧
      ¬(lastPass st < 0 ∨ (pass : Int) ≤ lastPass st)) ∨ ∀ x ∈ j :: js, x.closes = true := by
  rcases course_cases hc with ⟨rfl, ⟨calls, -, rfl⟩ | ⟨pass, rfl⟩⟩ | ⟨pass, inner, -, -, rfl⟩ | hsuf
  · rw [List.append_nil] at hne hclose
    cases calls with
    | nil =>
      obtain ⟨-, hy⟩ := hy
      split_ifs at hy
      · rw [hy.1] at hclose
        cases hclose _ List.mem_cons_self
      · exact absurd hy.1 hne
    | cons c cs =>
      obtain ⟨-, hy⟩ := hy
      split at hy
      · rw [hy.1] at hclose
        cases hclose _ List.mem_cons_self
      · exact absurd hy.1 hne
  · refine .inl ⟨pass, rfl, fun hlimit => ?_⟩
    rw [hy.1, if_pos hlimit] at hclose
    cases hclose _ List.mem_cons_self
  · cases hclose _ passes_mem
  · exact .inr fun x hx => closes_of_mem x (hsuf.subset hx)

end Whole

/-! ## Runs -/

/-- Whether the last pass of the run as a whole is over. -/
def Moment.EndsPasses (st : Settings σ) (actions : List Action) (m : Moment σ) : Prop :=
  m.thread = 0 ∧ ∃ pass : Nat, m.job = .passes (.whole st actions) (lastPass st) pass ∧
    ¬(lastPass st < 0 ∨ (pass : Int) ≤ lastPass st)

/-- A call that is made at a moment is one of the run as a whole, made while no nested test goes on, or
belongs to a change of the scope. -/
def Moment.OwnCall (m : Moment σ) : Prop :=
  ∀ call, m.job.phaseCall? = some call →
    m.thread = 0 ∧ m.job.wholeCall? = some call ∧ (∀ x ∈ m.before.main, x.nests = false) ∨
      m.job.isLeave = true ∧ call = .teardown ∨ m.job.isEnter = true ∧ call = .setup

/-- The calls of a run so far. -/
structure Phased (st : Settings σ) (actions : List Action) (c : List (Moment σ)) (s : State σ) : Prop
    extends OnCourse st actions s where
  noted : s.phaseCalls = c.filterMap (Moment.phaseCall? st)
  planned : (c.filterMap fun m => m.job.wholeCall?) ++ s.main.flatMap (Job.leads st) <+:
    plannedCalls st
  own : ∀ m ∈ c, m.OwnCall
  opens : ∀ calls, s.main = [.opening calls (.whole st actions)] →
    s.threads.length = 1 ∧ ∀ m ∈ c, ∃ calls, m.job = .opening calls (.whole st actions)
  ended : ∀ c₁ e c₂, c = c₁ ++ e :: c₂ → e.EndsPasses st actions →
    (∀ x ∈ c₂, x.thread = 0 → x.job.closes = true) ∧ ∀ x ∈ s.main, x.closes = true
  closing : s.main ≠ [] → (∀ x ∈ s.main, x.closes = true) → ∃ e ∈ c, e.EndsPasses st actions

section Steps

variable {st : Settings σ} {actions : List Action} {c : List (Moment σ)} {s s' : State σ}
  {i : ThreadId} {j : Job}

theorem inner_of_other (hc : OnCourse st actions s) (h : Stepped st i j s s') (hi : i ≠ 0) :
    j.Inner st := by
  obtain ⟨t, js, -, -, -, ht, hj, -⟩ := h.moves
  exact hc.others i t hi ht j (hj ▸ List.mem_cons_self)

theorem planned_step (h : Stepped st i j s s') (hp : Phased st actions c s) :
    ((c ++ [(⟨s, i, j⟩ : Moment σ)]).filterMap fun m => m.job.wholeCall?) ++
      s'.main.flatMap (Job.leads st) <+: plannedCalls st := by
  have hold := hp.planned
  have happend : ((c ++ [(⟨s, i, j⟩ : Moment σ)]).filterMap fun m => m.job.wholeCall?) =
      (c.filterMap fun m => m.job.wholeCall?) ++ j.wholeCall?.toList := by
    rw [List.filterMap_append]
    cases hj : j.wholeCall? <;> simp [hj]
  rw [happend, List.append_assoc]
  rcases main_step h with ⟨-, js, new, spawned, hmain, hy, -, ⟨hmain', -⟩ | ⟨hmain', -⟩⟩ |
    ⟨hi, -, hmain', -⟩
  · rw [hmain] at hold
    rw [hmain']
    exact (List.prefix_append_right_inj _).2 (leads_step (hmain ▸ hp.course) hy) |>.trans hold
  · rw [hmain] at hold
    rw [hmain', List.flatMap_nil, List.append_nil]
    refine .trans ((List.prefix_append_right_inj _).2 ?_) hold
    exact (List.prefix_append _ _).trans (leads_step (hmain ▸ hp.course) hy)
  · rw [wholeCall?_of_inner (inner_of_other hp.toOnCourse h hi), hmain']
    exact hold

theorem own_step (h : Stepped st i j s s') (hc : OnCourse st actions s) :
    (⟨s, i, j⟩ : Moment σ).OwnCall := by
  intro call hcall
  rcases main_step h with ⟨rfl, js, -, -, hmain, -⟩ | ⟨hi, -⟩
  · have hcourse := hmain ▸ hc.course
    rcases phaseCall?_cases hcourse hcall with hw | hshift
    · refine .inl ⟨rfl, hw, ?_⟩
      show ∀ x ∈ s.main, x.nests = false
      rw [hmain]
      exact not_nests_of_wholeCall? hcourse hw
    · exact .inr hshift
  · exact .inr (phaseCall?_of_inner (inner_of_other hc h hi) hcall)

theorem isDynamic_of_course (h : Stepped st i j s s') (hc : OnCourse st actions s)
    (hj : j = .saveLogs ∨ j = .removeServers) : st.env.provider.isDynamic = true := by
  rcases main_step h with ⟨rfl, js, -, -, hmain, -⟩ | ⟨hi, -⟩
  · rcases course_cases (hmain ▸ hc.course) with ⟨rfl, ⟨calls, -, rfl⟩ | ⟨pass, rfl⟩⟩ |
      ⟨-, inner, -, hinner, -⟩ | hsuf
    · rcases hj with hj | hj <;> cases hj
    · rcases hj with hj | hj <;> cases hj
    · have hin := hinner j List.mem_cons_self
      rcases hj with rfl | rfl <;> cases hin
    · have hmem := hsuf.subset List.mem_cons_self
      unfold State.closingJobs at hmem
      by_contra hd
      rw [if_neg hd] at hmem
      split_ifs at hmem <;> rcases hj with rfl | rfl <;> simp at hmem
  · have hin := inner_of_other hc h hi
    rcases hj with rfl | rfl <;> cases hin

/-- While the run as a whole is being opened there is no other thread, and nothing else was done. -/
theorem opens_step (h : Stepped st i j s s') (hp : Phased st actions c s) {calls : List OpeningCall}
    (hmain' : s'.main = [.opening calls (.whole st actions)]) :
    s'.threads.length = 1 ∧
      ∀ m ∈ c ++ [(⟨s, i, j⟩ : Moment σ)], ∃ calls, m.job = .opening calls (.whole st actions) := by
  rcases main_step h with ⟨-, js, new, spawned, hmain, hy, hlen, ⟨hmain'', -⟩ | ⟨hmain'', -⟩⟩ |
    ⟨hi, hlt, hsame, -⟩
  · rw [hmain''] at hmain'
    obtain ⟨calls', rfl, rfl⟩ := opening_of_new (hmain ▸ hp.course) hy hmain'
    obtain ⟨hone, hold⟩ := hp.opens calls' hmain
    have hspawned : spawned = [] := by
      cases calls' with
      | nil =>
        obtain ⟨-, hy⟩ := hy
        split_ifs at hy
        · rw [hy.1] at hmain'
          cases hmain'
        · exact hy.2
      | cons c cs => exact hy.1
    rw [hlen, hone, hspawned]
    refine ⟨rfl, fun m hm => ?_⟩
    rcases List.mem_append.1 hm with hm | hm
    · exact hold m hm
    · obtain rfl := List.mem_singleton.1 hm
      exact ⟨calls', rfl⟩
  · rw [hmain''] at hmain'
    cases hmain'
  · rw [(hp.opens calls (hsame ▸ hmain')).1] at hlt
    exact absurd (Nat.lt_one_iff.1 hlt) hi

/-- After the last pass the first thread does nothing but close the run. -/
theorem ended_step (h : Stepped st i j s s') (hp : Phased st actions c s) {c₁ c₂ : List (Moment σ)}
    {e : Moment σ} (hsplit : c ++ [⟨s, i, j⟩] = c₁ ++ e :: c₂) (he : e.EndsPasses st actions) :
    (∀ x ∈ c₂, x.thread = 0 → x.job.closes = true) ∧ ∀ x ∈ s'.main, x.closes = true := by
  rcases concat_eq_append_cons hsplit with ⟨-, rfl, rfl⟩ | ⟨c₃, rfl, hold⟩
  · refine ⟨fun x hx => (nomatch hx), ?_⟩
    obtain ⟨h0, pass, hj, hlast⟩ := he
    obtain rfl : j = _ := hj
    rcases main_step h with ⟨-, js, new, spawned, hmain, hy, -, ⟨hmain', -⟩ | ⟨hmain', -⟩⟩ | ⟨hi, -⟩
    · have hcourse := hp.course
      rw [hmain] at hcourse
      obtain rfl : js = [] := by
        rcases course_cases hcourse with ⟨hnil, -⟩ | ⟨-, inner, -, hinner, -⟩ | hsuf
        · exact hnil
        · cases (hinner _ List.mem_cons_self).1
        · cases closes_of_mem _ (hsuf.subset List.mem_cons_self)
      rw [hmain', hy.1, if_neg hlast, List.append_nil]
      exact closes_of_mem
    · rw [hmain']
      exact fun x hx => nomatch hx
    · exact absurd h0 hi
  · obtain ⟨hc₃, hmain⟩ := hp.ended c₁ e c₃ hold he
    rcases main_step h with ⟨rfl, js, new, spawned, heq, hy, -, hmain'⟩ | ⟨hi, -, hmain', -⟩
    · rw [heq] at hmain
      have hclose := hmain j List.mem_cons_self
      refine ⟨fun x hx hx0 => ?_, fun x hx => ?_⟩
      · rcases List.mem_append.1 hx with hx | hx
        · exact hc₃ x hx hx0
        · obtain rfl := List.mem_singleton.1 hx
          exact hclose
      · rw [closing_new hclose hy, List.nil_append] at hmain'
        rcases hmain' with ⟨hmain', -⟩ | ⟨hmain', -⟩ <;> rw [hmain'] at hx
        · exact hmain x (List.mem_cons_of_mem j hx)
        · cases hx
    · rw [hmain']
      refine ⟨fun x hx hx0 => ?_, hmain⟩
      rcases List.mem_append.1 hx with hx | hx
      · exact hc₃ x hx hx0
      · obtain rfl := List.mem_singleton.1 hx
        exact absurd hx0 hi

/-- The run is closed only after its last pass. -/
theorem closing_step (h : Stepped st i j s s') (hp : Phased st actions c s) (hne : s'.main ≠ [])
    (hclose : ∀ x ∈ s'.main, x.closes = true) :
    ∃ e ∈ c ++ [(⟨s, i, j⟩ : Moment σ)], e.EndsPasses st actions := by
  have hold : s.main ≠ [] → (∀ x ∈ s.main, x.closes = true) →
      ∃ e ∈ c ++ [(⟨s, i, j⟩ : Moment σ)], e.EndsPasses st actions := fun hne hcl =>
    (hp.closing hne hcl).imp fun _ he => ⟨List.mem_append_left _ he.1, he.2⟩
  rcases main_step h with ⟨rfl, js, new, spawned, hmain, hy, -, ⟨hmain', -⟩ | ⟨hmain', -⟩⟩ |
    ⟨-, -, hmain', -⟩
  · rw [hmain'] at hne hclose
    rcases closes_of_new (hmain ▸ hp.course) hy hne hclose with ⟨pass, rfl, hlast⟩ | hcl
    · exact ⟨_, List.mem_append_right _ List.mem_cons_self, rfl, pass, rfl, hlast⟩
    · exact hold (by rw [hmain]; nofun) (hmain ▸ hcl)
  · exact absurd hmain' hne
  · exact hold (hmain' ▸ hne) (hmain' ▸ hclose)

theorem phased_step (h : Stepped st i j s s') (hp : Phased st actions c s) :
    Phased st actions (c ++ [⟨s, i, j⟩]) s' where
  toOnCourse := onCourse_step h hp.toOnCourse
  noted := by
    rw [phaseCalls_stepped h (isDynamic_of_course h hp.toOnCourse), hp.noted, List.filterMap_append]
    cases hm : (⟨s, i, j⟩ : Moment σ).phaseCall? st <;> simp [hm]
  planned := planned_step h hp
  own m hm := by
    rcases List.mem_append.1 hm with hm | hm
    · exact hp.own m hm
    · obtain rfl := List.mem_singleton.1 hm
      exact own_step h hp.toOnCourse
  opens _ := opens_step h hp
  ended _ _ _ := ended_step h hp
  closing := closing_step h hp

theorem phased_of_chronicle {sc : Scope σ} {report : Report} (ht : sc.trace = [])
    (hb : sc.broken = false) (hc : Chronicle st (start st sc actions report) c s) :
    Phased st actions c s := by
  have hmain : (start st sc actions report).main =
      [.opening (openingCalls st (!st.config.skipSetup)) (.whole st actions)] := rfl
  refine hc.invariant hb ?_ (fun _ _ _ _ _ hp h _ => phased_step h hp) fun _ _ _ hp _ _ =>
    ⟨⟨hp.main, hp.others⟩, hp.noted, hp.planned, hp.own, hp.opens, hp.ended, hp.closing⟩
  refine ⟨onCourse_start sc report, ?_, ?_, fun m hm => (nomatch hm), ?_, ?_, ?_⟩
  · unfold State.phaseCalls State.noted
    rw [show (start st sc actions report).scope.trace = [] from ht]
    rfl
  · rw [hmain]
    simp [Job.leads, Invocation.whole, plannedCalls]
  · exact fun _ _ => ⟨rfl, fun m hm => nomatch hm⟩
  · intro c₁ e c₂ hsplit
    simp at hsplit
  · intro _ hcl
    rw [hmain] at hcl
    cases hcl _ List.mem_cons_self

end Steps

/-! ## Accounts of the calls -/

/-- The run as a whole comes to one of its calls. -/
def Moment.attempts (call : PhaseCall) (m : Moment σ) : Bool := m.job.wholeCall? == some call

/-- The run as a whole makes one of its calls. -/
def Moment.completes (st : Settings σ) (call : PhaseCall) (m : Moment σ) : Bool :=
  m.attempts call && !m.breaks st

/-- The calls of a run, and where they come from. -/
structure Isolated (st : Settings σ) (actions : List Action) (c : List (Moment σ)) (s : State σ) :
    Prop where
  /-- The run as a whole comes to each of its calls at most once. -/
  once : ∀ call, c.countP (Moment.attempts call) ≤ 1
  /-- The cluster was set up by the run as a whole, and by the changes of the scope that got that far. -/
  setups : s.phaseCalls.count .setup =
    c.countP (Moment.completes st .setup) + c.countP fun m => m.job.isEnter && !m.breaks st
  /-- A change of the scope that has loaded its topology gets that far, unless its thread breaks off. -/
  entered : c.countP (Moment.loads st) =
    (c.countP fun m => m.job.isEnter) + s.pending Job.isEnter + c.countP (Moment.strands st)
  /-- The cluster was taken down by the run as a whole, and by the changes of the scope that have loaded
  their topology; such a change has just that to do next. -/
  teardowns : s.phaseCalls.count .teardown +
      (c.countP fun m => m.job.phaseCall? == some .teardown && m.breaks st) + s.pending Job.isLeave =
    c.countP (Moment.attempts .teardown) + c.countP (Moment.loads st)
  shifts : s.Stacks Shifts
  single : ∀ call, call ≠ .setup → call ≠ .teardown → s.phaseCalls.count call ≤ 1
  /-- Nothing was resolved when all the containers are removed. -/
  purge : ∀ c₁ m c₂, c = c₁ ++ m :: c₂ → m.job.phaseCall? = some .purge →
    ∀ x ∈ c₁, ∀ pass last rest, x.job ≠ .walk pass last rest
  /-- The last pass was over when logs are saved and nodes are removed, and no other came after it. -/
  closing : ∀ c₁ m c₂, c = c₁ ++ m :: c₂ →
    m.job.phaseCall? = some .saveLogs ∨ m.job.phaseCall? = some .removeServers →
    ∃ c₀ e c₃, c₁ = c₀ ++ e :: c₃ ∧ e.EndsPasses st actions ∧
      ∀ x ∈ c₃ ++ m :: c₂, x.thread = 0 → x.job.closes = true
  /-- A nested test makes none of the calls. -/
  own : ∀ m ∈ c, m.OwnCall

section Accounts

variable {st : Settings σ} {actions : List Action} {c : List (Moment σ)} {s : State σ}

theorem countP_add {α : Type} {p q r : α → Bool} {l : List α}
    (h : ∀ x ∈ l, (p x).toNat = (q x).toNat + (r x).toNat) : l.countP p = l.countP q + l.countP r := by
  induction l with
  | nil => rfl
  | cons x l ih =>
    have hx := h x List.mem_cons_self
    have hl := ih fun y hy => h y (List.mem_cons_of_mem x hy)
    have hcons : ∀ p : α → Bool, (x :: l).countP p = l.countP p + (p x).toNat := fun p => by
      rw [List.countP_cons]
      cases p x <;> rfl
    rw [hcons, hcons, hcons]
    omega

theorem count_phaseCalls (hp : Phased st actions c s) (call : PhaseCall) :
    s.phaseCalls.count call =
      c.countP fun m => m.job.phaseCall? == some call && !m.breaks st := by
  rw [hp.noted, List.count_filterMap]
  congr 1
  funext m
  unfold Moment.phaseCall?
  cases m.breaks st <;> simp

theorem attempts_le_one (hp : Phased st actions c s) (call : PhaseCall) :
    c.countP (Moment.attempts call) ≤ 1 := by
  have hnodup : (c.filterMap fun m => m.job.wholeCall?).Nodup :=
    (((List.prefix_append _ _).trans hp.planned).sublist).nodup (plannedCalls_nodup st)
  have := List.nodup_iff_count_le_one.1 hnodup call
  rwa [List.count_filterMap] at this

theorem phaseCall?_of_wholeCall? {j : Job} {call : PhaseCall} (hj : j.wholeCall? = some call) :
    j.phaseCall? = some call := by
  cases j with
  | opening calls inv =>
    cases calls with
    | nil => cases hj
    | cons c cs =>
      have hj' : (if inv.nested then none else c.phaseCall?) = some call := hj
      split_ifs at hj'
      exact hj'
  | teardown | saveLogs | removeServers => exact hj
  | _ => cases hj

theorem calls_of_isLeave {j : Job} (hj : j.isLeave = true) :
    j.phaseCall? = some .teardown ∧ j.wholeCall? = none := by
  cases j <;> first | exact ⟨rfl, rfl⟩ | cases hj

theorem calls_of_isEnter {j : Job} (hj : j.isEnter = true) :
    j.phaseCall? = some .setup ∧ j.wholeCall? = none := by
  cases j <;> first | exact ⟨rfl, rfl⟩ | cases hj

/-- The calls of a hook, in some of the moments, are those of the run as a whole and those of the changes
of the scope. -/
theorem countP_hook {call : PhaseCall} {p : Job → Bool} (q : Moment σ → Bool)
    (hpos : ∀ j, p j = true → j.phaseCall? = some call ∧ j.wholeCall? = none)
    (hown : ∀ m ∈ c, m.job.phaseCall? = some call → m.job.wholeCall? = some call ∨ p m.job = true) :
    (c.countP fun m => m.job.phaseCall? == some call && q m) =
      (c.countP fun m => m.attempts call && q m) + c.countP fun m => p m.job && q m := by
  refine countP_add fun m hm => ?_
  unfold Moment.attempts
  cases hq : q m with
  | false => simp
  | true =>
    by_cases hshift : p m.job = true
    · obtain ⟨hcall, hwhole⟩ := hpos m.job hshift
      rw [hcall, hwhole, hshift]
      simp
    · rw [Bool.not_eq_true] at hshift
      rw [hshift]
      by_cases hcall : m.job.phaseCall? = some call
      · have hwhole := (hown m hm hcall).resolve_right (by rw [hshift]; exact Bool.false_ne_true)
        rw [hcall, hwhole]
        simp
      · have hwhole : m.job.wholeCall? ≠ some call := fun h => hcall (phaseCall?_of_wholeCall? h)
        rw [beq_eq_false_iff_ne.2 hcall, beq_eq_false_iff_ne.2 hwhole]
        rfl

theorem countP_setup (hp : Phased st actions c s) (q : Moment σ → Bool) :
    (c.countP fun m => m.job.phaseCall? == some .setup && q m) =
      (c.countP fun m => m.attempts .setup && q m) + c.countP fun m => m.job.isEnter && q m := by
  refine countP_hook q (fun _ => calls_of_isEnter) fun m hm hcall => ?_
  rcases hp.own m hm _ hcall with ⟨-, hw, -⟩ | ⟨-, h⟩ | ⟨h, -⟩
  · exact .inl hw
  · cases h
  · exact .inr h

theorem countP_teardown (hp : Phased st actions c s) (q : Moment σ → Bool) :
    (c.countP fun m => m.job.phaseCall? == some .teardown && q m) =
      (c.countP fun m => m.attempts .teardown && q m) + c.countP fun m => m.job.isLeave && q m := by
  refine countP_hook q (fun _ => calls_of_isLeave) fun m hm hcall => ?_
  rcases hp.own m hm _ hcall with ⟨-, hw, -⟩ | ⟨h, -⟩ | ⟨-, h⟩
  · exact .inl hw
  · exact .inr h
  · cases h

/-- What a run takes down, it comes to take down as a whole or in a change of the scope. -/
theorem count_teardown (hp : Phased st actions c s) :
    s.phaseCalls.count .teardown +
        (c.countP fun m => m.job.phaseCall? == some .teardown && m.breaks st) =
      c.countP (Moment.attempts .teardown) + c.countP fun m => m.job.isLeave := by
  have hall := countP_teardown hp fun _ => true
  simp only [Bool.and_true] at hall
  rw [count_phaseCalls hp, ← hall]
  symm
  refine countP_add fun m _ => ?_
  cases m.job.phaseCall? == some .teardown <;> cases m.breaks st <;> rfl

theorem count_le_one (hp : Phased st actions c s) {call : PhaseCall} (hs : call ≠ .setup)
    (ht : call ≠ .teardown) : s.phaseCalls.count call ≤ 1 := by
  rw [count_phaseCalls hp]
  refine Nat.le_trans (List.countP_mono_left fun m hm hcall => ?_) (attempts_le_one hp call)
  rw [Bool.and_eq_true, beq_iff_eq] at hcall
  rcases hp.own m hm call hcall.1 with ⟨-, hw, -⟩ | ⟨-, h⟩ | ⟨-, h⟩
  · exact beq_iff_eq.2 hw
  · exact absurd h ht
  · exact absurd h hs

theorem closes_of_purge {j : Job} (hj : j.phaseCall? = some .purge) : j.closes = false := by
  cases j with
  | opening => rfl
  | _ => cases hj

theorem closes_of_phaseCall? {j : Job}
    (hj : j.phaseCall? = some .saveLogs ∨ j.phaseCall? = some .removeServers) : j.closes = true := by
  cases j with
  | saveLogs | removeServers => rfl
  | opening calls inv =>
    cases calls with
    | nil => rcases hj with hj | hj <;> cases hj
    | cons c cs => cases c <;> rcases hj with hj | hj <;> cases hj
  | _ => rcases hj with hj | hj <;> cases hj

variable {sc : Scope σ} {report : Report} {c₁ c₂ : List (Moment σ)} {m : Moment σ}

/-- When all the containers are removed nothing was done but to open the run. -/
theorem opens_of_purge (ht : sc.trace = []) (hb : sc.broken = false)
    (hc : Chronicle st (start st sc actions report) (c₁ ++ m :: c₂) s)
    (hm : m.job.phaseCall? = some .purge) :
    ∀ x ∈ c₁, ∃ calls, x.job = .opening calls (.whole st actions) := by
  have hp := phased_of_chronicle ht hb hc
  obtain ⟨hbefore, hnext⟩ := hc.before
  have hp₁ := phased_of_chronicle ht hb hbefore
  rcases hp.own m (List.mem_append_right _ List.mem_cons_self) _ hm with ⟨h0, hw, -⟩ | ⟨-, h⟩ | ⟨-, h⟩
  · rw [h0] at hnext
    obtain ⟨js, hmain⟩ := main_of_next? hnext
    have hcourse := hp₁.course
    rw [hmain] at hcourse
    rcases course_cases hcourse with ⟨rfl, ⟨calls, -, hj⟩ | ⟨pass, hj⟩⟩ | ⟨-, inner, -, hinner, -⟩ | hsuf
    · exact (hp₁.opens calls (hmain.trans (by rw [hj]))).2
    · rw [hj] at hw
      cases hw
    · rw [wholeCall?_of_inner (hinner _ List.mem_cons_self)] at hw
      cases hw
    · have hclose := closes_of_mem _ (hsuf.subset List.mem_cons_self)
      rw [closes_of_purge hm] at hclose
      cases hclose
  · cases h
  · cases h

/-- When logs are saved and nodes are removed the last pass was over. -/
theorem ended_of_closing (ht : sc.trace = []) (hb : sc.broken = false)
    (hc : Chronicle st (start st sc actions report) (c₁ ++ m :: c₂) s)
    (hm : m.job.phaseCall? = some .saveLogs ∨ m.job.phaseCall? = some .removeServers) :
    ∃ c₀ e c₃, c₁ = c₀ ++ e :: c₃ ∧ e.EndsPasses st actions ∧
      ∀ x ∈ c₃ ++ m :: c₂, x.thread = 0 → x.job.closes = true := by
  have hp := phased_of_chronicle ht hb hc
  obtain ⟨hbefore, hnext⟩ := hc.before
  have hp₁ := phased_of_chronicle ht hb hbefore
  have hclose := closes_of_phaseCall? hm
  have h0 : m.thread = 0 := by
    obtain ⟨call, hcall, hne⟩ : ∃ call, m.job.phaseCall? = some call ∧
        call ≠ .teardown ∧ call ≠ .setup := by
      rcases hm with h | h <;> exact ⟨_, h, nofun, nofun⟩
    rcases hp.own m (List.mem_append_right _ List.mem_cons_self) call hcall with h | ⟨-, h⟩ | ⟨-, h⟩
    · exact h.1
    · exact absurd h hne.1
    · exact absurd h hne.2
  rw [h0] at hnext
  obtain ⟨js, hmain⟩ := main_of_next? hnext
  have hcourse := hp₁.course
  rw [hmain] at hcourse
  have hall : ∀ x ∈ m.before.main, x.closes = true := by
    rw [hmain]
    rcases course_cases hcourse with ⟨rfl, ⟨calls, -, hj⟩ | ⟨pass, hj⟩⟩ | ⟨-, inner, -, hinner, -⟩ | hsuf
    · rw [hj] at hclose
      cases hclose
    · rw [hj] at hclose
      cases hclose
    · have hin := hinner _ List.mem_cons_self
      have hnone := wholeCall?_of_inner hin
      rw [wholeCall?_of_closes hclose] at hnone
      rw [hnone] at hm
      rcases hm with h | h <;> cases h
    · exact fun x hx => closes_of_mem x (hsuf.subset hx)
  obtain ⟨e, he, hends⟩ := hp₁.closing (by rw [hmain]; nofun) hall
  obtain ⟨c₀, c₃, rfl⟩ := List.append_of_mem he
  refine ⟨c₀, e, c₃, rfl, hends, (hp.ended c₀ e (c₃ ++ m :: c₂) ?_ hends).1⟩
  rw [List.append_assoc, List.cons_append]

/-- The calls that set a cluster up and take it down are made by the run as a whole, each at most once and
in its phase, and by the changes of the scope; a nested test makes none of them. -/
theorem phases_isolated (ht : sc.trace = []) (hb : sc.broken = false)
    (hc : Chronicle st (start st sc actions report) c s) : Isolated st actions c s := by
  have hp := phased_of_chronicle ht hb hc
  have hchanges := changes_of_chronicle hb hc
  refine ⟨attempts_le_one hp, ?_, hchanges.entered, ?_, hchanges.order,
    fun call hs ht => count_le_one hp hs ht, ?_, ?_, hp.own⟩
  · rw [count_phaseCalls hp]
    exact countP_setup hp _
  · rw [count_teardown hp, hchanges.left_]
    omega
  · rintro c₁ m c₂ rfl hm x hx pass last rest hj
    obtain ⟨calls, hopen⟩ := opens_of_purge ht hb hc hm x hx
    rw [hopen] at hj
    cases hj
  · rintro c₁ m c₂ rfl hm
    exact ended_of_closing ht hb hc hm

end Accounts

/-- A test document that changes the scope, and the topology that it changes to. -/
def relocatingFiles : Files :=
  ⟨[(["test.yml"], .text "- scope: nodes.yml\n"), (["nodes.yml"], .text "nodes:\n  - name: a\n")]⟩

def relocatingScope : Scope (Faulty (World Rehearsal)) :=
  { world := { world := { containers := {}, files := relocatingFiles } } }

/-- Two passes, in each of which the test is run twice. -/
def relocatingConfig : RunConfig := { repeats := 1, timings := ⟨13, 7, 11, 103⟩ }

/-- What a schedule makes of that run in `steps` steps. -/
def relocatingRun (steps : Nat) : State (Faulty (World Rehearsal)) :=
  (start (rehearsed relocatingConfig) relocatingScope [{ test := "test.yml" }] {}).advance
    (rehearsed relocatingConfig) maxSteps (fun _ => false) steps 0

theorem phases_isolated_relocatingRun :
    ∃ c, Isolated (rehearsed relocatingConfig) [{ test := "test.yml" }] c (relocatingRun 100) ∧
      (relocatingRun 100).phaseCalls =
        [.purge, .setup] ++ (List.replicate 4 [.teardown, .setup]).flatten ++
          [.teardown, .removeServers] := by
  have hr : Reaches (rehearsed relocatingConfig)
      (start (rehearsed relocatingConfig) relocatingScope [{ test := "test.yml" }] {})
      (relocatingRun 100) := State.advance_reaches _ _ _ _ _ _
  obtain ⟨c, hc⟩ := chronicle_of_reaches hr rfl
  exact ⟨c, phases_isolated rfl rfl hc, by decide +kernel⟩

end Run

end Workload
