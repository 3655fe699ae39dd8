import Workload.Docker.Runtime
import Workload.Proofs.Polling

/-!
# Restarts

A thread that restarts a container looks at it again and again: it asks for its status, and starts it if it
has exited.  What one look calls and leaves is read off its outcome (`State.repeatLoop_look`).  So after any
looks (`Restarting`) it is known how many restarts are left, and the thread ends with the last of them or with
the first status that it cannot get (`repeatLoop_restarts`).
-/

namespace Workload

/-! ## Runtimes that answer -/

/-- The runtime answers whoever asks for a status or for a start, if only with a fault. -/
structure Runtime.Answers {σ : Type} (r : Runtime σ) : Prop where
  status : ∀ handle w, (r.status handle w).1.broken = false
  start : ∀ handle w, (r.start handle w).1.broken = false

/-- After a call that is answered nothing has been asked for that cannot be done. -/
theorem Scope.call_unbroken {σ ε α : Type} {c : Call σ ε α} {s : Scope σ} (event : Except ε α → Event)
    (hb : s.broken = false) (hc : ∀ w, (c w).1.broken = false) : (s.call c event).2.broken = false := by
  have hask : (s.ask c).2.broken = false := by
    show (s.broken || (c s.world).1.broken) = false
    rw [hb, hc]
    rfl
  unfold call record
  simp only [hask, Bool.false_eq_true, if_false]

theorem Rehearsal.answers : Rehearsal.runtime.Answers := by
  refine ⟨fun handle w => ?_, fun handle w => rfl⟩
  show (Rehearsal.status handle w.containers).1.broken = false
  unfold Rehearsal.status
  simp only []
  split
  · rfl
  · split_ifs <;> rfl

theorem Faulty.scripted_answers {σ ε α : Type} {c : Call σ ε α} (hc : ∀ w, (c w).1.broken = false)
    (script : Faults → List (Option ε)) (advance : Faults → Faults) (w : Faulty σ) :
    (scripted script advance c w).1.broken = false := by
  unfold scripted
  split
  · exact hc w.world
  · exact hc w.world
  · rfl

theorem Faulty.answers {σ : Type} {r : Runtime σ} (h : r.Answers) : (Faulty.runtime r).Answers :=
  ⟨fun handle => scripted_answers (h.status handle) _ _, fun handle => scripted_answers (h.start handle) _ _⟩

theorem Docker.answers {π : Type} (p : Program π) : (runtime p).Answers := ⟨fun _ _ => rfl, fun _ _ => rfl⟩

namespace Run

variable {σ : Type}

/-! ## Looks -/

/-- What comes of a look at a container that is to be restarted. -/
inductive Look where
  /-- It has not exited. -/
  | stands (status : ContainerStatus) (h : status ≠ .exited)
  /-- It has exited and is started, which may fail. -/
  | exited (start : Except RuntimeFault Unit)
  /-- It has no status. -/
  | lost (fault : RuntimeFault)

namespace Look

/-- The calls that a look makes. -/
def calls (handle : String) : Look → List Event
  | stands status _ => [.status handle (.ok status)]
  | exited start => [.status handle (.ok .exited), .start handle start]
  | lost fault => [.status handle (.error fault)]

/-- Whether the container is started. -/
def starts : Look → Bool
  | exited _ => true
  | _ => false

/-- Whether the container is started and that does not fail. -/
def succeeds : Look → Bool
  | exited (.ok _) => true
  | _ => false

/-- What a look leaves for its thread. -/
def next (st : Settings σ) (handle : String) (left : Int) : Look → List Job
  | stands .. => [.sleep st.config.timings.repeatPoll, .repeatLoop handle left]
  | exited _ =>
    if left = 1 then []
    else
      [.sleep st.config.timings.repeatPoll, .repeatLoop handle (if 0 < left then left - 1 else left)]
  | lost _ => []

end Look

/-- What a look makes of a state. -/
structure Looks (st : Settings σ) (i : ThreadId) (handle : String) (left : Int) (look : Look)
    (s s' : State σ) : Prop where
  calls : ∃ new, s'.scope.trace = new ++ s.scope.trace ∧
    (new.map TimedEvent.event).reverse = look.calls handle
  unbroken : s'.scope.broken = false
  threads : s'.threads = s.threads.modify i fun t =>
    { t with jobs := look.next st handle left ++ t.jobs, tally := t.tally + look.succeeds.toNat }

namespace State

variable {st : Settings σ} {i : ThreadId} {s : State σ} {handle : String} {left : Int}

theorem restarted_scope : (s.restarted st i handle left).scope = s.scope := by
  unfold restarted
  split_ifs <;> rfl

/-- What a restart leaves for its thread. -/
theorem restarted_threads (start : Except RuntimeFault Unit) :
    (s.restarted st i handle left).threads = s.threads.modify i fun t =>
      { t with jobs := (Look.exited start).next st handle left ++ t.jobs } := by
  unfold restarted Look.next
  split_ifs
  · exact (List.modify_id i s.threads).symm
  · rfl
  · rfl

/-- A call that is answered is noted, and all else stays. -/
structure Answered (e : Event) (s s' : State σ) : Prop where
  trace : ∃ time, s'.scope.trace = ⟨time, e⟩ :: s.scope.trace
  unbroken : s'.scope.broken = false
  threads : s'.threads = s.threads

theorem answered {ε α : Type} {c : Call σ ε α} {event : Except ε α → Event} {r : Except ε α} {s' : State σ}
    (h : (s.within fun sc => sc.call c event) = (r, s')) (hb : s.scope.broken = false)
    (hc : ∀ w, (c w).1.broken = false) : Answered (event r) s s' := by
  have hbroken := Scope.call_unbroken event hb hc
  obtain ⟨rfl, rfl⟩ := Prod.mk.inj h
  exact ⟨⟨_, Scope.call_trace hbroken⟩, hbroken, rfl⟩

/-- What comes of a container that has exited and is started. -/
theorem restarted_looks {start : Except RuntimeFault Unit} {s₁ s₂ s₃ : State σ}
    (h : Answered (.status handle (.ok .exited)) s s₁) (h' : Answered (.start handle start) s₁ s₂)
    (htrace : s₃.scope.trace = s₂.scope.trace) (hbroken : s₃.scope.broken = s₂.scope.broken)
    (hthreads : s₃.threads = s₂.threads.modify i fun t =>
      { t with tally := t.tally + (Look.exited start).succeeds.toNat }) :
    Looks st i handle left (.exited start) s (s₃.restarted st i handle left) := by
  obtain ⟨⟨time, ht⟩, -, hs₁⟩ := h
  obtain ⟨⟨time', ht'⟩, hb, hs₂⟩ := h'
  refine ⟨⟨[⟨time', .start handle start⟩, ⟨time, .status handle (.ok .exited)⟩], ?_, rfl⟩, ?_, ?_⟩
  · rw [restarted_scope, htrace, ht', ht]
    rfl
  · rw [restarted_scope, hbroken, hb]
  · rw [restarted_threads start, hthreads, hs₂, hs₁, List.modify_modify_eq]
    rfl

/-- A thread that restarts a container looks at it. -/
theorem repeatLoop_look (hans : st.env.runtime.Answers) (hb : s.scope.broken = false) (hleft : left ≠ 0) :
    ∃ look, Looks st i handle left look s (s.repeatLoop st i handle left) := by
  unfold repeatLoop
  rw [if_neg hleft]
  split
  · rename_i s₁ hw
    have hstatus := answered hw hb (hans.status handle)
    refine ⟨.exited (s₁.within (Scope.start st.env handle)).1, ?_⟩
    split
    · rename_i s₂ hw'
      rw [hw']
      exact restarted_looks hstatus (answered hw' hstatus.unbroken (hans.start handle)) rfl rfl rfl
    · rename_i fault s₂ hw'
      have hnote := State.note_broken s₂ (.warn "restart failed")
      rw [hw']
      exact restarted_looks hstatus (answered hw' hstatus.unbroken (hans.start handle))
        (Scope.grows_note _ s₂.scope).trace_eq hnote (List.modify_id i s₂.threads).symm
  · rename_i status s₁ hne hw
    obtain ⟨⟨time, ht⟩, hb₁, hs₁⟩ := answered hw hb (hans.status handle)
    have hstands : status ≠ .exited := by
      rintro rfl
      exact hne rfl
    refine ⟨.stands status hstands, ⟨[_], ht, rfl⟩, hb₁, ?_⟩
    show s₁.threads.modify i _ = _
    rw [hs₁]
    rfl
  · rename_i fault s₁ hw
    obtain ⟨⟨time, ht⟩, hb₁, hs₁⟩ := answered hw hb (hans.status handle)
    have hthreads := hs₁.trans (List.modify_id i s.threads).symm
    refine ⟨.lost fault, ?_⟩
    split_ifs
    · exact ⟨⟨[_], ht, rfl⟩, hb₁, hthreads⟩
    · exact ⟨⟨[_], (Scope.grows_note _ s₁.scope).trace_eq.trans ht, rfl⟩,
        (State.note_broken s₁ _).trans hb₁, hthreads⟩

end State

/-! ## A thread that restarts a container -/

/-- After these looks there is none any more: the container has no status, or has been started as often as it
should be. -/
def Over (r : Int) (looks : List Look) : Prop :=
  (∃ fault, .lost fault ∈ looks) ∨ 0 < r ∧ (looks.countP Look.starts : Int) = r

/-- How many restarts are left after some looks; below zero there is no end to them. -/
def restartsLeft (r : Int) (looks : List Look) : Int :=
  if 0 < r then r - looks.countP Look.starts else r

/-- After some looks, a thread that is to restart a container `r` times. -/
structure Restarting (st : Settings σ) (handle : String) (r : Int) (looks : List Look) (u : Thread) : Prop where
  tally : u.tally = looks.countP Look.succeeds
  going : u.crashed = false
  none : r = 0 → looks = []
  bound : 0 < r → (looks.countP Look.starts : Int) ≤ r
  last : ∀ l₁ l₂, looks = l₁ ++ l₂ → Over r l₁ → l₂ = []
  jobs : u.jobs = [] ∧ (r = 0 ∨ Over r looks) ∨
    ¬Over r looks ∧ Asking st.config.timings.repeatPoll (.repeatLoop handle (restartsLeft r looks)) u.jobs

section

variable {st : Settings σ} {t : ThreadId} {handle : String} {r left : Int} {look : Look} {looks : List Look}
  {u : Thread} {b s s' : State σ} {c : List (Moment σ)}

/-- A thread whose turn it is to look at its container does so once. -/
theorem Stepped.looksAt (h : Stepped st t (.repeatLoop handle left) s s') (hans : st.env.runtime.Answers)
    (hb : s.scope.broken = false) (hleft : left ≠ 0) (hu : s.threads[t]? = some u) :
    ∃ look : Look, (⟨s, t, .repeatLoop handle left⟩ : Moment σ).calls st = look.calls handle ∧
      s'.threads[t]? = some { u with
        jobs := look.next st handle left ++ u.jobs.tail
        tally := u.tally + look.succeeds.toNat } := by
  have hlook : ∃ look, Looks st t handle left look (s.pop t) ((s.pop t).repeatLoop st t handle left) :=
    State.repeatLoop_look hans hb hleft
  obtain ⟨look, ⟨new, hnew, hcalls⟩, hunbroken, hthreads⟩ := hlook
  have hresult : s' = (s.pop t).repeatLoop st t handle left :=
    h.result.trans (State.endBroken_of_unbroken hunbroken t)
  refine ⟨look, ?_, ?_⟩
  · rw [h.calls_eq (hresult ▸ hnew), hcalls]
  · rw [hresult, hthreads, List.getElem?_modify_eq, State.pop_getElem? hu]
    rfl

/-- A thread that has no restarts to make does nothing. -/
theorem Stepped.looksNot (h : Stepped st t (.repeatLoop handle 0) s s') (hb : s.scope.broken = false) :
    s' = s.pop t := by
  have hperform : (s.pop t).repeatLoop st t handle 0 = s.pop t := if_pos rfl
  have hresult : s' = ((s.pop t).repeatLoop st t handle 0).endBroken t := h.result
  rw [hresult, hperform]
  exact State.endBroken_of_unbroken (s := s.pop t) hb t

theorem starts_concat :
    ((looks ++ [look]).countP Look.starts : Int) = looks.countP Look.starts + look.starts.toNat := by
  rw [List.countP_append, List.countP_singleton]
  cases look.starts <;> rfl

theorem Over.concat_iff (hover : ¬Over r looks) :
    Over r (looks ++ [look]) ↔
      (∃ fault, look = .lost fault) ∨ 0 < r ∧ (looks.countP Look.starts : Int) + look.starts.toNat = r := by
  unfold Over at hover ⊢
  rw [not_or, not_exists] at hover
  rw [starts_concat]
  refine or_congr_left (exists_congr fun fault => ?_)
  rw [List.mem_append, List.mem_singleton, or_iff_right (hover.1 fault), eq_comm]

/-- One more look. -/
theorem Restarting.concat (h : Restarting st handle r looks u) (hover : ¬Over r looks) (hr : r ≠ 0) :
    Restarting st handle r (looks ++ [look])
      { u with
        jobs := look.next st handle (restartsLeft r looks)
        tally := u.tally + look.succeeds.toNat } := by
  have hcount : 0 < r → (looks.countP Look.starts : Int) < r := by
    intro hpos
    have hle := h.bound hpos
    have hne : (looks.countP Look.starts : Int) ≠ r := fun heq => hover (.inr ⟨hpos, heq⟩)
    omega
  refine ⟨?_, h.going, fun h => absurd h hr, fun hpos => ?_, fun l₁ l₂ heq hl => ?_, ?_⟩
  · show u.tally + _ = _
    rw [h.tally, List.countP_append, List.countP_singleton]
    cases look.succeeds <;> rfl
  · have := hcount hpos
    rw [starts_concat]
    cases look.starts <;> simp <;> omega
  · rcases List.eq_nil_or_concat l₂ with rfl | ⟨l₃, x, rfl⟩
    · rfl
    · rw [List.concat_eq_append, ← List.append_assoc] at heq
      obtain ⟨rfl, -⟩ := List.append_inj' heq rfl
      obtain rfl := h.last l₁ l₃ rfl hl
      rw [List.append_nil] at hover
      exact absurd hl hover
  · rw [Over.concat_iff hover]
    unfold restartsLeft
    rw [starts_concat]
    cases look with
    | stands status hstands =>
      refine .inr ⟨?_, ?_⟩
      · rintro (⟨fault, hfault⟩ | ⟨hpos, heq⟩)
        · cases hfault
        · exact Int.ne_of_lt (hcount hpos) (by simpa [Look.starts] using heq)
      · simp only [Look.starts, Bool.toNat_false, Int.natCast_zero, Int.add_zero]
        exact .pauses
    | exited start =>
      have hlost : ¬∃ fault, Look.exited start = .lost fault := by
        rintro ⟨fault, h⟩
        cases h
      rw [or_iff_right hlost, show (Look.exited start).starts.toNat = 1 from rfl]
      by_cases hpos : 0 < r
      · have hlt := hcount hpos
        unfold Look.next
        simp only [hpos, if_true, true_and]
        by_cases hlast : r - (looks.countP Look.starts : Int) = 1
        · rw [if_pos hlast]
          exact .inl ⟨rfl, .inr (by omega)⟩
        · rw [if_neg hlast, if_pos (by omega), ← Int.sub_sub]
          exact .inr ⟨by omega, .pauses⟩
      · unfold Look.next
        simp only [hpos, if_false, false_and]
        rw [if_neg (by omega)]
        exact .inr ⟨not_false, .pauses⟩
    | lost fault => exact .inl ⟨rfl, .inr (.inl ⟨fault, rfl⟩)⟩

/-- A thread that is to restart a container has not looked at it yet. -/
theorem Restarting.begins : Restarting st handle r [] (Thread.ofJobs [.repeatLoop handle r]) := by
  have hover : ¬Over r [] := by
    rintro (⟨fault, hfault⟩ | ⟨hpos, heq⟩)
    · cases hfault
    · exact Int.ne_of_lt hpos heq
  refine ⟨rfl, rfl, fun _ => rfl, Int.le_of_lt, fun l₁ l₂ heq _ => ?_, .inr ⟨hover, ?_⟩⟩
  · exact (List.append_eq_nil_iff.1 heq.symm).2
  · have hleft : restartsLeft r [] = r := by
      unfold restartsLeft
      split_ifs
      · exact Int.sub_zero r
      · rfl
    rw [hleft]
    exact .asks

/-- A thread that has no restarts to make ends without a look. -/
theorem Restarting.ends (h : Restarting st handle 0 looks u) :
    Restarting st handle 0 looks { u with jobs := [] } :=
  ⟨h.tally, h.going, h.none, h.bound, h.last, .inl ⟨rfl, .inl rfl⟩⟩

theorem Restarting.pausing {jobs : List Job} (h : Restarting st handle r looks u) (hover : ¬Over r looks)
    (hjobs : Asking st.config.timings.repeatPoll (.repeatLoop handle (restartsLeft r looks)) jobs) :
    Restarting st handle r looks { u with jobs } :=
  ⟨h.tally, h.going, h.none, h.bound, h.last, .inr ⟨hover, hjobs⟩⟩

/-- As long as the looks are not over there is a restart left. -/
theorem restartsLeft_ne_zero (hover : ¬Over r looks) (hr : r ≠ 0) : restartsLeft r looks ≠ 0 := by
  unfold restartsLeft
  split_ifs with hpos
  · intro hzero
    exact hover (.inr ⟨hpos, by omega⟩)
  · exact hr

/-- At each of its moments a thread that restarts a container looks at it, or is done, or comes closer to its
next look. -/
theorem Stepped.restarts {x : Job} (h : Stepped st t x s s') (hb : s.scope.broken = false)
    (hans : st.env.runtime.Answers) (hu : s.threads[t]? = some u) (hrest : Restarting st handle r looks u) :
    ∃ looks' u', s'.threads[t]? = some u' ∧ Restarting st handle r looks' u' ∧
      (looks' = looks ∧ (⟨s, t, x⟩ : Moment σ).calls st = [] ∧ (r = 0 ∨ x.pause? st = none) ∨
        s.At t [x] ∧ x.pause? st = some st.config.timings.repeatPoll ∧
          ∃ look : Look, looks' = looks ++ [look] ∧
            (⟨s, t, x⟩ : Moment σ).calls st = look.calls handle) := by
  rcases hrest.jobs with ⟨hnil, -⟩ | ⟨hover, hasking⟩
  · obtain ⟨rest, hjobs⟩ := h.eq_cons ⟨u, hu, hnil⟩
    cases hjobs
  rcases h.asking hb hu hasking with ⟨rfl, hjobs⟩ | ⟨hidles, jobs, hjobs, hu'⟩
  · by_cases hr : r = 0
    · subst hr
      have hresult : s' = s.pop t := h.looksNot hb
      have hsame : s'.scope.trace = [] ++ s.scope.trace := congrArg (fun s => s.scope.trace) hresult
      refine ⟨looks, _, hresult ▸ State.pop_getElem? hu, ?_, .inl ⟨rfl, ?_, .inl rfl⟩⟩
      · rw [hjobs]
        exact hrest.ends
      · exact h.calls_eq hsame
    · obtain ⟨look, hlook, hu'⟩ := h.looksAt hans hb (restartsLeft_ne_zero hover hr) hu
      rw [hjobs, List.tail_cons, List.append_nil] at hu'
      exact ⟨looks ++ [look], _, hu', hrest.concat hover hr, .inr ⟨⟨u, hu, hjobs⟩, rfl, look, rfl, hlook⟩⟩
  · refine ⟨looks, _, hu', hrest.pausing hover hjobs,
      .inl ⟨rfl, h.calls_eq_nil (Job.notes_of_idles hidles), .inr ?_⟩⟩
    cases x with
    | sleep | wake => rfl
    | _ => cases hidles

/-- What a thread that restarts a container calls are looks, whatever other threads do meanwhile. -/
theorem Chronicle.restarting (hc : Chronicle st b c s) (hb : b.scope.broken = false)
    (hans : st.env.runtime.Answers)
    (ht : b.threads[t]? = some (Thread.ofJobs [.repeatLoop handle r])) :
    ∃ looks u, callsOf st t c = looks.flatMap (Look.calls handle) ∧ s.threads[t]? = some u ∧
      Restarting st handle r looks u := by
  refine hc.invariant (P := fun c s => ∃ (looks : List Look) (u : Thread),
    callsOf st t c = looks.flatMap (Look.calls handle) ∧ s.threads[t]? = some u ∧
      Restarting st handle r looks u) hb ⟨[], _, rfl, ht, .begins⟩ ?_ fun _ _ _ hs _ _ => hs
  rintro c k x s s' ⟨looks, u, hcalls, hu, hrest⟩ hstep hb
  by_cases hk : k = t
  · subst hk
    obtain ⟨looks', u', hu', hrest', hlook⟩ := hstep.restarts hb hans hu hrest
    refine ⟨looks', u', ?_, hu', hrest'⟩
    rw [callsOf_concat_self (m := ⟨s, k, x⟩) rfl, hcalls]
    rcases hlook with ⟨rfl, hnone, -⟩ | ⟨-, -, look, rfl, hlook⟩
    · rw [hnone, List.append_nil]
    · rw [hlook, List.flatMap_append, List.flatMap_singleton]
  · obtain ⟨v, js, v', new, spawned, -, -, -, hth, -⟩ := hstep.moves
    exact ⟨looks, u, (callsOf_concat_other hk).trans hcalls, Stepped.getElem?_other hth hk hu, hrest⟩

/-- Between two looks a thread pauses once. -/
theorem Chronicle.restarting_paced {m m' : Moment σ} {c₁ c₂ c₃ : List (Moment σ)}
    (hc : Chronicle st b (c₁ ++ m :: (c₂ ++ m' :: c₃)) s) (hb : b.scope.broken = false)
    (hans : st.env.runtime.Answers)
    (ht : b.threads[t]? = some (Thread.ofJobs [.repeatLoop handle r])) (hm : m.thread = t)
    (hm' : m'.thread = t) (hcalls : m.calls st ≠ []) (hcalls' : m'.calls st ≠ [])
    (hsilent : ∀ x ∈ c₂, x.thread = t → x.calls st = []) :
    ∃ time, doneBy t c₂ = [.sleep st.config.timings.repeatPoll, .wake time] ∧
      m.before.scope.clock + st.config.timings.repeatPoll ≤ time ∧ time ≤ m'.before.scope.clock := by
  have hmoment : ∀ c₁ m c₂, Chronicle st b (c₁ ++ m :: c₂) s → m.thread = t →
      m.calls st = [] ∧ (r = 0 ∨ m.job.pause? st = none) ∨
        r ≠ 0 ∧ m.before.At t [m.job] ∧ m.job.pause? st = some st.config.timings.repeatPoll ∧
          m.calls st ≠ [] := by
    rintro c₁ m c₂ hc rfl
    obtain ⟨looks, u, -, hu, hrest⟩ := hc.before.1.restarting hb hans ht
    have hunbroken := hc.before.1.unbroken hb
    obtain ⟨looks', u', -, hrest', ⟨-, hlook⟩ | ⟨hat, hpause, look, hlooks, hlook⟩⟩ :=
      (hc.stepped hb).restarts hunbroken hans hu hrest
    · exact .inl hlook
    · refine .inr ⟨fun hr => ?_, hat, hpause, ?_⟩
      · rw [hrest'.none hr] at hlooks
        exact List.append_ne_nil_of_right_ne_nil _ (List.cons_ne_nil _ _) hlooks.symm
      · rw [show m.calls st = look.calls handle from hlook]
        cases look <;> exact List.cons_ne_nil _ _
  obtain ⟨hnone, -⟩ | ⟨hr, hat, hpause, -⟩ := hmoment c₁ m _ hc hm
  · exact absurd hnone hcalls
  have hsecond : Chronicle st b ((c₁ ++ m :: c₂) ++ m' :: c₃) s := by simpa using hc
  obtain ⟨hnone, -⟩ | ⟨-, -, hpause', -⟩ := hmoment _ m' c₃ hsecond hm'
  · exact absurd hnone hcalls'
  refine hc.paced hb hat hm hpause hm' (by rw [hpause']; exact Option.some_ne_none _) fun x hx hi => ?_
  obtain ⟨d, e, rfl⟩ := List.append_of_mem hx
  have hbetween : Chronicle st b ((c₁ ++ m :: d) ++ x :: (e ++ m' :: c₃)) s := by simpa using hc
  obtain ⟨-, hnone⟩ | ⟨-, -, -, hlooks⟩ := hmoment _ x _ hbetween hi
  · exact hnone.resolve_left hr
  · exact absurd (hsilent x hx hi) hlooks

/-- A thread that is to restart a container makes looks and nothing else: it asks for the status, and starts the
container directly after each time that it has exited and never otherwise, once for each time.  After the first
status that it does not get, or the last one of a number of restarts, it ends; till then it pauses once between
two looks.  Its tally is that of the starts that did not fail, while all of them count. -/
theorem repeatLoop_restarts (hans : st.env.runtime.Answers) (hb : b.scope.broken = false)
    (ht : b.threads[t]? = some (Thread.ofJobs [.repeatLoop handle r])) (hc : Chronicle st b c s) :
    (∃ (looks : List Look) (u : Thread), callsOf st t c = looks.flatMap (Look.calls handle) ∧
      (r = 0 → looks = []) ∧ (0 < r → (looks.countP Look.starts : Int) ≤ r) ∧
      (∀ l₁ l₂, looks = l₁ ++ l₂ → Over r l₁ → l₂ = []) ∧
      s.threads[t]? = some u ∧ u.crashed = false ∧ u.tally = looks.countP Look.succeeds ∧
      (u.jobs = [] ∧ (r = 0 ∨ Over r looks) ∨
        ¬Over r looks ∧
          Asking st.config.timings.repeatPoll (.repeatLoop handle (restartsLeft r looks)) u.jobs)) ∧
    ∀ c₁ m c₂ m' c₃, c = c₁ ++ m :: (c₂ ++ m' :: c₃) → m.thread = t → m'.thread = t →
      m.calls st ≠ [] → m'.calls st ≠ [] → (∀ x ∈ c₂, x.thread = t → x.calls st = []) →
      ∃ time, doneBy t c₂ = [.sleep st.config.timings.repeatPoll, .wake time] ∧
        m.before.scope.clock + st.config.timings.repeatPoll ≤ time ∧ time ≤ m'.before.scope.clock := by
  obtain ⟨looks, u, hcalls, hu, hrest⟩ := hc.restarting hb hans ht
  refine ⟨⟨looks, u, hcalls, hrest.none, hrest.bound, hrest.last, hu, hrest.going, hrest.tally, hrest.jobs⟩, ?_⟩
  rintro c₁ m c₂ m' c₃ rfl
  exact hc.restarting_paced hb hans ht

end

/-! ## Two restarts -/

/-- A container that goes on when it is first asked for, and whose first start fails. -/
def restartScope : Scope (Faulty (World Rehearsal)) :=
  rehearsalScope { statuses := [("mock-1", [.ok .running, .ok .exited, .ok .exited])] }
    { start := [some (.command "busy")] }

def restartStart : State (Faulty (World Rehearsal)) := State.ofJobs restartScope [.repeatLoop "mock-1" 2]

def restartRun : List (Moment (Faulty (World Rehearsal))) × State (Faulty (World Rehearsal)) :=
  restartStart.chronicle (rehearsed {}) (fun s => s.finished 0) 40 0

/-- Two restarts are made and one of them fails: that makes one that came off, and the thread has ended. -/
theorem repeatLoop_restarts_twice :
    (rehearsed {}).env.runtime.Answers ∧
      Chronicle (rehearsed {}) restartStart restartRun.1 restartRun.2 ∧
      (callsOf (rehearsed {}) 0 restartRun.1).map Event.kind = [.status, .status, .start, .status, .start] ∧
      ∃ (looks : List Look) (u : Thread),
        callsOf (rehearsed {}) 0 restartRun.1 = looks.flatMap (Look.calls "mock-1") ∧
        restartRun.2.threads[0]? = some u ∧ u.jobs = [] ∧ Over 2 looks ∧
        u.tally = looks.countP Look.succeeds ∧ u.tally = 1 := by
  have hans : (rehearsed {}).env.runtime.Answers := Faulty.answers Rehearsal.answers
  have hc : Chronicle (rehearsed {}) restartStart restartRun.1 restartRun.2 := State.chronicle_spec _ _ _ _ _
  have ht : restartStart.threads[0]? = some (Thread.ofJobs [.repeatLoop "mock-1" 2]) := rfl
  have hdone : (restartRun.2.threads[0]?).any (fun u => u.finished && u.tally == 1) = true := by decide +kernel
  obtain ⟨⟨looks, u, hcalls, -, -, -, hu, -, htally, hjobs⟩, -⟩ := repeatLoop_restarts hans rfl ht hc
  obtain ⟨v, hv, hended⟩ := (Option.any_eq_true _ _).1 hdone
  obtain rfl := Option.some.inj (hu.symm.trans hv)
  rw [Bool.and_eq_true, beq_iff_eq] at hended
  have hnil : u.jobs = [] := List.isEmpty_iff.1 hended.1
  refine ⟨hans, hc, by decide +kernel, looks, u, hcalls, hu, hnil, ?_, htally, hended.2⟩
  rcases hjobs with ⟨-, hzero | hover⟩ | ⟨-, hasking⟩
  · cases hzero
  · exact hover
  · rw [hnil] at hasking
    cases hasking

end Run

end Workload
