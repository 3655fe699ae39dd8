import Workload.Proofs.Control
import Workload.Proofs.Origins
import Workload.Proofs.Overlong
import Workload.Proofs.Polling

/-!
# What becomes of a plain action

What an action needs is read off its texts: whether its requirement is met (`Settings.Meets`), and its duration
and its number of instances, which are zero if they cannot be read (`Settings.Lasts`, `Settings.Counts`).  A
thread that controls a task without a condition to wait for launches it at once, and once
(`Chronicle.runsOnce`).  So an action is skipped or its task is launched once (`dispatch_decides`), unless what is
evaluated cannot be done at all.
-/

namespace Workload.Run

open Duration Expression

variable {σ : Type}

/-! ## What the texts of an action say -/

section

variable (st : Settings σ)

/-- There is no requirement, or it evaluates to true. -/
inductive Settings.Meets (text : String) (sc : Scope σ) : Scope σ → Prop
  | unsaid : text = "" → Meets text sc sc
  | holds {value : String} {sc' : Scope σ} : text ≠ "" → sc.evaluate st.env text = (.ok value, sc') →
    decideCondition value = .ok true → Meets text sc sc'

/-- The duration that a text says, or none if it says nothing or cannot be read. -/
inductive Settings.Lasts (text : String) (sc : Scope σ) : Duration → Scope σ → Prop
  | unsaid : text = "" → Lasts text sc .zero sc
  | said {value : String} {d : Duration} {sc' : Scope σ} : text ≠ "" →
    sc.evaluate st.env text = (.ok value, sc') → parseDuration? value = some (.ok d) → Lasts text sc d sc'
  | unreadable {value : String} {fault : ExpressionFault} {sc' : Scope σ} : text ≠ "" →
    sc.evaluate st.env text = (.ok value, sc') → parseDuration? value = some (.error fault) →
    Lasts text sc .zero (sc'.note (.warn "invalid duration"))
  | failed {fault : ExpressionFault} {sc' : Scope σ} : text ≠ "" →
    sc.evaluate st.env text = (.error fault, sc') →
    Lasts text sc .zero (sc'.note (.warn "invalid duration"))

/-- The number of instances that a text says, where there are no fewer than none; none if it says nothing or
cannot be read. -/
inductive Settings.Counts (text : String) (sc : Scope σ) : Nat → Scope σ → Prop
  | unsaid : text = "" → Counts text sc 0 sc
  | said {value : String} {n : Int} {instances : Nat} {sc' : Scope σ} : text ≠ "" →
    sc.evaluate st.env text = (.ok value, sc') → parseInt value = .ok n → (instances : Int) = max n 0 →
    Counts text sc instances sc'
  | unreadable {value : String} {fault : ExpressionFault} {sc' : Scope σ} : text ≠ "" →
    sc.evaluate st.env text = (.ok value, sc') → parseInt value = .error fault →
    Counts text sc 0 (sc'.note (.warn "invalid concurrency"))
  | failed {fault : ExpressionFault} {sc' : Scope σ} : text ≠ "" →
    sc.evaluate st.env text = (.error fault, sc') →
    Counts text sc 0 (sc'.note (.warn "invalid concurrency"))

end

namespace Settings

variable {st : Settings σ} {text : String} {sc sc' : Scope σ} {limit : Duration} {instances : Nat}

theorem requirement_iff : st.requirement text sc = (true, sc') ↔ st.Meets text sc sc' := by
  unfold requirement Scope.condition
  split_ifs with htext
  · rw [String.isEmpty_iff] at htext
    constructor
    · intro h
      obtain rfl := (Prod.mk.inj h).2
      exact .unsaid htext
    · rintro (- | ⟨hsaid, -⟩)
      · rfl
      · exact absurd htext hsaid
  · rw [String.isEmpty_iff] at htext
    rcases he : sc.evaluate st.env text with ⟨fault | value, sc₁⟩
    · constructor
      · intro h
        cases h
      · rintro (h | ⟨-, h, -⟩)
        · exact absurd h htext
        · cases he.symm.trans h
    · simp only [Except.bind]
      constructor
      · intro h
        cases hvalue : decideCondition value with
        | error fault =>
          rw [hvalue] at h
          cases h
        | ok b =>
          rw [hvalue] at h
          cases b with
          | false => cases h
          | true =>
            obtain rfl := (Prod.mk.inj h).2
            exact .holds htext he hvalue
      · rintro (h | ⟨-, h, hvalue⟩)
        · exact absurd h htext
        · obtain ⟨heq, rfl⟩ := Prod.mk.inj (he.symm.trans h)
          obtain rfl := Except.ok.inj heq
          rw [hvalue]

/-- A duration is what its text says, or out of range. -/
theorem duration_says (st : Settings σ) (text : String) (sc : Scope σ) :
    (∃ limit sc', st.duration text sc = (some limit, sc') ∧ st.Lasts text sc limit sc') ∨
      ∃ value sc', st.duration text sc = (none, sc') ∧ sc.evaluate st.env text = (.ok value, sc') ∧
        OutOfRange value := by
  by_cases htext : text = ""
  · subst htext
    exact .inl ⟨.zero, sc, rfl, .unsaid rfl⟩
  have hsaid : text.isEmpty = false := by simpa using htext
  rcases he : sc.evaluate st.env text with ⟨fault | value, sc'⟩
  · refine .inl ⟨.zero, _, ?_, .failed htext he⟩
    unfold duration
    rw [hsaid, he]
    rfl
  have hread := duration_of_evaluate st hsaid he
  cases hvalue : parseDuration? value with
  | none =>
    rw [hvalue] at hread
    exact .inr ⟨value, sc', hread, rfl, parseDuration?_eq_none_iff.1 hvalue⟩
  | some r =>
    rw [hvalue] at hread
    cases r with
    | ok d => exact .inl ⟨d, sc', hread, .said htext he hvalue⟩
    | error fault => exact .inl ⟨.zero, _, hread, .unreadable htext he hvalue⟩

theorem Lasts.duration (h : st.Lasts text sc limit sc') : st.duration text sc = (some limit, sc') := by
  have hread : ∀ {value : String} {sc' : Scope σ}, text ≠ "" → sc.evaluate st.env text = (.ok value, sc') → _ :=
    fun hsaid he => duration_of_evaluate st (by simpa using hsaid) he
  cases h with
  | unsaid htext =>
    subst htext
    rfl
  | said hsaid he hvalue => rw [hread hsaid he, hvalue]
  | unreadable hsaid he hvalue => rw [hread hsaid he, hvalue]
  | failed hsaid he =>
    unfold Settings.duration
    rw [if_neg (by simpa using hsaid), he]

theorem concurrency_counts (h : st.concurrency text sc = (instances, sc')) : st.Counts text sc instances sc' := by
  unfold concurrency at h
  split_ifs at h with htext
  · obtain ⟨rfl, rfl⟩ := Prod.mk.inj h
    exact .unsaid (String.isEmpty_iff.1 htext)
  · rw [String.isEmpty_iff] at htext
    rcases he : sc.evaluate st.env text with ⟨fault | value, sc₁⟩
    · rw [he] at h
      obtain ⟨rfl, rfl⟩ := Prod.mk.inj h
      exact .failed htext he
    · rw [he] at h
      simp only [Except.bind] at h
      cases hvalue : parseInt value with
      | error fault =>
        rw [hvalue] at h
        obtain ⟨rfl, rfl⟩ := Prod.mk.inj h
        exact .unreadable htext he hvalue
      | ok n =>
        rw [hvalue] at h
        obtain ⟨rfl, rfl⟩ := Prod.mk.inj h
        exact .said htext he hvalue (Int.toNat_eq_max n)

theorem Counts.concurrency (h : st.Counts text sc instances sc') : st.concurrency text sc = (instances, sc') := by
  unfold Settings.concurrency
  cases h with
  | unsaid htext =>
    subst htext
    rfl
  | @said value n _ _ hsaid he hvalue hn =>
    obtain rfl : n.toNat = instances := by omega
    rw [if_neg (by simpa using hsaid), he]
    simp only [Except.bind, hvalue]
  | unreadable hsaid he hvalue =>
    rw [if_neg (by simpa using hsaid), he]
    simp only [Except.bind, hvalue]
  | failed hsaid he =>
    rw [if_neg (by simpa using hsaid), he]
    rfl

end Settings

/-! ## The dispatch -/

namespace State

variable {st : Settings σ} {i : ThreadId} {a : Action} {s : State σ} {sc : Scope σ} {task : Task}

theorem dispatch_skip (h : st.decide a s.scope = (.skip, sc)) : s.dispatch st i a = { s with scope := sc } := by
  unfold dispatch within
  simp only [h]

theorem dispatch_launch (h : st.decide a s.scope = (.launch task, sc)) :
    s.dispatch st i a =
      if sc.broken then { s with scope := sc }
      else if a.wait then
        ({ s with scope := sc } : State σ).push i [.control task a, .sleep st.config.timings.settle]
      else
        (({ s with scope := sc } : State σ).spawn [.control task a]).push i [.sleep st.config.timings.settle] := by
  unfold dispatch within
  simp only [h]

theorem dispatch_scope (st : Settings σ) (i : ThreadId) (a : Action) (s : State σ) :
    (s.dispatch st i a).scope = (st.decide a s.scope).2 := by
  rcases h : st.decide a s.scope with ⟨- | task | -, sc⟩
  · rw [dispatch_skip h]
  · rw [dispatch_launch h]
    split_ifs <;> rfl
  · unfold dispatch within
    simp only [h]
    rfl

end State

section

variable {st : Settings σ} {i : ThreadId} {a : Action} {js : List Job} {s s' : State σ} {sc : Scope σ}
  {task : Task}

/-- A thread that asks for what cannot be done has nothing left to do, and starts no thread. -/
theorem State.At.endBroken {p : State σ} (hp : p.At i js) (hb : p.scope.broken = true) :
    (p.endBroken i).At i [] ∧ (p.endBroken i).threads.length = p.threads.length := by
  obtain ⟨u, hu, -⟩ := hp
  rw [State.endBroken_of_broken hb]
  refine ⟨⟨{ u with jobs := [], crashed := true }, ?_, rfl⟩, List.length_modify _ _ _⟩
  show (p.threads.modify i _)[i]? = _
  rw [List.getElem?_modify_eq, hu]
  rfl

/-- An action that is skipped leaves its thread nothing to do. -/
theorem Stepped.skips (h : Stepped st i (.dispatch a) s s') (hat : s.At i (.dispatch a :: js))
    (hd : st.decide a s.scope = (.skip, sc)) :
    s'.At i (if sc.broken then [] else js) ∧ s'.threads.length = s.threads.length := by
  have hpop : ({ s.pop i with scope := sc } : State σ).At i js := hat.popped
  have hlength : ({ s.pop i with scope := sc } : State σ).threads.length = s.threads.length := pop_length i s
  rw [h.result.trans (congrArg (State.endBroken i) (State.dispatch_skip (i := i) (s := s.pop i) hd)), ← hlength]
  split_ifs with hb
  · exact hpop.endBroken hb
  · rw [State.endBroken_of_unbroken (Bool.not_eq_true _ ▸ hb)]
    exact ⟨hpop, rfl⟩

/-- An action that is not skipped has its task controlled, by its own thread if the action is waited for, and a
pause follows. -/
theorem Stepped.controls (h : Stepped st i (.dispatch a) s s') (hat : s.At i (.dispatch a :: js))
    (hd : st.decide a s.scope = (.launch task, sc)) :
    if sc.broken then s'.At i [] ∧ s'.threads.length = s.threads.length
    else if a.wait then
      s'.At i (.control task a :: .sleep st.config.timings.settle :: js) ∧ s'.threads.length = s.threads.length
    else
      s'.At i (.sleep st.config.timings.settle :: js) ∧ s'.At s.threads.length [.control task a] ∧
        s'.threads.length = s.threads.length + 1 := by
  have hpop : ({ s.pop i with scope := sc } : State σ).At i js := hat.popped
  have hlength : ({ s.pop i with scope := sc } : State σ).threads.length = s.threads.length := pop_length i s
  rw [h.result.trans (congrArg (State.endBroken i) (State.dispatch_launch (i := i) (s := s.pop i) hd)), ← hlength]
  split_ifs with hb hwait
  · exact hpop.endBroken hb
  · rw [State.endBroken_of_unbroken (Bool.not_eq_true _ ▸ hb)]
    exact ⟨((State.Moves.push _ _).leaves hpop).1, List.length_modify _ _ _⟩
  · rw [State.endBroken_of_unbroken (Bool.not_eq_true _ ▸ hb)]
    have hmoves : State.Moves [] i [.sleep st.config.timings.settle] [[.control task a]]
        ({ s.pop i with scope := sc } : State σ) _ := ((State.Moves.refl _).then_spawn _).then_push _
    obtain ⟨hown, hnew⟩ := hmoves.leaves hpop
    exact ⟨hown, ⟨_, hnew 0, rfl⟩, (List.length_modify _ _ _).trans List.length_append⟩

end

/-! ## What is controlled and launched later -/

/-- Whether a job is to control a task or to launch it. -/
def Job.begins : Job → Bool
  | .control .. | .launch _ => true
  | _ => false

/-- Of what a thread has left before `rest`, the tasks that it is to control or to launch stem from what was done
so far. -/
def Thread.Stems (st : Settings σ) (c : List (Moment σ)) (i : ThreadId) (rest : List Job) (t : Thread) : Prop :=
  t.jobs = [] ∨ ∃ inner, t.jobs = inner ++ rest ∧ ∀ x ∈ inner, x.begins = true → x.StemsFrom st c i

section

variable {st : Settings σ} {i u : ThreadId} {j : Job} {rest : List Job} {b s s' : State σ} {c : List (Moment σ)}
  {v : Thread}

theorem Thread.Stems.mono {c' : List (Moment σ)} (h : v.Stems st c u rest) (hc : c ⊆ c') : v.Stems st c' u rest :=
  h.imp_right fun ⟨inner, hjobs, hinner⟩ => ⟨inner, hjobs, fun x hx hb => (hinner x hx hb).mono hc⟩

theorem Thread.stems_step (h : Stepped st i j s s') (hs : ∀ v, s.threads[u]? = some v → v.Stems st c u rest)
    (hu : u < s.threads.length ∨ rest = []) (haway : i = u → ¬s.At u rest) :
    ∀ v, s'.threads[u]? = some v → v.Stems st (c ++ [⟨s, i, j⟩]) u rest := by
  have hsub : c ⊆ c ++ [⟨s, i, j⟩] := List.subset_append_left c _
  obtain ⟨t, js, new, spawned, ht, hj, hy, hcases⟩ := h.thread_cases
  intro v hv
  rcases hcases u v hv with ⟨rfl, hown⟩ | ⟨-, hold⟩ | ⟨-, hlength, jobs, hjobs, rfl⟩
  · obtain ⟨inner, rfl, hinner⟩ : ∃ inner, js = inner ++ rest ∧
        ∀ x ∈ inner, x.begins = true → x.StemsFrom st c u := by
      rcases hs t ht with hnil | ⟨inner, hinner, hstems⟩
      · rw [hj] at hnil
        cases hnil
      · cases inner with
        | nil => exact absurd ⟨t, ht, hinner⟩ (haway rfl)
        | cons x inner =>
          rw [hj] at hinner
          obtain ⟨-, rfl⟩ := List.cons.inj hinner
          exact ⟨inner, rfl, fun x hx => hstems x (List.mem_cons_of_mem _ hx)⟩
    have hgoes : ∀ new, v.jobs = new ++ (inner ++ rest) →
        (∀ x ∈ new, x.begins = true → x.StemsFrom st (c ++ [⟨s, u, j⟩]) u) →
        v.Stems st (c ++ [⟨s, u, j⟩]) u rest := by
      refine fun new hjobs hnew => .inr ⟨new ++ inner, by rw [hjobs, List.append_assoc], fun x hx hb => ?_⟩
      rcases List.mem_append.1 hx with hx | hx
      · exact hnew x hx hb
      · exact (hinner x hx hb).mono hsub
    -- Which alias a launch has is known where its task is controlled, and all else from what a job leaves.
    by_cases hcontrol : ∃ task a, j = .control task a
    · obtain ⟨task, a, rfl⟩ := hcontrol
      rcases stemsFrom_control h ht hj hv with hnil | ⟨new, hjobs, hnew⟩
      · exact .inl hnil
      · exact hgoes new hjobs fun x hx _ => hnew x hx
    · rcases hown with ⟨hjobs, -⟩ | ⟨hnil, -⟩
      · refine hgoes new hjobs fun x hx hb => stemsFrom_new hy hx ?_ fun task a hj => hcontrol ⟨task, a, hj⟩
        rintro pass last rest rfl
        cases hb
      · exact .inl hnil
  · exact (hs v hold).mono hsub
  · obtain rfl := hu.resolve_left (Nat.not_lt.2 hlength)
    refine .inr ⟨jobs, (List.append_nil _).symm, fun x hx hb => ?_⟩
    cases hy.starts jobs hjobs x hx with
    | control a task => exact ⟨_, mem_concat_moment c _, rfl⟩
    | _ => cases hb

/-- As long as a thread is not back at `rest`, the tasks that it comes to control and to launch stem from what
is done meanwhile. -/
theorem Chronicle.stems_away {c₁ c₂ : List (Moment σ)} {x : Moment σ} (hc : Chronicle st b (c₁ ++ x :: c₂) s)
    (hb : b.scope.broken = false) (hstart : ∀ v, b.threads[u]? = some v → v.Stems st [] u rest)
    (hu : u < b.threads.length ∨ rest = []) (hx : x.thread = u) (hbegins : x.job.begins = true)
    (haway : ∀ z ∈ c₁ ++ [x], z.thread = u → ¬z.before.At u rest) : x.job.StemsFrom st c₁ u := by
  have hstems : (∀ z ∈ c₁, z.thread = u → ¬z.before.At u rest) → (u < x.before.threads.length ∨ rest = []) ∧
      ∀ v, x.before.threads[u]? = some v → v.Stems st c₁ u rest := by
    refine hc.before.1.invariant (P := fun c s => (∀ z ∈ c, z.thread = u → ¬z.before.At u rest) →
      (u < s.threads.length ∨ rest = []) ∧ ∀ v, s.threads[u]? = some v → v.Stems st c u rest) hb
      (fun _ => ⟨hu, hstart⟩) ?_ fun _ _ _ hs _ _ => hs
    rintro c t y s s' hs hstep hsb haway
    obtain ⟨hu, hs⟩ := hs fun z hz => haway z (List.mem_append_left _ hz)
    have hlength : s.threads.length ≤ s'.threads.length :=
      (Chronicle.thread .refl hstep.next? hstep.step?).threads_le hsb
    exact ⟨hu.imp_left fun h => h.trans_le hlength,
      Thread.stems_step hstep hs hu fun hi => haway ⟨s, t, y⟩ (by simp) hi⟩
  obtain ⟨-, hstems⟩ := hstems fun z hz => haway z (List.mem_append_left _ hz)
  have hnext := hc.before.2
  rw [hx] at hnext
  obtain ⟨v, hv, hhead⟩ := Option.bind_eq_some_iff.1 hnext
  rcases hstems v hv with hnil | ⟨inner, hinner, hstems⟩
  · rw [hnil] at hhead
    cases hhead
  · cases inner with
    | nil => exact absurd ⟨v, hv, hinner⟩ (haway x (by simp) hx)
    | cons y inner =>
      rw [hinner] at hhead
      obtain rfl := Option.some.inj hhead
      exact hstems _ List.mem_cons_self hbegins

end

/-! ## One launch -/

section

variable {st : Settings σ} {t : ThreadId} {rest : List Job} {b s s' : State σ} {c : List (Moment σ)}
  {k : Ticket} {task : Task} {a : Action}

/-- A launch notes what the runtime was asked for, and no more. -/
theorem State.launch_trace (st : Settings σ) (i : ThreadId) (s : State σ) (hk : k.task.command ≠ []) :
    (s.launch st i k).scope.trace = (s.scope.launch st.env k.task).2.trace := by
  rw [State.launch_eq st i s k hk]
  split_ifs
  · exact congrArg Scope.trace (State.forsake_scope ..)
  · split
    · rename_i l _
      obtain ⟨new, spawned, hmoves, -⟩ := State.created_goesOn i (s.asked st k) k l (s.spawnWatcher k).1
      exact hmoves.scope.trace_eq
    · exact State.refused_trace ..

theorem Stepped.runs (h : Stepped st t (.launch k) s s') (hk : k.task.command ≠ [])
    (hunbroken : (s.scope.launch st.env k.task).2.broken = false) :
    (⟨s, t, .launch k⟩ : Moment σ).calls st = [.run k.task (s.scope.launch st.env k.task).1] := by
  have htrace : s'.scope.trace =
      [⟨s.scope.clock, .run k.task (s.scope.launch st.env k.task).1⟩] ++ s.scope.trace := by
    rw [h.result, State.endBroken_trace]
    exact (State.launch_trace st t (s.pop t) hk).trans (Scope.call_trace hunbroken)
  exact h.calls_eq htrace

/-- Without a command there is nothing to launch. -/
theorem Stepped.runs_nothing (h : Stepped st t (.launch k) s s') (hb : s.scope.broken = false)
    (hat : s.At t (.launch k :: rest)) (hk : k.task.command = []) :
    (⟨s, t, .launch k⟩ : Moment σ).calls st = [] ∧ s'.At t rest ∧ s'.threads.length = s.threads.length := by
  have hidle : (s.pop t).launch st t k = s.pop t := if_pos (by rw [hk]; rfl)
  have hresult : s' = s.pop t := by
    rw [h.result, show (Job.launch k).perform st t (s.pop t) = s.pop t from hidle]
    exact State.endBroken_of_unbroken (s := s.pop t) hb t
  have htrace : s'.scope.trace = [] ++ s.scope.trace := by
    rw [hresult]
    rfl
  refine ⟨h.calls_eq htrace, ?_, ?_⟩
  · rw [hresult]
    exact hat.popped
  · rw [hresult]
    exact pop_length t s

/-- A thread that controls a task before `rest` comes to launch it, and asks the runtime for that once.  The tasks
that it launches before it is back at `rest`, and those that threads launch that are started meanwhile, are ones
that they come to control later. -/
inductive RunsOnce (st : Settings σ) (t : ThreadId) (task : Task) (a : Action) (rest : List Job)
    (c : List (Moment σ)) (s : State σ) : Prop
  | comes : doneBy t c = [] ∨ doneBy t c = [.control task a] → callsOf st t c = [] → s.enabled t = true →
    RunsOnce st t task a rest c s
  | launches (d : List (Moment σ)) (y : Moment σ) (e : List (Moment σ)) (k : Ticket) : c = d ++ y :: e →
    doneBy t d = [.control task a] → callsOf st t d = [] → y.thread = t → y.job = .launch k → k.task = task →
    (task.command = [] → y.calls st = [] ∧ (y.after st).At t rest ∧
      (y.after st).threads.length = y.before.threads.length) →
    (task.command ≠ [] → (y.before.scope.launch st.env task).2.broken = false →
      y.calls st = [.run task (y.before.scope.launch st.env task).1]) →
    (∀ e₁ x e₂, e = e₁ ++ x :: e₂ → x.job.begins = true →
      (x.thread = t ∧ ∀ z ∈ e₁ ++ [x], z.thread = t → ¬z.before.At t rest) ∨
        y.before.threads.length ≤ x.thread → x.job.StemsFrom st e₁ x.thread) →
    RunsOnce st t task a rest c s

/-- A launch leaves nothing that is to control or to launch a task, for its own thread and for new ones. -/
theorem Stepped.launch_stems (h : Stepped st t (.launch k) s s') (hat : s.At t (.launch k :: rest)) {u : ThreadId}
    {v : Thread} (hv : s'.threads[u]? = some v) :
    (u = t → v.Stems st [] u rest) ∧ (s.threads.length ≤ u → v.Stems st [] u []) := by
  obtain ⟨w, js, new, spawned, hw, hjobs, hy, hcases⟩ := h.thread_cases
  obtain ⟨-, rfl⟩ := List.cons.inj (State.At.eq ⟨w, hw, hjobs⟩ hat)
  rcases hcases u v hv with ⟨rfl, hown⟩ | ⟨hu, hold⟩ | ⟨hu, -, jobs, hmem, rfl⟩
  · refine ⟨fun _ => ?_, fun hu => absurd (List.getElem?_eq_some_iff.1 hw).1 (Nat.not_lt.2 hu)⟩
    rcases hown with ⟨hv, -⟩ | ⟨hnil, -⟩
    · refine .inr ⟨new, hv, fun x hx hb => ?_⟩
      cases hy.leaves x hx with
      | _ => cases hb
    · exact .inl hnil
  · exact ⟨fun h => absurd h hu, fun hlength => absurd (List.getElem?_eq_some_iff.1 hold).1 (Nat.not_lt.2 hlength)⟩
  · refine ⟨fun h => absurd h hu, fun _ => .inr ⟨jobs, (List.append_nil _).symm, fun x hx hb => ?_⟩⟩
    cases hy.starts jobs hmem x hx with
    | _ => cases hb

/-- A thread that is to control a task without a condition to wait for launches it once. -/
theorem Chronicle.runsOnce (hc : Chronicle st b c s) (hb : b.scope.broken = false)
    (hat : b.At t (.control task a :: rest)) (hbefore : a.before = "") : RunsOnce st t task a rest c s := by
  rcases hc.next_moment hb hat with ⟨hat', hquiet⟩ | ⟨d₁, x, e₁, rfl, hquiet, hx, hxj, hxat, -, hxstep⟩
  · exact .comes (.inl (doneBy_eq_nil hquiet)) (callsOf_eq_nil hquiet) (hat'.enabled rfl)
  have hxcalls : x.calls st = [] := Moment.calls_eq_nil hxstep rfl
  obtain ⟨new, spawned, ⟨-, alias_, rfl⟩, hat' | ⟨hns, -⟩⟩ := hxstep.at_self hxat
  swap
  · cases hns
  rw [if_pos (by rw [hbefore]; rfl)] at hat'
  rcases (hc.after hb).next_moment hxstep.unbroken hat' with
    ⟨hat'', hquiet'⟩ | ⟨d₂, y, e₂, rfl, hquiet', hy, hyj, hyat, hyb, hystep⟩
  · exact .comes (.inr (hxj ▸ doneBy_once hquiet hx hquiet')) ((callsOf_once hquiet hx hquiet').trans hxcalls)
      (hat''.enabled rfl)
  obtain ⟨y, t', j⟩ := y
  obtain rfl : t' = t := hy
  obtain rfl : j = _ := hyj
  have hrest := (hc.after hb).after hxstep.unbroken
  refine .launches (d₁ ++ x :: d₂) ⟨y, t', _⟩ e₂ _ (by simp) (hxj ▸ doneBy_once hquiet hx hquiet')
    ((callsOf_once hquiet hx hquiet').trans hxcalls) rfl rfl rfl (hystep.runs_nothing hyb hyat) hystep.runs ?_
  rintro f₁ z f₂ rfl hbegins (⟨hz, haway⟩ | hz)
  · have hlt : z.thread < y.threads.length := by
      obtain ⟨u, hu, -⟩ := hyat
      exact hz ▸ (List.getElem?_eq_some_iff.1 hu).1
    exact hrest.stems_away hystep.unbroken (fun v hv => (hystep.launch_stems hyat hv).1 hz)
      (.inl (hlt.trans_le ((Chronicle.thread .refl hystep.next? hystep.step?).threads_le hyb))) rfl hbegins
      (hz ▸ haway)
  · refine hrest.stems_away hystep.unbroken (fun v hv => (hystep.launch_stems hyat hv).2 hz) (.inr rfl) rfl
      hbegins ?_
    intro x hx hi
    have hmem : x ∈ f₁ ++ z :: f₂ := by
      rw [List.append_cons]
      exact List.mem_append_left f₂ hx
    exact hi ▸ hrest.not_at_nil hmem

end

/-! ## The whole of it -/

section

variable {st : Settings σ} {i : ThreadId} {a : Action} {js : List Job} {b s : State σ} {c₁ c₂ : List (Moment σ)}
  {m : Moment σ}

/-- A plain action without a condition to wait for is dispatched, which launches nothing yet.  If its requirement
is not met or its command cannot be read, its thread goes on without a pause, and no other thread is started.
Otherwise, unless its duration is out of range, its texts say how its task is to be: with the duration and the
number of instances that they say, or with none where they say nothing or cannot be read.  That holds back the
launch only if what is evaluated cannot be done at all.  If it can, the task is controlled by the thread itself,
or by one that is started if the action is not waited for, and launched once. -/
theorem dispatch_decides (hb : b.scope.broken = false) (hc : Chronicle st b (c₁ ++ m :: c₂) s)
    (hi : m.thread = i) (hj : m.job = .dispatch a) (hat : m.before.At i (.dispatch a :: js))
    (hbefore : a.before = "") :
    (∀ e ∈ m.calls st, e.kind ≠ .run) ∧
    ((¬∃ sc₁ sc₂ command, st.Meets a.requires m.before.scope sc₁ ∧
        sc₁.compileCommand st.env a.command = (.ok command, sc₂)) →
      (m.after st).At i (if m.breaks st then [] else js) ∧
        (m.after st).threads.length = m.before.threads.length) ∧
    ∀ sc₁ sc₂ command, st.Meets a.requires m.before.scope sc₁ →
      sc₁.compileCommand st.env a.command = (.ok command, sc₂) →
      (∀ value, (sc₂.evaluate st.env a.duration).1 = .ok value → ¬OutOfRange value) →
      ∃ limit sc₃ instances sc₄, st.Lasts a.duration sc₂ limit sc₃ ∧
        st.Counts a.concurrency sc₃ instances sc₄ ∧ m.breaks st = sc₄.broken ∧
        if sc₄.broken then (m.after st).At i [] ∧ (m.after st).threads.length = m.before.threads.length
        else if a.wait then
          (m.after st).At i (.control (st.task a command limit instances sc₄) a ::
            .sleep st.config.timings.settle :: js) ∧
          (m.after st).threads.length = m.before.threads.length ∧
          RunsOnce st i (st.task a command limit instances sc₄) a (.sleep st.config.timings.settle :: js) c₂ s
        else
          (m.after st).At i (.sleep st.config.timings.settle :: js) ∧
          (m.after st).At m.before.threads.length [.control (st.task a command limit instances sc₄) a] ∧
          (m.after st).threads.length = m.before.threads.length + 1 ∧
          RunsOnce st m.before.threads.length (st.task a command limit instances sc₄) a [] c₂ s := by
  have hstep := hc.stepped hb
  have hrest := hc.after hb
  obtain ⟨p, t, j⟩ := m
  obtain rfl : t = i := hi
  obtain rfl : j = .dispatch a := hj
  have hbreaks : (⟨p, t, .dispatch a⟩ : Moment σ).breaks st = (st.decide a p.scope).2.broken :=
    congrArg Scope.broken (State.dispatch_scope st t a (p.pop t))
  refine ⟨fun e he hrun => ?_, fun hno => ?_, fun sc₁ sc₂ command hmeets hcommand hrange => ?_⟩
  · have hkind := Moment.kind_of_calls hstep e he
    rw [hrun] at hkind
    simp [Job.notes] at hkind
  · obtain ⟨sc, hd⟩ : ∃ sc, st.decide a p.scope = (.skip, sc) := by
      rcases decide_cases st a p.scope with ⟨sc₁, -, hd⟩ | ⟨sc₁, hmeets, ⟨fault, sc₂, -, hd⟩ | hok⟩
      · exact ⟨_, hd⟩
      · exact ⟨_, hd⟩
      · obtain ⟨command, sc₂, hcommand, -⟩ := hok
        exact absurd ⟨sc₁, sc₂, command, Settings.requirement_iff.1 hmeets, hcommand⟩ hno
    rw [hbreaks, hd]
    exact hstep.skips hat hd
  · rcases Settings.duration_says st a.duration sc₂ with
      ⟨limit, sc₃, hduration, hlasts⟩ | ⟨value, sc₃, -, hvalue, hout⟩
    swap
    · exact absurd hout (hrange value (by rw [hvalue]))
    rcases hinstances : st.concurrency a.concurrency sc₃ with ⟨instances, sc₄⟩
    have hd := Settings.decide_launch (Settings.requirement_iff.2 hmeets) hcommand hduration hinstances
    refine ⟨limit, sc₃, instances, sc₄, hlasts, Settings.concurrency_counts hinstances,
      by rw [hbreaks, hd], ?_⟩
    have hcontrols := hstep.controls hat hd
    split_ifs at hcontrols ⊢
    · exact hcontrols
    · exact ⟨hcontrols.1, hcontrols.2, hrest.runsOnce hstep.unbroken hcontrols.1 hbefore⟩
    · exact ⟨hcontrols.1, hcontrols.2.1, hcontrols.2.2,
        hrest.runsOnce hstep.unbroken hcontrols.2.1 hbefore⟩

end

/-! ## A duration and a number of instances that say nothing -/

/-- The requirement is met, and neither the duration nor the number of instances is one. -/
def lenientAction : Action :=
  { image := "busybox", requires := "1 == 1", command := "echo $\x7bloop\x7d", duration := "soon",
    concurrency := "-3" }

def lenientStart : State (Faulty (World Rehearsal)) := State.ofJobs (rehearsalScope {} {}) [.dispatch lenientAction]

def lenientMoment : Moment (Faulty (World Rehearsal)) := ⟨lenientStart, 0, .dispatch lenientAction⟩

def lenientRun : List (Moment (Faulty (World Rehearsal))) × State (Faulty (World Rehearsal)) :=
  (lenientMoment.after (rehearsed {})).chronicle (rehearsed {}) (fun _ => false) 60 0

/-- The scope after the requirement has been read, and after the command has. -/
def lenientScopes : Scope (Faulty (World Rehearsal)) × Scope (Faulty (World Rehearsal)) :=
  let met := (lenientStart.scope.evaluate (rehearsed {}).env "1 == 1").2
  (met, (met.compileCommand (rehearsed {}).env lenientAction.command).2)

/-- The task is launched once, by a thread that is started for it, without a duration and with no number of
instances in particular. -/
theorem dispatch_decides_leniently :
    (rehearsed {}).Meets lenientAction.requires lenientStart.scope lenientScopes.1 ∧
      lenientScopes.1.compileCommand (rehearsed {}).env lenientAction.command =
        (.ok ["echo", "0"], lenientScopes.2) ∧
      Chronicle (rehearsed {}) lenientStart (lenientMoment :: lenientRun.1) lenientRun.2 ∧
      ∃ limit instances sc₄ y, limit = .zero ∧ instances = 0 ∧ y ∈ lenientRun.1 ∧ y.thread = 1 ∧
        let task := (rehearsed {}).task lenientAction ["echo", "0"] limit instances sc₄
        y.calls (rehearsed {}) = [.run task (y.before.scope.launch (rehearsed {}).env task).1] := by
  have hat : lenientStart.At 0 [.dispatch lenientAction] := ⟨_, rfl, rfl⟩
  have hc : Chronicle (rehearsed {}) lenientStart (lenientMoment :: lenientRun.1) lenientRun.2 :=
    (Chronicle.thread .refl rfl rfl).trans (State.chronicle_spec _ _ _ _ _)
  have hmeets : (rehearsed {}).Meets lenientAction.requires lenientStart.scope lenientScopes.1 :=
    .holds (by decide) (eq_ok_of_toOption (by decide +kernel : _ = some "1 == 1")) (by decide +kernel)
  have hcommand : lenientScopes.1.compileCommand (rehearsed {}).env lenientAction.command =
      (.ok ["echo", "0"], lenientScopes.2) :=
    eq_ok_of_toOption (by decide +kernel)
  have hrange : ∀ value, (lenientScopes.2.evaluate (rehearsed {}).env lenientAction.duration).1 = .ok value →
      ¬OutOfRange value := by
    intro value hvalue hout
    have hsoon : (lenientScopes.2.evaluate (rehearsed {}).env "soon").1.toOption = some "soon" := by decide +kernel
    have hbad : parseDuration? "soon" = some (.error (.coercion "soon" .duration)) := by decide +kernel
    rw [show (lenientScopes.2.evaluate _ "soon").1 = .ok value from hvalue] at hsoon
    obtain rfl := Option.some.inj hsoon
    exact nomatch hbad.symm.trans (parseDuration?_eq_none_iff.2 hout)
  have hc' : Chronicle (rehearsed {}) lenientStart ([] ++ lenientMoment :: lenientRun.1) lenientRun.2 := hc
  obtain ⟨-, -, hlaunch⟩ := dispatch_decides rfl hc' rfl rfl hat rfl
  obtain ⟨limit, sc₃, instances, sc₄, hlasts, hcounts, hbreaks, hdispatched⟩ :=
    hlaunch lenientScopes.1 lenientScopes.2 ["echo", "0"] hmeets hcommand hrange
  have hunbroken : lenientMoment.breaks (rehearsed {}) = false := by decide +kernel
  rw [if_neg (by rw [← hbreaks, hunbroken]; exact Bool.false_ne_true), if_neg (by decide)] at hdispatched
  obtain ⟨-, -, -, honce⟩ := hdispatched
  have hanswered : ∀ m ∈ lenientRun.1, (match m.job with
      | .launch k => !(m.before.scope.launch (rehearsed {}).env k.task).2.broken
      | _ => true) = true := by decide +kernel
  have hlimit : ((rehearsed {}).duration "soon" lenientScopes.2).1 = some .zero := by decide +kernel
  have hinstances : ((rehearsed {}).concurrency "-3" ((rehearsed {}).duration "soon" lenientScopes.2).2).1 = 0 := by
    decide +kernel
  rw [show (rehearsed {}).duration "soon" lenientScopes.2 = _ from hlasts.duration] at hlimit hinstances
  rw [show (rehearsed {}).concurrency "-3" sc₃ = _ from hcounts.concurrency] at hinstances
  refine ⟨hmeets, hcommand, hc, limit, instances, sc₄, ?_⟩
  cases honce with
  | comes _ _ hready => exact absurd hready (by decide +kernel)
  | launches d y e k heq _ _ hy hyj htask _ hcalls =>
    have hmem : y ∈ lenientRun.1 := by simp [heq]
    have hlaunched := hanswered y hmem
    rw [hyj] at hlaunched
    simp only [htask, Bool.not_eq_true'] at hlaunched
    exact ⟨y, Option.some.inj hlimit, hinstances, hmem, hy, hcalls (List.cons_ne_nil "echo" _) hlaunched⟩

/-! ## A number of instances that cannot be done -/

/-- The number of instances is written as a range that is too long. -/
def rangedAction : Action :=
  { image := "busybox", command := "work",
    concurrency := "\x7b\x7brange 0..9223372036854775807\x7d\x7d\x7b\x7bend\x7d\x7d" }

def rangedStart : State (Faulty (World Rehearsal)) := State.ofJobs (rehearsalScope {} {}) [.dispatch rangedAction]

def rangedMoment : Moment (Faulty (World Rehearsal)) := ⟨rangedStart, 0, .dispatch rangedAction⟩

/-- Nothing is required, the command can be read and no duration is given, but the number of instances breaks off
the thread, and nothing is launched. -/
theorem ranged_instances_launch_nothing :
    rangedAction.before = "" ∧ rangedAction.duration = "" ∧
      (rehearsed {}).Meets rangedAction.requires rangedStart.scope rangedStart.scope ∧
      (rangedStart.scope.compileCommand (rehearsed {}).env rangedAction.command).1.toOption = some ["work"] ∧
      Chronicle (rehearsed {}) rangedStart [rangedMoment] (rangedMoment.after (rehearsed {})) ∧
      rangedMoment.calls (rehearsed {}) = [] ∧
      (rangedMoment.after (rehearsed {})).threads.all Thread.finished = true := by
  refine ⟨rfl, rfl, .unsaid rfl, by decide +kernel, .thread .refl rfl rfl, ?_, by decide +kernel⟩
  exact List.length_eq_zero_iff.1 (by decide +kernel)

end Workload.Run
