import Workload.Proofs.Counter

/-!
# The loop variable

An action that is dispatched outside of nested tests is compiled with the number of its pass for `loop`
as long as no other thread has set the counter to another number in the course of the pass
(`loop_of_pass`).  Another thread sets it only in a collection of diagnostics (`quiet_of_runs`); one that
began in an earlier pass sets it back (`loop_of_pass_late`).
-/

namespace Workload.Run

variable {σ : Type}

/-- Whether a failed task leads to a collection of diagnostics. -/
def Settings.collects (st : Settings σ) : Bool :=
  st.escalates && st.config.collectOnError && st.config.collect.isSome

/-- The texts that the compilation of an action evaluates, with the scopes in which it does. -/
def Settings.readings (st : Settings σ) (a : Action) (s : Scope σ) : List (String × Scope σ) :=
  let s₁ := (st.requirement a.requires s).2
  let s₂ := (s₁.compileCommand st.env a.command).2
  let s₃ := (st.duration a.duration s₂).2
  [(a.requires, s), (a.command, s₁), (a.duration, s₂), (a.concurrency, s₃)]

namespace State

/-- Whether the first thread is about to dispatch an action, and that not in a nested test. -/
def dispatches (a : Action) (s : State σ) : Bool :=
  match s.threads[0]? with
  | some t =>
    match t.jobs with
    | .dispatch b :: js => b = a && js.all fun j => !j.nests
    | _ => false
  | none => false

/-- The pass in which the first thread is. -/
def pass? (s : State σ) : Option Nat :=
  ((s.threads[0]?).bind fun t => frame? t.jobs).map Prod.snd

end State

/-! ## Runs without collections -/

/-- A job that has nothing to do with passes. -/
structure Job.Quiet (j : Job) : Prop where
  sets : j.sets? = none
  renews : j.renews = false

section Quiet

variable {st : Settings σ} {actions : List Action} {i : ThreadId} {j : Job} {s s' : State σ}
  {new js : List Job} {spawned : List (List Job)}

/-- Without a collection the failure of a task leaves nothing but the reaction to it. -/
theorem failed_threads (hc : st.collects = false) (describe : String) (fault : RuntimeFault) :
    ∃ left, (left = [] ∨ left = [.stopOnError]) ∧
      (s.failed st i describe fault).threads = (s.push i left).threads := by
  unfold Settings.collects at hc
  unfold State.failed
  simp only []
  split_ifs with he hcol
  · refine ⟨[.stopOnError], .inr rfl, ?_⟩
    unfold State.collect
    rw [he, hcol, Bool.true_and, Bool.true_and, Option.isSome_eq_false_iff,
      Option.isNone_iff_eq_none] at hc
    rw [hc]
    rfl
  · exact ⟨[.stopOnError], .inr rfl, rfl⟩
  · exact ⟨[], .inl rfl, (State.push_nil i s).symm⟩

theorem quiet_failed {describe : String} {fault : RuntimeFault} {t u : Thread}
    (hc : st.collects = false) (hb : s.scope.broken = false)
    (h : Stepped st i (.failed describe fault) s s') (ht : s.threads[i]? = some t)
    (hj : t.jobs = .failed describe fault :: js) (hu : s'.threads[i]? = some u) :
    ∃ left, (left = [] ∨ left = [.stopOnError]) ∧ u.jobs = left ++ js := by
  obtain ⟨left, hleft, hth⟩ := failed_threads (s := s.pop i) (i := i) hc describe fault
  have hs' : s' = (s.pop i).failed st i describe fault := h.of_steady rfl hb
  rw [hs', hth] at hu
  have hpop := State.pop_getElem? ht
  rw [hj, List.tail_cons] at hpop
  unfold State.push at hu
  rw [List.getElem?_modify, hpop] at hu
  simp only [if_true, Option.map_eq_map, Option.map_some, Option.some.injEq] at hu
  exact ⟨left, hleft, by rw [← hu]⟩

theorem quiet_new (hq : j.Quiet) (hf : ∀ describe fault, j ≠ .failed describe fault)
    (hy : j.Yields st s s' new spawned) : ∀ x ∈ new, x.Quiet := by
  have hp : ∀ inv limit pass, j ≠ .passes inv limit pass := by
    rintro inv limit pass rfl
    cases hq.renews
  have hw : ∀ pass last rest, j ≠ .walk pass last rest := by
    rintro pass last rest rfl
    cases hq.sets
  have ho : ∀ calls inv, j ≠ .opening calls inv := by
    rintro calls inv rfl
    cases hq.renews
  refine fun x hx => ⟨sets?_new hy hp hw hf x hx, ?_⟩
  cases hy.leaves x hx with
  | nextCall | firstPass => exact absurd rfl (ho _ _)
  | nextPass | emit => exact absurd rfl (hp _ _ _)
  | nested => exact absurd rfl (hw _ _ _)
  | _ => rfl

theorem quiet_spawned (hy : j.Yields st s s' new spawned) : ∀ l ∈ spawned, ∀ x ∈ l, x.Quiet := by
  intro l hl x hx
  cases hy.starts l hl x hx with
  | _ => exact ⟨rfl, rfl⟩

/-- The threads but the first have nothing to do with passes. -/
def OthersQuiet (s : State σ) : Prop :=
  ∀ (k : ThreadId) t, k ≠ 0 → s.threads[k]? = some t → ∀ j ∈ t.jobs, j.Quiet

theorem quiet_step (hc : st.collects = false) (hb : s.scope.broken = false)
    (h : Stepped st i j s s') (hq : OthersQuiet s) : OthersQuiet s' := by
  intro k u hk hu
  obtain ⟨t, js, new, spawned, ht, hj, hy, hcases⟩ := h.thread_cases
  rcases hcases k u hu with ⟨rfl, ⟨hjobs, -⟩ | ⟨hjobs, -⟩⟩ | ⟨-, hold⟩ | ⟨-, -, l, hl, rfl⟩
  · have hjs := hj ▸ hq k t hk ht
    have hrest : ∀ x ∈ js, x.Quiet := fun x hx => hjs x (List.mem_cons_of_mem j hx)
    by_cases hf : ∃ describe fault, j = .failed describe fault
    · obtain ⟨describe, fault, rfl⟩ := hf
      obtain ⟨left, hleft, hu'⟩ := quiet_failed hc hb h ht hj hu
      rw [hu']
      intro x hx
      rcases List.mem_append.1 hx with hx | hx
      · rcases hleft with rfl | rfl
        · cases hx
        · obtain rfl := List.mem_singleton.1 hx
          exact ⟨rfl, rfl⟩
      · exact hrest x hx
    · rw [hjobs]
      intro x hx
      rcases List.mem_append.1 hx with hx | hx
      · exact quiet_new (hjs j List.mem_cons_self) (fun describe fault h => hf ⟨describe, fault, h⟩)
          hy x hx
      · exact hrest x hx
  · rw [hjobs]
    simp
  · exact hq k u hk hold
  · exact quiet_spawned hy l hl

/-- Without collections no thread but the first sets the counter. -/
theorem quiet_of_runs {sc : Scope σ} {report : Report} {h : List Deed} (hc : st.collects = false)
    (hb : sc.broken = false) (hr : Runs st (start st sc actions report) h s) :
    ∀ d ∈ h, d.thread ≠ 0 → ∀ n, d.job ≠ .setLoops n := by
  have hP : s.scope.broken = false ∧ OthersQuiet s ∧ ∀ d ∈ h, d.thread ≠ 0 → d.job.Quiet := by
    refine hr.invariant (P := fun h s => s.scope.broken = false ∧ OthersQuiet s ∧
      ∀ d ∈ h, d.thread ≠ 0 → d.job.Quiet) hb ⟨hb, fun k t hk ht => ?_, by simp⟩ ?_
      fun _ _ _ hP _ _ => hP
    · cases k with
      | zero => exact absurd rfl hk
      | succ k => cases ht
    · rintro h i j noted s s' ⟨hb, hq, hh⟩ hs -
      refine ⟨hs.unbroken, quiet_step hc hb hs hq, fun d hd hd0 => ?_⟩
      rcases List.mem_append.1 hd with hd | hd
      · exact hh d hd hd0
      · obtain rfl := List.mem_singleton.1 hd
        obtain ⟨t, js, -, -, -, ht, hj, -⟩ := hs.moves
        exact hq i t hd0 ht j (hj ▸ List.mem_cons_self)
  intro d hd hd0 n hj
  have := (hP.2.2 d hd hd0).sets
  rw [hj] at this
  cases this

end Quiet

/-! ## Dispatches -/

section Dispatch

variable {st : Settings σ} {actions : List Action} {h : List Deed} {s : State σ}

theorem readings_loops (a : Action) (sc : Scope σ) :
    ∀ r ∈ st.readings a sc, r.2.loops = sc.loops := by
  have h₁ := State.rests_requirement st a.requires sc
  have h₂ := h₁.trans (Scope.rests_compileCommand st.env a.command _)
  have h₃ := h₂.trans (State.rests_duration st a.duration _)
  unfold Settings.readings
  simp only [List.mem_cons, List.not_mem_nil, or_false]
  rintro r (rfl | rfl | rfl | rfl)
  · rfl
  · exact h₁.loops
  · exact h₂.loops
  · exact h₃.loops

theorem jobs_of_dispatches {a : Action} (hd : s.dispatches a = true) : ∃ t js,
    s.threads[0]? = some t ∧ t.jobs = .dispatch a :: js ∧ ∀ x ∈ js, x.nests = false := by
  unfold State.dispatches at hd
  split at hd
  · rename_i t ht
    split at hd
    · rename_i b js hj
      rw [Bool.and_eq_true, decide_eq_true_eq, List.all_eq_true] at hd
      obtain ⟨rfl, hn⟩ := hd
      exact ⟨t, js, ht, hj, fun x hx => by simpa using hn x hx⟩
    · cases hd
  · cases hd

/-- An action that is dispatched outside of nested tests belongs to a pass of the run as a whole. -/
theorem frame_of_dispatch {a : Action} {js : List Job} (hc : Course st actions (.dispatch a :: js))
    (hn : ∀ x ∈ js, x.nests = false) :
    ∃ pass, .passes (.whole st actions) (lastPass st) (pass + 1) ∈ js ∧
      frame? (.dispatch a :: js) = some (.whole st actions, pass) := by
  generalize hjobs : Job.dispatch a :: js = jobs at hc
  cases hc with
  | opening calls => cases hjobs
  | first => cases hjobs
  | within pass inner hlimit hinner =>
    cases inner with
    | nil => cases hjobs
    | cons k inner =>
      obtain ⟨rfl, rfl⟩ := List.cons.inj hjobs
      refine ⟨pass, List.mem_append_right _ List.mem_cons_self, ?_⟩
      refine frame?_append fun x hx => ?_
      cases x with
      | passes inv limit n =>
        rcases List.mem_cons.1 hx with hx' | hx'
        · cases hx'
        · have hnests : inv.nested = false := hn _ (List.mem_append_left _ hx')
          rw [(hinner _ hx).1] at hnests
          cases hnests
      | _ => rfl
  | closing jobs hsuf =>
    subst hjobs
    cases closes_of_mem _ (hsuf.subset List.mem_cons_self)

/-- An action that is dispatched outside of nested tests is compiled in the pass that the first thread
began last, unless another thread has set the counter to another number since, and without collections
none has. -/
theorem loop_of_pass {sc : Scope σ} {report : Report} (hb : sc.broken = false)
    (hr : Runs st (start st sc actions report) h s) {a : Action} (hd : s.dispatches a = true) :
    ∃ pass before noted after, s.pass? = some pass ∧
      h = before ++ ⟨0, .passes (.whole st actions) (lastPass st) pass, noted⟩ :: after ∧
      SamePass after ∧
      (Undisturbed pass after → s.scope.loops = pass ∧
        ∀ r ∈ st.readings a s.scope, r.2.evaluate st.env r.1 = r.2.evaluateIn st.env pass r.1) ∧
      (st.collects = false → Undisturbed pass after) := by
  obtain ⟨t, js, ht, hj, hn⟩ := jobs_of_dispatches hd
  have hc := onCount_of_runs hb hr
  have hcourse := hj ▸ hc.main t ht
  obtain ⟨pass, hmem, hframe⟩ := frame_of_dispatch hcourse hn
  obtain ⟨before, noted, after, hsplit, hsame, hcounts⟩ :=
    hc.goesOn t pass ht (by rw [hj]; exact List.mem_cons_of_mem _ hmem)
  have hpass : s.pass? = some pass := by
    unfold State.pass?
    rw [ht, Option.bind_some, hj, hframe]
    rfl
  refine ⟨pass, before, noted, after, hpass, hsplit, hsame, fun hun => ?_,
    fun hcol d hd hd0 n hset => ?_⟩
  · have hloops := (hcounts hun).right _ js hj rfl (.whole st actions) pass (hj ▸ hframe) rfl
    refine ⟨hloops, fun r hmemr => ?_⟩
    rw [Scope.evaluate_eq_evaluateIn, readings_loops a s.scope r hmemr, hloops]
  · have hd' : d ∈ h := by
      rw [hsplit]
      exact List.mem_append_right _ (List.mem_cons_of_mem _ hd)
    exact absurd hset (quiet_of_runs hcol hb hr d hd' hd0 n)

end Dispatch

/-- Notes the number of its pass. -/
def countedAction : Action := { image := "busybox", command := "echo $\x7bloop\x7d", wait := true }

/-- Two passes after which nothing is cleared. -/
def countedConfig : RunConfig :=
  { repeats := 1, skipSetup := true, skipTeardown := true, skipCleanup := true
    timings := ⟨13, 7, 11, 103⟩ }

theorem loop_of_pass_countedConfig :
    ∃ s, Reaches (rehearsed countedConfig)
        (start (rehearsed countedConfig) (rehearsalScope {} {}) [countedAction] {}) s ∧
      s.dispatches countedAction = true ∧ s.pass? = some 1 ∧
      ∀ r ∈ (rehearsed countedConfig).readings countedAction s.scope,
        r.2.evaluate (rehearsed countedConfig).env r.1 =
          r.2.evaluateIn (rehearsed countedConfig).env 1 r.1 := by
  have hd : (rehearse countedConfig {} {} [countedAction] 18).dispatches countedAction = true := by
    decide +kernel
  obtain ⟨h, hr⟩ := runs_of_reaches (rehearse_reaches countedConfig {} {} [countedAction] 18) rfl
  obtain ⟨pass, before, noted, after, hpass, -, -, hcounted, hun⟩ := loop_of_pass rfl hr hd
  obtain rfl : pass = 1 := Option.some.inj (hpass.symm.trans (by decide +kernel))
  exact ⟨_, hr.reaches, hd, hpass, (hcounted (hun rfl)).2⟩

/-! ## A late collection -/

/-- A document with a template that starts a container again, and one without actions that is referred to
after it. -/
def probeFiles : Files :=
  ⟨[(["t.yml"], .text
    "- name: collect\n  actions:\n  - image: busybox\n    command: probe\n    repeat: 1\n  - template: rest\n- name: rest\n")]⟩

/-- Two passes in which a failed task makes a template collect diagnostics. -/
def probedConfig : RunConfig :=
  { repeats := 1, skipSetup := true, skipTeardown := true, skipCleanup := true
    collectOnError := true, collect := some ⟨"t.yml", "collect"⟩, timings := ⟨13, 7, 11, 103⟩ }

/-- The second container fails, and the third one has to be started again. -/
def probedScope : Scope (Faulty (World Rehearsal)) :=
  { world :=
      { world :=
          { containers :=
              { signals := [none, some (.command "failed")]
                statuses := [("mock-3", [.ok .running, .ok .exited])] }
            files := probeFiles } } }

def probedActions : List Action :=
  [{ image := "busybox", command := "work", wait := true }, countedAction]

/-- What a schedule makes of that run in `steps` steps. -/
def probedRun (steps : Nat) : State (Faulty (World Rehearsal)) :=
  (start (rehearsed probedConfig) probedScope probedActions {}).advance (rehearsed probedConfig)
    maxSteps (fun _ => false) steps 0

theorem probedRun_reaches (steps : Nat) :
    Reaches (rehearsed probedConfig) (start (rehearsed probedConfig) probedScope probedActions {})
      (probedRun steps) :=
  State.advance_reaches _ _ _ _ _ _

/-- A collection that goes on into the next pass sets the counter back to the pass in which it began. -/
theorem loop_of_pass_late :
    ∃ s, Reaches (rehearsed probedConfig)
        (start (rehearsed probedConfig) probedScope probedActions {}) s ∧
      s.dispatches countedAction = true ∧ s.pass? = some 1 ∧
      (s.scope.evaluate (rehearsed probedConfig).env countedAction.command).1.toOption =
        some "echo 0" :=
  ⟨probedRun 65, probedRun_reaches 65, by decide +kernel, by decide +kernel, by decide +kernel⟩

end Workload.Run
