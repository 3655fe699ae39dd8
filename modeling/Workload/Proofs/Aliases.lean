import Workload.Proofs.Origins

/-!
# The record of launches

The aliases are the record of the launches that came off: under each one stands the handle of the launch
that was completed last under it, and nothing else changes the record (`aliases_record_launches`).  A launch
is completed when it is handed over, or when the containers of a task that is waited for are done.
-/

namespace Workload.Run

variable {σ : Type}

/-- The alias and the handle of a launch with the given outcome, unless it is completed later. -/
def Ticket.completes? (k : Ticket) (r : Except RuntimeFault Launch × Scope σ) : Option (String × String) :=
  if k.task.command.isEmpty || r.2.broken then none
  else
    match r.1 with
    | .ok l => if l.signals.isSome || k.task.isAsync then some (k.alias_, l.handle) else none
    | .error _ => none

/-- The alias and the handle of the launch that is completed at a moment. -/
def Moment.completes? (env : Environment σ) (m : Moment σ) : Option (String × String) :=
  match m.job with
  | .launch k => k.completes? (m.before.scope.launch env k.task)
  | .launched k _ l _ => some (k.alias_, l.handle)
  | _ => none

/-- The launches that were completed, in this order. -/
def completions (env : Environment σ) (c : List (Moment σ)) : List (String × String) :=
  c.filterMap (Moment.completes? env)

/-- The handle of the latest one of some launches under an alias. -/
def latest? (launches : List (String × String)) (alias_ : String) : Option String :=
  (launches.reverse.find? fun e => e.1 = alias_).map Prod.snd

/-! ## What a launch records -/

namespace State

variable (i : ThreadId) (s : State σ)

theorem launched_aliases (k : Ticket) (watcher : Option (ThreadId × PromiseId)) (l : Launch)
    (c : ChannelId) :
    (s.launched i k watcher l c).scope.aliases = s.scope.aliases.put k.alias_ l.handle := by
  unfold launched
  simp only []
  split_ifs
  all_goals
    refine (rests_note _ (.info k.task.describe)).scope.aliases.trans ?_
    cases watcher <;> rfl

theorem created_aliases (k : Ticket) (watcher : Option (ThreadId × PromiseId)) (l : Launch) :
    (s.created i k watcher l).scope.aliases =
      if l.signals.isSome || k.task.isAsync then s.scope.aliases.put k.alias_ l.handle
      else s.scope.aliases := by
  unfold created
  simp only []
  cases hsignals : l.signals with
  | some signals => exact launched_aliases i _ k watcher l _
  | none =>
    have hobserve := observe_scope
      (s.openChannel ⟨[], l.containers.length, k.task.instances, false⟩) k s.channels.length l.containers
    simp only [Option.isSome_none, Bool.false_or]
    split_ifs
    · rw [launched_aliases, hobserve]
      rfl
    · exact congrArg Scope.aliases hobserve

theorem refused_aliases (k : Ticket) (watcher : Option (ThreadId × PromiseId)) (fault : RuntimeFault) :
    (s.refused i k watcher fault).scope.aliases = s.scope.aliases := by
  have h := (rests_note s (.warn "launch failed")).scope.aliases
  unfold refused
  cases watcher <;> exact h

/-- A launch is recorded as soon as it is completed. -/
theorem launch_aliases (st : Settings σ) (k : Ticket) :
    (s.launch st i k).scope.aliases =
      (k.completes? (s.scope.launch st.env k.task)).elim s.scope.aliases
        fun e => s.scope.aliases.put e.1 e.2 := by
  unfold launch Ticket.completes?
  by_cases hempty : k.task.command.isEmpty = true
  · simp only [hempty, if_true, Bool.true_or, Option.elim_none]
  obtain ⟨-, -, -, hscope, -⟩ := spawnWatcher_moves i s k
  rcases hw : s.spawnWatcher k with ⟨watcher, s₁⟩
  rw [hw] at hscope
  have hrests : s.scope.Rests (s.scope.launch st.env k.task).2 := Scope.rests_call _ _ _
  rcases hr : s.scope.launch st.env k.task with ⟨r, sc⟩
  rw [hr] at hrests
  have hwithin : s₁.within (Scope.launch st.env k.task) = (r, { s₁ with scope := sc }) := by
    unfold within
    rw [show s₁.scope = s.scope from hscope, hr]
  rw [if_neg hempty]
  simp only [hwithin, hempty, Bool.false_or]
  split_ifs with hbroken
  · rw [forsake_scope]
    exact hrests.aliases
  · cases r with
    | error fault => exact (refused_aliases i _ k watcher fault).trans hrests.aliases
    | ok l =>
      rw [created_aliases, show sc.aliases = s.scope.aliases from hrests.aliases]
      simp only []
      split_ifs <;> rfl

end State

section

variable {st : Settings σ} {s₀ s s' : State σ} {i : ThreadId} {j : Job} {c : List (Moment σ)}

/-- A step changes the record by the launch that is completed, and else not at all. -/
theorem aliases_step (h : Stepped st i j s s') (hb : s.scope.broken = false) :
    s'.scope.aliases =
      (Moment.completes? st.env ⟨s, i, j⟩).elim s.scope.aliases fun e => s.scope.aliases.put e.1 e.2 := by
  by_cases hlaunch : ∃ k, j = .launch k
  · obtain ⟨k, rfl⟩ := hlaunch
    rw [h.result]
    refine Eq.trans ?_ (State.launch_aliases i (s.pop i) st k)
    unfold State.endBroken
    split_ifs <;> rfl
  by_cases hlaunched : ∃ k w l ch, j = .launched k w l ch
  · obtain ⟨k, w, l, ch, rfl⟩ := hlaunched
    rw [h.of_steady rfl hb]
    exact State.launched_aliases i (s.pop i) k w l ch
  have hnone : Moment.completes? st.env ⟨s, i, j⟩ = none := by
    cases j with
    | launch k => exact absurd ⟨k, rfl⟩ hlaunch
    | launched k w l ch => exact absurd ⟨k, w, l, ch, rfl⟩ hlaunched
    | _ => rfl
  rw [hnone]
  exact h.keeps.aliases (fun k hj => hlaunch ⟨k, hj⟩) fun k w l ch hj => hlaunched ⟨k, w, l, ch, hj⟩

/-- The launches that were completed are recorded one after the other. -/
theorem aliases_of_chronicle (hb : s₀.scope.broken = false) (hc : Chronicle st s₀ c s) :
    s.scope.aliases =
      (completions st.env c).foldl (fun aliases e => aliases.put e.1 e.2) s₀.scope.aliases := by
  refine hc.invariant (P := fun c s => s.scope.aliases =
    (completions st.env c).foldl (fun aliases e => aliases.put e.1 e.2) s₀.scope.aliases) hb rfl ?_
    fun _ _ _ hs _ _ => hs
  intro c i j s s' hs h hb
  rw [aliases_step h hb, hs]
  unfold completions
  rw [List.filterMap_append, List.foldl_append]
  cases hcompletes : Moment.completes? st.env ⟨s, i, j⟩ with
  | none => simp [hcompletes]
  | some e => simp [hcompletes]

end

/-! ## Who launched -/

/-- What a launch that was completed under an alias is, among the moments so far: its task was controlled for an
action, by the thread that then launched it. -/
structure Completion (st : Settings σ) (c : List (Moment σ)) (i : ThreadId) (alias_ handle : String)
    (k : Ticket) (a : Action) : Prop where
  launched : ∃ m ∈ c, m.thread = i ∧ m.job = .launch k ∧
    ∃ l, (m.before.scope.launch st.env k.task).1 = .ok l ∧ l.handle = handle
  /-- The alias is that of the action, or one that is drawn if it has none. -/
  controlled : k.alias_ = alias_ ∧ ∃ m ∈ c, m.thread = i ∧ m.job = .control k.task a ∧
    alias_ = if a.alias_.isEmpty then st.env.drawn m.before.draws.length else a.alias_
  dispatched : ∃ m ∈ c, m.job = .dispatch a
  /-- The action is one of a list that was entered, and has its alias from there. -/
  listed : ∃ m ∈ c, ∃ actions, m.Enters st actions ∧
    ∃ a₀ ∈ actions, a₀.directive = .plain ∧ a.alias_ = a₀.alias_

section

variable {st : Settings σ} {s : State σ} {c : List (Moment σ)} {m : Moment σ} {sc : Scope σ}
  {actions : List Action} {report : Report}

/-- What was done stems from what was done before. -/
theorem stemsFrom_of_mem (hb : sc.broken = false)
    (hc : Chronicle st (start st sc actions report) c s) (hm : m ∈ c) :
    m.job.StemsFrom st c m.thread := by
  obtain ⟨before, later, rfl⟩ := List.append_of_mem hm
  obtain ⟨hbefore, -⟩ := hc.before
  obtain ⟨t, js, -, -, -, ht, hj, -⟩ := (hc.stepped hb).moves
  have hstems := stems_of_chronicle hb hbefore m.thread t ht m.job (hj ▸ List.mem_cons_self)
  exact hstems.mono (List.subset_append_left before _)

theorem completion_of_launch (hb : sc.broken = false)
    (hc : Chronicle st (start st sc actions report) c s) {k : Ticket} {l : Launch} (hm : m ∈ c)
    (hj : m.job = .launch k) (hl : (m.before.scope.launch st.env k.task).1 = .ok l) :
    ∃ a, Completion st c m.thread k.alias_ l.handle k a := by
  have hlaunch := stemsFrom_of_mem hb hc hm
  rw [hj] at hlaunch
  obtain ⟨m₁, hm₁, hthread, a, hj₁, halias⟩ := hlaunch
  have hcontrol := stemsFrom_of_mem hb hc hm₁
  rw [hj₁] at hcontrol
  obtain ⟨m₂, hm₂, hj₂⟩ := hcontrol
  have hdispatch := stemsFrom_of_mem hb hc hm₂
  rw [hj₂] at hdispatch
  obtain ⟨m₃, hm₃, pass, last, a₀, rest, hj₃, hplain, rfl⟩ := hdispatch
  have hwalk := stemsFrom_of_mem hb hc hm₃
  rw [hj₃] at hwalk
  obtain ⟨m₄, hm₄, front, henters⟩ := hwalk
  exact ⟨_, ⟨m, hm, rfl, hj, l, hl, rfl⟩, ⟨rfl, m₁, hm₁, hthread, hj₁, halias⟩, ⟨m₂, hm₂, hj₂⟩,
    m₄, hm₄, _, henters, a₀, by simp, hplain, Action.alias_carryForward last a₀⟩

theorem completion_of_completes (hb : sc.broken = false)
    (hc : Chronicle st (start st sc actions report) c s) (hm : m ∈ c) {alias_ handle : String}
    (hcompletes : m.completes? st.env = some (alias_, handle)) :
    ∃ k a, Completion st c m.thread alias_ handle k a := by
  unfold Moment.completes? at hcompletes
  split at hcompletes
  · rename_i k hj
    unfold Ticket.completes? at hcompletes
    split_ifs at hcompletes
    split at hcompletes
    · rename_i l hl
      split_ifs at hcompletes
      obtain ⟨rfl, rfl⟩ := Prod.mk.inj (Option.some.inj hcompletes)
      exact ⟨k, completion_of_launch hb hc hm hj hl⟩
    · cases hcompletes
  · rename_i k watcher l ch hj
    obtain ⟨rfl, rfl⟩ := Prod.mk.inj (Option.some.inj hcompletes)
    have hlaunched := stemsFrom_of_mem hb hc hm
    rw [hj] at hlaunched
    obtain ⟨m', hm', hthread, hj', hl⟩ := hlaunched
    exact ⟨k, hthread ▸ completion_of_launch hb hc hm' hj' hl⟩
  · cases hcompletes

/-- Under every alias stands the handle of the launch that was completed last under it, or what stood there
at the start.  A launch is completed under the alias of the action that its task is controlled for, which an
action that a template says nothing about has from the reference, or under a drawn one; and whatever else is
done leaves the record as it is. -/
theorem aliases_record_launches (hb : sc.broken = false)
    (hc : Chronicle st (start st sc actions report) c s) :
    (∀ alias_, s.scope.aliases.get? alias_ =
      (latest? (completions st.env c) alias_).or (sc.aliases.get? alias_)) ∧
    (∀ before m later, c = before ++ m :: later →
      m.before.step? st m.thread = some (m.after st) ∧
      match m.completes? st.env with
      | some (alias_, handle) =>
        (m.after st).scope.aliases = m.before.scope.aliases.put alias_ handle ∧
          ∃ k a, Completion st (before ++ [m]) m.thread alias_ handle k a
      | none => (m.after st).scope.aliases = m.before.scope.aliases) ∧
    ∀ (a : Action) (body : List Action) (r : Except ExpressionFault String), ∀ b ∈ a.expansion body r,
      ∃ b₀ ∈ body, b.alias_ =
        orText (Template.substitute b₀.alias_ (Template.splitArgs (r.toOption.getD a.args))) a.alias_ := by
  refine ⟨fun alias_ => ?_, fun before m later heq => ?_, fun a body r b => Action.alias_expansion⟩
  · rw [aliases_of_chronicle hb hc]
    exact Named.get?_foldl_put _ _ alias_
  · subst heq
    obtain ⟨hbefore, hnext⟩ := hc.before
    have hstep := hc.stepped hb
    refine ⟨hstep.step?, ?_⟩
    have haliases := aliases_step hstep (hbefore.unbroken hb)
    cases hcompletes : m.completes? st.env with
    | none =>
      rw [hcompletes] at haliases
      exact haliases
    | some e =>
      rw [hcompletes] at haliases
      exact ⟨haliases, completion_of_completes hb (hbefore.thread hnext hstep.step?)
        (mem_concat_moment before m) hcompletes⟩

end

/-! ## Three launches -/

/-- A template that says nothing about an alias. -/
def serverFiles : Files :=
  ⟨[(["t.yml"], .text "- name: server\n  actions:\n  - image: busybox\n    command: serve\n")]⟩

/-- A reference with an alias, an action with the same one, and an action without one. -/
def threeLaunches : List Action :=
  [{ include_ := "t.yml" }, { template := "server", alias_ := "db", wait := true },
    { image := "busybox", command := "two", alias_ := "db", wait := true },
    { image := "busybox", command := "three", wait := true }]

def launchingConfig : RunConfig :=
  { skipSetup := true, skipTeardown := true, skipCleanup := true, timings := ⟨13, 7, 11, 103⟩ }

/-- Handles are recorded under two aliases before the launches. -/
def launchingScope : Scope (Faulty (World Rehearsal)) :=
  { world := { world := { containers := {}, files := serverFiles } }
    aliases := [("db", "before"), ("web", "untouched")] }

def launchingRun : List (Moment (Faulty (World Rehearsal))) × State (Faulty (World Rehearsal)) :=
  (start (rehearsed launchingConfig) launchingScope threeLaunches {}).chronicle
    (rehearsed launchingConfig) (fun _ => false) 60 0

/-- The second launch takes the place of the first one, and the third is recorded under a drawn alias. -/
theorem aliases_record_three_launches :
    ∃ c s, Chronicle (rehearsed launchingConfig)
        (start (rehearsed launchingConfig) launchingScope threeLaunches {}) c s ∧
      completions (rehearsed launchingConfig).env c =
        [("db", "mock-1"), ("db", "mock-2"), (Drawn.aliasName 0, "mock-3")] ∧
      s.scope.aliases.get? "db" = some "mock-2" ∧
      s.scope.aliases.get? (Drawn.aliasName 0) = some "mock-3" ∧
      s.scope.aliases.get? "web" = some "untouched" := by
  have hc : Chronicle (rehearsed launchingConfig)
      (start (rehearsed launchingConfig) launchingScope threeLaunches {}) launchingRun.1
      launchingRun.2 := State.chronicle_spec _ _ _ _ _
  have hlaunches : completions (rehearsed launchingConfig).env launchingRun.1 =
      [("db", "mock-1"), ("db", "mock-2"), (Drawn.aliasName 0, "mock-3")] := by
    decide +kernel
  obtain ⟨hrecord, -⟩ := aliases_record_launches rfl hc
  refine ⟨_, _, hc, hlaunches, ?_, ?_, ?_⟩
  all_goals
    rw [hrecord, hlaunches]
    decide +kernel

end Workload.Run
