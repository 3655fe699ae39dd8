import Workload.Proofs.Steps

/-!
# What a job leaves alone

Calls and evaluations leave the aliases, the counter of the passes and the topology of a scope as they
are (`Scope.Rests`).  So only a job made for it changes one of these: `Job.perform_keeps` names it, and
that the templates and the names drawn change with no other job than the one that needs them.
-/

namespace Workload

namespace Scope

variable {σ ε α : Type}

/-- `s'` has the aliases, the counter and the topology of `s`. -/
structure Rests (s s' : Scope σ) : Prop where
  aliases : s'.aliases = s.aliases
  loops : s'.loops = s.loops
  topology : s'.topology = s.topology

namespace Rests

variable {s s' s'' : Scope σ}

theorem refl (s : Scope σ) : Rests s s := ⟨rfl, rfl, rfl⟩

theorem trans (h : Rests s s') (h' : Rests s' s'') : Rests s s'' :=
  ⟨h'.aliases.trans h.aliases, h'.loops.trans h.loops, h'.topology.trans h.topology⟩

end Rests

theorem rests_note (line : LogLine) (s : Scope σ) : Rests s (s.note line) := by
  unfold note
  split_ifs <;> exact ⟨rfl, rfl, rfl⟩

theorem rests_record (e : Event) (s : Scope σ) : Rests s (s.record e) := by
  unfold record
  split_ifs <;> exact ⟨rfl, rfl, rfl⟩

theorem rests_ask (c : Call σ ε α) (s : Scope σ) : Rests s (s.ask c).2 := ⟨rfl, rfl, rfl⟩

theorem rests_call (c : Call σ ε α) (event : Except ε α → Event) (s : Scope σ) :
    Rests s (s.call c event).2 :=
  (rests_ask c s).trans (rests_record _ _)

variable (env : Environment σ)

theorem rests_lookupCall (function argument : String) (s : Scope σ) :
    Rests s (s.lookupCall env function argument).2 := by
  unfold lookupCall
  split
  · exact rests_call _ _ s
  · exact rests_ask _ s
  · exact rests_ask _ s
  · exact .refl s
  · exact .refl s

theorem rests_lookup (name : String) (s : Scope σ) : Rests s (lookup env name s).2 := by
  unfold lookup
  split_ifs
  · exact .refl s
  · split
    · exact .refl s
    · exact ⟨rfl, rfl, rfl⟩
  · split
    · exact rests_lookupCall env _ _ s
    · exact .refl s

theorem rests_evaluate (text : String) (s : Scope σ) : Rests s (s.evaluate env text).2 := by
  have h := Expression.evaluate_rel (R := Rests) Rests.refl (fun h h' => h.trans h')
    (rests_lookup env) text s
  unfold evaluate
  split
  · rename_i s' hs
    rw [hs] at h
    exact h.trans ⟨rfl, rfl, rfl⟩
  · exact h

theorem rests_compileCommand (text : String) (s : Scope σ) :
    Rests s (s.compileCommand env text).2 :=
  rests_evaluate env text s

theorem rests_condition (text : String) (s : Scope σ) : Rests s (s.condition env text).2 :=
  rests_evaluate env text s

theorem rests_check (text : String) (s : Scope σ) : Rests s (s.check env text).2 := by
  have h := rests_condition env text s
  unfold check
  rcases hc : s.condition env text with ⟨_ | b, s'⟩
  · rw [hc] at h
    exact h.trans (rests_note _ _)
  · rw [hc] at h
    exact h

theorem rests_hook (name : HookName) (s : Scope σ) : Rests s (s.hook env name).2 := by
  have h : Rests s (s.carryOut env name (env.hooks name)).2 := by
    unfold carryOut
    split
    · exact .refl s
    · exact rests_ask _ s
    · rename_i text execute _
      have he := rests_evaluate env text s
      rcases hv : s.evaluate env text with ⟨_ | command, s'⟩
      · rw [hv] at he
        exact he
      · rw [hv] at he
        exact he.trans (rests_ask _ _)
  exact h.trans (rests_record _ _)

end Scope

namespace Run

variable {σ α : Type}

/-- What a job leaves alone: the counter, the topology, the aliases, the templates and the names drawn
change only with a job that is made for it. -/
structure Job.Keeps (j : Job) (s s' : State σ) : Prop where
  loops : (∀ pass, j ≠ .setLoops pass) → s'.scope.loops = s.scope.loops
  topology : (∀ t, j ≠ .provideScope t) → s'.scope.topology = s.scope.topology
  aliases : (∀ k, j ≠ .launch k) → (∀ k w l c, j ≠ .launched k w l c) →
    s'.scope.aliases = s.scope.aliases
  templates : (∀ pass last rest, j ≠ .walk pass last rest) → s'.templates = s.templates
  draws : (∀ task a, j ≠ .control task a) → s'.draws = s.draws

/-- A step that leaves a state's scope at rest, and keeps its templates and drawn names. -/
structure State.Rests (s s' : State σ) : Prop where
  scope : s.scope.Rests s'.scope
  templates : s'.templates = s.templates
  draws : s'.draws = s.draws

theorem State.Rests.keeps {j : Job} {s s' : State σ} (h : s.Rests s') : j.Keeps s s' :=
  ⟨fun _ => h.scope.loops, fun _ => h.scope.topology, fun _ _ => h.scope.aliases,
    fun _ => h.templates, fun _ => h.draws⟩

namespace State

variable (st : Settings σ) (i : ThreadId) (s : State σ)

theorem Rests.refl : s.Rests s := ⟨.refl _, rfl, rfl⟩

theorem Rests.trans {s s' s'' : State σ} (h : s.Rests s') (h' : s'.Rests s'') : s.Rests s'' :=
  ⟨h.scope.trans h'.scope, h'.templates.trans h.templates, h'.draws.trans h.draws⟩

theorem rests_note (line : LogLine) : s.Rests (s.note line) :=
  ⟨Scope.rests_note line s.scope, rfl, rfl⟩

theorem rests_record (e : Event) : s.Rests (s.record e) :=
  ⟨Scope.rests_record e s.scope, rfl, rfl⟩

theorem rests_within {f : Scope σ → α × Scope σ} (hf : s.scope.Rests (f s.scope).2) :
    s.Rests (s.within f).2 :=
  ⟨hf, rfl, rfl⟩

theorem rests_attempt {ε : Type} {f : Scope σ → Except ε Unit × Scope σ} (warning : LogLine)
    (hf : s.scope.Rests (f s.scope).2) : s.Rests (s.attempt f warning) := by
  have hw := rests_within s hf
  unfold attempt
  rcases hr : s.within f with ⟨_ | _, s'⟩
  · rw [hr] at hw
    exact hw.trans (rests_note s' warning)
  · rw [hr] at hw
    exact hw

theorem rests_emit : s.Rests s.emit := by
  have h : s.scope.Rests (s.scope.print s.report.render) := ⟨rfl, rfl, rfl⟩
  exact ⟨h.trans (Scope.rests_record .emitted _), rfl, rfl⟩

theorem rests_terminate (code : Int) : s.Rests (s.terminate code) := by
  unfold terminate
  split_ifs
  · exact .refl s
  · exact (rests_emit s).trans ⟨Scope.rests_record (.exited code) s.emit.scope, rfl, rfl⟩

/-! ### Phases -/

theorem rests_makeOpeningCall (c : OpeningCall) : s.Rests (s.makeOpeningCall st c).2 := by
  cases c with
  | purge => exact ⟨Scope.rests_call _ _ _, rfl, rfl⟩
  | provide => exact ⟨Scope.rests_call _ _ _, rfl, rfl⟩
  | setup => exact ⟨Scope.rests_hook st.env .setup s.scope, rfl, rfl⟩
  | initCli => exact ⟨Scope.rests_hook st.env .initCli s.scope, rfl, rfl⟩

theorem rests_opening (calls : List OpeningCall) (inv : Invocation) :
    s.Rests (s.opening st i calls inv) := by
  cases calls with
  | nil =>
    show s.Rests (s.opened st i inv)
    unfold opened
    simp only []
    split_ifs
    · exact ⟨.refl _, rfl, rfl⟩
    · exact ⟨.refl _, rfl, rfl⟩
    · exact rests_note s _
  | cons c cs =>
    have hc := rests_makeOpeningCall st s c
    unfold opening
    rcases hr : s.makeOpeningCall st c with ⟨_ | _, s'⟩
    · rw [hr] at hc
      simp only [hr]
      unfold openingFailed
      split_ifs
      · exact hc.trans (rests_note s' _)
      · exact hc.trans ⟨.refl _, rfl, rfl⟩
    · rw [hr] at hc
      simp only [hr]
      exact hc.trans ⟨.refl _, rfl, rfl⟩

theorem rests_passes (inv : Invocation) (limit : Int) (pass : Nat) :
    s.Rests (s.passes st i inv limit pass) := by
  unfold passes
  split_ifs <;> exact ⟨.refl _, rfl, rfl⟩

theorem rests_reclaim (occasion : ReclaimOccasion) : s.Rests (s.reclaim st occasion) :=
  rests_attempt s _ (Scope.rests_call _ _ _)

theorem rests_saveLogs : s.Rests (s.saveLogs st) := by
  unfold saveLogs
  split
  · exact rests_attempt s _ (Scope.rests_call _ _ _)
  · exact .refl s

theorem rests_removeServers : s.Rests (s.removeServers st) := by
  unfold removeServers
  split
  · exact rests_attempt s _ (Scope.rests_call _ _ _)
  · exact .refl s

/-! ### Resolution -/

theorem rests_clientOp (op : ClientOp) : s.Rests (s.clientOp st op) := by
  have hcall : ∀ (line : LogLine) (f : Scope σ → Except RuntimeFault Unit × Scope σ),
      (∀ sc : Scope σ, sc.Rests (f sc).2) → s.Rests ((s.note line).clientCall f) :=
    fun line f hf => (rests_note s line).trans (rests_attempt _ _ (hf _))
  unfold clientOp
  split
  · exact rests_note s _
  · split
    · exact hcall _ _ fun _ => Scope.rests_call _ _ _
    · exact hcall _ _ fun _ => Scope.rests_call _ _ _
    · exact hcall _ _ fun _ => Scope.rests_call _ _ _
    · exact hcall _ _ fun _ => Scope.rests_call _ _ _
    · exact hcall _ _ fun _ => Scope.rests_call _ _ _
    · exact rests_note s _

theorem rests_changeScope (spec : String) : s.Rests (s.changeScope st i spec) := by
  have hp : s.Rests (s.scopePath st spec).2 := by
    have he := rests_within s (Scope.rests_evaluate st.env spec s.scope)
    unfold scopePath
    rcases hw : s.within (Scope.evaluate st.env spec) with ⟨_ | _, s'⟩
    · rw [hw] at he
      exact he.trans (rests_note s' _)
    · rw [hw] at he
      exact he
  unfold changeScope
  rcases hs : s.scopePath st spec with ⟨path, s'⟩
  rw [hs] at hp
  simp only []
  split
  · exact hp.trans ⟨.refl _, rfl, rfl⟩
  · exact hp.trans (rests_note s' _)

theorem rests_nestedTest (path : String) : s.Rests (s.nestedTest st i path) := by
  unfold nestedTest
  split
  · exact (rests_note s _).trans ⟨.refl _, rfl, rfl⟩
  · exact rests_note s _

theorem includeFiles_rests (files : String) :
    s.scope.Rests (s.includeFiles st files).scope ∧ (s.includeFiles st files).draws = s.draws := by
  have hbad : ∀ (l : List Nat) (s : State σ),
      s.Rests (l.foldl (fun s _ => s.note (.warn "invalid include pattern")) s) := by
    intro l
    induction l with
    | nil => exact fun s => .refl s
    | cons _ l ih => exact fun s => (rests_note s _).trans (ih _)
  have hpaths : ∀ (fs : Files) (l : List String) (s : State σ),
      s.scope.Rests (l.foldl (includeFile fs) s).scope ∧
        (l.foldl (includeFile fs) s).draws = s.draws := by
    intro fs l
    induction l with
    | nil => exact fun s => ⟨.refl _, rfl⟩
    | cons path l ih =>
      intro s
      have h : s.scope.Rests (includeFile fs s path).scope ∧
          (includeFile fs s path).draws = s.draws := by
        unfold includeFile
        split
        · exact ⟨.refl _, rfl⟩
        · exact ⟨Scope.rests_note _ _, rfl⟩
      obtain ⟨hr, hd⟩ := ih (includeFile fs s path)
      exact ⟨h.1.trans hr, hd.trans h.2⟩
  unfold includeFiles
  rcases hp : (s.scope.files st.env).includePaths files with ⟨paths, bad⟩
  simp only [hp]
  have hb := hbad (List.range bad) s
  obtain ⟨hr, hd⟩ := hpaths (s.scope.files st.env) paths
    ((List.range bad).foldl (fun s _ => s.note (.warn "invalid include pattern")) s)
  exact ⟨hb.scope.trans hr, hd.trans hb.draws⟩

theorem rests_unrolled (a : Action) : s.Rests (s.unrolled st a).2 := by
  have he := rests_within s (Scope.rests_evaluate st.env a.loopExpression s.scope)
  unfold unrolled
  rcases hw : s.within (Scope.evaluate st.env a.loopExpression) with ⟨_ | text, s'⟩
  · rw [hw] at he
    exact he.trans (rests_note s' _)
  · rw [hw] at he
    simp only []
    split
    · exact he
    · exact he.trans (rests_note s' _)

theorem rests_referred (a : Action) : s.Rests (s.referred st a).2 := by
  unfold referred
  split
  · exact rests_note s _
  · have he := rests_within s (Scope.rests_evaluate st.env a.args s.scope)
    rcases hw : s.within (Scope.evaluate st.env a.args) with ⟨_ | args, s'⟩
    · rw [hw] at he
      exact he.trans (rests_note s' _)
    · rw [hw] at he
      exact he

theorem rests_enter (pass : Nat) {r : Option (List Action) × State σ} (h : s.Rests r.2) :
    s.Rests (enter i pass r) := by
  rcases r with ⟨_ | actions, s'⟩
  · exact h
  · exact h.trans ⟨.refl _, rfl, rfl⟩

theorem walk_keeps (pass : Nat) (last : Option Action) (rest : List Action) :
    (Job.walk pass last rest).Keeps s (s.walk st i pass last rest) := by
  have hkeeps : ∀ s' : State σ, s.scope.Rests s'.scope → s'.draws = s.draws →
      (Job.walk pass last rest).Keeps s s' := fun s' h hd =>
    ⟨fun _ => h.loops, fun _ => h.topology, fun _ _ => h.aliases, fun h => absurd rfl (h _ _ _),
      fun _ => hd⟩
  cases rest with
  | nil => exact (Rests.refl s).keeps
  | cons a rest =>
    have hrest : ∀ s' : State σ, (s.push i [.walk pass last rest]).Rests s' →
        (Job.walk pass last (a :: rest)).Keeps s s' := fun s' h => hkeeps s' h.scope h.draws
    unfold walk
    simp only []
    split
    · exact hkeeps _ (.refl _) rfl
    · unfold resolve
      split
      · exact hrest _ (rests_clientOp st _ _)
      · exact hrest _ (rests_changeScope st i _ _)
      · exact hrest _ (rests_nestedTest st i _ _)
      · obtain ⟨hr, hd⟩ := includeFiles_rests st (s.push i [.walk pass last rest]) ‹_›
        exact hkeeps _ hr hd
      · exact hrest _ (rests_enter i _ pass (rests_unrolled st _ a))
      · exact hrest _ (rests_enter i _ pass (rests_referred st _ a))
      · exact hrest _ (.refl _)

theorem provideScope_keeps (target : Topology) :
    (Job.provideScope target).Keeps s (s.provideScope st target) := by
  have hkeeps : ∀ s' : State σ, s'.scope.aliases = s.scope.aliases →
      s'.scope.loops = s.scope.loops → s'.templates = s.templates → s'.draws = s.draws →
      (Job.provideScope target).Keeps s s' := fun s' ha hl ht hd =>
    ⟨fun _ => hl, fun h => absurd rfl (h target), fun _ _ => ha, fun _ => ht, fun _ => hd⟩
  unfold provideScope
  split
  · exact hkeeps _ rfl rfl rfl rfl
  · rename_i t _
    have h := rests_attempt s (.error "could not provide servers for new scope")
      (f := Scope.provide st.env t) (Scope.rests_call _ _ _)
    simp only []
    generalize s.attempt (Scope.provide st.env t)
      (.error "could not provide servers for new scope") = s' at h ⊢
    have hn := rests_note
      ({ s' with
          scope := if target.nodeNames?.isSome then { s'.scope with topology := target }
            else Scope.break_ { s'.scope with topology := target } } : State σ)
      (.info "scope changed")
    split_ifs at hn ⊢
    · exact hkeeps _ h.scope.aliases h.scope.loops h.templates h.draws
    all_goals
      exact hkeeps _ (hn.scope.aliases.trans h.scope.aliases) (hn.scope.loops.trans h.scope.loops)
        h.templates h.draws

/-! ### Dispatch -/

theorem rests_requirement (requires : String) (sc : Scope σ) :
    sc.Rests (st.requirement requires sc).2 := by
  have h := Scope.rests_condition st.env requires sc
  unfold Settings.requirement
  split_ifs
  · exact .refl sc
  · rcases hc : sc.condition st.env requires with ⟨_ | _ | _, sc'⟩
    · rw [hc] at h
      exact (h.trans (Scope.rests_note _ _)).trans (Scope.rests_note _ _)
    · rw [hc] at h
      exact h.trans (Scope.rests_note _ _)
    · rw [hc] at h
      exact h

theorem rests_duration (text : String) (sc : Scope σ) : sc.Rests (st.duration text sc).2 := by
  have h := Scope.rests_evaluate st.env text sc
  unfold Settings.duration
  split_ifs
  · exact .refl sc
  · rcases he : sc.evaluate st.env text with ⟨_ | value, sc'⟩
    · rw [he] at h
      exact h.trans (Scope.rests_note _ _)
    · rw [he] at h
      simp only []
      split
      · exact h
      · exact h.trans (Scope.rests_note _ _)
      · exact h

theorem rests_concurrency (text : String) (sc : Scope σ) :
    sc.Rests (st.concurrency text sc).2 := by
  have h := Scope.rests_evaluate st.env text sc
  unfold Settings.concurrency
  split_ifs
  · exact .refl sc
  · rcases he : sc.evaluate st.env text with ⟨r, sc'⟩
    rw [he] at h
    simp only []
    split
    · exact h
    · exact h.trans (Scope.rests_note _ _)

theorem rests_decide (a : Action) (sc : Scope σ) : sc.Rests (st.decide a sc).2 := by
  have hr := rests_requirement st a.requires sc
  unfold Settings.decide
  rcases h₁ : st.requirement a.requires sc with ⟨_ | _, sc₁⟩
  · rw [h₁] at hr
    exact hr
  · rw [h₁] at hr
    have hc := hr.trans (Scope.rests_compileCommand st.env a.command sc₁)
    simp only []
    rcases h₂ : sc₁.compileCommand st.env a.command with ⟨_ | command, sc₂⟩
    · rw [h₂] at hc
      exact hc.trans (Scope.rests_note _ _)
    · rw [h₂] at hc
      have hd := hc.trans (rests_duration st a.duration sc₂)
      simp only []
      rcases h₃ : st.duration a.duration sc₂ with ⟨_ | limit, sc₃⟩
      · rw [h₃] at hd
        exact hd
      · rw [h₃] at hd
        exact hd.trans (rests_concurrency st a.concurrency sc₃)

theorem rests_dispatch (a : Action) : s.Rests (s.dispatch st i a) := by
  have h := rests_within s (rests_decide st a s.scope)
  unfold dispatch
  rcases hw : s.within (st.decide a) with ⟨_ | task | _, s'⟩
  · rw [hw] at h
    exact h
  · rw [hw] at h
    simp only []
    split_ifs <;> exact h.trans ⟨.refl _, rfl, rfl⟩
  · rw [hw] at h
    exact h.trans ⟨.refl _, rfl, rfl⟩

/-! ### Control -/

theorem control_keeps (task : Task) (a : Action) :
    (Job.control task a).Keeps s (s.control st i task a) := by
  have h : s.scope.Rests (s.control st i task a).scope ∧
      (s.control st i task a).templates = s.templates := by
    unfold control aliasOf
    split_ifs <;> exact ⟨.refl _, rfl⟩
  exact ⟨fun _ => h.1.loops, fun _ => h.1.topology, fun _ _ => h.1.aliases, fun _ => h.2,
    fun h => absurd rfl (h _ _)⟩

theorem rests_gate (condition : String) : s.Rests (s.gate st i condition) := by
  have h := rests_within s (Scope.rests_check st.env condition s.scope)
  unfold gate
  rcases hw : s.within (Scope.check st.env condition) with ⟨_ | _, s'⟩
  · rw [hw] at h
    exact h.trans ⟨.refl _, rfl, rfl⟩
  · rw [hw] at h
    exact h

/-- What is left alone by a launch, whatever becomes of the aliases. -/
structure Launches (s s' : State σ) : Prop where
  loops : s'.scope.loops = s.scope.loops
  topology : s'.scope.topology = s.scope.topology
  templates : s'.templates = s.templates
  draws : s'.draws = s.draws

theorem Rests.launches {s s' : State σ} (h : s.Rests s') : Launches s s' :=
  ⟨h.scope.loops, h.scope.topology, h.templates, h.draws⟩

theorem Launches.trans {s s' s'' : State σ} (h : Launches s s') (h' : Launches s' s'') :
    Launches s s'' :=
  ⟨h'.loops.trans h.loops, h'.topology.trans h.topology, h'.templates.trans h.templates,
    h'.draws.trans h.draws⟩

theorem launches_launched (k : Ticket) (watcher : Option (ThreadId × PromiseId)) (l : Launch)
    (c : ChannelId) : Launches s (s.launched i k watcher l c) := by
  unfold launched
  simp only []
  generalize hs₁ : ({ s with scope :=
    { s.scope with aliases := s.scope.aliases.put k.alias_ l.handle } } : State σ) = s₁
  have h₁ : Launches s s₁ := by
    rw [← hs₁]
    exact ⟨rfl, rfl, rfl, rfl⟩
  have h₂ : Launches s (watcher.elim s₁ fun w => s₁.settle w.2 (some l.handle)) := by
    cases watcher with
    | none => exact h₁
    | some w => exact h₁.trans ⟨rfl, rfl, rfl, rfl⟩
  have h₃ := h₂.trans (rests_note _ (.info k.task.describe)).launches
  split_ifs <;> exact h₃.trans ⟨rfl, rfl, rfl, rfl⟩

theorem launches_observe (k : Ticket) (c : ChannelId) (ids : List String) :
    Launches s (ids.foldl (fun s id => s.spawn [.watch k.task id c]) s) := by
  induction ids generalizing s with
  | nil => exact (Rests.refl s).launches
  | cons id ids ih =>
    have h : Launches s (s.spawn [.watch k.task id c]) := ⟨rfl, rfl, rfl, rfl⟩
    exact h.trans (ih (s.spawn [.watch k.task id c]))

theorem launches_created (k : Ticket) (watcher : Option (ThreadId × PromiseId)) (l : Launch) :
    Launches s (s.created i k watcher l) := by
  unfold created
  simp only []
  split
  · rename_i signals _
    have h : Launches s (s.openChannel ⟨signals, 0, k.task.instances, false⟩) := ⟨rfl, rfl, rfl, rfl⟩
    exact h.trans (launches_launched i _ k watcher l _)
  · have h : Launches s (s.openChannel ⟨[], l.containers.length, k.task.instances, false⟩) :=
      ⟨rfl, rfl, rfl, rfl⟩
    have h' := h.trans (launches_observe _ k s.channels.length l.containers)
    split_ifs
    · exact h'.trans (launches_launched i _ k watcher l _)
    · exact h'.trans ⟨rfl, rfl, rfl, rfl⟩

theorem launches_launch (k : Ticket) : Launches s (s.launch st i k) := by
  unfold launch
  split_ifs
  · exact (Rests.refl s).launches
  · have hw : Launches s (s.spawnWatcher k).2 := by
      unfold spawnWatcher
      split_ifs <;> exact ⟨rfl, rfl, rfl, rfl⟩
    rcases hs₁ : s.spawnWatcher k with ⟨watcher, s₁⟩
    rw [hs₁] at hw
    have hl := hw.trans
      (rests_within s₁ (f := Scope.launch st.env k.task) (Scope.rests_call _ _ _)).launches
    rcases hs₂ : s₁.within (Scope.launch st.env k.task) with ⟨r, s₂⟩
    rw [hs₂] at hl
    simp only [hs₂]
    split_ifs
    · unfold forsake
      cases watcher <;> exact hl.trans ⟨rfl, rfl, rfl, rfl⟩
    · cases r with
      | ok l => exact hl.trans (launches_created i s₂ k watcher l)
      | error fault =>
        refine hl.trans ?_
        have hn := (rests_note s₂ (.warn "launch failed")).launches
        unfold refused
        cases watcher <;> exact hn.trans ⟨rfl, rfl, rfl, rfl⟩

theorem Launches.keeps_launch {k : Ticket} {s s' : State σ} (h : Launches s s') :
    (Job.launch k).Keeps s s' :=
  ⟨fun _ => h.loops, fun _ => h.topology, fun h _ => absurd rfl (h k), fun _ => h.templates,
    fun _ => h.draws⟩

theorem Launches.keeps_launched {k : Ticket} {watcher : Option (ThreadId × PromiseId)} {l : Launch}
    {c : ChannelId} {s s' : State σ} (h : Launches s s') :
    (Job.launched k watcher l c).Keeps s s' :=
  ⟨fun _ => h.loops, fun _ => h.topology, fun _ h => absurd rfl (h k watcher l c),
    fun _ => h.templates, fun _ => h.draws⟩

theorem rests_removeAll (handles : List String) : s.Rests (s.removeAll st i handles) := by
  cases handles with
  | nil => exact .refl s
  | cons h hs => exact ⟨Scope.rests_call _ _ s.scope, rfl, rfl⟩

theorem rests_drain (c : ChannelId) (describe : String) (left : Nat) :
    s.Rests (s.drain i c describe left) := by
  unfold drain
  simp only []
  split
  · split
    · exact ⟨.refl _, rfl, rfl⟩
    · exact ⟨Scope.rests_note _ _, rfl, rfl⟩
  · exact ⟨.refl _, rfl, rfl⟩

theorem rests_tell (c : ChannelId) (r : Except RuntimeFault Unit) : s.Rests (s.tell i c r) := by
  unfold tell
  split_ifs <;> exact ⟨.refl _, rfl, rfl⟩

theorem rests_watch (task : Task) (id : String) (c : ChannelId) :
    s.Rests (s.watch st i task id c) := by
  unfold watch
  rcases st.env.runtime.watch task id s.scope.world with ⟨_ | reply, world⟩
  · simp only []
    split_ifs <;> exact ⟨⟨rfl, rfl, rfl⟩, rfl, rfl⟩
  · exact Rests.trans (rests_within s (f := Scope.take reply world) ⟨rfl, rfl, rfl⟩) (rests_tell i _ c _)

theorem rests_expire (task : Task) (id : String) (c : ChannelId) : s.Rests (s.expire st i task id c) :=
  Rests.trans (rests_within s (Scope.rests_ask _ s.scope)) (rests_tell i _ c _)

theorem rests_restarted (handle : String) (left : Int) :
    s.Rests (s.restarted st i handle left) := by
  unfold restarted
  split_ifs <;> exact ⟨.refl _, rfl, rfl⟩

theorem rests_repeatLoop (handle : String) (left : Int) :
    s.Rests (s.repeatLoop st i handle left) := by
  have h := rests_within s (f := Scope.status st.env handle) (Scope.rests_call _ _ _)
  unfold repeatLoop
  split_ifs
  · exact .refl s
  · rcases hw : s.within (Scope.status st.env handle) with ⟨r, s'⟩
    rw [hw] at h
    split
    · rename_i heq
      cases heq
      have h' := h.trans
        (rests_within s' (f := Scope.start st.env handle) (Scope.rests_call _ _ _))
      rcases hw' : s'.within (Scope.start st.env handle) with ⟨_ | _, s''⟩
      · rw [hw'] at h'
        simp only []
        exact (h'.trans (rests_note s'' _)).trans (rests_restarted st i _ handle left)
      · rw [hw'] at h'
        have hc : s''.Rests (s''.count i) := ⟨.refl _, rfl, rfl⟩
        simp only []
        exact (h'.trans hc).trans (rests_restarted st i (s''.count i) handle left)
    · rename_i heq
      cases heq
      exact h.trans ⟨.refl _, rfl, rfl⟩
    · rename_i heq
      cases heq
      split_ifs
      · exact h
      · exact h.trans (rests_note s' _)

theorem rests_awaitLaunch (p : PromiseId) (condition : String) :
    s.Rests (s.awaitLaunch i p condition) := by
  unfold awaitLaunch
  split <;> exact ⟨.refl _, rfl, rfl⟩

theorem rests_untilLoop (handle condition : String) :
    s.Rests (s.untilLoop st i handle condition) := by
  have h := rests_within s (f := Scope.status st.env handle) (Scope.rests_call _ _ _)
  unfold untilLoop
  rcases hw : s.within (Scope.status st.env handle) with ⟨_ | _, s'⟩
  · rw [hw] at h
    simp only []
    split_ifs
    · exact h
    · exact h.trans (rests_note s' _)
  · rw [hw] at h
    have hc : s'.Rests (s'.count i) := ⟨.refl _, rfl, rfl⟩
    have h' := (h.trans hc).trans
      (rests_within (s'.count i) (Scope.rests_check st.env condition (s'.count i).scope))
    simp only []
    rcases hw' : (s'.count i).within (Scope.check st.env condition) with ⟨_ | _, s''⟩
    · rw [hw'] at h'
      exact h'.trans ⟨.refl _, rfl, rfl⟩
    · rw [hw'] at h'
      exact h'

/-! ### Failures -/

theorem rests_failed (describe : String) (fault : RuntimeFault) :
    s.Rests (s.failed st i describe fault) := by
  have h := rests_record s (.failed describe fault)
  have hn := h.trans (rests_note _ (.error "task failed"))
  unfold failed
  simp only []
  split_ifs
  · unfold collect
    split
    · exact hn.trans ⟨.refl _, rfl, rfl⟩
    · split_ifs
      · exact hn.trans ⟨.refl _, rfl, rfl⟩
      · exact hn.trans ⟨Scope.rests_note _ _, rfl, rfl⟩
  · exact hn.trans ⟨.refl _, rfl, rfl⟩
  · exact h

end State

/-- Nothing else that a run goes by is changed by a job than what it is made to change. -/
theorem Job.perform_keeps (st : Settings σ) (i : ThreadId) (j : Job) (s : State σ) :
    j.Keeps s (j.perform st i s) := by
  cases j with
  | opening calls inv => exact (State.rests_opening st i s calls inv).keeps
  | passes inv limit pass => exact (State.rests_passes st i s inv limit pass).keeps
  | reclaim occasion => exact (State.rests_reclaim st s occasion).keeps
  | emit => exact (State.rests_emit s).keeps
  | teardown => exact (State.rests_attempt s _ (Scope.rests_hook st.env .teardown s.scope)).keeps
  | saveLogs => exact (State.rests_saveLogs st s).keeps
  | removeServers => exact (State.rests_removeServers st s).keeps
  | elapsed =>
    exact ((State.rests_note s _).trans (State.rests_terminate (s.note _) 0)).keeps
  | setLoops pass =>
    exact ⟨fun h => absurd rfl (h pass), fun _ => rfl, fun _ _ => rfl, fun _ => rfl, fun _ => rfl⟩
  | walk pass last rest => exact State.walk_keeps st i s pass last rest
  | leaveScope target =>
    exact (State.rests_attempt s _ (Scope.rests_hook st.env .teardown s.scope)).keeps
  | provideScope target => exact State.provideScope_keeps st s target
  | enterScope => exact (State.rests_attempt s _ (Scope.rests_hook st.env .setup s.scope)).keeps
  | dispatch a => exact (State.rests_dispatch st i s a).keeps
  | control task a => exact State.control_keeps st i s task a
  | gate condition => exact (State.rests_gate st i s condition).keeps
  | launch k => exact (State.launches_launch st i s k).keeps_launch
  | launched k watcher l c => exact (State.launches_launched i s k watcher l c).keeps_launched
  | removeAll handles => exact (State.rests_removeAll st i s handles).keeps
  | failed describe fault => exact (State.rests_failed st i s describe fault).keeps
  | stopOnError =>
    refine State.Rests.keeps ?_
    show s.Rests (s.stopOnError st)
    unfold State.stopOnError
    split_ifs
    · exact State.rests_terminate s 1
    · exact .refl s
  | drain c describe left => exact (State.rests_drain i s c describe left).keeps
  | repeatLoop handle left => exact (State.rests_repeatLoop st i s handle left).keeps
  | awaitLaunch p condition => exact (State.rests_awaitLaunch i s p condition).keeps
  | untilLoop handle condition => exact (State.rests_untilLoop st i s handle condition).keeps
  | watch task id c => exact (State.rests_watch st i s task id c).keeps
  | expire task id c => exact (State.rests_expire st i s task id c).keeps
  | endCollection | settlePromise | send | sleep | wake | join | hang =>
    exact State.Rests.keeps ⟨.refl _, rfl, rfl⟩

/-- A step changes no more than its job is made to change. -/
theorem Stepped.keeps {st : Settings σ} {i : ThreadId} {j : Job} {s s' : State σ}
    (h : Stepped st i j s s') : j.Keeps s s' := by
  obtain ⟨hl, ht, ha, htm, hd⟩ := j.perform_keeps st i (s.pop i)
  rw [h.result]
  unfold State.endBroken
  split_ifs <;> exact ⟨hl, ht, ha, htm, hd⟩

end Run

end Workload
