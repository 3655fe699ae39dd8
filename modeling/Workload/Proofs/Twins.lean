import Workload.Proofs.Alike
import Workload.Proofs.Endings

/-!
# Threads abreast

Two threads that do jobs which are the same but for waits (`Job.Alike`), in states whose scopes are
abreast, go on with jobs that are the same but for waits, in states whose scopes are abreast
(`Parallel`).  A dispatch is left out here: whether it is waited for decides which thread goes on with the
task.
-/

namespace Workload

/-- An action, whether or not it is waited for. -/
def Action.unwaited (a : Action) : Action := { a with wait := false }

/-- Two actions that are the same, but for the wait of a plain one. -/
def Action.Alike (a a' : Action) : Prop := a' = a ∨ a.directive = .plain ∧ a'.unwaited = a.unwaited

namespace Action

variable {a a' : Action} {last last' : Option Action}

theorem directive_unwaited (a : Action) : a.unwaited.directive = a.directive := rfl

theorem Alike.directive (h : a.Alike a') : a'.directive = a.directive := by
  rcases h with rfl | ⟨-, h⟩
  · rfl
  · rw [← directive_unwaited a', h, directive_unwaited]

theorem Alike.unwaited (h : a.Alike a') : a'.unwaited = a.unwaited := by
  rcases h with rfl | ⟨-, h⟩
  · rfl
  · exact h

theorem Alike.symm (h : a.Alike a') : a'.Alike a := by
  rcases h with rfl | ⟨hd, h⟩
  · exact .inl rfl
  · refine .inr ⟨?_, h.symm⟩
    rw [← directive_unwaited, h, directive_unwaited, hd]

theorem Alike.eq (h : a.Alike a') (hd : a.directive ≠ .plain) : a' = a :=
  h.resolve_right fun h => hd h.1

theorem unwaited_carryForward (last : Option Action) (a : Action) :
    (a.carryForward last).unwaited = a.unwaited.carryForward (last.map Action.unwaited) := by
  unfold carryForward
  cases last with
  | none => rfl
  | some p =>
    show (if a.image.isEmpty then _ else a).unwaited = if a.image.isEmpty then _ else a.unwaited
    split_ifs <;> rfl

end Action

namespace Run

/-- Two jobs that are the same, but for the waits of actions and tasks. -/
inductive Job.Alike : Job → Job → Prop
  | same (j : Job) : Alike j j
  | opening (calls : List OpeningCall) (phases : Phases) (nested : Bool) (actions actions' : List Action) :
    List.Forall₂ Action.Alike actions actions' →
    Alike (.opening calls ⟨phases, actions, nested⟩) (.opening calls ⟨phases, actions', nested⟩)
  | passes (phases : Phases) (nested : Bool) (actions actions' : List Action) (limit : Int) (pass : Nat) :
    List.Forall₂ Action.Alike actions actions' →
    Alike (.passes ⟨phases, actions, nested⟩ limit pass) (.passes ⟨phases, actions', nested⟩ limit pass)
  | walk (pass : Nat) (last last' : Option Action) (rest rest' : List Action) :
    last'.map Action.unwaited = last.map Action.unwaited → List.Forall₂ Action.Alike rest rest' →
    Alike (.walk pass last rest) (.walk pass last' rest')
  | dispatch (a a' : Action) : a'.unwaited = a.unwaited → Alike (.dispatch a) (.dispatch a')
  | control (task task' : Task) (a a' : Action) : task'.unwaited = task.unwaited →
    a'.unwaited = a.unwaited → Alike (.control task a) (.control task' a')
  | launch (task task' : Task) (alias_ : String) (repeats : Int) (until_ : String) :
    task'.unwaited = task.unwaited →
    Alike (.launch ⟨task, alias_, repeats, until_⟩) (.launch ⟨task', alias_, repeats, until_⟩)

variable {σ α ε : Type} {R : σ → σ → Prop}

namespace State

/-- What is left to do for a thread. -/
def jobsOf (i : ThreadId) (s : State σ) : List Job := (s.threads[i]?).elim [] Thread.jobs

theorem jobsOf_eq {i : ThreadId} {s : State σ} {t : Thread} (ht : s.threads[i]? = some t) :
    s.jobsOf i = t.jobs := by
  unfold jobsOf
  rw [ht]
  rfl

/-- Two states whose scopes are abreast, with the same templates and drawn names. -/
structure Abreast (R : σ → σ → Prop) (s s' : State σ) : Prop where
  scope : s.scope.Abreast R s'.scope
  templates : s'.templates = s.templates
  draws : s'.draws = s.draws

end State

/-- From `s` to `t`, and from `s'` to `t'`, two threads go on with jobs that are the same but for waits,
and the states stay abreast. -/
structure Parallel (R : σ → σ → Prop) (i i' : ThreadId) (s s' t t' : State σ) : Prop where
  abreast : t.Abreast R t'
  there : i < t.threads.length ∧ i' < t'.threads.length
  jobs : ∃ new new', t.jobsOf i = new ++ s.jobsOf i ∧ t'.jobsOf i' = new' ++ s'.jobsOf i' ∧
    List.Forall₂ Job.Alike new new'

section Parallels

variable {i i' : ThreadId} {s s' t t' u u' : State σ} {kinds kinds' : List EventKind}
  {new new' : List Job} {spawned spawned' : List (List Job)}

theorem State.Moves.jobsOf (h : s.Moves kinds i new spawned t) (hi : i < s.threads.length) :
    t.jobsOf i = new ++ s.jobsOf i ∧ i < t.threads.length := by
  have ht : s.threads[i]? = some s.threads[i] := List.getElem?_eq_getElem hi
  obtain ⟨n, hn⟩ := h.threads _ ht
  have hlen : i < (s.threads.set i ⟨new ++ s.threads[i].jobs, n, s.threads[i].crashed⟩).length := by
    rw [List.length_set]
    exact hi
  have ht' : t.threads[i]? = some ⟨new ++ s.threads[i].jobs, n, s.threads[i].crashed⟩ := by
    rw [hn, List.getElem?_append_left hlen, List.getElem?_set_self hi]
  rw [State.jobsOf_eq ht, State.jobsOf_eq ht']
  exact ⟨rfl, (List.getElem?_eq_some_iff.1 ht').1⟩

theorem Parallel.of_moves (hm : s.Moves kinds i new spawned t) (hm' : s'.Moves kinds' i' new' spawned' t')
    (hi : i < s.threads.length) (hi' : i' < s'.threads.length) (hnew : List.Forall₂ Job.Alike new new')
    (h : t.Abreast R t') : Parallel R i i' s s' t t' := by
  obtain ⟨hj, hl⟩ := hm.jobsOf hi
  obtain ⟨hj', hl'⟩ := hm'.jobsOf hi'
  exact ⟨h, ⟨hl, hl'⟩, new, new', hj, hj', hnew⟩

theorem Parallel.trans (h : Parallel R i i' s s' t t') (h' : Parallel R i i' t t' u u') :
    Parallel R i i' s s' u u' := by
  obtain ⟨new, new', hn, hn', hnew⟩ := h.jobs
  obtain ⟨more, more', hm, hm', hmore⟩ := h'.jobs
  refine ⟨h'.abreast, h'.there, more ++ new, more' ++ new', ?_, ?_, ?_⟩
  · rw [hm, hn, List.append_assoc]
  · rw [hm', hn', List.append_assoc]
  · exact List.rel_append hmore hnew

/-- Nothing is added to the jobs of two threads. -/
theorem Parallel.idle (hm : s.Moves kinds i [] spawned t) (hm' : s'.Moves kinds' i' [] spawned' t')
    (hi : i < s.threads.length) (hi' : i' < s'.threads.length) (h : t.Abreast R t') :
    Parallel R i i' s s' t t' :=
  .of_moves hm hm' hi hi' .nil h

/-- The threads stay as they are. -/
theorem Parallel.still (hs : t.threads = s.threads) (hs' : t'.threads = s'.threads)
    (hi : i < s.threads.length) (hi' : i' < s'.threads.length) (h : t.Abreast R t') :
    Parallel R i i' s s' t t' := by
  refine ⟨h, ⟨hs ▸ hi, hs' ▸ hi'⟩, [], [], ?_, ?_, .nil⟩
  · unfold State.jobsOf
    rw [hs, List.nil_append]
  · unfold State.jobsOf
    rw [hs', List.nil_append]

/-- Both threads write the same line. -/
theorem Parallel.note (line : LogLine) (hi : i < s.threads.length) (hi' : i' < s'.threads.length)
    (h : s.Abreast R s') : Parallel R i i' s s' (s.note line) (s'.note line) :=
  .still rfl rfl hi hi' ⟨h.scope.note line, h.templates, h.draws⟩

/-- Jobs that are the same but for waits are put in front of those of two threads. -/
theorem Parallel.push (hi : i < s.threads.length) (hi' : i' < s'.threads.length)
    (hnew : List.Forall₂ Job.Alike new new') (h : s.Abreast R s') :
    Parallel R i i' s s' (s.push i new) (s'.push i' new') :=
  .of_moves (State.Moves.push s new) (State.Moves.push s' new') hi hi' hnew
    ⟨h.scope, h.templates, h.draws⟩

theorem alike_refl (jobs : List Job) : List.Forall₂ Job.Alike jobs jobs :=
  List.forall₂_same.2 fun j _ => .same j

end Parallels

/-! ## What is done in both scopes -/

section Scopes

variable {s s' : State σ} {f f' : Scope σ → α × Scope σ}

namespace State

theorem abreast_note (h : s.Abreast R s') (line : LogLine) : (s.note line).Abreast R (s'.note line) :=
  ⟨h.scope.note line, h.templates, h.draws⟩

theorem abreast_within (hf : Scope.Keeping R f f') (h : s.Abreast R s') :
    (s.within f).1 = (s'.within f').1 ∧ (s.within f).2.Abreast R (s'.within f').2 := by
  obtain ⟨hr, hs⟩ := hf s.scope s'.scope h.scope
  exact ⟨hr, hs, h.templates, h.draws⟩

theorem within_eq {a a' : α} {t t' : State σ} (hf : Scope.Keeping R f f') (h : s.Abreast R s')
    (he : s.within f = (a, t)) (he' : s'.within f' = (a', t')) : a = a' ∧ t.Abreast R t' := by
  have := abreast_within hf h
  rwa [he, he'] at this

theorem abreast_attempt {f f' : Scope σ → Except ε Unit × Scope σ} (hf : Scope.Keeping R f f')
    (h : s.Abreast R s') (warning : LogLine) :
    (s.attempt f warning).Abreast R (s'.attempt f' warning) := by
  unfold attempt
  rcases he : s.within f with ⟨r, t⟩
  rcases he' : s'.within f' with ⟨r', t'⟩
  obtain ⟨rfl, ht⟩ := within_eq hf h he he'
  cases r with
  | ok => exact ht
  | error => exact abreast_note ht warning

end State

end Scopes

/-! ## What jobs do side by side -/

section Jobs

variable {st : Settings σ} (henv : st.env.Respects R) {i i' : ThreadId} {s s' : State σ}

/-- Provider calls respect the relation, too. -/
def Settings.Provides (st : Settings σ) (R : σ → σ → Prop) : Prop :=
  ∀ t, Respecting R (st.env.provider.provide t) (st.env.provider.provide t)

namespace State

include henv

/-! ### Phases -/

theorem abreast_makeOpeningCall (c : OpeningCall) (hp : c = .provide → st.Provides R)
    (h : s.Abreast R s') : (s.makeOpeningCall st c).1 = (s'.makeOpeningCall st c).1 ∧
      (s.makeOpeningCall st c).2.Abreast R (s'.makeOpeningCall st c).2 := by
  cases c with
  | purge =>
    obtain ⟨hr, hs⟩ := abreast_within (Scope.keeping_call henv.purge fun _ _ => rfl :
      Scope.Keeping R (Scope.purge st.env) (Scope.purge st.env)) h
    exact ⟨congrArg (Except.mapError Fault.runtime) hr, hs⟩
  | provide =>
    have hk : Scope.Keeping R (fun sc => sc.provide st.env sc.topology)
        (fun sc => sc.provide st.env sc.topology) := by
      intro sc sc' hsc
      show (sc.provide st.env sc.topology).1 = (sc'.provide st.env sc'.topology).1 ∧
        (sc.provide st.env sc.topology).2.Abreast R (sc'.provide st.env sc'.topology).2
      rw [hsc.rests.topology]
      exact Scope.keeping_call (hp rfl _) (fun _ _ => rfl) sc sc' hsc
    obtain ⟨hr, hs⟩ := abreast_within hk h
    exact ⟨congrArg (Except.mapError Fault.provider) hr, hs⟩
  | setup =>
    obtain ⟨hr, hs⟩ := abreast_within (Scope.keeping_hook henv .setup) h
    exact ⟨congrArg (Except.mapError Fault.execution) hr, hs⟩
  | initCli =>
    obtain ⟨hr, hs⟩ := abreast_within (Scope.keeping_hook henv .initCli) h
    exact ⟨congrArg (Except.mapError Fault.execution) hr, hs⟩

theorem parallel_opening (calls : List OpeningCall) {phases : Phases} {nested : Bool}
    {actions actions' : List Action} (hp : calls.head? = some .provide → st.Provides R)
    (ha : List.Forall₂ Action.Alike actions actions') (h : s.Abreast R s')
    (hi : i < s.threads.length) (hi' : i' < s'.threads.length) :
    Parallel R i i' s s' (s.opening st i calls ⟨phases, actions, nested⟩)
      (s'.opening st i' calls ⟨phases, actions', nested⟩) := by
  cases calls with
  | nil =>
    show Parallel R i i' s s' (s.opened st i ⟨phases, actions, nested⟩)
      (s'.opened st i' ⟨phases, actions', nested⟩)
    unfold opened
    simp only []
    have hpasses := fun limited => List.Forall₂.cons
      (Job.Alike.passes phases nested actions actions' (passLimit phases limited) 0 ha) .nil
    split_ifs
    · have hspawn : Parallel R i i' s s' (s.spawn [.sleep (1000 * st.config.duration), .elapsed])
          (s'.spawn [.sleep (1000 * st.config.duration), .elapsed]) :=
        .idle (Moves.spawn s _) (Moves.spawn s' _) hi hi' ⟨h.scope, h.templates, h.draws⟩
      exact hspawn.trans (.push hspawn.there.1 hspawn.there.2 (hpasses _) hspawn.abreast)
    · exact .push hi hi' (hpasses _) h
    · exact .note _ hi hi' h
  | cons c cs =>
    obtain ⟨hr, hs⟩ := abreast_makeOpeningCall henv c (fun hc => hp (congrArg some hc)) h
    have hm := (makeOpeningCall_moves st i s c).1
    have hm' := (makeOpeningCall_moves st i' s' c).1
    unfold opening
    rcases he : s.makeOpeningCall st c with ⟨r, t⟩
    rcases he' : s'.makeOpeningCall st c with ⟨r', t'⟩
    rw [he, he'] at hr hs
    rw [he] at hm
    rw [he'] at hm'
    obtain rfl : r = r' := hr
    have hcall : Parallel R i i' s s' t t' := .idle hm hm' hi hi' hs
    simp only [he, he']
    cases r with
    | ok =>
      refine hcall.trans (.push hcall.there.1 hcall.there.2 (.cons ?_ .nil) hs)
      exact .opening cs phases nested actions actions' ha
    | error fault =>
      refine hcall.trans ?_
      unfold openingFailed
      simp only []
      split_ifs
      · exact .note _ hcall.there.1 hcall.there.2 hs
      · exact .still rfl rfl hcall.there.1 hcall.there.2 ⟨hs.scope, hs.templates, hs.draws⟩

omit henv in
theorem parallel_passes {phases : Phases} {nested : Bool} {actions actions' : List Action} (limit : Int)
    (pass : Nat) (ha : List.Forall₂ Action.Alike actions actions') (h : s.Abreast R s')
    (hi : i < s.threads.length) (hi' : i' < s'.threads.length) :
    Parallel R i i' s s' (s.passes st i ⟨phases, actions, nested⟩ limit pass)
      (s'.passes st i' ⟨phases, actions', nested⟩ limit pass) := by
  unfold passes
  split_ifs
  · refine .push hi hi' (.cons (.same _) (.cons ?_ (.cons (.same _) (.cons ?_ .nil)))) h
    · exact .walk pass none none actions actions' rfl ha
    · exact .passes phases nested actions actions' limit (pass + 1) ha
  · exact .push hi hi' (alike_refl _) h

omit henv in
theorem parallel_attempt {f f' : Scope σ → Except ε Unit × Scope σ} {warning : LogLine}
    {kinds : List EventKind} (hf : Scope.Keeping R f f') (hg : ∀ sc : Scope σ, sc.Grows kinds (f sc).2)
    (hg' : ∀ sc : Scope σ, sc.Grows kinds (f' sc).2) (h : s.Abreast R s')
    (hi : i < s.threads.length) (hi' : i' < s'.threads.length) :
    Parallel R i i' s s' (s.attempt f warning) (s'.attempt f' warning) :=
  .idle (attempt_moves i s warning (hg s.scope)).1 (attempt_moves i' s' warning (hg' s'.scope)).1 hi hi'
    (abreast_attempt hf h warning)

omit henv in
theorem parallel_call {c : Call σ ε Unit} {event : Except ε Unit → Event} {kind : EventKind}
    {warning : LogLine} (hc : Respecting R c c) (he : ∀ time r, TimedEvent.launch? ⟨time, event r⟩ = none)
    (hk : ∀ r, (event r).kind = kind) (h : s.Abreast R s') (hi : i < s.threads.length)
    (hi' : i' < s'.threads.length) :
    Parallel R i i' s s' (s.attempt (Scope.call c event) warning)
      (s'.attempt (Scope.call c event) warning) :=
  parallel_attempt (Scope.keeping_call hc fun time r => (he time r).trans (he time r).symm)
    (fun sc => Scope.grows_call c hk sc) (fun sc => Scope.grows_call c hk sc) h hi hi'

theorem parallel_hook (name : HookName) {warning : LogLine} (h : s.Abreast R s')
    (hi : i < s.threads.length) (hi' : i' < s'.threads.length) :
    Parallel R i i' s s' (s.attempt (Scope.hook st.env name) warning)
      (s'.attempt (Scope.hook st.env name) warning) :=
  parallel_attempt (Scope.keeping_hook henv name) (Scope.hook_grows st.env name)
    (Scope.hook_grows st.env name) h hi hi'

theorem parallel_reclaim (occasion : ReclaimOccasion) (h : s.Abreast R s') (hi : i < s.threads.length)
    (hi' : i' < s'.threads.length) :
    Parallel R i i' s s' (s.reclaim st occasion) (s'.reclaim st occasion) :=
  parallel_call (henv.reclaim _) (fun _ _ => rfl) (fun _ => rfl) h hi hi'

theorem parallel_saveLogs (h : s.Abreast R s') (hi : i < s.threads.length)
    (hi' : i' < s'.threads.length) : Parallel R i i' s s' (s.saveLogs st) (s'.saveLogs st) := by
  unfold saveLogs
  cases hp : st.env.provider.provisioning with
  | none => exact .still rfl rfl hi hi' h
  | some p => exact parallel_call (henv.saveLogs p hp _) (fun _ _ => rfl) (fun _ => rfl) h hi hi'

theorem parallel_removeServers (h : s.Abreast R s') (hi : i < s.threads.length)
    (hi' : i' < s'.threads.length) :
    Parallel R i i' s s' (s.removeServers st) (s'.removeServers st) := by
  unfold removeServers
  cases hp : st.env.provider.provisioning with
  | none => exact .still rfl rfl hi hi' h
  | some p => exact parallel_call (henv.removeServers p hp _) (fun _ _ => rfl) (fun _ => rfl) h hi hi'

omit henv in
theorem parallel_emit (h : s.Abreast R s') (hi : i < s.threads.length) (hi' : i' < s'.threads.length) :
    Parallel R i i' s s' s.emit s'.emit := by
  refine .idle (emit_moves i s) (emit_moves i' s') hi hi' ⟨?_, h.templates, h.draws⟩
  have hprint : (s.scope.print s.report.render).Abreast R (s'.scope.print s'.report.render) :=
    ⟨h.scope.world, ⟨h.scope.rests.aliases, h.scope.rests.loops, h.scope.rests.topology⟩, h.scope.clock,
      h.scope.broken, h.scope.launched⟩
  exact hprint.record rfl

/-! ### Resolution -/

theorem parallel_clientOp (op : ClientOp) (h : s.Abreast R s') (hi : i < s.threads.length)
    (hi' : i' < s'.threads.length) : Parallel R i i' s s' (s.clientOp st op) (s'.clientOp st op) := by
  refine .idle (clientOp_moves st i s op).1 (clientOp_moves st i' s' op).1 hi hi' ?_
  have hcall : ∀ {f : Scope σ → Except RuntimeFault Unit × Scope σ} {line : LogLine},
      Scope.Keeping R f f → ((s.note line).clientCall f).Abreast R ((s'.note line).clientCall f) :=
    fun hf => abreast_attempt hf (abreast_note h _) _
  unfold clientOp
  rw [h.scope.rests.aliases]
  cases s.scope.aliases.get? op.container with
  | none => exact abreast_note h _
  | some handle =>
    simp only []
    split
    · exact hcall (Scope.keeping_call (henv.kill handle) fun _ _ => rfl)
    · exact hcall (Scope.keeping_remove henv handle)
    · exact hcall (Scope.keeping_remove henv handle)
    · exact hcall (Scope.keeping_call (henv.copy handle _ _) fun _ _ => rfl)
    · exact hcall (Scope.keeping_call (henv.copy handle _ _) fun _ _ => rfl)
    · exact abreast_note h _

theorem abreast_scopePath (spec : String) (h : s.Abreast R s') :
    (s.scopePath st spec).1 = (s'.scopePath st spec).1 ∧
      (s.scopePath st spec).2.Abreast R (s'.scopePath st spec).2 := by
  unfold scopePath
  rcases he : s.within (Scope.evaluate st.env spec) with ⟨r, t⟩
  rcases he' : s'.within (Scope.evaluate st.env spec) with ⟨r', t'⟩
  obtain ⟨rfl, ht⟩ := within_eq (Scope.keeping_evaluate henv spec) h he he'
  cases r with
  | ok => exact ⟨rfl, ht⟩
  | error => exact ⟨rfl, abreast_note ht _⟩

theorem parallel_changeScope (spec : String) (h : s.Abreast R s') (hi : i < s.threads.length)
    (hi' : i' < s'.threads.length) :
    Parallel R i i' s s' (s.changeScope st i spec) (s'.changeScope st i' spec) := by
  obtain ⟨hr, hs⟩ := abreast_scopePath henv spec h
  have hm := (scopePath_moves st i s spec).1
  have hm' := (scopePath_moves st i' s' spec).1
  unfold changeScope
  rcases he : s.scopePath st spec with ⟨path, t⟩
  rcases he' : s'.scopePath st spec with ⟨path', t'⟩
  rw [he, he'] at hr hs
  rw [he] at hm
  rw [he'] at hm'
  obtain rfl : path = path' := hr
  have hread : Parallel R i i' s s' t t' := .idle hm hm' hi hi' hs
  refine hread.trans ?_
  simp only []
  rw [← Scope.files_eq henv hs.scope]
  cases (t.scope.files st.env).readTopology path with
  | ok target => exact .push hread.there.1 hread.there.2 (alike_refl _) hs
  | error =>
    exact .note _ hread.there.1 hread.there.2 hs

theorem parallel_nestedTest (path : String) (h : s.Abreast R s') (hi : i < s.threads.length)
    (hi' : i' < s'.threads.length) :
    Parallel R i i' s s' (s.nestedTest st i path) (s'.nestedTest st i' path) := by
  have hnote : ∀ line, Parallel R i i' s s' (s.note line) (s'.note line) := fun line =>
    .note line hi hi' h
  unfold nestedTest
  rw [← Scope.files_eq henv h.scope, h.scope.rests.loops]
  cases (s.scope.files st.env).readActions path with
  | ok actions =>
    have hn := hnote (.info "running nested test")
    exact hn.trans (.push hn.there.1 hn.there.2 (alike_refl _) hn.abreast)
  | error => exact hnote _

theorem parallel_includeFiles (files : String) (h : s.Abreast R s') (hi : i < s.threads.length)
    (hi' : i' < s'.threads.length) :
    Parallel R i i' s s' (s.includeFiles st files) (s'.includeFiles st files) := by
  refine .idle (includeFiles_moves st i s files).1 (includeFiles_moves st i' s' files).1 hi hi' ?_
  have hbad : ∀ (l : List Nat) (s s' : State σ), s.Abreast R s' →
      (l.foldl (fun s _ => s.note (.warn "invalid include pattern")) s).Abreast R
        (l.foldl (fun s _ => s.note (.warn "invalid include pattern")) s') := by
    intro l
    induction l with
    | nil => exact fun _ _ h => h
    | cons _ l ih => exact fun s s' h => ih _ _ (abreast_note h _)
  have hpaths : ∀ (fs : Files) (l : List String) (s s' : State σ), s.Abreast R s' →
      (l.foldl (includeFile fs) s).Abreast R (l.foldl (includeFile fs) s') := by
    intro fs l
    induction l with
    | nil => exact fun _ _ h => h
    | cons path l ih =>
      refine fun s s' h => ih _ _ ?_
      unfold includeFile
      cases fs.readTemplates path with
      | ok templates => exact ⟨h.scope, congrArg (·.insertAll templates) h.templates, h.draws⟩
      | error => exact abreast_note h _
  unfold includeFiles
  rw [← Scope.files_eq henv h.scope]
  exact hpaths _ _ _ _ (hbad _ _ _ h)

theorem abreast_unrolled (a : Action) (h : s.Abreast R s') :
    (s.unrolled st a).1 = (s'.unrolled st a).1 ∧
      (s.unrolled st a).2.Abreast R (s'.unrolled st a).2 := by
  unfold unrolled
  rcases he : s.within (Scope.evaluate st.env a.loopExpression) with ⟨r, t⟩
  rcases he' : s'.within (Scope.evaluate st.env a.loopExpression) with ⟨r', t'⟩
  obtain ⟨rfl, ht⟩ := within_eq (Scope.keeping_evaluate henv a.loopExpression) h he he'
  cases r with
  | ok text =>
    simp only []
    split
    · exact ⟨rfl, ht⟩
    · exact ⟨rfl, abreast_note ht _⟩
  | error => exact ⟨rfl, abreast_note ht _⟩

theorem abreast_referred (a : Action) (h : s.Abreast R s') :
    (s.referred st a).1 = (s'.referred st a).1 ∧
      (s.referred st a).2.Abreast R (s'.referred st a).2 := by
  unfold referred
  rw [h.templates]
  cases s.templates.get? a.template with
  | none => exact ⟨rfl, abreast_note h _⟩
  | some body =>
    simp only []
    rcases he : s.within (Scope.evaluate st.env a.args) with ⟨r, t⟩
    rcases he' : s'.within (Scope.evaluate st.env a.args) with ⟨r', t'⟩
    obtain ⟨rfl, ht⟩ := within_eq (Scope.keeping_evaluate henv a.args) h he he'
    cases r with
    | ok => exact ⟨rfl, ht⟩
    | error => exact ⟨rfl, abreast_note ht _⟩

omit henv in
theorem parallel_enter (pass : Nat) {r r' : Option (List Action) × State σ} (hr : r.1 = r'.1)
    (h : Parallel R i i' s s' r.2 r'.2) : Parallel R i i' s s' (enter i pass r) (enter i' pass r') := by
  rcases r with ⟨actions, t⟩
  rcases r' with ⟨actions', t'⟩
  obtain rfl : actions = actions' := hr
  cases actions with
  | none => exact h
  | some actions => exact h.trans (.push h.there.1 h.there.2 (alike_refl _) h.abreast)

theorem parallel_resolve (pass : Nat) (a : Action) (h : s.Abreast R s') (hi : i < s.threads.length)
    (hi' : i' < s'.threads.length) :
    Parallel R i i' s s' (s.resolve st i pass a) (s'.resolve st i' pass a) := by
  unfold resolve
  cases a.directive with
  | client op => exact parallel_clientOp henv op h hi hi'
  | scope spec => exact parallel_changeScope henv spec h hi hi'
  | test path => exact parallel_nestedTest henv path h hi hi'
  | includes files => exact parallel_includeFiles henv files h hi hi'
  | foreach =>
    obtain ⟨hr, hs⟩ := abreast_unrolled henv a h
    exact parallel_enter pass hr
      (.idle (unrolled_moves st i s a).1 (unrolled_moves st i' s' a).1 hi hi' hs)
  | template =>
    obtain ⟨hr, hs⟩ := abreast_referred henv a h
    exact parallel_enter pass hr
      (.idle (referred_moves st i s a).1 (referred_moves st i' s' a).1 hi hi' hs)
  | plain => exact .still rfl rfl hi hi' h

theorem parallel_walk (pass : Nat) {last last' : Option Action} {rest rest' : List Action}
    (hlast : last'.map Action.unwaited = last.map Action.unwaited)
    (hrest : List.Forall₂ Action.Alike rest rest') (h : s.Abreast R s') (hi : i < s.threads.length)
    (hi' : i' < s'.threads.length) :
    Parallel R i i' s s' (s.walk st i pass last rest) (s'.walk st i' pass last' rest') := by
  cases hrest with
  | nil => exact .still rfl rfl hi hi' h
  | @cons a a' rest rest' ha hrest =>
    unfold walk
    simp only []
    rw [ha.directive]
    by_cases hd : a.directive = .plain
    · have hnext : (a'.carryForward last').unwaited = (a.carryForward last).unwaited := by
        rw [Action.unwaited_carryForward, Action.unwaited_carryForward, ha.unwaited, hlast]
      rw [hd]
      refine .push hi hi' (.cons (.dispatch _ _ hnext) (.cons ?_ .nil)) h
      exact .walk pass _ _ rest rest' (congrArg some hnext) hrest
    · obtain rfl := ha.eq hd
      have hpush : Parallel R i i' s s' (s.push i [.walk pass last rest])
          (s'.push i' [.walk pass last' rest']) :=
        .push hi hi' (.cons (.walk pass last last' rest rest' hlast hrest) .nil) h
      have hresolve := hpush.trans
        (parallel_resolve henv pass a' hpush.abreast hpush.there.1 hpush.there.2)
      cases hx : a'.directive <;> first | exact hresolve | exact absurd hx hd

omit henv in
theorem parallel_provideScope (target : Topology) (hp : st.Provides R) (h : s.Abreast R s')
    (hi : i < s.threads.length) (hi' : i' < s'.threads.length) :
    Parallel R i i' s s' (s.provideScope st target) (s'.provideScope st target) := by
  have htop : s'.provision? st target = s.provision? st target := by
    unfold provision?
    rw [h.scope.rests.topology]
  unfold provideScope
  rw [htop]
  cases s.provision? st target with
  | none =>
    exact .still rfl rfl hi hi' ⟨h.scope.break_, h.templates, h.draws⟩
  | some t =>
    have hcall : Parallel R i i' s s'
        (s.attempt (Scope.provide st.env t) (.error "could not provide servers for new scope"))
        (s'.attempt (Scope.provide st.env t) (.error "could not provide servers for new scope")) :=
      parallel_call (hp t) (fun _ _ => rfl) (fun _ => rfl) h hi hi'
    refine hcall.trans ?_
    have hs := hcall.abreast
    have hi := hcall.there.1
    have hi' := hcall.there.2
    simp only []
    generalize s.attempt (Scope.provide st.env t)
      (.error "could not provide servers for new scope") = u at hs hi ⊢
    generalize s'.attempt (Scope.provide st.env t)
      (.error "could not provide servers for new scope") = u' at hs hi' ⊢
    have hreplace : ({ u.scope with topology := target }).Abreast R { u'.scope with topology := target } :=
      ⟨hs.scope.world, ⟨hs.scope.rests.aliases, hs.scope.rests.loops, rfl⟩, hs.scope.clock,
        hs.scope.broken, hs.scope.launched⟩
    by_cases hb : u.scope.broken = true
    · rw [if_pos hb, if_pos (hs.scope.broken.trans hb)]
      exact .still rfl rfl hi hi' hs
    · rw [if_neg hb, if_neg fun hb' => hb (hs.scope.broken.symm.trans hb')]
      split_ifs
      · exact .still rfl rfl hi hi' ⟨hreplace.note _, hs.templates, hs.draws⟩
      · exact .still rfl rfl hi hi' ⟨hreplace.break_.note (.info "scope changed"), hs.templates, hs.draws⟩

/-! ### Dispatch -/

theorem keeping_requirement (requires : String) :
    Scope.Keeping R (st.requirement requires) (st.requirement requires) := by
  intro s s' h
  unfold Settings.requirement
  split_ifs
  · exact ⟨rfl, h⟩
  · rcases hx : s.condition st.env requires with ⟨r, t⟩
    rcases hx' : s'.condition st.env requires with ⟨r', t'⟩
    obtain ⟨rfl, ht⟩ := (Scope.keeping_condition henv requires).eq h hx hx'
    rcases r with _ | _ | _
    · exact ⟨rfl, (ht.note _).note _⟩
    · exact ⟨rfl, ht.note _⟩
    · exact ⟨rfl, ht⟩

theorem keeping_duration (text : String) :
    Scope.Keeping R (st.duration text) (st.duration text) := by
  intro s s' h
  unfold Settings.duration
  split_ifs
  · exact ⟨rfl, h⟩
  · rcases hx : s.evaluate st.env text with ⟨r, t⟩
    rcases hx' : s'.evaluate st.env text with ⟨r', t'⟩
    obtain ⟨rfl, ht⟩ := (Scope.keeping_evaluate henv text).eq h hx hx'
    cases r with
    | error => exact ⟨rfl, ht.note _⟩
    | ok value =>
      simp only []
      split
      · exact ⟨rfl, ht⟩
      · exact ⟨rfl, ht.note _⟩
      · exact ⟨rfl, ht⟩

theorem keeping_concurrency (text : String) :
    Scope.Keeping R (st.concurrency text) (st.concurrency text) := by
  intro s s' h
  unfold Settings.concurrency
  split_ifs
  · exact ⟨rfl, h⟩
  · rcases hx : s.evaluate st.env text with ⟨r, t⟩
    rcases hx' : s'.evaluate st.env text with ⟨r', t'⟩
    obtain ⟨rfl, ht⟩ := (Scope.keeping_evaluate henv text).eq h hx hx'
    simp only []
    split
    · exact ⟨rfl, ht⟩
    · exact ⟨rfl, ht.note _⟩

theorem keeping_decide (a : Action) : Scope.Keeping R (st.decide a) (st.decide a) := by
  intro s s' h
  unfold Settings.decide
  rcases h₁ : st.requirement a.requires s with ⟨r, t⟩
  rcases h₁' : st.requirement a.requires s' with ⟨r', t'⟩
  obtain ⟨rfl, h⟩ := (keeping_requirement henv a.requires).eq h h₁ h₁'
  cases r with
  | false => exact ⟨rfl, h⟩
  | true =>
    simp only []
    rcases h₂ : t.compileCommand st.env a.command with ⟨c, u⟩
    rcases h₂' : t'.compileCommand st.env a.command with ⟨c', u'⟩
    obtain ⟨rfl, h⟩ := (Scope.keeping_compileCommand henv a.command).eq h h₂ h₂'
    cases c with
    | error => exact ⟨rfl, h.note _⟩
    | ok command =>
      simp only []
      rcases h₃ : st.duration a.duration u with ⟨d, v⟩
      rcases h₃' : st.duration a.duration u' with ⟨d', v'⟩
      obtain ⟨rfl, h⟩ := (keeping_duration henv a.duration).eq h h₃ h₃'
      cases d with
      | none => exact ⟨rfl, h⟩
      | some limit =>
        simp only []
        rcases h₄ : st.concurrency a.concurrency v with ⟨n, x⟩
        rcases h₄' : st.concurrency a.concurrency v' with ⟨n', x'⟩
        obtain ⟨rfl, h⟩ := (keeping_concurrency henv a.concurrency).eq h h₄ h₄'
        simp only [Scope.links_eq henv h]
        exact ⟨trivial, h⟩

end State

end Jobs

end Run

end Workload
