import Workload.Proofs.Lines
import Workload.Proofs.Twins

/-!
# Runs side by side

Two runs whose actions are the same but for waits have the same launches, as long as no launch breaks off:
what is left of them is the same but for waits after the same number of steps that matter
(`related_of_chronicles`), whatever else happens in between.
-/

namespace Workload

/-- Whether a launch is waited for makes no difference to it. -/
def Environment.Indifferent {σ : Type} (env : Environment σ) (R : σ → σ → Prop) : Prop :=
  ∀ task task', task'.unwaited = task.unwaited →
    Respecting R (env.runtime.run task) (env.runtime.run task')

namespace Run

variable {σ : Type} {R : σ → σ → Prop}

/-! ## Scopes at different times -/

namespace State

variable {s s' t : State σ}

/-- Two states abreast, whatever time it is in them. -/
def Beside (R : σ → σ → Prop) (s s' : State σ) : Prop := (s.setClock 0).Abreast R (s'.setClock 0)

theorem Abreast.beside (h : s.Abreast R s') : s.Beside R s' :=
  ⟨⟨h.scope.world, ⟨h.scope.rests.aliases, h.scope.rests.loops, h.scope.rests.topology⟩, rfl,
    h.scope.broken, h.scope.launched⟩, h.templates, h.draws⟩

theorem Beside.abreast (h : s.Beside R s') (hc : s'.scope.clock = s.scope.clock) : s.Abreast R s' :=
  ⟨⟨h.scope.world, ⟨h.scope.rests.aliases, h.scope.rests.loops, h.scope.rests.topology⟩, hc,
    h.scope.broken, h.scope.launched⟩, h.templates, h.draws⟩

theorem Beside.left (h : s.Beside R s') (hst : Still s t) (hb : t.scope.broken = s.scope.broken) :
    t.Beside R s' := by
  refine ⟨⟨?_, ⟨?_, ?_, ?_⟩, rfl, ?_, ?_⟩, ?_, ?_⟩
  · show R t.scope.world s'.scope.world
    rw [hst.world]
    exact h.scope.world
  · exact h.scope.rests.aliases.trans hst.rests.scope.aliases.symm
  · exact h.scope.rests.loops.trans hst.rests.scope.loops.symm
  · exact h.scope.rests.topology.trans hst.rests.scope.topology.symm
  · exact h.scope.broken.trans hb.symm
  · exact h.scope.launched.trans hst.launched.symm
  · exact h.templates.trans hst.rests.templates.symm
  · exact h.draws.trans hst.rests.draws.symm

theorem Beside.right (h : s.Beside R s') (hst : Still s' t) (hb : t.scope.broken = s'.scope.broken) :
    s.Beside R t := by
  refine ⟨⟨?_, ⟨?_, ?_, ?_⟩, rfl, ?_, ?_⟩, ?_, ?_⟩
  · show R s.scope.world t.scope.world
    rw [hst.world]
    exact h.scope.world
  · exact hst.rests.scope.aliases.trans h.scope.rests.aliases
  · exact hst.rests.scope.loops.trans h.scope.rests.loops
  · exact hst.rests.scope.topology.trans h.scope.rests.topology
  · exact hb.trans h.scope.broken
  · exact hst.launched.trans h.scope.launched
  · exact hst.rests.templates.trans h.templates
  · exact hst.rests.draws.trans h.draws

end State

/-! ## Jobs side by side -/

theorem Job.Alike.staged {j j' : Job} (h : j.Alike j') (hj : j.staged = true) : j'.staged = true := by
  cases h <;> exact hj

theorem Job.Alike.not_dispatch {j j' : Job} (h : j.Alike j') (hj : ∀ a, j ≠ .dispatch a) :
    ∀ a, j' ≠ .dispatch a := by
  rintro a rfl
  cases h with
  | same => exact hj a rfl
  | dispatch a₀ => exact hj a₀ rfl

theorem Job.Alike.of_dispatch {a : Action} {j' : Job} (h : (Job.dispatch a).Alike j') :
    ∃ a', j' = .dispatch a' ∧ a'.unwaited = a.unwaited := by
  cases h with
  | same => exact ⟨a, rfl, rfl⟩
  | dispatch _ a' ha => exact ⟨a', rfl, ha⟩

theorem Job.Alike.dispatched {a' : Action} {j : Job} (h : j.Alike (.dispatch a')) :
    ∃ a, j = .dispatch a ∧ a'.unwaited = a.unwaited := by
  cases h with
  | same => exact ⟨a', rfl, rfl⟩
  | dispatch a _ ha => exact ⟨a, rfl, ha⟩

theorem Job.Alike.of_control {task : Task} {a : Action} {j' : Job} (h : (Job.control task a).Alike j') :
    ∃ task' a', j' = .control task' a' ∧ task'.unwaited = task.unwaited ∧ a'.unwaited = a.unwaited := by
  cases h with
  | same => exact ⟨task, a, rfl, rfl, rfl⟩
  | control _ task' _ a' ht ha => exact ⟨task', a', rfl, ht, ha⟩

theorem Job.Alike.of_launch {k : Ticket} {j' : Job} (h : (Job.launch k).Alike j') :
    ∃ k', j' = .launch k' ∧ k'.task.unwaited = k.task.unwaited ∧ k'.alias_ = k.alias_ := by
  cases h with
  | same => exact ⟨k, rfl, rfl, rfl⟩
  | launch _ task' alias_ repeats until_ ht => exact ⟨_, rfl, ht, rfl⟩

section Jobs

variable {st : Settings σ} (henv : st.env.Respects R) {i i' : ThreadId} {j j' : Job} {s s' : State σ}

theorem alike_actions (actions : List Action) : List.Forall₂ Action.Alike actions actions :=
  List.forall₂_same.2 fun _ _ => .inl rfl

include henv

/-- Jobs of the run that are the same but for waits, done in states abreast, leave such jobs. -/
theorem parallel_perform (hp : st.Provides R) (hj : j.staged = true) (hd : ∀ a, j ≠ .dispatch a)
    (ha : j.Alike j') (h : s.Abreast R s') (hi : i < s.threads.length) (hi' : i' < s'.threads.length) :
    Parallel R i i' s s' (j.perform st i s) (j'.perform st i' s') := by
  cases ha with
  | same j =>
    cases j with
    | opening calls inv =>
      exact State.parallel_opening henv calls (fun _ => hp) (alike_actions inv.actions) h hi hi'
    | passes inv limit pass => exact State.parallel_passes limit pass (alike_actions inv.actions) h hi hi'
    | reclaim occasion => exact State.parallel_reclaim henv occasion h hi hi'
    | emit => exact State.parallel_emit h hi hi'
    | teardown | leaveScope => exact State.parallel_hook henv .teardown h hi hi'
    | enterScope => exact State.parallel_hook henv .setup h hi hi'
    | saveLogs => exact State.parallel_saveLogs henv h hi hi'
    | removeServers => exact State.parallel_removeServers henv h hi hi'
    | setLoops pass =>
      exact .still rfl rfl hi hi' ⟨⟨h.scope.world, ⟨h.scope.rests.aliases, rfl, h.scope.rests.topology⟩,
        h.scope.clock, h.scope.broken, h.scope.launched⟩, h.templates, h.draws⟩
    | walk pass last rest => exact State.parallel_walk henv pass rfl (alike_actions rest) h hi hi'
    | provideScope target => exact State.parallel_provideScope target hp h hi hi'
    | endCollection => exact .still rfl rfl hi hi' ⟨h.scope, h.templates, h.draws⟩
    | dispatch a => exact absurd rfl (hd a)
    | _ => cases hj
  | opening calls phases nested actions actions' hacts =>
    exact State.parallel_opening henv calls (fun _ => hp) hacts h hi hi'
  | passes phases nested actions actions' limit pass hacts =>
    exact State.parallel_passes limit pass hacts h hi hi'
  | walk pass last last' rest rest' hlast hrest => exact State.parallel_walk henv pass hlast hrest h hi hi'
  | dispatch a a' => exact absurd rfl (hd a)
  | control | launch => cases hj

end Jobs

/-! ## Tasks side by side -/

section Tasks

variable {st : Settings σ} {i i' : ThreadId} {s s' : State σ}

theorem abreast_aliasOf {a a' : Action} (ha : a'.unwaited = a.unwaited) (h : s.Abreast R s') :
    (s'.aliasOf st a').1 = (s.aliasOf st a).1 ∧
      (s.aliasOf st a).2.Abreast R (s'.aliasOf st a').2 := by
  have hname : a'.alias_ = a.alias_ :=
    show a'.unwaited.alias_ = a.unwaited.alias_ from congrArg Action.alias_ ha
  unfold State.aliasOf
  rw [hname, h.draws]
  split_ifs
  · exact ⟨rfl, h.scope, h.templates, rfl⟩
  · exact ⟨rfl, h⟩

theorem abreast_control {task task' : Task} {a a' : Action} (ha : a'.unwaited = a.unwaited)
    (h : s.Abreast R s') : (s.control st i task a).Abreast R (s'.control st i' task' a') := by
  have hs : (s.aliasOf st a).2.Abreast R (s'.aliasOf st a').2 := (abreast_aliasOf ha h).2
  exact ⟨hs.scope, hs.templates, hs.draws⟩

theorem abreast_launched {k k' : Ticket} (ht : k'.task.unwaited = k.task.unwaited)
    (hname : k'.alias_ = k.alias_) (l : Launch) (c c' : ChannelId) (h : s.Abreast R s') :
    (s.launched i k none l c).Abreast R (s'.launched i' k' none l c') := by
  have hdesc : k'.task.describe = k.task.describe :=
    show k'.task.unwaited.describe = k.task.unwaited.describe from congrArg Task.describe ht
  have hnote : ({ s.scope with aliases := s.scope.aliases.put k.alias_ l.handle }.note
      (.info k.task.describe)).Abreast R
      ({ s'.scope with aliases := s'.scope.aliases.put k'.alias_ l.handle }.note
        (.info k'.task.describe)) := by
    rw [hdesc, hname, h.scope.rests.aliases]
    refine Scope.Abreast.note ?_ _
    exact ⟨h.scope.world, ⟨rfl, h.scope.rests.loops, h.scope.rests.topology⟩, h.scope.clock,
      h.scope.broken, h.scope.launched⟩
  unfold State.launched
  simp only []
  split_ifs <;> exact ⟨hnote, h.templates, h.draws⟩

/-- The launch of a task that nobody watches leaves states abreast. -/
theorem abreast_launch {k k' : Ticket} (hrun : st.env.Indifferent R) (hprompt : st.env.Prompt)
    (ht : k'.task.unwaited = k.task.unwaited) (hname : k'.alias_ = k.alias_)
    (hk : k.until_.isEmpty = true) (hk' : k'.until_.isEmpty = true) (h : s.Abreast R s') :
    (s.launch st i k).Abreast R (s'.launch st i' k') := by
  have hcommand : k'.task.command = k.task.command :=
    show k'.task.unwaited.command = k.task.unwaited.command from congrArg Task.command ht
  have hw : s.spawnWatcher k = (none, s) := if_pos hk
  have hw' : s'.spawnWatcher k' = (none, s') := if_pos hk'
  unfold State.launch
  rw [hcommand]
  split_ifs
  · exact h
  simp only [hw, hw']
  rcases he : s.within (Scope.launch st.env k.task) with ⟨r, t⟩
  rcases he' : s'.within (Scope.launch st.env k'.task) with ⟨r', t'⟩
  have hresult : (st.env.runtime.run k.task s.scope.world).1.result = r := congrArg Prod.fst he
  obtain ⟨rfl, hs⟩ := State.within_eq (Scope.keeping_launch (hrun _ _ ht) ht) h he he'
  simp only [hs.scope.broken]
  split_ifs
  · exact hs
  cases r with
  | ok l =>
    obtain ⟨signals, hsig⟩ := hprompt _ _ _ hresult
    show (t.created i k none l).Abreast R (t'.created i' k' none l)
    unfold State.created
    rw [hsig]
    exact abreast_launched ht hname l _ _ ⟨hs.scope, hs.templates, hs.draws⟩
  | error fault => exact ⟨hs.scope.note _, hs.templates, hs.draws⟩

end Tasks

/-! ## Lines side by side -/

/-- Two lines that are the same but for waits. -/
structure Line.Alike (l l' : Line) : Prop where
  errand : Option.Rel Job.Alike l.errand l'.errand
  time : l'.time = l.time
  rest : List.Forall₂ Job.Alike l.rest l'.rest

/-- A decision, whether or not the task is waited for. -/
def Decision.unwaited : Decision → Decision
  | .launch task => .launch task.unwaited
  | d => d

section Lines

variable {st : Settings σ} {i i' : ThreadId} {j j' : Job} {s s' : State σ} {a a' : Action}

theorem decide_unwaited (st : Settings σ) (a : Action) (sc : Scope σ) :
    (st.decide a sc).1.unwaited = (st.decide a.unwaited sc).1.unwaited ∧
      (st.decide a sc).2 = (st.decide a.unwaited sc).2 := by
  unfold Settings.decide
  rw [show a.unwaited.requires = a.requires from rfl]
  rcases st.requirement a.requires sc with ⟨_ | _, sc₁⟩
  · exact ⟨rfl, rfl⟩
  simp only []
  rw [show a.unwaited.command = a.command from rfl]
  rcases sc₁.compileCommand st.env a.command with ⟨_ | _, sc₂⟩
  · exact ⟨rfl, rfl⟩
  simp only []
  rw [show a.unwaited.duration = a.duration from rfl]
  rcases st.duration a.duration sc₂ with ⟨_ | _, sc₃⟩
  · exact ⟨rfl, rfl⟩
  · exact ⟨rfl, rfl⟩

theorem alike_decide (henv : st.env.Respects R) (ha : a'.unwaited = a.unwaited) {sc sc' : Scope σ}
    (h : sc.Abreast R sc') : (st.decide a' sc').1.unwaited = (st.decide a sc).1.unwaited ∧
      (st.decide a sc).2.Abreast R (st.decide a' sc').2 := by
  obtain ⟨hr, hs⟩ := State.keeping_decide henv a.unwaited sc sc' h
  rw [(decide_unwaited st a sc).1, (decide_unwaited st a' sc').1, (decide_unwaited st a sc).2,
    (decide_unwaited st a' sc').2, ha, hr]
  exact ⟨rfl, hs⟩

theorem alike_lineOf {d d' : Decision} {sc sc' : Scope σ} {rest rest' : List Job} (time : Nat)
    (ha : a'.unwaited = a.unwaited) (hd : d'.unwaited = d.unwaited) (hb : sc'.broken = sc.broken)
    (hrest : List.Forall₂ Job.Alike rest rest') :
    (st.lineOf a time rest (d, sc)).Alike (st.lineOf a' time rest' (d', sc')) := by
  cases d <;> cases d' <;> first | cases hd | skip
  · refine ⟨.none, rfl, ?_⟩
    show List.Forall₂ _ (if sc.broken then [] else rest) (if sc'.broken then [] else rest')
    rw [hb]
    split_ifs
    · exact .nil
    · exact hrest
  · rename_i task task'
    unfold Settings.lineOf
    simp only [hb]
    split_ifs
    · exact ⟨.none, rfl, .nil⟩
    · refine ⟨.some (.control task task' a a' ?_ ha), rfl, hrest⟩
      injection hd
  · exact ⟨.none, rfl, .nil⟩

theorem abreast_endBroken (h : s.Abreast R s') : (s.endBroken i).Abreast R (s'.endBroken i') := by
  unfold State.endBroken
  rw [h.scope.broken]
  split_ifs
  · exact ⟨⟨h.scope.world, ⟨h.scope.rests.aliases, h.scope.rests.loops, h.scope.rests.topology⟩,
      h.scope.clock, rfl, h.scope.launched⟩, h.templates, h.draws⟩
  · exact h

theorem abreast_decided {r r' : Decision} (h : s.Abreast R s') :
    (s.decided st i a r).Abreast R (s'.decided st i' a' r') := by
  have hsame : ∀ (p : State σ) (n : ThreadId) (a : Action) (r : Decision),
      (p.decided st n a r).scope = p.scope ∧ (p.decided st n a r).templates = p.templates ∧
        (p.decided st n a r).draws = p.draws := by
    intro p n a r
    unfold State.decided
    cases r with
    | launch task =>
      simp only []
      split_ifs <;> exact ⟨rfl, rfl, rfl⟩
    | _ => exact ⟨rfl, rfl, rfl⟩
  obtain ⟨hscope, htemplates, hdraws⟩ := hsame s i a r
  obtain ⟨hscope', htemplates', hdraws'⟩ := hsame s' i' a' r'
  exact ⟨by rw [hscope, hscope']; exact h.scope, by rw [htemplates, htemplates', h.templates],
    by rw [hdraws, hdraws', h.draws]⟩

theorem abreast_dispatch (henv : st.env.Respects R) (ha : a'.unwaited = a.unwaited)
    (h : s.Abreast R s') : (s.dispatch st i a).Abreast R (s'.dispatch st i' a') := by
  rw [State.dispatch_eq, State.dispatch_eq]
  exact abreast_decided ⟨(alike_decide henv ha h.scope).2, h.templates, h.draws⟩

/-- In two runs with the same line, but for waits, the next jobs that matter are the same, but for waits,
and done at the same time. -/
theorem alike_next {l l' : Line} (hs : Shows st s l) (hs' : Shows st s' l') (hl : l.Alike l')
    (h : s.next? i = some j) (h' : s'.next? i' = some j') (hj : j.idle = false) (hj' : j'.idle = false) :
    j.Alike j' ∧ s'.scope.clock = s.scope.clock := by
  obtain ⟨herrand, htime, hrest⟩ := hl
  rcases hs.next h hj with ⟨js, -, -, -, -, rfl⟩ | ⟨_, rest, -, -, -, -, -, rfl⟩ <;>
  rcases hs'.next h' hj' with ⟨js', -, -, -, -, rfl⟩ | ⟨_, rest', -, -, -, -, -, rfl⟩
  · exact ⟨(List.forall₂_cons.1 hrest).1, htime⟩
  · cases herrand
  · cases herrand
  · cases herrand with
    | some ha => exact ⟨ha, Nat.add_right_cancel htime⟩

end Lines

/-! ## Whether the first thread breaks off -/

/-- Whether a decision is that the thread breaks off. -/
def Decision.crashes : Decision → Bool
  | .crash => true
  | _ => false

theorem Decision.crashes_unwaited (r : Decision) : r.unwaited.crashes = r.crashes := by
  cases r <;> rfl

section Fell

variable {st : Settings σ} {i : ThreadId} {j : Job} {s s' : State σ} {t : Thread}

/-- A job that asks for nothing that cannot be done does not make the first thread break off. -/
theorem fell_of_unbroken (h : Stepped st i j s s') (hd : ∀ a, j ≠ .dispatch a)
    (hb : (j.perform st i (s.pop i)).scope.broken = false) : s'.fell = s.fell := by
  by_cases hi0 : i = 0
  · subst hi0
    obtain ⟨t, js, -, -, -, ht, hj, -⟩ := h.moves
    have hpop := State.pop_getElem? ht
    obtain ⟨⟨new, spawned, -, hm | ⟨⟨a, ha⟩, -⟩⟩, -⟩ := j.perform_effect st 0 (s.pop 0)
    · obtain ⟨n, hn⟩ := hm.threads _ hpop
      have hself : s'.threads[0]? = some ⟨new ++ t.jobs.tail, n, t.crashed⟩ := by
        have hlen := (List.getElem?_eq_some_iff.1 hpop).1
        rw [h.result, State.endBroken_of_unbroken hb, hn, List.getElem?_append_left (by simpa using hlen),
          List.getElem?_set_self hlen]
      rw [fell_eq hself, fell_eq ht]
    · exact absurd ha (hd a)
  · exact (main_step h).elim (fun h => absurd h.1 hi0) fun h => h.2.2.2

theorem getElem?_push {jobs : List Job} (ht : s.threads[i]? = some t) :
    (s.push i jobs).threads[i]? = some { t with jobs := jobs ++ t.jobs } := by
  unfold State.push
  rw [List.getElem?_modify_eq, ht]
  rfl

theorem fell_crash (ht : s.threads[0]? = some t) : (s.crash 0).fell = true := by
  unfold State.fell State.crash
  rw [List.getElem?_modify_eq, ht]
  rfl

theorem fell_endBroken (ht : s.threads[0]? = some t) :
    (s.endBroken 0).fell = (s.scope.broken || s.fell) := by
  unfold State.endBroken
  split_ifs with hb
  · rw [hb, Bool.true_or]
    exact fell_crash ht
  · have hunbroken : s.scope.broken = false := Bool.not_eq_true _ ▸ hb
    rw [hunbroken, Bool.false_or]

/-- The first thread breaks off in the middle of what asks for something that cannot be done. -/
theorem fell_step (h : Stepped st 0 j s s') (hd : ∀ a, j ≠ .dispatch a) :
    s'.fell = ((j.perform st 0 (s.pop 0)).scope.broken || s.fell) := by
  cases hb : (j.perform st 0 (s.pop 0)).scope.broken with
  | false =>
    rw [Bool.false_or]
    exact fell_of_unbroken h hd hb
  | true =>
    obtain ⟨t, -, t', new, spawned, ht, -, -, hth, -⟩ := h.moves
    have hself := (Stepped.getElem?_threads hth (List.getElem?_eq_some_iff.1 ht).1).1
    rw [fell_eq hself, (h.breaksOff hb t' hself).2, Bool.true_or]

theorem fell_decided (st : Settings σ) (a : Action) (r : Decision) (ht : s.threads[0]? = some t) :
    ((s.decided st 0 a r).endBroken 0).fell = (r.crashes || s.scope.broken || s.fell) := by
  cases r with
  | skip => exact fell_endBroken ht
  | crash =>
    have hcrash : (s.crash 0).threads[0]? = some { t with jobs := [], crashed := true } := by
      unfold State.crash
      rw [List.getElem?_modify_eq, ht]
      rfl
    show ((s.crash 0).endBroken 0).fell = _
    rw [fell_endBroken hcrash, fell_eq hcrash, Bool.or_true]
    rfl
  | launch task =>
    rw [show Decision.crashes (.launch task) = false from rfl, Bool.false_or]
    unfold State.decided
    simp only []
    split_ifs with hb hw
    · exact fell_endBroken ht
    · exact (fell_endBroken (getElem?_push ht)).trans (by rw [fell_eq (getElem?_push ht), fell_eq ht]; rfl)
    · have hspawn : (s.spawn [.control task a]).threads[0]? = some t :=
        (List.getElem?_append_left (List.getElem?_eq_some_iff.1 ht).1).trans ht
      exact (fell_endBroken (getElem?_push hspawn)).trans
        (by rw [fell_eq (getElem?_push hspawn), fell_eq ht]; rfl)

/-- A dispatch makes the first thread break off if a duration is out of range or something was asked for
that cannot be done. -/
theorem fell_dispatch {a : Action} (h : Stepped st 0 (.dispatch a) s s') :
    s'.fell = ((st.decide a s.scope).1.crashes || (st.decide a s.scope).2.broken || s.fell) := by
  obtain ⟨t, js, -, -, -, ht, -⟩ := h.moves
  have hpop := State.pop_getElem? ht
  have hdecided := fell_decided (s := { s.pop 0 with scope := (st.decide a s.scope).2 }) st a
    (st.decide a s.scope).1 hpop
  rw [fell_eq (s := { s.pop 0 with scope := (st.decide a s.scope).2 }) hpop] at hdecided
  rw [h.result, fell_eq ht]
  show (((s.pop 0).dispatch st 0 a).endBroken 0).fell = _
  rw [State.dispatch_eq]
  exact hdecided

end Fell

/-! ## Runs side by side -/

/-- Whether nothing that is done waits for a condition, and no launch breaks off. -/
def Moment.plain (st : Settings σ) (m : Moment σ) : Bool :=
  match m.job with
  | .dispatch a => a.brief
  | .launch _ => !m.breaks st
  | _ => true

/-- The surroundings of a run make no difference that the relation leaves open, and nobody waits for signals
in it; there is a pause after each dispatch. -/
structure Settings.Neutral (st : Settings σ) (R : σ → σ → Prop) : Prop where
  respects : st.env.Respects R
  indifferent : st.env.Indifferent R
  provides : st.Provides R
  prompt : st.env.Prompt
  quiet : st.collects = false
  pause : 0 < st.config.timings.settle

/-- Nobody is left to send, and nothing has been asked for that cannot be done. -/
structure Sound (s : State σ) : Prop where
  unbroken : s.scope.broken = false
  unsent : Unsent s

/-- What happens from one state to another has no part in what is launched. -/
structure Quiet (st : Settings σ) (s t : State σ) : Prop where
  still : Still s t
  fell : t.fell = s.fell
  sound : Sound t
  shows : ∀ l, Shows st s l → Shows st t l

/-- Two states in which what is left of a run is the same but for waits. -/
structure Related (st : Settings σ) (R : σ → σ → Prop) (s s' : State σ) : Prop where
  left : Sound s
  right : Sound s'
  beside : s.Beside R s'
  fell : s'.fell = s.fell
  lines : ∃ l l', Shows st s l ∧ Shows st s' l' ∧ l.Alike l'

section Runs

variable {st : Settings σ} (hn : st.Neutral R) {i i' : ThreadId} {j j' : Job} {s s' t t' : State σ}

theorem Related.quiet_left (hr : Related st R s s') (hq : Quiet st s t) : Related st R t s' := by
  obtain ⟨l, l', hs, hs', hl⟩ := hr.lines
  exact ⟨hq.sound, hr.right, hr.beside.left hq.still (hq.sound.unbroken.trans hr.left.unbroken.symm),
    hr.fell.trans hq.fell.symm, l, l', hq.shows l hs, hs', hl⟩

theorem Related.quiet_right (hr : Related st R s s') (hq : Quiet st s' t) : Related st R s t := by
  obtain ⟨l, l', hs, hs', hl⟩ := hr.lines
  exact ⟨hr.left, hq.sound, hr.beside.right hq.still (hq.sound.unbroken.trans hr.right.unbroken.symm),
    hq.fell.trans hr.fell, l, l', hs, hq.shows l' hs', hl⟩

theorem Related.launched (hr : Related st R s s') : s'.scope.launched = s.scope.launched :=
  hr.beside.scope.launched

theorem quiet_clock {time : Nat} (hs : Sound s) (hen : ∀ i, s.enabled i = false)
    (hw : s.nextWake? = some time) : Quiet st s (s.setClock time) :=
  ⟨⟨rfl, ⟨⟨rfl, rfl, rfl⟩, rfl, rfl⟩, rfl⟩, rfl, ⟨hs.unbroken, hs.unsent⟩,
    fun _ hl => hl.clock hs.unsent hen hw⟩

include hn

theorem sound_step (hs : Sound s) (h : Stepped st i j s t) : Sound t :=
  ⟨h.unbroken, unsent_step hn.prompt hs.unsent h⟩

theorem quiet_idle (hs : Sound s) (h : Stepped st i j s t) (hj : j.idle = true) : Quiet st s t := by
  refine ⟨idle_still h hj, fell_of_unbroken h ?_ ?_, sound_step hn hs h,
    fun _ hl => hl.idle hn.pause hn.quiet hs.unbroken h hj⟩
  · rintro a rfl
    cases hj
  · exact (Job.steady_broken (steady_of_idle hj) st i (s.pop i)).trans hs.unbroken

omit hn in
theorem main_pop (s : State σ) : (s.pop 0).main = s.main.tail := by
  unfold State.main State.pop
  rw [List.getElem?_modify_eq]
  cases s.threads[0]? <;> rfl

omit hn in
theorem main_endBroken (s : State σ) : (s.endBroken 0).main = if s.scope.broken then [] else s.main := by
  split_ifs with hb
  · rw [State.endBroken_of_broken hb]
    exact main_crash _
  · rw [State.endBroken_of_unbroken (Bool.not_eq_true _ ▸ hb)]

/-- What comes of steps that matter in two runs: states abreast, and lines that are the same but for waits. -/
structure Follow (st : Settings σ) (R : σ → σ → Prop) (m m' : Moment σ) (t t' : State σ) : Prop where
  abreast : (m.job.perform st m.thread (m.before.pop m.thread)).Abreast R
    (m'.job.perform st m'.thread (m'.before.pop m'.thread))
  fell : t'.fell = t.fell
  lines : ∃ l l', Shows st t l ∧ Shows st t' l' ∧ l.Alike l'

section Follow

variable {l l' : Line} (hs : Shows st s l) (hs' : Shows st s' l') (hl : l.Alike l') (hst : s.Abreast R s')
  (hfell : s'.fell = s.fell)

include hs hs' hl hst hfell

theorem follow_staged (h : Stepped st i j s t) (h' : Stepped st i' j' s' t') (ha : j.Alike j')
    (hj : j.staged = true) (hd : ∀ a, j ≠ .dispatch a) : Follow st R ⟨s, i, j⟩ ⟨s', i', j'⟩ t t' := by
  obtain ⟨js, rfl, hmain, rfl, hline⟩ := hs.staged h hj hd
  obtain ⟨js', rfl, hmain', rfl, hline'⟩ := hs'.staged h' (ha.staged hj) (ha.not_dispatch hd)
  obtain ⟨v, -, -, -, -, hv, -⟩ := h.moves
  obtain ⟨v', -, -, -, -, hv', -⟩ := h'.moves
  have hp := parallel_perform hn.respects hn.provides hj hd ha
    (⟨hst.scope, hst.templates, hst.draws⟩ : (s.pop 0).Abreast R (s'.pop 0))
    (List.getElem?_eq_some_iff.1 (State.pop_getElem? hv)).1
    (List.getElem?_eq_some_iff.1 (State.pop_getElem? hv')).1
  have hfell' : t'.fell = t.fell := by
    rw [fell_step h hd, fell_step h' (ha.not_dispatch hd), hp.abreast.scope.broken, hfell]
  refine ⟨hp.abreast, hfell', _, _, hline, hline', .none, hst.scope.clock, ?_⟩
  obtain ⟨new, new', hnew, hnew', hrest⟩ := hp.jobs
  show List.Forall₂ Job.Alike t.main t'.main
  rw [h.result, h'.result, main_endBroken, main_endBroken, hp.abreast.scope.broken]
  split_ifs
  · exact .nil
  · rw [show (j.perform st 0 (s.pop 0)).main = _ from hnew,
      show (j'.perform st 0 (s'.pop 0)).main = _ from hnew']
    refine List.rel_append hrest ?_
    rw [show (s.pop 0).jobsOf 0 = _ from main_pop s, show (s'.pop 0).jobsOf 0 = _ from main_pop s', hmain,
      hmain']
    exact (List.forall₂_cons.1 hl.rest).2

theorem follow_dispatch {a a' : Action} (h : Stepped st i (.dispatch a) s t)
    (h' : Stepped st i' (.dispatch a') s' t') (ha : a'.unwaited = a.unwaited) (hb : a.brief = true) :
    Follow st R ⟨s, i, .dispatch a⟩ ⟨s', i', .dispatch a'⟩ t t' := by
  have hb' : a'.brief = true := (congrArg Action.brief ha).trans hb
  obtain ⟨js, rfl, rfl, hline⟩ := hs.dispatch hn.pause hb h
  obtain ⟨js', rfl, rfl, hline'⟩ := hs'.dispatch hn.pause hb' h'
  obtain ⟨hd, hsc⟩ := alike_decide hn.respects ha hst.scope
  refine ⟨abreast_dispatch hn.respects ha ⟨hst.scope, hst.templates, hst.draws⟩, ?_, _, _, hline, hline',
    ?_⟩
  · rw [fell_dispatch h, fell_dispatch h', hsc.broken, hfell, ← Decision.crashes_unwaited, hd,
      Decision.crashes_unwaited]
  rw [hst.scope.clock]
  exact alike_lineOf _ ha hd hsc.broken (List.forall₂_cons.1 hl.rest).2

omit hn in
theorem follow_control {task task' : Task} {a a' : Action} (h : Stepped st i (.control task a) s t)
    (h' : Stepped st i' (.control task' a') s' t') (ht : task'.unwaited = task.unwaited)
    (ha : a'.unwaited = a.unwaited) (hb : s.scope.broken = false) :
    Follow st R ⟨s, i, .control task a⟩ ⟨s', i', .control task' a'⟩ t t' := by
  obtain ⟨rest, rfl, hline⟩ := hs.control hb h
  obtain ⟨rest', rfl, hline'⟩ := hs'.control (hst.scope.broken.trans hb) h'
  have hpopped : (s.pop i).Abreast R (s'.pop i') := ⟨hst.scope, hst.templates, hst.draws⟩
  have hkeep : ∀ {p q : State σ} {n task a}, Stepped st n (.control task a) p q →
      p.scope.broken = false → q.fell = p.fell := fun h hb =>
    fell_of_unbroken h (fun _ h => nomatch h) ((Job.steady_broken rfl st _ _).trans hb)
  refine ⟨abreast_control ha hpopped, ?_, _, _, hline, hline', .some ?_, hl.time, hl.rest⟩
  · rw [hkeep h hb, hkeep h' (hst.scope.broken.trans hb), hfell]
  have hrepeats : a'.repeats = a.repeats :=
    show a'.unwaited.repeats = a.unwaited.repeats from congrArg Action.repeats ha
  have huntil : a'.until_ = a.until_ :=
    show a'.unwaited.until_ = a.unwaited.until_ from congrArg Action.until_ ha
  rw [(abreast_aliasOf ha hst).1, hrepeats, huntil]
  exact .launch task task' _ _ _ ht

theorem follow_launch {k k' : Ticket} (h : Stepped st i (.launch k) s t)
    (h' : Stepped st i' (.launch k') s' t') (ht : k'.task.unwaited = k.task.unwaited)
    (hname : k'.alias_ = k.alias_)
    (hok : ((Job.launch k).perform st i (s.pop i)).scope.broken = false) :
    Follow st R ⟨s, i, .launch k⟩ ⟨s', i', .launch k'⟩ t t' := by
  have hwatched : ∀ {p q : State σ} {n k l}, Shows st p l → Stepped st n (.launch k) p q →
      k.until_.isEmpty = true := by
    intro p q n k l hp hq
    rcases hp.next hq.next? rfl with ⟨_, -, -, hstaged, -⟩ | ⟨_, _, -, hbound, -⟩
    · cases hstaged _ List.mem_cons_self
    · exact (Bool.and_eq_true_iff.1 hbound).1
  have hpopped : (s.pop i).Abreast R (s'.pop i') := ⟨hst.scope, hst.templates, hst.draws⟩
  have hlaunched : ((s.pop i).launch st i k).Abreast R ((s'.pop i').launch st i' k') :=
    abreast_launch hn.indifferent hn.prompt ht hname (hwatched hs h) (hwatched hs' h') hpopped
  obtain ⟨rest, rfl, hline⟩ := hs.launch hn.pause hn.prompt h hok
  obtain ⟨rest', rfl, hline'⟩ := hs'.launch hn.pause hn.prompt h' (hlaunched.scope.broken.trans hok)
  refine ⟨hlaunched, ?_, _, _, hline, hline', .none, hl.time, hl.rest⟩
  rw [fell_of_unbroken h (fun _ h => nomatch h) hok,
    fell_of_unbroken h' (fun _ h => nomatch h) (hlaunched.scope.broken.trans hok), hfell]

end Follow

/-- Steps that matter, done in both runs, leave what is the same but for waits. -/
theorem related_step (hr : Related st R s s') (h : Stepped st i j s t) (h' : Stepped st i' j' s' t')
    (hj : j.idle = false) (hj' : j'.idle = false) (hplain : (⟨s, i, j⟩ : Moment σ).plain st = true) :
    Related st R t t' := by
  obtain ⟨l, l', hs, hs', hl⟩ := hr.lines
  obtain ⟨ha, hclock⟩ := alike_next hs hs' hl h.next? h'.next? hj hj'
  have hst := hr.beside.abreast hclock
  suffices hf : Follow st R ⟨s, i, j⟩ ⟨s', i', j'⟩ t t' by
    refine ⟨sound_step hn hr.left h, sound_step hn hr.right h', ?_, hf.fell, hf.lines⟩
    rw [h.result, h'.result]
    exact (abreast_endBroken hf.abreast).beside
  rcases hs.next h.next? hj with ⟨_, -, -, hstaged, -⟩ | ⟨_, _, -, hbound, -⟩
  · by_cases hd : ∃ a, j = .dispatch a
    · obtain ⟨a, rfl⟩ := hd
      obtain ⟨a', rfl, haa⟩ := ha.of_dispatch
      exact follow_dispatch hn hs hs' hl hst hr.fell h h' haa hplain
    · exact follow_staged hn hs hs' hl hst hr.fell h h' ha (hstaged j List.mem_cons_self) fun a hj => hd ⟨a, hj⟩
  · cases j with
    | control task a =>
      obtain ⟨task', a', rfl, ht, haa⟩ := ha.of_control
      exact follow_control hs hs' hl hst hr.fell h h' ht haa hr.left.unbroken
    | launch k =>
      obtain ⟨k', rfl, ht, hname⟩ := ha.of_launch
      have hok : (!(⟨s, i, .launch k⟩ : Moment σ).breaks st) = true := hplain
      rw [Bool.not_eq_true'] at hok
      exact follow_launch hn hs hs' hl hst hr.fell h h' ht hname hok
    | _ => cases hbound

omit hn in
/-- Two runs that begin in related worlds are related. -/
theorem related_start {docs docs' : List Action} (hdocs : List.Forall₂ Action.Alike docs docs')
    {sc sc' : Scope σ} {report report' : Report} (h : sc.Abreast R sc') (hb : sc.broken = false) :
    Related st R (start st sc docs report) (start st sc' docs' report') := by
  have hsound : ∀ (sc : Scope σ) docs report, sc.broken = false → Sound (start st sc docs report) :=
    fun sc docs report hb => ⟨hb, by simp [Unsent, start, State.ofJobs]⟩
  have hshows : ∀ (sc : Scope σ) docs report, Shows st (start st sc docs report)
      ⟨none, sc.clock, [Invocation.job st ⟨.ofConfig st.config, docs, false⟩]⟩ := by
    intro sc docs report
    refine .resting _ _ rfl (by simp [Invocation.job, Job.staged]) (fun _ => rfl) ?_
    intro k t h0 _ ht
    cases k with
    | zero => exact absurd rfl h0
    | succ k => cases ht
  refine ⟨hsound sc docs report hb, hsound sc' docs' report' (h.broken.trans hb),
    State.Abreast.beside ⟨h, rfl, rfl⟩, rfl, _, _, hshows sc docs report, hshows sc' docs' report', .none,
    h.clock, .cons ?_ .nil⟩
  exact .opening _ _ _ docs docs' hdocs

end Runs

/-! ## Chronicles side by side -/

/-- How many steps of a chronicle matter. -/
def active (c : List (Moment σ)) : Nat := c.countP fun m => !m.job.idle

theorem active_concat (c : List (Moment σ)) (m : Moment σ) :
    active (c ++ [m]) = active c + if m.job.idle then 0 else 1 := by
  unfold active
  rw [List.countP_append, List.countP_singleton]
  cases m.job.idle <;> rfl

section Chronicles

variable {st : Settings σ} (hn : st.Neutral R) {s₀ s₀' s s' : State σ} {c c' : List (Moment σ)}

include hn

/-- As long as nothing that matters happens a run stays related to what it was related to. -/
theorem related_of_idle (hr : Related st R s s₀') (hc : Chronicle st s₀' c' s') (h0 : active c' = 0) :
    Related st R s s' := by
  induction hc with
  | refl => exact hr
  | thread _ hj hs ih =>
    rw [active_concat] at h0
    have hr' := ih (by omega)
    refine hr'.quiet_right (quiet_idle hn hr'.right (stepped_of_next? hr'.right.unbroken hj hs) ?_)
    by_contra hidle
    rw [if_neg hidle] at h0
    omega
  | clock _ hen hw ih => exact (ih h0).quiet_right (quiet_clock (ih h0).right hen hw)

/-- A step that matters is made up for by the last one that matters in the other run. -/
theorem related_of_active {n : Nat} {t : State σ} {i : ThreadId} {j : Job}
    (hpast : ∀ c' s', Chronicle st s₀' c' s' → n = active c' → Related st R s s')
    (hj : s.next? i = some j) (hs : s.step? st i = some t) (hidle : j.idle = false)
    (hplain : (⟨s, i, j⟩ : Moment σ).plain st = true) (hc' : Chronicle st s₀' c' s')
    (he : n + 1 = active c') : Related st R t s' := by
  induction hc' with
  | refl => cases he
  | @thread c' s' t' i' j' hc' hj' hs' ih' =>
    rw [active_concat] at he
    cases hidle' : j'.idle with
    | true =>
      have hr := ih' (by simpa [hidle'] using he)
      exact hr.quiet_right (quiet_idle hn hr.right (stepped_of_next? hr.right.unbroken hj' hs') hidle')
    | false =>
      have hr := hpast c' s' hc' (by simpa [hidle'] using he)
      exact related_step hn hr (stepped_of_next? hr.left.unbroken hj hs)
        (stepped_of_next? hr.right.unbroken hj' hs') hidle hidle' hplain
  | clock hc' hen hw ih' => exact (ih' he).quiet_right (quiet_clock (ih' he).right hen hw)

/-- After the same number of steps that matter two runs are related, whatever else happened in them. -/
theorem related_of_chronicles (hr : Related st R s₀ s₀') (hc : Chronicle st s₀ c s)
    (hplain : ∀ m ∈ c, m.plain st = true) (hc' : Chronicle st s₀' c' s') (he : active c = active c') :
    Related st R s s' := by
  induction hc generalizing c' s' with
  | refl => exact related_of_idle hn hr hc' he.symm
  | @thread c s t i j hc hj hs ih =>
    have hpast : ∀ c' s', Chronicle st s₀' c' s' → active c = active c' → Related st R s s' :=
      fun _ _ hc' he => ih (fun m hm => hplain m (List.mem_append_left _ hm)) hc' he
    rw [active_concat] at he
    cases hidle : j.idle with
    | true =>
      have hr' := hpast c' s' hc' (by simpa [hidle] using he)
      exact hr'.quiet_left (quiet_idle hn hr'.left (stepped_of_next? hr'.left.unbroken hj hs) hidle)
    | false =>
      exact related_of_active hn hpast hj hs hidle
        (hplain _ (List.mem_append_right _ (List.mem_singleton.2 rfl))) hc' (by simpa [hidle] using he)
  | clock hc hen hw ih =>
    exact (ih hplain hc' he).quiet_left (quiet_clock (ih hplain hc' he).left hen hw)

/-! ### The ends of runs -/

omit hn in
/-- When the first thread is done all signals have been received, and nothing is left. -/
theorem Shows.over {l : Line} (hs : Shows st s l) (h : s.main = []) :
    l.errand = none ∧ l.rest = [] ∧ s.Besides 0 Thread.Done := by
  cases hs with
  | resting time rest hrest _ _ hbes => exact ⟨rfl, hrest.symm.trans h, hbes⟩
  | pausing front pause time rest hrest =>
    rw [h] at hrest
    simp at hrest
  | carrying k e pause time rest hwhere =>
    unfold Carries at hwhere
    rw [h] at hwhere
    rcases hwhere with ⟨-, hrest⟩ | ⟨-, hrest, -⟩ <;> cases hrest

omit hn in
/-- When one of two related runs is over nothing that matters happens in the other one. -/
theorem Related.idle_of_over (hr : Related st R s s') (h : s.main = []) {i : ThreadId} {j : Job}
    (hj : s'.next? i = some j) : j.idle = true := by
  obtain ⟨l, l', hs, hs', herrand, -, hrest⟩ := hr.lines
  obtain ⟨hnone, hnil, -⟩ := hs.over h
  by_contra hidle
  rcases hs'.next hj (Bool.not_eq_true _ ▸ hidle) with ⟨js, -, -, -, -, rfl⟩ |
    ⟨_, rest, -, -, -, -, -, rfl⟩
  · rw [hnil] at hrest
    cases hrest
  · rw [hnone] at herrand
    cases herrand

/-- When a run is over no other one gets further. -/
theorem active_le_of_over (hr : Related st R s₀ s₀') (hc : Chronicle st s₀ c s)
    (hplain : ∀ m ∈ c, m.plain st = true) (hover : s.main = []) (hc' : Chronicle st s₀' c' s') :
    active c' ≤ active c := by
  induction hc' with
  | refl => exact Nat.zero_le _
  | @thread c' s' t' i j hc' hj hs ih =>
    rw [active_concat]
    split_ifs with hidle
    · exact ih
    · by_contra hlt
      have he : active c = active c' := by omega
      exact hidle ((related_of_chronicles hn hr hc hplain hc' he).idle_of_over hover hj)
  | clock _ _ _ ih => exact ih

omit hn in
theorem launched_suffix {kinds : List EventKind} {sc sc' : Scope σ} (h : sc.Grows kinds sc') :
    sc.launched <:+ sc'.launched := by
  obtain ⟨-, new, htrace, -⟩ := h
  unfold Scope.launched
  rw [htrace, List.filterMap_append]
  exact List.suffix_append _ _

/-- What was launched in a run was launched in every one that has got as far. -/
theorem launched_of_le (hr : Related st R s₀ s₀') (hc : Chronicle st s₀ c s)
    (hplain : ∀ m ∈ c, m.plain st = true) (hc' : Chronicle st s₀' c' s') (hle : active c ≤ active c') :
    s.scope.launched <:+ s'.scope.launched := by
  have hsame : ∀ {c' s'}, Chronicle st s₀' c' s' → active c = active c' →
      s.scope.launched <:+ s'.scope.launched := fun hc' he => by
    exact (related_of_chronicles hn hr hc hplain hc' he).launched ▸ List.suffix_refl _
  induction hc' with
  | refl => exact hsame .refl (Nat.eq_zero_of_le_zero hle)
  | @thread c' s' t' i j hc' hj hs ih =>
    rcases Nat.lt_or_ge (active c') (active c) with hlt | hge
    · refine hsame (.thread hc' hj hs) (Nat.le_antisymm hle ?_)
      rw [active_concat]
      split_ifs <;> omega
    · exact (ih hge).trans (launched_suffix (stepped_of_next? ((hc'.unbroken hr.right.unbroken)) hj hs).scope)
  | clock _ _ _ ih => exact ih hle

/-- A run that has not got as far as another one is related to it as it was then. -/
theorem related_before (hr : Related st R s₀ s₀') (hc : Chronicle st s₀ c s)
    (hplain : ∀ m ∈ c, m.plain st = true) (hc' : Chronicle st s₀' c' s') (hle : active c' ≤ active c) :
    ∃ u, Related st R u s' := by
  induction hc with
  | refl => exact ⟨s₀, related_of_idle hn hr hc' (Nat.eq_zero_of_le_zero hle)⟩
  | @thread c s t i j hc hj hs ih =>
    rcases Nat.lt_or_ge (active c) (active c') with hlt | hge
    · refine ⟨t, related_of_chronicles hn hr (.thread hc hj hs) hplain hc' (Nat.le_antisymm ?_ hle)⟩
      rw [active_concat]
      split_ifs <;> omega
    · exact ih (fun m hm => hplain m (List.mem_append_left _ hm)) hge
  | clock _ _ _ ih => exact ih hplain hle

/-- What matters and is done in a run that has not got as far as another one was done there, too. -/
theorem alike_of_lt (hr : Related st R s₀ s₀') (hc : Chronicle st s₀ c s)
    (hplain : ∀ m ∈ c, m.plain st = true) (hc' : Chronicle st s₀' c' s') (hlt : active c' < active c)
    {i : ThreadId} {j : Job} (hj : s'.next? i = some j) (hidle : j.idle = false) :
    ∃ m ∈ c, m.job.Alike j := by
  induction hc with
  | refl => cases hlt
  | @thread c s t i₀ j₀ hc hj₀ hs ih =>
    have hpast : ∀ m ∈ c, m.plain st = true := fun m hm => hplain m (List.mem_append_left _ hm)
    rcases Nat.lt_or_ge (active c') (active c) with hlt' | hge
    · obtain ⟨m, hm, ha⟩ := ih hpast hlt'
      exact ⟨m, List.mem_append_left _ hm, ha⟩
    · rw [active_concat] at hlt
      have hidle₀ : j₀.idle = false := by
        by_contra h
        rw [if_pos (Bool.not_eq_false _ ▸ h)] at hlt
        omega
      rw [if_neg (by rw [hidle₀]; exact Bool.false_ne_true)] at hlt
      obtain ⟨l, l', hl, hl', hll⟩ := (related_of_chronicles hn hr hc hpast hc' (by omega)).lines
      exact ⟨_, List.mem_append_right _ (List.mem_singleton.2 rfl),
        (alike_next hl hl' hll hj₀ hj hidle₀ hidle).1⟩
  | clock _ _ _ ih => exact ih hplain hlt

theorem brief_of_lt (hr : Related st R s₀ s₀') (hc : Chronicle st s₀ c s)
    (hplain : ∀ m ∈ c, m.plain st = true) (hc' : Chronicle st s₀' c' s') (hlt : active c' < active c)
    {i : ThreadId} {a : Action} (hj : s'.next? i = some (.dispatch a)) : a.brief = true := by
  obtain ⟨⟨u, k, j⟩, hm, ha⟩ := alike_of_lt hn hr hc hplain hc' hlt hj rfl
  obtain ⟨a₀, rfl, hunwaited⟩ := Job.Alike.dispatched ha
  have hbrief : a₀.brief = true := hplain _ hm
  exact (show a.unwaited.brief = a₀.unwaited.brief from congrArg Action.brief hunwaited).trans hbrief

omit hn in
/-- What the first thread does idly is done for a task. -/
theorem Shows.errand_of_idle {l : Line} {j : Job} (hs : Shows st s l) (hj : s.next? 0 = some j)
    (hidle : j.idle = true) : j.errand = true := by
  obtain ⟨js, hmain⟩ := main_of_next? hj
  have huntil : ∀ {pause clock time}, Job.Until clock pause time → pause.errand = true := by
    intro pause clock time h
    cases h <;> rfl
  cases hs with
  | resting time rest hrest hstaged =>
    have := hstaged j (by rw [← hrest, hmain]; exact List.mem_cons_self)
    rw [not_staged_of_idle hidle] at this
    cases this
  | pausing front pause time rest hrest hfront hpause =>
    rw [hmain] at hrest
    cases front with
    | nil =>
      obtain ⟨rfl, -⟩ := List.cons.inj hrest
      exact huntil hpause
    | cons x front =>
      obtain ⟨rfl, -⟩ := List.cons.inj hrest
      have hchore := hfront j List.mem_cons_self
      cases j <;> first | rfl | cases hchore
  | carrying k e pause time rest hwhere hbound hpause =>
    unfold Carries at hwhere
    rw [hmain] at hwhere
    rcases hwhere with ⟨-, hrest⟩ | ⟨-, hrest, -⟩
    · obtain ⟨rfl, -⟩ := List.cons.inj hrest
      rw [not_bound_of_idle hidle] at hbound
      cases hbound
    · obtain ⟨rfl, -⟩ := List.cons.inj hrest
      exact huntil hpause

/-- Where nothing waits for a condition threads stay tidy. -/
theorem tidy_of_plain (htidy : Tidy s₀) (hb : s₀.scope.broken = false) (hc : Chronicle st s₀ c s)
    (hplain : ∀ m ∈ c, m.plain st = true) : Tidy s := by
  refine hc.invariant (P := fun c s => (∀ m ∈ c, m.plain st = true) → Tidy s) hb (fun _ => htidy)
    (fun c i j s t ih h hb hplain => ?_)
    (fun _ _ _ ih _ _ hplain => ⟨(ih hplain).main, (ih hplain).others⟩) hplain
  refine (tidy_step hn.prompt hn.quiet hb h ?_ (ih fun m hm => hplain m (List.mem_append_left _ hm))).1
  rintro a rfl
  exact hplain _ (List.mem_append_right _ (List.mem_singleton.2 rfl))

/-- A state of a run in which so many steps that matter are still to come. -/
structure Behind (st : Settings σ) (s₀ : State σ) (total : Nat) (s : State σ) (n : Nat) : Prop where
  tidy : Tidy s
  past : ∃ c, Chronicle st s₀ c s ∧ active c + n = total

/-- When a run is over every other one comes to an end. -/
theorem acc_of_over (hr : Related st R s₀ s₀') (hc : Chronicle st s₀ c s)
    (hplain : ∀ m ∈ c, m.plain st = true) (hover : s.main = []) (htidy : Tidy s')
    (hc' : Chronicle st s₀' c' s') : Acc (fun v u => Step st u v) s' := by
  -- a step that matters leaves one less to do, and any other one less for the tasks
  have hacc : Acc (fun v u => True ∧ Step st u v) s' := by
    have hbehind : Behind st s₀' (active c) s' (active c - active c') := by
      have := active_le_of_over hn hr hc hplain hover hc'
      exact ⟨htidy, c', hc', by omega⟩
    refine acc_of_plan Nat.lt_wfRel.wf (fun u i j v n _ hplan hs h => ?_)
      (fun u time n hplan hen hw => ?_) (fun u n hplan => ?_) _ s' hbehind
    · obtain ⟨htidy, c', hc', he⟩ := hplan
      have hb := hc'.unbroken hr.right.unbroken
      have hle : active c' ≤ active c := by omega
      have hcv := Chronicle.thread hc' h.next? hs
      cases hidle : j.idle with
      | true =>
        obtain ⟨w, hw⟩ := related_before hn hr hc hplain hc' hle
        obtain ⟨l, l', -, hl', -⟩ := hw.lines
        obtain ⟨htidy', hwork⟩ := tidy_step hn.prompt hn.quiet hb h (by rintro a rfl; cases hidle) htidy
        refine .inr ⟨⟨htidy', _, hcv, by rw [active_concat, if_pos hidle]; exact he⟩, hwork ?_⟩
        rintro rfl
        exact hl'.errand_of_idle h.next? hidle
      | false =>
        have hmore : active (c' ++ [⟨u, i, j⟩]) = active c' + 1 := by
          rw [active_concat, if_neg (by rw [hidle]; exact Bool.false_ne_true)]
        have hle' := active_le_of_over hn hr hc hplain hover hcv
        refine .inl ⟨n - 1, show n - 1 < n by omega, ?_, _, hcv, by omega⟩
        refine (tidy_step hn.prompt hn.quiet hb h ?_ htidy).1
        rintro a rfl
        exact brief_of_lt hn hr hc hplain hc' (by omega) h.next?
    · obtain ⟨htidy, c', hc', he⟩ := hplan
      exact ⟨⟨htidy.main, htidy.others⟩, c', .clock hc' hen hw, he⟩
    · obtain ⟨-, c', hc', -⟩ := hplan
      exact hc'.unbroken hr.right.unbroken
  exact Subrelation.accessible (fun h => ⟨trivial, h⟩) hacc

end Chronicles

end Run

end Workload
