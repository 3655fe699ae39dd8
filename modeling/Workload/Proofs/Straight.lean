import Mathlib.Data.Multiset.DershowitzManna
import Workload.Proofs.Amounts

/-!
# Steps of a pass

A pass over plain actions that are waited for and launched once, over operations, includes and references
to templates is done by its own thread alone, job by job.  What a job leaves amounts to the same launches
(`goesOn_of_stepped`); and it weighs less, where references are ranked.
-/

namespace Workload

/-- Whether an action is plain, an operation, an include or a reference to a template. -/
def Directive.flat : Directive → Bool
  | .plain | .client _ | .includes _ | .template _ => true
  | _ => false

/-- What an action of a list weighs, a reference more than all that it expands to. -/
def Action.weight (rank : Action → Nat) (a : Action) : Nat :=
  match a.directive with
  | .plain => 5
  | .template _ => 6 + rank a
  | _ => 0

namespace Run

variable {σ : Type}

/-- What the run needs of a job of a pass: plain actions are waited for, and launched once; and there are
no other actions than plain ones, operations, includes and references. -/
def Job.sequential : Job → Bool
  | .dispatch a => a.wait && a.brief
  | .walk _ _ (a :: _) => a.directive.flat
  | _ => true

/-- A reference that is about to be expanded expands to references of lower rank only. -/
def Job.Ranked (env : Environment σ) (rank : Action → Nat) (v : View σ) : Job → Prop
  | .walk _ _ (a :: _) => ∀ name body, a.directive = .template name →
    v.templates.get? a.template = some body →
    ∀ b ∈ a.expansion body (v.scope.evaluate env a.args).1, ∀ name', b.directive = .template name' →
      rank b < rank a
  | _ => True

/-! ## Weights -/

def Job.weight (rank : Action → Nat) : Job → Multiset Nat
  | .walk _ _ rest => 0 ::ₘ (rest.map (Action.weight rank) : List Nat)
  | .dispatch _ => {4}
  | .control .. => {3}
  | .launch _ => {2}
  | .sleep _ | .failed .. => {1}
  | _ => {0}

def weightOf (rank : Action → Nat) (jobs : List Job) : Multiset Nat :=
  (jobs.map (Job.weight rank)).sum

section

variable {rank : Action → Nat} {M N : Multiset Nat}

theorem weightOf_append (js js' : List Job) :
    weightOf rank (js ++ js') = weightOf rank js + weightOf rank js' := by
  unfold weightOf
  rw [List.map_append, List.sum_append]

theorem lighter_add (h : M.IsDershowitzMannaLT N) (X : Multiset Nat) :
    (M + X).IsDershowitzMannaLT (N + X) := by
  obtain ⟨Y, A, B, hB, rfl, rfl, hlt⟩ := h
  exact ⟨Y + X, A, B, hB, add_right_comm Y A X, add_right_comm Y B X, hlt⟩

/-- Something is replaced by what is less. -/
theorem lighter_of_lt {a : Nat} {Y : Multiset Nat} (h : ∀ y ∈ Y, y < a) (X : Multiset Nat) :
    (X + Y).IsDershowitzMannaLT (X + {a}) :=
  ⟨X, Y, {a}, Multiset.singleton_ne_zero a, rfl, rfl, fun y hy => ⟨a, Multiset.mem_singleton_self a, h y hy⟩⟩

theorem lighter_singleton {a : Nat} (h : ∀ y ∈ M, y < a) : M.IsDershowitzMannaLT {a} := by
  have := lighter_of_lt h 0
  rwa [zero_add, zero_add] at this

theorem lighter_of_ne (h : N ≠ 0) : Multiset.IsDershowitzMannaLT 0 N :=
  ⟨0, 0, N, h, rfl, (zero_add N).symm, by simp⟩

theorem weight_ne_zero (j : Job) : j.weight rank ≠ 0 := by
  cases j <;> simp [Job.weight]

theorem weight_walk_cons (pass : Nat) (last last' : Option Action) (a : Action) (rest : List Action) :
    (Job.walk pass last (a :: rest)).weight rank =
      (Job.walk pass last' rest).weight rank + {a.weight rank} := by
  simp only [Job.weight, List.map_cons, ← Multiset.cons_coe]
  rw [Multiset.cons_swap, Multiset.add_comm, Multiset.singleton_add]

end

/-! ## What becomes of an action -/

/-- What becomes of an action, by what its texts say. -/
theorem decide_cases (st : Settings σ) (a : Action) (sc : Scope σ) :
    (∃ sc₁, st.requirement a.requires sc = (false, sc₁) ∧ st.decide a sc = (.skip, sc₁)) ∨
    ∃ sc₁, st.requirement a.requires sc = (true, sc₁) ∧
      ((∃ fault sc₂, sc₁.compileCommand st.env a.command = (.error fault, sc₂) ∧
          st.decide a sc = (.skip, sc₂.note (.warn "could not compile command, skipping"))) ∨
        ∃ command sc₂, sc₁.compileCommand st.env a.command = (.ok command, sc₂) ∧
          ((∃ sc₃, st.duration a.duration sc₂ = (none, sc₃) ∧ st.decide a sc = (.crash, sc₃)) ∨
            ∃ limit sc₃ instances sc₄, st.duration a.duration sc₂ = (some limit, sc₃) ∧
              st.concurrency a.concurrency sc₃ = (instances, sc₄) ∧
              st.decide a sc = (.launch (st.task a command limit instances sc₄), sc₄))) := by
  unfold Settings.decide
  rcases hr : st.requirement a.requires sc with ⟨_ | _, sc₁⟩
  · exact .inl ⟨sc₁, rfl, rfl⟩
  refine .inr ⟨sc₁, rfl, ?_⟩
  simp only []
  rcases hc : sc₁.compileCommand st.env a.command with ⟨fault | command, sc₂⟩
  · exact .inl ⟨fault, sc₂, rfl, rfl⟩
  refine .inr ⟨command, sc₂, rfl, ?_⟩
  simp only []
  rcases hd : st.duration a.duration sc₂ with ⟨_ | limit, sc₃⟩
  · exact .inl ⟨sc₃, rfl, rfl⟩
  rcases hn : st.concurrency a.concurrency sc₃ with ⟨instances, sc₄⟩
  exact .inr ⟨limit, sc₃, instances, sc₄, rfl, hn, by simp only [hn]; rfl⟩

/-- A reference to a template that is known stands for the list that it expands to. -/
theorem referred_some (st : Settings σ) {a : Action} {p : State σ} {body : List Action}
    (hg : p.templates.get? a.template = some body) :
    ∃ r sc q, p.scope.evaluate st.env a.args = (r, sc) ∧
      p.referred st a = (some (a.expansion body r), q) ∧
      q.threads = p.threads ∧ View.Drifts st.env { p.view with scope := sc } q.view := by
  rcases he : p.scope.evaluate st.env a.args with ⟨r, sc⟩
  have hw : p.within (Scope.evaluate st.env a.args) = (r, { p with scope := sc }) := by
    unfold State.within
    rw [he]
  unfold State.referred
  rw [hg]
  simp only [hw]
  cases r with
  | error fault =>
    exact ⟨_, _, _, rfl, rfl, rfl, drifts_note st.env ({ p with scope := sc } : State σ)
      (.warn "could not evaluate template args")⟩
  | ok args => exact ⟨_, _, _, rfl, rfl, rfl, .refl _⟩

/-! ## Steps of the first thread -/

/-- A job of a pass over actions whose tasks are waited for and launched once. -/
def Job.Straight : Job → Prop
  | .walk .. | .setLoops _ | .dispatch _ | .failed .. | .stopOnError | .sleep _ | .wake _ | .join _ => True
  | .control _ a => a.brief = true
  | .launch k => k.until_.isEmpty = true ∧ k.repeats = 0
  | .launched k watcher _ _ => watcher = none ∧ k.repeats = 0
  | _ => False

/-- The task that an event asks to be launched. -/
def Event.task? : Event → Option Task
  | .run task _ => some task
  | _ => none

/-- The tasks so far whose launch was asked for, in order. -/
def State.calls (s : State σ) : List Task := (s.scope.trace.filterMap fun e => Event.task? e.event).reverse

/-- A thread breaks off: in the middle of a job, or because the duration of an action is out of range. -/
def Moment.fatal (st : Settings σ) (m : Moment σ) : Prop :=
  m.breaks st = true ∨ ∃ a sc, m.job = .dispatch a ∧ st.decide a m.before.scope = (.crash, sc)

/-- The first thread goes on with `new` before `js` when it has done `j`, in which the launches `made` were
asked for.  These and what `new` amounts to are what `j` amounts to, and `new` weighs less. -/
structure GoesOn (st : Settings σ) (j : Job) (js : List Job) (s s' : State σ) (made : List Task)
    (new : List Job) : Prop where
  main : s'.main = new ++ js
  straight : ∀ x ∈ new, x.Straight
  amounts : ∀ calls u, AmountTo st new s'.view calls u →
    ∃ u', j.AmountsTo st s.view (made ++ calls) u' ∧ u'.Drifts st.env u
  lighter : ∀ rank, j.Ranked st.env rank s.view →
    (weightOf rank new).IsDershowitzMannaLT (j.weight rank)

section

variable {st : Settings σ} {s s' p : State σ} {j : Job} {js new : List Job} {t : Thread}

theorem main_push (ht : s.threads[0]? = some t) (jobs : List Job) :
    (s.push 0 jobs).main = jobs ++ t.jobs := by
  unfold State.main State.push
  rw [List.getElem?_modify_eq, ht]
  rfl

theorem main_of_moves {kinds : List EventKind} {spawned : List (List Job)}
    (hm : s.Moves kinds 0 new spawned s') (ht : s.threads[0]? = some t) : s'.main = new ++ t.jobs := by
  obtain ⟨n, hn⟩ := hm.threads t ht
  have hi : 0 < s.threads.length := (List.getElem?_eq_some_iff.1 ht).1
  unfold State.main
  rw [hn, List.getElem?_append_left (by simpa using hi), List.getElem?_set_self hi]
  rfl

/-- The first thread breaks off, or does all of its next job. -/
theorem performed (h : Stepped st 0 j s s') (hmain : s.main = j :: js) :
    (s'.main = [] ∧ (⟨s, 0, j⟩ : Moment σ).breaks st = true) ∨
      (j.perform st 0 (s.pop 0)).scope.broken = false ∧ s' = j.perform st 0 (s.pop 0) ∧
        ∃ t, (s.pop 0).threads[0]? = some t ∧ t.jobs = js := by
  obtain ⟨t, js', t', new, spawned, ht, hj, -, hth, -⟩ := h.moves
  obtain ⟨-, rfl⟩ := List.cons.inj (hmain.symm.trans ((main_eq ht).trans hj))
  cases hb : (j.perform st 0 (s.pop 0)).scope.broken with
  | true =>
    have hself := (Stepped.getElem?_threads hth (List.getElem?_eq_some_iff.1 ht).1).1
    exact .inl ⟨(main_eq hself).trans (h.breaksOff hb _ hself).1, hb⟩
  | false =>
    have hpop := State.pop_getElem? ht
    rw [hj, List.tail_cons] at hpop
    exact .inr ⟨rfl, h.result.trans (State.endBroken_of_unbroken hb 0), _, hpop, rfl⟩

theorem calls_of_grows {kinds : List EventKind} (h : s.scope.Grows kinds s'.scope)
    (hk : EventKind.run ∉ kinds) : s'.calls = s.calls := by
  obtain ⟨-, noted, hn, he⟩ := h
  have hnone : noted.filterMap (fun e => Event.task? e.event) = [] := by
    refine List.filterMap_eq_nil_iff.2 fun e hm => ?_
    have hkind := (he e hm).2
    cases hev : e.event with
    | run =>
      rw [hev] at hkind
      exact absurd hkind hk
    | _ => rfl
  unfold State.calls
  rw [hn, List.filterMap_append, hnone, List.nil_append]

/-- The thread goes on with nothing, or with what only takes time. -/
theorem goesOn_idle (hmain : s'.main = new ++ js)
    (hnew : new = [] ∨ new = [.stopOnError] ∨ ∃ time, new = [.wake time])
    (hweight : ∀ rank, new ≠ [] → j.weight rank = {1}) (hend : ∀ rank, ∃ n, j.weight rank = {n})
    (hd : s.view.Drifts st.env s'.view)
    (hj : ∀ w, s.view.Drifts st.env w → j.AmountsTo st s.view [] w) : GoesOn st j js s s' [] new := by
  refine ⟨hmain, ?_, fun calls u hu => ?_, fun rank _ => ?_⟩
  · rcases hnew with rfl | rfl | ⟨time, rfl⟩ <;> simp [Job.Straight]
  · have hidle : calls = [] ∧ s'.view.Drifts st.env u := by
      rcases hnew with rfl | rfl | ⟨time, rfl⟩
      · exact hu
      · obtain ⟨x, ⟨rfl, hx⟩, hw⟩ := amountTo_singleton hu
        exact ⟨rfl, hx.trans hw⟩
      · obtain ⟨x, ⟨rfl, hx⟩, hw⟩ := amountTo_singleton hu
        exact ⟨rfl, hx.trans hw⟩
    obtain ⟨rfl, hw⟩ := hidle
    exact ⟨u, hj u (hd.trans hw), .refl u⟩
  · rcases hnew with rfl | rfl | ⟨time, rfl⟩
    · obtain ⟨n, hn⟩ := hend rank
      rw [hn]
      exact lighter_singleton (by simp [weightOf])
    · rw [hweight rank (by simp)]
      exact lighter_singleton (by simp [weightOf, Job.weight])
    · rw [hweight rank (by simp)]
      exact lighter_singleton (by simp [weightOf, Job.weight])

theorem goesOn_setLoops {pass : Nat} (ht : p.threads[0]? = some t) (hp : p.view = s.view) :
    GoesOn st (.setLoops pass) t.jobs s { p with scope := { p.scope with loops := pass } } [] [] := by
  refine ⟨main_eq ht, by simp, fun calls u hu => ?_, fun rank _ => ?_⟩
  · obtain ⟨rfl, hu⟩ := hu
    have hview : (State.view { p with scope := { p.scope with loops := pass } }) = s.view.counting pass := by
      rw [← hp]
      rfl
    rw [hview] at hu
    exact ⟨s.view.counting pass, ⟨rfl, s.view, .refl _, rfl⟩, hu⟩
  · exact lighter_singleton (by simp [weightOf])

theorem goesOn_dispatch {a : Action} (hw : a.wait = true) (hbrief : a.brief = true)
    (ht : p.threads[0]? = some t) (hp : p.view = s.view)
    (hbr : (p.dispatch st 0 a).scope.broken = false) :
    ((p.dispatch st 0 a).main = [] ∧ ∃ sc, st.decide a p.scope = (.crash, sc)) ∨
      ∃ new, GoesOn st (.dispatch a) t.jobs s (p.dispatch st 0 a) [] new := by
  have hscope : p.scope = s.view.scope := congrArg View.scope hp
  have hview : ∀ sc : Scope σ, State.view { p with scope := sc } = { s.view with scope := sc } := fun sc =>
    congrArg (fun v : View σ => { v with scope := sc }) hp
  have hnone : ∀ rank, (weightOf rank []).IsDershowitzMannaLT ((Job.dispatch a).weight rank) := fun rank =>
    lighter_singleton (by simp [weightOf])
  unfold State.dispatch State.within at hbr ⊢
  rcases decide_cases st a p.scope with ⟨sc₁, hr, hd⟩ | ⟨sc₁, hr, ⟨fault, sc₂, hc, hd⟩ |
    ⟨command, sc₂, hc, ⟨sc₃, hl, hd⟩ | ⟨limit, sc₃, instances, sc₄, hl, hn, hd⟩⟩⟩
  all_goals
    rw [hscope] at hr
    simp only [hd] at hbr ⊢
  · refine .inr ⟨[], main_eq ht, by simp, fun calls u hu => ?_, fun rank _ => hnone rank⟩
    obtain ⟨rfl, hu⟩ := hu
    rw [hview] at hu
    exact ⟨u, .skipped (.refl _) hr hu, .refl u⟩
  · refine .inr ⟨[], main_eq ht, by simp, fun calls u hu => ?_, fun rank _ => hnone rank⟩
    obtain ⟨rfl, hu⟩ := hu
    have hn := drifts_note st.env ({ p with scope := sc₂ } : State σ)
      (.warn "could not compile command, skipping")
    rw [hview] at hn
    exact ⟨u, .unreadable (.refl _) hr hc (hn.trans hu), .refl u⟩
  · refine .inl ⟨?_, sc₃, rfl⟩
    unfold State.crash State.main
    rw [List.getElem?_modify_eq, ht]
    rfl
  · refine .inr ?_
    have hbroken : ¬sc₄.broken = true := by
      intro hb
      rw [if_pos hb] at hbr
      rw [show ({ p with scope := sc₄ } : State σ).scope.broken = true from hb] at hbr
      cases hbr
    rw [if_neg hbroken, if_pos hw]
    refine ⟨_, main_push ht _, by simp [Job.Straight, hbrief], fun calls u hu => ?_, fun rank _ => ?_⟩
    · obtain ⟨calls₁, calls₂, x, rfl, hx, hsleep⟩ := hu
      obtain ⟨y, ⟨rfl, hy⟩, hu⟩ := amountTo_singleton hsleep
      have hx' : Controls st (st.task a command limit instances sc₄) a { s.view with scope := sc₄ } calls₁ x := by
        rw [← hview]
        exact hx
      refine ⟨x, ?_, hy.trans hu⟩
      rw [List.append_nil]
      exact .compiled (.refl _) hr hc hl hn hx'
    · exact lighter_singleton (by simp [weightOf, Job.weight])

theorem goesOn_control {task : Task} {a : Action} (hbrief : a.brief = true)
    (ht : p.threads[0]? = some t) (hp : p.view = s.view) :
    ∃ new, GoesOn st (.control task a) t.jobs s (p.control st 0 task a) [] new := by
  obtain ⟨⟨hbefore, huntil⟩, hrepeats⟩ :
      (a.before.isEmpty = true ∧ a.until_.isEmpty = true) ∧ a.repeats = 0 := by
    simpa [Action.brief] using hbrief
  obtain ⟨halias, hview⟩ := view_aliasOf st p a
  rw [hp] at halias hview
  have ht' : (p.aliasOf st a).2.threads[0]? = some t := by
    unfold State.aliasOf
    split_ifs <;> exact ht
  unfold State.control
  rcases hal : p.aliasOf st a with ⟨alias_, q⟩
  rw [hal] at halias hview ht'
  simp only [if_pos hbefore, List.nil_append]
  refine ⟨_, main_push ht' _, ?_, fun calls u hu => ?_, fun rank _ => ?_⟩
  · intro x hx
    obtain rfl := List.mem_singleton.1 hx
    exact ⟨huntil, hrepeats⟩
  · obtain ⟨x, hx, hw⟩ := amountTo_singleton hu
    refine ⟨x, ?_, hw⟩
    show Controls st task a s.view calls x
    unfold Controls
    rw [← halias, ← hview]
    exact hx
  · exact lighter_singleton (by simp [weightOf, Job.weight])

/-! ## Launches -/

theorem awaits_none {k : Ticket} (hk : k.repeats = 0) (l : Launch) (restarter : ThreadId) :
    k.awaits none l restarter = [] := by
  unfold Ticket.awaits
  rw [hk]
  rfl

/-- A launch leaves nothing when it is recorded. -/
theorem main_launched {k : Ticket} (hk : k.repeats = 0) (ht : p.threads[0]? = some t) (l : Launch)
    (c : ChannelId) : (p.launched 0 k none l c).main = t.jobs := by
  obtain ⟨⟨restarter, hm⟩, -⟩ := State.launched_moves 0 p k none l c
  rw [awaits_none hk] at hm
  exact main_of_moves hm ht

theorem goesOn_launched {k : Ticket} {l : Launch} {c : ChannelId} (hk : k.repeats = 0)
    (ht : p.threads[0]? = some t) (hp : p.view = s.view) :
    GoesOn st (.launched k none l c) t.jobs s (p.launched 0 k none l c) [] [] := by
  have hd := drifts_launched st.env p l c 0 hk
  rw [hp] at hd
  refine ⟨main_launched hk ht l c, by simp, fun calls u hu => ?_, fun rank _ => ?_⟩
  · obtain ⟨rfl, hu⟩ := hu
    exact ⟨u, ⟨rfl, s.view, .refl _, hd.trans hu⟩, .refl u⟩
  · exact lighter_singleton (by simp [weightOf])

/-- What a launch that came off leaves amounts to no more than that the handle is recorded. -/
theorem created_amounts (st : Settings σ) {k : Ticket} (l : Launch) (hk : k.repeats = 0) (ht : p.threads[0]? = some t) :
    ∃ new, (p.created 0 k none l).main = new ++ t.jobs ∧ (∀ x ∈ new, x.Straight) ∧
      (∀ calls u, AmountTo st new (p.created 0 k none l).view calls u →
        calls = [] ∧ ∃ v, p.view.Drifts st.env v ∧ (v.named k.alias_ l.handle).Drifts st.env u) ∧
      ∀ rank, ∀ n ∈ weightOf rank new, n < 2 := by
  have hlaunched : ∀ (q : State σ) (u : Thread) (c : ChannelId), q.threads[0]? = some u →
      u.jobs = t.jobs → q.view = p.view →
      ∃ new, (q.launched 0 k none l c).main = new ++ t.jobs ∧ (∀ x ∈ new, x.Straight) ∧
        (∀ calls u, AmountTo st new (q.launched 0 k none l c).view calls u →
          calls = [] ∧ ∃ v, p.view.Drifts st.env v ∧ (v.named k.alias_ l.handle).Drifts st.env u) ∧
        ∀ rank, ∀ n ∈ weightOf rank new, n < 2 := by
    intro q u c hq hu hv
    have hd := drifts_launched st.env q l c 0 hk
    rw [hv] at hd
    refine ⟨[], hu ▸ main_launched hk hq l c, by simp, fun calls w hw => ?_, by simp [weightOf]⟩
    exact ⟨hw.1, p.view, .refl _, hd.trans hw.2⟩
  unfold State.created
  simp only []
  split
  · exact hlaunched _ t _ ht rfl rfl
  · obtain ⟨hm, -⟩ := State.observe_moves 0
      (p.openChannel ⟨[], l.containers.length, k.task.instances, false⟩) k p.channels.length l.containers
    generalize hq : l.containers.foldl (fun s' id => s'.spawn [.watch k.task id p.channels.length])
      (p.openChannel ⟨[], l.containers.length, k.task.instances, false⟩) = q at hm
    have hv : q.view = p.view := by
      rw [← hq, view_foldl _ fun s id => rfl]
      exact List.foldl_fixed l.containers
    obtain ⟨u, hu, hjobs⟩ : ∃ u, q.threads[0]? = some u ∧ u.jobs = t.jobs := by
      obtain ⟨n, hn⟩ := hm.threads t ht
      have hi : 0 < p.threads.length := (List.getElem?_eq_some_iff.1 ht).1
      refine ⟨⟨t.jobs, n, t.crashed⟩, ?_, rfl⟩
      rw [hn]
      refine (List.getElem?_append_left ?_).trans (List.getElem?_set_self hi)
      rw [List.length_set]
      exact hi
    split_ifs
    · exact hlaunched q u _ hu hjobs hv
    · refine ⟨_, hjobs ▸ main_push hu _, ?_, fun calls w hw => ?_, by simp [weightOf, Job.weight]⟩
      · intro x hx
        rcases List.mem_cons.1 hx with rfl | hx
        · trivial
        · obtain rfl := List.mem_singleton.1 hx
          exact ⟨rfl, hk⟩
      · obtain ⟨calls₁, calls₂, x, rfl, ⟨rfl, hx⟩, hl⟩ := hw
        obtain ⟨y, ⟨rfl, v, hv', hy⟩, hw⟩ := amountTo_singleton hl
        rw [show State.view (q.push 0 _) = p.view from hv] at hx
        exact ⟨rfl, v, hx.trans hv', hy.trans hw⟩

theorem goesOn_launch {k : Ticket} (hu : k.until_.isEmpty = true) (hk : k.repeats = 0)
    (ht : p.threads[0]? = some t) (hp : p.view = s.view)
    (hb : (p.launch st 0 k).scope.broken = false) :
    ∃ made new, (p.launch st 0 k).calls = p.calls ++ made ∧
      GoesOn st (.launch k) t.jobs s (p.launch st 0 k) made new := by
  have hscope : p.scope = s.view.scope := congrArg View.scope hp
  have hview : ∀ sc : Scope σ, State.view { p with scope := sc } = { s.view with scope := sc } := fun sc =>
    congrArg (fun v : View σ => { v with scope := sc }) hp
  have hw : p.spawnWatcher k = (none, p) := if_pos hu
  unfold State.launch at hb ⊢
  by_cases he : k.task.command = []
  · rw [if_pos (by rw [he]; rfl)]
    refine ⟨[], [], (List.append_nil _).symm, main_eq ht, by simp, fun calls u hu => ?_, fun rank _ => ?_⟩
    · obtain ⟨rfl, hu⟩ := hu
      rw [hp] at hu
      exact ⟨u, .idle he hu, .refl u⟩
    · exact lighter_singleton (by simp [weightOf])
  have hne : ¬k.task.command.isEmpty = true := fun h => he (List.isEmpty_iff.1 h)
  rw [if_neg hne] at hb ⊢
  simp only [hw] at hb ⊢
  unfold State.within at hb ⊢
  rcases hl : p.scope.launch st.env k.task with ⟨r, sc⟩
  rw [hl] at hb
  simp only []
  by_cases hbr : sc.broken = true
  · rw [if_pos hbr] at hb
    exact absurd (hbr.symm.trans hb) (by decide)
  have htrace : sc.trace = ⟨p.scope.clock, .run k.task r⟩ :: p.scope.trace := by
    have hunbroken : (p.scope.launch st.env k.task).2.broken = false := by
      rw [hl]
      exact Bool.not_eq_true _ ▸ hbr
    have hcall : (p.scope.launch st.env k.task).2.trace = _ := Scope.call_trace hunbroken
    rwa [← Scope.launch, hl] at hcall
  have hcalls : ∀ q : State σ, q.scope.trace = sc.trace → q.calls = p.calls ++ [k.task] := by
    intro q hq
    unfold State.calls
    rw [hq, htrace]
    exact List.reverse_cons
  rw [if_neg hbr]
  rw [hscope] at hl
  cases r with
  | ok l =>
    obtain ⟨new, hmain, hstraight, hamount, hweight⟩ := created_amounts st (p := { p with scope := sc }) l
      hk ht
    obtain ⟨_, _, hm, -⟩ := State.created_moves 0 ({ p with scope := sc } : State σ) k none l
    refine ⟨_, new, hcalls _ hm.scope.trace_eq, hmain, hstraight, fun calls u hu => ?_, fun rank _ =>
      lighter_singleton (hweight rank)⟩
    obtain ⟨rfl, v, hv, hw⟩ := hamount calls u hu
    rw [hview] at hv
    exact ⟨u, .accepted he (.refl _) hl hv hw, .refl u⟩
  | error fault =>
    have hn := drifts_note st.env ({ p with scope := sc } : State σ) (.warn "launch failed")
    rw [hview] at hn
    refine ⟨_, [.failed k.task.describe fault], hcalls _ (State.refused_trace 0 _ k none fault),
      main_push ht _, by simp [Job.Straight], fun calls u hu => ?_, fun rank _ => ?_⟩
    · obtain ⟨x, ⟨rfl, hx⟩, hw⟩ := amountTo_singleton hu
      exact ⟨u, .refused he (.refl _) hl (hn.trans (hx.trans hw)), .refl u⟩
    · exact lighter_singleton (by simp [weightOf, Job.weight])

end

/-! ## Lists of actions -/

section

variable {st : Settings σ} {s s' p : State σ} {j : Job} {js : List Job} {t : Thread} {pass : Nat}
  {last : Option Action} {a : Action} {rest : List Action}

/-- An action that is done at once leaves the rest of its list. -/
theorem goesOn_done (hmain : s'.main = .walk pass last rest :: js)
    (h : ∀ calls u, Flattens st pass last rest s'.view calls u →
      Flattens st pass last (a :: rest) s.view calls u) :
    GoesOn st (.walk pass last (a :: rest)) js s s' [] [.walk pass last rest] := by
  refine ⟨hmain, by simp [Job.Straight], fun calls u hu => ?_, fun rank _ => ?_⟩
  · obtain ⟨x, hx, hw⟩ := amountTo_singleton hu
    exact ⟨x, h calls x hx, hw⟩
  · rw [weight_walk_cons pass last last]
    have hless := lighter_of_lt (a := a.weight rank) (Y := 0) (by simp) ((Job.walk pass last rest).weight rank)
    simpa [weightOf] using hless

theorem goesOn_plain (ha : a.directive = .plain) (ht : p.threads[0]? = some t) (hp : p.view = s.view) :
    GoesOn st (.walk pass last (a :: rest)) t.jobs s
      (p.push 0 [.dispatch (a.carryForward last), .walk pass (some (a.carryForward last)) rest]) []
      [.dispatch (a.carryForward last), .walk pass (some (a.carryForward last)) rest] := by
  refine ⟨main_push ht _, by simp [Job.Straight], fun calls u hu => ?_, fun rank _ => ?_⟩
  · obtain ⟨calls₁, calls₂, x, rfl, hx, hlist⟩ := hu
    obtain ⟨y, hy, hu⟩ := amountTo_singleton hlist
    have hx' : Dispatches st (a.carryForward last) s.view calls₁ x := by
      rw [← hp]
      exact hx
    have hwhole : Flattens st pass last (a :: rest) s.view (calls₁ ++ calls₂) y := .plain ha hx' hy
    exact ⟨y, hwhole, hu⟩
  · have hweight : a.weight rank = 5 := by
      unfold Action.weight
      rw [ha]
    rw [weight_walk_cons pass last (some (a.carryForward last)), hweight]
    have hless := lighter_of_lt (a := 5) (Y := {4}) (by simp)
      ((Job.walk pass (some (a.carryForward last)) rest).weight rank)
    rw [Multiset.add_comm] at hless
    simpa [weightOf, Job.weight] using hless

theorem goesOn_template {name : String} (ha : a.directive = .template name) (hp : p.view = s.view)
    (ht : p.threads[0]? = some t) (hj : t.jobs = .walk pass last rest :: js) :
    ∃ new, GoesOn st (.walk pass last (a :: rest)) js s (State.enter 0 pass (p.referred st a)) [] new := by
  have hscope : p.scope = s.view.scope := congrArg View.scope hp
  have htemplates : p.templates = s.view.templates := congrArg View.templates hp
  cases hg : p.templates.get? a.template with
  | none =>
    have hn := drifts_note st.env p (.warn "template not found")
    rw [hp] at hn
    rw [htemplates] at hg
    have hr : p.referred st a = (none, p.note (.warn "template not found")) := by
      unfold State.referred
      rw [htemplates, hg]
    rw [hr]
    refine ⟨_, goesOn_done ((main_eq (s := p.note _) ht).trans hj) fun calls u hu => ?_⟩
    refine .unknown ha hn ?_ hu
    rw [hn.templates]
    exact hg
  | some body =>
    obtain ⟨r, sc, q, he, hr, hq, hd⟩ := referred_some st hg
    rw [htemplates] at hg
    rw [hscope] at he
    rw [hp] at hd
    rw [← hq] at ht
    rw [hr]
    refine ⟨[.setLoops pass, .walk pass none (a.expansion body r), .walk pass last rest], ?_,
      by simp [Job.Straight], fun calls u hu => ?_, fun rank hrank => ?_⟩
    · show (q.push 0 _).main = _
      rw [main_push ht, hj]
      rfl
    · obtain ⟨calls₁, calls₂, x, rfl, ⟨rfl, v, hv, rfl⟩, hu⟩ := hu
      obtain ⟨calls₃, calls₄, y, rfl, hy, hlist⟩ := hu
      obtain ⟨z, hz, hw⟩ := amountTo_singleton hlist
      have hcount := (hd.trans hv).counting pass
      have hwhole : Flattens st pass last (a :: rest) s.view (calls₃ ++ calls₄) z :=
        .expanded ha (.refl _) hg he (Flattens.of_drifts hcount hy) hz
      exact ⟨z, hwhole, hw⟩
    · have hweight : a.weight rank = 6 + rank a := by
        unfold Action.weight
        rw [ha]
      have hlist : ∀ b ∈ a.expansion body r, b.weight rank < 6 + rank a := by
        intro b hb
        have hlower := hrank name body ha hg b (by rw [he]; exact hb)
        unfold Action.weight
        split
        · omega
        · rename_i name' hname
          exact Nat.add_lt_add_left (hlower name' hname) 6
        · omega
      have hless : ∀ n ∈ (Job.setLoops pass).weight rank +
          (Job.walk pass none (a.expansion body r)).weight rank, n < a.weight rank := by
        rw [hweight]
        intro n hn
        simp only [Job.weight, Multiset.mem_add, Multiset.mem_singleton, Multiset.mem_cons,
          Multiset.mem_coe, List.mem_map] at hn
        rcases hn with rfl | rfl | ⟨b, hb, rfl⟩
        · omega
        · omega
        · exact hlist b hb
      rw [weight_walk_cons pass last last]
      have hwhole := lighter_of_lt hless ((Job.walk pass last rest).weight rank)
      rw [Multiset.add_comm, Multiset.add_assoc] at hwhole
      simpa [weightOf] using hwhole

theorem goesOn_walk (hf : ∀ a rest', rest = a :: rest' → a.directive.flat = true)
    (ht : p.threads[0]? = some t) (hp : p.view = s.view) :
    ∃ new, GoesOn st (.walk pass last rest) t.jobs s (p.walk st 0 pass last rest) [] new := by
  cases rest with
  | nil =>
    refine ⟨[], main_eq ht, by simp, fun calls u hu => ?_, fun rank _ => ?_⟩
    · obtain ⟨rfl, hu⟩ := hu
      rw [show (p.walk st 0 pass last []).view = s.view from hp] at hu
      exact ⟨u, .done hu, .refl u⟩
    · exact lighter_singleton (by simp [weightOf])
  | cons a rest =>
    have hpush : (p.push 0 [.walk pass last rest]).threads[0]? =
        some { t with jobs := .walk pass last rest :: t.jobs } := by
      unfold State.push
      rw [List.getElem?_modify_eq, ht]
      rfl
    have hflat := hf a rest rfl
    unfold State.walk State.resolve
    cases hdir : a.directive with
    | plain =>
      simp only [hdir]
      exact ⟨_, goesOn_plain hdir ht hp⟩
    | client op =>
      simp only [hdir]
      obtain ⟨hm, -⟩ := State.clientOp_moves st 0 (p.push 0 [.walk pass last rest]) op
      refine ⟨_, goesOn_done (main_of_moves hm hpush) fun calls u hu => .client hdir (.refl _) ?_⟩
      rw [view_clientOp, show (p.push 0 [.walk pass last rest]).view = s.view from hp] at hu
      exact hu
    | includes files =>
      simp only [hdir]
      obtain ⟨hm, -⟩ := State.includeFiles_moves st 0 (p.push 0 [.walk pass last rest]) files
      refine ⟨_, goesOn_done (main_of_moves hm hpush) fun calls u hu => .includes hdir (.refl _) ?_⟩
      rw [view_includeFiles, show (p.push 0 [.walk pass last rest]).view = s.view from hp] at hu
      exact hu
    | template name =>
      simp only [hdir]
      exact goesOn_template hdir hp hpush rfl
    | scope | test | foreach =>
      rw [hdir] at hflat
      cases hflat

/-- A step of the first thread in a pass. -/
theorem goesOn_of_stepped (hc : st.collects = false) (hb : s.scope.broken = false)
    (h : Stepped st 0 j s s') (hmain : s.main = j :: js) (hj : j.Straight)
    (hseq : j.sequential = true) : (s'.main = [] ∧ (⟨s, 0, j⟩ : Moment σ).fatal st) ∨
      ∃ made new, s'.calls = s.calls ++ made ∧ GoesOn st j js s s' made new := by
  rcases performed h hmain with ⟨hoff, hbreaks⟩ | ⟨hbr, hs', t, ht, rfl⟩
  · exact .inl ⟨hoff, .inl hbreaks⟩
  have hp : (s.pop 0).view = s.view := rfl
  have hquiet : EventKind.run ∉ j.notes → (∃ new, GoesOn st j t.jobs s s' [] new) →
      ∃ made new, s'.calls = s.calls ++ made ∧ GoesOn st j t.jobs s s' made new :=
    fun hk ⟨new, hgo⟩ => ⟨[], new, (calls_of_grows h.scope hk).trans (List.append_nil _).symm, hgo⟩
  cases j with
  | walk pass last rest =>
    refine .inr (hquiet (by simp [Job.notes]) ?_)
    rw [hs']
    refine goesOn_walk (fun a rest' hr => ?_) ht hp
    subst hr
    exact hseq
  | setLoops pass =>
    refine .inr (hquiet (by simp [Job.notes]) ⟨[], ?_⟩)
    rw [hs']
    exact goesOn_setLoops ht hp
  | dispatch a =>
    obtain ⟨hw, hbrief⟩ : a.wait = true ∧ a.brief = true := by
      simpa [Job.sequential] using hseq
    rw [show s' = (s.pop 0).dispatch st 0 a from hs'] at hquiet ⊢
    refine (goesOn_dispatch hw hbrief ht hp hbr).imp ?_ (hquiet (by simp [Job.notes]))
    exact fun ⟨hoff, sc, hcrash⟩ => ⟨hoff, .inr ⟨a, sc, rfl, hcrash⟩⟩
  | control task a =>
    refine .inr (hquiet (by simp [Job.notes]) ?_)
    rw [hs']
    exact goesOn_control hj ht hp
  | launch k =>
    rw [hs']
    exact .inr (goesOn_launch hj.1 hj.2 ht hp hbr)
  | launched k watcher l c =>
    obtain ⟨rfl, hk⟩ := hj
    refine .inr (hquiet (by simp [Job.notes]) ⟨[], ?_⟩)
    rw [hs']
    exact goesOn_launched hk ht hp
  | failed describe fault =>
    obtain ⟨u, js', u', new, spawned, hu, hjobs, -, hth, -⟩ := h.moves
    have hself := (Stepped.getElem?_threads hth (List.getElem?_eq_some_iff.1 hu).1).1
    obtain ⟨left, hleft, hjobs'⟩ := quiet_failed hc hb h hu hjobs hself
    obtain ⟨-, rfl⟩ := List.cons.inj (hjobs.symm.trans ((main_eq hu).symm.trans hmain))
    exact .inr (hquiet (by simp [Job.notes]) ⟨left, goesOn_idle ((main_eq hself).trans hjobs')
      (hleft.imp_right .inl) (fun _ _ => rfl) (fun _ => ⟨_, rfl⟩) (aside_drifts h rfl)
      fun w hw => ⟨rfl, hw⟩⟩)
  | stopOnError | sleep | wake | join =>
    obtain ⟨u, js', u', new, spawned, hu, hjobs, hy, hth, hjobs'⟩ := h.goesOn hbr (by simp)
    have hself := (Stepped.getElem?_threads hth (List.getElem?_eq_some_iff.1 hu).1).1
    obtain ⟨-, rfl⟩ := List.cons.inj (hjobs.symm.trans ((main_eq hu).symm.trans hmain))
    refine .inr (hquiet (by simp [Job.notes]) ⟨new, goesOn_idle ((main_eq hself).trans hjobs') ?_ ?_
      (fun _ => ⟨_, rfl⟩) (aside_drifts h rfl) fun w hw => ⟨rfl, hw⟩⟩)
    · first | exact .inl hy.1 | exact .inr (.inr ⟨_, hy.1⟩)
    · first | exact fun _ hne => absurd hy.1 hne | exact fun _ _ => rfl
  | _ => exact hj.elim

end

end Run

end Workload
