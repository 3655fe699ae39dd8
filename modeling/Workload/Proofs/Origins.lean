import Workload.Proofs.Counter
import Workload.Proofs.Straight

/-!
# Where a launch comes from

A list of actions is entered by a pass, by a collection of diagnostics, or for a loop or a reference
(`Moment.Enters`).  Whatever a thread is about to do for an action of such a list comes of what was done
before (`Job.StemsFrom`): its dispatch of the list, its task of the dispatch, and its launch, by the same
thread, of the task (`stemsFrom_of_chronicle`).
-/

namespace Workload

/-- An action that takes over what the previous one says keeps its alias. -/
theorem Action.alias_carryForward (last : Option Action) (a : Action) :
    (a.carryForward last).alias_ = a.alias_ := by
  unfold carryForward
  cases last with
  | none => rfl
  | some p =>
    simp only []
    split_ifs <;> rfl

/-- An action that a reference stands for has the alias of the template, or else that of the reference. -/
theorem Action.alias_expansion {a b : Action} {body : List Action} {r : Except ExpressionFault String}
    (hb : b ∈ a.expansion body r) : ∃ b₀ ∈ body,
      b.alias_ = orText (Template.substitute b₀.alias_ (Template.splitArgs (r.toOption.getD a.args)))
        a.alias_ := by
  obtain ⟨b₀, hb₀, rfl⟩ := List.mem_map.1 hb
  exact ⟨b₀, hb₀, rfl⟩

namespace Run

variable {σ : Type}

/-- A list of actions is entered at a moment: that of a pass or of a collection of diagnostics, or the one
that a loop or a reference stands for. -/
inductive Moment.Enters (st : Settings σ) (m : Moment σ) : List Action → Prop
  | pass {inv : Invocation} {limit : Int} {pass : Nat} :
    m.job = .passes inv limit pass → Enters st m inv.actions
  | collection {describe : String} {fault : RuntimeFault} {spec : CollectSpec} :
    m.job = .failed describe fault → st.config.collect = some spec → Enters st m spec.actions
  | loop {pass : Nat} {last : Option Action} {a : Action} {rest actions : List Action}
    {foreach text : String} : m.job = .walk pass last (a :: rest) → a.directive = .foreach foreach →
    (m.before.scope.evaluate st.env a.loopExpression).1 = .ok text →
    Action.listOfBlankOrText? text = some actions → Enters st m actions
  | reference {pass : Nat} {last : Option Action} {a : Action} {rest body : List Action}
    {name : String} : m.job = .walk pass last (a :: rest) → a.directive = .template name →
    m.before.templates.get? a.template = some body →
    Enters st m (a.expansion body (m.before.scope.evaluate st.env a.args).1)

/-- The alias under which a task is controlled from a moment on: that of its action, or one that is drawn. -/
def Moment.aliasOf (st : Settings σ) (m : Moment σ) (a : Action) : String :=
  if a.alias_.isEmpty then st.env.drawn m.before.draws.length else a.alias_

/-- What a job of thread `i` comes of, among the moments so far. -/
def Job.StemsFrom (st : Settings σ) (c : List (Moment σ)) (i : ThreadId) : Job → Prop
  | .walk _ _ rest => ∃ m ∈ c, ∃ front, m.Enters st (front ++ rest)
  | .dispatch a => ∃ m ∈ c, ∃ pass last a₀ rest, m.job = .walk pass last (a₀ :: rest) ∧
    a₀.directive = .plain ∧ a = a₀.carryForward last
  | .control _ a => ∃ m ∈ c, m.job = .dispatch a
  | .launch k => ∃ m ∈ c, m.thread = i ∧ ∃ a, m.job = .control k.task a ∧ k.alias_ = m.aliasOf st a
  | .launched k _ l _ => ∃ m ∈ c, m.thread = i ∧ m.job = .launch k ∧
    (m.before.scope.launch st.env k.task).1 = .ok l
  | _ => True

/-! ## What a job leaves -/

section

variable {st : Settings σ} {s s' : State σ} {i : ThreadId} {j : Job} {c : List (Moment σ)}
  {new js : List Job} {spawned : List (List Job)}

theorem Job.StemsFrom.mono {c' : List (Moment σ)} {x : Job} (h : x.StemsFrom st c i)
    (hc : c ⊆ c') : x.StemsFrom st c' i := by
  cases x with
  | walk | dispatch | control | launch | launched =>
    obtain ⟨m, hm, h⟩ := h
    exact ⟨m, hc hm, h⟩
  | _ => trivial

/-- A thread goes on with what its job has put in front of the others, or breaks off. -/
theorem Stepped.own_jobs {kinds : List EventKind} (h : Stepped st i j s s')
    (hm : State.Moves kinds i new spawned (s.pop i) (j.perform st i (s.pop i))) :
    ∃ t js, s.threads[i]? = some t ∧ t.jobs = j :: js ∧
      ∀ u, s'.threads[i]? = some u → u.jobs = new ++ js ∨ u.jobs = [] := by
  obtain ⟨t, js, -, -, -, ht, hj, -⟩ := h.moves
  refine ⟨t, js, ht, hj, fun u hu => ?_⟩
  cases hb : (j.perform st i (s.pop i)).scope.broken with
  | true => exact .inr (h.breaksOff hb u hu).1
  | false =>
    have hpop := State.pop_getElem? ht
    rw [hj, List.tail_cons] at hpop
    obtain ⟨n, hn⟩ := hm.threads _ hpop
    have hi : i < (s.pop i).threads.length := (List.getElem?_eq_some_iff.1 hpop).1
    rw [h.result, State.endBroken_of_unbroken hb, hn,
      List.getElem?_append_left (by simpa using hi), List.getElem?_set_self hi] at hu
    obtain rfl := Option.some.inj hu
    exact .inl rfl

/-- What a thread has left after a job is what it had before, or left by the job. -/
theorem Stepped.left_jobs {t u : Thread} {x : Job} (h : Stepped st i j s s')
    (ht : s.threads[i]? = some t) (hj : t.jobs = j :: js) (hu : s'.threads[i]? = some u)
    (hx : x ∈ u.jobs) : x ∈ js ∨ ∃ new spawned, j.Yields st s s' new spawned ∧ x ∈ new := by
  obtain ⟨t', js', new, spawned, ht', hj', hy, hcases⟩ := h.thread_cases
  obtain rfl := Option.some.inj (ht.symm.trans ht')
  obtain ⟨-, rfl⟩ := List.cons.inj (hj.symm.trans hj')
  rcases hcases i u hu with ⟨-, ⟨hjobs, -⟩ | ⟨hjobs, -⟩⟩ | ⟨hi, -⟩ | ⟨hi, -⟩
  · rw [hjobs, List.mem_append] at hx
    exact hx.symm.imp_right fun hx => ⟨new, spawned, hy, hx⟩
  · rw [hjobs] at hx
    cases hx
  · exact absurd rfl hi
  · exact absurd rfl hi

/-- Where actions are entered, these are what is walked through. -/
theorem State.walks_of_enter {kinds : List EventKind} (pass : Nat)
    {r : Option (List Action) × State σ} (hm : State.Moves kinds i [] [] s r.2) :
    ∃ new, State.Moves kinds i new [] s (State.enter i pass r) ∧
      ∀ pass' last rest, Job.walk pass' last rest ∈ new → r.1 = some rest := by
  rcases r with ⟨_ | actions, s'⟩
  · exact ⟨[], hm, fun _ _ _ hx => by cases hx⟩
  · refine ⟨_, hm.then_push [.setLoops pass, .walk pass none actions], fun pass' last rest hx => ?_⟩
    simp only [List.mem_cons, List.not_mem_nil, or_false, reduceCtorEq, false_or,
      Job.walk.injEq] at hx
    rw [hx.2.2]

theorem unrolled_some {a : Action} {actions : List Action}
    (h : (s.unrolled st a).1 = some actions) : ∃ text,
      (s.scope.evaluate st.env a.loopExpression).1 = .ok text ∧
        Action.listOfBlankOrText? text = some actions := by
  unfold State.unrolled State.within at h
  rcases he : s.scope.evaluate st.env a.loopExpression with ⟨_ | text, sc⟩
  · rw [he] at h
    cases h
  · rw [he] at h
    refine ⟨text, rfl, ?_⟩
    simp only [] at h
    split at h
    · rename_i hl
      rw [hl]
      exact h
    · cases h

theorem referred_eq_some {a : Action} {actions : List Action}
    (h : (s.referred st a).1 = some actions) : ∃ body,
      s.templates.get? a.template = some body ∧
        actions = a.expansion body (s.scope.evaluate st.env a.args).1 := by
  cases hg : s.templates.get? a.template with
  | none =>
    unfold State.referred at h
    rw [hg] at h
    cases h
  | some body =>
    obtain ⟨r, sc, q, he, hr, -⟩ := referred_some st hg
    rw [hr] at h
    refine ⟨body, rfl, ?_⟩
    rw [he]
    exact (Option.some.inj h).symm

/-- What is walked through for an action that is not plain is the list that it stands for. -/
theorem walks_of_resolve (st : Settings σ) (s : State σ) (i : ThreadId) {m : Moment σ} {pass : Nat}
    {last : Option Action} {a : Action} {rest : List Action} (hm : m.job = .walk pass last (a :: rest)) (hscope : s.scope = m.before.scope)
    (htemplates : s.templates = m.before.templates) :
    ∃ front, State.Moves [.status, .kill, .remove, .copy] i front [] s (s.resolve st i pass a) ∧
      ∀ pass' last' rest', Job.walk pass' last' rest' ∈ front → m.Enters st rest' := by
  unfold State.resolve
  cases hd : a.directive with
  | foreach text =>
    obtain ⟨front, hmoves, hfront⟩ := State.walks_of_enter pass (State.unrolled_moves st i s a).1
    refine ⟨front, hmoves.mono (by simp), fun pass' last' rest' hx => ?_⟩
    obtain ⟨text, he, hl⟩ := unrolled_some (hfront pass' last' rest' hx)
    rw [hscope] at he
    exact .loop hm hd he hl
  | template name =>
    obtain ⟨front, hmoves, hfront⟩ := State.walks_of_enter pass (State.referred_moves st i s a).1
    refine ⟨front, hmoves.mono (by simp), fun pass' last' rest' hx => ?_⟩
    obtain ⟨body, hg, rfl⟩ := referred_eq_some (hfront pass' last' rest' hx)
    rw [htemplates] at hg
    rw [hscope]
    exact .reference hm hd hg
  | client | scope | test | includes | plain =>
    obtain ⟨front, hmoves, -, hu⟩ := State.resolve_moves st i s pass a
    unfold State.resolve at hmoves
    unfold Unfolds at hu
    simp only [hd] at hmoves hu
    refine ⟨front, hmoves, fun pass' last' rest' hx => ?_⟩
    first
    | rw [hu] at hx
      cases hx
    | rcases hu with rfl | ⟨_, rfl⟩
      · cases hx
      · simp [Invocation.job] at hx

/-- What is walked through after an action is the rest of its list, or what it stands for. -/
theorem walks_of_walk (st : Settings σ) (s : State σ) (i : ThreadId) (pass : Nat) (last : Option Action)
    (a : Action) (rest : List Action) :
    ∃ kinds new, State.Moves kinds i new [] (s.pop i)
        ((Job.walk pass last (a :: rest)).perform st i (s.pop i)) ∧
      ∀ pass' last' rest', Job.walk pass' last' rest' ∈ new → rest' = rest ∨
        Moment.Enters st ⟨s, i, .walk pass last (a :: rest)⟩ rest' := by
  simp only [Job.perform, State.walk]
  split
  · refine ⟨[], _, State.Moves.push _ _, fun pass' last' rest' hx => .inl ?_⟩
    simp only [List.mem_cons, reduceCtorEq, false_or, List.not_mem_nil, or_false,
      Job.walk.injEq] at hx
    exact hx.2.2
  · obtain ⟨front, hm, hfront⟩ := walks_of_resolve st ((s.pop i).push i [.walk pass last rest]) i
      (m := ⟨s, i, .walk pass last (a :: rest)⟩) rfl rfl rfl
    have hpush := (State.Moves.push (i := i) (s.pop i) [.walk pass last rest]).mono
      (List.nil_subset [.status, .kill, .remove, .copy])
    refine ⟨_, _, hpush.trans hm, fun pass' last' rest' hx => ?_⟩
    rcases List.mem_append.1 hx with hx | hx
    · exact .inr (hfront pass' last' rest' hx)
    · exact .inl (Job.walk.inj (List.mem_singleton.1 hx)).2.2

/-! ## Steps -/

theorem mem_concat_moment (c : List (Moment σ)) (m : Moment σ) : m ∈ c ++ [m] :=
  List.mem_append_right c (List.mem_singleton_self m)

/-- An action that is dispatched is the next plain one of its list. -/
theorem dispatch_of_walk {pass : Nat} {last : Option Action} {rest : List Action} {a : Action}
    (hy : (Job.walk pass last rest).Yields st s s' new spawned) (hx : .dispatch a ∈ new) :
    ∃ a₀ rest', rest = a₀ :: rest' ∧ a₀.directive = .plain ∧ a = a₀.carryForward last := by
  cases rest with
  | nil =>
    rw [hy.1] at hx
    cases hx
  | cons a₀ rest =>
    refine ⟨a₀, rest, rfl, ?_⟩
    obtain ⟨-, hy⟩ := hy
    split_ifs at hy with hplain
    · rw [hy] at hx
      simp only [List.mem_cons, Job.dispatch.injEq, reduceCtorEq, List.not_mem_nil, or_false] at hx
      exact ⟨hplain, hx⟩
    · obtain ⟨front, hu, rfl⟩ := hy
      rcases List.mem_append.1 hx with hx | hx
      · rcases unfolds_cases hu with rfl | ⟨target, rfl⟩ | ⟨inner, rfl⟩ | ⟨inner, rfl⟩ <;>
          simp [Invocation.job] at hx
      · cases List.mem_singleton.1 hx

/-- A launch that is to be recorded came off. -/
theorem launched_of_launch {k k' : Ticket} {watcher : Option (ThreadId × PromiseId)} {l : Launch}
    {ch : ChannelId} (hy : (Job.launch k).Yields st s s' new spawned)
    (hx : .launched k' watcher l ch ∈ new) : (s.scope.launch st.env k.task).1 = .ok l := by
  have hawaits : ∀ (w : Option (ThreadId × PromiseId)) (l' : Launch) (restarter : ThreadId),
      .launched k' watcher l ch ∉ k.awaits w l' restarter := by
    intro w l' restarter h
    have hl : Job.Leaves st .hang (.launched k' watcher l ch) := leaves_awaits k w l' restarter _ h
    cases hl
  rcases hy with ⟨p, -, -, -, rfl, -⟩ | ⟨-, -, hy⟩
  · cases hx
  · generalize (s.scope.launch st.env k.task).1 = r at hy ⊢
    cases hy with
    | refused => simp at hx
    | known | watched => exact absurd hx (hawaits _ _ _)
    | awaited =>
      simp only [List.mem_cons, reduceCtorEq, false_or, Job.launched.injEq, List.not_mem_nil,
        or_false] at hx
      rw [hx.2.2.1]

/-- What is left but a walk, and by another job than the control of a task, stems from that job. -/
theorem stemsFrom_new (hy : j.Yields st s s' new spawned) {x : Job} (hx : x ∈ new)
    (hwalk : ∀ pass last rest, x ≠ .walk pass last rest) (hcontrol : ∀ task a, j ≠ .control task a) :
    x.StemsFrom st (c ++ [⟨s, i, j⟩]) i := by
  have hm := mem_concat_moment c ⟨s, i, j⟩
  cases hy.leaves x hx with
  | walk => exact absurd rfl (hwalk _ _ _)
  | dispatch pass last rest a =>
    obtain ⟨a₀, rest, rfl, hplain, ha⟩ := dispatch_of_walk hy hx
    exact ⟨_, hm, pass, last, a₀, rest, rfl, hplain, ha⟩
  | control a task => exact ⟨_, hm, rfl⟩
  | launch task a k => exact absurd rfl (hcontrol task a)
  | launched k watcher l ch => exact ⟨_, hm, rfl, rfl, launched_of_launch hy hx⟩
  | _ => trivial

/-- A list that is walked through after another job than a walk is entered at it. -/
theorem enters_of_walk (hy : j.Yields st s s' new spawned) {pass : Nat} {last : Option Action}
    {rest : List Action} (hx : .walk pass last rest ∈ new)
    (hwalk : ∀ pass last rest, j ≠ .walk pass last rest) : Moment.Enters st ⟨s, i, j⟩ rest := by
  by_cases hp : ∃ inv limit n, j = .passes inv limit n
  · obtain ⟨inv, limit, n, rfl⟩ := hp
    obtain ⟨rfl, -⟩ := hy
    split_ifs at hx
    · simp only [List.mem_cons, reduceCtorEq, false_or, Job.walk.injEq, List.not_mem_nil,
        or_false] at hx
      obtain ⟨-, -, rfl⟩ := hx
      exact .pass rfl
    · unfold State.closingJobs at hx
      split_ifs at hx <;> simp at hx
  by_cases hf : ∃ describe fault, j = .failed describe fault
  · obtain ⟨describe, fault, rfl⟩ := hf
    obtain ⟨-, ⟨-, rfl, -⟩ | ⟨rfl, -⟩ | ⟨spec, hspec, -, -, rfl⟩⟩ := hy
    · cases hx
    · simp at hx
    · simp only [List.mem_cons, reduceCtorEq, false_or, Job.walk.injEq, List.not_mem_nil,
        or_false] at hx
      obtain ⟨-, -, rfl⟩ := hx
      exact .collection rfl hspec
  · cases sets?_new hy (fun inv limit n h => hp ⟨inv, limit, n, h⟩) hwalk
      (fun describe fault h => hf ⟨describe, fault, h⟩) _ hx

section

variable {t u : Thread} {x : Job}

/-- What a task leaves before its launch stems from its control. -/
theorem stemsFrom_control {task : Task} {a : Action} (h : Stepped st i (.control task a) s s')
    (ht : s.threads[i]? = some t) (hj : t.jobs = .control task a :: js) (hu : s'.threads[i]? = some u) :
    u.jobs = [] ∨ ∃ new, u.jobs = new ++ js ∧ ∀ x ∈ new, x.StemsFrom st (c ++ [⟨s, i, .control task a⟩]) i := by
  obtain ⟨t', js', ht', hj', hown⟩ := h.own_jobs (State.control_moves st i (s.pop i) task a).1
  obtain rfl := Option.some.inj (ht.symm.trans ht')
  obtain ⟨-, rfl⟩ := List.cons.inj (hj.symm.trans hj')
  rcases hown u hu with hjobs | hjobs
  swap
  · exact .inl hjobs
  refine .inr ⟨_, hjobs, fun x hx => ?_⟩
  rcases List.mem_append.1 hx with hx | hx
  · split_ifs at hx
    · cases hx
    · obtain rfl := List.mem_singleton.1 hx
      trivial
  · obtain rfl := List.mem_singleton.1 hx
    refine ⟨_, mem_concat_moment c _, rfl, a, rfl, ?_⟩
    unfold Moment.aliasOf State.aliasOf
    split_ifs <;> rfl

/-- What another job leaves stems from it. -/
theorem stemsFrom_other (h : Stepped st i j s s') (ht : s.threads[i]? = some t) (hj : t.jobs = j :: js)
    (hwalk : ∀ pass last rest, j ≠ .walk pass last rest) (hcontrol : ∀ task a, j ≠ .control task a)
    (hu : s'.threads[i]? = some u) (hx : x ∈ u.jobs) :
    x ∈ js ∨ x.StemsFrom st (c ++ [⟨s, i, j⟩]) i := by
  rcases h.left_jobs ht hj hu hx with hold | ⟨new, spawned, hy, hnew⟩
  · exact .inl hold
  right
  by_cases hlist : ∃ pass last rest, x = .walk pass last rest
  · obtain ⟨pass, last, rest, rfl⟩ := hlist
    exact ⟨_, mem_concat_moment c _, [], enters_of_walk hy hnew hwalk⟩
  · exact stemsFrom_new hy hnew (fun pass last rest h => hlist ⟨pass, last, rest, h⟩) hcontrol

/-- What is left of a list stems from where the list was entered, and what an action of it stands for from
that action. -/
theorem stemsFrom_walk {pass : Nat} {last : Option Action} {rest : List Action}
    (h : Stepped st i (.walk pass last rest) s s') (ht : s.threads[i]? = some t)
    (hj : t.jobs = .walk pass last rest :: js) (hstem : (Job.walk pass last rest).StemsFrom st c i)
    (hu : s'.threads[i]? = some u) (hx : x ∈ u.jobs) :
    x ∈ js ∨ x.StemsFrom st (c ++ [⟨s, i, .walk pass last rest⟩]) i := by
  rcases h.left_jobs ht hj hu hx with hold | ⟨new, spawned, hy, hnew⟩
  · exact .inl hold
  by_cases hlist : ∃ pass' last' rest', x = .walk pass' last' rest'
  · obtain ⟨pass', last', rest', rfl⟩ := hlist
    cases rest with
    | nil =>
      rw [hy.1] at hnew
      cases hnew
    | cons a rest =>
      obtain ⟨kinds, new', hm, hnew'⟩ := walks_of_walk st s i pass last a rest
      obtain ⟨t', js', ht', hj', hown⟩ := h.own_jobs hm
      obtain rfl := Option.some.inj (ht.symm.trans ht')
      obtain ⟨-, rfl⟩ := List.cons.inj (hj.symm.trans hj')
      rcases hown u hu with hjobs | hjobs
      · rw [hjobs, List.mem_append] at hx
        refine hx.symm.imp_right fun hx => ?_
        rcases hnew' _ _ _ hx with rfl | henters
        · obtain ⟨m, hm, front, henters⟩ := hstem
          refine ⟨m, List.mem_append_left _ hm, front ++ [a], ?_⟩
          rwa [List.append_assoc]
        · exact ⟨_, mem_concat_moment c _, [], henters⟩
      · rw [hjobs] at hx
        cases hx
  · exact .inr (stemsFrom_new hy hnew (fun pass' last' rest' h => hlist ⟨pass', last', rest', h⟩) nofun)

end

/-- Whatever a thread has left to do stems from what was done before. -/
def State.Stems (st : Settings σ) (c : List (Moment σ)) (s : State σ) : Prop :=
  ∀ (k : ThreadId) (t : Thread), s.threads[k]? = some t → ∀ x ∈ t.jobs, x.StemsFrom st c k

theorem stems_step (h : Stepped st i j s s') (hs : s.Stems st c) : s'.Stems st (c ++ [⟨s, i, j⟩]) := by
  have hm := mem_concat_moment c ⟨s, i, j⟩
  have hsub : c ⊆ c ++ [⟨s, i, j⟩] := List.subset_append_left c _
  obtain ⟨t, js, new, spawned, ht, hj, hy, hcases⟩ := h.thread_cases
  intro k u hu x hx
  rcases hcases k u hu with ⟨rfl, -⟩ | ⟨-, hold⟩ | ⟨-, -, l, hl, rfl⟩
  · have hstems := hs k t ht
    rw [hj] at hstems
    suffices hnew : x ∈ js ∨ x.StemsFrom st (c ++ [⟨s, k, j⟩]) k from
      hnew.elim (fun hold => (hstems x (List.mem_cons_of_mem j hold)).mono hsub) id
    by_cases hcontrol : ∃ task a, j = .control task a
    · obtain ⟨task, a, rfl⟩ := hcontrol
      rcases stemsFrom_control h ht hj hu with hnil | ⟨new, hjobs, hnew⟩
      · rw [hnil] at hx
        cases hx
      · rw [hjobs, List.mem_append] at hx
        exact hx.symm.imp_right (hnew x)
    by_cases hwalk : ∃ pass last rest, j = .walk pass last rest
    · obtain ⟨pass, last, rest, rfl⟩ := hwalk
      exact stemsFrom_walk h ht hj (hstems _ List.mem_cons_self) hu hx
    · exact stemsFrom_other h ht hj (fun pass last rest h => hwalk ⟨pass, last, rest, h⟩)
        (fun task a h => hcontrol ⟨task, a, h⟩) hu hx
  · exact (hs k u hold x hx).mono hsub
  · cases hy.starts l hl x hx with
    | control a task => exact ⟨_, hm, rfl⟩
    | _ => trivial

theorem stems_of_chronicle {sc : Scope σ} {actions : List Action} {report : Report}
    (hb : sc.broken = false) (hc : Chronicle st (start st sc actions report) c s) : s.Stems st c := by
  have hstart : (start st sc actions report).Stems st [] := by
    intro k t ht x hx
    obtain rfl := List.mem_singleton.1 (List.mem_of_getElem? ht)
    obtain rfl := List.mem_singleton.1 hx
    trivial
  exact hc.invariant hb hstart (fun _ _ _ _ _ hs h _ => stems_step h hs) fun _ _ _ hs _ _ => hs

end

end Run

end Workload
