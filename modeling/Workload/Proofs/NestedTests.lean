import Workload.Proofs.Agenda

/-!
# Nested tests

A run of a chain of documents follows its script, and comes to an end where its tasks do
(`nested_tests_multiply`).
-/

namespace Workload.Run

variable {σ : Type}

/-- A run so far follows its script, and its counter the passes. -/
structure OnScript (st : Settings σ) (docs : List (List Action)) (last : Nat) (c : List (Moment σ))
    (s : State σ) : Prop where
  quiet : OthersQuiet s
  fine : s.failure = none
  follows : ∃ es, script last 0 docs = c.filterMap Moment.item? ++ es.filterMap id ∧
    Follows st docs last s es
  counted : ∀ m ∈ c, ∀ depth pass left a, m.item? = some (.dispatched depth pass left a) →
    pass ≤ last ∧ m.before.scope.loops = pass

section Runs

variable {st : Settings σ} {docs : List (List Action)} {last loops : Nat} {s s' : State σ}
  {i : ThreadId} {j : Job} {js : List Job} {es : List (Option Entry)} {c : List (Moment σ)}

theorem Within.head_eq {depth pass : Nat} (h : Within st docs last depth pass js es) :
    ∃ latest rest below, js = .walk pass latest rest :: below := by
  cases h with
  | mk => exact ⟨_, _, _, rfl⟩

theorem Below.head_eq {depth pass : Nat} (h : Below st docs last depth pass js es) :
    ∃ inv limit below, js = .passes inv limit (pass + 1) :: below := by
  cases h with
  | whole => exact ⟨_, _, _, rfl⟩
  | nested => exact ⟨_, _, _, rfl⟩

/-- Where a list of actions goes on the counter is the pass. -/
theorem Agenda.loops_of_walk {pass : Nat} {latest : Option Action} {rest : List Action}
    (h : Agenda st docs last loops (.walk pass latest rest :: js) es) : loops = pass := by
  generalize hjobs : Job.walk pass latest rest :: js = jobs at h
  cases h with
  | next hbelow =>
    obtain ⟨inv, limit, below, rfl⟩ := hbelow.head_eq
    cases hjobs
  | within herr hw =>
    rename_i errands js' 
    cases errands with
    | nil =>
      obtain ⟨latest', rest', below, rfl⟩ := hw.head_eq
      cases hjobs
      rfl
    | cons x errands =>
      obtain ⟨rfl, -⟩ := List.cons.inj hjobs
      cases herr _ List.mem_cons_self
  | closing hsuf =>
    subst hjobs
    cases closes_of_mem _ (hsuf.subset List.mem_cons_self)
  | _ => cases hjobs

/-- Where an action is dispatched the counter is the pass. -/
theorem Agenda.loops_of_dispatch {pass : Nat} {a : Action} {latest : Option Action}
    {rest : List Action}
    (h : Agenda st docs last loops (.dispatch a :: .walk pass latest rest :: js) es) :
    pass ≤ last ∧ loops = pass := by
  generalize hjobs : Job.dispatch a :: Job.walk pass latest rest :: js = jobs at h
  cases h with
  | next hbelow =>
    obtain ⟨inv, limit, below, rfl⟩ := hbelow.head_eq
    cases hjobs
  | within herr hw =>
    rename_i errands js'
    cases errands with
    | nil =>
      obtain ⟨latest', rest', below, rfl⟩ := hw.head_eq
      cases hjobs
    | cons x errands =>
      obtain ⟨rfl, -⟩ := List.cons.inj hjobs
      cases herr _ List.mem_cons_self
  | dispatch hbelow =>
    cases hjobs
    exact ⟨hbelow.le_last, rfl⟩
  | closing hsuf =>
    subst hjobs
    cases closes_of_mem _ (hsuf.subset List.mem_cons_self)
  | _ => cases hjobs

/-- With nothing before the first thread the script is over. -/
theorem Agenda.over (h : Agenda st docs last loops [] es) : es = [] ∧ loops = last := by
  generalize hjobs : ([] : List Job) = jobs at h
  cases h with
  | next hbelow =>
    obtain ⟨inv, limit, below, rfl⟩ := hbelow.head_eq
    cases hjobs
  | within herr hw =>
    obtain ⟨latest', rest', below, rfl⟩ := hw.head_eq
    simp at hjobs
  | closing =>
    subst hjobs
    exact ⟨rfl, rfl⟩
  | _ => cases hjobs

theorem jobs_of_entryOf {jobs : List Job} {depth pass left : Nat} {a : Action}
    (h : entryOf jobs = some (.dispatched depth pass left a)) :
    ∃ latest rest js, jobs = .dispatch a :: .walk pass latest rest :: js := by
  unfold entryOf at h
  split at h
  · cases h
    exact ⟨_, _, _, rfl⟩
  · cases h
  · cases h

/-- A step is an errand of a task, or the next one that is left of the script. -/
theorem follows_of_stepped (hc : Counted st last) (hdocs : Chain docs) (hs : Smooth st docs s)
    (hb : s.scope.broken = false) (h : Stepped st i j s s') (hq : OthersQuiet s)
    (hf : Follows st docs last s es) :
    (i = 0 → j.errand = true) ∧ (⟨s, i, j⟩ : Moment σ).item? = none ∧ Follows st docs last s' es ∨
      ∃ es', es = (⟨s, i, j⟩ : Moment σ).item? :: es' ∧ Follows st docs last s' es' := by
  rcases main_step h with ⟨rfl, js, -, -, hmain, -⟩ | ⟨hi, -, hmain, hfell⟩
  · have hentry : (⟨s, 0, j⟩ : Moment σ).item? = entryOf (j :: js) := by
      unfold Moment.item?
      rw [if_pos rfl, ← hmain]
    rw [hentry]
    rcases hf with ⟨-, hoff⟩ | ⟨hf, ha⟩
    · rw [hoff] at hmain
      cases hmain
    · rw [hmain] at ha
      rcases script_step hc hdocs hs hb h hmain hf ha with ⟨hj, hnext⟩ | hnext
      · exact .inl ⟨fun _ => hj, entryOf_of_errand hj, hnext⟩
      · exact .inr hnext
  · refine .inl ⟨fun h0 => absurd h0 hi, if_neg hi, ?_⟩
    have hloops : s'.scope.loops = s.scope.loops := by
      obtain ⟨t, js, -, -, -, ht, hj, -⟩ := h.moves
      have hquiet := (hq i t hi ht j (hj ▸ List.mem_cons_self)).sets
      rw [loops_of_stepped h]
      cases j with
      | setLoops => cases hquiet
      | _ => rfl
    unfold Follows
    rw [hmain, hfell, hloops]
    exact hf

/-- No call of an opening fails. -/
theorem fine_of_stepped (hs : Smooth st docs s) (h : Stepped st i j s s') (hq : OthersQuiet s)
    (hf : s.failure = none) : s'.failure = none := by
  rcases h.board.failure with hsame | ⟨calls, inv, rfl⟩
  · exact Eq.trans hsame hf
  · obtain ⟨t, js, -, new, spawned, ht, hj, hy, -⟩ := h.moves
    by_cases hi : i = 0
    · subst hi
      cases calls with
      | nil => exact hy.1.trans hf
      | cons call calls =>
        obtain ⟨-, hy⟩ := hy
        rw [hs.opens call calls inv (next?_of_main ((main_eq ht).trans hj))] at hy
        exact hy.2.trans hf
    · cases (hq i t hi ht _ (hj ▸ List.mem_cons_self)).renews

theorem onScript_start (sc : Scope σ) (report : Report) {actions : List Action}
    (hd : docs[0]? = some actions) : OnScript st docs last [] (start st sc actions report) := by
  refine ⟨fun k t hk ht => ?_, rfl, ⟨_, ?_, .inr ⟨rfl, .opening hd⟩⟩, by simp⟩
  · cases k with
    | zero => exact absurd rfl hk
    | succ k => cases ht
  · unfold passesSteps closingSteps
    rw [List.filterMap_append, List.filterMap_append, List.filterMap_cons_none rfl, entries_silent,
      entries_silent, entries_stepsFrom]
    simp [script]

theorem onScript_step (hc : Counted st last) (hdocs : Chain docs) (hs : Smooth st docs s)
    (hb : s.scope.broken = false) (h : Stepped st i j s s') (hp : OnScript st docs last c s) :
    OnScript st docs last (c ++ [⟨s, i, j⟩]) s' := by
  obtain ⟨es, hes, hfollows⟩ := hp.follows
  refine ⟨quiet_step hc.collects hb h hp.quiet, fine_of_stepped hs h hp.quiet hp.fine, ?_,
    fun m hm depth pass left a hentry => ?_⟩
  · rw [List.filterMap_append]
    rcases follows_of_stepped hc hdocs hs hb h hp.quiet hfollows with ⟨-, hentry, hnext⟩ |
      ⟨es', rfl, hnext⟩
    · refine ⟨es, ?_, hnext⟩
      simp [hentry, hes]
    · refine ⟨es', ?_, hnext⟩
      rw [hes, List.append_assoc]
      congr 1
      cases he : (⟨s, i, j⟩ : Moment σ).item? <;> simp [he]
  · rcases List.mem_append.1 hm with hm | hm
    · exact hp.counted m hm depth pass left a hentry
    · obtain rfl := List.mem_singleton.1 hm
      unfold Moment.item? at hentry
      split_ifs at hentry
      obtain ⟨latest, rest, js, hmain⟩ := jobs_of_entryOf hentry
      rcases hfollows with ⟨-, hoff⟩ | ⟨-, ha⟩
      · have : s.main = _ := hmain
        rw [hoff] at this
        cases this
      · rw [show s.main = _ from hmain] at ha
        exact ha.loops_of_dispatch

theorem onScript_of_chronicle {sc : Scope σ} {actions : List Action} {report : Report}
    (hc : Counted st last) (hdocs : Chain docs) (hd : docs[0]? = some actions)
    (hb : sc.broken = false)
    (hs : ∀ s', Reaches st (start st sc actions report) s' → Smooth st docs s')
    (h : Chronicle st (start st sc actions report) c s) : OnScript st docs last c s := by
  induction h with
  | refl => exact onScript_start sc report hd
  | thread h hj hstep ih =>
    have hb' := h.unbroken hb
    exact onScript_step hc hdocs (hs _ h.reaches) hb' (stepped_of_next? hb' hj hstep) ih
  | clock _ _ _ ih => exact ⟨ih.quiet, ih.fine, ih.follows, ih.counted⟩

/-! ## The end of a run -/

/-- A run that has `n` steps before it besides those for its tasks. -/
structure OnPlan (st : Settings σ) (docs : List (List Action)) (last : Nat) (s₀ s : State σ)
    (n : Nat) : Prop where
  reached : Reaches st s₀ s
  unbroken : s.scope.broken = false
  quiet : OthersQuiet s
  tidy : Tidy s
  follows : ∃ es, es.length = n ∧ Follows st docs last s es

/-- What is dispatched is an action of a document. -/
theorem Agenda.brief_of_dispatch {a : Action} (hbrief : ∀ d ∈ docs, ∀ a ∈ d, a.brief = true)
    (h : Agenda st docs last loops (.dispatch a :: js) es) : a.brief = true := by
  generalize hjobs : Job.dispatch a :: js = jobs at h
  cases h with
  | next hbelow =>
    obtain ⟨inv, limit, below, rfl⟩ := hbelow.head_eq
    cases hjobs
  | within herr hw =>
    rename_i errands js'
    cases errands with
    | nil =>
      obtain ⟨latest', rest', below, rfl⟩ := hw.head_eq
      cases hjobs
    | cons x errands =>
      obtain ⟨rfl, -⟩ := List.cons.inj hjobs
      cases herr _ List.mem_cons_self
  | dispatch hbelow hrest =>
    obtain ⟨hj, -⟩ := List.cons.inj hjobs
    cases hj
    obtain ⟨d, hd, hmem⟩ := hrest.head
    exact Action.brief_carryForward _ (hbrief d (List.mem_of_getElem? hd) _ hmem)
  | closing hsuf =>
    subst hjobs
    cases closes_of_mem _ (hsuf.subset List.mem_cons_self)
  | _ => cases hjobs

theorem onPlan_step {s₀ : State σ} {n : Nat} (hc : Counted st last) (hdocs : Chain docs)
    (hp : st.env.Prompt) (hbrief : ∀ d ∈ docs, ∀ a ∈ d, a.brief = true) (hs : Smooth st docs s)
    (hstep : s.step? st i = some s') (h : Stepped st i j s s') (hplan : OnPlan st docs last s₀ s n) :
    (∃ m < n, OnPlan st docs last s₀ s' m) ∨ OnPlan st docs last s₀ s' n ∧ s'.work < s.work := by
  obtain ⟨es, rfl, hfollows⟩ := hplan.follows
  have hb := hplan.unbroken
  have hdispatch : ∀ a, j = .dispatch a → a.brief = true := by
    rintro a rfl
    rcases main_step h with ⟨rfl, js, -, -, hmain, -⟩ | ⟨hi, -⟩
    · rcases hfollows with ⟨-, hoff⟩ | ⟨-, ha⟩
      · rw [hoff] at hmain
        cases hmain
      · rw [hmain] at ha
        exact ha.brief_of_dispatch hbrief
    · obtain ⟨t, js, -, -, -, ht, hj, -⟩ := h.moves
      cases hplan.tidy.others i t hi ht _ (hj ▸ List.mem_cons_self)
  obtain ⟨htidy, hless⟩ := tidy_step hp hc.collects hb h hdispatch hplan.tidy
  have hnext : ∀ es', Follows st docs last s' es' → OnPlan st docs last s₀ s' es'.length := fun es' hf =>
    ⟨.step hplan.reached (.thread i hstep), h.unbroken, quiet_step hc.collects hb h hplan.quiet, htidy,
      es', rfl, hf⟩
  rcases follows_of_stepped hc hdocs hs hb h hplan.quiet hfollows with ⟨herr, -, hf⟩ | ⟨es', rfl, hf⟩
  · exact .inr ⟨hnext es hf, hless herr⟩
  · exact .inl ⟨es'.length, Nat.lt_succ_self _, hnext es' hf⟩

theorem onPlan_of_reaches {sc : Scope σ} {actions : List Action} {report : Report}
    (hc : Counted st last) (hdocs : Chain docs) (hd : docs[0]? = some actions)
    (hb : sc.broken = false)
    (hs : ∀ s', Reaches st (start st sc actions report) s' → Smooth st docs s')
    (hp : st.env.Prompt) (hbrief : ∀ d ∈ docs, ∀ a ∈ d, a.brief = true)
    (h : Reaches st (start st sc actions report) s) :
    ∃ n, OnPlan st docs last (start st sc actions report) s n := by
  induction h with
  | refl =>
    have hstart : OnScript st docs last [] (start st sc actions report) := onScript_start sc report hd
    obtain ⟨es, -, hfollows⟩ := hstart.follows
    exact ⟨_, .refl _, hb, hstart.quiet, tidy_start sc actions report, es, rfl, hfollows⟩
  | step hr hstep ih =>
    obtain ⟨n, hplan⟩ := ih
    cases hstep with
    | thread i hi =>
      obtain ⟨j, hj⟩ := State.step?_stepped hplan.unbroken hi
      rcases onPlan_step hc hdocs hp hbrief (hs _ hr) hi hj hplan with ⟨m, -, hnext⟩ | ⟨hnext, -⟩
      · exact ⟨m, hnext⟩
      · exact ⟨n, hnext⟩
    | clock hn hw =>
      exact ⟨n, .step hr (.clock hn hw), hplan.unbroken, hplan.quiet, ⟨hplan.tidy.main, hplan.tidy.others⟩,
        hplan.follows⟩

/-- Where no thread and no clock goes on the first thread is done or has broken off. -/
theorem OnPlan.done {s₀ : State σ} {n : Nat} (h : OnPlan st docs last s₀ s n)
    (hn : ∀ s', ¬Step st s s') : s.main = [] := by
  cases hmain : s.main with
  | nil => rfl
  | cons j js =>
    obtain ⟨s', hs'⟩ := goes_on hmain (h.tidy.main j (hmain ▸ List.mem_cons_self))
    exact absurd hs' (hn s')

/-- What a run so far has done with a chain of documents. -/
structure Multiplied (st : Settings σ) (docs : List (List Action)) (last : Nat) (c : List (Moment σ))
    (s : State σ) : Prop where
  /-- It has made the first entries of its script, in their order. -/
  sofar : c.filterMap Moment.item? <+: script last 0 docs
  /-- A run that returns has made all of them. -/
  returned : ∀ r, s.result? = some r →
    r = .ok () ∧ c.filterMap Moment.item? = script last 0 docs ∧ s.scope.loops = last
  /-- The passes of a document have ended once for each pass of every document further up and of its own. -/
  reclaimed : ∀ r, s.result? = some r → ∀ i < docs.length,
    (c.filterMap Moment.item?).countP (Entry.reclaims i) = (last + 1) ^ (i + 1)
  /-- So often has each of its plain actions been dispatched. -/
  dispatched : ∀ r, s.result? = some r → ∀ (i : Nat) pre a post,
    docs[i]? = some (pre ++ a :: post) → a.isTest = false →
      (c.filterMap Moment.item?).countP (Entry.dispatches i post.length) = (last + 1) ^ (i + 1)
  /-- What was evaluated for a dispatch was evaluated in the pass of its document. -/
  counted : ∀ m ∈ c, ∀ depth pass left a, m.item? = some (.dispatched depth pass left a) →
    pass ≤ last ∧ m.before.scope.loops = pass ∧
      ∀ r ∈ st.readings a m.before.scope,
        r.2.evaluate st.env r.1 = r.2.evaluateIn st.env pass r.1
  /-- Wherever a document goes on, after a nested test too, the counter is its pass. -/
  resumed : ∀ pass latest rest js, s.main = .walk pass latest rest :: js → s.scope.loops = pass
  /-- Where launches tell their signals at once and actions wait for nothing, the run comes to an end. -/
  ends : st.env.Prompt → (∀ d ∈ docs, ∀ a ∈ d, a.brief = true) →
    Acc (fun s' s => Step st s s') s ∧
      ((∀ s', ¬Step st s s') → s.fell = true ∨ s.result? = some (.ok ()))

/-- A run of a chain of documents makes the entries of its script. -/
theorem nested_tests_multiply {sc : Scope σ} {actions : List Action} {report : Report}
    (hc : Counted st last) (hdocs : Chain docs) (hd : docs[0]? = some actions)
    (hb : sc.broken = false)
    (hs : ∀ s', Reaches st (start st sc actions report) s' → Smooth st docs s')
    (h : Chronicle st (start st sc actions report) c s) : Multiplied st docs last c s := by
  have hp := onScript_of_chronicle hc hdocs hd hb hs h
  obtain ⟨es, hes, hfollows⟩ := hp.follows
  have hall : ∀ r, s.result? = some r →
      c.filterMap Moment.item? = script last 0 docs ∧ s.scope.loops = last := fun r hr => by
    obtain ⟨hmain, hfell⟩ := main_of_result? hr
    rcases hfollows with ⟨hf, -⟩ | ⟨-, ha⟩
    · rw [hfell] at hf
      cases hf
    · rw [hmain] at ha
      obtain ⟨rfl, hloops⟩ := ha.over
      rw [List.filterMap_nil, List.append_nil] at hes
      exact ⟨hes.symm, hloops⟩
  refine ⟨hes ▸ List.prefix_append _ _, fun r hr => ⟨result?_of_failure_none hp.fine hr, hall r hr⟩,
    fun r hr i hi => ?_, fun r hr i pre a post hget ha => ?_, fun m hm depth pass left a he => ?_,
    fun pass latest rest js hmain => ?_, fun hprompt hbrief => ?_⟩
  · rw [(hall r hr).1]
    exact countP_reclaimed hdocs hi
  · rw [(hall r hr).1]
    exact countP_dispatched hdocs hget ha
  · obtain ⟨hle, hloops⟩ := hp.counted m hm depth pass left a he
    refine ⟨hle, hloops, fun r hmem => ?_⟩
    rw [Scope.evaluate_eq_evaluateIn, readings_loops a m.before.scope r hmem, hloops]
  · rcases hfollows with ⟨-, hoff⟩ | ⟨-, ha⟩
    · rw [hoff] at hmain
      cases hmain
    · rw [hmain] at ha
      exact ha.loops_of_walk
  · obtain ⟨n, hplan⟩ := onPlan_of_reaches hc hdocs hd hb hs hprompt hbrief h.reaches
    refine ⟨?_, fun hn => ?_⟩
    · have hend : Acc (fun s' s => True ∧ Step st s s') s := acc_of_plan Nat.lt_wfRel.wf
        (fun s i j s' n _ hplan hi hj => onPlan_step hc hdocs hprompt hbrief (hs _ hplan.reached) hi hj hplan)
        (fun s time n hplan hn hw => ⟨.step hplan.reached (.clock hn hw), hplan.unbroken, hplan.quiet,
          ⟨hplan.tidy.main, hplan.tidy.others⟩, hplan.follows⟩)
        (fun s n hplan => hplan.unbroken) n s hplan
      exact Subrelation.accessible (fun h => ⟨trivial, h⟩) hend
    · have hmain := hplan.done hn
      cases hfell : s.fell with
      | true => exact .inl rfl
      | false =>
        obtain ⟨t, ht⟩ := exists_first hb h.reaches
        exact .inr (result?_of_main ht hmain hfell hp.fine)

end Runs

/-! ## Chains in rehearsals -/

/-- Starts a container under the number of its pass. -/
def echoAction : Action := { image := "busybox", command := "echo $\x7bloop\x7d", wait := true }

/-- A document that runs the one in its file between two of its own actions. -/
def outerActions : List Action := [echoAction, { test := "inner.yml" }, { command := "outer" }]

def innerFiles : Files :=
  ⟨[(["inner.yml"], .text "- image: busybox\n  command: inner\n")]⟩

def innerActions : List Action := [{ image := "busybox", command := "inner" }]

/-- Rehearsals next to that file. -/
def chained : Settings (World Rehearsal) where
  env :=
    { Rehearsal.environment (Provider.onDemand "") fun _ => none with files := fun _ => innerFiles }
  config := { repeats := 1, timings := ⟨13, 7, 11, 103⟩ }

def chainedRun (steps : Nat) : State (World Rehearsal) :=
  (start chained { world := { containers := {} } } outerActions {}).advance chained maxSteps
    (fun _ => false) steps 0

theorem inner_readActions : innerFiles.readActions "inner.yml" = .ok innerActions := by
  have h : (innerFiles.readActions "inner.yml").toOption = some innerActions := by decide +kernel
  cases hr : innerFiles.readActions "inner.yml" with
  | error fault =>
    rw [hr] at h
    cases h
  | ok actions =>
    rw [hr] at h
    exact congrArg Except.ok (Option.some.inj h)

theorem directives_chained : ∀ d ∈ [outerActions, innerActions], ∀ a ∈ d,
    a.directive = .plain ∨ d = outerActions ∧ a.directive = .test "inner.yml" := by
  have hecho : echoAction.directive = .plain := rfl
  have htest : Action.directive { test := "inner.yml" } = .test "inner.yml" := rfl
  have houter : Action.directive { command := "outer" } = .plain := rfl
  have hinner : Action.directive { image := "busybox", command := "inner" } = .plain := rfl
  simp [outerActions, innerActions, hecho, htest, houter, hinner]

theorem chain_chained : Chain [outerActions, innerActions] := by
  refine ⟨fun d hd a ha => ?_, fun d ds hds => ?_⟩
  · exact (directives_chained d hd a ha).imp_right fun h => ⟨_, h.2⟩
  · rcases List.suffix_cons_iff.1 hds with h | h
    · cases h
      rfl
    · rcases List.suffix_cons_iff.1 h with h | h
      · cases h
        rfl
      · simp at h

theorem smooth_chained (s : State (World Rehearsal)) :
    Smooth chained [outerActions, innerActions] s := by
  refine ⟨fun call _ _ _ => ?_, fun pass latest a rest path _ ha depth d d' hd hmem hd' => ?_⟩
  · cases call <;> rfl
  · have hdir := directives_chained d (List.mem_of_getElem? hd) a hmem
    rw [ha] at hdir
    rcases hdir with hdir | ⟨rfl, hdir⟩
    · cases hdir
    · cases hdir
      match depth with
      | 0 =>
        cases hd'
        exact inner_readActions
      | 1 => cases hd'
      | depth + 2 => cases hd

theorem nested_tests_multiply_chained :
    (∃ c, Multiplied chained [outerActions, innerActions] 1 c (chainedRun 200) ∧
      (chainedRun 200).result? = some (.ok ())) ∧
    Acc (fun s' s => Step chained s s')
      (start chained { world := { containers := {} } } outerActions {}) := by
  have hc : Counted chained 1 := ⟨rfl, rfl, rfl, rfl⟩
  have hr : Reaches chained (start chained { world := { containers := {} } } outerActions {})
      (chainedRun 200) := State.advance_reaches _ _ _ _ _ _
  obtain ⟨c, hrun⟩ := chronicle_of_reaches hr rfl
  refine ⟨⟨c, nested_tests_multiply hc chain_chained rfl rfl (fun s _ => smooth_chained s) hrun,
    by decide +kernel⟩, ?_⟩
  have hstart : Multiplied chained [outerActions, innerActions] 1 []
      (start chained { world := { containers := {} } } outerActions {}) :=
    nested_tests_multiply hc chain_chained rfl rfl (fun s _ => smooth_chained s) .refl
  exact (hstart.ends (prompt_of_rehearsal rfl) (by decide +kernel)).1

/-- The first steps of a run. -/
def purgedStart : State (Faulty (World Rehearsal)) :=
  start (rehearsed {}) (rehearsalScope {} { purge := [some (.command "busy")] }) [echoAction] {}

def skippedStart : State (Faulty (World Rehearsal)) :=
  start (rehearsed { skipTest := true, skipSetup := true }) (rehearsalScope {} {}) [echoAction] {}

/-- A run does nothing with its documents if the containers cannot be removed before it, or if its
passes are skipped. -/
theorem nested_tests_multiply_unopened :
    (Chain [[echoAction]] ∧ echoAction.brief = true ∧ Counted (rehearsed {}) 0 ∧
      ∃ c s, Chronicle (rehearsed {}) purgedStart c s ∧
        s.result? = some (.error (.runtime (.command "busy"))) ∧ c.filterMap Moment.item? = []) ∧
    ∃ c s, Chronicle (rehearsed { skipTest := true, skipSetup := true }) skippedStart c s ∧
      s.result? = some (.ok ()) ∧ c.filterMap Moment.item? = [] := by
  have hecho : echoAction.directive = .plain := rfl
  have hchain : Chain [[echoAction]] := by
    refine ⟨by simp [hecho], fun d ds hds => ?_⟩
    rcases List.suffix_cons_iff.1 hds with h | h
    · cases h
      rfl
    · simp at h
  exact ⟨⟨hchain, rfl, ⟨rfl, rfl, rfl, rfl⟩, _, _, .thread (i := 0) .refl rfl rfl, rfl, rfl⟩, _, _,
    .thread (i := 0) (.thread (i := 0) .refl rfl rfl) rfl rfl, rfl, rfl⟩

end Workload.Run
