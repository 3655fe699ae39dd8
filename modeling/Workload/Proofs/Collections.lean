import Workload.Proofs.Exits
import Workload.Proofs.ScopeChanges

/-!
# Collections of diagnostics

At most one collection goes on.  A failure begins one just if failures are to be collected for, none goes on
and none was cut off before; in every case it is to end the run all the same, if failures do that
(`collections_exclude`).  A collection that was cut off, because its thread broke off, is the last one:
nobody takes back that it goes on (`collections_cut_off`).
-/

namespace Workload.Run

variable {σ : Type}

/-- The failure that a job reacts to. -/
def Job.failure? : Job → Option (String × RuntimeFault)
  | .failed describe fault => some (describe, fault)
  | _ => none

theorem Job.eq_of_failure? {j : Job} {describe : String} {fault : RuntimeFault}
    (h : j.failure? = some (describe, fault)) : j = .failed describe fault := by
  cases j with
  | failed d f =>
    obtain ⟨rfl, rfl⟩ := Prod.mk.inj (Option.some.inj h)
    rfl
  | _ => cases h

/-- How many collections of diagnostics go on. -/
def State.collections (s : State σ) : Nat := s.pending Job.isEndCollection

/-- Whether a collection is cut off: it goes on no longer, but has not come to its end. -/
def Moment.cutsOff (st : Settings σ) (m : Moment σ) : Bool :=
  !m.job.isEndCollection && decide ((m.after st).collections < m.before.collections)

section Steps

variable {st : Settings σ} {s₀ s s' : State σ} {i : ThreadId} {j : Job} {c : List (Moment σ)}
  {m : Moment σ} {describe : String} {fault : RuntimeFault}

/-! ## What a failure leads to -/

/-- Whether diagnostics are being collected after a failure. -/
theorem collecting_failed (hesc : st.escalates = true) (s : State σ) :
    (s.failed st i describe fault).collecting =
      (s.collecting || (st.config.collectOnError && st.config.collect.isSome)) := by
  have hcollect : ∀ s : State σ,
      (s.collect st i).collecting = (s.collecting || st.config.collect.isSome) := by
    intro s
    unfold State.collect
    cases st.config.collect with
    | none => exact (Bool.or_false _).symm
    | some spec =>
      simp only [Option.isSome_some, Bool.or_true]
      split_ifs with hc
      · exact hc
      · rfl
  unfold State.failed
  simp only [hesc, if_true]
  split_ifs with hon
  · rw [hcollect, hon, Bool.true_and]
    rfl
  · rw [Bool.not_eq_true] at hon
    rw [hon, Bool.false_and, Bool.or_false]
    rfl

/-- The jobs of a thread in which a collection begins before it ends the run. -/
def collection (spec : CollectSpec) (s : State σ) : List Job :=
  [.setLoops s.scope.loops, .walk s.scope.loops none spec.actions, .endCollection]

/-- A failure leaves the end of the run, behind a collection just if one is due and none goes on. -/
theorem failed_jobs (hesc : st.escalates = true) (h : Stepped st i (.failed describe fault) s s')
    (hb : s.scope.broken = false) :
    ∃ t js u front, s.threads[i]? = some t ∧ t.jobs = .failed describe fault :: js ∧
      s'.threads[i]? = some u ∧ u.jobs = front ++ .stopOnError :: js ∧
      s'.collections = s.collections + front.countP Job.isEndCollection ∧
      if s.collecting = false ∧ st.config.collectOnError = true ∧ st.config.collect.isSome then
        ∃ spec, st.config.collect = some spec ∧ front = collection spec s
      else front = [] := by
  have hflag : s'.collecting =
      ((s.pop i).collecting || (st.config.collectOnError && st.config.collect.isSome)) := by
    rw [show s' = (s.pop i).failed st i describe fault from h.of_steady rfl hb]
    exact collecting_failed hesc (s.pop i)
  obtain ⟨t, js, u, new, spawned, ht, hj, hu, hjobs, hy, hlaw⟩ :=
    pending_goesOn h ((Job.steady_broken rfl st i (s.pop i)).trans hb) nofun
  have hcount := hlaw Job.isEndCollection
  rw [spawned_isEndCollection hy] at hcount
  have hcount' : s'.collections = s.collections + new.countP Job.isEndCollection := hcount
  obtain ⟨-, ⟨hno, -⟩ | ⟨rfl, hsame⟩ | ⟨spec, hspec, hidle, hon, rfl⟩⟩ := hy
  · rw [hesc] at hno
    cases hno
  · refine ⟨t, js, u, [], ht, hj, hu, hjobs, hcount', ?_⟩
    rw [if_neg]
    rintro ⟨hidle, hon, hsome⟩
    have hstays : s.collecting =
        (s.collecting || (st.config.collectOnError && st.config.collect.isSome)) :=
      hsame.symm.trans hflag
    rw [hidle, hon, hsome] at hstays
    cases hstays
  · refine ⟨t, js, u, collection spec s, ht, hj, hu, hjobs, hcount', ?_⟩
    have hdue : true = (s.collecting || (st.config.collectOnError && st.config.collect.isSome)) :=
      hon.symm.trans hflag
    rw [hidle, Bool.false_or] at hdue
    obtain ⟨hon', hsome⟩ := Bool.and_eq_true_iff.1 hdue.symm
    rw [if_pos ⟨hidle, hon', hsome⟩]
    exact ⟨spec, hspec, rfl⟩

/-! ## When a collection goes on -/

/-- Whether diagnostics are being collected is known by the collection that goes on, until one is cut
off: from then on none goes on, but it stays that way. -/
structure Collected (st : Settings σ) (c : List (Moment σ)) (s : State σ) : Prop where
  collects : Collects s
  known : (∀ m ∈ c, m.cutsOff st = false) → s.collecting = true → s.collections = 1
  lost : (∃ m ∈ c, m.cutsOff st = true) → s.collecting = true ∧ s.collections = 0

/-- When it becomes known that diagnostics are being collected, a collection goes on. -/
theorem collections_of_known (h : Stepped st i j s s') (hc : Collects s) (hoff : s.collecting = false)
    (hon : s'.collecting = true) : s'.collections = 1 := by
  rcases h.board.collecting with hsame | ⟨d, f, rfl⟩ | ⟨-, hend⟩
  · cases hon.symm.trans (Eq.trans hsame hoff)
  · obtain ⟨js, new, spawned, -, hy, hlaw | ⟨hns, -⟩⟩ := h.pending
    · have hcount := hlaw Job.isEndCollection
      rw [spawned_isEndCollection hy, hc.idle hoff] at hcount
      obtain ⟨-, ⟨-, -, hsame⟩ | ⟨-, hsame⟩ | ⟨spec, -, -, -, rfl⟩⟩ := hy
      · cases hon.symm.trans (hsame.trans hoff)
      · cases hon.symm.trans (hsame.trans hoff)
      · exact hcount
    · cases hns
  · cases hon.symm.trans hend

/-- It stays known that diagnostics are being collected until a collection has come to its end. -/
theorem collecting_stays (h : Stepped st i j s s') (hj : j.isEndCollection = false)
    (hon : s.collecting = true) : s'.collecting = true := by
  rcases h.board.collecting with hsame | ⟨d, f, rfl⟩ | ⟨rfl, -⟩
  · exact hsame.trans hon
  · obtain ⟨t, js, t', new, spawned, -, -, hy, -⟩ := h.moves
    obtain ⟨-, ⟨-, -, hsame⟩ | ⟨-, hsame⟩ | ⟨spec, -, -, hon', -⟩⟩ := hy
    · exact hsame.trans hon
    · exact hsame.trans hon
    · exact hon'
  · cases hj

theorem collected_step (h : Stepped st i j s s') (hc : Collected st c s) :
    Collected st (c ++ [⟨s, i, j⟩]) s' := by
  have hafter : (⟨s, i, j⟩ : Moment σ).after st = s' := h.result.symm
  have hcut : (⟨s, i, j⟩ : Moment σ).cutsOff st =
      (!j.isEndCollection && decide (s'.collections < s.collections)) := by
    unfold Moment.cutsOff
    rw [hafter]
  have hcollects := collects_step h hc.collects
  have honce := hc.collects.once
  refine ⟨hcollects, fun hall hon => ?_, fun ⟨m, hm, hlost⟩ => ?_⟩
  · cases hwas : s.collecting with
    | false => exact collections_of_known h hc.collects hwas hon
    | true =>
      have hone := hc.known (fun m hm => hall m (List.mem_append_left _ hm)) hwas
      have hkept := hall _ (List.mem_append_right _ (List.mem_singleton_self _))
      rw [hcut] at hkept
      have hj : j.isEndCollection = false := by
        rw [← Bool.not_eq_true]
        intro hj
        obtain rfl := isEndCollection_cases hj
        have hoff : s'.collecting = false := congrArg Board.collecting h.board
        rw [hon] at hoff
        cases hoff
      rw [hj, Bool.not_false, Bool.true_and, decide_eq_false_iff_not] at hkept
      have hle := hcollects.once
      unfold State.collections at *
      omega
  · rcases List.mem_append.1 hm with hm | hm
    · obtain ⟨hon, hz⟩ := hc.lost ⟨m, hm, hlost⟩
      exact lost_step h hon hz
    · obtain rfl := List.mem_singleton.1 hm
      rw [hcut, Bool.and_eq_true, Bool.not_eq_true', decide_eq_true_eq] at hlost
      obtain ⟨hj, hlt⟩ := hlost
      have hon : s.collecting = true := by
        rw [← Bool.not_eq_false]
        intro hoff
        have := hc.collects.idle hoff
        unfold State.collections at hlt
        omega
      refine ⟨collecting_stays h hj hon, ?_⟩
      unfold State.collections at *
      omega

theorem collected_of_chronicle {sc : Scope σ} {actions : List Action} {report : Report}
    (hb : sc.broken = false) (hc : Chronicle st (start st sc actions report) c s) :
    Collected st c s := by
  have hstart : Collected st [] (start st sc actions report) := by
    refine ⟨⟨Nat.zero_le 1, fun _ => rfl, nofun⟩, nofun, fun ⟨m, hm, _⟩ => ?_⟩
    cases hm
  refine hc.invariant hb hstart (fun _ _ _ _ _ hc h _ => collected_step h hc) fun _ _ _ hc _ _ => ?_
  exact ⟨⟨hc.collects.once, hc.collects.idle, hc.collects.lost⟩, hc.known, hc.lost⟩

/-- A collection may begin just if none goes on and none was cut off. -/
theorem Collected.idle_iff (hc : Collected st c s) :
    s.collecting = false ↔ s.collections = 0 ∧ ∀ n ∈ c, n.cutsOff st = false := by
  refine ⟨fun hoff => ⟨hc.collects.idle hoff, fun n hn => ?_⟩, fun ⟨hz, hall⟩ => ?_⟩
  · rw [← Bool.not_eq_true]
    intro hcut
    cases (hc.lost ⟨n, hn, hcut⟩).1.symm.trans hoff
  · rw [← Bool.not_eq_true]
    intro hon
    have := hc.known hall hon
    omega

/-- What a moment of a run has to do with collections, `c` being the moments before it. -/
structure Collecting (st : Settings σ) (c : List (Moment σ)) (m : Moment σ) : Prop where
  /-- A failure begins a collection just if it is to, none goes on, and none was cut off before; in every case
  the end of the run, for those that failures end, is what follows. -/
  failed : ∀ describe fault, m.job = .failed describe fault → ∃ t js u front,
    m.before.threads[m.thread]? = some t ∧ t.jobs = m.job :: js ∧
      (m.after st).threads[m.thread]? = some u ∧ u.jobs = front ++ .stopOnError :: js ∧
      if st.config.collectOnError = true ∧ m.before.collections = 0 ∧ ∀ n ∈ c, n.cutsOff st = false then
        match st.config.collect with
        | some spec => front = collection spec m.before ∧ (m.after st).collections = 1
        | none => front = [] ∧ (m.after st).collections = 0
      else front = [] ∧ (m.after st).collections = m.before.collections
  /-- Nothing but a failure begins one. -/
  others : (∀ describe fault, m.job ≠ .failed describe fault) →
    (m.after st).collections ≤ m.before.collections
  /-- One that comes to its end was the only one. -/
  ended : m.job = .endCollection → m.before.collections = 1 ∧ (m.after st).collections = 0
  stops : m.job = .stopOnError → st.config.stopOnError = true → (m.after st).stopped = true

theorem collecting_failed_jobs (hesc : st.escalates = true)
    (h : Stepped st m.thread (.failed describe fault) m.before (m.after st))
    (hb : m.before.scope.broken = false) (hc : Collected st c m.before) : ∃ t js u front,
    m.before.threads[m.thread]? = some t ∧ t.jobs = .failed describe fault :: js ∧
      (m.after st).threads[m.thread]? = some u ∧ u.jobs = front ++ .stopOnError :: js ∧
      if st.config.collectOnError = true ∧ m.before.collections = 0 ∧ ∀ n ∈ c, n.cutsOff st = false then
        match st.config.collect with
        | some spec => front = collection spec m.before ∧ (m.after st).collections = 1
        | none => front = [] ∧ (m.after st).collections = 0
      else front = [] ∧ (m.after st).collections = m.before.collections := by
  obtain ⟨t, js, u, front, ht, hj, hu, hjobs, hcount, hfront⟩ := failed_jobs hesc h hb
  refine ⟨t, js, u, front, ht, hj, hu, hjobs, ?_⟩
  simp only [hc.idle_iff] at hfront
  split_ifs with hdue
  · obtain ⟨hon, hz, hall⟩ := hdue
    cases hspec : st.config.collect with
    | none =>
      rw [if_neg (by simp [hspec])] at hfront
      subst hfront
      exact ⟨rfl, hcount.trans hz⟩
    | some spec =>
      rw [if_pos ⟨⟨hz, hall⟩, hon, by rw [hspec]; rfl⟩] at hfront
      obtain ⟨spec', hspec', rfl⟩ := hfront
      obtain rfl := Option.some.inj (hspec.symm.trans hspec')
      exact ⟨rfl, by rw [hcount, hz]; rfl⟩
  · rw [if_neg fun ⟨⟨hz, hall⟩, hon, _⟩ => hdue ⟨hon, hz, hall⟩] at hfront
    subst hfront
    exact ⟨rfl, hcount⟩

theorem collections_le_of_stepped (h : Stepped st i j s s')
    (hf : ∀ describe fault, j ≠ .failed describe fault) : s'.collections ≤ s.collections := by
  obtain ⟨js, new, spawned, -, hy, hlaw | ⟨-, -, -, hlaw⟩⟩ := h.pending
  · have hcount := hlaw Job.isEndCollection
    rw [spawned_isEndCollection hy, countP_isEndCollection hy hf] at hcount
    unfold State.collections
    omega
  · have hcount := hlaw Job.isEndCollection
    rw [spawned_isEndCollection hy] at hcount
    unfold State.collections
    omega

theorem collections_ended (h : Stepped st i .endCollection s s') (hc : Collects s) :
    s.collections = 1 ∧ s'.collections = 0 := by
  have honce := hc.once
  have hidle := (collects_endCollection h hc).idle (congrArg Board.collecting h.board)
  obtain ⟨t, js, -, -, -, ht, hj, -⟩ := h.moves
  have hpos : s.pending Job.isEndCollection ≠ 0 :=
    State.pending_pos (List.mem_of_getElem? ht) (hj ▸ List.mem_cons_self) rfl
  unfold State.collections
  omega

theorem collecting_of_collected (hesc : st.escalates = true)
    (h : Stepped st m.thread m.job m.before (m.after st)) (hb : m.before.scope.broken = false)
    (hc : Collected st c m.before) : Collecting st c m where
  failed describe fault hj := by
    rw [hj] at h ⊢
    exact collecting_failed_jobs hesc h hb hc
  others hf := collections_le_of_stepped h hf
  ended hj := collections_ended (hj ▸ h) hc.collects
  stops hj hstop := stopped_of_stopOnError (hj ▸ h) hb hstop

end Steps

/-- At most one collection of diagnostics goes on at any time.  A failure that is handed over while one goes
on begins no other one, and one that is handed over while none goes on begins exactly one if there is
something to collect, unless an earlier one was cut off; either way the run is ended after that, if
failures end it.  After a collection has come to its end none goes on. -/
theorem collections_exclude (env : Environment σ) (config : RunConfig) {sc : Scope σ}
    (hb : sc.broken = false) (actions : List Action) (report : Report) {c : List (Moment σ)}
    {s : State σ} (hc : Chronicle { env, config } (start { env, config } sc actions report) c s) :
    s.collections ≤ 1 ∧ ∀ before m later, c = before ++ m :: later →
      m.before.step? { env, config } m.thread = some (m.after { env, config }) ∧
      Collecting { env, config } before m := by
  refine ⟨(collected_of_chronicle hb hc).collects.once, fun before m later heq => ?_⟩
  subst heq
  have hbefore := hc.before.1
  have h := hc.stepped hb
  exact ⟨h.step?,
    collecting_of_collected rfl h (hbefore.unbroken hb) (collected_of_chronicle hb hbefore)⟩

/-! ## Two failed tasks -/

def twoTasks : List Action :=
  [{ image := "busybox", command := "one", wait := true },
    { image := "busybox", command := "two", wait := true }]

/-- Two containers fail, and diagnostics are to be collected for them. -/
def diagnosticsStart (limit : String) : State (Faulty (World Rehearsal)) :=
  diagnose diagnosticsConfig limit [some (.command "failed"), some (.command "failed again")] twoTasks

/-- What a schedule makes of that. -/
def diagnosticsRun (limit : String) :
    List (Moment (Faulty (World Rehearsal))) × State (Faulty (World Rehearsal)) :=
  (diagnosticsStart limit).chronicle (rehearsed diagnosticsConfig) (fun _ => false) 60 0

theorem diagnosticsRun_chronicle (limit : String) :
    Chronicle (rehearsed diagnosticsConfig) (diagnosticsStart limit) (diagnosticsRun limit).1
      (diagnosticsRun limit).2 :=
  State.chronicle_spec _ _ _ _ _

/-- The failure of the first task begins a collection; that of the task which collects begins no other one. -/
theorem collections_exclude_diagnostics :
    ∃ before m later, (diagnosticsRun "2h").1 = before ++ m :: later ∧
      m.job = .failed "start busybox: probe" (.command "failed again") ∧ m.before.collections = 1 ∧
      (m.after (rehearsed diagnosticsConfig)).collections = 1 ∧
      ∃ t js u, m.before.threads[m.thread]? = some t ∧ t.jobs = m.job :: js ∧
        (m.after (rehearsed diagnosticsConfig)).threads[m.thread]? = some u ∧
        u.jobs = .stopOnError :: js := by
  have hfound : ((diagnosticsRun "2h").1.any fun m =>
      m.job.failure? = some ("start busybox: probe", .command "failed again") &&
        m.before.collections = 1) = true := by
    decide +kernel
  obtain ⟨m, hm, hfail⟩ := List.any_eq_true.1 hfound
  simp only [Bool.and_eq_true, decide_eq_true_eq] at hfail
  obtain ⟨before, later, hsplit⟩ := List.append_of_mem hm
  have hjob := Job.eq_of_failure? hfail.1
  obtain ⟨-, hall⟩ := collections_exclude _ _ rfl _ _ (diagnosticsRun_chronicle "2h")
  obtain ⟨t, js, u, front, ht, hj, hu, hjobs, hfront⟩ :=
    (hall before m later hsplit).2.failed _ _ hjob
  rw [if_neg (by simp [hfail.2])] at hfront
  obtain ⟨rfl, hsame⟩ := hfront
  exact ⟨before, m, later, hsplit, hjob, hfail.2, hsame.trans hfail.2, t, js, u, ht, hj, hu, hjobs⟩

/-- After a collection was cut off no failure begins another one, though none goes on. -/
theorem collections_cut_off :
    ∃ c s, Chronicle (rehearsed diagnosticsConfig) (diagnosticsStart "99999999999999999999h") c s ∧
      ∃ m ∈ c, m.job = .failed "start busybox: two" (.command "failed again") ∧
        m.before.collections = 0 ∧ (m.after (rehearsed diagnosticsConfig)).collections = 0 := by
  refine ⟨_, _, diagnosticsRun_chronicle "99999999999999999999h", ?_⟩
  have hfound : ((diagnosticsRun "99999999999999999999h").1.any fun m =>
      m.job.failure? = some ("start busybox: two", .command "failed again") &&
        (m.before.collections = 0 && (m.after (rehearsed diagnosticsConfig)).collections = 0)) =
          true := by
    decide +kernel
  obtain ⟨m, hm, hfail⟩ := List.any_eq_true.1 hfound
  simp only [Bool.and_eq_true, decide_eq_true_eq] at hfail
  exact ⟨m, hm, Job.eq_of_failure? hfail.1, hfail.2⟩

end Workload.Run
