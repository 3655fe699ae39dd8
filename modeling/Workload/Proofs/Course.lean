import Workload.Proofs.Opening

/-!
# The course of a run

The first thread carries the run as a whole: its opening, pass after pass, and what closes it (`Course`).
Whatever else a thread has to do belongs to a pass, to a nested test or to a task (`Job.Inner`), and
nothing of the run as a whole comes of it.  `onCourse_step` is the invariant.
-/

namespace Workload.Run

variable {σ : Type}

/-- A job that belongs to no phase of the run as a whole. -/
def Job.Inner (st : Settings σ) : Job → Prop
  | .opening calls inv =>
    calls <:+ openingCalls st false ∧ inv.nested = true ∧ inv.phases = .nested st.config
  | .passes inv _ _ => inv.nested = true ∧ inv.phases = .nested st.config
  | .teardown | .saveLogs | .removeServers | .reclaim .cleanup => False
  | _ => True

/-- Whether a job stands behind a nested test that goes on. -/
def Job.nests : Job → Bool
  | .passes inv _ _ => inv.nested
  | _ => false

/-- A job that comes after the last pass. -/
def Job.closes : Job → Bool
  | .emit | .teardown | .saveLogs | .removeServers | .reclaim .cleanup => true
  | _ => false

/-- The number of the last pass of the run as a whole; below zero there is none. -/
def lastPass (st : Settings σ) : Int :=
  State.passLimit (.ofConfig st.config) (decide (st.config.duration ≠ 0))

/-- What the first thread can have before it. -/
inductive Course (st : Settings σ) (actions : List Action) : List Job → Prop
  | opening (calls : List OpeningCall) : calls <:+ openingCalls st (!st.config.skipSetup) →
    Course st actions [.opening calls (.whole st actions)]
  | first : st.config.skipTest = false →
    Course st actions [.passes (.whole st actions) (lastPass st) 0]
  | within (pass : Nat) (inner : List Job) : lastPass st < 0 ∨ (pass : Int) ≤ lastPass st →
    (∀ j ∈ inner, j.Inner st) →
    Course st actions (inner ++ [.passes (.whole st actions) (lastPass st) (pass + 1)])
  | closing (jobs : List Job) : jobs <:+ State.closingJobs st (.ofConfig st.config) →
    Course st actions jobs

/-- What the first thread has before it. -/
def State.main (s : State σ) : List Job := (s.threads[0]?).elim [] Thread.jobs

/-- Whether the first thread has broken off. -/
def State.fell (s : State σ) : Bool := (s.threads[0]?).any Thread.crashed

/-- Where the threads of a run are. -/
structure OnCourse (st : Settings σ) (actions : List Action) (s : State σ) : Prop where
  main : ∀ t, s.threads[0]? = some t → Course st actions t.jobs
  others : ∀ (k : ThreadId) t, k ≠ 0 → s.threads[k]? = some t → ∀ j ∈ t.jobs, j.Inner st

section Steps

variable {st : Settings σ} {actions : List Action} {s s' : State σ} {j : Job} {new : List Job}
  {spawned : List (List Job)}

/-! ## Jobs within a pass -/

/-- After its passes a nested test prints its report, and that is all. -/
theorem closingJobs_nested : State.closingJobs st (.nested st.config) = [.emit] := rfl

theorem unfolds_cases {pass : Nat} {a : Action} {front : List Job} (h : Unfolds st s pass a front) :
    front = [] ∨ (∃ t, front = [.leaveScope t, .provideScope t, .enterScope]) ∨
      (∃ inner, front =
        [Invocation.job st ⟨.nested st.config, inner, true⟩, .setLoops s.scope.loops]) ∨
      ∃ inner, front = [.setLoops pass, .walk pass none inner] := by
  unfold Unfolds at h
  split at h
  · exact h.imp_right .inl
  · exact h.imp_right fun h => .inr (.inl h)
  · exact h.imp_right fun h => .inr (.inr h)
  · exact h.imp_right fun h => .inr (.inr h)
  · exact .inl h

theorem inner_unfolds {pass : Nat} {a : Action} {front : List Job} (h : Unfolds st s pass a front) :
    ∀ x ∈ front, x.Inner st := by
  rcases unfolds_cases h with rfl | ⟨target, rfl⟩ | ⟨inner, rfl⟩ | ⟨inner, rfl⟩
  · simp
  · simp [Job.Inner]
  · have hj : (Invocation.job st ⟨.nested st.config, inner, true⟩).Inner st :=
      ⟨List.suffix_rfl, rfl, rfl⟩
    simpa [Job.Inner] using hj
  · simp [Job.Inner]

theorem inner_passes {inv : Invocation} {limit : Int} {pass : Nat}
    (hj : (Job.passes inv limit pass).Inner st)
    (hy : (Job.passes inv limit pass).Yields st s s' new spawned) : ∀ x ∈ new, x.Inner st := by
  obtain ⟨rfl, -⟩ := hy
  split_ifs
  · simpa [Job.Inner] using hj
  · rw [hj.2, closingJobs_nested]
    simp [Job.Inner]

theorem inner_walk {pass : Nat} {last : Option Action} {rest : List Action}
    (hy : (Job.walk pass last rest).Yields st s s' new spawned) : ∀ x ∈ new, x.Inner st := by
  cases rest with
  | nil =>
    rw [hy.1]
    simp
  | cons a rest =>
    obtain ⟨-, hy⟩ := hy
    split_ifs at hy
    · rw [hy]
      simp [Job.Inner]
    · obtain ⟨front, hu, rfl⟩ := hy
      intro x hx
      rcases List.mem_append.1 hx with hx | hx
      · exact inner_unfolds hu x hx
      · obtain rfl := List.mem_singleton.1 hx
        trivial

/-- Nothing of the run as a whole comes of a job that does not belong to it. -/
theorem inner_new (hj : j.Inner st) (hy : j.Yields st s s' new spawned) : ∀ x ∈ new, x.Inner st := by
  by_cases hp : ∃ inv limit pass, j = .passes inv limit pass
  · obtain ⟨inv, limit, pass, rfl⟩ := hp
    exact inner_passes hj hy
  by_cases hw : ∃ pass last rest, j = .walk pass last rest
  · obtain ⟨pass, last, rest, rfl⟩ := hw
    exact inner_walk hy
  intro x hx
  cases hy.leaves x hx with
  | nextCall c cs inv => exact ⟨(List.suffix_cons c cs).trans hj.1, hj.2⟩
  | firstPass inv limit => exact hj.2
  | reclaim inv limit pass | nextPass inv limit pass | teardown inv limit pass
  | saveLogs inv limit pass | removeServers inv limit pass => exact absurd ⟨inv, limit, pass, rfl⟩ hp
  | nested pass last rest => exact absurd ⟨pass, last, rest, rfl⟩ hw
  | _ => trivial

/-- Nothing of the run as a whole is begun on another thread. -/
theorem inner_spawned (hy : j.Yields st s s' new spawned) : ∀ l ∈ spawned, ∀ x ∈ l, x.Inner st := by
  intro l hl x hx
  cases hy.starts l hl x hx with
  | _ => trivial

/-! ## The first thread -/

theorem course_opening {calls : List OpeningCall}
    (hc : calls <:+ openingCalls st (!st.config.skipSetup))
    (hy : (Job.opening calls (.whole st actions)).Yields st s s' new spawned) :
    Course st actions new := by
  have hnil : Course st actions [] := .closing [] List.nil_suffix
  cases calls with
  | nil =>
    obtain ⟨-, hy⟩ := hy
    split_ifs at hy with ht
    · obtain ⟨rfl, -⟩ := hy
      refine .first ?_
      have : (!st.config.skipTest) = true := ht
      simpa using this
    · rw [hy.1]
      exact hnil
  | cons c cs =>
    obtain ⟨-, hy⟩ := hy
    split at hy
    · rw [hy.1]
      exact .opening cs ((List.suffix_cons c cs).trans hc)
    · rw [hy.1]
      exact hnil

theorem course_passes {pass : Nat}
    (hy : (Job.passes (.whole st actions) (lastPass st) pass).Yields st s s' new spawned) :
    Course st actions new := by
  obtain ⟨rfl, -⟩ := hy
  split_ifs with hc
  · exact .within pass [.setLoops pass, .walk pass none actions, .reclaim .pass] hc
      (by simp [Job.Inner])
  · exact .closing _ List.suffix_rfl

theorem closes_of_mem {phases : Phases} : ∀ j ∈ State.closingJobs st phases, j.closes = true := by
  unfold State.closingJobs
  split_ifs <;> simp [Job.closes]

/-- The jobs that close a run leave no others. -/
theorem closing_new (hj : j.closes = true) (hy : j.Yields st s s' new spawned) : new = [] := by
  cases j with
  | emit | teardown | reclaim | saveLogs | removeServers => exact hy.1
  | _ => cases hj

/-- The next job of the first thread opens the run, or goes on with its passes, or belongs to one of them
and stands before those that follow, or closes the run. -/
theorem course_cases {js : List Job} (hc : Course st actions (j :: js)) :
    js = [] ∧ ((∃ calls, calls <:+ openingCalls st (!st.config.skipSetup) ∧
        j = .opening calls (.whole st actions)) ∨
      ∃ pass, j = .passes (.whole st actions) (lastPass st) pass) ∨
    (∃ (pass : Nat) (inner : List Job), (lastPass st < 0 ∨ (pass : Int) ≤ lastPass st) ∧
      (∀ x ∈ j :: inner, x.Inner st) ∧
      js = inner ++ [.passes (.whole st actions) (lastPass st) (pass + 1)]) ∨
    j :: js <:+ State.closingJobs st (.ofConfig st.config) := by
  generalize hjobs : j :: js = jobs at hc
  cases hc with
  | opening calls hsuf =>
    obtain ⟨rfl, rfl⟩ := List.cons.inj hjobs
    exact .inl ⟨rfl, .inl ⟨calls, hsuf, rfl⟩⟩
  | first ht =>
    obtain ⟨rfl, rfl⟩ := List.cons.inj hjobs
    exact .inl ⟨rfl, .inr ⟨0, rfl⟩⟩
  | within pass inner hlimit hinner =>
    cases inner with
    | nil =>
      obtain ⟨rfl, rfl⟩ := List.cons.inj hjobs
      exact .inl ⟨rfl, .inr ⟨pass + 1, rfl⟩⟩
    | cons k inner =>
      obtain ⟨rfl, rfl⟩ := List.cons.inj hjobs
      exact .inr (.inl ⟨pass, inner, hlimit, hinner, rfl⟩)
  | closing jobs hsuf => exact .inr (.inr (hjobs ▸ hsuf))

theorem course_step {js : List Job} (hc : Course st actions (j :: js))
    (hy : j.Yields st s s' new spawned) : Course st actions (new ++ js) := by
  rcases course_cases hc with ⟨rfl, ⟨calls, hsuf, rfl⟩ | ⟨pass, rfl⟩⟩ |
    ⟨pass, inner, hlimit, hinner, rfl⟩ | hsuf
  · rw [List.append_nil]
    exact course_opening hsuf hy
  · rw [List.append_nil]
    exact course_passes hy
  · rw [← List.append_assoc]
    refine .within pass (new ++ inner) hlimit fun x hx => ?_
    rcases List.mem_append.1 hx with hx | hx
    · exact inner_new (hinner _ List.mem_cons_self) hy x hx
    · exact hinner x (List.mem_cons_of_mem j hx)
  · rw [closing_new (closes_of_mem _ (hsuf.subset List.mem_cons_self)) hy, List.nil_append]
    exact .closing js ((List.suffix_cons j js).trans hsuf)

theorem onCourse_step {i : ThreadId} (h : Stepped st i j s s') (hc : OnCourse st actions s) :
    OnCourse st actions s' := by
  obtain ⟨t, js, new, spawned, ht, hj, hy, hcases⟩ := h.thread_cases
  have hpos : 0 < s.threads.length := Nat.zero_lt_of_lt (List.getElem?_eq_some_iff.1 ht).1
  refine ⟨fun u hu => ?_, fun k u hk hu => ?_⟩
  · rcases hcases 0 u hu with ⟨rfl, ⟨hjobs, -⟩ | ⟨hjobs, -⟩⟩ | ⟨-, hold⟩ | ⟨-, hlen, -⟩
    · rw [hjobs]
      exact course_step (hj ▸ hc.main t ht) hy
    · rw [hjobs]
      exact .closing [] List.nil_suffix
    · exact hc.main u hold
    · omega
  · rcases hcases k u hu with ⟨rfl, ⟨hjobs, -⟩ | ⟨hjobs, -⟩⟩ | ⟨-, hold⟩ | ⟨-, -, l, hl, rfl⟩
    · rw [hjobs]
      have hjs := hj ▸ hc.others k t hk ht
      intro x hx
      rcases List.mem_append.1 hx with hx | hx
      · exact inner_new (hjs j List.mem_cons_self) hy x hx
      · exact hjs x (List.mem_cons_of_mem j hx)
    · rw [hjobs]
      simp
    · exact hc.others k u hk hold
    · exact inner_spawned hy l hl

theorem onCourse_start (sc : Scope σ) (report : Report) :
    OnCourse st actions (start st sc actions report) := by
  refine ⟨fun t ht => ?_, fun k t hk ht => ?_⟩
  · cases ht
    exact .opening _ List.suffix_rfl
  · cases k with
    | zero => exact absurd rfl hk
    | succ k => cases ht

theorem main_eq {t : Thread} (ht : s.threads[0]? = some t) : s.main = t.jobs := by
  unfold State.main
  rw [ht]
  rfl

theorem fell_eq {t : Thread} (ht : s.threads[0]? = some t) : s.fell = t.crashed := by
  unfold State.fell
  rw [ht]
  rfl

/-- The first thread does the next of its jobs or breaks off in it, or another thread takes the step. -/
theorem main_step {i : ThreadId} (h : Stepped st i j s s') :
    (i = 0 ∧ ∃ js new spawned, s.main = j :: js ∧ j.Yields st s s' new spawned ∧
      s'.threads.length = s.threads.length + spawned.length ∧
      (s'.main = new ++ js ∧ s'.fell = s.fell ∨ s'.main = [] ∧ s'.fell = true)) ∨
    i ≠ 0 ∧ i < s.threads.length ∧ s'.main = s.main ∧ s'.fell = s.fell := by
  obtain ⟨t, js, t', new, spawned, ht, hj, hy, hth, hjobs⟩ := h.moves
  have hi : i < s.threads.length := (List.getElem?_eq_some_iff.1 ht).1
  obtain ⟨hself, -, -⟩ := Stepped.getElem?_threads hth hi
  by_cases hi0 : i = 0
  · subst hi0
    have hlen : s'.threads.length = s.threads.length + spawned.length := by
      rw [hth]
      simp
    refine .inl ⟨rfl, js, new, spawned, (main_eq ht).trans hj, hy, hlen, ?_⟩
    rw [main_eq hself, fell_eq hself, fell_eq ht]
    exact hjobs.imp id fun h => h.2.2
  · obtain ⟨u, hu⟩ : ∃ u, s.threads[0]? = some u :=
      ⟨_, List.getElem?_eq_getElem (Nat.zero_lt_of_lt hi)⟩
    have hu' := Stepped.getElem?_other hth hi0 hu
    exact .inr ⟨hi0, hi, (main_eq hu').trans (main_eq hu).symm,
      (fell_eq hu').trans (fell_eq hu).symm⟩

/-- Where a thread is about to do a job, this is the first one it has before it. -/
theorem main_of_next? (h : s.next? 0 = some j) : ∃ js, s.main = j :: js := by
  unfold State.next? at h
  cases ht : s.threads[0]? with
  | none =>
    rw [ht] at h
    cases h
  | some t =>
    rw [ht] at h
    obtain ⟨js, hjs⟩ := List.head?_eq_some_iff.1 (show t.jobs.head? = some j from h)
    exact ⟨js, (main_eq ht).trans hjs⟩

theorem next?_of_main {js : List Job} (h : s.main = j :: js) : s.next? 0 = some j := by
  unfold State.main at h
  unfold State.next?
  cases ht : s.threads[0]? with
  | none =>
    rw [ht] at h
    cases h
  | some t =>
    rw [ht] at h
    rw [Option.bind_some, show t.jobs = j :: js from h]
    rfl

/-- A run that has returned has nothing before it, and has not broken off. -/
theorem main_of_result? {r : Except Fault Unit} (h : s.result? = some r) :
    s.main = [] ∧ s.fell = false := by
  unfold State.result? at h
  cases ht : s.threads[0]? with
  | none =>
    rw [ht] at h
    cases h
  | some t =>
    rw [ht] at h
    simp only [] at h
    split_ifs at h with hf
    rw [Bool.and_eq_true, Bool.not_eq_true'] at hf
    exact ⟨(main_eq ht).trans (List.isEmpty_iff.1 hf.1), (fell_eq ht).trans hf.2⟩

theorem OnCourse.course (hc : OnCourse st actions s) : Course st actions s.main := by
  unfold State.main
  cases ht : s.threads[0]? with
  | none => exact .closing [] List.nil_suffix
  | some t => exact hc.main t ht

/-- A run has its first thread all along. -/
theorem exists_first {sc : Scope σ} {report : Report} (hb : sc.broken = false)
    (h : Reaches st (start st sc actions report) s) : ∃ t, s.threads[0]? = some t := by
  have hpos : 0 < s.threads.length := by
    refine (h.invariant (P := fun s => 0 < s.threads.length) hb Nat.one_pos (fun i j s s' hs h => ?_)
      fun _ _ hs _ _ => hs).2
    obtain ⟨t, -, t', -, spawned, ht, -, -, hth, -⟩ := h.moves
    exact Nat.lt_of_lt_of_le hs
      (Stepped.getElem?_threads hth (List.getElem?_eq_some_iff.1 ht).1).2.1
  exact ⟨_, List.getElem?_eq_getElem hpos⟩

theorem result?_of_main {t : Thread} (ht : s.threads[0]? = some t) (hm : s.main = [])
    (hf : s.fell = false) (hn : s.failure = none) : s.result? = some (.ok ()) := by
  rw [main_eq ht] at hm
  rw [fell_eq ht] at hf
  unfold State.result?
  rw [ht, hn]
  simp [Thread.finished, hm, hf]

end Steps

end Workload.Run
