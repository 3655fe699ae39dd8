import Workload.Proofs.Chronicles

/-!
# The end of a run is asked for at most once

A failed task is followed by `.failed`, that by `.stopOnError`, and a collection of diagnostics may
stand between the two.  The invariants say that the report knows of the failure before (`Told`,
`Owed`), that the watchdog is early in none of its states (`Timed`), that only a collection keeps a
`.stopOnError` from being the next job (`Job.Follows`), and that at most one collection goes on.
`exit_once` puts them together.
-/

namespace Workload

/-- The code with which the end of the run is asked for. -/
def Event.exitCode? : Event → Option Int
  | .exited code => some code
  | _ => none

theorem Event.exitCode?_of_kind {e : Event} (h : e.kind ≠ .exited) : e.exitCode? = none := by
  cases e with
  | exited code => exact absurd rfl h
  | _ => rfl

namespace Run

variable {σ : Type}

/-- The codes with which the end of the run was asked for, the latest first. -/
def exitCodes (trace : List TimedEvent) : List Int := trace.filterMap fun e => e.event.exitCode?

/-- A task was noted as failed, and the report says so. -/
def State.HasFailed (s : State σ) : Prop :=
  ∃ time describe fault, ⟨time, .failed describe fault⟩ ∈ s.scope.trace ∧
    ⟨false, describe, some fault.message⟩ ∈ s.report.entries

namespace Job

/-- Whether a job may end the run for a task that failed. -/
def isReaction : Job → Bool
  | .failed .. | .stopOnError => true
  | _ => false

def isEndCollection : Job → Bool
  | .endCollection => true
  | _ => false

/-- The job `b` may stand behind `a` in a thread: a failure is reacted to at once, and then only a
collection is waited for. -/
def Follows (a b : Job) : Prop := b.isReaction = true → a = .endCollection ∧ b = .stopOnError

end Job

/-- The report has an entry for every failure that is yet to be noted. -/
def Told (r : Report) (jobs : List Job) : Prop :=
  ∀ describe fault, .failed describe fault ∈ jobs → ⟨false, describe, some fault.message⟩ ∈ r.entries

/-- The run is ended only for a task that has failed. -/
def Owed (s : State σ) (jobs : List Job) : Prop := .stopOnError ∈ jobs → s.HasFailed

/-- The watchdog of a run that began at `begin` waits until the time for the passes is over. -/
def Timed (st : Settings σ) (begin clock : Nat) (jobs : List Job) : Prop :=
  .elapsed ∈ jobs → st.config.duration ≠ 0 ∧
    (jobs = [.sleep (1000 * st.config.duration), .elapsed] ∧ begin ≤ clock ∨
      (∃ time, jobs = [.wake time, .elapsed] ∧ begin + 1000 * st.config.duration ≤ time) ∨
      jobs = [.elapsed] ∧ begin + 1000 * st.config.duration ≤ clock)

/-! ## Traces -/

theorem exitCodes_grows {kinds : List EventKind} {s s' : Scope σ} (h : s.Grows kinds s')
    (hk : EventKind.exited ∉ kinds) : exitCodes s'.trace = exitCodes s.trace := by
  obtain ⟨-, new, hn, he⟩ := h
  have hnil : new.filterMap (fun e => e.event.exitCode?) = [] := by
    refine List.filterMap_eq_nil_iff.2 fun e hmem => Event.exitCode?_of_kind fun h => ?_
    rw [← h] at hk
    exact hk (he e hmem).2
  unfold exitCodes
  rw [hn, List.filterMap_append, hnil, List.nil_append]

/-- Only the watchdog and the reaction to a failure ask for the end of the run. -/
theorem exited_mem_notes {j : Job} (h : EventKind.exited ∈ j.notes) :
    j = .elapsed ∨ j = .stopOnError := by
  cases j with
  | elapsed => exact .inl rfl
  | stopOnError => exact .inr rfl
  | opening calls inv => cases calls <;> simp [Job.notes] at h
  | _ => simp [Job.notes] at h

theorem terminate_spec (code : Int) {s : State σ} (hb : s.scope.broken = false) :
    s.stopped = true ∧ s.terminate code = s ∨
      s.stopped = false ∧ (s.terminate code).stopped = true ∧
        (s.terminate code).scope.trace =
          ⟨s.scope.clock, .exited code⟩ :: ⟨s.scope.clock, .emitted⟩ :: s.scope.trace ∧
        (s.terminate code).scope.output = s.scope.output ++ s.report.render := by
  unfold State.terminate
  split_ifs with h
  · exact .inl ⟨h, rfl⟩
  · rw [Bool.not_eq_true] at h
    refine .inr ⟨h, rfl, ?_, ?_⟩
    · simp [State.emit, State.record, Scope.record, Scope.print, hb]
    · simp [State.emit, State.record, Scope.record, Scope.print, hb]

/-! ## Failures and the report -/

section Entries

variable {st : Settings σ} {s s' : State σ} {j : Job} {new : List Job} {spawned : List (List Job)}

theorem failed_not_mem_awaits (st : Settings σ) (k : Ticket)
    (watcher : Option (ThreadId × PromiseId)) (l : Launch) (restarter : ThreadId) (describe : String) (fault : RuntimeFault) :
    .failed describe fault ∉ k.awaits watcher l restarter := by
  intro h
  have hl : Job.Leaves st .hang (.failed describe fault) :=
    leaves_awaits k watcher l restarter _ h
  cases hl

/-- An entry for a failure comes with the job that notes it. -/
theorem entries_of_yields (hy : j.Yields st s s' new spawned) (hp : j.Posts s.board s'.board) :
    ∃ es, s'.report.entries = s.report.entries ++ es ∧
      (∀ describe fault, .failed describe fault ∈ new →
        ⟨false, describe, some fault.message⟩ ∈ es) ∧
      ∀ e ∈ es, e.ok = false → ∃ describe fault, .failed describe fault ∈ new := by
  have hsame : s'.report = s.report → (∀ describe fault, .failed describe fault ∉ new) →
      ∃ es, s'.report.entries = s.report.entries ++ es ∧
        (∀ describe fault, .failed describe fault ∈ new →
          ⟨false, describe, some fault.message⟩ ∈ es) ∧
        ∀ e ∈ es, e.ok = false → ∃ describe fault, .failed describe fault ∈ new :=
    fun hr hn => ⟨[], by rw [hr, List.append_nil], fun d f h => absurd h (hn d f),
      fun e he => (nomatch he)⟩
  cases j with
  | launch k =>
    rcases hy with ⟨p, hr, -, -, rfl, -⟩ | ⟨-, -, hy⟩
    · exact hsame hr fun d f h => (nomatch h)
    generalize (s.scope.launch st.env k.task).1 = r at hy
    cases hy with
    | refused fault p hr _ =>
      refine ⟨[⟨false, k.task.describe, some fault.message⟩], congrArg Report.entries hr,
        fun d f h => ?_, fun e he hok => ⟨k.task.describe, fault, List.mem_cons_self⟩⟩
      cases List.mem_singleton.1 h
      exact List.mem_singleton_self _
    | known l signals p watcher restarter _ hr _ =>
      exact hsame hr (failed_not_mem_awaits st k watcher l restarter)
    | watched l p watcher restarter _ hr _ =>
      exact hsame hr (failed_not_mem_awaits st k watcher l restarter)
    | awaited l p watcher observers _ hr _ => exact hsame hr fun d f h => by simp at h
  | drain c describe left =>
    obtain ⟨-, hy⟩ := hy
    split at hy
    · obtain ⟨rfl, hr, -⟩ := hy
      refine ⟨[⟨true, describe, none⟩], by rw [hr]; rfl, fun d f h => ?_, fun e he hok => ?_⟩
      · simp at h
      · obtain rfl := List.mem_singleton.1 he
        cases hok
    · rename_i left fault rest _
      obtain ⟨rfl, hr, -⟩ := hy
      refine ⟨[⟨false, describe, some fault.message⟩], by rw [hr]; rfl, fun d f h => ?_,
        fun e he hok => ⟨describe, fault, List.mem_cons_self⟩⟩
      simp only [List.mem_cons, reduceCtorEq, List.not_mem_nil, or_false] at h
      cases h
      exact List.mem_singleton_self _
    · obtain ⟨rfl, hr, -⟩ := hy
      exact hsame hr fun d f h => (nomatch h)
  | _ =>
    refine hsame ?_ fun d f h => ?_
    · rcases hp.report with hr | ⟨k, hk⟩ | ⟨c, d, l, hk⟩
      · exact hr
      · cases hk
      · cases hk
    · cases hy.leaves _ h

theorem entries_grow {i : ThreadId} (h : Stepped st i j s s') :
    ∃ es, s'.report.entries = s.report.entries ++ es := by
  obtain ⟨t, js, t', new, spawned, -, -, hy, -⟩ := h.moves
  obtain ⟨es, he, -⟩ := entries_of_yields hy h.board
  exact ⟨es, he⟩

theorem hasFailed_mono {i : ThreadId} (h : Stepped st i j s s') (hf : s.HasFailed) :
    s'.HasFailed := by
  obtain ⟨time, describe, fault, ht, he⟩ := hf
  obtain ⟨-, new, hn, -⟩ := h.scope
  obtain ⟨es, hes⟩ := entries_grow h
  refine ⟨time, describe, fault, ?_, ?_⟩
  · rw [hn]
    exact List.mem_append_right _ ht
  · rw [hes]
    exact List.mem_append_left _ he

theorem told_step {i : ThreadId} (h : Stepped st i j s s') (ht : s.Stacks (Told s.report)) :
    s'.Stacks (Told s'.report) := by
  have hmono : s.Stacks (Told s'.report) := by
    intro t htm d f hd
    obtain ⟨es, hes⟩ := entries_grow h
    rw [hes]
    exact List.mem_append_left _ (ht t htm d f hd)
  refine h.forall_stacks hmono (fun d f hd => (nomatch hd)) fun js new spawned htop hjs hy => ⟨?_, ?_⟩
  · intro d f hd
    rcases List.mem_append.1 hd with hd | hd
    · obtain ⟨es, hes, hnew, -⟩ := entries_of_yields hy h.board
      rw [hes]
      exact List.mem_append_right _ (hnew d f hd)
    · exact hjs d f (List.mem_cons_of_mem j hd)
  · intro l hl d f hd
    cases hy.starts l hl _ hd

end Entries

/-! ## What the run is ended for -/

section Steps

variable {st : Settings σ} {i : ThreadId} {j : Job} {s s' : State σ}

/-- A failure is handed over once. -/
theorem failed_trace (describe : String) (fault : RuntimeFault) {s : State σ}
    (hb : s.scope.broken = false) :
    (s.failed st i describe fault).scope.trace =
      ⟨s.scope.clock, .failed describe fault⟩ :: s.scope.trace := by
  have hr : (s.record (.failed describe fault)).scope.trace =
      ⟨s.scope.clock, .failed describe fault⟩ :: s.scope.trace := by
    unfold State.record Scope.record
    rw [if_neg (by rw [hb]; exact Bool.false_ne_true)]
  have hn : ((s.record (.failed describe fault)).note (.error "task failed")).scope.trace =
      ⟨s.scope.clock, .failed describe fault⟩ :: s.scope.trace := by
    rwa [show (State.note (.error "task failed") _).scope.trace = _ from
      (Scope.grows_note _ _).trace_eq]
  unfold State.failed
  simp only []
  split_ifs
  · obtain ⟨new, hm, -⟩ := State.collect_moves st i
      (((s.record (.failed describe fault)).note (.error "task failed")).push i [.stopOnError])
    rw [hm.scope.trace_eq]
    exact hn
  · exact hn
  · exact hr

theorem owed_step (h : Stepped st i j s s') (hb : s.scope.broken = false)
    (ht : s.Stacks (Told s.report)) (ho : s.Stacks (Owed s)) : s'.Stacks (Owed s') := by
  have hmono : s.Stacks (Owed s') := fun t htm hs => hasFailed_mono h (ho t htm hs)
  refine h.forall_stacks hmono (fun hs => (nomatch hs)) fun js new spawned htop hjs hy =>
    ⟨fun hs => ?_, ?_⟩
  · rcases List.mem_append.1 hs with hs | hs
    · obtain ⟨d, f, rfl⟩ : ∃ d f, j = .failed d f := by
        cases hy.leaves _ hs with
        | escalate d f => exact ⟨d, f, rfl⟩
      obtain ⟨t, htm, htj⟩ := htop
      obtain ⟨es, hes⟩ := entries_grow h
      refine ⟨s.scope.clock, d, f, ?_, ?_⟩
      · rw [h.of_steady rfl hb]
        exact failed_trace d f (s := s.pop i) hb ▸ List.mem_cons_self
      · rw [hes]
        exact List.mem_append_left _ (ht t htm d f (by rw [htj]; exact List.mem_cons_self))
    · exact hjs (List.mem_cons_of_mem j hs)
  · intro l hl hs
    cases hy.starts l hl _ hs

/-! ## The watchdog -/

theorem Timed.mono {begin clock clock' : Nat} {jobs : List Job} (h : Timed st begin clock jobs)
    (hc : clock ≤ clock') : Timed st begin clock' jobs := by
  intro he
  obtain ⟨hd, hcase⟩ := h he
  refine ⟨hd, ?_⟩
  rcases hcase with ⟨hj, hb⟩ | hj | ⟨hj, hb⟩
  · exact .inl ⟨hj, Nat.le_trans hb hc⟩
  · exact .inr (.inl hj)
  · exact .inr (.inr ⟨hj, Nat.le_trans hb hc⟩)

theorem timed_step {begin : Nat} (h : Stepped st i j s s') (hb : begin ≤ s.scope.clock)
    (ht : s.Stacks (Timed st begin s.scope.clock)) :
    s'.Stacks (Timed st begin s'.scope.clock) := by
  rw [h.scope.clock]
  refine h.forall_stacks ht (fun he => (nomatch he)) fun js new spawned _ hjs hy => ⟨fun he => ?_, ?_⟩
  · rcases List.mem_append.1 he with he | he
    · cases hy.leaves _ he
    obtain ⟨hd, ⟨hj, hle⟩ | ⟨time, hj, hle⟩ | ⟨hj, -⟩⟩ := hjs (List.mem_cons_of_mem j he)
    · obtain ⟨rfl, rfl⟩ := List.cons.inj hj
      obtain ⟨rfl, -⟩ := hy
      exact ⟨hd, .inr (.inl ⟨_, rfl, by omega⟩)⟩
    · obtain ⟨rfl, rfl⟩ := List.cons.inj hj
      have hready := h.ready
      simp only [Job.blocked, decide_eq_false_iff_not] at hready
      obtain ⟨rfl, -⟩ := hy
      exact ⟨hd, .inr (.inr ⟨rfl, by omega⟩)⟩
    · obtain ⟨-, rfl⟩ := List.cons.inj hj
      cases he
  · intro l hl he
    cases hy.starts l hl _ he with
    | elapsed inv hw hd =>
      obtain ⟨-, hy⟩ := hy
      split_ifs at hy
      · rw [hy.2] at hl
        split_ifs at hl
        · exact ⟨hd, .inl ⟨List.mem_singleton.1 hl, hb⟩⟩
        · cases hl
      · rw [hy.2] at hl
        cases hl

/-! ## The order of the reactions -/

theorem isReaction_cases {j : Job} (h : j.isReaction = true) :
    (∃ describe fault, j = .failed describe fault) ∨ j = .stopOnError := by
  cases j with
  | failed describe fault => exact .inl ⟨describe, fault, rfl⟩
  | stopOnError => exact .inr rfl
  | _ => cases h

theorem isEndCollection_cases {j : Job} (h : j.isEndCollection = true) : j = .endCollection := by
  cases j with
  | endCollection => rfl
  | _ => cases h

/-- A thread without reactions behind its first job is in order. -/
theorem isChain_follows {jobs : List Job} (h : ∀ x ∈ jobs.tail, x.isReaction = false) :
    jobs.IsChain Job.Follows := by
  refine State.isChain_of_tail fun a b hb hr => ?_
  rw [h b hb] at hr
  cases hr

/-- A reaction that has to wait is to end the run, and waits for a collection. -/
theorem reaction_waits {a : Job} {jobs : List Job} (h : (a :: jobs).IsChain Job.Follows)
    {x : Job} (hx : x ∈ jobs) (hr : x.isReaction = true) :
    x = .stopOnError ∧ .endCollection ∈ a :: jobs := by
  induction jobs generalizing a with
  | nil => cases hx
  | cons b jobs ih =>
    obtain ⟨hab, hb⟩ := List.isChain_cons_cons.1 h
    rcases List.mem_cons.1 hx with rfl | hx
    · obtain ⟨rfl, rfl⟩ := hab hr
      exact ⟨rfl, List.mem_cons_self⟩
    · obtain ⟨hs, he⟩ := ih hb hx
      exact ⟨hs, List.mem_cons_of_mem a he⟩

theorem tail_of_yields {new : List Job} {spawned : List (List Job)}
    (hy : j.Yields st s s' new spawned) (hj : ∀ describe fault, j ≠ .failed describe fault) :
    ∀ x ∈ new.tail, x.isReaction = false := by
  intro x hx
  rw [← Bool.not_eq_true]
  intro hr
  rcases isReaction_cases hr with ⟨d, f, rfl⟩ | rfl
  · cases hy.leaves _ (List.mem_of_mem_tail hx) with
    | refused k f =>
      rcases hy with ⟨p, -, -, -, rfl, -⟩ | ⟨-, -, hy⟩
      · cases hx
      generalize (s.scope.launch st.env k.task).1 = r at hy
      cases hy with
      | refused fault p _ _ => cases hx
      | known l signals p watcher restarter _ _ _ =>
        exact absurd (List.mem_of_mem_tail hx) (failed_not_mem_awaits st k watcher l restarter _ _)
      | watched l p watcher restarter _ _ _ =>
        exact absurd (List.mem_of_mem_tail hx) (failed_not_mem_awaits st k watcher l restarter _ _)
      | awaited l p watcher observers _ _ _ => simp at hx
    | told c d left f =>
      obtain ⟨-, hy⟩ := hy
      split at hy
      · rw [hy.1] at hx
        cases hx
      · rw [hy.1] at hx
        simp at hx
      · rw [hy.1] at hx
        cases hx
  · cases hy.leaves _ (List.mem_of_mem_tail hx) with
    | escalate d f => exact hj d f rfl

theorem follows_step (h : Stepped st i j s s') (hc : s.Stacks (List.IsChain Job.Follows)) :
    s'.Stacks (List.IsChain Job.Follows) := by
  refine h.chained hc fun new spawned hy => ⟨?_, fun x hx y hjy hr => ?_, fun l hl => ?_⟩
  · by_cases hj : ∃ d f, j = .failed d f
    · obtain ⟨d, f, rfl⟩ := hj
      obtain ⟨-, ⟨-, rfl, -⟩ | ⟨rfl, -⟩ | ⟨c, -, -, -, rfl⟩⟩ := hy
      · exact .nil
      · exact .singleton _
      · simp [Job.Follows, Job.isReaction]
    · exact isChain_follows (tail_of_yields hy fun d f hd => hj ⟨d, f, hd⟩)
  · obtain ⟨rfl, -⟩ := hjy hr
    rw [hy.1] at hx
    cases hx
  · refine isChain_follows fun x hx => ?_
    rw [← Bool.not_eq_true]
    intro hr
    rcases isReaction_cases hr with ⟨d, f, rfl⟩ | rfl
    · cases hy.starts l hl _ (List.mem_of_mem_tail hx)
    · cases hy.starts l hl _ (List.mem_of_mem_tail hx)

/-! ## Collections -/

/-- At most one collection goes on, none unless it says so, and only a thread that breaks off keeps one
from its end. -/
structure Collects (s : State σ) : Prop where
  once : s.pending Job.isEndCollection ≤ 1
  idle : s.collecting = false → s.pending Job.isEndCollection = 0
  lost : s.collecting = true → s.pending Job.isEndCollection = 0 → ∃ t ∈ s.threads, t.crashed = true

theorem collecting_eq (h : Stepped st i j s s') (hf : ∀ describe fault, j ≠ .failed describe fault)
    (he : j ≠ .endCollection) : s'.collecting = s.collecting := by
  rcases h.board.collecting with hc | ⟨d, f, hj⟩ | ⟨hj, -⟩
  · exact hc
  · exact absurd hj (hf d f)
  · exact absurd hj he

/-- No other job than one that reacts to a failure begins a collection. -/
theorem countP_isEndCollection {new : List Job} {spawned : List (List Job)}
    (hy : j.Yields st s s' new spawned) (hf : ∀ describe fault, j ≠ .failed describe fault) :
    new.countP Job.isEndCollection = 0 := by
  rw [List.countP_eq_zero]
  intro x hx he
  obtain rfl := isEndCollection_cases he
  cases hy.leaves _ hx with
  | endCollection d f => exact hf d f rfl

theorem spawned_isEndCollection {new : List Job} {spawned : List (List Job)}
    (hy : j.Yields st s s' new spawned) :
    (spawned.map fun l => l.countP Job.isEndCollection).sum = 0 := by
  refine State.sum_countP_eq_zero fun l hl x hx => ?_
  rw [← Bool.not_eq_true]
  intro he
  obtain rfl := isEndCollection_cases he
  cases hy.starts l hl _ hx

theorem Collects.of_eq (hc : Collects s)
    (hp : s'.pending Job.isEndCollection = s.pending Job.isEndCollection)
    (hcol : s'.collecting = s.collecting)
    (hcr : (∃ t ∈ s.threads, t.crashed = true) → ∃ t ∈ s'.threads, t.crashed = true) :
    Collects s' := by
  refine ⟨?_, fun h => ?_, fun h hz => hcr ?_⟩
  · rw [hp]
    exact hc.once
  · rw [hp]
    rw [hcol] at h
    exact hc.idle h
  · rw [hp] at hz
    rw [hcol] at h
    exact hc.lost h hz

theorem collects_failed {describe : String} {fault : RuntimeFault}
    (h : Stepped st i (.failed describe fault) s s') (hc : Collects s) : Collects s' := by
  obtain ⟨js, new, spawned, -, hy, hlaw | ⟨hns, -⟩⟩ := h.pending
  · have hp := hlaw Job.isEndCollection
    rw [spawned_isEndCollection hy] at hp
    obtain ⟨-, ⟨-, rfl, hcol⟩ | ⟨rfl, hcol⟩ | ⟨c, -, hidle, hcol, rfl⟩⟩ := hy
    · exact hc.of_eq hp hcol h.crashed
    · exact hc.of_eq hp hcol h.crashed
    · have hz := hc.idle hidle
      have hone : s'.pending Job.isEndCollection = 1 := by
        rw [hz] at hp
        exact hp
      refine ⟨by omega, fun h' => ?_, fun _ hz' => by omega⟩
      rw [hcol] at h'
      cases h'
  · cases hns

theorem collects_endCollection (h : Stepped st i .endCollection s s') (hc : Collects s) :
    Collects s' := by
  have hcol : s'.collecting = false := congrArg Board.collecting h.board
  have honce := hc.once
  obtain ⟨js, new, spawned, -, hy, hlaw | ⟨hns, -⟩⟩ := h.pending
  · have hp := hlaw Job.isEndCollection
    rw [spawned_isEndCollection hy, hy.1] at hp
    have hone : [Job.endCollection].countP Job.isEndCollection = 1 := rfl
    have hnil : ([] : List Job).countP Job.isEndCollection = 0 := rfl
    refine ⟨by omega, fun _ => by omega, fun h' => ?_⟩
    rw [hcol] at h'
    cases h'
  · cases hns

theorem collects_step (h : Stepped st i j s s') (hc : Collects s) : Collects s' := by
  by_cases hf : ∃ d f, j = .failed d f
  · obtain ⟨d, f, rfl⟩ := hf
    exact collects_failed h hc
  by_cases he : j = .endCollection
  · subst he
    exact collects_endCollection h hc
  have hf' : ∀ d f, j ≠ .failed d f := fun d f hj => hf ⟨d, f, hj⟩
  have hcol := collecting_eq h hf' he
  obtain ⟨js, new, spawned, -, hy, hlaw | ⟨-, -, hcr, hlaw⟩⟩ := h.pending
  · have hp := hlaw Job.isEndCollection
    rw [spawned_isEndCollection hy, countP_isEndCollection hy hf'] at hp
    have hone : [j].countP Job.isEndCollection = 0 := by
      rw [List.countP_eq_zero]
      exact List.forall_mem_singleton.2 fun h' => he (isEndCollection_cases h')
    exact hc.of_eq (by omega) hcol h.crashed
  · have hp := hlaw Job.isEndCollection
    rw [spawned_isEndCollection hy] at hp
    have honce := hc.once
    refine ⟨by omega, fun h' => ?_, fun _ _ => hcr⟩
    have := hc.idle (hcol ▸ h')
    omega

/-- A collection that was cut off goes on without an end. -/
theorem lost_step (h : Stepped st i j s s') (hcol : s.collecting = true)
    (hz : s.pending Job.isEndCollection = 0) :
    s'.collecting = true ∧ s'.pending Job.isEndCollection = 0 := by
  obtain ⟨js, new, spawned, ⟨t, htm, htj⟩, hy, hlaw⟩ := h.pending
  have he : j ≠ .endCollection := by
    rintro rfl
    exact State.pending_pos htm (htj ▸ List.mem_cons_self) rfl hz
  have hnew : s'.collecting = true ∧ new.countP Job.isEndCollection = 0 := by
    by_cases hf : ∃ d f, j = .failed d f
    · obtain ⟨d, f, rfl⟩ := hf
      obtain ⟨-, ⟨-, rfl, hc⟩ | ⟨rfl, hc⟩ | ⟨c, -, hidle, -⟩⟩ := hy
      · exact ⟨hc.trans hcol, rfl⟩
      · exact ⟨hc.trans hcol, rfl⟩
      · rw [hcol] at hidle
        cases hidle
    · have hf' : ∀ d f, j ≠ .failed d f := fun d f hj => hf ⟨d, f, hj⟩
      exact ⟨(collecting_eq h hf' he).trans hcol, countP_isEndCollection hy hf'⟩
  refine ⟨hnew.1, ?_⟩
  rcases hlaw with hlaw | ⟨-, -, -, hlaw⟩
  · have hp := hlaw Job.isEndCollection
    rw [spawned_isEndCollection hy, hnew.2] at hp
    omega
  · have hp := hlaw Job.isEndCollection
    rw [spawned_isEndCollection hy] at hp
    omega

/-! ## Whether the run is ended -/

theorem stopped_step (h : Stepped st i j s s') (hb : s.scope.broken = false)
    (hs : s.stopped = true) : s'.stopped = true := by
  have hterm : ∀ (code : Int) {s : State σ}, s.stopped = true → (s.terminate code).stopped = true := by
    intro code s hs
    unfold State.terminate
    rw [if_pos hs]
    exact hs
  rcases h.board.stopped with hst | rfl | rfl
  · exact Eq.trans hst hs
  · rw [h.of_steady rfl hb]
    exact hterm 0 hs
  · rw [h.of_steady rfl hb]
    simp only [Job.perform]
    unfold State.stopOnError
    split_ifs
    · exact hterm 1 hs
    · exact hs

theorem stopped_of_stopOnError (h : Stepped st i .stopOnError s s') (hb : s.scope.broken = false)
    (hstop : st.config.stopOnError = true) : s'.stopped = true := by
  rw [h.of_steady rfl hb]
  simp only [Job.perform]
  unfold State.stopOnError State.terminate
  rw [if_pos hstop]
  split_ifs with hs
  · exact hs
  · rfl

/-- A failure in the report ends the run, unless the collection before that is cut off. -/
def Answered (s : State σ) : Prop :=
  (∃ e ∈ s.report.entries, e.ok = false) →
    s.stopped = true ∨ s.pending Job.isReaction ≠ 0 ∨
      s.collecting = true ∧ s.pending Job.isEndCollection = 0

theorem spawned_isReaction {new : List Job} {spawned : List (List Job)}
    (hy : j.Yields st s s' new spawned) :
    (spawned.map fun l => l.countP Job.isReaction).sum = 0 := by
  refine State.sum_countP_eq_zero fun l hl x hx => ?_
  rw [← Bool.not_eq_true]
  intro hr
  rcases isReaction_cases hr with ⟨d, f, rfl⟩ | rfl
  · cases hy.starts l hl _ hx
  · cases hy.starts l hl _ hx

/-- A failed entry comes with a reaction that is yet to come. -/
theorem answered_new (h : Stepped st i j s s')
    (hold : ∀ e ∈ s.report.entries, e.ok = true) (hnew : ∃ e ∈ s'.report.entries, e.ok = false) :
    s'.pending Job.isReaction ≠ 0 := by
  obtain ⟨e, he, hok⟩ := hnew
  obtain ⟨js, new, spawned, -, hy, hlaw⟩ := h.pending
  obtain ⟨es, hes, -, hfail⟩ := entries_of_yields hy h.board
  rw [hes, List.mem_append] at he
  have hees : e ∈ es := by
    rcases he with he | he
    · rw [hold e he] at hok
      cases hok
    · exact he
  obtain ⟨d, f, hm⟩ := hfail e hees hok
  have hone : 0 < new.countP Job.isReaction := List.countP_pos_iff.2 ⟨_, hm, rfl⟩
  have hj : (∃ k, j = .launch k) ∨ ∃ c d l, j = .drain c d l := by
    cases hy.leaves _ hm with
    | refused k f => exact .inl ⟨k, rfl⟩
    | told c d l f => exact .inr ⟨c, d, l + 1, rfl⟩
  have hzero : [j].countP Job.isReaction = 0 := by
    rcases hj with ⟨k, rfl⟩ | ⟨c, d, l, rfl⟩ <;> rfl
  rcases hlaw with hlaw | ⟨hns, hv, -⟩
  · have := hlaw Job.isReaction
    omega
  · rcases hj with ⟨k, rfl⟩ | ⟨c, d, l, rfl⟩
    · have hr := (hv k rfl).1
      rw [hr] at hes
      have : es = [] := List.append_cancel_left (hes.symm.trans (List.append_nil _).symm)
      rw [this] at hees
      cases hees
    · cases hns

/-- A failure that is noted leaves the reaction to it. -/
theorem countP_isReaction_le {new : List Job} {spawned : List (List Job)} (hesc : st.escalates = true)
    (hy : j.Yields st s s' new spawned) (hj : j ≠ .stopOnError) :
    [j].countP Job.isReaction ≤ new.countP Job.isReaction := by
  by_cases hf : ∃ d f, j = .failed d f
  · obtain ⟨d, f, rfl⟩ := hf
    obtain ⟨-, ⟨hno, -⟩ | ⟨rfl, -⟩ | ⟨c, -, -, -, rfl⟩⟩ := hy
    · rw [hesc] at hno
      cases hno
    · exact Nat.le_refl 1
    · exact Nat.le_refl 1
  · have hzero : [j].countP Job.isReaction = 0 := by
      rw [List.countP_eq_zero]
      refine List.forall_mem_singleton.2 fun hr => ?_
      rcases isReaction_cases hr with hd | hs
      · exact hf hd
      · exact hj hs
    rw [hzero]
    exact Nat.zero_le _

/-- A thread that breaks off with a reaction among its jobs had the end of a collection before it. -/
theorem endCollection_of_lost {js : List Job} (hns : j.steady = false)
    (hchain : (j :: js).IsChain Job.Follows) (hpos : (j :: js).countP Job.isReaction ≠ 0) :
    (j :: js).countP Job.isEndCollection ≠ 0 := by
  obtain ⟨x, hx, hr⟩ := List.countP_pos_iff.1 (Nat.pos_of_ne_zero hpos)
  have hxjs : x ∈ js := by
    rcases List.mem_cons.1 hx with rfl | hx
    · rcases isReaction_cases hr with ⟨d, f, rfl⟩ | rfl
      · cases hns
      · cases hns
    · exact hx
  obtain ⟨-, he⟩ := reaction_waits hchain hxjs hr
  exact Nat.ne_of_gt (List.countP_pos_iff.2 ⟨_, he, rfl⟩)

/-- A reaction that is yet to come is not lost but with the collection that it waits for. -/
theorem answered_pending (hesc : st.escalates = true) (h : Stepped st i j s s')
    (hj : j ≠ .stopOnError) (hc : s.Stacks (List.IsChain Job.Follows)) (hcol : Collects s)
    (hp : s.pending Job.isReaction ≠ 0) :
    s'.pending Job.isReaction ≠ 0 ∨ s'.collecting = true ∧ s'.pending Job.isEndCollection = 0 := by
  obtain ⟨js, new, spawned, ⟨t, htm, htj⟩, hy, hlaw⟩ := h.pending
  rcases hlaw with hlaw | ⟨hns, -, -, hlaw⟩
  · left
    have hle := countP_isReaction_le hesc hy hj
    have hl := hlaw Job.isReaction
    omega
  · by_cases hz : s'.pending Job.isReaction = 0
    · right
      have hl := hlaw Job.isReaction
      rw [spawned_isReaction hy, hz] at hl
      have hchain := hc t htm
      rw [htj] at hchain
      have hend := endCollection_of_lost hns hchain (by omega)
      have hle := hlaw Job.isEndCollection
      rw [spawned_isEndCollection hy] at hle
      have honce := hcol.once
      have hcollecting : s.collecting = true := by
        rw [← Bool.not_eq_false]
        intro hidle
        have := hcol.idle hidle
        omega
      have hsame : s'.collecting = s.collecting := by
        refine collecting_eq h (fun d f hd => ?_) fun hd => ?_
        · rw [hd] at hns
          cases hns
        · rw [hd] at hns
          cases hns
      exact ⟨hsame.trans hcollecting, by omega⟩
    · exact .inl hz

theorem answered_step (hesc : st.escalates = true) (hstop : st.config.stopOnError = true)
    (h : Stepped st i j s s') (hb : s.scope.broken = false)
    (hc : s.Stacks (List.IsChain Job.Follows)) (hcol : Collects s) (ha : Answered s) :
    Answered s' := by
  intro hfail
  by_cases hj : j = .stopOnError
  · subst hj
    exact .inl (stopped_of_stopOnError h hb hstop)
  by_cases hold : ∃ e ∈ s.report.entries, e.ok = false
  · rcases ha hold with hs | hp | ⟨hcl, hz⟩
    · exact .inl (stopped_step h hb hs)
    · exact .inr (answered_pending hesc h hj hc hcol hp)
    · exact .inr (.inr (lost_step h hcl hz))
  · refine .inr (.inl (answered_new h (fun e he => ?_) hfail))
    rw [← Bool.not_eq_false]
    exact fun hok => hold ⟨e, he, hok⟩

/-! ## What asks for the end -/

/-- Why the end of a run that began at `begin` may be asked for with a code. -/
def Allowed (st : Settings σ) (begin : Nat) (s : State σ) (code : Int) : Prop :=
  code = 1 ∧ st.config.stopOnError = true ∧ s.HasFailed ∨
    code = 0 ∧ st.config.duration ≠ 0 ∧ begin + 1000 * st.config.duration ≤ s.scope.clock

/-- From `s` to `s'` the report was printed and the end of the run asked for. -/
structure Terminates (code : Int) (s s' : State σ) : Prop where
  fresh : s.stopped = false
  stopped : s'.stopped = true
  trace : s'.scope.trace =
    ⟨s.scope.clock, .exited code⟩ :: ⟨s.scope.clock, .emitted⟩ :: s.scope.trace
  output : s'.scope.output = s.scope.output ++ s.report.render

theorem terminate_cases (code : Int) {s : State σ} (hb : s.scope.broken = false) :
    s.stopped = true ∧ s.terminate code = s ∨ Terminates code s (s.terminate code) := by
  rcases terminate_spec code hb with h | ⟨hf, hs, ht, ho⟩
  · exact .inl h
  · exact .inr ⟨hf, hs, ht, ho⟩

theorem note_output (line : LogLine) (s : State σ) :
    (s.note line).scope.output = s.scope.output := by
  unfold State.note Scope.note
  split_ifs <;> rfl

/-- The watchdog asks for the end of the run unless that was done before. -/
theorem elapsed_cases (h : Stepped st i .elapsed s s') (hb : s.scope.broken = false) :
    s.stopped = true ∧ s'.stopped = s.stopped ∧ s'.scope.trace = s.scope.trace ∨
      Terminates 0 s s' := by
  have hs' : s' = ((s.pop i).note (.info "duration elapsed, stopping")).terminate 0 :=
    h.of_steady rfl hb
  have ht : ((s.pop i).note (.info "duration elapsed, stopping")).scope.trace = s.scope.trace :=
    (Scope.grows_note _ _).trace_eq
  have hnb : ((s.pop i).note (.info "duration elapsed, stopping")).scope.broken = false :=
    (State.note_broken _ _).trans hb
  have hc : ((s.pop i).note (.info "duration elapsed, stopping")).scope.clock = s.scope.clock :=
    (Scope.grows_note _ _).clock
  rcases terminate_cases 0 hnb with ⟨hstop, heq⟩ | hterm
  · rw [heq] at hs'
    exact .inl ⟨hstop, by rw [hs']; rfl, by rw [hs', ht]⟩
  · rw [← hs'] at hterm
    refine .inr ⟨hterm.fresh, hterm.stopped, ?_, ?_⟩
    · rw [hterm.trace, ht, hc]
    · rw [hterm.output, note_output]
      rfl

/-- A step that is not one of the watchdog or of the reaction to a failure does not ask for the end. -/
theorem exits_cases (h : Stepped st i j s s') (hb : s.scope.broken = false) :
    exitCodes s'.scope.trace = exitCodes s.scope.trace ∧ s'.stopped = s.stopped ∨
      j = .elapsed ∧ Terminates 0 s s' ∨
      j = .stopOnError ∧ st.config.stopOnError = true ∧ Terminates 1 s s' := by
  by_cases hn : EventKind.exited ∈ j.notes
  · rcases exited_mem_notes hn with rfl | rfl
    · rcases elapsed_cases h hb with ⟨-, hs, ht⟩ | hterm
      · exact .inl ⟨by rw [ht], hs⟩
      · exact .inr (.inl ⟨rfl, hterm⟩)
    · have hs' : s' = (s.pop i).stopOnError st := h.of_steady rfl hb
      unfold State.stopOnError at hs'
      split_ifs at hs' with hstop
      · rcases terminate_cases (s := s.pop i) 1 hb with ⟨-, heq⟩ | hterm
        · rw [heq] at hs'
          exact .inl ⟨by rw [hs']; rfl, by rw [hs']; rfl⟩
        · rw [← hs'] at hterm
          exact .inr (.inr ⟨rfl, hstop, hterm.fresh, hterm.stopped, hterm.trace, hterm.output⟩)
      · exact .inl ⟨by rw [hs']; rfl, by rw [hs']; rfl⟩
  · refine .inl ⟨exitCodes_grows h.scope hn, ?_⟩
    rcases h.board.stopped with hs | rfl | rfl
    · exact hs
    · simp [Job.notes] at hn
    · simp [Job.notes] at hn

theorem exitCodes_terminates {code : Int} (h : Terminates code s s') :
    exitCodes s'.scope.trace = code :: exitCodes s.scope.trace := by
  unfold exitCodes
  rw [h.trace]
  rfl

/-- What holds between the steps of a run that began at `begin`. -/
structure Escalation (st : Settings σ) (begin : Nat) (s : State σ) : Prop where
  begin_le : begin ≤ s.scope.clock
  unbroken : s.scope.broken = false
  told : s.Stacks (Told s.report)
  owed : s.Stacks (Owed s)
  timed : s.Stacks (Timed st begin s.scope.clock)
  chained : s.Stacks (List.IsChain Job.Follows)
  collects : Collects s
  codes : exitCodes s.scope.trace = [] ∧ s.stopped = false ∨
    ∃ code, exitCodes s.scope.trace = [code] ∧ s.stopped = true ∧ Allowed st begin s code
  answered : st.escalates = true → st.config.stopOnError = true → Answered s

namespace Escalation

variable {begin : Nat}

/-- The thread that ends the run has a reason to. -/
theorem allowed (he : Escalation st begin s) (h : Stepped st i j s s') {code : Int}
    (hj : j = .elapsed ∧ code = 0 ∨ j = .stopOnError ∧ st.config.stopOnError = true ∧ code = 1) :
    Allowed st begin s code := by
  obtain ⟨t, js, t', new, spawned, ht, htj, -⟩ := h.moves
  have htm := List.mem_of_getElem? ht
  rcases hj with ⟨rfl, rfl⟩ | ⟨rfl, hstop, rfl⟩
  · have htime := he.timed t htm
    rw [htj] at htime
    obtain ⟨hd, ⟨hjobs, -⟩ | ⟨time, hjobs, -⟩ | ⟨-, hle⟩⟩ := htime List.mem_cons_self
    · cases hjobs
    · cases hjobs
    · exact .inr ⟨rfl, hd, hle⟩
  · have howed := he.owed t htm
    rw [htj] at howed
    exact .inl ⟨rfl, hstop, howed List.mem_cons_self⟩

theorem allowed_mono (h : Stepped st i j s s') {code : Int} (ha : Allowed st begin s code) :
    Allowed st begin s' code := by
  rcases ha with ⟨hc, hs, hf⟩ | ⟨hc, hd, hle⟩
  · exact .inl ⟨hc, hs, hasFailed_mono h hf⟩
  · exact .inr ⟨hc, hd, by rw [h.scope.clock]; exact hle⟩

theorem codes_step (he : Escalation st begin s) (h : Stepped st i j s s') :
    exitCodes s'.scope.trace = [] ∧ s'.stopped = false ∨
      ∃ code, exitCodes s'.scope.trace = [code] ∧ s'.stopped = true ∧ Allowed st begin s' code := by
  have hterm : ∀ code, Terminates code s s' →
      (j = .elapsed ∧ code = 0 ∨ j = .stopOnError ∧ st.config.stopOnError = true ∧ code = 1) →
      exitCodes s'.scope.trace = [] ∧ s'.stopped = false ∨
        ∃ code, exitCodes s'.scope.trace = [code] ∧ s'.stopped = true ∧
          Allowed st begin s' code := by
    intro code ht hj
    right
    refine ⟨code, ?_, ht.stopped, allowed_mono h (he.allowed h hj)⟩
    rcases he.codes with ⟨hnil, -⟩ | ⟨_, -, hs, -⟩
    · rw [exitCodes_terminates ht, hnil]
    · rw [ht.fresh] at hs
      cases hs
  rcases exits_cases h he.unbroken with ⟨hcodes, hstopped⟩ | ⟨hj, ht⟩ | ⟨hj, hstop, ht⟩
  · rw [hcodes, hstopped]
    rcases he.codes with hc | ⟨code, hc, hs, ha⟩
    · exact .inl hc
    · exact .inr ⟨code, hc, hs, allowed_mono h ha⟩
  · exact hterm 0 ht (.inl ⟨hj, rfl⟩)
  · exact hterm 1 ht (.inr ⟨hj, hstop, rfl⟩)

theorem step (he : Escalation st begin s) (h : Stepped st i j s s') : Escalation st begin s' where
  begin_le := by rw [h.scope.clock]; exact he.begin_le
  unbroken := h.unbroken
  told := told_step h he.told
  owed := owed_step h he.unbroken he.told he.owed
  timed := timed_step h he.begin_le he.timed
  chained := follows_step h he.chained
  collects := collects_step h he.collects
  codes := he.codes_step h
  answered := fun hesc hstop =>
    answered_step hesc hstop h he.unbroken he.chained he.collects (he.answered hesc hstop)

theorem clock (he : Escalation st begin s) {time : Nat} (hn : ∀ i, s.enabled i = false)
    (hw : s.nextWake? = some time) : Escalation st begin (s.setClock time) := by
  have hlt := (State.nextWake?_spec hn hw).1
  have hle : s.scope.clock ≤ time := by omega
  refine ⟨he.begin_le.trans hle, he.unbroken, he.told, he.owed,
    fun t ht => (he.timed t ht).mono hle, he.chained,
    ⟨he.collects.once, he.collects.idle, he.collects.lost⟩, ?_, he.answered⟩
  rcases he.codes with hc | ⟨code, hc, hs, ha⟩
  · exact .inl hc
  · refine .inr ⟨code, hc, hs, ?_⟩
    rcases ha with ⟨hcode, hstop, hf⟩ | ⟨hcode, hd, hb⟩
    · exact .inl ⟨hcode, hstop, hf⟩
    · exact .inr ⟨hcode, hd, hb.trans hle⟩

end Escalation

theorem start_escalation (st : Settings σ) {sc : Scope σ} (actions : List Action) {report : Report}
    (ht : sc.trace = []) (hb : sc.broken = false) (hr : report.entries = []) :
    Escalation st sc.clock (start st sc actions report) where
  begin_le := Nat.le_refl _
  unbroken := hb
  told := by
    refine List.forall_mem_singleton.2 fun d f h => ?_
    cases List.mem_singleton.1 h
  owed := by
    refine List.forall_mem_singleton.2 fun h => ?_
    cases List.mem_singleton.1 h
  timed := by
    refine List.forall_mem_singleton.2 fun h => ?_
    cases List.mem_singleton.1 h
  chained := List.forall_mem_singleton.2 (.singleton _)
  collects := ⟨Nat.zero_le 1, fun _ => rfl, fun h => (nomatch h)⟩
  codes := .inl ⟨by show exitCodes sc.trace = []; rw [ht]; rfl, rfl⟩
  answered := by
    rintro - - ⟨e, he, -⟩
    have hmem : e ∈ report.entries := he
    rw [hr] at hmem
    cases hmem

end Steps

theorem escalation_of_reaches {st : Settings σ} {sc : Scope σ} {actions : List Action}
    {report : Report} (ht : sc.trace = []) (hb : sc.broken = false) (hr : report.entries = [])
    {s : State σ} (h : Reaches st (start st sc actions report) s) : Escalation st sc.clock s := by
  refine (h.invariant hb (start_escalation st actions ht hb hr) ?_ ?_).2
  · exact fun i j s s' he hs => he.step hs
  · exact fun s time he hn hw => he.clock hn hw

/-- The end of a run is asked for at most once, right after the report was printed: with code 1 only if
a task has failed that the report has a failed entry for, with code 0 only when the time for the passes
is over.  Without a limit to that time, once all threads have come to their ends the end has been asked
for just if the report has a failed entry and failures are to end the run.  A thread that broke off has
not come to its end; all the same it is in the way only if it was collecting diagnostics. -/
theorem exit_once (env : Environment σ) (config : RunConfig) {sc : Scope σ} (actions : List Action)
    {report : Report} (ht : sc.trace = []) (hb : sc.broken = false) (hr : report.entries = [])
    {s : State σ} (h : Reaches { env, config } (start { env, config } sc actions report) s) :
    (exitCodes s.scope.trace).length ≤ 1 ∧
    (∀ s', Step { env, config } s s' → exitCodes s'.scope.trace ≠ exitCodes s.scope.trace →
      ∃ code, s'.scope.trace =
          ⟨s.scope.clock, .exited code⟩ :: ⟨s.scope.clock, .emitted⟩ :: s.scope.trace ∧
        s'.scope.output = s.scope.output ++ s.report.render ∧
        (code = 1 ∧ config.stopOnError = true ∧ s.HasFailed ∨
          code = 0 ∧ config.duration ≠ 0 ∧ sc.clock + 1000 * config.duration ≤ s.scope.clock)) ∧
    (config.duration = 0 → (∀ t ∈ s.threads, t.jobs = []) →
      (s.collecting = false ∨ ∀ t ∈ s.threads, t.crashed = false) →
      (exitCodes s.scope.trace ≠ [] ↔
        config.stopOnError = true ∧ ∃ e ∈ s.report.entries, e.ok = false)) := by
  have he := escalation_of_reaches ht hb hr h
  refine ⟨?_, fun s' hstep hne => ?_, fun hd hdone hcut => ⟨fun hne => ?_, fun hfail => ?_⟩⟩
  · rcases he.codes with ⟨hc, -⟩ | ⟨code, hc, -⟩
    · rw [hc]
      exact Nat.zero_le 1
    · rw [hc]
      exact Nat.le_refl 1
  · cases hstep with
    | clock _ _ => exact absurd rfl hne
    | thread i hs =>
      obtain ⟨j, hj⟩ := State.step?_stepped he.unbroken hs
      rcases exits_cases hj he.unbroken with ⟨hsame, -⟩ | ⟨rfl, hterm⟩ | ⟨rfl, hstop, hterm⟩
      · exact absurd hsame hne
      · exact ⟨0, hterm.trace, hterm.output, he.allowed hj (.inl ⟨rfl, rfl⟩)⟩
      · exact ⟨1, hterm.trace, hterm.output, he.allowed hj (.inr ⟨rfl, hstop, rfl⟩)⟩
  · rcases he.codes with ⟨hc, -⟩ | ⟨code, -, -, ⟨-, hstop, time, d, f, -, hentry⟩ | ⟨-, hd', -⟩⟩
    · exact absurd hc hne
    · exact ⟨hstop, _, hentry, rfl⟩
    · exact absurd hd hd'
  · have hnone : ∀ p, s.pending p = 0 := fun p =>
      State.pending_eq_zero.2 fun t htm j hj => by rw [hdone t htm] at hj; cases hj
    rcases he.answered rfl hfail.1 hfail.2 with hstopped | hp | ⟨hcol, hz⟩
    · rcases he.codes with ⟨-, hs⟩ | ⟨code, hc, -⟩
      · rw [hs] at hstopped
        cases hstopped
      · rw [hc]
        exact List.cons_ne_nil code []
    · exact absurd (hnone _) hp
    · obtain ⟨t, htm, hcr⟩ := he.collects.lost hcol hz
      rcases hcut with hcut | hcut
      · rw [hcut] at hcol
        cases hcol
      · rw [hcut t htm] at hcr
        cases hcr

/-- A task whose launch is refused, in a run that a failure ends. -/
def refusedTask : State (Faulty (World Rehearsal)) :=
  rehearse { skipSetup := true, stopOnError := true } {} { run := [some (.command "no space left")] }
    [{ image := "probe", command := "ping", wait := true }] 40

theorem exit_once_refusedTask :
    (∀ t ∈ refusedTask.threads, t.jobs = []) ∧ exitCodes refusedTask.scope.trace = [1] ∧
      (exitCodes refusedTask.scope.trace).length ≤ 1 ∧
      ∃ e ∈ refusedTask.report.entries, e.ok = false := by
  have hcodes : exitCodes refusedTask.scope.trace = [1] := by decide +kernel
  have hdone : ∀ t ∈ refusedTask.threads, t.jobs = [] := by
    have : (refusedTask.threads.all fun t => t.jobs.isEmpty) = true := by decide +kernel
    simpa using this
  have h := exit_once (rehearsed {}).env { skipSetup := true, stopOnError := true }
    [{ image := "probe", command := "ping", wait := true }]
    (s := refusedTask) rfl rfl rfl
    (rehearse_reaches _ {} { run := [some (.command "no space left")] } _ 40)
  have hiff := h.2.2 rfl hdone (.inl (by decide +kernel))
  exact ⟨hdone, hcodes, h.1, (hiff.1 (by rw [hcodes]; exact List.cons_ne_nil 1 [])).2⟩

/-- A failed task ends the run, but only after its diagnostics, which have a time limit out of range. -/
def unansweredConfig : RunConfig := { diagnosticsConfig with stopOnError := true }

def unansweredRun : State (Faulty (World Rehearsal)) :=
  (diagnose unansweredConfig "99999999999999999999h" [some (.command "failed")]
    [{ image := "busybox", command := "work", wait := true }]).advance
    (rehearsed unansweredConfig) maxSteps (fun _ => false) 40 0

/-- The thread that reacts to the failure breaks off with the diagnostics, and the end of the run is never asked
for. -/
theorem exit_once_cut_off :
    Reaches (rehearsed unansweredConfig)
        (diagnose unansweredConfig "99999999999999999999h" [some (.command "failed")]
          [{ image := "busybox", command := "work", wait := true }]) unansweredRun ∧
      unansweredConfig.duration = 0 ∧ unansweredConfig.stopOnError = true ∧
      (∀ t ∈ unansweredRun.threads, t.jobs = []) ∧ (∃ e ∈ unansweredRun.report.entries, e.ok = false) ∧
      exitCodes unansweredRun.scope.trace = [] := by
  have hdone : (unansweredRun.threads.all fun t => t.jobs.isEmpty) = true := by decide +kernel
  have hfailed : (unansweredRun.report.entries.any fun e => !e.ok) = true := by decide +kernel
  exact ⟨State.advance_reaches _ _ _ _ _ _, rfl, rfl, by simpa using hdone, by simpa using hfailed,
    by decide +kernel⟩

end Run

end Workload
