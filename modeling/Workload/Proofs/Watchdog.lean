import Workload.Proofs.Exits
import Workload.Proofs.Opening
import Workload.Proofs.Steps

/-!
# The watchdog outlives the passes

The watchdog of a run has the second thread to itself, and nothing ends that thread but the time for
the passes.  `Watch` follows it along a history: it waits, whatever becomes of the first thread, and at
the end of its time it asks for the end of the run unless a failed task has done so before
(`watchdog_acts`).  In particular a run whose passes are long over is ended once more
(`watchdog_acts_after_return`).
-/

namespace Workload.Run

variable {σ : Type}

/-- When the time for the passes of a run that began at `begin` is over. -/
def due (st : Settings σ) (begin : Nat) : Nat := begin + 1000 * st.config.duration

/-- What a watchdog notes that ends the run. -/
def ending (time : Nat) : List TimedEvent := [⟨time, .exited 0⟩, ⟨time, .emitted⟩]

/-- The watchdog of a run that began at `begin` has its time before it. -/
inductive Waits (st : Settings σ) (begin clock : Nat) : List Job → Prop
  | asleep : clock = begin → Waits st begin clock [.sleep (1000 * st.config.duration), .elapsed]
  | dozing : clock ≤ due st begin → Waits st begin clock [.wake (due st begin), .elapsed]
  | awake : clock = due st begin → Waits st begin clock [.elapsed]

/-- No thread but the second is a watchdog, and none starts another. -/
structure Alone (st : Settings σ) (s : State σ) : Prop where
  others : ∀ (k : ThreadId) t, s.threads[k]? = some t → k ≠ 1 → .elapsed ∉ t.jobs
  nested : s.Stacks (Nested st)

/-- What has become of the watchdog of a run that began at `begin`. -/
inductive Watch (st : Settings σ) (actions : List Action) (begin : Nat) (h : List Deed)
    (s : State σ) : Prop
  | opening (rest : List OpeningCall) (n : Nat) :
    s.threads = [⟨[.opening rest (.whole st actions)], n, false⟩] → s.scope.clock = begin →
    (∀ d ∈ h, d.job ≠ .elapsed) → 0 ∉ exitCodes s.scope.trace → Watch st actions begin h s
  | ended (n : Nat) (crashed : Bool) : s.threads = [⟨[], n, crashed⟩] → s.scope.clock = begin →
    (∀ d ∈ h, d.job ≠ .elapsed) → 0 ∉ exitCodes s.scope.trace → Watch st actions begin h s
  | waiting (w : Thread) : s.threads[1]? = some w → Waits st begin s.scope.clock w.jobs →
    Alone st s → (∀ d ∈ h, d.job ≠ .elapsed) → 0 ∉ exitCodes s.scope.trace →
    Watch st actions begin h s
  | late (w : Thread) : s.threads[1]? = some w → w.jobs = [] → due st begin ≤ s.scope.clock →
    Alone st s → s.stopped = true → exitCodes s.scope.trace = [1] →
    (∀ d ∈ h, d.job = .elapsed → d.noted = []) → Watch st actions begin h s
  | acted (w : Thread) : s.threads[1]? = some w → w.jobs = [] → due st begin ≤ s.scope.clock →
    Alone st s → s.stopped = true → exitCodes s.scope.trace = [0] →
    (∃ d ∈ h, d.job = .elapsed) → (∀ d ∈ h, d.job = .elapsed → d.noted = ending (due st begin)) →
    Watch st actions begin h s

section Steps

variable {st : Settings σ} {actions : List Action} {begin : Nat} {h : List Deed} {i : ThreadId}
  {j : Job} {s s' : State σ} {noted : List TimedEvent}

theorem alone_step (hs : Stepped st i j s s') (ha : Alone st s) : Alone st s' := by
  refine ⟨fun k u hu hk he => ?_, nested_step hs ha.nested⟩
  obtain ⟨t, js, new, spawned, ht, hj, hy, hthreads⟩ := hs.thread_cases
  rcases hthreads k u hu with ⟨rfl, ⟨hjobs, -⟩ | ⟨hjobs, -⟩⟩ | ⟨-, hold⟩ | ⟨-, -, jobs, hm, rfl⟩
  · rw [hjobs] at he
    rcases List.mem_append.1 he with he | he
    · cases hy.leaves _ he
    · refine ha.others k t ht hk ?_
      rw [hj]
      exact List.mem_cons_of_mem j he
  · rw [hjobs] at he
    cases he
  · exact ha.others k u hold hk he
  · cases hy.starts jobs hm _ he with
    | elapsed inv hw hd =>
      have hn := ha.nested t (List.mem_of_getElem? ht)
      rw [hj] at hn
      rw [(hn _ _ List.mem_cons_self).2] at hw
      cases hw

theorem alone_clock {time : Nat} (ha : Alone st s) : Alone st (s.setClock time) :=
  ⟨ha.others, ha.nested⟩

/-- A thread other than the second does not do the work of the watchdog. -/
theorem ne_elapsed (hs : Stepped st i j s s') (ha : Alone st s) (hi : i ≠ 1) : j ≠ .elapsed := by
  rintro rfl
  obtain ⟨t, js, -, -, -, ht, hj, -⟩ := hs.moves
  refine ha.others i t ht hi ?_
  rw [hj]
  exact List.mem_cons_self

theorem forall_append_of_ne {P : List TimedEvent → Prop} (hj : j ≠ .elapsed)
    (hd : ∀ d ∈ h, d.job = .elapsed → P d.noted) :
    ∀ d ∈ h ++ [⟨i, j, noted⟩], d.job = .elapsed → P d.noted := by
  intro d hm he
  rcases List.mem_append.1 hm with hm | hm
  · exact hd d hm he
  · obtain rfl := List.mem_singleton.1 hm
    exact absurd he hj

theorem getElem?_other_of_stepped (hs : Stepped st i j s s') {k : ThreadId} (hi : i ≠ k) {u : Thread}
    (hu : s.threads[k]? = some u) : s'.threads[k]? = some u := by
  obtain ⟨t, js, t', new, spawned, -, -, -, hth, -⟩ := hs.moves
  exact Stepped.getElem?_other hth hi hu

/-- No code is added to the codes of a run that was asked for its end. -/
theorem exitCodes_of_stopped (hs : Stepped st i j s s') (hb : s.scope.broken = false)
    (hstop : s.stopped = true) :
    exitCodes s'.scope.trace = exitCodes s.scope.trace ∧ s'.stopped = true := by
  rcases exits_cases hs hb with ⟨hc, hs'⟩ | ⟨-, ht⟩ | ⟨-, -, ht⟩
  · exact ⟨hc, hs'.trans hstop⟩
  · rw [ht.fresh] at hstop
    cases hstop
  · rw [ht.fresh] at hstop
    cases hstop

/-! ## The steps of the watchdog -/

theorem zero_not_mem_exitCodes (hs : Stepped st i j s s') (hb : s.scope.broken = false)
    (hj : j ≠ .elapsed) (hz : 0 ∉ exitCodes s.scope.trace) : 0 ∉ exitCodes s'.scope.trace := by
  rcases exits_cases hs hb with ⟨hc, -⟩ | ⟨rfl, -⟩ | ⟨-, -, ht⟩
  · rw [hc]
    exact hz
  · exact absurd rfl hj
  · rw [exitCodes_terminates ht]
    simpa using hz

/-- Beside the first pass stands the watchdog. -/
theorem watch_opening (hd : st.config.duration ≠ 0) (hb : s.scope.broken = false)
    (hs : Stepped st i j s s') {rest : List OpeningCall} {n : Nat}
    (ht : s.threads = [⟨[.opening rest (.whole st actions)], n, false⟩])
    (hc : s.scope.clock = begin) (hh : ∀ d ∈ h, d.job ≠ .elapsed)
    (hz : 0 ∉ exitCodes s.scope.trace) : Watch st actions begin (h ++ [⟨i, j, noted⟩]) s' := by
  obtain ⟨rfl, js, hjs⟩ := singleton_of_stepped hs ht
  obtain ⟨rfl, -⟩ := List.cons.inj hjs
  have hne : Job.opening rest (.whole st actions) ≠ .elapsed := by simp
  have hc' : s'.scope.clock = begin := by rw [hs.scope.clock, hc]
  have hh' : ∀ d ∈ h ++ [⟨0, .opening rest (.whole st actions), noted⟩], d.job ≠ .elapsed :=
    forall_append_of_ne (P := fun _ => False) hne hh
  have hz' := zero_not_mem_exitCodes hs hb hne hz
  cases rest with
  | nil =>
    obtain ⟨-, -, -, n', hth⟩ := opened_of_stepped hs ht
    have hlimited : ((Invocation.whole st actions).phases.watchdog &&
        decide (st.config.duration ≠ 0)) = true := by
      rw [Bool.and_eq_true, decide_eq_true_eq]
      exact ⟨rfl, hd⟩
    simp only [hlimited, if_true] at hth
    split_ifs at hth
    · refine .waiting (.ofJobs [.sleep (1000 * st.config.duration), .elapsed]) (by rw [hth]; rfl)
        (.asleep hc') ⟨fun k u hu hk => ?_, fun u hu calls inv hm => ?_⟩ hh' hz'
      · rw [hth] at hu
        rcases k with _ | _ | k
        · obtain rfl := Option.some.inj hu
          simp
        · exact absurd rfl hk
        · cases hu
      · rw [hth] at hu
        simp only [List.mem_cons, List.not_mem_nil, or_false] at hu
        rcases hu with rfl | rfl
        · simp at hm
        · simp [Thread.ofJobs] at hm
    · exact .ended n' false hth hc' hh' hz'
  | cons c cs =>
    cases called_of_stepped hs ht rfl with
    | ok e n' _ _ hth _ => exact .opening cs n' hth hc' hh' hz'
    | failed e fault n' _ _ hth _ => exact .ended n' false hth hc' hh' hz'
    | broken n' _ hth => exact .ended n' true hth hc' hh' hz'

/-- At the end of its time the watchdog ends the run, unless that was done before. -/
theorem watch_elapsed (he : Escalation st begin s) (hs : Stepped st 1 .elapsed s s') {w : Thread}
    (hw : s'.threads[1]? = some w) (hj : w.jobs = []) (hc : s.scope.clock = due st begin)
    (ha : Alone st s') (hh : ∀ d ∈ h, d.job ≠ .elapsed) (hz : 0 ∉ exitCodes s.scope.trace)
    (hn : s'.scope.trace = noted ++ s.scope.trace) :
    Watch st actions begin (h ++ [⟨1, .elapsed, noted⟩]) s' := by
  have hle : due st begin ≤ s'.scope.clock := by
    rw [hs.scope.clock, hc]
  have hdeeds : ∀ d ∈ h ++ [⟨1, .elapsed, noted⟩], d.job = .elapsed → d.noted = noted := by
    intro d hm he
    rcases List.mem_append.1 hm with hm | hm
    · exact absurd he (hh d hm)
    · obtain rfl := List.mem_singleton.1 hm
      rfl
  rcases elapsed_cases hs he.unbroken with ⟨hstop, hstop', htr⟩ | hterm
  · obtain rfl : noted = [] :=
      List.append_cancel_right (hn.symm.trans (htr.trans (List.nil_append _).symm))
    refine .late w hw hj hle ha (hstop'.trans hstop) ?_ hdeeds
    rw [htr]
    rcases he.codes with ⟨-, hns⟩ | ⟨code, hcode, -, ⟨rfl, -⟩ | ⟨rfl, -⟩⟩
    · rw [hstop] at hns
      cases hns
    · exact hcode
    · rw [hcode] at hz
      exact absurd List.mem_cons_self hz
  · obtain rfl : noted = ending (due st begin) :=
      List.append_cancel_right (hn.symm.trans (by rw [hterm.trace, hc]; rfl))
    refine .acted w hw hj hle ha hterm.stopped ?_ ⟨_, List.mem_append_right _ List.mem_cons_self, rfl⟩
      hdeeds
    rw [exitCodes_terminates hterm]
    rcases he.codes with ⟨hnil, -⟩ | ⟨code, -, hstop, -⟩
    · rw [hnil]
    · rw [hterm.fresh] at hstop
      cases hstop

/-- The watchdog does not care for what the other threads do. -/
theorem watch_waiting (he : Escalation st begin s) (hs : Stepped st i j s s') {w : Thread}
    (hw : s.threads[1]? = some w) (hj : Waits st begin s.scope.clock w.jobs) (ha : Alone st s)
    (hh : ∀ d ∈ h, d.job ≠ .elapsed) (hz : 0 ∉ exitCodes s.scope.trace)
    (hn : s'.scope.trace = noted ++ s.scope.trace) :
    Watch st actions begin (h ++ [⟨i, j, noted⟩]) s' := by
  by_cases hi : i = 1
  · subst hi
    obtain ⟨t, js, t', new, spawned, ht, htj, hy, hth, ht'⟩ := hs.moves
    obtain ⟨hself, -⟩ := Stepped.getElem?_threads hth (List.getElem?_eq_some_iff.1 ht).1
    rw [hw] at ht
    obtain rfl := Option.some.inj ht
    rw [htj] at hj
    have hstill : ∀ jobs, j ≠ .elapsed → j.steady = true → new ++ js = jobs →
        Waits st begin s.scope.clock jobs → Watch st actions begin (h ++ [⟨1, j, noted⟩]) s' := by
      intro jobs hne hsteady hjobs hwaits
      rcases ht' with ⟨hnew, -⟩ | ⟨hns, -⟩
      · refine .waiting t' hself ?_ (alone_step hs ha)
          (forall_append_of_ne (P := fun _ => False) hne hh)
          (zero_not_mem_exitCodes hs he.unbroken hne hz)
        rw [hnew, hjobs, hs.scope.clock]
        exact hwaits
      · rw [hsteady] at hns
        cases hns
    cases hj with
    | asleep hc =>
      refine hstill [.wake (due st begin), .elapsed] (by simp) rfl ?_ (.dozing ?_)
      · rw [hy.1, hc]
        rfl
      · rw [hc]
        exact Nat.le_add_right _ _
    | dozing hc =>
      have hready := hs.ready
      simp only [Job.blocked, decide_eq_false_iff_not] at hready
      refine hstill [.elapsed] (by simp) rfl (by rw [hy.1]; rfl) (.awake (by omega))
    | awake hc =>
      rcases ht' with ⟨hnew, -⟩ | ⟨hns, -⟩
      · rw [hy.1] at hnew
        exact watch_elapsed he hs hself hnew hc (alone_step hs ha) hh hz hn
      · cases hns
  · have hne := ne_elapsed hs ha hi
    refine .waiting w (getElem?_other_of_stepped hs hi hw) ?_ (alone_step hs ha)
      (forall_append_of_ne (P := fun _ => False) hne hh)
      (zero_not_mem_exitCodes hs he.unbroken hne hz)
    rw [hs.scope.clock]
    exact hj

/-- Nothing is left to do for a watchdog at its end. -/
theorem ne_of_finished (hs : Stepped st i j s s') {k : ThreadId} {w : Thread}
    (hw : s.threads[k]? = some w) (hj : w.jobs = []) : i ≠ k := by
  rintro rfl
  obtain ⟨t, js, -, -, -, ht, htj, -⟩ := hs.moves
  rw [hw] at ht
  obtain rfl := Option.some.inj ht
  rw [hj] at htj
  cases htj

theorem watch_step (hd : st.config.duration ≠ 0) (he : Escalation st begin s)
    (hs : Stepped st i j s s') (hn : s'.scope.trace = noted ++ s.scope.trace)
    (hw : Watch st actions begin h s) : Watch st actions begin (h ++ [⟨i, j, noted⟩]) s' := by
  cases hw with
  | opening rest n ht hc hh hz => exact watch_opening hd he.unbroken hs ht hc hh hz
  | ended n crashed ht hc hh hz => exact (not_stepped hs ht).elim
  | waiting w hw hj ha hh hz => exact watch_waiting he hs hw hj ha hh hz hn
  | late w hw hj hc ha hstop hcodes hh =>
    have hi := ne_of_finished hs hw hj
    obtain ⟨hsame, hstop'⟩ := exitCodes_of_stopped hs he.unbroken hstop
    exact .late w (getElem?_other_of_stepped hs hi hw) hj (by rw [hs.scope.clock]; exact hc)
      (alone_step hs ha) hstop' (hsame.trans hcodes)
      (forall_append_of_ne (P := fun l => l = []) (ne_elapsed hs ha hi) hh)
  | acted w hw hj hc ha hstop hcodes hex hh =>
    have hi := ne_of_finished hs hw hj
    obtain ⟨hsame, hstop'⟩ := exitCodes_of_stopped hs he.unbroken hstop
    obtain ⟨d, hm, hdj⟩ := hex
    exact .acted w (getElem?_other_of_stepped hs hi hw) hj (by rw [hs.scope.clock]; exact hc)
      (alone_step hs ha) hstop' (hsame.trans hcodes) ⟨d, List.mem_append_left _ hm, hdj⟩
      (forall_append_of_ne (P := fun l => l = ending (due st begin)) (ne_elapsed hs ha hi) hh)

theorem not_nextWake? {n : Nat} {crashed : Bool} (ht : s.threads = [⟨[], n, crashed⟩]) {time : Nat} :
    s.nextWake? ≠ some time := by
  unfold State.nextWake?
  rw [ht]
  intro h
  cases h

/-- The clock does not pass the time of a watchdog that waits for it. -/
theorem watch_clock {time : Nat} (hn : ∀ i, s.enabled i = false) (htime : s.nextWake? = some time)
    (hw : Watch st actions begin h s) : Watch st actions begin h (s.setClock time) := by
  have hready : ∀ t ∈ s.threads, ∀ j js, t.jobs = j :: js → j.blocked s = true :=
    fun t ht j js hj => State.blocked_of_not_enabled hn ht hj
  obtain ⟨hlt, hle⟩ := State.nextWake?_spec hn htime
  cases hw with
  | opening rest n ht hc hh hz =>
    cases hready _ (ht ▸ List.mem_cons_self) _ _ rfl
  | ended n crashed ht hc hh hz => exact absurd htime (not_nextWake? ht)
  | waiting w hw hj ha hh hz =>
    have hm := List.mem_of_getElem? hw
    generalize hjobs : w.jobs = jobs at hj
    refine .waiting w hw ?_ (alone_clock ha) hh hz
    rw [hjobs]
    cases hj with
    | asleep hc => cases hready w hm _ _ hjobs
    | dozing hc => exact .dozing (hle w hm _ _ hjobs)
    | awake hc => cases hready w hm _ _ hjobs
  | late w hw hj hc ha hstop hcodes hh =>
    exact .late w hw hj (Nat.le_trans hc (Nat.le_of_lt hlt)) (alone_clock ha) hstop hcodes hh
  | acted w hw hj hc ha hstop hcodes hex hh =>
    exact .acted w hw hj (Nat.le_trans hc (Nat.le_of_lt hlt)) (alone_clock ha) hstop hcodes hex hh

theorem watch_of_runs {sc : Scope σ} {report : Report} (hd : st.config.duration ≠ 0)
    (ht : sc.trace = []) (hb : sc.broken = false) (hr : report.entries = [])
    (hruns : Runs st (start st sc actions report) h s) : Watch st actions sc.clock h s := by
  refine (hruns.invariant (P := fun h s => Escalation st sc.clock s ∧ Watch st actions sc.clock h s)
    hb ⟨start_escalation st actions ht hb hr, ?_⟩ ?_ ?_).2
  · refine .opening (openingCalls st (!st.config.skipSetup)) 0 rfl rfl (fun d hm => nomatch hm) ?_
    show 0 ∉ exitCodes sc.trace
    rw [ht]
    exact List.not_mem_nil
  · exact fun h i j noted s s' ⟨he, hw⟩ hs hn => ⟨he.step hs, watch_step hd he hs hn hw⟩
  · exact fun h s time ⟨he, hw⟩ hn htime => ⟨he.clock hn htime, watch_clock hn htime hw⟩

/-- Whether or not its passes are over, a run whose time is over was ended by its watchdog, unless a
failed task had ended it before; the watchdog does nothing earlier, and nothing else. -/
theorem watchdog_acts {sc : Scope σ} {report : Report} (hd : st.config.duration ≠ 0)
    (ht : sc.trace = []) (hb : sc.broken = false) (hr : report.entries = [])
    (hruns : Runs st (start st sc actions report) h s) :
    (s.scope.clock < due st sc.clock →
      (∀ d ∈ h, d.job ≠ .elapsed) ∧ 0 ∉ exitCodes s.scope.trace) ∧
    (due st sc.clock < s.scope.clock →
      ((∀ d ∈ h, d.job = .elapsed → d.noted = []) ↔ 1 ∈ exitCodes s.scope.trace) ∧
      (0 ∉ exitCodes s.scope.trace ↔ 1 ∈ exitCodes s.scope.trace)) ∧
    ∀ d ∈ h, d.job = .elapsed → d.noted = [] ∨ d.noted = ending (due st sc.clock) := by
  have hearly : ∀ {clock}, clock ≤ due st sc.clock → ¬due st sc.clock < clock := fun h => by omega
  have hstart : s.scope.clock = sc.clock → s.scope.clock ≤ due st sc.clock := fun hc => by
    rw [hc]
    exact Nat.le_add_right _ _
  cases watch_of_runs hd ht hb hr hruns with
  | opening rest n _ hc hh hz =>
    exact ⟨fun _ => ⟨hh, hz⟩, fun hlt => absurd hlt (hearly (hstart hc)),
      fun d hm hj => absurd hj (hh d hm)⟩
  | ended n crashed _ hc hh hz =>
    exact ⟨fun _ => ⟨hh, hz⟩, fun hlt => absurd hlt (hearly (hstart hc)),
      fun d hm hj => absurd hj (hh d hm)⟩
  | waiting w _ hj _ hh hz =>
    refine ⟨fun _ => ⟨hh, hz⟩, fun hlt => absurd hlt (hearly ?_), fun d hm hj => absurd hj (hh d hm)⟩
    generalize w.jobs = jobs at hj
    cases hj with
    | asleep hc => exact hstart hc
    | dozing hc => exact hc
    | awake hc => exact Nat.le_of_eq hc
  | late w _ _ hc _ _ hcodes hh =>
    refine ⟨fun hlt => absurd hc (Nat.not_le_of_lt hlt), fun _ => ?_,
      fun d hm hj => .inl (hh d hm hj)⟩
    rw [hcodes]
    exact ⟨⟨fun _ => by simp, fun _ => hh⟩, by simp⟩
  | acted w _ _ hc _ _ hcodes hex hh =>
    refine ⟨fun hlt => absurd hc (Nat.not_le_of_lt hlt), fun _ => ?_,
      fun d hm hj => .inr (hh d hm hj)⟩
    rw [hcodes]
    obtain ⟨d, hm, hj⟩ := hex
    refine ⟨⟨fun hnil => ?_, fun h1 => by simp at h1⟩, by simp⟩
    have := hnil d hm hj
    rw [hh d hm hj] at this
    cases this

end Steps

/-- Two passes with a second for both, and the given pause after every dispatch. -/
def timedConfig (settle : Nat) : RunConfig :=
  { repeats := 1, duration := 1, skipSetup := true, skipTeardown := true, skipCleanup := true,
    timings := ⟨13, 7, 11, settle⟩ }

def timedActions : List Action := [{ image := "busybox", command := "timed", wait := true }]

theorem watchdog_acts_timedConfig :
    ∃ h s, Runs (rehearsed (timedConfig 800))
        (start (rehearsed (timedConfig 800)) (rehearsalScope {} {}) timedActions {}) h s ∧
      s.scope.clock = 1600 ∧ ∃ d ∈ h, d.job = .elapsed ∧ d.noted = ending 1000 := by
  obtain ⟨h, hr⟩ := runs_of_reaches (rehearse_reaches (timedConfig 800) {} {} timedActions 60) rfl
  refine ⟨h, _, hr, by decide +kernel, ?_⟩
  obtain ⟨-, hlate, hnoted⟩ := watchdog_acts (by decide) rfl rfl rfl hr
  have hiff := (hlate (by decide +kernel)).1
  have hcodes :
      1 ∉ exitCodes (rehearse (timedConfig 800) {} {} timedActions 60).scope.trace := by
    decide +kernel
  have hex : ∃ d ∈ h, d.job = .elapsed ∧ d.noted ≠ [] := by
    by_contra hnone
    refine hcodes (hiff.1 fun d hm hj => ?_)
    by_contra hne
    exact hnone ⟨d, hm, hj, hne⟩
  obtain ⟨d, hm, hj, hne⟩ := hex
  exact ⟨d, hm, hj, (hnoted d hm hj).resolve_left hne⟩

/-- A run that has returned long before the end of its time is ended all the same, and its report is
printed once more. -/
theorem watchdog_acts_after_return :
    let st := rehearsed (timedConfig 103)
    let printed := fun s : State (Faulty (World Rehearsal)) =>
      s.scope.trace.countP fun e => e.event.kind = .emitted
    ∃ s s', Reaches st (start st (rehearsalScope {} {}) timedActions {}) s ∧
      s.result? = some (.ok ()) ∧ s.scope.clock < due st 0 ∧ exitCodes s.scope.trace = [] ∧
      printed s = 1 ∧ Reaches st s s' ∧ exitCodes s'.scope.trace = [0] ∧ printed s' = 2 := by
  refine ⟨rehearse (timedConfig 103) {} {} timedActions 31,
    (rehearse (timedConfig 103) {} {} timedActions 31).advance _ maxSteps (fun _ => false) 20 0,
    rehearse_reaches _ _ _ _ _, ?_, ?_, ?_, ?_, State.advance_reaches _ _ _ _ _ _, ?_, ?_⟩
  all_goals decide +kernel

end Workload.Run
