import Workload.Proofs.Idleness

/-!
# What is left of a run

Where no action waits for a condition, what is left of a run is a line (`Shows`): the task on its way to
its launch, if there is one, the time at which the first thread goes on, and what it goes on with.  It does
not tell which thread carries the task.  Neither do threads change it that receive signals, wait or print
the report (`Shows.idle`), nor does the clock (`Shows.clock`); the other steps are read off below.
-/

namespace Workload.Run

variable {σ : Type}

/-! ## Lines -/

/-- What is left of a run: the task on its way to its launch, the time at which the first thread goes on, and
what it goes on with. -/
structure Line where
  errand : Option Job
  time : Nat
  rest : List Job

/-- A job that waits until a time, as long as the clock is not there. -/
inductive Job.Until (clock : Nat) : Job → Nat → Prop
  | sleep (ms : Nat) : 0 < ms → Until clock (.sleep ms) (clock + ms)
  | wake (time : Nat) : clock ≤ time → Until clock (.wake time) time

/-- A task is carried by the first thread, or by another one while the first one waits. -/
def Carries (s : State σ) (i : ThreadId) (e pause : Job) (rest : List Job) : Prop :=
  i = 0 ∧ s.main = e :: pause :: rest ∨ i ≠ 0 ∧ s.main = pause :: rest ∧
    ∃ t, s.threads[i]? = some t ∧ t.jobs = [e] ∧ t.crashed = false

/-- What is left of a run is a line. -/
inductive Shows (st : Settings σ) (s : State σ) : Line → Prop
  /-- The first thread goes on, and all signals have been received. -/
  | resting (time : Nat) (rest : List Job) : s.main = rest → (∀ j ∈ rest, j.staged = true) →
    (rest ≠ [] → s.scope.clock = time) → s.Besides 0 Thread.Done → Shows st s ⟨none, time, rest⟩
  /-- The first thread waits, after it did what was due to a launch. -/
  | pausing (front : List Job) (pause : Job) (time : Nat) (rest : List Job) :
    s.main = front ++ pause :: rest → (∀ j ∈ front, j.chore = true) → pause.Until s.scope.clock time →
    (∀ j ∈ rest, j.staged = true) → s.Besides 0 Thread.Idle →
    (s.scope.clock = time → s.Besides 0 Thread.Done) → Shows st s ⟨none, time, rest⟩
  /-- The first thread or another one carries a task. -/
  | carrying (i : ThreadId) (e pause : Job) (time : Nat) (rest : List Job) :
    Carries s i e pause rest → e.bound = true → pause.Until s.scope.clock time →
    s.scope.clock + st.config.timings.settle = time → (∀ j ∈ rest, j.staged = true) →
    s.Besides i Thread.Idle → Shows st s ⟨some e, time, rest⟩

section Lines

variable {st : Settings σ} {s s' : State σ} {i k : ThreadId} {j : Job} {l : Line}
  {P : Thread → Prop} {t' : Thread} {spawned : List (List Job)}

theorem Job.Until.idle {clock time : Nat} (h : j.Until clock time) : j.idle = true := by
  cases h <;> rfl

/-! ### Steps that do not matter -/

/-- A pause is over when the clock is there. -/
theorem Job.Until.now {clock time : Nat} (h : Job.Until clock (.wake time) time)
    (hs : s.scope.clock = clock) (hready : (Job.wake time).blocked s = false) : clock = time := by
  cases h with
  | wake _ hle =>
    unfold Job.blocked at hready
    simp only [decide_eq_false_iff_not] at hready
    omega

/-- The first thread does what is due to a launch, waits, and goes on. -/
theorem idle_pausing {front : List Job} {pause : Job} {time : Nat} {rest : List Job}
    (h : Idled i j s s') (hrest : s.main = front ++ pause :: rest)
    (hfront : ∀ j ∈ front, j.chore = true) (huntil : pause.Until s.scope.clock time)
    (hstaged : ∀ j ∈ rest, j.staged = true) (hbes : s.Besides 0 Thread.Idle)
    (hlate : s.scope.clock = time → s.Besides 0 Thread.Done) : Shows st s' ⟨none, time, rest⟩ := by
  have hlate' : s'.scope.clock = time → s'.Besides 0 Thread.Done := fun heq =>
    h.done (hlate (h.clock ▸ heq))
  by_cases hi0 : i = 0
  · obtain ⟨js, new, hold, hnew, hl⟩ := h.first hi0
    rw [hold] at hrest
    cases front with
    | nil =>
      obtain ⟨rfl, rfl⟩ := List.cons.inj hrest
      cases huntil with
      | sleep ms hms =>
        rw [hl.sleep ms rfl] at hnew
        refine .pausing [] _ _ _ hnew (by simp) (.wake _ ?_) hstaged (h.idle 0 hbes) hlate'
        rw [h.clock]
        exact Nat.le_add_right _ _
      | wake _ hle =>
        rw [hl.wake time rfl] at hnew
        have hnow := Job.Until.now (.wake time hle) rfl h.ready
        exact .resting time js hnew hstaged (fun _ => h.clock.trans hnow) (h.done (hlate hnow))
    | cons x front =>
      obtain ⟨rfl, rfl⟩ := List.cons.inj hrest
      refine .pausing (new ++ front) pause time rest (hnew.trans (List.append_assoc _ _ _).symm)
        (fun y hy => ?_) (h.clock ▸ huntil) hstaged (h.idle 0 hbes) hlate'
      exact (List.mem_append.1 hy).elim (hl.chore (hfront j List.mem_cons_self) y) fun hy =>
        hfront y (List.mem_cons_of_mem j hy)
  · exact .pausing front pause time rest ((h.other hi0).trans hrest) hfront (h.clock ▸ huntil) hstaged
      (h.idle 0 hbes) hlate'

/-- While another thread carries a task the first one may begin to wait. -/
theorem idle_carrying {e pause : Job} {time : Nat} {rest : List Job} (hp : 0 < st.config.timings.settle)
    (h : Idled i j s s') (hj : j.idle = true) (hwhere : Carries s k e pause rest) (hbound : e.bound = true)
    (huntil : pause.Until s.scope.clock time) (hsettle : s.scope.clock + st.config.timings.settle = time)
    (hstaged : ∀ j ∈ rest, j.staged = true) (hbes : s.Besides k Thread.Idle) :
    Shows st s' ⟨some e, time, rest⟩ := by
  have hnot : j ≠ e := by
    rintro rfl
    rw [not_bound_of_idle hj] at hbound
    cases hbound
  rcases hwhere with ⟨rfl, hrest⟩ | ⟨hk, hrest, u, hu, hujobs, hucr⟩
  · have hi0 : i ≠ 0 := fun hi0 => by
      obtain ⟨js, new, hold, -⟩ := h.first hi0
      exact hnot (List.cons.inj (hold.symm.trans hrest)).1
    exact .carrying 0 e pause time rest (.inl ⟨rfl, (h.other hi0).trans hrest⟩) hbound (h.clock ▸ huntil)
      (h.clock ▸ hsettle) hstaged (h.idle 0 hbes)
  · have hu' : s'.threads[k]? = some u := h.elsewhere k u hu (by simpa [hujobs] using hnot.symm)
    by_cases hi0 : i = 0
    · obtain ⟨js, new, hold, hnew, hl⟩ := h.first hi0
      obtain ⟨rfl, rfl⟩ := List.cons.inj (hold.symm.trans hrest)
      cases huntil with
      | sleep ms hms =>
        rw [hl.sleep ms rfl] at hnew
        refine .carrying k e _ _ _ (.inr ⟨hk, hnew, u, hu', hujobs, hucr⟩) hbound (.wake _ ?_)
          (h.clock ▸ hsettle) hstaged (h.idle k hbes)
        rw [h.clock]
        exact Nat.le_add_right _ _
      | wake _ hle =>
        have hnow := Job.Until.now (.wake time hle) rfl h.ready
        omega
    · exact .carrying k e pause time rest (.inr ⟨hk, (h.other hi0).trans hrest, u, hu', hujobs, hucr⟩)
        hbound (h.clock ▸ huntil) (h.clock ▸ hsettle) hstaged (h.idle k hbes)

/-- Idle jobs do not change what is left of the run. -/
theorem Shows.idle (hp : 0 < st.config.timings.settle) (hc : st.collects = false)
    (hb : s.scope.broken = false) (h : Stepped st i j s s') (hj : j.idle = true) (hs : Shows st s l) :
    Shows st s' l := by
  have hidled := idled_of_stepped hc hb h hj
  cases hs with
  | resting time rest hrest hstaged htime hbes =>
    have hi0 : i ≠ 0 := fun hi0 => by
      obtain ⟨js, new, hold, -⟩ := hidled.first hi0
      have := hstaged j (by rw [← hrest, hold]; exact List.mem_cons_self)
      rw [not_staged_of_idle hj] at this
      cases this
    exact .resting time rest ((hidled.other hi0).trans hrest) hstaged (hidled.clock ▸ htime)
      (hidled.done hbes)
  | pausing front pause time rest hrest hfront huntil hstaged hbes hlate =>
    exact idle_pausing hidled hrest hfront huntil hstaged hbes hlate
  | carrying k e pause time rest hwhere hbound huntil hsettle hstaged hbes =>
    exact idle_carrying hp hidled hj hwhere hbound huntil hsettle hstaged hbes

/-- Neither does the clock. -/
theorem Shows.clock {time : Nat} (hu : Unsent s) (hn : ∀ i, s.enabled i = false)
    (hw : s.nextWake? = some time) (hs : Shows st s l) : Shows st (s.setClock time) l := by
  obtain ⟨hlt, hle⟩ := State.nextWake?_spec hn hw
  have hfirst : ∀ {j js}, s.main = j :: js → j.blocked s = true := by
    intro j js hmain
    have he := hn 0
    unfold State.enabled at he
    rw [next?_of_main hmain] at he
    simpa using he
  have hdone : s.Besides 0 Thread.Idle → s.Besides 0 Thread.Done := fun hbes k t h0 hk ht =>
    (hbes k t h0 hk ht).done hu hn (List.mem_of_getElem? ht)
  cases hs with
  | resting time rest hrest hstaged htime hbes =>
    refine .resting time rest hrest hstaged (fun hne => ?_) hbes
    obtain ⟨j, js, rfl⟩ := List.exists_cons_of_ne_nil hne
    have hblocked := hfirst hrest
    rw [not_blocked_of_staged (hstaged j List.mem_cons_self)] at hblocked
    cases hblocked
  | pausing front pause wake rest hrest hfront huntil hstaged hbes hlate =>
    cases front with
    | nil =>
      cases huntil with
      | sleep ms hms => cases hfirst hrest
      | wake _ _ =>
        obtain ⟨t, ht, hjobs⟩ : ∃ t, s.threads[0]? = some t ∧ t.jobs = .wake wake :: rest := by
          unfold State.main at hrest
          cases ht : s.threads[0]? with
          | none =>
            rw [ht] at hrest
            cases hrest
          | some t =>
            rw [ht] at hrest
            exact ⟨t, rfl, hrest⟩
        refine .pausing [] _ _ rest hrest (by simp) (.wake wake ?_) hstaged hbes fun _ => hdone hbes
        exact hle t (List.mem_of_getElem? ht) wake rest hjobs
    | cons x front =>
      have hblocked := hfirst hrest
      rw [not_blocked_of_chore hu (hfront x List.mem_cons_self)] at hblocked
      cases hblocked
  | carrying k e pause time rest hwhere hbound huntil hsettle hstaged hbes =>
    have hblocked : e.blocked s = true := by
      rcases hwhere with ⟨-, hrest⟩ | ⟨-, -, u, hu, hujobs, -⟩
      · exact hfirst hrest
      · exact State.blocked_of_not_enabled hn (List.mem_of_getElem? hu) hujobs
    rw [not_blocked_of_bound hbound] at hblocked
    cases hblocked

/-! ### Steps that matter -/

/-- A thread about to do a job that is not idle is the first one, which goes on, or carries the task. -/
theorem Shows.next (hs : Shows st s l) (hnext : s.next? i = some j) (hj : j.idle = false) :
    (∃ js, i = 0 ∧ s.main = j :: js ∧ (∀ x ∈ j :: js, x.staged = true) ∧ s.Besides 0 Thread.Done ∧
      l = ⟨none, s.scope.clock, j :: js⟩) ∨
    ∃ pause rest, Carries s i j pause rest ∧ j.bound = true ∧ pause.Until s.scope.clock (s.scope.clock + st.config.timings.settle) ∧
      (∀ x ∈ rest, x.staged = true) ∧ s.Besides i Thread.Idle ∧
      l = ⟨some j, s.scope.clock + st.config.timings.settle, rest⟩ := by
  have hnot : ∀ {k}, s.Besides k Thread.Idle → i ≠ 0 → i ≠ k → False := by
    intro k hbes h0 hk
    rw [hbes.next h0 hk hnext] at hj
    cases hj
  cases hs with
  | resting time rest hrest hstaged htime hbes =>
    by_cases hi0 : i = 0
    · subst hi0
      obtain ⟨js, hmain⟩ := main_of_next? hnext
      obtain rfl := hmain.symm.trans hrest
      obtain rfl := htime (List.cons_ne_nil j js)
      exact .inl ⟨js, rfl, hmain, hstaged, hbes, rfl⟩
    · exact (hnot (hbes.mono fun _ ht => ht.idle) hi0 hi0).elim
  | pausing front pause time rest hrest hfront huntil hstaged hbes hlate =>
    by_cases hi0 : i = 0
    · subst hi0
      obtain ⟨js, hmain⟩ := main_of_next? hnext
      cases front with
      | nil =>
        obtain ⟨rfl, -⟩ := List.cons.inj (hmain.symm.trans hrest)
        rw [huntil.idle] at hj
        cases hj
      | cons x front =>
        obtain ⟨rfl, -⟩ := List.cons.inj (hmain.symm.trans hrest)
        rw [idle_of_chore (hfront j List.mem_cons_self)] at hj
        cases hj
    · exact (hnot hbes hi0 hi0).elim
  | carrying k e pause time rest hwhere hbound huntil hsettle hstaged hbes =>
    subst hsettle
    by_cases hik : i = k
    · subst hik
      have hje : e = j := by
        rcases hwhere with ⟨rfl, hrest⟩ | ⟨-, -, t, ht, hjobs, -⟩
        · exact Option.some.inj ((next?_of_main hrest).symm.trans hnext)
        · unfold State.next? at hnext
          rw [ht, Option.bind_some, hjobs] at hnext
          exact Option.some.inj hnext
      subst hje
      exact .inr ⟨pause, rest, hwhere, hbound, huntil, hstaged, hbes, rfl⟩
    · by_cases hi0 : i = 0
      · subst hi0
        obtain ⟨js, hmain⟩ := main_of_next? hnext
        rcases hwhere with ⟨rfl, -⟩ | ⟨-, hrest, -⟩
        · exact absurd rfl hik
        · obtain ⟨rfl, -⟩ := List.cons.inj (hmain.symm.trans hrest)
          rw [huntil.idle] at hj
          cases hj
      · exact (hnot hbes hi0 hik).elim

/-- The run goes on, or is over because something was asked for that cannot be done. -/
theorem Shows.staged (h : Stepped st i j s s') (hj : j.staged = true) (hd : ∀ a, j ≠ .dispatch a)
    (hs : Shows st s l) : ∃ js, i = 0 ∧ s.main = j :: js ∧ l = ⟨none, s.scope.clock, j :: js⟩ ∧
      Shows st s' ⟨none, s.scope.clock, s'.main⟩ := by
  have hidle : j.idle = false := by
    cases hx : j.idle with
    | false => rfl
    | true =>
      rw [not_staged_of_idle hx] at hj
      cases hj
  rcases hs.next h.next? hidle with ⟨js, rfl, hmain, hstaged, hbes, rfl⟩ | ⟨_, _, -, hbound, -⟩
  · refine ⟨js, rfl, hmain, rfl, .resting _ _ rfl ?_ (fun _ => h.scope.1) ?_⟩
    · rcases main_step h with ⟨-, js', new, spawned, hmain', hy, -, hcases⟩ | ⟨h0, -⟩
      · obtain ⟨-, rfl⟩ := List.cons.inj (hmain.symm.trans hmain')
        rcases hcases with ⟨hnew, -⟩ | ⟨hnil, -⟩
        · rw [hnew]
          exact fun x hx => (List.mem_append.1 hx).elim ((staged_new hj hd hy).1 x) fun hx =>
            hstaged x (List.mem_cons_of_mem j hx)
        · rw [hnil]
          simp
      · exact absurd rfl h0
    · obtain ⟨t, js, t', new, spawned, ht, -, hy, hth, -⟩ := h.moves
      exact hbes.step (List.getElem?_eq_some_iff.1 ht).1 hth (fun h0 => absurd rfl h0) fun l hl =>
        ⟨rfl, (staged_new hj hd hy).2 l hl⟩
  · rw [not_bound_of_staged hj] at hbound
    cases hbound

/-- What becomes of a state when it is decided what becomes of a plain action. -/
def State.decided (st : Settings σ) (i : ThreadId) (a : Action) (r : Decision) (s : State σ) : State σ :=
  match r with
  | .skip => s
  | .crash => s.crash i
  | .launch task =>
    if s.scope.broken then s
    else if a.wait then s.push i [.control task a, .sleep st.config.timings.settle]
    else (s.spawn [.control task a]).push i [.sleep st.config.timings.settle]

theorem State.dispatch_eq (st : Settings σ) (i : ThreadId) (a : Action) (s : State σ) :
    s.dispatch st i a = State.decided st i a (st.decide a s.scope).1
      { s with scope := (st.decide a s.scope).2 } := by
  unfold dispatch within decided
  rcases st.decide a s.scope with ⟨_ | task | _, sc⟩ <;> rfl

/-- The line that comes of a decision on an action. -/
def Settings.lineOf (st : Settings σ) (a : Action) (time : Nat) (rest : List Job) :
    Decision × Scope σ → Line
  | (.skip, sc) => ⟨none, time, if sc.broken then [] else rest⟩
  | (.crash, _) => ⟨none, time, []⟩
  | (.launch task, sc) =>
    if sc.broken then ⟨none, time, []⟩
    else ⟨some (.control task a), time + st.config.timings.settle, rest⟩

theorem main_crash (s : State σ) : (s.crash 0).main = [] := by
  unfold State.main State.crash
  rw [List.getElem?_modify_eq]
  cases s.threads[0]? <;> rfl

/-- If something was asked for that cannot be done nothing is left of the run. -/
theorem shows_endBroken {time : Nat} {rest : List Job} (hmain : s.main = rest)
    (hstaged : ∀ x ∈ rest, x.staged = true) (hclock : s.scope.clock = time)
    (hbes : s.Besides 0 Thread.Done) :
    Shows st (s.endBroken 0) ⟨none, time, if s.scope.broken then [] else rest⟩ := by
  split_ifs with hb
  · rw [State.endBroken_of_broken hb]
    exact .resting _ _ (main_crash _) (by simp) (fun _ => hclock) (hbes.modify (.inl rfl) rfl)
  · rw [State.endBroken_of_unbroken (Bool.not_eq_true _ ▸ hb)]
    exact .resting _ _ hmain hstaged (fun _ => hclock) hbes

/-- A task is on its way, be it carried by the first thread or by another one. -/
theorem shows_carrying {a : Action} {task : Task} {t : Thread} {rest : List Job}
    (hp : 0 < st.config.timings.settle) (ha : a.brief = true) (ht : s.threads[0]? = some t)
    (hjobs : t.jobs = rest) (hrest : ∀ x ∈ rest, x.staged = true) (hbes : s.Besides 0 Thread.Done) :
    Shows st
      (if a.wait then s.push 0 [.control task a, .sleep st.config.timings.settle]
        else (s.spawn [.control task a]).push 0 [.sleep st.config.timings.settle])
      ⟨some (.control task a), s.scope.clock + st.config.timings.settle, rest⟩ := by
  have huntil : Job.Until s.scope.clock (.sleep st.config.timings.settle) _ := .sleep _ hp
  have hidle : s.Besides 0 Thread.Idle := hbes.mono fun _ h => h.idle
  split_ifs
  · exact .carrying 0 _ _ _ rest (.inl ⟨rfl, (main_push ht _).trans (by rw [hjobs]; rfl)⟩) ha huntil rfl
      hrest (hidle.modify (.inl rfl) rfl)
  · have hpos : 0 < s.threads.length := (List.getElem?_eq_some_iff.1 ht).1
    have ht' : (s.spawn [.control task a]).threads[0]? = some t :=
      (List.getElem?_append_left hpos).trans ht
    have hnew : (s.spawn [.control task a]).threads[s.threads.length]? =
        some ⟨[.control task a], 0, false⟩ := List.getElem?_concat_length
    refine .carrying s.threads.length _ _ _ rest (.inr ⟨Nat.ne_of_gt hpos, ?_, ?_⟩) ha huntil rfl hrest ?_
    · exact (main_push ht' _).trans (by rw [hjobs]; rfl)
    · refine ⟨⟨[.control task a], 0, false⟩, ?_, rfl, rfl⟩
      exact (List.getElem?_modify_ne _ _ (Nat.ne_of_lt hpos)).trans hnew
    · refine State.Besides.modify ?_ (.inl rfl) rfl
      intro n u h0 hn hu
      refine hidle n u h0 h0 ?_
      rcases Nat.lt_or_gt_of_ne hn with hlt | hgt
      · exact (List.getElem?_append_left hlt).symm.trans hu
      · have := (List.getElem?_eq_some_iff.1 hu).1
        rw [State.spawn, List.length_append, List.length_singleton] at this
        omega

/-- What a decision leaves of the run. -/
theorem shows_decided {a : Action} {t : Thread} (r : Decision) (hp : 0 < st.config.timings.settle)
    (ha : a.brief = true) (ht : s.threads[0]? = some t) (hrest : ∀ x ∈ t.jobs, x.staged = true)
    (hbes : s.Besides 0 Thread.Done) :
    Shows st ((s.decided st 0 a r).endBroken 0) (st.lineOf a s.scope.clock t.jobs (r, s.scope)) := by
  cases r with
  | skip => exact shows_endBroken (main_eq ht) hrest rfl hbes
  | crash =>
    have hbes' : (s.crash 0).Besides 0 Thread.Done := hbes.modify (.inl rfl) rfl
    have hline : Shows st ((s.crash 0).endBroken 0) _ := shows_endBroken (main_crash s) (by simp) rfl hbes'
    rwa [ite_self] at hline
  | launch task =>
    unfold State.decided Settings.lineOf
    simp only []
    by_cases hb : s.scope.broken = true
    · have hline : Shows st (s.endBroken 0) _ := shows_endBroken (main_eq ht) hrest rfl hbes
      rw [if_pos hb] at hline
      rw [if_pos hb, if_pos hb]
      exact hline
    · rw [if_neg hb, if_neg hb, State.endBroken_of_unbroken]
      · exact shows_carrying hp ha ht rfl hrest hbes
      · split_ifs <;> exact Bool.not_eq_true _ ▸ hb

theorem Shows.dispatch {a : Action} (hp : 0 < st.config.timings.settle) (ha : a.brief = true)
    (h : Stepped st i (.dispatch a) s s') (hs : Shows st s l) :
    ∃ js, i = 0 ∧ l = ⟨none, s.scope.clock, .dispatch a :: js⟩ ∧
      Shows st s' (st.lineOf a s.scope.clock js (st.decide a s.scope)) := by
  rcases hs.next h.next? rfl with ⟨js, rfl, hmain, hstaged, hbes, rfl⟩ | ⟨_, _, -, hbound, -⟩
  swap
  · cases hbound
  refine ⟨js, rfl, rfl, ?_⟩
  obtain ⟨t, js', -, -, -, ht, hjobs, -⟩ := h.moves
  obtain ⟨-, rfl⟩ := List.cons.inj (hmain.symm.trans ((main_eq ht).trans hjobs))
  have hpop := State.pop_getElem? ht
  rw [hjobs, List.tail_cons] at hpop
  have hline := shows_decided (s := { s.pop 0 with scope := (st.decide a s.scope).2 })
    (st.decide a s.scope).1 hp ha hpop (fun x hx => hstaged x (List.mem_cons_of_mem _ hx))
    (hbes.modify (.inl rfl) rfl)
  rw [show ({ s.pop 0 with scope := (st.decide a s.scope).2 } : State σ).scope.clock = s.scope.clock from
    (State.decide_grows st a s.scope).1] at hline
  rw [h.result]
  show Shows st (((s.pop 0).dispatch st 0 a).endBroken 0) _
  rw [State.dispatch_eq]
  exact hline

/-- A job that is done for a task leaves its thread, which carries it, with something else. -/
theorem Shows.control {task : Task} {a : Action} (hb : s.scope.broken = false)
    (h : Stepped st i (.control task a) s s') (hs : Shows st s l) :
    ∃ rest, l = ⟨some (.control task a), s.scope.clock + st.config.timings.settle, rest⟩ ∧
      Shows st s' ⟨some (.launch ⟨task, (s.aliasOf st a).1, a.repeats, a.until_⟩),
        s.scope.clock + st.config.timings.settle, rest⟩ := by
  rcases hs.next h.next? rfl with ⟨_, -, -, hstaged, -⟩ |
    ⟨pause, rest, hwhere, hbound, huntil, hrest, hbes, rfl⟩
  · cases hstaged _ List.mem_cons_self
  refine ⟨rest, rfl, ?_⟩
  obtain ⟨⟨hbefore, huntil_⟩, hrepeats⟩ :
      (a.before.isEmpty = true ∧ a.until_.isEmpty = true) ∧ a.repeats = 0 := by
    simpa [Job.bound, Action.brief] using hbound
  have hresult : s' = (s.pop i).control st i task a := h.of_steady rfl hb
  have hclock : s'.scope.clock = s.scope.clock := h.scope.1
  obtain ⟨u, hu⟩ : ∃ u : State σ, u = ((s.pop i).aliasOf st a).2 := ⟨_, rfl⟩
  have hthreads : u.threads = (s.pop i).threads := by
    rw [hu]
    unfold State.aliasOf
    split_ifs <;> rfl
  have hname : ((s.pop i).aliasOf st a).1 = (s.aliasOf st a).1 := by
    unfold State.aliasOf
    split_ifs <;> rfl
  have hs' : s' = u.push i [.launch ⟨task, (s.aliasOf st a).1, a.repeats, a.until_⟩] := by
    rw [hresult]
    unfold State.control
    simp only [hname, ← hu, if_pos hbefore, List.nil_append]
  obtain ⟨t, js, t', new, spawned, ht, hjobs, ⟨hspawned, -⟩, hth, -⟩ := h.moves
  have hself : s'.threads[i]? =
      some { t with jobs := .launch ⟨task, (s.aliasOf st a).1, a.repeats, a.until_⟩ :: js } := by
    have hpop := State.pop_getElem? ht
    rw [hjobs, List.tail_cons, ← hthreads] at hpop
    rw [hs']
    unfold State.push
    rw [List.getElem?_modify_eq, hpop]
    rfl
  refine .carrying i _ pause _ rest ?_ ?_ (hclock ▸ huntil) (by rw [hclock]) hrest ?_
  · rcases hwhere with ⟨rfl, hmain⟩ | ⟨h0, hmain, u, hu, hujobs, hcr⟩
    · obtain ⟨-, rfl⟩ := List.cons.inj (hmain.symm.trans ((main_eq ht).trans hjobs))
      exact .inl ⟨rfl, main_eq hself⟩
    · obtain rfl := Option.some.inj (hu.symm.trans ht)
      obtain ⟨-, rfl⟩ := List.cons.inj (hjobs.symm.trans hujobs)
      exact .inr ⟨h0, (main_other h h0).trans hmain, _, hself, rfl, hcr⟩
  · simp [Job.bound, huntil_, hrepeats]
  · exact hbes.step (List.getElem?_eq_some_iff.1 ht).1 hth (fun _ hk => absurd rfl hk) (by simp [hspawned])

/-- A launch is due, and what is left is the same whoever carried the task. -/
theorem Shows.launch {k : Ticket} (hp : 0 < st.config.timings.settle) (hprompt : st.env.Prompt)
    (h : Stepped st i (.launch k) s s')
    (hok : ((Job.launch k).perform st i (s.pop i)).scope.broken = false) (hs : Shows st s l) :
    ∃ rest, l = ⟨some (.launch k), s.scope.clock + st.config.timings.settle, rest⟩ ∧
      Shows st s' ⟨none, s.scope.clock + st.config.timings.settle, rest⟩ := by
  rcases hs.next h.next? rfl with ⟨_, -, -, hstaged, -⟩ |
    ⟨pause, rest, hwhere, hbound, huntil, hrest, hbes, rfl⟩
  · cases hstaged _ List.mem_cons_self
  refine ⟨rest, rfl, ?_⟩
  have hbrief : (Job.launch k).brief false = true := hbound
  have hclock : s'.scope.clock = s.scope.clock := h.scope.1
  have hresult : s' = (s.pop i).launch st i k := h.result.trans (State.endBroken_of_unbroken hok i)
  obtain ⟨t, js, t', new₀, spawned, ht, hjobs, hy, hth, -⟩ := h.moves
  have hi : i < s.threads.length := (List.getElem?_eq_some_iff.1 ht).1
  have hpop := State.pop_getElem? ht
  rw [hjobs, List.tail_cons] at hpop
  obtain ⟨u, new, hself, hunew, hcr, hnew⟩ := launch_jobs hprompt hbrief hpop
  rw [← hresult] at hself
  obtain rfl := Option.some.inj ((Stepped.getElem?_threads hth hi).1.symm.trans hself)
  have hchore : ∀ x ∈ new, x.chore = true := by
    rcases hnew with rfl | ⟨describe, fault, rfl⟩ <;> simp [Job.chore]
  have hspawned : ∀ l ∈ spawned, (Thread.ofJobs l).Idle := by
    rcases launch_spawned hprompt hbrief hy with rfl | ⟨c, rfl⟩
    · simp
    · simp [Thread.Idle, Thread.ofJobs, Idling, Job.chore]
  have hlate : s'.scope.clock = s.scope.clock + st.config.timings.settle → s'.Besides 0 Thread.Done :=
    fun heq => by omega
  rcases hwhere with ⟨rfl, hmain⟩ | ⟨h0, hmain, u, hu, hujobs, hucr⟩
  · obtain ⟨-, rfl⟩ := List.cons.inj (hmain.symm.trans ((main_eq ht).trans hjobs))
    exact .pausing new pause _ rest ((main_eq hself).trans hunew) hchore (hclock ▸ huntil) hrest
      (hbes.step hi hth (fun h0 => absurd rfl h0) hspawned) hlate
  · obtain rfl := Option.some.inj (ht.symm.trans hu)
    obtain ⟨-, rfl⟩ := List.cons.inj (hjobs.symm.trans hujobs)
    have hothers : s'.Besides i Thread.Idle := hbes.step hi hth (fun _ hk => absurd rfl hk) hspawned
    refine .pausing [] pause _ rest ((main_other h h0).trans hmain) (by simp) (hclock ▸ huntil) hrest
      (fun n v hn _ hv => ?_) hlate
    by_cases hni : n = i
    · subst hni
      obtain rfl := Option.some.inj (hv.symm.trans hself)
      exact ⟨hcr.trans hucr, .inl (by rw [hunew, List.append_nil]; exact hchore)⟩
    · exact hothers n v hn hni hv

end Lines

end Workload.Run
