import Workload.Proofs.Steps
import Workload.Provider.OnDemand
import Workload.Rehearsal
import Workload.Rehearsal.Faults

/-!
# Chronicles

What the scheduler makes of a state can come of it (`advance_reaches`).  It lets the clock go on only when no
thread can take a step, since it asks all of them (`not_enabled_of_nextEnabled?`).

The chronicle of a run lists what its threads did, job by job, with the states in which they did it.
Every run has one (`chronicle_of_reaches`), and that of a schedule can be computed (`State.chronicle`).
-/

namespace Workload.Run

variable {σ : Type}

/-! ## Schedules are runs -/

theorem Reaches.trans {st : Settings σ} {s s' s'' : State σ} (h : Reaches st s s')
    (h' : Reaches st s' s'') : Reaches st s s'' := by
  induction h' with
  | refl => exact h
  | step _ hstep ih => exact .step ih hstep

namespace State

theorem enabled_of_length_le {s : State σ} {i : ThreadId} (h : s.threads.length ≤ i) :
    s.enabled i = false := by
  unfold enabled next?
  rw [List.getElem?_eq_none h]
  rfl

/-- The threads that were asked are those from number `i` on, and after the last one those from the
first one on. -/
theorem not_enabled_of_asked {s : State σ} : ∀ (n i : Nat), i ≤ s.threads.length →
    s.nextEnabled? n i = none → ∀ k, i ≤ k ∧ k < i + n ∨ s.threads.length + k < i + n →
    s.enabled k = false
  | 0, i, _, _, k, hk => by omega
  | n + 1, i, hi, h, k, hk => by
    by_cases hlen : s.threads.length ≤ k
    · exact enabled_of_length_le hlen
    unfold nextEnabled? at h
    simp only [] at h
    by_cases hlt : i < s.threads.length
    · rw [if_pos hlt] at h
      split_ifs at h with he
      by_cases hik : k = i
      · rw [hik]
        exact Bool.not_eq_true _ ▸ he
      · exact not_enabled_of_asked n (i + 1) hlt h k (by omega)
    · rw [if_neg hlt] at h
      split_ifs at h with he
      by_cases hk0 : k = 0
      · rw [hk0]
        exact Bool.not_eq_true _ ▸ he
      · exact not_enabled_of_asked n (0 + 1) (by omega) h k (by omega)

/-- No thread can take a step if the scheduler finds none. -/
theorem not_enabled_of_nextEnabled? {s : State σ} {i : Nat}
    (h : s.nextEnabled? (s.threads.length + 1) i = none) (k : ThreadId) : s.enabled k = false := by
  by_cases hi : i ≤ s.threads.length
  · by_cases hlen : s.threads.length ≤ k
    · exact enabled_of_length_le hlen
    · exact not_enabled_of_asked _ i hi h k (by omega)
  · have hwrap : s.nextEnabled? (s.threads.length + 1) s.threads.length = none := by
      unfold nextEnabled? at h ⊢
      simp only [if_neg (show ¬i < s.threads.length by omega)] at h
      simp only [if_neg (Nat.lt_irrefl s.threads.length)]
      exact h
    by_cases hlen : s.threads.length ≤ k
    · exact enabled_of_length_le hlen
    · exact not_enabled_of_asked _ _ (Nat.le_refl _) hwrap k (by omega)

/-- Where the scheduler gets to, a run gets to. -/
theorem advance_reaches (st : Settings σ) (limit : Nat) (halt : State σ → Bool) :
    ∀ (fuel : Nat) (i : ThreadId) (s : State σ), Reaches st s (s.advance st limit halt fuel i)
  | 0, _, s => .refl s
  | fuel + 1, i, s => by
    unfold advance
    split_ifs
    · exact .refl s
    · split
      · split
        · rename_i k _ _ s' hs'
          exact (Reaches.step (.refl s) (.thread k hs')).trans
            (advance_reaches st limit halt fuel k s')
        · exact .refl s
      · rename_i hnone
        split
        · rename_i time htime
          split_ifs
          · exact (Reaches.step (.refl s) (.clock (not_enabled_of_nextEnabled? hnone) htime)).trans
              (advance_reaches st limit halt fuel 0 _)
          · exact .refl s
        · exact .refl s

end State

/-- The settings of a rehearsal whose calls fail as scripts say, on servers that are there on demand. -/
def rehearsed (config : RunConfig) : Settings (Faulty (World Rehearsal)) :=
  { env := (Rehearsal.environment (Provider.onDemand "") fun _ => none).faulty, config }

/-- The scope of such a rehearsal, with its scripts. -/
def rehearsalScope (containers : Rehearsal) (faults : Faults) : Scope (Faulty (World Rehearsal)) :=
  { world := { world := { containers }, faults } }

/-- What a schedule makes of a rehearsal in `steps` steps. -/
def rehearse (config : RunConfig) (containers : Rehearsal) (faults : Faults) (actions : List Action)
    (steps : Nat) : State (Faulty (World Rehearsal)) :=
  (start (rehearsed config) (rehearsalScope containers faults) actions {}).advance (rehearsed config)
    maxSteps (fun _ => false) steps 0

theorem rehearse_reaches (config : RunConfig) (containers : Rehearsal) (faults : Faults)
    (actions : List Action) (steps : Nat) :
    Reaches (rehearsed config) (start (rehearsed config) (rehearsalScope containers faults) actions {})
      (rehearse config containers faults actions steps) :=
  State.advance_reaches _ _ _ _ _ _

/-- Diagnostics are collected by a container with some time limit. -/
def diagnosticsFiles (limit : String) : Files :=
  ⟨[(["t.yml"], .text ("- name: collect\n  actions:\n  - image: busybox\n    command: probe\n" ++
    "    duration: " ++ limit ++ "\n"))]⟩

def diagnosticsConfig : RunConfig :=
  { skipSetup := true, skipTeardown := true, skipCleanup := true, collectOnError := true
    collect := some ⟨"t.yml", "collect"⟩, timings := ⟨13, 7, 11, 103⟩ }

/-- The start of a rehearsal with such diagnostics, and with the signals that its containers send. -/
def diagnose (config : RunConfig) (limit : String) (signals : List Signal) (actions : List Action) :
    State (Faulty (World Rehearsal)) :=
  start (rehearsed config)
    { world := { world := { containers := { signals }, files := diagnosticsFiles limit } } } actions {}

/-! ## What the threads of a run did -/

/-- A thread is about to do a job. -/
structure Moment (σ : Type) where
  before : State σ
  thread : ThreadId
  job : Job

/-- Whether the job asks for what cannot be done, so that its thread breaks off in the middle of it. -/
def Moment.breaks (st : Settings σ) (m : Moment σ) : Bool :=
  (m.job.perform st m.thread (m.before.pop m.thread)).scope.broken

/-- The state that a moment leads to. -/
def Moment.after (st : Settings σ) (m : Moment σ) : State σ :=
  (m.job.perform st m.thread (m.before.pop m.thread)).endBroken m.thread

/-- What can come of a state, and the moments on the way. -/
inductive Chronicle (st : Settings σ) (s₀ : State σ) : List (Moment σ) → State σ → Prop
  | refl : Chronicle st s₀ [] s₀
  | thread {c : List (Moment σ)} {s s' : State σ} {i : ThreadId} {j : Job} :
    Chronicle st s₀ c s → s.next? i = some j → s.step? st i = some s' →
    Chronicle st s₀ (c ++ [⟨s, i, j⟩]) s'
  | clock {c : List (Moment σ)} {s : State σ} {time : Nat} :
    Chronicle st s₀ c s → (∀ i, s.enabled i = false) → s.nextWake? = some time →
    Chronicle st s₀ c (s.setClock time)

section

variable {st : Settings σ} {s₀ s s' : State σ} {c : List (Moment σ)} {i : ThreadId} {j : Job}

theorem Chronicle.reaches (hc : Chronicle st s₀ c s) : Reaches st s₀ s := by
  induction hc with
  | refl => exact .refl s₀
  | thread _ _ hs ih => exact .step ih (.thread _ hs)
  | clock _ hn hw ih => exact .step ih (.clock hn hw)

theorem Chronicle.unbroken (hc : Chronicle st s₀ c s) (hb : s₀.scope.broken = false) :
    s.scope.broken = false :=
  (hc.reaches.invariant (P := fun _ => True) hb trivial (fun _ _ _ _ _ _ => trivial)
    fun _ _ _ _ _ => trivial).1

/-- Every run has a chronicle. -/
theorem chronicle_of_reaches (hr : Reaches st s₀ s) (hb : s₀.scope.broken = false) :
    ∃ c, Chronicle st s₀ c s := by
  induction hr with
  | refl => exact ⟨[], .refl⟩
  | step _ hstep ih =>
    obtain ⟨c, hc⟩ := ih
    cases hstep with
    | thread i hs =>
      obtain ⟨j, hj⟩ := State.step?_stepped (hc.unbroken hb) hs
      exact ⟨c ++ [⟨_, i, j⟩], .thread hc hj.next? hs⟩
    | clock hn hw => exact ⟨c, .clock hc hn hw⟩

/-- An invariant of a state with its chronicle, shown step by step. -/
theorem Chronicle.invariant {P : List (Moment σ) → State σ → Prop} (hc : Chronicle st s₀ c s)
    (hb : s₀.scope.broken = false) (h₀ : P [] s₀)
    (hthread : ∀ c i j s s', P c s → Stepped st i j s s' → s.scope.broken = false →
      P (c ++ [⟨s, i, j⟩]) s')
    (hclock : ∀ c s time, P c s → (∀ i, s.enabled i = false) → s.nextWake? = some time →
      P c (s.setClock time)) : P c s := by
  induction hc with
  | refl => exact h₀
  | thread hc hj hs ih =>
    have hb' := hc.unbroken hb
    exact hthread _ _ _ _ _ ih (stepped_of_next? hb' hj hs) hb'
  | clock _ hn hw ih => exact hclock _ _ _ ih hn hw

/-- Where a list with a new last element is split, this element is the one found or comes after it. -/
theorem concat_eq_append_cons {α : Type} {l l₁ l₂ : List α} {x a : α} (h : l ++ [x] = l₁ ++ a :: l₂) :
    l = l₁ ∧ x = a ∧ l₂ = [] ∨ ∃ l₃, l₂ = l₃ ++ [x] ∧ l = l₁ ++ a :: l₃ := by
  rcases List.eq_nil_or_concat l₂ with rfl | ⟨l₃, y, rfl⟩
  · obtain ⟨rfl, hx⟩ := List.append_inj' h rfl
    exact .inl ⟨rfl, List.singleton_inj.1 hx, rfl⟩
  · have h' : l ++ [x] = (l₁ ++ a :: l₃) ++ [y] := by
      rw [h]
      simp
    obtain ⟨rfl, hx⟩ := List.append_inj' h' rfl
    obtain rfl := List.singleton_inj.1 hx
    exact .inr ⟨l₃, List.concat_eq_append, rfl⟩

/-- The state before a moment is one that the run came to, and the job is the next one of its thread. -/
theorem Chronicle.before {c₁ c₂ : List (Moment σ)} {m : Moment σ}
    (hc : Chronicle st s₀ (c₁ ++ m :: c₂) s) :
    Chronicle st s₀ c₁ m.before ∧ m.before.next? m.thread = some m.job := by
  generalize heq : c₁ ++ m :: c₂ = c at hc
  induction hc generalizing c₂ with
  | refl => simp at heq
  | thread hc hj _ ih =>
    rcases concat_eq_append_cons heq.symm with ⟨rfl, rfl, -⟩ | ⟨c₃, -, heq'⟩
    · exact ⟨hc, hj⟩
    · exact ih heq'.symm
  | clock _ _ _ ih => exact ih heq

theorem Stepped.step? (h : Stepped st i j s s') : s.step? st i = some s' := by
  unfold State.step?
  rw [h.next?]
  simp only [h.ready, Bool.false_eq_true, if_false]
  rw [← h.result]

/-- Every moment of a run is a step. -/
theorem Chronicle.stepped {c₁ c₂ : List (Moment σ)} {m : Moment σ}
    (hc : Chronicle st s₀ (c₁ ++ m :: c₂) s) (hb : s₀.scope.broken = false) :
    Stepped st m.thread m.job m.before (m.after st) := by
  generalize heq : c₁ ++ m :: c₂ = c at hc
  induction hc generalizing c₂ with
  | refl => simp at heq
  | thread hc hj hs ih =>
    rcases concat_eq_append_cons heq.symm with ⟨rfl, rfl, -⟩ | ⟨c₃, -, heq'⟩
    · have h := stepped_of_next? (hc.unbroken hb) hj hs
      unfold Moment.after
      rw [← h.result]
      exact h
    · exact ih heq'.symm
  | clock _ _ _ ih => exact ih heq

end

/-! ## Threads that go on, and threads that break off -/

section

variable {st : Settings σ} {s s' : State σ} {i : ThreadId} {j : Job}

/-- A thread goes on after a job that asks for nothing that cannot be done, unless it is a dispatch. -/
theorem Stepped.goesOn (h : Stepped st i j s s')
    (hb : (j.perform st i (s.pop i)).scope.broken = false) (hd : ∀ a, j ≠ .dispatch a) :
    ∃ t js t' new spawned, s.threads[i]? = some t ∧ t.jobs = j :: js ∧ j.Yields st s s' new spawned ∧
      s'.threads = s.threads.set i t' ++ spawned.map Thread.ofJobs ∧ t'.jobs = new ++ js := by
  obtain ⟨t, js, -, -, -, ht, hj, -⟩ := h.moves
  obtain ⟨⟨new, spawned, hy, hm | ⟨⟨a, ha⟩, -⟩⟩, -⟩ := j.perform_effect st i (s.pop i)
  · have hpop := State.pop_getElem? ht
    rw [hj, List.tail_cons] at hpop
    obtain ⟨n, hn⟩ := hm.threads _ hpop
    rw [State.pop_threads ht, List.set_set] at hn
    have hy' := State.endBroken_yields hy
    rw [← h.result] at hy'
    have hs' : s' = j.perform st i (s.pop i) := by
      rw [h.result]
      exact State.endBroken_of_unbroken hb i
    rw [hs'] at hy' ⊢
    exact ⟨t, js, _, new, spawned, ht, hj, hy', hn, rfl⟩
  · exact absurd ha (hd a)

/-- A thread that breaks off has nothing left to do. -/
theorem Stepped.breaksOff (h : Stepped st i j s s')
    (hb : (j.perform st i (s.pop i)).scope.broken = true) :
    ∀ u, s'.threads[i]? = some u → u.jobs = [] ∧ u.crashed = true := by
  intro u hu
  rw [h.result, State.endBroken_of_broken hb] at hu
  unfold State.crash at hu
  rw [List.getElem?_modify_eq] at hu
  obtain ⟨v, -, rfl⟩ := Option.map_eq_some_iff.1 hu
  exact ⟨rfl, rfl⟩

end

/-! ## Chronicles of schedules -/

theorem Chronicle.trans {st : Settings σ} {s s' s'' : State σ} {c c' : List (Moment σ)}
    (h : Chronicle st s c s') (h' : Chronicle st s' c' s'') : Chronicle st s (c ++ c') s'' := by
  induction h' with
  | refl => rwa [List.append_nil]
  | thread _ hj hs ih =>
    rw [← List.append_assoc]
    exact .thread ih hj hs
  | clock _ hn hw ih => exact .clock ih hn hw

/-- What the scheduler does from thread `i` on, until `halt` holds, no thread can go on or `fuel` steps are
taken; and the state that comes of it. -/
def State.chronicle (st : Settings σ) (halt : State σ → Bool) :
    (fuel : Nat) → ThreadId → State σ → List (Moment σ) × State σ
  | 0, _, s => ([], s)
  | fuel + 1, i, s =>
    if halt s then ([], s)
    else
      match s.nextEnabled? (s.threads.length + 1) i with
      | some i =>
        match s.next? i, s.step? st i with
        | some j, some s' => ((chronicle st halt fuel i s').map (⟨s, i, j⟩ :: ·) id)
        | _, _ => ([], s)
      | none =>
        match s.nextWake? with
        | some time => chronicle st halt fuel 0 (s.setClock time)
        | none => ([], s)

theorem State.chronicle_spec (st : Settings σ) (halt : State σ → Bool) :
    ∀ (fuel : Nat) (i : ThreadId) (s : State σ),
      Chronicle st s (s.chronicle st halt fuel i).1 (s.chronicle st halt fuel i).2
  | 0, _, _ => .refl
  | fuel + 1, i, s => by
    unfold chronicle
    split_ifs
    · exact .refl
    · split
      · split
        · rename_i k _ _ _ j s' hj hs
          exact (Chronicle.thread .refl hj hs).trans (chronicle_spec st halt fuel k s')
        · exact .refl
      · rename_i hnone
        split
        · rename_i time htime
          exact (Chronicle.clock .refl (not_enabled_of_nextEnabled? hnone) htime).trans
            (chronicle_spec st halt fuel 0 _)
        · exact .refl

/-!
## What a thread does on its own

Between two moments of a thread its jobs stay as they are, whatever the other threads do
(`Chronicle.first_moment`), and a thread that has nothing left to do stays so (`Chronicle.ended`).  So what a
thread does until it is back at the jobs behind its next one (`Returns`) is read off moment by moment
(`Returns.next`).
-/

section

variable {st : Settings σ} {i : ThreadId} {b s : State σ} {c : List (Moment σ)}

/-- A thread has the given jobs left. -/
def State.At (s : State σ) (i : ThreadId) (jobs : List Job) : Prop :=
  ∃ t, s.threads[i]? = some t ∧ t.jobs = jobs

/-- What comes after a moment goes on from the state that the moment leads to. -/
theorem Chronicle.after {c₁ c₂ : List (Moment σ)} {m : Moment σ} (hc : Chronicle st b (c₁ ++ m :: c₂) s)
    (hb : b.scope.broken = false) : Chronicle st (m.after st) c₂ s := by
  generalize heq : c₁ ++ m :: c₂ = c at hc
  induction hc generalizing c₂ with
  | refl => simp at heq
  | thread hc hj hs ih =>
    rcases concat_eq_append_cons heq.symm with ⟨rfl, rfl, rfl⟩ | ⟨c₃, rfl, heq'⟩
    · have hresult := (stepped_of_next? (hc.unbroken hb) hj hs).result
      exact hresult ▸ .refl
    · exact .thread (ih heq'.symm) hj hs
  | clock _ hn hw ih => exact .clock (ih heq) hn hw

/-- No thread is ever forgotten. -/
theorem Chronicle.threads_le (hc : Chronicle st b c s) (hb : b.scope.broken = false) :
    b.threads.length ≤ s.threads.length := by
  refine hc.invariant (P := fun _ s => b.threads.length ≤ s.threads.length) hb (Nat.le_refl _) ?_
    fun _ _ _ hs _ _ => hs
  rintro - k j s s' hs hstep -
  obtain ⟨t, js, t', new, spawned, ht, -, -, hth, -⟩ := hstep.moves
  exact hs.trans (Stepped.getElem?_threads hth (List.getElem?_eq_some_iff.1 ht).1).2.1

/-- The threads that do something are there. -/
theorem Chronicle.thread_lt (hc : Chronicle st b c s) (hb : b.scope.broken = false) {m : Moment σ}
    (hm : m ∈ c) : m.thread < s.threads.length := by
  obtain ⟨c₁, c₂, rfl⟩ := List.append_of_mem hm
  have hstep := hc.stepped hb
  obtain ⟨t, js, t', new, spawned, ht, -, -, hth, -⟩ := hstep.moves
  have hlen : m.thread < m.before.threads.length := (List.getElem?_eq_some_iff.1 ht).1
  exact hlen.trans_le ((Stepped.getElem?_threads hth hlen).2.1.trans
    ((hc.after hb).threads_le hstep.unbroken))

/-- Until a thread does something it stays as it is. -/
theorem Chronicle.first_moment (hc : Chronicle st b c s) (hb : b.scope.broken = false) {t : Thread}
    (ht : b.threads[i]? = some t) :
    (s.threads[i]? = some t ∧ ∀ m ∈ c, m.thread ≠ i) ∨
      ∃ c₁ m c₂, c = c₁ ++ m :: c₂ ∧ (∀ m' ∈ c₁, m'.thread ≠ i) ∧ m.thread = i ∧
        m.before.threads[i]? = some t := by
  refine hc.invariant (P := fun c s => (s.threads[i]? = some t ∧ ∀ m ∈ c, m.thread ≠ i) ∨
    ∃ c₁ m c₂, c = c₁ ++ m :: c₂ ∧ (∀ m' ∈ c₁, m'.thread ≠ i) ∧ m.thread = i ∧
      m.before.threads[i]? = some t) hb (.inl ⟨ht, fun m hm => nomatch hm⟩) ?_ fun _ _ _ hs _ _ => hs
  rintro c k j s s' (⟨hs, hquiet⟩ | ⟨c₁, m, c₂, rfl, hquiet, hm, hbefore⟩) hstep -
  · by_cases hk : k = i
    · subst hk
      exact .inr ⟨c, ⟨s, k, j⟩, [], rfl, hquiet, rfl, hs⟩
    · obtain ⟨t', js, u, new, spawned, -, -, -, hth, -⟩ := hstep.moves
      refine .inl ⟨Stepped.getElem?_other hth hk hs, fun m hm => ?_⟩
      rcases List.mem_append.1 hm with hm | hm
      · exact hquiet m hm
      · obtain rfl := List.mem_singleton.1 hm
        exact hk
  · exact .inr ⟨c₁, m, c₂ ++ [⟨s, k, j⟩], by simp, hquiet, hm, hbefore⟩

/-- A thread that has nothing left to do stays as it is. -/
theorem Chronicle.ended (hc : Chronicle st b c s) (hb : b.scope.broken = false) {t : Thread}
    (ht : b.threads[i]? = some t) (hj : t.jobs = []) :
    s.threads[i]? = some t ∧ ∀ m ∈ c, m.thread ≠ i := by
  refine (hc.first_moment hb ht).resolve_right ?_
  rintro ⟨c₁, m, c₂, rfl, -, rfl, hbefore⟩
  have hnext := hc.before.2
  unfold State.next? at hnext
  rw [hbefore, Option.bind_some, hj] at hnext
  cases hnext

/-- A thread that has ended has still ended at any later moment. -/
theorem Chronicle.finished_before (hc : Chronicle st b c s) (hb : b.scope.broken = false) (hi : b.At i [])
    {m : Moment σ} (hm : m ∈ c) : m.before.finished i = true := by
  obtain ⟨t, ht, hj⟩ := hi
  obtain ⟨c₁, c₂, rfl⟩ := List.append_of_mem hm
  unfold State.finished
  rw [(hc.before.1.ended hb ht hj).1]
  simp [Thread.finished, hj]

/-! ### The next moment of a thread -/

/-- At a moment a thread does its next job and goes on to what is left of its jobs. -/
structure Moment.Does (st : Settings σ) (i : ThreadId) (j : Job) (rest : List Job) (m : Moment σ) : Prop where
  thread : m.thread = i
  job : m.job = j
  at_ : m.before.At i (j :: rest)
  unbroken : m.before.scope.broken = false
  stepped : Stepped st i j m.before (m.after st)
  goesOn : (j.perform st i (m.before.pop i)).scope.broken = false

namespace Moment.Does

variable {m : Moment σ} {j : Job} {rest : List Job}

theorem after_eq (h : m.Does st i j rest) : m.after st = j.perform st i (m.before.pop i) := by
  obtain ⟨rfl, rfl, -, -, -, hb⟩ := h
  exact State.endBroken_of_unbroken hb m.thread

theorem chronicle (h : m.Does st i j rest) : Chronicle st m.before [m] (m.after st) := by
  obtain ⟨rfl, rfl, -, -, hstep, -⟩ := h
  exact .thread .refl hstep.next? hstep.step?

/-- Before a job is done it has been taken off the thread. -/
theorem popped (h : m.Does st i j rest) : (m.before.pop i).At i rest := by
  obtain ⟨t, ht, hj⟩ := h.at_
  exact ⟨_, State.pop_getElem? ht, by rw [hj, List.tail_cons]⟩

/-- The thread goes on with what the job leaves it, and the threads that the job starts are behind those
there are. -/
theorem yields (h : m.Does st i j rest) (hd : ∀ a, j ≠ .dispatch a) :
    ∃ new spawned, j.Yields st m.before (m.after st) new spawned ∧ (m.after st).At i (new ++ rest) ∧
      ∃ t', (m.after st).threads = m.before.threads.set i t' ++ spawned.map Thread.ofJobs := by
  obtain ⟨t, js, t', new, spawned, ht, hj, hy, hth, ht'⟩ := h.stepped.goesOn h.goesOn hd
  obtain ⟨u, hu, hrest⟩ := h.at_
  obtain rfl := Option.some.inj (ht.symm.trans hu)
  obtain rfl := (List.cons.inj (hj.symm.trans hrest)).2
  exact ⟨new, spawned, hy, ⟨t', (Stepped.getElem?_threads hth (List.getElem?_eq_some_iff.1 ht).1).1, ht'⟩,
    t', hth⟩

end Moment.Does

/-- From `b` to `s`, what thread `i` did, up to where it is back at the jobs `js`. -/
structure Returns (st : Settings σ) (i : ThreadId) (js : List Job) (b : State σ) (c : List (Moment σ))
    (s : State σ) : Prop where
  chronicle : Chronicle st b c s
  unbroken : b.scope.broken = false
  within : ∀ m ∈ c, m.thread = i → ¬m.before.At i js
  ends : ∃ u, s.threads[i]? = some u ∧ u.jobs = js ∧ u.crashed = false

namespace Returns

variable {js : List Job}

/-- A thread that is back has done nothing more. -/
theorem back (h : Returns st i js b c s) (hb : b.At i js) : ∀ m ∈ c, m.thread ≠ i := by
  obtain ⟨t, ht, hj⟩ := hb
  rcases h.chronicle.first_moment h.unbroken ht with ⟨-, hquiet⟩ | ⟨c₁, m, c₂, rfl, -, hm, hbefore⟩
  · exact hquiet
  · exact absurd ⟨t, hbefore, hj⟩ (h.within m (by simp) hm)

/-- As long as it is not back a thread does its next job, and that is nothing that breaks it off. -/
theorem next {j : Job} {rest : List Job} (h : Returns st i js b c s) (hb : b.At i (j :: rest))
    (hne : j :: rest ≠ js) :
    ∃ c₁ m c₂, c = c₁ ++ m :: c₂ ∧ (∀ m' ∈ c₁, m'.thread ≠ i) ∧ m.Does st i j rest ∧
      Returns st i js (m.after st) c₂ s := by
  obtain ⟨t, ht, hj⟩ := hb
  obtain ⟨u, hu, hujobs, hcrashed⟩ := h.ends
  rcases h.chronicle.first_moment h.unbroken ht with ⟨hs, -⟩ | ⟨c₁, m, c₂, rfl, hquiet, hm, hbefore⟩
  · obtain rfl := Option.some.inj (hs.symm.trans hu)
    exact absurd (hj.symm.trans hujobs) hne
  have hrest := h.chronicle.after h.unbroken
  have hjob : m.job = j := by
    have hnext := h.chronicle.before.2
    unfold State.next? at hnext
    rw [hm, hbefore, Option.bind_some, hj] at hnext
    exact (Option.some.inj hnext).symm
  have hstepped := h.chronicle.stepped h.unbroken
  have hunbroken := hstepped.unbroken
  rw [hm, hjob] at hstepped
  have hperform : (j.perform st i (m.before.pop i)).scope.broken = false := by
    by_contra hbroken
    rw [Bool.not_eq_false] at hbroken
    obtain ⟨t', js', v, new, spawned, ht', -, -, hth, -⟩ := hstepped.moves
    have hv := (Stepped.getElem?_threads hth (List.getElem?_eq_some_iff.1 ht').1).1
    obtain ⟨hnil, hcrash⟩ := hstepped.breaksOff hbroken v hv
    obtain rfl := Option.some.inj ((hrest.ended hunbroken hv hnil).1.symm.trans hu)
    rw [hcrashed] at hcrash
    cases hcrash
  refine ⟨c₁, m, c₂, rfl, hquiet, ⟨hm, hjob, ⟨t, hbefore, hj⟩, h.chronicle.before.1.unbroken h.unbroken,
    hstepped, hperform⟩, hrest, hunbroken, fun m' hm' => h.within m' (by simp [hm']), u, hu, hujobs, hcrashed⟩

end Returns

end

end Workload.Run
