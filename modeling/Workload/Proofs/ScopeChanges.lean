import Workload.Proofs.Chronicles
import Workload.Proofs.Course

/-!
# Changes of the scope

A change of the scope whose topology could be loaded leaves the old topology, provides the new one and
enters it, and nothing else of its thread comes in between (`Shifts`).  `changes_of_chronicle` accounts
for all the changes of a run: each has left the old topology or is about to, and has entered the new one
unless it is on the way or its thread has broken off.
-/

namespace Workload.Run

variable {σ : Type}

namespace Job

def isLeave : Job → Bool
  | .leaveScope _ => true
  | _ => false

def isEnter : Job → Bool
  | .enterScope => true
  | _ => false

/-- Whether a job is one of those of which a change of the scope is made up. -/
def shifts : Job → Bool
  | .leaveScope _ | .provideScope _ | .enterScope => true
  | _ => false

end Job

namespace Moment

/-- Whether a topology document is loaded. -/
def loads (st : Settings σ) (m : Moment σ) : Bool :=
  match m.job with
  | .walk _ _ (a :: _) =>
    match a.directive with
    | .scope spec =>
      let (path, s) := m.before.scopePath st spec
      !s.scope.broken && ((s.scope.files st.env).readTopology path).toBool
    | _ => false
  | _ => false

/-- Whether a change of the scope comes to nothing before the new topology is entered. -/
def strands (st : Settings σ) (m : Moment σ) : Bool :=
  m.breaks st && m.job.shifts && !m.job.isEnter

end Moment

/-- The jobs of a change of the scope stand together in front of all others. -/
inductive Shifts : List Job → Prop
  | leave (target : Topology) (js : List Job) : (∀ x ∈ js, x.shifts = false) →
    Shifts (.leaveScope target :: .provideScope target :: .enterScope :: js)
  | provide (target : Topology) (js : List Job) : (∀ x ∈ js, x.shifts = false) →
    Shifts (.provideScope target :: .enterScope :: js)
  | enter (js : List Job) : (∀ x ∈ js, x.shifts = false) → Shifts (.enterScope :: js)
  | other (js : List Job) : (∀ x ∈ js, x.shifts = false) → Shifts js

section Stacks

variable {st : Settings σ} {s s' : State σ} {i : ThreadId} {j : Job} {new js : List Job}
  {spawned : List (List Job)}

/-- The directive that changes the scope. -/
def changesScope : Job → Bool
  | .walk _ _ (a :: _) =>
    match a.directive with
    | .scope _ => true
    | _ => false
  | _ => false

theorem shifts_unfolds {pass : Nat} {a : Action} {front : List Job} (h : Unfolds st s pass a front)
    (hd : ∀ spec, a.directive ≠ .scope spec) : ∀ x ∈ front, x.shifts = false := by
  unfold Unfolds at h
  split at h
  · rename_i spec hspec
    exact absurd hspec (hd spec)
  · rcases h with rfl | ⟨inner, rfl⟩ <;> simp [Job.shifts, Invocation.job]
  · rcases h with rfl | ⟨inner, rfl⟩ <;> simp [Job.shifts]
  · rcases h with rfl | ⟨inner, rfl⟩ <;> simp [Job.shifts]
  · rw [h]
    simp

/-- Only a change of the scope leaves jobs of one. -/
theorem shifts_new (hy : j.Yields st s s' new spawned) (hc : changesScope j = false) :
    ∀ x ∈ new, x.shifts = false := by
  by_cases hw : ∃ pass last rest, j = .walk pass last rest
  · obtain ⟨pass, last, rest, rfl⟩ := hw
    cases rest with
    | nil =>
      rw [hy.1]
      simp
    | cons a rest =>
      obtain ⟨-, hy⟩ := hy
      split_ifs at hy
      · rw [hy]
        simp [Job.shifts]
      · obtain ⟨front, hu, rfl⟩ := hy
        have hd : ∀ spec, a.directive ≠ .scope spec := by
          intro spec hspec
          unfold changesScope at hc
          simp only [hspec] at hc
          cases hc
        intro x hx
        rcases List.mem_append.1 hx with hx | hx
        · exact shifts_unfolds hu hd x hx
        · obtain rfl := List.mem_singleton.1 hx
          rfl
  · intro x hx
    cases hy.leaves x hx with
    | leaveScope | provideScope | enterScope => exact absurd ⟨_, _, _, rfl⟩ hw
    | _ => rfl

theorem changesScope_cases (hc : changesScope j = true) :
    ∃ pass last a rest spec, j = .walk pass last (a :: rest) ∧ a.directive = .scope spec := by
  unfold changesScope at hc
  split at hc
  · split at hc
    · rename_i spec hspec
      exact ⟨_, _, _, _, spec, rfl, hspec⟩
    · cases hc
  · cases hc

/-- A change of the scope leaves its jobs in front, or none. -/
theorem scope_new (hy : j.Yields st s s' new spawned) (hc : changesScope j = true) :
    ∃ front tail, new = front ++ tail ∧ (∀ x ∈ tail, x.shifts = false) ∧
      (front = [] ∨ ∃ t, front = [.leaveScope t, .provideScope t, .enterScope]) := by
  obtain ⟨pass, last, a, rest, spec, rfl, hspec⟩ := changesScope_cases hc
  obtain ⟨-, hy⟩ := hy
  rw [if_neg (by rw [hspec]; nofun)] at hy
  obtain ⟨front, hu, rfl⟩ := hy
  unfold Unfolds at hu
  simp only [hspec] at hu
  exact ⟨front, _, rfl, by simp [Job.shifts], hu⟩

theorem shifts_spawned (hy : j.Yields st s s' new spawned) :
    ∀ l ∈ spawned, ∀ x ∈ l, x.shifts = false := by
  intro l hl x hx
  cases hy.starts l hl x hx with
  | _ => rfl

theorem shifts_append (hy : j.Yields st s s' new spawned) (hs : Shifts (j :: js)) :
    Shifts (new ++ js) := by
  cases hs with
  | leave target js hjs =>
    rw [hy.1]
    exact .provide target js hjs
  | provide target js hjs =>
    rw [hy.1]
    exact .enter js hjs
  | enter js hjs =>
    rw [hy.1]
    exact .other js hjs
  | other _ hjs =>
    have hrest : ∀ x ∈ js, x.shifts = false := fun x hx => hjs x (List.mem_cons_of_mem j hx)
    have happend : ∀ l : List Job, (∀ x ∈ l, x.shifts = false) → ∀ x ∈ l ++ js, x.shifts = false :=
      fun l hl x hx => (List.mem_append.1 hx).elim (hl x) (hrest x)
    cases hc : changesScope j with
    | false => exact .other _ (happend new (shifts_new hy hc))
    | true =>
      obtain ⟨front, tail, rfl, htail, rfl | ⟨target, rfl⟩⟩ := scope_new hy hc
      · exact .other _ (happend tail htail)
      · exact .leave target (tail ++ js) (happend tail htail)

theorem shifts_step (h : Stepped st i j s s') (hs : s.Stacks Shifts) : s'.Stacks Shifts :=
  h.forall_stacks hs (.other [] (by simp)) fun _ _ _ _ hjs hy =>
    ⟨shifts_append hy hjs, fun l hl => .other l (shifts_spawned hy l hl)⟩

end Stacks

/-! ## Accounts -/

/-- A kind of jobs of which every change of the scope has one. -/
structure OncePerChange (p : Job → Bool) : Prop where
  once : ∀ t, [Job.leaveScope t, .provideScope t, .enterScope].countP p = 1
  others : ∀ x : Job, x.shifts = false → p x = false

theorem oncePerChange_isLeave : OncePerChange Job.isLeave :=
  ⟨fun _ => rfl, fun x hx => by cases x <;> first | rfl | cases hx⟩

theorem oncePerChange_isEnter : OncePerChange Job.isEnter :=
  ⟨fun _ => rfl, fun x hx => by cases x <;> first | rfl | cases hx⟩

section Accounts

variable {st : Settings σ} {s s' : State σ} {i : ThreadId} {j : Job} {new js : List Job}
  {spawned : List (List Job)} {p : Job → Bool}

theorem OncePerChange.countP_eq_zero (hp : OncePerChange p) {l : List Job}
    (hl : ∀ x ∈ l, x.shifts = false) : l.countP p = 0 :=
  List.countP_eq_zero.2 fun x hx => by simp [hp.others x (hl x hx)]

/-- The jobs of any kind after a step in which the thread goes on. -/
theorem pending_goesOn (h : Stepped st i j s s')
    (hb : (j.perform st i (s.pop i)).scope.broken = false) (hd : ∀ a, j ≠ .dispatch a) :
    ∃ t js u new spawned, s.threads[i]? = some t ∧ t.jobs = j :: js ∧ s'.threads[i]? = some u ∧
      u.jobs = new ++ js ∧ j.Yields st s s' new spawned ∧
      ∀ p, s'.pending p + [j].countP p =
        s.pending p + new.countP p + (spawned.map fun l => l.countP p).sum := by
  obtain ⟨t, js, t', new, spawned, ht, hj, hy, hth, hjobs⟩ := h.goesOn hb hd
  have hi : i < s.threads.length := (List.getElem?_eq_some_iff.1 ht).1
  refine ⟨t, js, t', new, spawned, ht, hj, (Stepped.getElem?_threads hth hi).1, hjobs, hy, fun p => ?_⟩
  have hset := State.sum_map_set (fun t => t.jobs.countP p) t' ht
  have hsum : s'.pending p = ((s.threads.set i t').map fun t => t.jobs.countP p).sum +
      (spawned.map fun l => l.countP p).sum := by
    unfold State.pending
    rw [hth, List.map_append, List.sum_append, List.map_map]
    rfl
  rw [hj, hjobs, List.countP_append, ← List.singleton_append, List.countP_append] at hset
  unfold State.pending at *
  omega

/-- The jobs of any kind after a step in which the thread breaks off. -/
theorem pending_breaksOff (h : Stepped st i j s s')
    (hb : (j.perform st i (s.pop i)).scope.broken = true) :
    ∃ t js new spawned, s.threads[i]? = some t ∧ t.jobs = j :: js ∧ j.Yields st s s' new spawned ∧
      ∀ p, s'.pending p + (j :: js).countP p =
        s.pending p + (spawned.map fun l => l.countP p).sum := by
  obtain ⟨t, js, t', new, spawned, ht, hj, hy, hth, -⟩ := h.moves
  have hi : i < s.threads.length := (List.getElem?_eq_some_iff.1 ht).1
  have hjobs := (h.breaksOff hb t' (Stepped.getElem?_threads hth hi).1).1
  refine ⟨t, js, new, spawned, ht, hj, hy, fun p => ?_⟩
  have hset := State.sum_map_set (fun t => t.jobs.countP p) t' ht
  have hsum : s'.pending p = ((s.threads.set i t').map fun t => t.jobs.countP p).sum +
      (spawned.map fun l => l.countP p).sum := by
    unfold State.pending
    rw [hth, List.map_append, List.sum_append, List.map_map]
    rfl
  rw [hj, hjobs, List.countP_nil] at hset
  unfold State.pending at *
  omega

/-! ### Loads -/

theorem scopePath_congr (st : Settings σ) {s s₀ : State σ} (h : s.scope = s₀.scope) (spec : String) :
    (s.scopePath st spec).1 = (s₀.scopePath st spec).1 ∧
      (s.scopePath st spec).2.scope = (s₀.scopePath st spec).2.scope ∧
      (s.scopePath st spec).2.threads = s.threads := by
  unfold State.scopePath State.within
  rw [h]
  rcases s₀.scope.evaluate st.env spec with ⟨_ | path, sc⟩ <;> exact ⟨rfl, rfl, rfl⟩

theorem changeScope_spec (st : Settings σ) (s : State σ) (i : ThreadId) (spec : String) :
    (s.changeScope st i spec).scope.broken = (s.scopePath st spec).2.scope.broken ∧
      ∃ front, (s.changeScope st i spec).threads = (s.push i front).threads ∧
        if (((s.scopePath st spec).2.scope.files st.env).readTopology
            (s.scopePath st spec).1).toBool then
          ∃ t, front = [.leaveScope t, .provideScope t, .enterScope]
        else front = [] := by
  have hth := (scopePath_congr st (s := s) rfl spec).2.2
  unfold State.changeScope
  rcases hp : s.scopePath st spec with ⟨path, s₁⟩
  rw [hp] at hth
  simp only []
  rcases hr : (s₁.scope.files st.env).readTopology path with e | target
  · refine ⟨State.note_broken _ _, [], ?_, ?_⟩
    · rw [State.push_nil]
      exact hth
    · simp [Except.toBool]
  · refine ⟨rfl, [.leaveScope target, .provideScope target, .enterScope], ?_, ?_⟩
    · unfold State.push
      simp only []
      rw [show s₁.threads = s.threads from hth]
    · simp [Except.toBool]

theorem loads_of_not_changesScope (hc : changesScope j = false) :
    (⟨s, i, j⟩ : Moment σ).loads st = false := by
  unfold Moment.loads
  split
  · rename_i a rest hj
    obtain rfl : j = _ := hj
    unfold changesScope at hc
    simp only [] at hc
    split at hc
    · cases hc
    · rfl
  · rfl

theorem loads_eq {pass : Nat} {last : Option Action} {a : Action} {rest : List Action} {spec : String}
    (hspec : a.directive = .scope spec) :
    (⟨s, i, .walk pass last (a :: rest)⟩ : Moment σ).loads st =
      (!(s.scopePath st spec).2.scope.broken &&
        (((s.scopePath st spec).2.scope.files st.env).readTopology
          (s.scopePath st spec).1).toBool) := by
  unfold Moment.loads
  simp only [hspec]

/-- A change of the scope leaves its jobs just if it loads its topology. -/
theorem perform_changesScope {pass : Nat} {last : Option Action} {a : Action} {rest : List Action}
    {spec : String} (hspec : a.directive = .scope spec)
    (hb : ((Job.walk pass last (a :: rest)).perform st i (s.pop i)).scope.broken = false) :
    ∃ front,
      ((Job.walk pass last (a :: rest)).perform st i (s.pop i)).threads =
        (((s.pop i).push i [.walk pass last rest]).push i front).threads ∧
      if (⟨s, i, .walk pass last (a :: rest)⟩ : Moment σ).loads st then
        ∃ t, front = [.leaveScope t, .provideScope t, .enterScope]
      else front = [] := by
  have hperform : (Job.walk pass last (a :: rest)).perform st i (s.pop i) =
      ((s.pop i).push i [.walk pass last rest]).changeScope st i spec := by
    show (s.pop i).walk st i pass last (a :: rest) = _
    unfold State.walk State.resolve
    simp only [hspec]
  have hscope : ((s.pop i).push i [.walk pass last rest]).scope = s.scope := rfl
  obtain ⟨hpath, hsc, -⟩ := scopePath_congr st hscope spec
  obtain ⟨hbroken, front, hth, hfront⟩ :=
    changeScope_spec st ((s.pop i).push i [.walk pass last rest]) i spec
  rw [hperform] at hb ⊢
  rw [hb, hsc] at hbroken
  rw [hpath, hsc] at hfront
  refine ⟨front, hth, ?_⟩
  rw [loads_eq hspec, ← hbroken, Bool.not_false, Bool.true_and]
  exact hfront

/-- A change of the scope in which its thread breaks off has loaded nothing. -/
theorem loads_of_broken (hb : (j.perform st i (s.pop i)).scope.broken = true) :
    (⟨s, i, j⟩ : Moment σ).loads st = false := by
  cases hc : changesScope j with
  | false => exact loads_of_not_changesScope hc
  | true =>
    obtain ⟨pass, last, a, rest, spec, rfl, hspec⟩ := changesScope_cases hc
    have hperform : (Job.walk pass last (a :: rest)).perform st i (s.pop i) =
        ((s.pop i).push i [.walk pass last rest]).changeScope st i spec := by
      show (s.pop i).walk st i pass last (a :: rest) = _
      unfold State.walk State.resolve
      simp only [hspec]
    have hscope : ((s.pop i).push i [.walk pass last rest]).scope = s.scope := rfl
    rw [hperform, (changeScope_spec st _ i spec).1, (scopePath_congr st hscope spec).2.1] at hb
    rw [loads_eq hspec, hb]
    rfl

/-! ### Steps -/

theorem sum_spawned (hp : OncePerChange p) (hy : j.Yields st s s' new spawned) :
    (spawned.map fun l => l.countP p).sum = 0 :=
  State.sum_countP_eq_zero fun l hl x hx => hp.others x (shifts_spawned hy l hl x hx)

/-- A thread that goes on has one more job of each kind if it has loaded a topology. -/
theorem change_goesOn (h : Stepped st i j s s')
    (hb : (j.perform st i (s.pop i)).scope.broken = false) (hd : ∀ a, j ≠ .dispatch a)
    (hp : OncePerChange p) : s'.pending p + [j].countP p =
      s.pending p + ((⟨s, i, j⟩ : Moment σ).loads st).toNat := by
  obtain ⟨t, js, u, new, spawned, ht, hj, hu, hjobs, hy, hpending⟩ := pending_goesOn h hb hd
  have hnew : new.countP p = ((⟨s, i, j⟩ : Moment σ).loads st).toNat := by
    cases hc : changesScope j with
    | false =>
      rw [loads_of_not_changesScope hc]
      exact hp.countP_eq_zero (shifts_new hy hc)
    | true =>
      obtain ⟨pass, last, a, rest, spec, rfl, hspec⟩ := changesScope_cases hc
      obtain ⟨front, hth, hfront⟩ := perform_changesScope hspec hb
      have hs' : s' = (Job.walk pass last (a :: rest)).perform st i (s.pop i) := by
        rw [h.result]
        exact State.endBroken_of_unbroken hb i
      have hpop := State.pop_getElem? ht
      rw [hj, List.tail_cons] at hpop
      rw [hs', hth] at hu
      unfold State.push at hu
      rw [List.getElem?_modify_eq, List.getElem?_modify_eq, hpop] at hu
      simp only [Option.map_eq_map, Option.map_some, Option.some.injEq] at hu
      rw [← hu] at hjobs
      have hwalk : [Job.walk pass last rest].countP p = 0 := hp.countP_eq_zero fun x hx => by
        obtain rfl := List.mem_singleton.1 hx
        rfl
      have hcount : (front ++ ([Job.walk pass last rest] ++ js)).countP p = (new ++ js).countP p :=
        congrArg (List.countP p) hjobs
      rw [List.countP_append, List.countP_append, List.countP_append, hwalk] at hcount
      cases hl : (⟨s, i, .walk pass last (a :: rest)⟩ : Moment σ).loads st with
      | true =>
        rw [if_pos hl] at hfront
        obtain ⟨target, rfl⟩ := hfront
        rw [hp.once] at hcount
        rw [Bool.toNat_true]
        omega
      | false =>
        rw [if_neg (by rw [hl]; exact Bool.false_ne_true)] at hfront
        rw [hfront, List.countP_nil] at hcount
        rw [Bool.toNat_false]
        omega
  have := hpending p
  rw [hnew, sum_spawned hp hy] at this
  omega

/-- A dispatch has nothing to do with changes of the scope. -/
theorem change_dispatch {a : Action} (h : Stepped st i (.dispatch a) s s') (hs : s.Stacks Shifts)
    (hp : OncePerChange p) : s'.pending p = s.pending p := by
  obtain ⟨js, new, spawned, ⟨t, ht, hj⟩, hy, hpending⟩ := h.pending
  have hjs := hs t ht
  rw [hj] at hjs
  have hrest : ∀ x ∈ Job.dispatch a :: js, x.shifts = false := by
    cases hjs with
    | other _ hjs => exact hjs
  have hsum := sum_spawned hp hy
  have hnew := hp.countP_eq_zero (shifts_new hy rfl)
  have hone : [Job.dispatch a].countP p = 0 := hp.countP_eq_zero fun x hx => by
    obtain rfl := List.mem_singleton.1 hx
    rfl
  rcases hpending with hpending | ⟨-, -, -, hpending⟩
  · have := hpending p
    omega
  · have := hpending p
    rw [hp.countP_eq_zero hrest] at this
    omega

/-- The law for the jobs of changes of the scope. -/
theorem change_step (h : Stepped st i j s s') (hs : s.Stacks Shifts) (hp : OncePerChange p) :
    ∃ js, Shifts (j :: js) ∧
      s'.pending p + [j].countP p + (if (⟨s, i, j⟩ : Moment σ).breaks st then js.countP p else 0) =
        s.pending p + ((⟨s, i, j⟩ : Moment σ).loads st).toNat := by
  obtain ⟨t, js, -, -, -, ht, hj, -⟩ := h.moves
  have hjs := hs t (List.mem_of_getElem? ht)
  rw [hj] at hjs
  refine ⟨js, hjs, ?_⟩
  cases hb : (⟨s, i, j⟩ : Moment σ).breaks st with
  | true =>
    obtain ⟨t', js', new, spawned, ht', hj', hy, hpending⟩ := pending_breaksOff h hb
    rw [ht] at ht'
    cases ht'
    rw [hj] at hj'
    cases hj'
    have := hpending p
    rw [sum_spawned hp hy, ← List.singleton_append, List.countP_append] at this
    rw [loads_of_broken hb, if_pos rfl, Bool.toNat_false]
    omega
  | false =>
    rw [if_neg Bool.false_ne_true]
    by_cases hd : ∃ a, j = .dispatch a
    · obtain ⟨a, rfl⟩ := hd
      have hone : [Job.dispatch a].countP p = 0 := hp.countP_eq_zero fun x hx => by
        obtain rfl := List.mem_singleton.1 hx
        rfl
      rw [change_dispatch h hs hp, loads_of_not_changesScope rfl, hone]
      rfl
    · exact change_goesOn h hb (fun a ha => hd ⟨a, ha⟩) hp

end Accounts

/-- The changes of the scope that a run has loaded the topologies of. -/
structure Changes (st : Settings σ) (c : List (Moment σ)) (s : State σ) : Prop where
  order : s.Stacks Shifts
  /-- Each has left the old topology, or does so next. -/
  left_ : c.countP (Moment.loads st) = c.countP (fun m => m.job.isLeave) + s.pending Job.isLeave
  /-- Each has entered the new topology or is yet to, unless its thread has broken off. -/
  entered : c.countP (Moment.loads st) =
    c.countP (fun m => m.job.isEnter) + s.pending Job.isEnter + c.countP (Moment.strands st)

theorem changes_step {st : Settings σ} {c : List (Moment σ)} {s s' : State σ} {i : ThreadId} {j : Job}
    (h : Stepped st i j s s') (hc : Changes st c s) : Changes st (c ++ [⟨s, i, j⟩]) s' := by
  have hsingle : ∀ p : Job → Bool, [j].countP p = (p j).toNat := fun p => by
    cases hp : p j <;> simp [hp]
  have happend : ∀ q : Moment σ → Bool,
      (c ++ [(⟨s, i, j⟩ : Moment σ)]).countP q = c.countP q + (q ⟨s, i, j⟩).toNat := fun q => by
    rw [List.countP_append]
    cases hq : q ⟨s, i, j⟩ <;> simp [hq]
  refine ⟨shifts_step h hc.order, ?_, ?_⟩
  · obtain ⟨js, hjs, hlaw⟩ := change_step h hc.order oncePerChange_isLeave
    have hnone : js.countP Job.isLeave = 0 := by
      cases hjs with
      | leave target js hjs | provide target js hjs =>
        simp [Job.isLeave, oncePerChange_isLeave.countP_eq_zero hjs]
      | enter js hjs => exact oncePerChange_isLeave.countP_eq_zero hjs
      | other _ hjs =>
        exact oncePerChange_isLeave.countP_eq_zero fun x hx => hjs x (List.mem_cons_of_mem j hx)
    have := hc.left_
    rw [hsingle, hnone, ite_self] at hlaw
    rw [happend, happend, show (⟨s, i, j⟩ : Moment σ).job = j from rfl]
    omega
  · obtain ⟨js, hjs, hlaw⟩ := change_step h hc.order oncePerChange_isEnter
    have hstrands : (if (⟨s, i, j⟩ : Moment σ).breaks st then js.countP Job.isEnter else 0) =
        ((⟨s, i, j⟩ : Moment σ).strands st).toNat := by
      unfold Moment.strands
      cases (⟨s, i, j⟩ : Moment σ).breaks st with
      | false => rfl
      | true =>
        cases hjs with
        | leave target js hjs | provide target js hjs =>
          have hrest := oncePerChange_isEnter.countP_eq_zero hjs
          simp [List.countP_cons, hrest, Job.isEnter, Job.shifts]
        | enter js hjs =>
          have hrest := oncePerChange_isEnter.countP_eq_zero hjs
          simp [hrest, Job.isEnter, Job.shifts]
        | other _ hjs =>
          have hj := hjs j List.mem_cons_self
          have hrest := oncePerChange_isEnter.countP_eq_zero
            fun x hx => hjs x (List.mem_cons_of_mem j hx)
          simp [hj, hrest]
    have := hc.entered
    rw [hsingle, hstrands] at hlaw
    rw [happend, happend, happend, show (⟨s, i, j⟩ : Moment σ).job = j from rfl]
    omega

theorem changes_of_chronicle {st : Settings σ} {sc : Scope σ} {actions : List Action}
    {report : Report} {c : List (Moment σ)} {s : State σ} (hb : sc.broken = false)
    (hc : Chronicle st (start st sc actions report) c s) : Changes st c s := by
  refine hc.invariant hb ⟨?_, rfl, rfl⟩ (fun _ _ _ _ _ hc h _ => changes_step h hc)
    fun _ _ _ hc _ _ => ⟨hc.order, hc.left_, hc.entered⟩
  intro t ht
  obtain rfl := List.mem_singleton.1 ht
  exact .other _ (by simp [Invocation.job, Job.shifts])

end Workload.Run
