import Workload.Proofs.Alike
import Workload.Proofs.Chronicles
import Workload.Proofs.Course

/-!
# The counter of the passes

The counter is one for all threads.  What a thread has before it says which pass it takes to go on
(`frame?`), and where nothing comes in between the counter is that pass (`Counts`).
-/

namespace Workload.Run

variable {σ : Type}

/-! ## Frames -/

/-- The pass that stands behind a job, with what it is a pass of. -/
def Job.begun? : Job → Option (Invocation × Nat)
  | .passes inv _ (pass + 1) => some (inv, pass)
  | _ => none

/-- The pass that goes on, with what it is a pass of. -/
def frame? (jobs : List Job) : Option (Invocation × Nat) := jobs.findSome? Job.begun?

/-- The pass that a job sets the counter to, or takes it to be set to. -/
def Job.sets? : Job → Option Nat
  | .setLoops pass | .walk pass _ _ => some pass
  | _ => none

/-- What a job sets the counter to. -/
def Job.counter? : Job → Option Nat
  | .setLoops pass => some pass
  | _ => none

/-- Whether a job has passes of its own, after which the counter has to be set again. -/
def Job.renews : Job → Bool
  | .opening .. | .passes .. | .emit => true
  | _ => false

/-- Whether the counter may be another one than that of the pass that goes on. -/
def Job.unsettled : Job → Bool
  | .setLoops _ | .emit => true
  | _ => false

/-- In the passes of the invocations in question only the number of the pass is set, and after what has
passes of its own the counter is set again. -/
def Kept (F : Invocation → Prop) : List Job → Prop
  | [] => True
  | j :: js =>
    (∀ inv pass, frame? js = some (inv, pass) →
      (F inv → ∀ n, j.sets? = some n → n = pass) ∧
        (j.renews = true → ∃ n, js.head? = some (.setLoops n))) ∧ Kept F js

/-- What a thread has before it goes with the counter, in the passes of the invocations in question. -/
structure Counts (F : Invocation → Prop) (jobs : List Job) (loops : Nat) : Prop where
  kept : Kept F jobs
  right : ∀ j js, jobs = j :: js → j.unsettled = false → ∀ inv pass,
    frame? jobs = some (inv, pass) → F inv → loops = pass

section Frames

variable {st : Settings σ} {s s' : State σ} {j : Job} {new js : List Job}
  {spawned : List (List Job)} {F : Invocation → Prop} {loops : Nat}

theorem frame?_cons (hj : j.begun? = none) : frame? (j :: js) = frame? js := by
  unfold frame?
  rw [List.findSome?_cons, hj]

theorem frame?_append (hn : ∀ x ∈ new, x.begun? = none) : frame? (new ++ js) = frame? js := by
  unfold frame?
  rw [List.findSome?_append, List.findSome?_eq_none_iff.2 hn, Option.none_or]

theorem kept_of_unbegun {jobs : List Job} (h : ∀ x ∈ jobs, x.begun? = none) : Kept F jobs := by
  induction jobs with
  | nil => trivial
  | cons x jobs ih =>
    have hrest : ∀ y ∈ jobs, y.begun? = none := fun y hy => h y (List.mem_cons_of_mem x hy)
    refine ⟨fun inv pass hf => ?_, ih hrest⟩
    rw [frame?, List.findSome?_eq_none_iff.2 hrest] at hf
    cases hf

theorem begun?_of_closes (hj : j.closes = true) : j.begun? = none := by
  cases j with
  | passes => cases hj
  | _ => rfl

/-! ## What a job leaves -/

/-- A job that is put in front and begins no pass. -/
structure Job.Fits (F : Invocation → Prop) (js : List Job) (x : Job) : Prop where
  begun : x.begun? = none
  renews : x.renews = false
  sets : ∀ n, x.sets? = some n → ∀ inv pass, frame? js = some (inv, pass) → F inv → n = pass

theorem kept_append (hk : Kept F js) (hn : ∀ x ∈ new, x.Fits F js) : Kept F (new ++ js) := by
  induction new with
  | nil => exact hk
  | cons x new ih =>
    have hrest : ∀ y ∈ new, y.Fits F js := fun y hy => hn y (List.mem_cons_of_mem x hy)
    have hx := hn x List.mem_cons_self
    refine ⟨fun inv pass hf => ⟨fun hF n hs => ?_, fun hr => ?_⟩, ih hrest⟩
    · have hf' : frame? (new ++ js) = some (inv, pass) := hf
      rw [frame?_append fun y hy => (hrest y hy).begun] at hf'
      exact hx.sets n hs inv pass hf' hF
    · rw [hx.renews] at hr
      cases hr

/-- Most jobs neither set the counter nor take it to be set. -/
theorem sets?_new (hy : j.Yields st s s' new spawned) (hp : ∀ inv limit pass, j ≠ .passes inv limit pass)
    (hw : ∀ pass last rest, j ≠ .walk pass last rest) (hf : ∀ describe fault, j ≠ .failed describe fault) :
    ∀ x ∈ new, x.sets? = none := by
  cases j with
  | passes inv limit pass => exact absurd rfl (hp inv limit pass)
  | walk pass last rest => exact absurd rfl (hw pass last rest)
  | failed describe fault => exact absurd rfl (hf describe fault)
  | opening calls inv =>
    cases calls with
    | nil =>
      obtain ⟨-, hy⟩ := hy
      split_ifs at hy <;> simp [hy.1, Job.sets?]
    | cons c cs =>
      obtain ⟨-, hy⟩ := hy
      split at hy <;> simp [hy.1, Job.sets?]
  | dispatch a =>
    rcases hy with ⟨rfl, -⟩ | ⟨task, hy⟩
    · simp
    · split_ifs at hy <;> simp [hy.1, Job.sets?]
  | control task a =>
    obtain ⟨-, alias_, rfl⟩ := hy
    split_ifs <;> simp [Job.sets?]
  | launch k =>
    rcases hy with ⟨p, -, -, -, rfl, -⟩ | ⟨-, -, hy⟩
    · simp
    · generalize (s.scope.launch st.env k.task).1 = r at hy
      cases hy with
      | refused | awaited => simp [Job.sets?]
      | known l signals p watcher restarter | watched l p watcher restarter =>
        unfold Ticket.awaits
        cases watcher <;> split_ifs <;> simp [Job.sets?]
  | launched k watcher l c =>
    obtain ⟨⟨restarter, rfl⟩, -⟩ := hy
    unfold Ticket.awaits
    cases watcher <;> split_ifs <;> simp [Job.sets?]
  | removeAll handles => cases handles <;> simp [hy.1, Job.sets?]
  | drain c describe left =>
    obtain ⟨-, hy⟩ := hy
    split at hy <;> simp [hy.1, Job.sets?]
  | gate | untilLoop => obtain ⟨rfl | rfl, -⟩ := hy <;> simp [Job.sets?]
  | repeatLoop | awaitLaunch => obtain ⟨rfl | ⟨x, rfl⟩, -⟩ := hy <;> simp [Job.sets?]
  | watch task id c => obtain ⟨-, rfl | ⟨signal, rfl⟩ | rfl | rfl⟩ := hy <;> simp [Job.sets?]
  | expire task id c => obtain ⟨rfl | ⟨signal, rfl⟩, -⟩ := hy <;> simp [Job.sets?]
  | sleep => simp [hy.1, Job.sets?]
  | _ => simp [hy.1]

theorem walk_sets_new {pass : Nat} {last : Option Action} {rest : List Action}
    (hy : (Job.walk pass last rest).Yields st s s' new spawned) :
    ∀ x ∈ new, ∀ n, x.sets? = some n → (Job.walk pass last rest).sets? = some n ∨
      n = s.scope.loops ∧ (Job.walk pass last rest).unsettled = false ∧
        (Job.walk pass last rest).begun? = none := by
  intro x hx n hn
  cases rest with
  | nil =>
    rw [hy.1] at hx
    cases hx
  | cons a rest =>
    obtain ⟨-, hy⟩ := hy
    split_ifs at hy
    · rw [hy] at hx
      simp only [List.mem_cons, List.not_mem_nil, or_false] at hx
      rcases hx with rfl | rfl
      · cases hn
      · exact .inl hn
    · obtain ⟨front, hu, rfl⟩ := hy
      rcases List.mem_append.1 hx with hx | hx
      · rcases unfolds_cases hu with rfl | ⟨target, rfl⟩ | ⟨inner, rfl⟩ | ⟨inner, rfl⟩
        · cases hx
        · simp only [List.mem_cons, List.not_mem_nil, or_false] at hx
          rcases hx with rfl | rfl | rfl <;> cases hn
        · simp only [List.mem_cons, List.not_mem_nil, or_false] at hx
          rcases hx with rfl | rfl
          · cases hn
          · exact .inr ⟨(Option.some.inj hn).symm, rfl, rfl⟩
        · simp only [List.mem_cons, List.not_mem_nil, or_false] at hx
          rcases hx with rfl | rfl <;> exact .inl hn
      · obtain rfl := List.mem_singleton.1 hx
        exact .inl hn

/-- A job but the passes sets the counter to what it takes it to be set to, or to what it is. -/
theorem sets_new (hy : j.Yields st s s' new spawned) (hp : ∀ inv limit pass, j ≠ .passes inv limit pass) :
    ∀ x ∈ new, ∀ n, x.sets? = some n →
      j.sets? = some n ∨ n = s.scope.loops ∧ j.unsettled = false ∧ j.begun? = none := by
  intro x hx n hn
  by_cases hw : ∃ pass last rest, j = .walk pass last rest
  · obtain ⟨pass, last, rest, rfl⟩ := hw
    exact walk_sets_new hy x hx n hn
  by_cases hf : ∃ describe fault, j = .failed describe fault
  · obtain ⟨describe, fault, rfl⟩ := hf
    obtain ⟨-, ⟨-, rfl, -⟩ | ⟨rfl, -⟩ | ⟨c, -, -, -, rfl⟩⟩ := hy
    · cases hx
    · obtain rfl := List.mem_singleton.1 hx
      cases hn
    · simp only [List.mem_cons, List.not_mem_nil, or_false] at hx
      rcases hx with rfl | rfl | rfl | rfl
      · exact .inr ⟨(Option.some.inj hn).symm, rfl, rfl⟩
      · exact .inr ⟨(Option.some.inj hn).symm, rfl, rfl⟩
      · cases hn
      · cases hn
  · rw [sets?_new hy hp (fun pass last rest h => hw ⟨pass, last, rest, h⟩)
      (fun describe fault h => hf ⟨describe, fault, h⟩) x hx] at hn
    cases hn

/-! ## Steps -/

/-- What a job but the passes leaves fits in front of the rest, unless it renews the counter. -/
theorem fits_new (hc : Counts F (j :: js) s.scope.loops) (hy : j.Yields st s s' new spawned)
    (hp : ∀ inv limit pass, j ≠ .passes inv limit pass) {x : Job} (hx : x ∈ new) (hr : x.renews = false) : x.Fits F js := by
  refine ⟨?_, hr, fun n hn inv pass hf hF => ?_⟩
  · cases x with
    | passes => cases hr
    | _ => rfl
  · rcases sets_new hy hp x hx n hn with hs | ⟨rfl, hu, hb⟩
    · exact (hc.kept.1 inv pass hf).1 hF n hs
    · exact hc.right j js rfl hu inv pass (by rw [frame?_cons hb, hf]) hF

/-- Only the opening of a nested test renews the counter. -/
theorem renews_new (hy : j.Yields st s s' new spawned) (hp : ∀ inv limit pass, j ≠ .passes inv limit pass)
    (ho : ∀ calls inv, j ≠ .opening calls inv) :
    (∀ x ∈ new, x.renews = false) ∨ ∃ calls inv tail,
      new = .opening calls inv :: .setLoops s.scope.loops :: tail ∧ ∀ x ∈ tail, x.renews = false := by
  by_cases hw : ∃ pass last rest, j = .walk pass last rest
  · obtain ⟨pass, last, rest, rfl⟩ := hw
    cases rest with
    | nil =>
      rw [hy.1]
      simp
    | cons a rest =>
      obtain ⟨-, hy⟩ := hy
      split_ifs at hy
      · rw [hy]
        simp [Job.renews]
      · obtain ⟨front, hu, rfl⟩ := hy
        rcases unfolds_cases hu with rfl | ⟨target, rfl⟩ | ⟨inner, rfl⟩ | ⟨inner, rfl⟩
        · simp [Job.renews]
        · simp [Job.renews]
        · exact .inr ⟨_, _, _, rfl, by simp [Job.renews]⟩
        · simp [Job.renews]
  · refine .inl fun x hx => ?_
    cases hy.leaves x hx with
    | nextCall c cs inv => exact absurd rfl (ho _ _)
    | firstPass inv limit => exact absurd rfl (ho _ _)
    | nextPass inv limit pass | emit inv limit pass => exact absurd rfl (hp _ _ _)
    | nested pass last rest => exact absurd ⟨_, _, _, rfl⟩ hw
    | _ => rfl

theorem kept_new (hc : Counts F (j :: js) s.scope.loops) (hy : j.Yields st s s' new spawned)
    (hp : ∀ inv limit pass, j ≠ .passes inv limit pass) (ho : ∀ calls inv, j ≠ .opening calls inv) :
    Kept F (new ++ js) := by
  rcases renews_new hy hp ho with hr | ⟨calls, inv, tail, rfl, hr⟩
  · exact kept_append hc.kept.2 fun x hx => fits_new hc hy hp hx (hr x hx)
  · have hk : Kept F (.setLoops s.scope.loops :: tail ++ js) := by
      refine kept_append hc.kept.2 fun x hx => fits_new hc hy hp (List.mem_cons_of_mem _ hx) ?_
      rcases List.mem_cons.1 hx with rfl | hx
      · rfl
      · exact hr x hx
    exact ⟨fun _ _ _ => ⟨fun _ n hn => (nomatch hn), fun _ => ⟨_, rfl⟩⟩, hk⟩

/-- Passes that are not the last job of their thread are those of a nested test. -/
def Fenced (st : Settings σ) (j : Job) (js : List Job) : Prop :=
  ∀ inv limit pass, j = .passes inv limit pass → inv.phases = .nested st.config ∨ js = []

theorem kept_passes {inv : Invocation} {limit : Int} {pass : Nat}
    (hk : Kept F (.passes inv limit pass :: js)) (hin : Fenced st (.passes inv limit pass) js)
    (hy : (Job.passes inv limit pass).Yields st s s' new spawned) : Kept F (new ++ js) := by
  obtain ⟨rfl, -⟩ := hy
  split_ifs
  · have hframe : frame? (.passes inv limit (pass + 1) :: js) = some (inv, pass) := rfl
    have hthis : ∀ n inv' pass', (Job.setLoops pass).sets? = some n →
        frame? (.passes inv limit (pass + 1) :: js) = some (inv', pass') → n = pass' := by
      intro n inv' pass' hn hf
      rw [hframe] at hf
      cases hf
      exact (Option.some.inj hn).symm
    refine ⟨fun inv' pass' hf => ⟨fun _ n hn => hthis n inv' pass' hn hf, fun h => (nomatch h)⟩,
      fun inv' pass' hf => ⟨fun _ n hn => hthis n inv' pass' hn hf, fun h => (nomatch h)⟩,
      fun inv' pass' hf => ⟨fun _ n hn => (nomatch hn), fun h => (nomatch h)⟩,
      fun inv' pass' hf => ⟨fun _ n hn => (nomatch hn), fun _ => ?_⟩, hk.2⟩
    exact (hk.1 inv' pass' hf).2 rfl
  · rcases hin inv limit pass rfl with hin | rfl
    · rw [hin, closingJobs_nested]
      exact ⟨fun inv' pass' hf => ⟨fun _ n hn => (nomatch hn), fun _ => (hk.1 inv' pass' hf).2 rfl⟩,
        hk.2⟩
    · rw [List.append_nil]
      exact kept_of_unbegun fun x hx => begun?_of_closes (closes_of_mem x hx)

theorem kept_opening {calls : List OpeningCall} {inv : Invocation}
    (hk : Kept F (.opening calls inv :: js))
    (hy : (Job.opening calls inv).Yields st s s' new spawned) : Kept F (new ++ js) := by
  have hput : ∀ x : Job, x.sets? = none → Kept F (x :: js) := by
    refine fun x hx => ⟨fun inv' pass' hf => ⟨fun _ n hn => ?_, fun _ => ?_⟩, hk.2⟩
    · rw [hx] at hn
      cases hn
    · exact (hk.1 inv' pass' hf).2 rfl
  cases calls with
  | nil =>
    obtain ⟨-, hy⟩ := hy
    split_ifs at hy
    · rw [hy.1]
      exact hput _ rfl
    · rw [hy.1]
      exact hk.2
  | cons c cs =>
    obtain ⟨-, hy⟩ := hy
    split at hy
    · rw [hy.1]
      exact hput _ rfl
    · rw [hy.1]
      exact hk.2

theorem kept_step (hc : Counts F (j :: js) s.scope.loops) (hin : Fenced st j js)
    (hy : j.Yields st s s' new spawned) : Kept F (new ++ js) := by
  by_cases hp : ∃ inv limit pass, j = .passes inv limit pass
  · obtain ⟨inv, limit, pass, rfl⟩ := hp
    exact kept_passes hc.kept hin hy
  by_cases ho : ∃ calls inv, j = .opening calls inv
  · obtain ⟨calls, inv, rfl⟩ := ho
    exact kept_opening hc.kept hy
  exact kept_new hc hy (fun inv limit pass h => hp ⟨inv, limit, pass, h⟩)
    fun calls inv h => ho ⟨calls, inv, h⟩

theorem begun?_new (hy : j.Yields st s s' new spawned) (hp : ∀ inv limit pass, j ≠ .passes inv limit pass) :
    ∀ x ∈ new, x.begun? = none := by
  intro x hx
  cases hy.leaves x hx with
  | nextPass inv limit pass => exact absurd rfl (hp inv limit pass)
  | _ => rfl

/-- What a thread has before it goes with the counter as long as nobody else sets it. -/
theorem counts_step (hc : Counts F (j :: js) s.scope.loops) (hin : Fenced st j js)
    (hy : j.Yields st s s' new spawned) {loops : Nat}
    (hloops : loops = j.counter?.getD s.scope.loops) : Counts F (new ++ js) loops := by
  refine ⟨kept_step hc hin hy, fun x xs hx hu inv pass hf hF => ?_⟩
  cases j with
  | setLoops n =>
    rw [hy.1, List.nil_append] at hf
    rw [hloops]
    exact (hc.kept.1 inv pass hf).1 hF n rfl
  | emit =>
    rw [hy.1, List.nil_append] at hf hx
    obtain ⟨n, hn⟩ := (hc.kept.1 inv pass hf).2 rfl
    rw [hx] at hn
    cases hn
    cases hu
  | passes inv' limit' pass' =>
    obtain ⟨rfl, -⟩ := hy
    split_ifs at hx hf
    · cases hx
      cases hu
    · rcases hin inv' limit' pass' rfl with hin | rfl
      · rw [hin, closingJobs_nested] at hx
        cases hx
        cases hu
      · rw [frame?_append fun y hy => begun?_of_closes (closes_of_mem y hy)] at hf
        cases hf
  | _ =>
    rw [hloops]
    rw [frame?_append (begun?_new hy fun _ _ _ => nofun)] at hf
    exact hc.right _ js rfl rfl inv pass hf hF


/-- A step sets the counter only if its job is to set it. -/
theorem loops_of_stepped {i : ThreadId} (h : Stepped st i j s s') :
    s'.scope.loops = j.counter?.getD s.scope.loops := by
  cases j with
  | setLoops pass =>
    rw [h.result]
    unfold State.endBroken
    split_ifs <;> rfl
  | _ => exact h.keeps.loops fun _ => nofun

end Frames

/-! ## The pass that goes on -/

/-- Nobody but the first thread has set the counter to anything but the given pass. -/
def Undisturbed (pass : Nat) (h : List Deed) : Prop :=
  ∀ d ∈ h, d.thread ≠ 0 → ∀ n, d.job = .setLoops n → n = pass

/-- The first thread has begun no pass of the run as a whole. -/
def SamePass (h : List Deed) : Prop :=
  ∀ d ∈ h, d.thread = 0 → ∀ inv limit pass, d.job = .passes inv limit pass → inv.nested = true

/-- The history of a pass of the run as a whole begins with the job that began it, and in the course of
the pass the counter is its number if nobody else has set it to another one. -/
def PassGoesOn (st : Settings σ) (actions : List Action) (h : List Deed) (s : State σ) (t : Thread)
    (pass : Nat) : Prop :=
  ∃ before noted after,
    h = before ++ ⟨0, .passes (.whole st actions) (lastPass st) pass, noted⟩ :: after ∧
      SamePass after ∧
      (Undisturbed pass after → Counts (fun inv => inv.nested = false) t.jobs s.scope.loops)

/-- Where the threads of a run are, and what the counter is. -/
structure OnCount (st : Settings σ) (actions : List Action) (h : List Deed) (s : State σ) : Prop
    extends OnCourse st actions s where
  goesOn : ∀ t pass, s.threads[0]? = some t →
    .passes (.whole st actions) (lastPass st) (pass + 1) ∈ t.jobs → PassGoesOn st actions h s t pass

section Passes

variable {st : Settings σ} {actions : List Action} {h : List Deed} {i : ThreadId} {j : Job}
  {s s' : State σ} {noted : List TimedEvent} {new js : List Job} {spawned : List (List Job)}

/-- Passes of the run as a whole are the last job of a thread. -/
theorem course_whole {inv : Invocation} {limit : Int} {pass : Nat}
    (hc : Course st actions (.passes inv limit pass :: js)) (hn : inv.nested = false) :
    js = [] ∧ inv = .whole st actions ∧ limit = lastPass st := by
  rcases course_cases hc with ⟨rfl, ⟨calls, -, hj⟩ | ⟨pass', hj⟩⟩ | ⟨pass', inner, -, hinner, -⟩ | hsuf
  · cases hj
  · cases hj
    exact ⟨rfl, rfl, rfl⟩
  · have hnested := (hinner _ List.mem_cons_self).1
    rw [hn] at hnested
    cases hnested
  · cases closes_of_mem _ (hsuf.subset List.mem_cons_self)

/-- Other passes of the first thread are those of nested tests. -/
theorem course_inner (hc : Course st actions (j :: js)) : Fenced st j js := by
  rintro inv limit pass rfl
  rcases course_cases hc with ⟨rfl, -⟩ | ⟨pass', inner, -, hinner, -⟩ | hsuf
  · exact .inr rfl
  · exact .inl (hinner _ List.mem_cons_self).2
  · cases closes_of_mem _ (hsuf.subset List.mem_cons_self)

/-- Only one pass of the run as a whole goes on. -/
theorem course_frame {jobs : List Job} {inv : Invocation} {pass pass' : Nat} {limit : Int}
    (hc : Course st actions jobs) (hm : .passes (.whole st actions) limit (pass + 1) ∈ jobs)
    (hf : frame? jobs = some (inv, pass')) (hn : inv.nested = false) : pass' = pass := by
  obtain ⟨x, hx, hxf⟩ := List.exists_of_findSome?_eq_some hf
  have hx' : ∃ limit', x = .passes inv limit' (pass' + 1) := by
    unfold Job.begun? at hxf
    split at hxf
    · cases hxf
      exact ⟨_, rfl⟩
    · cases hxf
  obtain ⟨limit', rfl⟩ := hx'
  cases hc with
  | opening calls => simp at hm
  | first => simp at hm
  | within pass₀ inner hlimit hinner =>
    have hlast : ∀ inv limit n, inv.nested = false →
        .passes inv limit (n + 1) ∈ inner ++ [.passes (.whole st actions) (lastPass st) (pass₀ + 1)] →
        n = pass₀ := by
      intro inv limit n hnested hmem
      rcases List.mem_append.1 hmem with hmem | hmem
      · have := (hinner _ hmem).1
        rw [hnested] at this
        cases this
      · simp only [List.mem_singleton, Job.passes.injEq, Nat.add_right_cancel_iff] at hmem
        exact hmem.2.2
    rw [hlast _ _ _ hn hx, hlast _ _ _ rfl hm]
  | closing jobs hsuf => cases closes_of_mem _ (hsuf.subset hm)

/-- Only a pass of the run as a whole leaves the next one. -/
theorem whole_mem_new {limit : Int} {pass : Nat} (hc : Course st actions (j :: js)) (hy : j.Yields st s s' new spawned)
    (hm : .passes (.whole st actions) limit (pass + 1) ∈ new) :
    js = [] ∧ limit = lastPass st ∧ j = .passes (.whole st actions) limit pass := by
  cases hy.leaves _ hm with
  | nextPass inv limit pass =>
    obtain ⟨hjs, -, hlimit⟩ := course_whole hc rfl
    exact ⟨hjs, hlimit, rfl⟩

theorem goesOn_begun {pass : Nat} {t : Thread}
    (hy : (Job.passes (.whole st actions) (lastPass st) pass).Yields st s s' new spawned)
    (hm : .passes (.whole st actions) (lastPass st) (pass + 1) ∈ new) (hjobs : t.jobs = new) :
    PassGoesOn st actions
      (h ++ [⟨0, .passes (.whole st actions) (lastPass st) pass, noted⟩]) s' t pass := by
  refine ⟨h, noted, [], rfl, fun d hd => (nomatch hd), fun _ => ⟨?_, fun x xs hx hu => ?_⟩⟩
  · have hk : Kept (fun inv => inv.nested = false)
        [Job.passes (.whole st actions) (lastPass st) pass] :=
      ⟨fun _ _ hf => (nomatch hf), trivial⟩
    have := kept_passes hk (fun _ _ _ _ => .inr rfl) hy
    rwa [List.append_nil, ← hjobs] at this
  · obtain ⟨rfl, -⟩ := hy
    split_ifs at hm hjobs
    · rw [hjobs] at hx
      cases hx
      cases hu
    · cases closes_of_mem _ hm

/-- The first thread goes on with a pass. -/
theorem goesOn_main {t u : Thread} {pass : Nat} (hs : Stepped st 0 j s s')
    (hc : Course st actions (j :: js)) (hj : t.jobs = j :: js) (hu : u.jobs = new ++ js)
    (hy : j.Yields st s s' new spawned) (hold : PassGoesOn st actions h s t pass)
    (hn : ∀ inv limit n, j = .passes inv limit n → inv.nested = true) :
    PassGoesOn st actions (h ++ [⟨0, j, noted⟩]) s' u pass := by
  obtain ⟨before, noted₀, after, rfl, hsame, hcounts⟩ := hold
  refine ⟨before, noted₀, after ++ [⟨0, j, noted⟩], by simp, fun d hd h0 inv limit n hp => ?_,
    fun hun => ?_⟩
  · rcases List.mem_append.1 hd with hd | hd
    · exact hsame d hd h0 inv limit n hp
    · obtain rfl := List.mem_singleton.1 hd
      exact hn inv limit n hp
  · have hcounts := hcounts fun d hd => hun d (List.mem_append_left _ hd)
    rw [hj] at hcounts
    rw [hu]
    exact counts_step hcounts (course_inner hc) hy (loops_of_stepped hs)

/-- Another thread does something while a pass goes on. -/
theorem goesOn_other {t : Thread} {pass : Nat} (hs : Stepped st i j s s') (hi : i ≠ 0)
    (hc : Course st actions t.jobs)
    (hm : .passes (.whole st actions) (lastPass st) (pass + 1) ∈ t.jobs)
    (hold : PassGoesOn st actions h s t pass) :
    PassGoesOn st actions (h ++ [⟨i, j, noted⟩]) s' t pass := by
  obtain ⟨before, noted₀, after, rfl, hsame, hcounts⟩ := hold
  refine ⟨before, noted₀, after ++ [⟨i, j, noted⟩], by simp, fun d hd h0 inv limit n hp => ?_,
    fun hun => ?_⟩
  · rcases List.mem_append.1 hd with hd | hd
    · exact hsame d hd h0 inv limit n hp
    · obtain rfl := List.mem_singleton.1 hd
      exact absurd h0 hi
  · obtain ⟨hkept, hright⟩ := hcounts fun d hd => hun d (List.mem_append_left _ hd)
    refine ⟨hkept, fun x xs hx hsettled inv pass' hf hF => ?_⟩
    rw [loops_of_stepped hs]
    cases hset : j.counter? with
    | none => exact hright x xs hx hsettled inv pass' hf hF
    | some n =>
      have hj : j = .setLoops n := by
        unfold Job.counter? at hset
        split at hset
        · cases hset
          rfl
        · cases hset
      rw [course_frame hc hm hf hF]
      exact hun ⟨i, j, noted⟩ (List.mem_append_right _ List.mem_cons_self) hi n hj

theorem onCount_step (hs : Stepped st i j s s') (hc : OnCount st actions h s) :
    OnCount st actions (h ++ [⟨i, j, noted⟩]) s' := by
  refine ⟨onCourse_step hs hc.toOnCourse, fun u pass hu hm => ?_⟩
  obtain ⟨t, js, new, spawned, ht, hj, hy, hcases⟩ := hs.thread_cases
  have hpos : 0 < s.threads.length := Nat.zero_lt_of_lt (List.getElem?_eq_some_iff.1 ht).1
  rcases hcases 0 u hu with ⟨rfl, ⟨hjobs, -⟩ | ⟨hjobs, -⟩⟩ | ⟨hne, hold⟩ | ⟨-, hlen, -⟩
  · have hcourse := hj ▸ hc.main t ht
    rw [hjobs] at hm
    by_cases hw : ∃ limit n, j = .passes (.whole st actions) limit n
    · obtain ⟨limit, n, rfl⟩ := hw
      obtain ⟨rfl, -, rfl⟩ := course_whole hcourse rfl
      rw [List.append_nil] at hm hjobs
      obtain ⟨-, -, heq⟩ := whole_mem_new hcourse hy hm
      cases heq
      exact goesOn_begun hy hm hjobs
    · have hmem : .passes (.whole st actions) (lastPass st) (pass + 1) ∈ t.jobs := by
        rcases List.mem_append.1 hm with hm | hm
        · exact absurd ⟨_, _, (whole_mem_new hcourse hy hm).2.2⟩ hw
        · rw [hj]
          exact List.mem_cons_of_mem j hm
      refine goesOn_main hs hcourse hj hjobs hy (hc.goesOn t pass ht hmem) ?_
      rintro inv limit n rfl
      by_contra hn
      obtain ⟨-, rfl, -⟩ := course_whole hcourse (Bool.not_eq_true _ ▸ hn)
      exact hw ⟨_, _, rfl⟩
  · rw [hjobs] at hm
    cases hm
  · exact goesOn_other hs (Ne.symm hne) (hc.main u hold) hm (hc.goesOn u pass hold hm)
  · omega

theorem onCount_of_runs {sc : Scope σ} {report : Report} (hb : sc.broken = false)
    (hr : Runs st (start st sc actions report) h s) : OnCount st actions h s := by
  refine hr.invariant hb ⟨onCourse_start sc report, fun t pass ht hm => ?_⟩
    (fun h i j noted s s' hc hs _ => onCount_step hs hc)
    fun h s time hc _ _ => ⟨⟨hc.main, hc.others⟩, hc.goesOn⟩
  cases ht
  simp [Invocation.job] at hm

end Passes

end Workload.Run
