import Workload.Proofs.Chronicles
import Workload.Proofs.Counter
import Workload.Proofs.Opening

/-!
# Removals

The thread that controls a task goes on when its launch has been recorded: it waits for the thread that
restarts the task, if the restarts are counted, and for the one that waits for the condition that ends it, if
there is one, and each time removes all containers of the launch (`Returns.awaited`).  These are all removals
that it makes before it is done with the task, and the threads that it starts for the task restart nothing but
the first container (`control_removes`).
-/

namespace Workload

/-! ## What calls are about -/

/-- The container that is removed. -/
def Event.removed? : Event → Option String
  | .remove handle _ => some handle
  | _ => none

/-- The container that is started. -/
def Event.started? : Event → Option String
  | .start handle _ => some handle
  | _ => none

namespace Run

variable {σ : Type}

/-! ## What is noted at a moment -/

/-- What is noted at a moment, but for the lookups of statuses on the way. -/
def Moment.noted (st : Settings σ) (m : Moment σ) : List Event :=
  (m.after st).noted.drop m.before.noted.length

/-- The containers that are removed at a moment. -/
def Moment.removals (st : Settings σ) (m : Moment σ) : List String := (m.noted st).filterMap Event.removed?

/-- The containers that are started at a moment. -/
def Moment.starts (st : Settings σ) (m : Moment σ) : List String := (m.noted st).filterMap Event.started?

/-- The containers that a thread removes, in order. -/
def removals (st : Settings σ) (i : ThreadId) (c : List (Moment σ)) : List String :=
  c.flatMap fun m => if m.thread = i then m.removals st else []

section Noted

variable {st : Settings σ} {i : ThreadId} {j : Job} {m : Moment σ} {c c₁ c₂ : List (Moment σ)}

theorem Moment.noted_eq {new : List TimedEvent}
    (h : (m.after st).scope.trace = new ++ m.before.scope.trace) :
    m.noted st = ((new.map TimedEvent.event).filter fun e => e.kind ≠ .status).reverse := by
  unfold Moment.noted State.noted
  rw [h, List.map_append, List.filter_append, List.reverse_append, List.drop_left]

/-- What is noted at a moment is of the kinds that its job notes. -/
theorem Moment.kind_of_noted (h : Stepped st i j m.before (m.after st)) :
    ∀ e ∈ m.noted st, e.kind ∈ j.notes := by
  obtain ⟨new, hnew, hkinds⟩ := h.scope.trace
  intro e he
  rw [Moment.noted_eq hnew, List.mem_reverse] at he
  obtain ⟨t, ht, rfl⟩ := List.mem_map.1 (List.mem_filter.1 he).1
  exact (hkinds t ht).2

theorem Moment.removals_eq_nil (h : Stepped st i j m.before (m.after st)) (hj : EventKind.remove ∉ j.notes) :
    m.removals st = [] := by
  refine List.filterMap_eq_nil_iff.2 fun e he => ?_
  have hkind := Moment.kind_of_noted h e he
  cases e with
  | remove => exact absurd hkind hj
  | _ => rfl

theorem Moment.starts_eq_nil (h : Stepped st i j m.before (m.after st)) (hj : EventKind.start ∉ j.notes) :
    m.starts st = [] := by
  refine List.filterMap_eq_nil_iff.2 fun e he => ?_
  have hkind := Moment.kind_of_noted h e he
  cases e with
  | start => exact absurd hkind hj
  | _ => rfl

/-- The first one of the containers is removed, whatever comes of it. -/
theorem Moment.removals_removeAll {handles : List String} {rest : List Job}
    (h : m.Does st i (.removeAll handles) rest) : m.removals st = handles.take 1 := by
  cases handles with
  | nil =>
    have htrace : (m.after st).scope.trace = [] ++ m.before.scope.trace := by
      rw [h.after_eq]
      rfl
    unfold Moment.removals
    rw [Moment.noted_eq htrace]
    rfl
  | cons handle handles =>
    have hscope : (m.after st).scope = (m.before.scope.remove st.env handle).2 := by
      rw [h.after_eq]
      rfl
    have hbroken : (m.before.scope.remove st.env handle).2.broken = false := hscope ▸ h.stepped.unbroken
    have htrace : (m.after st).scope.trace =
        [⟨m.before.scope.clock, .remove handle (m.before.scope.remove st.env handle).1⟩] ++
          m.before.scope.trace := by
      rw [hscope]
      exact Scope.call_trace hbroken
    unfold Moment.removals
    rw [Moment.noted_eq htrace]
    rfl

theorem removals_append : removals st i (c₁ ++ c₂) = removals st i c₁ ++ removals st i c₂ :=
  List.flatMap_append

theorem removals_of_quiet (h : ∀ m ∈ c, m.thread ≠ i) : removals st i c = [] :=
  List.flatMap_eq_nil_iff.2 fun m hm => if_neg (h m hm)

theorem removals_singleton (hm : m.thread = i) : removals st i [m] = m.removals st := by
  unfold removals
  rw [List.flatMap_singleton, if_pos hm]

theorem removals_of_mem (h : removals st i c = []) (hm : m ∈ c) (hi : m.thread = i) :
    m.removals st = [] := by
  have hnil := List.flatMap_eq_nil_iff.1 h m hm
  rwa [if_pos hi] at hnil

end Noted

/-! ## What a thread does besides the launch -/

/-- Whether a job is one that a thread does for a task besides the launch; it starts no thread. -/
def Job.attends : Job → Bool
  | .control .. | .gate _ | .sleep _ | .wake _ | .join _ | .removeAll _ => true
  | _ => false

/-- From `b` to `s` thread `i` does for a task what it does besides the launch, and removes the given
containers. -/
structure Attends (st : Settings σ) (i : ThreadId) (handles : List String) (b : State σ)
    (c : List (Moment σ)) (s : State σ) : Prop where
  chronicle : Chronicle st b c s
  calls : removals st i c = handles
  jobs : ∀ m ∈ c, m.thread = i → m.job.attends = true

/-- When a thread has ended the given containers are removed, in order. -/
structure RemovesAfter (st : Settings σ) (i ended : ThreadId) (handles : List String)
    (c : List (Moment σ)) : Prop where
  calls : removals st i c = handles
  after : ∀ m ∈ c, m.thread = i → m.removals st ≠ [] → m.before.finished ended = true

section Attends

variable {st : Settings σ} {i t : ThreadId} {js rest : List Job} {b b' s : State σ}
  {c c' : List (Moment σ)} {handles handles' : List String}

theorem Attends.trans (h : Attends st i handles b c b') (h' : Attends st i handles' b' c' s) :
    Attends st i (handles ++ handles') b (c ++ c') s := by
  refine ⟨h.chronicle.trans h'.chronicle, ?_, fun m hm => ?_⟩
  · rw [removals_append, h.calls, h'.calls]
  · rcases List.mem_append.1 hm with hm | hm
    · exact h.jobs m hm
    · exact h'.jobs m hm

/-- What other threads do is nothing that a thread does for its task. -/
theorem Attends.of_quiet (hc : Chronicle st b c s) (h : ∀ m ∈ c, m.thread ≠ i) : Attends st i [] b c s :=
  ⟨hc, removals_of_quiet h, fun m hm hi => absurd hi (h m hm)⟩

theorem Attends.of_moment {m : Moment σ} {j : Job} (hm : m.Does st i j rest) (hj : j.attends = true) :
    Attends st i (m.removals st) m.before [m] (m.after st) := by
  refine ⟨hm.chronicle, removals_singleton hm.thread, fun m' hm' _ => ?_⟩
  obtain rfl := List.mem_singleton.1 hm'
  rw [hm.job, hj]

theorem RemovesAfter.then_quiet (h : RemovesAfter st i t handles c) (hq : ∀ m ∈ c', m.thread ≠ i) :
    RemovesAfter st i t handles (c ++ c') := by
  refine ⟨by rw [removals_append, h.calls, removals_of_quiet hq, List.append_nil], fun m hm hi => ?_⟩
  rcases List.mem_append.1 hm with hm | hm
  · exact h.after m hm hi
  · exact absurd hi (hq m hm)

namespace Returns

/-- A thread that does something for its task besides the launch goes on with what this leaves it. -/
theorem attend {j : Job} (rest : List Job) (h : Returns st i js b c s) (hb : b.At i (j :: (rest ++ js)))
    (hj : j.attends = true) :
    ∃ c₁ m c₂ new spawned, c = c₁ ++ m :: c₂ ∧ m.Does st i j (rest ++ js) ∧
      Attends st i (m.removals st) b (c₁ ++ [m]) (m.after st) ∧ j.Yields st m.before (m.after st) new spawned ∧
      (m.after st).At i (new ++ (rest ++ js)) ∧ Returns st i js (m.after st) c₂ s := by
  have hne : j :: (rest ++ js) ≠ js := fun heq => by
    have hlength := congrArg List.length heq
    rw [List.length_cons, List.length_append] at hlength
    omega
  obtain ⟨c₁, m, c₂, rfl, hquiet, hm, hrest⟩ := h.next hb hne
  obtain ⟨new, spawned, hy, hat, -⟩ := hm.yields fun a ha => by
    rw [ha] at hj
    cases hj
  have hfront := Attends.of_quiet h.chronicle.before.1 hquiet
  exact ⟨c₁, m, c₂, new, spawned, rfl, hm, hfront.trans (.of_moment hm hj), hy, hat, hrest⟩

end Returns

end Attends

/-! ## On the way to a launch -/

/-- A thread waits for the condition under which a task is launched. -/
inductive Ticket.Gated (k : Ticket) : List Job → Prop
  | launch : Gated k [.launch k]
  | gate (condition : String) : Gated k [.gate condition, .launch k]
  | sleep (ms : Nat) (condition : String) : Gated k [.sleep ms, .gate condition, .launch k]
  | wake (time : Nat) (condition : String) : Gated k [.wake time, .gate condition, .launch k]

namespace Returns

variable {st : Settings σ} {i t : ThreadId} {js rest x : List Job} {b s : State σ} {c : List (Moment σ)}
  {k : Ticket}

/-- A thread that waits for a launch comes to it, and removes nothing on the way. -/
theorem reaches_launch (hx : k.Gated x) (h : Returns st i js b c s) (hb : b.At i (x ++ js)) :
    ∃ c₁ m c₂, c = c₁ ++ m :: c₂ ∧ m.Does st i (.launch k) js ∧ Attends st i [] b c₁ m.before ∧
      Returns st i js (m.after st) c₂ s := by
  induction hn : c.length using Nat.strongRecOn generalizing x b c with
  | ind n ih =>
    have onward : ∀ {c₁ c₂ : List (Moment σ)} {m : Moment σ} {y : List Job}, c = c₁ ++ m :: c₂ →
        Attends st i [] b (c₁ ++ [m]) (m.after st) → k.Gated y → Returns st i js (m.after st) c₂ s →
        (m.after st).At i (y ++ js) →
        ∃ c₁ m c₂, c = c₁ ++ m :: c₂ ∧ m.Does st i (.launch k) js ∧ Attends st i [] b c₁ m.before ∧
          Returns st i js (m.after st) c₂ s := by
      rintro c₁ c₂ m y rfl hfront hy hrest hat
      have hshort : c₂.length < n := by
        rw [← hn, List.length_append, List.length_cons]
        omega
      obtain ⟨d, m', d', rfl, hm', hd, hret⟩ := ih c₂.length hshort hy hrest hat rfl
      exact ⟨(c₁ ++ [m]) ++ d, m', d', by simp, hm', hfront.trans hd, hret⟩
    cases hx with
    | launch =>
      have hne : Job.launch k :: js ≠ js := List.cons_ne_self _ _
      obtain ⟨c₁, m, c₂, rfl, hquiet, hm, hrest⟩ := h.next hb hne
      exact ⟨c₁, m, c₂, rfl, hm, .of_quiet h.chronicle.before.1 hquiet, hrest⟩
    | gate condition =>
      obtain ⟨c₁, m, c₂, new, spawned, hc, hm, hfront, ⟨hnew, -⟩, hat, hrest⟩ :=
        h.attend [.launch k] hb rfl
      rw [Moment.removals_eq_nil hm.stepped (by simp [Job.notes])] at hfront
      rcases hnew with rfl | rfl
      · exact onward hc hfront .launch hrest hat
      · exact onward hc hfront (.sleep _ condition) hrest hat
    | sleep ms condition =>
      obtain ⟨c₁, m, c₂, new, spawned, hc, hm, hfront, ⟨rfl, -⟩, hat, hrest⟩ :=
        h.attend [.gate condition, .launch k] hb rfl
      rw [Moment.removals_eq_nil hm.stepped (by simp [Job.notes])] at hfront
      exact onward hc hfront (.wake _ condition) hrest hat
    | wake time condition =>
      obtain ⟨c₁, m, c₂, new, spawned, hc, hm, hfront, ⟨rfl, -⟩, hat, hrest⟩ :=
        h.attend [.gate condition, .launch k] hb rfl
      rw [Moment.removals_eq_nil hm.stepped (by simp [Job.notes])] at hfront
      exact onward hc hfront (.gate condition) hrest hat

/-! ## What follows a launch -/

/-- All containers are removed, each one whatever came of the removals before it. -/
theorem removes {handles : List String} (h : Returns st i js b c s)
    (hb : b.At i (.removeAll handles :: (rest ++ js))) :
    ∃ c₁ b' c₂, c = c₁ ++ c₂ ∧ Attends st i handles b c₁ b' ∧ b'.At i (rest ++ js) ∧
      Returns st i js b' c₂ s := by
  induction handles generalizing b c with
  | nil =>
    obtain ⟨c₁, m, c₂, new, spawned, rfl, hm, hfront, ⟨rfl, -⟩, hat, hrest⟩ := h.attend rest hb rfl
    rw [Moment.removals_removeAll hm] at hfront
    exact ⟨c₁ ++ [m], m.after st, c₂, by simp, hfront, hat, hrest⟩
  | cons handle handles ih =>
    obtain ⟨c₁, m, c₂, new, spawned, rfl, hm, hfront, ⟨rfl, -⟩, hat, hrest⟩ := h.attend rest hb rfl
    rw [Moment.removals_removeAll hm] at hfront
    obtain ⟨d, b', d', rfl, hd, hat', hret⟩ := ih hrest hat
    exact ⟨(c₁ ++ [m]) ++ d, b', d', by simp, hfront.trans hd, hat', hret⟩

/-- A thread is waited for, and then containers are removed. -/
theorem joins {handles : List String} (rest : List Job) (h : Returns st i js b c s)
    (hb : b.At i (.join [t] :: .removeAll handles :: (rest ++ js))) (ht : t < b.threads.length) :
    ∃ c₁ b' c₂, c = c₁ ++ c₂ ∧ RemovesAfter st i t handles c₁ ∧ Attends st i handles b c₁ b' ∧
      b'.At i (rest ++ js) ∧ Returns st i js b' c₂ s := by
  obtain ⟨c₁, m, c₂, new, spawned, rfl, hm, hfront, ⟨rfl, -⟩, hat, hrest⟩ :=
    h.attend (.removeAll handles :: rest) hb rfl
  rw [Moment.removals_eq_nil hm.stepped (by simp [Job.notes])] at hfront
  obtain ⟨d, b', d', rfl, hd, hat', hret⟩ := hrest.removes hat
  refine ⟨(c₁ ++ [m]) ++ d, b', d', by simp, ⟨(hfront.trans hd).calls, fun m' hm' hi hremoves => ?_⟩,
    hfront.trans hd, hat', hret⟩
  have hended : (m.after st).At t [] := by
    have hready : m.before.finished t = true := by
      have := hm.stepped.ready
      simpa [Job.blocked] using this
    have hlen : t < m.before.threads.length :=
      ht.trans_le (h.chronicle.before.1.threads_le h.unbroken)
    have hu : m.before.threads[t]? = some m.before.threads[t] := List.getElem?_eq_getElem hlen
    have hnil : m.before.threads[t].jobs = [] := by
      unfold State.finished at hready
      rw [hu] at hready
      simpa [Thread.finished] using hready
    have hne : i ≠ t := by
      rintro rfl
      obtain ⟨v, hv, hjobs⟩ := hm.at_
      obtain rfl := Option.some.inj (hu.symm.trans hv)
      rw [hnil] at hjobs
      cases hjobs
    obtain ⟨v, js', v', new, spawned, -, -, -, hth, -⟩ := hm.stepped.moves
    exact ⟨_, Stepped.getElem?_other hth hne hu, hnil⟩
  rcases List.mem_append.1 hm' with hm' | hm'
  · exact absurd (removals_of_mem hfront.calls hm' hi) hremoves
  · exact hd.chronicle.finished_before hm.stepped.unbroken hended hm'

/-- After a launch its containers are removed when the thread that restarts it has ended, if the restarts are
counted, and when the one that waits for its condition has. -/
theorem awaited {watcher : Option (ThreadId × PromiseId)} {l : Launch} {r : ThreadId}
    (h : Returns st i js b c s) (hb : b.At i (k.awaits watcher l r ++ js))
    (hr : 0 < k.repeats → r < b.threads.length) (hw : ∀ w ∈ watcher, w.1 < b.threads.length) :
    ∃ c₁ c₂, c = c₁ ++ c₂ ∧
      (if 0 < k.repeats then RemovesAfter st i r l.containers c₁ else removals st i c₁ = []) ∧
      (watcher.elim (removals st i c₂ = []) fun w => RemovesAfter st i w.1 l.containers c₂) ∧
      ∀ m ∈ c, m.thread = i → m.job.attends = true := by
  have hfirst : ∃ c₁ b' c₂ handles, c = c₁ ++ c₂ ∧
      (if 0 < k.repeats then RemovesAfter st i r l.containers c₁ else removals st i c₁ = []) ∧
      Attends st i handles b c₁ b' ∧
      b'.At i ((watcher.elim [] fun w => [.join [w.1], .removeAll l.containers]) ++ js) ∧
      Returns st i js b' c₂ s := by
    unfold Ticket.awaits at hb
    by_cases hpos : 0 < k.repeats
    · rw [if_pos hpos, List.append_assoc] at hb
      obtain ⟨c₁, b', c₂, rfl, hremoves, hattends, hat, hrest⟩ := h.joins _ hb (hr hpos)
      exact ⟨c₁, b', c₂, _, rfl, by rwa [if_pos hpos], hattends, hat, hrest⟩
    · rw [if_neg hpos] at hb
      exact ⟨[], b, c, [], rfl, by rw [if_neg hpos]; rfl, .of_quiet .refl fun m hm => (nomatch hm), hb, h⟩
  obtain ⟨c₁, b', c', handles, rfl, hcounted, hattends, hat, hrest⟩ := hfirst
  refine ⟨c₁, c', rfl, hcounted, ?_⟩
  cases watcher with
  | none =>
    have hquiet := hrest.back hat
    exact ⟨removals_of_quiet hquiet, (hattends.trans (.of_quiet hrest.chronicle hquiet)).jobs⟩
  | some w =>
    have hlen : w.1 < b'.threads.length :=
      (hw w rfl).trans_le (hattends.chronicle.threads_le h.unbroken)
    obtain ⟨d, b'', d', rfl, hremoves, hd, hat', hret⟩ := hrest.joins [] hat hlen
    have hquiet := hret.back hat'
    refine ⟨hremoves.then_quiet hquiet, ?_⟩
    exact (hattends.trans (hd.trans (.of_quiet hret.chronicle hquiet))).jobs

end Returns

end Run

end Workload
