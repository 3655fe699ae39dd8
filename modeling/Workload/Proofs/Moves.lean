import Mathlib.Tactic.SplitIfs
import Workload.Run.Step
import Workload.Scope

/-!
# Moves

Every call is noted in the trace, and an evaluation notes the lookups of statuses on its way
(`Scope.evaluate_grows`).  The events noted before stay, and no call moves the clock, so that
`Scope.Grows` composes.  A call that does not ask for what cannot be done is noted once, as the latest
event, with its result (`Scope.call_trace`, `Scope.hook_trace`).

`State.Moves` says how a state differs from an earlier one in which a thread was about to go on: the
thread has new jobs in front, threads may have been started, the clock stands and the trace has grown.
It composes, so what an operation does is read off its parts.  What threads share besides the scope is
the `Board`.
-/

/-! ## What calls leave in a scope -/

namespace Workload

/-- What an event is about. -/
inductive EventKind where
  | run | start | kill | remove | copy | status | reclaim | purge | provide | saveLogs
  | removeServers | hook | failed | emitted | exited
  deriving DecidableEq, Repr

def Event.kind : Event → EventKind
  | .run .. => .run
  | .start .. => .start
  | .kill .. => .kill
  | .remove .. => .remove
  | .copy .. => .copy
  | .status .. => .status
  | .reclaim .. => .reclaim
  | .purge .. => .purge
  | .provide .. => .provide
  | .saveLogs .. => .saveLogs
  | .removeServers .. => .removeServers
  | .hook .. => .hook
  | .failed .. => .failed
  | .emitted => .emitted
  | .exited _ => .exited

namespace Expression

variable {σ : Type} {R : σ → σ → Prop} {lookup : String → σ → Option String × σ}

theorem replaceEach_rel (hr : ∀ w, R w w) (ht : ∀ {a b c}, R a b → R b c → R a c)
    (hl : ∀ name w, R w (lookup name w).2) :
    ∀ (names : List String) (text : String) (changed : Bool) (w : σ),
      R w (replaceEach lookup names text changed w).2
  | [], _, _, w => hr w
  | name :: names, text, changed, w => by
    have h := hl name w
    unfold replaceEach
    rcases hv : lookup name w with ⟨value, w'⟩
    rw [hv] at h
    simp only []
    split
    · split_ifs
      · exact ht h (replaceEach_rel hr ht hl names _ _ w')
      · exact ht h (replaceEach_rel hr ht hl names _ _ w')
    · exact ht h (replaceEach_rel hr ht hl names _ _ w')

theorem interpolatePasses_rel (hr : ∀ w, R w w) (ht : ∀ {a b c}, R a b → R b c → R a c)
    (hl : ∀ name w, R w (lookup name w).2) :
    ∀ (passes : Nat) (text : String) (w : σ), R w (interpolatePasses lookup passes text w).2
  | 0, _, w => hr w
  | passes + 1, text, w => by
    have h := replaceEach_rel hr ht hl (vars text) text false w
    unfold interpolatePasses
    rcases hv : replaceEach lookup (vars text) text false w with ⟨⟨text', changed⟩, w'⟩
    rw [hv] at h
    simp only []
    split_ifs
    · exact ht h (interpolatePasses_rel hr ht hl passes text' w')
    · exact h

/-- What every lookup keeps, an evaluation keeps. -/
theorem evaluate_rel (hr : ∀ w, R w w) (ht : ∀ {a b c}, R a b → R b c → R a c)
    (hl : ∀ name w, R w (lookup name w).2) (text : String) (w : σ) :
    R w (evaluate lookup text w).2 := by
  unfold evaluate
  split
  · exact hr w
  · exact interpolatePasses_rel hr ht hl maxPasses _ w

end Expression

namespace Scope

variable {σ ε α : Type}

/-- `s'` comes after `s` by steps that take no time and note events of the given kinds only. -/
structure Grows (kinds : List EventKind) (s s' : Scope σ) : Prop where
  clock : s'.clock = s.clock
  trace : ∃ new, s'.trace = new ++ s.trace ∧
    ∀ e ∈ new, e.time = s.clock ∧ e.event.kind ∈ kinds

namespace Grows

variable {kinds kinds' : List EventKind} {s s' s'' : Scope σ}

theorem of_eq (hc : s'.clock = s.clock) (ht : s'.trace = s.trace) : Grows kinds s s' :=
  ⟨hc, [], by rw [ht]; rfl, by simp⟩

theorem refl (s : Scope σ) : Grows kinds s s := of_eq rfl rfl

theorem mono (h : Grows kinds s s') (hk : kinds ⊆ kinds') : Grows kinds' s s' := by
  obtain ⟨hc, new, hn, he⟩ := h
  exact ⟨hc, new, hn, fun e h => ⟨(he e h).1, hk (he e h).2⟩⟩

theorem trace_eq (h : Grows [] s s') : s'.trace = s.trace := by
  obtain ⟨-, new, hn, he⟩ := h
  have : new = [] := List.eq_nil_iff_forall_not_mem.2 fun e h => by simpa using (he e h).2
  rw [hn, this, List.nil_append]

theorem trans (h : Grows kinds s s') (h' : Grows kinds s' s'') : Grows kinds s s'' := by
  obtain ⟨hc, new, hn, he⟩ := h
  obtain ⟨hc', new', hn', he'⟩ := h'
  refine ⟨hc'.trans hc, new' ++ new, by rw [hn', hn, List.append_assoc], fun e h => ?_⟩
  rcases List.mem_append.1 h with h | h
  · rw [← hc]
    exact he' e h
  · exact he e h

end Grows

theorem grows_note (line : LogLine) (s : Scope σ) : Grows [] s (s.note line) := by
  unfold note
  split_ifs
  · exact .refl s
  · exact .of_eq rfl rfl

theorem grows_record (e : Event) (s : Scope σ) : Grows [e.kind] s (s.record e) := by
  unfold record
  split_ifs
  · exact .refl s
  · exact ⟨rfl, [⟨s.clock, e⟩], rfl, by simp⟩

theorem grows_take (r : Reply ε α) (world : σ) (s : Scope σ) : Grows [] s (s.take r world).2 :=
  .of_eq rfl rfl

theorem grows_ask (c : Call σ ε α) (s : Scope σ) : Grows [] s (s.ask c).2 := .of_eq rfl rfl

theorem grows_call {k : EventKind} (c : Call σ ε α) {event : Except ε α → Event}
    (hk : ∀ r, (event r).kind = k) (s : Scope σ) : Grows [k] s (s.call c event).2 := by
  have h := grows_record (event (s.ask c).1) (s.ask c).2
  rw [hk] at h
  exact ((grows_ask c s).mono (List.nil_subset _)).trans h

/-- A call that can be done is noted with its result. -/
theorem call_trace {c : Call σ ε α} {event : Except ε α → Event} {s : Scope σ}
    (h : (s.call c event).2.broken = false) :
    (s.call c event).2.trace = ⟨s.clock, event (s.call c event).1⟩ :: s.trace := by
  unfold call record at h ⊢
  simp only [] at h ⊢
  split_ifs at h ⊢ with hb
  · rw [hb] at h
    cases h
  · rfl

/-- A call that asks for what cannot be done is not noted. -/
theorem call_trace_of_broken {c : Call σ ε α} {event : Except ε α → Event} {s : Scope σ}
    (h : (s.call c event).2.broken = true) : (s.call c event).2.trace = s.trace := by
  unfold call record at h ⊢
  simp only [] at h ⊢
  split_ifs at h ⊢ with hb
  · rfl
  · exact absurd h hb

variable (env : Environment σ)

theorem status_grows (handle : String) (s : Scope σ) :
    Grows [.status] s (s.status env handle).2 := by
  unfold status
  exact grows_call _ (by intro; rfl) s

theorem grows_lookupCall (function argument : String) (s : Scope σ) :
    Grows [.status] s (s.lookupCall env function argument).2 := by
  unfold lookupCall
  split
  · exact status_grows env _ s
  · exact (grows_ask _ s).mono (List.nil_subset _)
  · exact (grows_ask _ s).mono (List.nil_subset _)
  · exact .refl s
  · exact .refl s

theorem grows_lookup (name : String) (s : Scope σ) :
    Grows [.status] s (lookup env name s).2 := by
  unfold lookup
  split_ifs
  · exact .refl s
  · split
    · exact .refl s
    · exact .of_eq rfl rfl
  · split
    · exact grows_lookupCall env _ _ s
    · exact .refl s

theorem evaluate_grows (text : String) (s : Scope σ) :
    Grows [.status] s (s.evaluate env text).2 := by
  have h := Expression.evaluate_rel (R := Grows [.status]) (fun w => .refl w)
    (fun h h' => h.trans h') (grows_lookup env) text s
  unfold evaluate
  split
  · rename_i s' hs
    rw [hs] at h
    exact h.trans (.of_eq rfl rfl)
  · exact h

theorem compileCommand_grows (text : String) (s : Scope σ) :
    Grows [.status] s (s.compileCommand env text).2 :=
  evaluate_grows env text s

theorem condition_grows (text : String) (s : Scope σ) :
    Grows [.status] s (s.condition env text).2 :=
  evaluate_grows env text s

theorem check_grows (text : String) (s : Scope σ) :
    Grows [.status] s (s.check env text).2 := by
  have h := condition_grows env text s
  unfold check
  split
  · rename_i b s' hs
    rw [hs] at h
    exact h
  · rename_i e s' hs
    rw [hs] at h
    exact h.trans ((grows_note _ _).mono (List.nil_subset _))

theorem carryOut_grows (name : HookName) (hook : Hook σ) (s : Scope σ) :
    Grows [.status] s (s.carryOut env name hook).2 := by
  unfold carryOut
  split
  · exact .refl s
  · exact (grows_ask _ s).mono (List.nil_subset _)
  · rename_i text execute
    have h := evaluate_grows env text s
    split
    · rename_i command s' hs
      rw [hs] at h
      exact h.trans ((grows_ask _ _).mono (List.nil_subset _))
    · rename_i e s' hs
      rw [hs] at h
      exact h

theorem hook_grows (name : HookName) (s : Scope σ) :
    Grows [.status, .hook] s (s.hook env name).2 := by
  have h := carryOut_grows env name (env.hooks name) s
  unfold hook
  rcases hc : s.carryOut env name (env.hooks name) with ⟨result, s'⟩
  rw [hc] at h
  exact (h.mono (by simp)).trans ((grows_record _ s').mono (by simp [Event.kind]))

/-- A hook that can be carried out is noted with its result, after the statuses it asked for. -/
theorem hook_trace {name : HookName} {s : Scope σ} (h : (s.hook env name).2.broken = false) :
    ∃ asked, (s.hook env name).2.trace =
        ⟨s.clock, .hook name (s.hook env name).1⟩ :: (asked ++ s.trace) ∧
      ∀ e ∈ asked, e.event.kind = .status := by
  obtain ⟨hc, asked, ha, hk⟩ := carryOut_grows env name (env.hooks name) s
  refine ⟨asked, ?_, fun e he => by simpa using (hk e he).2⟩
  unfold hook record at h ⊢
  simp only [] at h ⊢
  split_ifs at h ⊢ with hb
  · rw [hb] at h
    cases h
  · simp only [ha, hc]

/-- A hook that asks for what cannot be done is not noted. -/
theorem hook_trace_of_broken {name : HookName} {s : Scope σ} (h : (s.hook env name).2.broken = true) :
    ∃ asked, (s.hook env name).2.trace = asked ++ s.trace ∧
      ∀ e ∈ asked, e.event.kind = .status := by
  obtain ⟨-, asked, ha, hk⟩ := carryOut_grows env name (env.hooks name) s
  refine ⟨asked, ?_, fun e he => by simpa using (hk e he).2⟩
  unfold hook record at h ⊢
  simp only [] at h ⊢
  split_ifs at h ⊢ with hb
  · exact ha
  · exact absurd h hb

end Scope

end Workload

/-! ## Moves of a thread -/

namespace Workload.Run

variable {σ α : Type}

/-- A thread that begins with the given jobs. -/
def Thread.ofJobs (jobs : List Job) : Thread := { jobs }

/-- What the threads of a run share besides their scope and the templates. -/
structure Board where
  report : Report
  channels : List Channel
  promises : List Promise
  collecting : Bool
  stopped : Bool
  failure : Option Fault

namespace State

def board (s : State σ) : Board :=
  ⟨s.report, s.channels, s.promises, s.collecting, s.stopped, s.failure⟩

/-- From `s` to `s'` thread `i` got `new` in front of its jobs, a thread was started for each of
`spawned`, and events of the given kinds were noted. -/
structure Moves (kinds : List EventKind) (i : ThreadId) (new : List Job)
    (spawned : List (List Job)) (s s' : State σ) : Prop where
  threads : ∀ t, s.threads[i]? = some t → ∃ n,
    s'.threads = s.threads.set i ⟨new ++ t.jobs, n, t.crashed⟩ ++ spawned.map Thread.ofJobs
  scope : s.scope.Grows kinds s'.scope

theorem set_of_getElem? {l : List α} {i : Nat} {a : α} (h : l[i]? = some a) : l.set i a = l := by
  refine List.ext_getElem? fun k => ?_
  rw [List.getElem?_set]
  split_ifs with hk hl
  · rw [← hk, h]
  · have := (List.getElem?_eq_some_iff.1 h).1
    omega
  · rfl

theorem modify_eq_set_of_getElem? {l : List α} {i : Nat} {a : α} (f : α → α) (h : l[i]? = some a) :
    l.modify i f = l.set i (f a) := by
  refine List.ext_getElem? fun k => ?_
  rw [List.getElem?_modify, List.getElem?_set]
  split_ifs with hk hl
  · rw [← hk, h]
    rfl
  · have := (List.getElem?_eq_some_iff.1 h).1
    omega
  · simp

theorem push_nil (i : ThreadId) (s : State σ) : (s.push i []).threads = s.threads := by
  have hid : (fun t : Thread => { t with jobs := [] ++ t.jobs }) = id := rfl
  unfold push
  rw [hid, List.modify_id]

namespace Moves

variable {kinds kinds' : List EventKind} {i : ThreadId} {new new' : List Job}
  {spawned spawned' : List (List Job)} {s s' s'' : State σ}

theorem of_eq (ht : s'.threads = s.threads) (hg : s.scope.Grows kinds s'.scope) :
    Moves kinds i [] [] s s' := by
  refine ⟨fun t h => ⟨t.tally, ?_⟩, hg⟩
  simp only [List.nil_append, List.map_nil, List.append_nil]
  rw [ht, set_of_getElem? h]

theorem refl (s : State σ) : Moves kinds i [] [] s s := of_eq rfl (.refl _)

theorem push (s : State σ) (jobs : List Job) : Moves [] i jobs [] s (s.push i jobs) := by
  refine ⟨fun t h => ⟨t.tally, ?_⟩, .refl _⟩
  simp only [State.push, List.map_nil, List.append_nil]
  rw [modify_eq_set_of_getElem? _ h]

theorem spawn (s : State σ) (jobs : List Job) : Moves [] i [] [jobs] s (s.spawn jobs) := by
  refine ⟨fun t h => ⟨t.tally, ?_⟩, .refl _⟩
  simp only [State.spawn, List.nil_append, List.map_cons, List.map_nil]
  rw [set_of_getElem? h]
  rfl

theorem count (s : State σ) : Moves [] i [] [] s (s.count i) := by
  refine ⟨fun t h => ⟨t.tally + 1, ?_⟩, .refl _⟩
  simp only [State.count, List.nil_append, List.map_nil, List.append_nil]
  rw [modify_eq_set_of_getElem? _ h]

theorem mono (h : Moves kinds i new spawned s s') (hk : kinds ⊆ kinds') :
    Moves kinds' i new spawned s s' :=
  ⟨h.threads, h.scope.mono hk⟩

theorem trans (h : Moves kinds i new spawned s s') (h' : Moves kinds i new' spawned' s' s'') :
    Moves kinds i (new' ++ new) (spawned ++ spawned') s s'' := by
  refine ⟨fun t ht => ?_, h.scope.trans h'.scope⟩
  have hi : i < s.threads.length := (List.getElem?_eq_some_iff.1 ht).1
  obtain ⟨n, hn⟩ := h.threads t ht
  obtain ⟨n', hn'⟩ := h'.threads ⟨new ++ t.jobs, n, t.crashed⟩ (by
    rw [hn, List.getElem?_append_left (by simpa using hi), List.getElem?_set_self hi])
  refine ⟨n', ?_⟩
  rw [hn', hn, List.set_append_left _ _ (by simpa using hi), List.set_set, List.append_assoc,
    List.map_append, List.append_assoc]

theorem then_push (h : Moves kinds i [] spawned s s') (jobs : List Job) :
    Moves kinds i jobs spawned s (s'.push i jobs) := by
  have := h.trans ((push s' jobs).mono (List.nil_subset kinds))
  rwa [List.append_nil, List.append_nil] at this

theorem then_spawn (h : Moves kinds i new spawned s s') (jobs : List Job) :
    Moves kinds i new (spawned ++ [jobs]) s (s'.spawn jobs) :=
  h.trans ((spawn s' jobs).mono (List.nil_subset kinds))

theorem then_moves (h : Moves kinds i [] spawned s s') (h' : Moves kinds i new [] s' s'') :
    Moves kinds i new spawned s s'' := by
  have := h.trans h'
  rwa [List.append_nil, List.append_nil] at this

theorem then_count (h : Moves kinds i [] spawned s s') :
    Moves kinds i [] spawned s (s'.count i) :=
  h.then_moves ((count s').mono (List.nil_subset kinds))

theorem then_cancel {jobs : List Job} (h : Moves kinds i new (spawned ++ [jobs]) s s') :
    Moves kinds i new (spawned ++ [[]]) s (s'.cancel (s.threads.length + spawned.length)) := by
  refine ⟨fun t ht => ?_, h.scope⟩
  obtain ⟨n, hn⟩ := h.threads t ht
  refine ⟨n, ?_⟩
  have hlast : s'.threads[s.threads.length + spawned.length]? = some (Thread.ofJobs jobs) := by
    rw [hn, List.getElem?_append_right (by simp)]
    simp
  unfold State.cancel
  rw [modify_eq_set_of_getElem? _ hlast, hn, List.set_append_right _ _ (by simp)]
  simp [Thread.ofJobs]

theorem then_eq (h : Moves kinds i new spawned s s') (ht : s''.threads = s'.threads)
    (hg : s'.scope.Grows kinds s''.scope) : Moves kinds i new spawned s s'' := by
  have := h.trans (of_eq ht hg)
  rwa [List.append_nil, List.nil_append] at this

end Moves

end State

end Workload.Run
