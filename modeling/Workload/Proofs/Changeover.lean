import Workload.Proofs.Decisions
import Workload.Proofs.Provisioning
import Workload.Proofs.ScopeChanges

/-!
# From one topology to another

A change of the scope that names no document that can be read changes nothing.  If it loads a topology its thread
takes the old one down, provides the new one and sets it up, whatever comes of each of these calls
(`Changing`), and nothing can keep it from that but that something is asked for which cannot be done
(`change_all_or_nothing`).  But that can be the change itself: a topology whose initial nodes cannot be compared
with those before is neither provided nor set up after the old one was taken down
(`incomparable_change_strands`).
-/

namespace Workload

/-! ## Questions -/

/-- To ask for a status or for an address does not change what is seen of the world. -/
structure Environment.AsksQuietly {σ α : Type} (env : Environment σ) (view : σ → α) : Prop where
  status : ∀ handle w, view (env.runtime.status handle w).2 = view w
  host : ∀ name w, view (env.provider.host name w).2 = view w
  rest : ∀ name w, view (env.provider.rest name w).2 = view w

namespace Scope

variable {σ ε α β : Type} {env : Environment σ} {view : σ → β}

theorem view_ask {c : Call σ ε α} (h : ∀ w, view (c w).2 = view w) (s : Scope σ) :
    view (s.ask c).2.world = view s.world := h s.world

theorem record_world (e : Event) (s : Scope σ) : (s.record e).world = s.world := by
  unfold record
  split_ifs <;> rfl

theorem view_lookup (h : env.AsksQuietly view) (name : String) (s : Scope σ) :
    view (lookup env name s).2.world = view s.world := by
  unfold lookup
  split_ifs
  · rfl
  · split <;> rfl
  · split
    · unfold lookupCall
      split
      · exact (congrArg view (record_world _ _)).trans (view_ask (h.status _) s)
      · exact view_ask (h.host _) s
      · exact view_ask (h.rest _) s
      · rfl
      · rfl
    · rfl

/-- An evaluation does nothing to the world but to ask. -/
theorem view_evaluate (h : env.AsksQuietly view) (text : String) (s : Scope σ) :
    view (s.evaluate env text).2.world = view s.world := by
  have heval := Expression.evaluate_rel (R := fun s s' : Scope σ => view s'.world = view s.world)
    (fun _ => rfl) (fun h h' => h'.trans h) (view_lookup h) text s
  unfold evaluate
  split
  · rename_i s' hs
    rw [hs] at heval
    exact heval
  · exact heval

end Scope

namespace Run

variable {σ : Type}

/-! ## The document -/

/-- The path that a text names: its value, or the text as it stands if it has none. -/
inductive Settings.Locates (st : Settings σ) (text : String) (sc : Scope σ) : String → Scope σ → Prop
  | value {value : String} {sc' : Scope σ} : sc.evaluate st.env text = (.ok value, sc') →
    Locates st text sc (Text.trimmed value) sc'
  | verbatim {fault : ExpressionFault} {sc' : Scope σ} : sc.evaluate st.env text = (.error fault, sc') →
    Locates st text sc text sc'

/-- What is to be done for a topology that was loaded. -/
def changeJobs : Except Fault Topology → List Job
  | .ok target => [.leaveScope target, .provideScope target, .enterScope]
  | .error _ => []

section

variable {st : Settings σ} {i : ThreadId} {j : Job} {s s' b : State σ} {c : List (Moment σ)} {js : List Job}
  {pass : Nat} {last : Option Action} {a : Action} {rest : List Action} {spec : String} {target : Topology}

theorem Settings.Locates.view {sc sc' : Scope σ} {path : String} {α : Type} {view : σ → α}
    (h : st.Locates spec sc path sc') (hview : st.env.AsksQuietly view) : view sc'.world = view sc.world := by
  have heval := Scope.view_evaluate hview spec sc
  cases h with
  | value h | verbatim h =>
    rw [h] at heval
    exact heval

/-- A text that has a value names the path that it is. -/
theorem Settings.Locates.eq {sc sc' : Scope σ} {path value : String} (h : st.Locates spec sc path sc')
    (hvalue : (sc.evaluate st.env spec).1.toOption = some value) :
    path = Text.trimmed value ∧ sc' = (sc.evaluate st.env spec).2 := by
  have hok := eq_ok_of_toOption hvalue
  cases h with
  | value h =>
    obtain ⟨hv, rfl⟩ := Prod.mk.inj (h.symm.trans hok)
    obtain rfl := Except.ok.inj hv
    exact ⟨rfl, rfl⟩
  | verbatim h => exact nomatch (Prod.mk.inj (h.symm.trans hok)).1

/-- What is told of the path of a document. -/
theorem State.scopePath_locates (st : Settings σ) (spec : String) (s : State σ) :
    ∃ sc', st.Locates spec s.scope (s.scopePath st spec).1 sc' ∧
      (s.scopePath st spec).2.scope.broken = sc'.broken ∧ (s.scopePath st spec).2.scope.world = sc'.world ∧
      (s.scopePath st spec).2.threads = s.threads := by
  unfold scopePath State.within
  rcases he : s.scope.evaluate st.env spec with ⟨fault | value, sc⟩
  · exact ⟨sc, .verbatim he, State.note_broken { s with scope := sc } _, State.note_world { s with scope := sc } _,
      rfl⟩
  · exact ⟨sc, .value he, rfl, rfl, rfl⟩

/-- A change of the scope leaves to be done what its document says, and has asked for no more than the path. -/
theorem State.changeScope_leaves (st : Settings σ) (i : ThreadId) (spec : String) (s : State σ) :
    ∃ path sc', st.Locates spec s.scope path sc' ∧ (s.changeScope st i spec).scope.broken = sc'.broken ∧
      (s.changeScope st i spec).scope.world = sc'.world ∧
      (s.changeScope st i spec).threads =
        (s.push i (changeJobs ((st.env.files sc'.world).readTopology path))).threads := by
  obtain ⟨sc', hpath, hbroken, hworld, hthreads⟩ := s.scopePath_locates st spec
  refine ⟨_, sc', hpath, ?_⟩
  rw [← hbroken, ← hworld]
  unfold changeScope
  rcases hp : s.scopePath st spec with ⟨path, s'⟩
  rw [hp] at hthreads
  dsimp only at hthreads ⊢
  unfold Scope.files
  cases (st.env.files s'.scope.world).readTopology path with
  | ok target => exact ⟨rfl, rfl, by simp only [State.push, changeJobs, hthreads]⟩
  | error fault =>
    exact ⟨State.note_broken s' _, State.note_world s' _, hthreads.trans (State.push_nil i s).symm⟩

theorem State.At.push (h : s.At i js) (front : List Job) : (s.push i front).At i (front ++ js) :=
  ((State.Moves.push s front).leaves h).1

theorem State.At.of_threads (h : s.At i js) (hthreads : s'.threads = s.threads) : s'.At i js := by
  obtain ⟨u, hu, hjobs⟩ := h
  exact ⟨u, hthreads ▸ hu, hjobs⟩

/-- The end of a thread that broke off leaves the scope as it is. -/
theorem State.endBroken_world (i : ThreadId) (s : State σ) : (s.endBroken i).scope.world = s.scope.world := by
  unfold endBroken
  split_ifs <;> rfl

/-- A thread goes on with what is left of its jobs, unless it breaks off. -/
theorem Stepped.at_after (h : Stepped st i j s s') (hs : (j.perform st i (s.pop i)).At i js) :
    s'.At i (if (⟨s, i, j⟩ : Moment σ).breaks st then [] else js) := by
  rw [h.result]
  split_ifs with hb
  · exact (hs.endBroken hb).1
  · rwa [State.endBroken_of_unbroken (Bool.not_eq_true _ ▸ hb)]

/-- A thread that comes to a change of the scope asks for the path of its document, and goes on with what there is
to be done for it. -/
theorem Stepped.changes (h : Stepped st i (.walk pass last (a :: rest)) s s')
    (hat : s.At i (.walk pass last (a :: rest) :: js)) (hspec : a.directive = .scope spec) :
    s'.noted = s.noted ∧ ∃ path sc', st.Locates spec s.scope path sc' ∧
      (⟨s, i, .walk pass last (a :: rest)⟩ : Moment σ).breaks st = sc'.broken ∧ s'.scope.world = sc'.world ∧
      s'.At i (if sc'.broken then []
        else changeJobs ((st.env.files sc'.world).readTopology path) ++ .walk pass last rest :: js) := by
  have hperform : (Job.walk pass last (a :: rest)).perform st i (s.pop i) =
      ((s.pop i).push i [.walk pass last rest]).changeScope st i spec := by
    show (s.pop i).walk st i pass last (a :: rest) = _
    unfold State.walk State.resolve
    simp only [hspec]
  obtain ⟨new, hmoves, -⟩ := State.changeScope_moves st i ((s.pop i).push i [.walk pass last rest]) spec
  obtain ⟨path, sc', hpath, hbroken, hworld, hthreads⟩ :=
    State.changeScope_leaves st i spec ((s.pop i).push i [.walk pass last rest])
  have hbreaks : (⟨s, i, .walk pass last (a :: rest)⟩ : Moment σ).breaks st = sc'.broken :=
    (congrArg (fun s => s.scope.broken) hperform).trans hbroken
  have hafter := h.at_after (hperform ▸ ((hat.popped.push _).push _).of_threads hthreads)
  rw [hbreaks] at hafter
  have hresult := h.result
  rw [hperform] at hresult
  refine ⟨?_, path, sc', hpath, hbreaks, ?_, hafter⟩
  · obtain ⟨-, asked, hasked, hkinds⟩ := hmoves.scope
    have htrace : s'.scope.trace = asked ++ s.scope.trace := by
      rw [hresult, State.endBroken_trace, hasked]
      rfl
    exact noted_of_asked htrace fun e he => by simpa using (hkinds e he).2
  · rw [hresult, State.endBroken_world, hworld]

end

/-! ## The calls of a change -/

/-- At a moment a hook is called, whose result makes no difference, and the topology stays. -/
structure Moment.Hooks (st : Settings σ) (name : HookName) (m : Moment σ) : Prop where
  breaks : m.breaks st = (m.before.scope.hook st.env name).2.broken
  noted : (m.after st).noted = m.before.noted ++
    if m.breaks st then [] else [.hook name (m.before.scope.hook st.env name).1]
  topology : (m.after st).scope.topology = m.before.scope.topology

/-- At a moment what is due for a topology is provided, whatever comes of it, and the topology is the current one
from then on.  That cannot be done if it cannot be told what is due, if the provider cannot do it, or if the nodes
of the topology cannot be listed. -/
structure Moment.Provides (st : Settings σ) (target : Topology) (m : Moment σ) : Prop where
  breaks_iff : m.breaks st = true ↔ ∀ t, m.before.provision? st target = some t →
    (m.before.scope.provide st.env t).2.broken = true ∨ target.nodeNames? = none
  noted : (m.after st).noted = m.before.noted ++ match m.before.provision? st target with
    | some t =>
      if (m.before.scope.provide st.env t).2.broken then []
      else [.provide t (m.before.scope.provide st.env t).1]
    | none => []
  topology : m.breaks st = false → (m.after st).scope.topology = target

section

variable {st : Settings σ} {i : ThreadId} {j : Job} {s s' b : State σ} {c : List (Moment σ)} {js : List Job}
  {pass : Nat} {last : Option Action} {a : Action} {rest : List Action} {spec : String} {target : Topology}

theorem State.noted_endBroken (i : ThreadId) (s : State σ) : (s.endBroken i).noted = s.noted :=
  noted_of_trace (State.endBroken_trace i s)

/-- A job that does no more than to call a hook and to note its failure. -/
theorem Stepped.hooks {name : HookName} {warning : LogLine} (h : Stepped st i j s s')
    (hj : j.perform st i (s.pop i) = (s.pop i).attempt (Scope.hook st.env name) warning)
    (ht : ∀ t, j ≠ .provideScope t) : (⟨s, i, j⟩ : Moment σ).Hooks st name := by
  obtain ⟨-, htrace, hbroken⟩ := attempt_spec (Scope.hook st.env name) warning (s.pop i)
  have hbreaks : (⟨s, i, j⟩ : Moment σ).breaks st = (s.scope.hook st.env name).2.broken :=
    (congrArg (fun s => s.scope.broken) hj).trans hbroken
  refine ⟨hbreaks, ?_, ?_⟩
  · rw [h.after_eq, h.result, State.noted_endBroken, hj]
    split_ifs with hb
    · obtain ⟨asked, hasked, hkinds⟩ := Scope.hook_trace_of_broken st.env (hbreaks.symm.trans hb)
      rw [List.append_nil]
      exact noted_of_asked (htrace.trans hasked) hkinds
    · obtain ⟨asked, hasked, hkinds⟩ := Scope.hook_trace st.env (hbreaks.symm.trans (Bool.not_eq_true _ ▸ hb))
      exact noted_of_call (htrace.trans hasked) hkinds (by simp [Event.kind])
  · rw [h.after_eq]
    exact h.keeps.topology ht

theorem State.provideScope_of_none (h : s.provision? st target = none) :
    s.provideScope st target = { s with scope := s.scope.break_ } := by
  unfold provideScope
  rw [h]

theorem Stepped.provides (h : Stepped st i (.provideScope target) s s') :
    (⟨s, i, .provideScope target⟩ : Moment σ).Provides st target := by
  have hnoted : ((⟨s, i, .provideScope target⟩ : Moment σ).after st).noted =
      ((s.pop i).provideScope st target).noted := State.noted_endBroken i _
  have hbreaks : (⟨s, i, .provideScope target⟩ : Moment σ).breaks st =
      ((s.pop i).provideScope st target).scope.broken := rfl
  have hprovision : (s.pop i).provision? st target = s.provision? st target := rfl
  cases ht : s.provision? st target with
  | none =>
    have hstate := State.provideScope_of_none (hprovision.trans ht)
    rw [hstate] at hnoted hbreaks
    refine ⟨iff_of_true hbreaks fun t hs => ?_, ?_, fun hb => nomatch hb.symm.trans hbreaks⟩
    · cases ht.symm.trans hs
    · rw [hnoted]
      dsimp only
      rw [ht]
      exact (List.append_nil _).symm
  | some t =>
    obtain ⟨htrace, hbroken, htopology⟩ := provideScope_spec (hprovision.trans ht)
    refine ⟨?_, ?_, fun hb => ?_⟩
    · rw [hbreaks, hbroken, Bool.or_eq_true, Option.isNone_iff_eq_none]
      constructor
      · rintro hor t' hs
        obtain rfl := Option.some.inj (ht.symm.trans hs)
        exact hor
      · exact fun hall => hall t ht
    · rw [hnoted]
      dsimp only
      rw [ht]
      dsimp only
      split_ifs with hb
      · rw [List.append_nil]
        exact noted_of_trace (htrace.trans (Scope.call_trace_of_broken hb))
      · have hcall : (s.scope.provide st.env t).2.trace =
            ⟨s.scope.clock, .provide t (s.scope.provide st.env t).1⟩ :: ([] ++ s.scope.trace) :=
          Scope.call_trace (Bool.not_eq_true _ ▸ hb)
        exact noted_of_call (htrace.trans hcall) (by simp) (by simp [Event.kind])
    · rw [h.after_eq, h.result, State.endBroken_of_unbroken hb]
      exact htopology hb

/-! ## The course of a change -/

/-- No thread makes a topology the current one. -/
def Untouched (c : List (Moment σ)) : Prop := ∀ x ∈ c, ∀ t, x.job ≠ .provideScope t

theorem Chronicle.untouched (hc : Chronicle st b c s) (hb : b.scope.broken = false) (h : Untouched c) :
    s.scope.topology = b.scope.topology := by
  refine hc.invariant (P := fun c s => Untouched c → s.scope.topology = b.scope.topology) hb (fun _ => rfl) ?_
    (fun _ _ _ ih _ _ => ih) h
  intro c k j s s' ih hstep _ h
  have hj : ∀ t, j ≠ .provideScope t := h ⟨s, k, j⟩ (List.mem_append_right _ (List.mem_singleton_self _))
  exact (hstep.keeps.topology hj).trans (ih fun x hx => h x (List.mem_append_left _ hx))

/-- A thread with jobs `x :: js` is about to do `x`, and nothing keeps it from that, or has done it at a moment of
which `P` holds, between what was done before and after it. -/
inductive Comes (st : Settings σ) (i : ThreadId) (x : Job) (js : List Job) (c : List (Moment σ)) (s : State σ)
    (P : List (Moment σ) → Moment σ → List (Moment σ) → Prop) : Prop
  | ahead : (∀ y ∈ c, y.thread ≠ i) → s.At i (x :: js) → s.enabled i = true → Comes st i x js c s P
  | done (c₁ : List (Moment σ)) (y : Moment σ) (c₂ : List (Moment σ)) : c = c₁ ++ y :: c₂ →
    (∀ z ∈ c₁, z.thread ≠ i) → y.thread = i → y.job = x → (y.after st).At i (if y.breaks st then [] else js) →
    P c₁ y c₂ → Comes st i x js c s P

/-- A thread that has loaded `target` leaves the topology, provides what is due for the new one and enters it,
before it goes on with `js`; where it does not break off, nothing that comes of a call keeps it from the next one.
What is due is reckoned from the topology before the change and the new one is there when it is entered, unless
another thread has made one the current one meanwhile. -/
def Changing (st : Settings σ) (i : ThreadId) (was target : Topology) (js : List Job) (c : List (Moment σ))
    (s : State σ) : Prop :=
  Comes st i (.leaveScope target) (.provideScope target :: .enterScope :: js) c s fun c₁ leave c₂ =>
    leave.Hooks st .teardown ∧ (leave.breaks st = false →
      Comes st i (.provideScope target) (.enterScope :: js) c₂ s fun d₁ provide d₂ =>
        (Untouched (c₁ ++ d₁) → provide.before.scope.topology = was) ∧ provide.Provides st target ∧
        (provide.breaks st = false → Comes st i .enterScope js d₂ s fun e₁ enter _ =>
          (Untouched e₁ → enter.before.scope.topology = target) ∧ enter.Hooks st .setup))

/-- A thread whose job leaves nothing to be done goes on with its other jobs, unless it breaks off. -/
theorem Stepped.at_rest (h : Stepped st i j s s') (hat : s.At i (j :: js)) (hd : ∀ a, j ≠ .dispatch a)
    (hleaves : ∀ new spawned, j.Yields st s s' new spawned → new = []) :
    s'.At i (if (⟨s, i, j⟩ : Moment σ).breaks st then [] else js) := by
  split_ifs with hb
  · obtain ⟨t, js', t', new, spawned, ht, -, -, hth, -⟩ := h.moves
    have hself := (Stepped.getElem?_threads hth (List.getElem?_eq_some_iff.1 ht).1).1
    exact ⟨t', hself, (h.breaksOff hb t' hself).1⟩
  · obtain ⟨t, js', t', new, spawned, ht, hj, hy, hth, ht'⟩ := h.goesOn (Bool.not_eq_true _ ▸ hb) hd
    obtain ⟨-, rfl⟩ := List.cons.inj (State.At.eq ⟨t, ht, hj⟩ hat)
    rw [hleaves new spawned hy, List.nil_append] at ht'
    exact ⟨t', (Stepped.getElem?_threads hth (List.getElem?_eq_some_iff.1 ht).1).1, ht'⟩

theorem Chronicle.comes {x : Job} {P : List (Moment σ) → Moment σ → List (Moment σ) → Prop}
    (hc : Chronicle st b c s) (hb : b.scope.broken = false) (hat : b.At i (x :: js)) (hx : x.shifts = true)
    (hP : ∀ c₁ y c₂, c = c₁ ++ y :: c₂ → y = ⟨y.before, i, x⟩ → Stepped st i x y.before (y.after st) →
      (y.after st).At i (if y.breaks st then [] else js) → P c₁ y c₂) : Comes st i x js c s P := by
  rcases hc.next_moment hb hat with ⟨hat', hquiet⟩ | ⟨c₁, y, c₂, heq, hquiet, hy, hyj, hyat, -, hystep⟩
  · refine .ahead hquiet hat' (hat'.enabled ?_)
    cases x with
    | leaveScope | provideScope | enterScope => rfl
    | _ => cases hx
  · obtain ⟨p, t, j⟩ := y
    obtain rfl : t = i := hy
    obtain rfl : j = x := hyj
    have hafter : ((⟨p, t, j⟩ : Moment σ).after st).At t (if (⟨p, t, j⟩ : Moment σ).breaks st then [] else js) := by
      refine hystep.at_rest hyat (fun a ha => ?_) fun new spawned hyields => ?_
      · rw [ha] at hx
        cases hx
      · cases j with
        | leaveScope | provideScope | enterScope => exact hyields.1
        | _ => cases hx
    exact .done c₁ ⟨p, t, j⟩ c₂ heq hquiet rfl rfl hafter (hP c₁ _ c₂ heq rfl hystep hafter)

/-- A thread that has loaded a topology changes to it. -/
theorem Chronicle.changing (hc : Chronicle st b c s) (hb : b.scope.broken = false)
    (hat : b.At i (.leaveScope target :: .provideScope target :: .enterScope :: js)) :
    Changing st i b.scope.topology target js c s := by
  refine hc.comes hb hat rfl fun c₁ leave c₂ heq hleave hstep hafter => ?_
  subst heq
  have hhooks : leave.Hooks st .teardown := hleave ▸ (hleave ▸ hstep).hooks rfl fun t ht => nomatch ht
  refine ⟨hhooks, fun hgoes => ?_⟩
  rw [if_neg (by rw [hgoes]; exact Bool.false_ne_true)] at hafter
  have hc' := hc.after hb
  refine hc'.comes hstep.unbroken hafter rfl fun d₁ provide d₂ heq' hprovide hstep' hafter' => ?_
  subst heq'
  have hprovides : provide.Provides st target := hprovide ▸ (hprovide ▸ hstep').provides
  refine ⟨fun huntouched => ?_, hprovides, fun hgoes' => ?_⟩
  · have hbefore := hc'.before.1.untouched hstep.unbroken fun x hx => huntouched x (List.mem_append_right _ hx)
    have hfirst := hc.before.1.untouched hb fun x hx => huntouched x (List.mem_append_left _ hx)
    exact hbefore.trans (hhooks.topology.trans hfirst)
  rw [if_neg (by rw [hgoes']; exact Bool.false_ne_true)] at hafter'
  have hc'' := hc'.after hstep.unbroken
  refine hc''.comes hstep'.unbroken hafter' rfl fun e₁ enter e₂ heq'' henter hstep'' _ => ?_
  subst heq''
  refine ⟨fun huntouched => ?_, henter ▸ (henter ▸ hstep'').hooks rfl fun t ht => nomatch ht⟩
  exact (hc''.before.1.untouched hstep'.unbroken huntouched).trans (hprovides.topology hgoes')

/-- A thread that comes to a change of the scope asks for the path of a document, which calls no hook and provides
nothing, and leaves the topology, the aliases and what is seen of the world as they are.  If it cannot be asked for
the thread breaks off; if the document cannot be read or is none of a topology it goes on with the rest of its
list; and otherwise it changes to the topology of the document. -/
theorem change_all_or_nothing {c₁ c₂ : List (Moment σ)} {m : Moment σ} (hb : b.scope.broken = false)
    (hc : Chronicle st b (c₁ ++ m :: c₂) s) (hi : m.thread = i) (hj : m.job = .walk pass last (a :: rest))
    (hspec : a.directive = .scope spec) (hat : m.before.At i (.walk pass last (a :: rest) :: js)) :
    (m.after st).noted = m.before.noted ∧ (m.after st).scope.topology = m.before.scope.topology ∧
      (m.after st).scope.aliases = m.before.scope.aliases ∧
      (∀ {α : Type} (view : σ → α), st.env.AsksQuietly view →
        view (m.after st).scope.world = view m.before.scope.world) ∧
      ∃ path sc', st.Locates spec m.before.scope path sc' ∧ m.breaks st = sc'.broken ∧
        if sc'.broken then (m.after st).At i []
        else match (sc'.files st.env).readTopology path with
          | .error _ => (m.after st).At i (.walk pass last rest :: js)
          | .ok target =>
            Changing st i m.before.scope.topology target (.walk pass last rest :: js) c₂ s := by
  have hstep := hc.stepped hb
  have hrest := hc.after hb
  obtain ⟨p, t, j⟩ := m
  obtain rfl : t = i := hi
  obtain rfl : j = .walk pass last (a :: rest) := hj
  have htopology := hstep.keeps.topology fun t ht => nomatch ht
  obtain ⟨hnoted, path, sc', hpath, hbreaks, hworld, hafter⟩ := hstep.changes hat hspec
  have haliases := hstep.keeps.aliases (fun k hk => nomatch hk) fun k w l c hk => nomatch hk
  refine ⟨hnoted, htopology, haliases, fun view hview => (congrArg view hworld).trans (hpath.view hview),
    path, sc', hpath, hbreaks, ?_⟩
  unfold Scope.files
  split_ifs at hafter ⊢
  · exact hafter
  · cases hread : (st.env.files sc'.world).readTopology path with
    | error fault =>
      rw [hread] at hafter
      exact hafter
    | ok target =>
      rw [hread] at hafter
      dsimp only
      rw [← htopology]
      exact hrest.changing hstep.unbroken hafter

end

/-! ## A change of which every call fails -/

theorem rehearsed_asksQuietly (config : RunConfig) :
    (rehearsed config).env.AsksQuietly fun w => w.world.addresses where
  status handle w := by
    show (Faulty.scripted Faults.status _ _ w).2.world.addresses = _
    unfold Faulty.scripted
    split <;> rfl
  host _ _ := rfl
  rest _ _ := rfl

/-- A thread that is about to change to the topology of a document. -/
def changeStart (sc : Scope (Faulty (World Rehearsal))) (path : String) : State (Faulty (World Rehearsal)) :=
  State.ofJobs sc [.walk 0 none [{ scope := path }], .emit]

def changeMoment (sc : Scope (Faulty (World Rehearsal))) (path : String) : Moment (Faulty (World Rehearsal)) :=
  ⟨changeStart sc path, 0, .walk 0 none [{ scope := path }]⟩

/-- What the thread does next, up to its next action. -/
def changeRun (sc : Scope (Faulty (World Rehearsal))) (path : String) :
    List (Moment (Faulty (World Rehearsal))) × State (Faulty (World Rehearsal)) :=
  ((changeMoment sc path).after (rehearsed {})).chronicle (rehearsed {}) (fun _ => false) 3 0

theorem changeRun_chronicle (sc : Scope (Faulty (World Rehearsal))) (path : String)
    (hb : (changeStart sc path).step? (rehearsed {}) 0 = some ((changeMoment sc path).after (rehearsed {}))) :
    Chronicle (rehearsed {}) (changeStart sc path) ([] ++ changeMoment sc path :: (changeRun sc path).1)
      (changeRun sc path).2 :=
  (Chronicle.thread .refl rfl hb).trans (State.chronicle_spec _ _ _ _ _)

/-- Two nodes with an address, in a directory with a topology of three, where the hooks and the provider fail. -/
def failingScope : Scope (Faulty (World Rehearsal)) :=
  { resizedScope with
    world := {
      world := { resizedScope.world.world with addresses := [("db1", "10.0.0.1")] }
      faults :=
        { teardown := [some (.commandFailed (some 1))]
          provide := [some (.unknownNode "db3")]
          setup := [some (.commandFailed none)] } } }

/-- Names a document that is not there, by the status of a container that is not there. -/
def missingText : String := "$\x7bstatus:nobody\x7d.yml"

/-- Every call is made, though all of them fail, and the third node is provided; a document that is missing changes
nothing. -/
theorem change_all_or_nothing_failing :
    Chronicle (rehearsed {}) (changeStart failingScope "three.yml")
        (changeMoment failingScope "three.yml" :: (changeRun failingScope "three.yml").1)
        (changeRun failingScope "three.yml").2 ∧
      (∃ target, target.servers = [{ name := "db", count := 3 }] ∧
        Changing (rehearsed {}) 0 failingScope.topology target [.walk 0 none [], .emit]
          (changeRun failingScope "three.yml").1 (changeRun failingScope "three.yml").2) ∧
      (changeRun failingScope "three.yml").2.noted.map Event.kind = [.hook, .provide, .hook] ∧
      (changeRun failingScope "three.yml").2.provisions.map Topology.servers =
        [[{ name := "db", count := 1, offset := 2 }]] ∧
      ((changeMoment failingScope missingText).after (rehearsed {})).At 0 [.walk 0 none [], .emit] ∧
      ((changeMoment failingScope missingText).after (rehearsed {})).scope.world.world.addresses =
        [("db1", "10.0.0.1")] := by
  have hc := changeRun_chronicle failingScope "three.yml" rfl
  have hc' := changeRun_chronicle failingScope missingText rfl
  have hat : ∀ path, (changeStart failingScope path).At 0 [.walk 0 none [{ scope := path }], .emit] :=
    fun path => ⟨_, rfl, rfl⟩
  have hspec : ({ scope := "three.yml" } : Action).directive = .scope "three.yml" := rfl
  have hspec' : ({ scope := missingText } : Action).directive = .scope missingText := rfl
  have hread : (((failingScope.evaluate (rehearsed {}).env "three.yml").2.files (rehearsed {}).env).readTopology
      "three.yml").toOption.map Topology.servers = some [{ name := "db", count := 3 }] := by decide +kernel
  have hmissing : (((failingScope.evaluate (rehearsed {}).env missingText).2.files (rehearsed {}).env).readTopology
      "missing.yml").toOption.map Topology.servers = none := by decide +kernel
  refine ⟨hc, ?_, by decide +kernel, by decide +kernel, ?_⟩
  · obtain ⟨-, -, -, -, path, sc', hpath, -, hgoes⟩ := change_all_or_nothing rfl hc rfl rfl hspec (hat "three.yml")
    replace hpath : (rehearsed {}).Locates "three.yml" failingScope path sc' := hpath
    obtain ⟨rfl, rfl⟩ := hpath.eq (by decide +kernel : _ = some "three.yml")
    rw [if_neg (by decide +kernel), show Text.trimmed "three.yml" = "three.yml" by decide +kernel] at hgoes
    split at hgoes
    · rename_i heq
      rw [heq] at hread
      cases hread
    · rename_i target heq
      rw [heq] at hread
      exact ⟨target, Option.some.inj hread, hgoes⟩
  · obtain ⟨-, -, -, hview, path, sc', hpath, -, hgoes⟩ :=
      change_all_or_nothing rfl hc' rfl rfl hspec' (hat missingText)
    refine ⟨?_, hview _ (rehearsed_asksQuietly {})⟩
    replace hpath : (rehearsed {}).Locates missingText failingScope path sc' := hpath
    obtain ⟨rfl, rfl⟩ := hpath.eq (by decide +kernel : _ = some "missing.yml")
    rw [if_neg (by decide +kernel), show Text.trimmed "missing.yml" = "missing.yml" by decide +kernel] at hgoes
    split at hgoes
    · exact hgoes
    · rename_i heq
      rw [heq] at hmissing
      cases hmissing

/-! ## A change in the middle of which the thread breaks off -/

/-- A group of one initial node, in a directory with a topology of so few initial nodes that the difference is out of
range. -/
def incomparableScope : Scope (Faulty (World Rehearsal)) :=
  { world := { world := { containers := {}, files :=
      ⟨[(["t.yml"], .text "servers:\n  - name: n\n    count: 2\n    init_nodes: -9223372036854775808\n")]⟩ } }
    topology := { servers := [{ name := "n", count := 1, initNodes := 1 }] } }

/-- The document is loaded and the old topology is taken down, but the new one is neither provided nor set up. -/
theorem incomparable_change_strands :
    Chronicle (rehearsed {}) (changeStart incomparableScope "t.yml")
        (changeMoment incomparableScope "t.yml" :: (changeRun incomparableScope "t.yml").1)
        (changeRun incomparableScope "t.yml").2 ∧
      (changeMoment incomparableScope "t.yml").loads (rehearsed {}) = true ∧
      (changeRun incomparableScope "t.yml").2.noted.map Event.kind = [.hook] ∧
      (changeRun incomparableScope "t.yml").2.threads.all Thread.finished = true ∧
      (changeRun incomparableScope "t.yml").2.scope.topology.servers =
        [{ name := "n", count := 1, initNodes := 1 }] :=
  ⟨changeRun_chronicle incomparableScope "t.yml" rfl, by decide +kernel, by decide +kernel, by decide +kernel,
    by decide +kernel⟩

end Run

end Workload
