import Workload.Proofs.Chronicles
import Workload.Proofs.Course
import Workload.Proofs.Growth
import Workload.Proofs.Passes
import Workload.Proofs.Rests

/-!
# What is provided on the way

Where nodes are created on demand, the provider is handed the initial topology and then, with every
change of the scope, what the new topology has more than the one before (`Provisioned`).  No node is
removed on the way, so the names handed over are distinct exactly if no change has nodes provided that a
topology before it had (`provisions_distinct_iff`).  A cluster that shrinks and grows again breaks this
(`provisions_repeat_resized`).
-/

namespace Workload

/-- The topology that an event hands over to the provider. -/
def Event.provision? : Event → Option Topology
  | .provide t _ => some t
  | _ => none

namespace Run

variable {σ : Type}

/-- The topologies handed over to the provider, in order. -/
def State.provisions (s : State σ) : List Topology := s.noted.filterMap Event.provision?

/-- Whether a job hands a topology over to the provider. -/
def Job.provides : Job → Bool
  | .opening (.provide :: _) _ | .provideScope _ => true
  | _ => false

/-- The topology that a job hands over to the provider. -/
def Job.provision? (st : Settings σ) (s : State σ) : Job → Option Topology
  | .opening (.provide :: _) _ => some s.scope.topology
  | .provideScope target => s.provision? st target
  | _ => none

/-- The topology that the scope is changed to. -/
def Moment.target? (m : Moment σ) : Option Topology :=
  match m.job with
  | .provideScope target => some target
  | _ => none

/-! ## What was handed over -/

section Noted

variable {st : Settings σ} {s s' : State σ} {i : ThreadId} {j : Job}

theorem provision?_of_opening? {e : Event} {c : OpeningCall} {r : Except Fault Unit}
    (h : e.opening? = some (c, r)) (hc : c ≠ .provide) : e.provision? = none := by
  cases e with
  | provide t r' =>
    cases h
    exact absurd rfl hc
  | _ => rfl

theorem provisions_append {e : Event} (h : s'.noted = s.noted ++ [e]) :
    s'.provisions = s.provisions ++ e.provision?.toList := by
  unfold State.provisions
  rw [h, List.filterMap_append]
  cases he : e.provision? <;> simp [he]

theorem provisions_of_noted (h : s'.noted = s.noted) : s'.provisions = s.provisions := by
  unfold State.provisions
  rw [h]

/-- What tells of no provider call. -/
theorem provisions_grows {kinds : List EventKind} (h : s.scope.Grows kinds s'.scope)
    (hk : .provide ∉ kinds) : s'.provisions = s.provisions := by
  obtain ⟨-, new, hn, hnew⟩ := h
  have hnone : ((new.map TimedEvent.event).filter fun e => e.kind ≠ .status).filterMap
      Event.provision? = [] := by
    rw [List.filterMap_eq_nil_iff]
    intro e he
    obtain ⟨x, hx, rfl⟩ := List.mem_map.1 (List.mem_filter.1 he).1
    have hkind := (hnew x hx).2
    cases hev : x.event with
    | provide t r =>
      rw [hev] at hkind
      exact absurd hkind hk
    | _ => rfl
  unfold State.provisions State.noted
  rw [hn, List.map_append, List.filter_append, List.reverse_append, List.filterMap_append,
    @List.filterMap_reverse _ _ _ (List.filter _ (List.map _ new)), hnone]
  simp

/-- A call of the opening hands over the topology of the scope, if it is the one that does. -/
theorem provisions_opening {c : OpeningCall} {cs : List OpeningCall} {inv : Invocation}
    (hb : c = .provide → (s.opening st i (c :: cs) inv).scope.broken = false) :
    (s.opening st i (c :: cs) inv).provisions =
      s.provisions ++ (Job.provision? st s (.opening (c :: cs) inv)).toList := by
  have hmade := makeOpeningCall_noted st c s
  have hbroken := makeOpeningCall_noted_of_broken st c s
  have hprovide : c = .provide → (s.makeOpeningCall st c).2.scope.broken = false →
      (s.makeOpeningCall st c).2.provisions = s.provisions ++ [s.scope.topology] := by
    rintro rfl hb
    have ht : (s.scope.provide st.env s.scope.topology).2.trace =
        ⟨s.scope.clock, .provide s.scope.topology (s.scope.provide st.env s.scope.topology).1⟩ ::
          ([] ++ s.scope.trace) :=
      Scope.call_trace hb
    have hn : (s.makeOpeningCall st .provide).2.noted = _ :=
      noted_of_call ht (by simp) (by simp [Event.kind])
    exact provisions_append hn
  rcases hr : s.makeOpeningCall st c with ⟨r, s₁⟩
  rw [hr] at hmade hbroken hprovide
  have heq : (s.opening st i (c :: cs) inv).noted = s₁.noted ∧
      (s.opening st i (c :: cs) inv).scope.broken = s₁.scope.broken := by
    unfold State.opening
    simp only [hr]
    cases r with
    | ok _ => exact ⟨rfl, rfl⟩
    | error fault =>
      simp only []
      unfold State.openingFailed
      split_ifs
      · exact ⟨noted_of_trace (Scope.grows_note _ _).trace_eq, State.note_broken _ _⟩
      · exact ⟨rfl, rfl⟩
  rw [provisions_of_noted heq.1]
  rw [heq.2] at hb
  by_cases hc : c = .provide
  · obtain rfl := hc
    exact hprovide rfl (hb rfl)
  · have hnone : Job.provision? st s (.opening (c :: cs) inv) = none := by
      cases c <;> first | rfl | exact absurd rfl hc
    rw [hnone]
    cases hb' : s₁.scope.broken with
    | true => simp [provisions_of_noted (hbroken hb')]
    | false =>
      obtain ⟨e, hn, he⟩ := hmade hb'
      simp [provisions_append hn, provision?_of_opening? he hc]

/-- A change of the scope makes one call, and makes the new topology the current one unless that cannot be done. -/
theorem provideScope_spec {target t : Topology} (ht : s.provision? st target = some t) :
    (s.provideScope st target).scope.trace = (s.scope.provide st.env t).2.trace ∧
      (s.provideScope st target).scope.broken =
        ((s.scope.provide st.env t).2.broken || target.nodeNames?.isNone) ∧
      ((s.provideScope st target).scope.broken = false → (s.provideScope st target).scope.topology = target) := by
  obtain ⟨-, htrace, hbroken⟩ := attempt_spec (Scope.provide st.env t)
    (.error "could not provide servers for new scope") s
  unfold State.provideScope
  rw [ht, ← htrace, ← hbroken]
  dsimp only
  generalize s.attempt (Scope.provide st.env t) (.error "could not provide servers for new scope") = s₁
  cases hb : s₁.scope.broken with
  | true =>
    rw [if_pos rfl, hb]
    exact ⟨rfl, rfl, fun h => nomatch h⟩
  | false =>
    rw [if_neg Bool.false_ne_true]
    have hnote := fun s₂ : State σ => (Scope.grows_note (.info "scope changed") s₂.scope).trace_eq
    cases hn : target.nodeNames? with
    | none =>
      refine ⟨hnote _, State.note_broken _ _, fun h => ?_⟩
      rw [State.note_broken] at h
      cases h
    | some names => exact ⟨hnote _, State.note_broken _ _, fun _ => (State.rests_note _ _).scope.topology⟩

/-- A change of the scope hands over what has to be provided for it, and makes the new topology the
current one. -/
theorem provisions_provideScope {target : Topology}
    (hb : (s.provideScope st target).scope.broken = false) :
    (∃ t, s.provision? st target = some t ∧
      (s.provideScope st target).provisions = s.provisions ++ [t]) ∧
      (s.provideScope st target).scope.topology = target := by
  cases ht : s.provision? st target with
  | none =>
    unfold State.provideScope at hb
    rw [ht] at hb
    cases hb
  | some t =>
    obtain ⟨htrace, hbroken, htopology⟩ := provideScope_spec ht
    rw [hb] at hbroken
    have hcall : (s.scope.provide st.env t).2.trace =
        ⟨s.scope.clock, .provide t (s.scope.provide st.env t).1⟩ :: ([] ++ s.scope.trace) :=
      Scope.call_trace (Bool.or_eq_false_iff.1 hbroken.symm).1
    exact ⟨⟨t, rfl, provisions_append (noted_of_call (htrace.trans hcall) (by simp) (by simp [Event.kind]))⟩,
      htopology hb⟩
/-- A job hands over to the provider what it has to provide, and nothing else. -/
theorem provisions_perform
    (hb : j.provides = true → (j.perform st i s).scope.broken = false) :
    (j.perform st i s).provisions = s.provisions ++ (j.provision? st s).toList := by
  obtain ⟨⟨new, spawned, -, hm⟩, -⟩ := j.perform_effect st i s
  have hg : s.scope.Grows j.notes (j.perform st i s).scope := by
    rcases hm with hm | ⟨-, hm⟩
    · exact hm.scope
    · exact hm.scope
  have hquiet : j.provision? st s = none → .provide ∉ j.notes →
      (j.perform st i s).provisions = s.provisions ++ (j.provision? st s).toList := by
    intro hnone hk
    rw [provisions_grows hg hk, hnone]
    simp
  cases j with
  | opening calls inv =>
    cases calls with
    | nil => exact hquiet rfl (by simp [Job.notes])
    | cons c cs =>
      refine provisions_opening ?_
      rintro rfl
      exact hb rfl
  | provideScope target =>
    obtain ⟨⟨t, ht, hp⟩, -⟩ := provisions_provideScope (hb rfl)
    show (s.provideScope st target).provisions = s.provisions ++ (s.provision? st target).toList
    rw [ht, hp]
    rfl
  | _ => exact hquiet rfl (by simp [Job.notes])

theorem provisions_stepped (h : Stepped st i j s s')
    (hb : j.provides = true → (⟨s, i, j⟩ : Moment σ).breaks st = false) :
    s'.provisions = s.provisions ++ (j.provision? st s).toList := by
  have hn : s'.noted = (j.perform st i (s.pop i)).noted := by
    rw [h.result]
    exact noted_of_trace (State.endBroken_trace i _)
  rw [provisions_of_noted hn, provisions_perform hb]
  rfl

end Noted

/-! ## How far the provisioning of a run has come -/

/-- No opening is to come that hands over the topology of the scope. -/
def Provided (jobs : List Job) : Prop := ∀ calls inv, .opening calls inv ∈ jobs → .provide ∉ calls

/-- What a run has handed over to the provider, and what it has changed the scope to. -/
inductive Provisioned (st : Settings σ) (actions : List Action) (first : Topology)
    (c : List (Moment σ)) (s : State σ) : Prop
  /-- The initial topology is yet to be provided. -/
  | ahead (calls : List OpeningCall) (n : Nat) : calls.count .provide = 1 →
    s.threads = [⟨[.opening calls (.whole st actions)], n, false⟩] → s.scope.topology = first →
    s.provisions = [] → c.filterMap Moment.target? = [] → Provisioned st actions first c s
  /-- The run is over before anything was provided. -/
  | never (n : Nat) (crashed : Bool) : s.threads = [⟨[], n, crashed⟩] → s.provisions = [] →
    c.filterMap Moment.target? = [] → Provisioned st actions first c s
  /-- The initial topology was provided, and after it what the changes of the scope lacked. -/
  | underway : s.Stacks Provided →
    s.scope.topology = first.lastOf (c.filterMap Moment.target?) →
    s.provisions = first :: first.deltas (c.filterMap Moment.target?) →
    Provisioned st actions first c s

section Steps

variable {st : Settings σ} {actions : List Action} {first : Topology} {c : List (Moment σ)}
  {s s' : State σ} {i : ThreadId} {j : Job}

theorem target?_concat (m : Moment σ) :
    (c ++ [m]).filterMap Moment.target? = c.filterMap Moment.target? ++ m.target?.toList := by
  rw [List.filterMap_append]
  cases hm : m.target? <;> simp [hm]

/-- Nested tests do not provide nodes that are created on demand. -/
theorem provide_not_mem_nested (hd : st.env.provider.isDynamic = true) :
    .provide ∉ openingCalls st false := by
  unfold openingCalls
  rw [if_neg Bool.false_ne_true, if_pos hd]
  simp

theorem provided_step (hd : st.env.provider.isDynamic = true) (h : Stepped st i j s s')
    (hp : s.Stacks Provided) : s'.Stacks Provided := by
  refine h.forall_stacks hp (fun _ _ hm => nomatch hm) fun js new spawned _ hjs hy => ⟨?_, ?_⟩
  · intro calls inv hm
    rcases List.mem_append.1 hm with hm | hm
    · cases hy.leaves _ hm with
      | nextCall c cs inv =>
        exact fun hc => hjs _ _ List.mem_cons_self (List.mem_cons_of_mem c hc)
      | nested pass last rest =>
        exact fun hc => provide_not_mem_nested hd ((inner_walk hy _ hm).1.subset hc)
    · exact hjs _ _ (List.mem_cons_of_mem j hm)
  · intro l hl calls inv hm
    cases hy.starts l hl _ hm

/-- The opening goes on to provide the initial topology, or is over before. -/
theorem provisioned_ahead {calls : List OpeningCall} {n : Nat} (hprov : calls.count .provide = 1)
    (hth : s.threads = [⟨[.opening calls (.whole st actions)], n, false⟩])
    (htop : s.scope.topology = first) (hnone : s.provisions = [])
    (htargets : c.filterMap Moment.target? = []) (h : Stepped st i j s s')
    (hb : j.provides = true → (⟨s, i, j⟩ : Moment σ).breaks st = false) :
    Provisioned st actions first (c ++ [⟨s, i, j⟩]) s' := by
  cases calls with
  | nil => cases hprov
  | cons call calls =>
    obtain ⟨rfl, js, hjs⟩ := singleton_of_stepped h hth
    obtain ⟨rfl, -⟩ := List.cons.inj hjs
    have hp := provisions_stepped h hb
    have htop' : s'.scope.topology = first := (h.keeps.topology fun t ht => nomatch ht).trans htop
    have htargets' : (c ++ [(⟨s, 0, .opening (call :: calls) (.whole st actions)⟩ :
        Moment σ)]).filterMap Moment.target? = [] := by
      rw [target?_concat, htargets]
      rfl
    by_cases hcall : call = .provide
    · obtain rfl := hcall
      have hp' : s'.provisions = [first] := by
        rw [hp, hnone, ← htop]
        rfl
      have hrest : .provide ∉ calls := by
        rw [List.count_cons_self] at hprov
        exact List.count_eq_zero.1 (Nat.succ.inj hprov)
      refine .underway (fun t ht calls' inv hm => ?_) (by rw [htargets']; exact htop')
        (by rw [htargets', hp']; rfl)
      cases called_of_stepped h hth rfl with
      | ok e n' he hn hth' hf =>
        rw [hth', List.mem_singleton] at ht
        rw [ht, List.mem_singleton] at hm
        cases hm
        exact hrest
      | failed e fault n' he hn hth' hf =>
        rw [hth', List.mem_singleton] at ht
        rw [ht] at hm
        cases hm
      | broken n' hn hth' =>
        rw [hth', List.mem_singleton] at ht
        rw [ht] at hm
        cases hm
    · have hp' : s'.provisions = [] := by
        rw [hp, hnone]
        cases call <;> first | rfl | exact absurd rfl hcall
      rw [List.count_cons_of_ne hcall] at hprov
      cases called_of_stepped h hth rfl with
      | ok e n' he hn hth' hf => exact .ahead calls n' hprov hth' htop' hp' htargets'
      | failed e fault n' he hn hth' hf => exact .never n' false hth' hp' htargets'
      | broken n' hn hth' => exact .never n' true hth' hp' htargets'

/-- A change of the scope provides what the new topology has more than the current one. -/
theorem provisioned_underway (hd : st.env.provider.isDynamic = true) (hp : s.Stacks Provided)
    (htop : s.scope.topology = first.lastOf (c.filterMap Moment.target?))
    (hprov : s.provisions = first :: first.deltas (c.filterMap Moment.target?))
    (h : Stepped st i j s s')
    (hb : j.provides = true → (⟨s, i, j⟩ : Moment σ).breaks st = false) :
    Provisioned st actions first (c ++ [⟨s, i, j⟩]) s' := by
  have hp' := provided_step hd h hp
  have hnew := provisions_stepped h hb
  by_cases hj : ∃ target, j = .provideScope target
  · obtain ⟨target, rfl⟩ := hj
    have hbroken : ((s.pop i).provideScope st target).scope.broken = false := hb rfl
    obtain ⟨⟨t, ht, -⟩, htop'⟩ := provisions_provideScope hbroken
    have hdelta : t = target.delta s.scope.topology := by
      have ht' : (if st.env.provider.isDynamic then target.delta? s.scope.topology
        else some target) = some t := ht
      rw [if_pos hd] at ht'
      unfold Topology.delta? at ht'
      split_ifs at ht'
      exact (Option.some.inj ht').symm
    have hs' : s' = (s.pop i).provideScope st target := by
      rw [h.result]
      exact State.endBroken_of_unbroken hbroken i
    have htargets : (c ++ [(⟨s, i, .provideScope target⟩ : Moment σ)]).filterMap Moment.target? =
        c.filterMap Moment.target? ++ [target] := target?_concat _
    refine .underway hp' ?_ ?_
    · rw [htargets, Topology.lastOf_concat, hs', htop']
    · have hjob : Job.provision? st s (.provideScope target) = some t := ht
      rw [htargets, Topology.deltas_concat, hnew, hprov, hjob, hdelta, htop]
      rfl
  · have htargets : (c ++ [(⟨s, i, j⟩ : Moment σ)]).filterMap Moment.target? =
        c.filterMap Moment.target? := by
      rw [target?_concat]
      cases j with
      | provideScope target => exact absurd ⟨target, rfl⟩ hj
      | _ => exact List.append_nil _
    have hjob : j.provision? st s = none := by
      cases j with
      | provideScope target => exact absurd ⟨target, rfl⟩ hj
      | opening calls inv =>
        obtain ⟨t, js, -, -, -, ht, hjs, -⟩ := h.moves
        have hcalls := hp t (List.mem_of_getElem? ht) calls inv (hjs ▸ List.mem_cons_self)
        cases calls with
        | nil => rfl
        | cons call calls =>
          cases call with
          | provide => exact absurd List.mem_cons_self hcalls
          | _ => rfl
      | _ => rfl
    refine .underway hp' ?_ ?_
    · rw [htargets, h.keeps.topology fun t ht => hj ⟨t, ht⟩, htop]
    · rw [htargets, hnew, hprov, hjob]
      exact List.append_nil _

theorem provisioned_step (hd : st.env.provider.isDynamic = true)
    (hp : Provisioned st actions first c s) (h : Stepped st i j s s')
    (hb : j.provides = true → (⟨s, i, j⟩ : Moment σ).breaks st = false) :
    Provisioned st actions first (c ++ [⟨s, i, j⟩]) s' := by
  cases hp with
  | ahead calls n hprov hth htop hnone htargets =>
    exact provisioned_ahead hprov hth htop hnone htargets h hb
  | never n crashed hth hnone htargets => exact (not_stepped h hth).elim
  | underway hstacks htop hprov => exact provisioned_underway hd hstacks htop hprov h hb

/-- The opening of a run that sets the cluster up provides the initial topology, once. -/
theorem count_provide_openingCalls (st : Settings σ) : (openingCalls st true).count .provide = 1 := by
  unfold openingCalls
  rw [if_pos rfl]
  cases st.config.mode <;> rfl

/-- In a run that sets the cluster up what was handed over is the initial topology, and then what each
change of the scope lacked. -/
theorem provisioned_of_chronicle {sc : Scope σ} {report : Report}
    (hd : st.env.provider.isDynamic = true) (hs : st.config.skipSetup = false) (ht : sc.trace = [])
    (hb : sc.broken = false) (hc : Chronicle st (start st sc actions report) c s)
    (hp : ∀ m ∈ c, m.job.provides = true → m.breaks st = false) :
    Provisioned st actions sc.topology c s := by
  refine hc.invariant (P := fun c s => (∀ m ∈ c, m.job.provides = true → m.breaks st = false) →
    Provisioned st actions sc.topology c s) hb (fun _ => ?_) ?_ ?_ hp
  · refine .ahead (openingCalls st (!st.config.skipSetup)) 0 ?_ rfl rfl ?_ rfl
    · rw [hs]
      exact count_provide_openingCalls st
    · unfold State.provisions State.noted
      rw [show (start st sc actions report).scope.trace = [] from ht]
      rfl
  · intro c i j s s' ih h _ hp
    exact provisioned_step hd (ih fun m hm => hp m (List.mem_append_left _ hm)) h
      (hp _ (List.mem_append_right _ List.mem_cons_self))
  · intro c s time ih _ _ hp
    cases ih hp with
    | ahead calls n hprov hth htop hnone htargets =>
      exact .ahead calls n hprov hth htop hnone htargets
    | never n crashed hth hnone htargets => exact .never n crashed hth hnone htargets
    | underway hstacks htop hprov => exact .underway hstacks htop hprov

/-- In a run that sets the cluster up on nodes created on demand no node is provided twice, exactly if no
change of the scope has nodes provided that a topology before it had. -/
theorem provisions_distinct_iff {sc : Scope σ} {report : Report}
    (hd : st.env.provider.isDynamic = true) (hs : st.config.skipSetup = false) (ht : sc.trace = [])
    (hb : sc.broken = false) (hc : Chronicle st (start st sc actions report) c s)
    (hp : ∀ m ∈ c, m.job.provides = true → m.breaks st = false)
    (hcomp : Topology.Comparable (sc.topology :: c.filterMap Moment.target?)) :
    (s.provisions.flatMap Topology.nodeNames).Nodup ↔
      ¬Topology.Returns [] sc.topology (c.filterMap Moment.target?) := by
  cases provisioned_of_chronicle hd hs ht hb hc hp with
  | ahead calls n _ _ _ hnone htargets =>
    rw [hnone, htargets]
    simp [Topology.Returns]
  | never n crashed _ hnone htargets =>
    rw [hnone, htargets]
    simp [Topology.Returns]
  | underway _ _ hprov =>
    rw [hprov]
    exact Topology.nodup_deltas_iff hcomp

end Steps

/-! ## A cluster that is resized -/

/-- Two nodes, in a directory with topologies of one and of three. -/
def resizedScope : Scope (Faulty (World Rehearsal)) :=
  { world := { world := { containers := {}, files :=
      ⟨[(["one.yml"], .text "servers:\n  - name: db\n"),
        (["three.yml"], .text "servers:\n  - name: db\n    count: 3\n")]⟩ } }
    topology := { servers := [{ name := "db", count := 2 }] } }

/-- What a schedule makes of the changes to two topologies, until the second one is provided. -/
def resized (paths : List String) :
    List (Moment (Faulty (World Rehearsal))) × State (Faulty (World Rehearsal)) :=
  (start (rehearsed {}) resizedScope (paths.map fun path => { scope := path }) {}).chronicle
    (rehearsed {}) (fun s => s.provisions.length = 3) 40 0

theorem resized_chronicle (paths : List String) :
    Chronicle (rehearsed {})
      (start (rehearsed {}) resizedScope (paths.map fun path => { scope := path }) {})
      (resized paths).1 (resized paths).2 :=
  State.chronicle_spec _ _ _ _ _

theorem provisions_distinct_iff_resized :
    ((resized ["three.yml", "one.yml"]).2.provisions.flatMap Topology.nodeNames).Nodup :=
  (provisions_distinct_iff rfl rfl rfl rfl (resized_chronicle ["three.yml", "one.yml"])
    (by decide +kernel) (by decide +kernel)).2 (by decide +kernel)

/-- A cluster that shrinks and then grows has a node provided that it has had all along, though no call
has failed and no node was removed. -/
theorem provisions_repeat_resized :
    ∃ c s, Chronicle (rehearsed {}) (start (rehearsed {}) resizedScope
        [{ scope := "one.yml" }, { scope := "three.yml" }] {}) c s ∧
      (rehearsed {}).env.provider.isDynamic = true ∧ (rehearsed {}).config.skipSetup = false ∧
      (∀ m ∈ c, m.job.provides = true → m.breaks (rehearsed {}) = false) ∧
      (∀ e ∈ s.noted, e.kind ≠ .removeServers ∧ e.opening?.all (fun call => call.2.toBool) = true) ∧
      Topology.Comparable (resizedScope.topology :: c.filterMap Moment.target?) ∧
      s.provisions.flatMap Topology.nodeNames = ["db1", "db2", "db2", "db3"] :=
  ⟨_, _, resized_chronicle ["one.yml", "three.yml"], rfl, rfl, by decide +kernel, by decide +kernel,
    by decide +kernel, by decide +kernel⟩

end Run

end Workload
